import DrillPost.Proofs.Gcode.Drilling
import DrillPost.Proofs.Gcode.Placement
import DrillPost.Proofs.Text.Reading

/-!
# Sinks that fill up

A sink takes a program in order and up to the last byte that it has room for. So it has taken a
beginning of the program (`Gcode.accepted_deliver_eq`), and all of it exactly if there is room for
all (`Gcode.isComplete_deliver_iff`). Reports stand between the bytes: `Gcode.eventsAfter` says how
many bytes come before each, and a report is made exactly if there is room for these
(`Gcode.events_deliver_eq`). Positions only grow, so with less room the reports are the first of
those that are made with more (`Gcode.isPrefix_events_deliver`).

`Gcode.Streams` puts together what streaming a program to a sink does, and `Gcode.streams_or_fault`
says that nothing else can come of it than this or the fault of the settings or the job.
-/

namespace DrillPost.Gcode

/-! ### Room -/

/-- There is room for so many bytes. -/
def HasRoom (room : Option Nat) (count : Nat) : Prop := ∀ limit ∈ room, count ≤ limit

instance (room : Option Nat) (count : Nat) : Decidable (HasRoom room count) :=
  inferInstanceAs (Decidable (∀ limit ∈ room, count ≤ limit))

@[simp] theorem hasRoom_none (count : Nat) : HasRoom none count := nofun

@[simp] theorem hasRoom_some {limit count : Nat} : HasRoom (some limit) count ↔ count ≤ limit := by
  simp [HasRoom]

/-- Of so many bytes, how many there is room for. -/
def fitting (room : Option Nat) (count : Nat) : Nat := room.elim count (min · count)

theorem take_fitting (limit : Nat) (content : Bytes) :
    content.take (fitting (some limit) content.length) = content.take limit :=
  List.take_eq_take_min.symm

section Deliver

variable {room room' : Option Nat} {pieces : List Piece}

/-- A sink has taken as much of the text as it has room for. -/
theorem accepted_deliver_eq (room : Option Nat) (pieces : List Piece) :
    (deliver room pieces).accepted =
      (utf8 (joinPieces pieces)).take (fitting room (utf8 (joinPieces pieces)).length) := by
  cases room with
  | none =>
    have hcomplete : (deliver none pieces).isComplete = true := by
      induction pieces with
      | nil => rfl
      | cons piece rest ih => cases piece <;> exact ih
    rw [accepted_deliver hcomplete, fitting, Option.elim_none, List.take_length]
  | some limit =>
    rw [take_fitting]
    induction pieces generalizing limit with
    | nil => simp [deliver, joinPieces]
    | cons piece rest ih =>
      cases piece with
      | event e => exact ih limit
      | text s =>
        rw [deliver, joinPieces_text, utf8_append, List.take_append]
        split
        · next hfits =>
          rw [Delivery.afterBytes, ih, List.take_of_length_le hfits]
        · next hfits =>
          rw [Nat.sub_eq_zero_of_le (Nat.le_of_not_le hfits), List.take_zero, List.append_nil]

/-- Every piece is taken exactly if there is room for the whole text. -/
theorem isComplete_deliver_iff (room : Option Nat) (pieces : List Piece) :
    (deliver room pieces).isComplete = true ↔ HasRoom room (utf8 (joinPieces pieces)).length := by
  induction pieces generalizing room with
  | nil =>
    have hlength : (utf8 (joinPieces [])).length = 0 := by simp [joinPieces]
    rw [hlength]
    cases room <;> simp [deliver]
  | cons piece rest ih =>
    cases piece with
    | event e => exact ih room
    | text s =>
      rw [joinPieces_text, utf8_append, List.length_append]
      cases room with
      | none => simpa [deliver, Delivery.afterBytes] using ih none
      | some limit =>
        rw [deliver, hasRoom_some]
        split
        · next hfits =>
          rw [Delivery.afterBytes, ih, hasRoom_some]
          omega
        · next hfits =>
          constructor
          · intro hcomplete
            cases hcomplete
          · omega

/-! ### Reports between the bytes -/

/-- The events among pieces, each with the number of bytes that come before it. -/
def eventsAfter (before : Nat) : List Piece → List (Nat × Event)
  | [] => []
  | .event e :: rest => (before, e) :: eventsAfter before rest
  | .text s :: rest => eventsAfter (before + (utf8 s).length) rest

theorem eventsAfter_append (before : Nat) (pieces more : List Piece) :
    eventsAfter before (pieces ++ more) =
      eventsAfter before pieces ++
        eventsAfter (before + (utf8 (joinPieces pieces)).length) more := by
  induction pieces generalizing before with
  | nil => simp [eventsAfter, joinPieces]
  | cons piece rest ih =>
    cases piece with
    | event e => exact congrArg (_ :: ·) (ih before)
    | text s =>
      rw [List.cons_append, eventsAfter, eventsAfter, ih, joinPieces_text, utf8_append,
        List.length_append, Nat.add_assoc]

theorem eventsAfter_text {α : Type} (before : Nat) (text : α → String) (l : List α) :
    eventsAfter before (l.map fun a => .text (text a)) = [] := by
  induction l generalizing before with
  | nil => rfl
  | cons a l ih => exact ih _

theorem le_of_mem_eventsAfter {before : Nat} {p : Nat × Event}
    (h : p ∈ eventsAfter before pieces) : before ≤ p.1 := by
  induction pieces generalizing before with
  | nil => cases h
  | cons piece rest ih =>
    cases piece with
    | event e =>
      rcases List.mem_cons.1 h with rfl | h
      · exact Nat.le_refl _
      · exact ih h
    | text s => exact Nat.le_of_add_right_le (ih h)

/-- Positions only grow. -/
theorem pairwise_eventsAfter (before : Nat) (pieces : List Piece) :
    (eventsAfter before pieces).Pairwise fun p q => p.1 ≤ q.1 := by
  induction pieces generalizing before with
  | nil => exact .nil
  | cons piece rest ih =>
    cases piece with
    | event e => exact .cons (fun p hp => le_of_mem_eventsAfter hp) (ih before)
    | text s => exact ih _

theorem events_deliver_some (limit before : Nat) (pieces : List Piece) :
    (deliver (some limit) pieces).events =
      ((eventsAfter before pieces).filter fun p => p.1 ≤ before + limit).map Prod.snd := by
  induction pieces generalizing limit before with
  | nil => rw [deliver]; rfl
  | cons piece rest ih =>
    cases piece with
    | event e =>
      rw [deliver, eventsAfter, List.filter_cons_of_pos (by simp), List.map_cons]
      exact congrArg (e :: ·) (ih limit before)
    | text s =>
      rw [deliver, eventsAfter]
      split
      · next hfits =>
        have hlimit : before + (utf8 s).length + (limit - (utf8 s).length) = before + limit := by
          omega
        rw [← hlimit]
        exact ih _ _
      · next hfits =>
        -- Whatever comes later stands after bytes for which there is no room.
        have hnone : (eventsAfter (before + (utf8 s).length) rest).filter
            (fun p => p.1 ≤ before + limit) = [] := by
          apply List.filter_eq_nil_iff.2
          intro p hp
          have := le_of_mem_eventsAfter hp
          simp only [decide_eq_true_eq]
          omega
        rw [hnone]
        rfl

/-- A report is made if there is room for what comes before it. -/
theorem events_deliver_eq (room : Option Nat) (pieces : List Piece) :
    (deliver room pieces).events =
      ((eventsAfter 0 pieces).filter fun p => HasRoom room p.1).map Prod.snd := by
  cases room with
  | some limit =>
    rw [events_deliver_some limit 0]
    simp only [Nat.zero_add, hasRoom_some]
  | none =>
    simp only [hasRoom_none, decide_true, List.filter_true]
    generalize 0 = before
    induction pieces generalizing before with
    | nil => rfl
    | cons piece rest ih =>
      cases piece with
      | event e => exact congrArg (e :: ·) (ih before)
      | text s => exact ih _

/-- What is kept is a beginning, if nothing is kept after what is not. -/
theorem filter_isPrefix {α : Type} {p : α → Bool} {l : List α}
    (h : l.Pairwise fun a b => p b = true → p a = true) : l.filter p <+: l := by
  induction h with
  | nil => exact List.prefix_rfl
  | @cons a l hfirst hrest ih =>
    cases hp : p a with
    | true =>
      rw [List.filter_cons_of_pos hp]
      exact (List.prefix_cons_inj a).2 ih
    | false =>
      have hnone : l.filter p = [] := by
        apply List.filter_eq_nil_iff.2
        intro b hb hkept
        rw [hfirst b hb hkept] at hp
        cases hp
      rw [List.filter_cons_of_neg (by simp [hp]), hnone]
      exact List.nil_prefix

/-- More room gives the same reports, and perhaps more after them. -/
theorem isPrefix_events_deliver (h : ∀ count, HasRoom room count → HasRoom room' count)
    (pieces : List Piece) : (deliver room pieces).events <+: (deliver room' pieces).events := by
  rw [events_deliver_eq, events_deliver_eq]
  apply List.IsPrefix.map
  have hfilter : (eventsAfter 0 pieces).filter (fun p => HasRoom room p.1) =
      ((eventsAfter 0 pieces).filter fun p => HasRoom room' p.1).filter
        fun p => HasRoom room p.1 := by
    rw [List.filter_filter]
    apply List.filter_congr
    intro p _
    rw [← Bool.decide_and, decide_eq_decide]
    exact ⟨fun hroom => ⟨hroom, h _ hroom⟩, And.left⟩
  rw [hfilter]
  apply filter_isPrefix
  apply ((pairwise_eventsAfter 0 pieces).filter _).imp
  intro p q hle hq
  rw [decide_eq_true_eq] at hq ⊢
  intro limit hlimit
  exact Nat.le_trans hle (hq limit hlimit)

end Deliver

/-! ### Reports of segments -/

section Segments

variable {settings : ProgramSettings} {job : ToolJob} {segment segment' : Segment}
  {index index' : Nat}

theorem joinPieces_segmentPieces (settings : ProgramSettings) (index : Nat) (segment : Segment) :
    joinPieces (segmentPieces settings index segment) =
      renderLines (segment.holes.flatMap (cycle settings.safeHeight settings.drillDepth)) := by
  rw [joinPieces, filterMap_segmentPieces, renderLines_flatMap]

/-- The lines that drill the holes of segments. -/
def segmentLines (settings : ProgramSettings) (segments : List Segment) : List Line :=
  (segments.flatMap Segment.holes).flatMap (cycle settings.safeHeight settings.drillDepth)

/-- How many bytes of a program come before a segment: those of the header and of the holes of the
segments before it. -/
def segmentStart (settings : ProgramSettings) (job : ToolJob) (index : Nat) : Nat :=
  (utf8 (renderLines
    (header settings.spindlePower ++ segmentLines settings (job.segments.take index)))).length

theorem eventsAfter_segmentPieces (before : Nat) (settings : ProgramSettings) (index : Nat)
    (segment : Segment) :
    eventsAfter before (segmentPieces settings index segment) =
      [(before, segmentEvent index segment)] := by
  rw [segmentPieces, eventsAfter, eventsAfter_text]

/-- Before each segment come the holes of those before it; `offset` is the index of the first. -/
theorem eventsAfter_segments (before offset : Nat) (settings : ProgramSettings)
    (segments : List Segment) :
    eventsAfter before ((segments.zipIdx offset).flatMap fun (segment, index) =>
        segmentPieces settings index segment) =
      (segments.zipIdx offset).map fun (segment, index) =>
        (before + (utf8 (renderLines
          (segmentLines settings (segments.take (index - offset))))).length,
          segmentEvent index segment) := by
  induction segments generalizing before offset with
  | nil => rfl
  | cons segment segments ih =>
    rw [List.zipIdx_cons, List.flatMap_cons, List.map_cons, eventsAfter_append,
      eventsAfter_segmentPieces, joinPieces_segmentPieces, ih, List.singleton_append]
    refine congrArg₂ List.cons ?_ ?_
    · simp [segmentLines, renderLines]
    · apply List.map_congr_left
      rintro ⟨other, index⟩ hmem
      -- The segments before a later one are the first and those between.
      have hindex : index - offset = index - (offset + 1) + 1 := by
        have := List.le_snd_of_mem_zipIdx hmem
        omega
      dsimp only
      rw [hindex, List.take_succ_cons, segmentLines, segmentLines, List.flatMap_cons,
        List.flatMap_append, renderLines_append, utf8_append, List.length_append, Nat.add_assoc]

theorem eventsAfter_pieces (settings : ProgramSettings) (job : ToolJob) :
    eventsAfter 0 (pieces settings job) = job.segments.zipIdx.map fun (segment, index) =>
      (segmentStart settings job index, segmentEvent index segment) := by
  rw [pieces, List.cons_append, eventsAfter, eventsAfter_append, eventsAfter_segments]
  simp only [eventsAfter, List.append_nil, Nat.zero_add, Nat.sub_zero, segmentStart,
    renderLines_append, utf8_append, List.length_append]

/-- The reports of a program are those of the segments that there is room for to begin. -/
theorem events_deliver_pieces (settings : ProgramSettings) (job : ToolJob) (room : Option Nat) :
    (deliver room (pieces settings job)).events =
      (job.segments.zipIdx.filter fun (_, index) =>
        HasRoom room (segmentStart settings job index)).map fun (segment, index) =>
          segmentEvent index segment := by
  rw [events_deliver_eq, eventsAfter_pieces, List.filter_map, List.map_map]
  refine congrArg₂ List.map rfl (List.filter_congr ?_)
  rintro ⟨segment, index⟩ -
  simp only [Function.comp_apply]

/-- A report of a segment tells which segment it is. -/
theorem index_eq_of_segmentEvent_eq
    (h : segmentEvent index segment = segmentEvent index' segment') : index = index' := by
  have hmessage := congrArg String.toList (congrArg Event.message h)
  have hdigits : ∀ n : Nat, (toString n).toList = Nat.toDigits 10 n :=
    fun n => String.toList_ofList
  simp only [segmentEvent, String.toList_append, hdigits, List.append_assoc,
    List.append_cancel_left_eq] at hmessage
  -- The digits of the index end at the colon.
  have hspan : ∀ (n : Nat) (rest : List Char),
      (Nat.toDigits 10 n ++ ((toString ": ").toList ++ rest)).takeWhile Char.isDigit =
        Nat.toDigits 10 n := by
    intro n rest
    apply (Numeral.span_digits_append _ (forall_mem_head?_cons (by decide) _)).1
    exact fun c hc => Nat.isDigit_of_mem_toDigits (by decide) (by decide) hc
  have htake := congrArg (List.takeWhile Char.isDigit) hmessage
  rw [hspan, hspan] at htake
  rw [← digitsValue_toDigits index, htake, digitsValue_toDigits]

theorem segmentEvent_ne_emptyJobEvent (index : Nat) (segment : Segment) (job : ToolJob) :
    segmentEvent index segment ≠ emptyJobEvent job := by
  intro h
  cases congrArg Event.level h

end Segments

/-! ### Programs in sinks -/

/-- A sink has been sent a program, and took of it what it has room for. -/
structure Streams (settings : ProgramSettings) (job : ToolJob) (sink : Sink) (content : Bytes)
    (s : Streamed) : Prop where
  /-- The sink holds the first bytes of the program, as many as fit. -/
  accepted_eq : s.accepted = content.take (fitting sink.room content.length)
  /-- All is well exactly if everything fits and is handed on. -/
  result_eq_ok_iff : s.result = .ok () ↔
    HasRoom sink.room content.length ∧ sink.flushFails = false
  /-- Otherwise the sink is to blame. -/
  result_eq_error : ∀ error, s.result = .error error → error.isSinkError = true ∧
    error = .stream (if HasRoom sink.room content.length then .flushFailed else .sinkFull)
  /-- The segments are reported one after another, up to where the sink is full. -/
  events_eq : s.events = openingEvents job ++
    (job.segments.zipIdx.filter fun (_, index) =>
      HasRoom sink.room (segmentStart settings job index)).map fun (segment, index) =>
        segmentEvent index segment
  /-- A segment is reported exactly if there is room for what comes before it. -/
  mem_events_iff : ∀ index segment, job.segments[index]? = some segment →
    (segmentEvent index segment ∈ s.events ↔ HasRoom sink.room (segmentStart settings job index))
  /-- In a sink with more room the reports begin with these. -/
  isPrefix_events : ∀ larger : Sink,
    (∀ count, HasRoom sink.room count → HasRoom larger.room count) →
      s.events <+: (stream settings job larger).events

theorem streams_of_fault?_eq {settings : ProgramSettings} {job : ToolJob}
    (h : fault? settings job = none) (sink : Sink) :
    Streams settings job sink (utf8 (document settings job)) (stream settings job sink) := by
  have hcomplete := isComplete_deliver_iff sink.room (pieces settings job)
  have hevents := events_deliver_pieces settings job sink.room
  rw [← document] at hcomplete
  constructor
  case accepted_eq =>
    rw [stream, h]
    exact accepted_deliver_eq _ _
  case result_eq_ok_iff =>
    rw [stream, h, ← hcomplete]
    dsimp only
    cases (deliver sink.room (pieces settings job)).isComplete <;> cases sink.flushFails <;> simp
  case result_eq_error =>
    intro error herror
    rw [stream, h] at herror
    dsimp only at herror
    rw [if_congr hcomplete.symm rfl rfl]
    split at herror
    · next hfull =>
      cases herror
      rw [if_neg (by simpa using hfull)]
      exact ⟨rfl, rfl⟩
    · next hfull =>
      split at herror
      · cases herror
        rw [if_pos (by simpa using hfull)]
        exact ⟨rfl, rfl⟩
      · cases herror
  case events_eq =>
    rw [stream, h, ← hevents]
  case mem_events_iff =>
    intro index segment hsegment
    rw [stream, h]
    dsimp only
    rw [hevents, List.mem_append, List.mem_map]
    constructor
    · rintro (hopening | ⟨⟨other, i⟩, hmem, heq⟩)
      · unfold openingEvents at hopening
        split at hopening
        · cases segmentEvent_ne_emptyJobEvent _ _ _ (List.mem_singleton.1 hopening)
        · cases hopening
      · rw [← index_eq_of_segmentEvent_eq heq]
        simpa using (List.mem_filter.1 hmem).2
    · intro hroom
      refine .inr ⟨(segment, index), List.mem_filter.2 ⟨?_, by simpa using hroom⟩, rfl⟩
      exact List.mk_mem_zipIdx_iff_getElem?.2 hsegment
  case isPrefix_events =>
    intro larger hlarger
    rw [stream, stream, h]
    exact (List.prefix_append_right_inj _).2 (isPrefix_events_deliver hlarger _)

/-- Sending a program to a sink shows a fault of the settings, or else of the job, before the sink
has taken anything, and otherwise fills the sink with the program. -/
theorem streams_or_fault (settings : ProgramSettings) (job : ToolJob) (sink : Sink) :
    let s := stream settings job sink
    match settings.fault?, job.fault? with
    | some fault, _ => s = ⟨.error (.settings fault), [], []⟩
    | none, some fault => s = ⟨.error (.job fault), [], []⟩
    | none, none => ∃ text, program settings job = .ok text ∧
        Streams settings job sink (utf8 text) s := by
  intro s
  cases hsettings : settings.fault? with
  | some fault => simp [s, stream, fault?, hsettings]
  | none =>
    cases hjob : job.fault? with
    | some fault => simp [s, stream, fault?, hsettings, hjob]
    | none =>
      have hfault := fault?_eq_none_iff.2 ⟨hsettings, hjob⟩
      refine ⟨document settings job, ?_, streams_of_fault?_eq hfault sink⟩
      rw [program, hfault]

end DrillPost.Gcode
