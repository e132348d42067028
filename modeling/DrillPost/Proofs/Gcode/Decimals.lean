import DrillPost.Job.File
import DrillPost.Proofs.Gcode.Programs
import DrillPost.Proofs.Job.Written
import DrillPost.Proofs.Json.Literal

/-!
# The decimals of a job are those of its programs

A job is read from a text and its programs are put in place. If the literals of its coordinates and
diameters are short, then every number in a program and in the name of its file is the number that a
literal of the text denotes, and tools share a program exactly if their diameters denote one number
(`Gcode.keepsDecimals_placeAll`); `Gcode.KeepsDecimals` says in detail what that means.

A short literal is read as the nearest value, the value is written as the shortest decimal, and that
is the literal again (`Gcode.number?_toList_scalar`). So values of short literals are equal only if
the literals are (`Gcode.equal_value_iff`), and merging goes by the numbers.
-/

namespace DrillPost

namespace Json

/-! ### Literals as numbers -/

theorem Written.toRat_eq (n : Written) : n.toRat =
    if n.isNegative then -n.literal.decimal.toRat else n.literal.decimal.toRat := rfl

theorem abs_toRat (n : Written) : |n.toRat| = n.literal.decimal.toRat := by
  have h := n.literal.decimal.toRat_nonneg
  rw [Written.toRat_eq]
  split
  · rw [abs_neg, abs_of_nonneg h]
  · exact abs_of_nonneg h

/-- What is known of the value of a short literal: its magnitude is nearest to the literal, and the
sign that is written of it makes the literal's number of the literal's decimal. -/
theorem Written.exists_value_eq {n : Written} (h : n.literal.IsShort) :
    ∃ s x, n.value = .finite s x ∧ x.IsNearest n.literal.decimal.toRat ∧
      (if s && x.significand != 0 then -n.literal.decimal.toRat else n.literal.decimal.toRat) =
        n.toRat := by
  obtain ⟨rest, hread⟩ := n.isRead
  obtain ⟨s, x, hvalue, hnearest, hsign⟩ := h.isValue hread
  refine ⟨s, x, hvalue, hnearest, ?_⟩
  by_cases h0 : n.literal.decimal.coefficient = 0
  · rw [Written.toRat_eq, Decimal.toRat_eq_zero_iff.2 h0, neg_zero, ite_self, ite_self]
  · have hlarge := hnearest.le_significand (h.le_toRat_mul h0)
    have hne : (x.significand != 0) = true := bne_iff_ne.2 (by omega)
    rw [hsign h0, hne, Bool.and_true, Written.toRat_eq]

theorem Literal.IsShort.isFinite_value {n : Written} (h : n.literal.IsShort) :
    n.value.isFinite = true := by
  obtain ⟨s, x, hvalue, -⟩ := Written.exists_value_eq h
  rw [hvalue]
  rfl

end Json

/-- The literals of a job are short. -/
structure WrittenJob.IsShort (written : WrittenJob) : Prop where
  diameter : ∀ tool ∈ written.tools, tool.diameter.literal.IsShort
  holes : ∀ tool ∈ written.tools, ∀ hole ∈ tool.holes,
    hole.x.literal.IsShort ∧ hole.y.literal.IsShort

instance (written : WrittenJob) : Decidable written.IsShort :=
  decidable_of_iff ((∀ tool ∈ written.tools, tool.diameter.literal.IsShort) ∧
    ∀ tool ∈ written.tools, ∀ hole ∈ tool.holes,
      hole.x.literal.IsShort ∧ hole.y.literal.IsShort)
    ⟨fun h => ⟨h.1, h.2⟩, fun h => ⟨h.1, h.2⟩⟩

namespace Gcode

open Json Numeral

variable {n m : Written}

/-- The word of a short literal denotes the number that the literal denotes. -/
theorem number?_toList_scalar (h : n.literal.IsShort) :
    Numeral.number? (scalar n.value).toList = some n.toRat := by
  obtain ⟨s, x, hvalue, hnearest, htoRat⟩ := n.exists_value_eq h
  rw [hvalue, toList_scalar, number?_signText (ofText?_plainText (isPlain_wordNumeral x)),
    wordNumeral, Decimal.toRat_numeral, h.toRat_shortest hnearest, htoRat]

theorem number?_toList_coordinate (h : n.literal.IsShort) :
    Numeral.number? (coordinate n.value).toList = some n.toRat := by
  obtain ⟨s, x, hvalue, hnearest, htoRat⟩ := n.exists_value_eq h
  have hplain := isPlain_wordNumeral x
  rw [hvalue, toList_coordinate, number?_signText (ofText?_plainText hplain.withFraction),
    toRat_withFraction hplain,
    wordNumeral, Decimal.toRat_numeral, h.toRat_shortest hnearest, htoRat]

/-- Values of short literals are equal exactly if the literals denote one number. -/
theorem equal_value_iff (hn : n.literal.IsShort) (hm : m.literal.IsShort) :
    n.value.equal m.value = true ↔ n.toRat = m.toRat := by
  obtain ⟨s, x, hvalue, hnearest, htoRat⟩ := n.exists_value_eq hn
  obtain ⟨t, y, hvalue', hnearest', htoRat'⟩ := m.exists_value_eq hm
  constructor
  · intro h
    have hword := number?_toList_scalar hn
    rw [scalar_eq_of_equal hn.isFinite_value hm.isFinite_value h, number?_toList_scalar hm] at hword
    exact (Option.some.inj hword).symm
  · intro h
    have hdecimal : n.literal.decimal.toRat = m.literal.decimal.toRat := by
      rw [← abs_toRat, h, abs_toRat]
    -- Both magnitudes are nearest to one number.
    have hxy : x = y := hnearest.unique n.literal.decimal.toRat_nonneg (hdecimal ▸ hnearest')
    rw [hvalue, hvalue', Binary64.equal_finite_iff]
    refine ⟨hxy, ?_⟩
    by_cases hzero : x.significand = 0
    · exact .inr hzero
    -- The number is not zero, so it tells the sign.
    left
    have hne : n.literal.decimal.toRat ≠ 0 := by
      intro h0
      rw [h0] at hnearest
      rw [hnearest.eq_zero] at hzero
      exact hzero rfl
    rw [← hxy, ← hdecimal] at htoRat'
    rw [← htoRat, ← htoRat', bne_iff_ne.2 hzero, Bool.and_true, Bool.and_true] at h
    have hneg : -n.literal.decimal.toRat ≠ n.literal.decimal.toRat := by
      intro h0
      apply hne
      linarith
    cases s <;> cases t
    · rfl
    · exact absurd h.symm hneg
    · exact absurd h hneg
    · rfl

/-! ### The numbers in a program -/

/-- The number in a word, if the word begins with a letter. -/
def wordNumber? (letter : Char) : List Char → Option (Option ℚ)
  | c :: number => if c = letter then some (Numeral.number? number) else none
  | [] => none

def lineNumbers (letter : Char) (words : List (List Char)) : List (Option ℚ) :=
  words.filterMap (wordNumber? letter)

/-- The positions that a text names: the numbers in the X words and in the Y words of every line
that has any. -/
def positions (text : String) : List (List (Option ℚ) × List (Option ℚ)) :=
  ((Machine.wordLines text).map fun words => (lineNumbers 'X' words, lineNumbers 'Y' words)).filter
    (· ≠ ([], []))

/-- The position that the words of a hole name. -/
def wordPosition (hole : Hole) : List (Option ℚ) × List (Option ℚ) :=
  ([Numeral.number? (coordinate hole.x).toList], [Numeral.number? (coordinate hole.y).toList])

def Line.positions : Line → List (List (Option ℚ) × List (Option ℚ))
  | .travel hole => [wordPosition hole]
  | _ => []

theorem positions_renderLines {lines : List Line} (h : ∀ l ∈ lines, l.IsWritable) :
    positions (renderLines lines) = lines.flatMap Line.positions := by
  rw [positions, wordLines_renderLines h]
  clear h
  induction lines with
  | nil => rfl
  | cons l lines ih =>
    rw [List.flatMap_cons, ← ih]
    -- Only a travel has words that begin with these letters.
    cases l <;> rfl

theorem positions_document {settings : ProgramSettings} {job : ToolJob}
    (hs : settings.fault? = none) (hj : job.fault? = none) :
    positions (document settings job) = job.holes.map wordPosition := by
  have hheader : (header settings.spindlePower).flatMap Line.positions = [] := rfl
  have hfooter : (footer settings.safeHeight).flatMap Line.positions = [] := rfl
  have hcycle : ∀ hole,
      (cycle settings.safeHeight settings.drillDepth hole).flatMap Line.positions =
        [wordPosition hole] := fun _ => rfl
  rw [document_eq, positions_renderLines (isWritable_programLines hs hj), programLines,
    List.flatMap_append, List.flatMap_append, hheader, hfooter, List.nil_append, List.append_nil,
    List.flatMap_assoc]
  simp only [hcycle]
  exact List.map_eq_flatMap.symm

/-! ### The programs of a job that was read -/

/-- At a path is the program of the tools whose diameters denote a number. The number is in the name
of the file, and the positions in its text are the numbers that the literals of the holes denote. -/
structure IsProgramFor (host : Host) (sinkName : Path) (tools : List WrittenTool)
    (files : FileSystem) (diameter : ℚ) (path : Path) : Prop where
  exists_name : ∃ name : String, path.bytes = sinkName.bytes ++ utf8 ("_" ++ name ++ ".cnc") ∧
    Numeral.number? name.toList = some diameter
  exists_text : ∃ text target mode, files.resolve host path = .ok target ∧
    files.lookup? target = some (.file mode (utf8 text)) ∧
    positions text = ((tools.filter fun t => t.diameter.toRat = diameter).flatMap
      WrittenTool.holes).map fun hole => ([some hole.x.toRat], [some hole.y.toRat])

/-- The programs of a job keep its decimals: there is one for each number that is a diameter, and
two tools share one exactly if their diameters denote the same number. -/
structure KeepsDecimals (host : Host) (sinkName : Path) (written : WrittenJob) (paths : List Path)
    (files : FileSystem) : Prop where
  exists_diameters : ∃ diameters : List ℚ, diameters.Nodup ∧
    (∀ q, q ∈ diameters ↔ ∃ tool ∈ written.tools, tool.diameter.toRat = q) ∧
    List.Forall₂ (IsProgramFor host sinkName written.tools files) diameters paths
  exists_job_iff : ∀ tool ∈ written.tools, ∀ other ∈ written.tools,
    (∃ job ∈ written.toDrillJob.byDiameter, job.diameter.equal tool.diameter.value = true ∧
      job.diameter.equal other.diameter.value = true) ↔
    tool.diameter.toRat = other.diameter.toRat

variable {disks : Disks} {host : Host} {settings : ProgramSettings} {sinkName : Path}
  {files files' : FileSystem} {written : WrittenJob}

/-- The diameter of a merged job is that of a tool. -/
theorem exists_tool_of_mem_byDiameter {job : ToolJob} (hjob : job ∈ written.toDrillJob.byDiameter) :
    ∃ tool ∈ written.tools, tool.diameter.value = job.diameter := by
  obtain ⟨tool, htool, heq⟩ := (merges_byDiameter written.toDrillJob).exists_tool job hjob
  obtain ⟨source, hsource, rfl⟩ := List.mem_map.1 htool
  exact ⟨source, hsource, heq⟩

/-- A tool belongs to a merged job whose diameter denotes the same number. -/
theorem exists_job_of_mem_tools (hshort : written.IsShort) {tool : WrittenTool}
    (htool : tool ∈ written.tools) :
    ∃ job ∈ written.toDrillJob.byDiameter, job.diameter.equal tool.diameter.value = true := by
  obtain ⟨job, hjob, hequal⟩ := (merges_byDiameter written.toDrillJob).exists_job tool.toToolJob
    (List.mem_map_of_mem htool)
  refine ⟨job, hjob, ?_⟩
  rcases hequal with heq | hequal
  -- The diameter is finite, so it equals itself.
  · rw [heq]
    exact (equal_value_iff (hshort.diameter tool htool) (hshort.diameter tool htool)).2 rfl
  · exact hequal

/-- The holes of a merged job are those of the tools whose diameters denote its number. -/
theorem holes_of_mem_byDiameter (hshort : written.IsShort) {job : ToolJob} {tool : WrittenTool}
    (hjob : job ∈ written.toDrillJob.byDiameter) (htool : tool ∈ written.tools)
    (heq : tool.diameter.value = job.diameter) :
    job.holes = ((written.tools.filter fun t => t.diameter.toRat = tool.diameter.toRat).flatMap
      WrittenTool.holes).map WrittenHole.toHole := by
  have htools : ofDiameter job.diameter written.toDrillJob.tools =
      (written.tools.filter fun t => t.diameter.toRat = tool.diameter.toRat).map
        WrittenTool.toToolJob := by
    rw [ofDiameter, WrittenJob.toDrillJob, List.filter_map, ← heq]
    congr 1
    refine List.filter_congr fun t ht => ?_
    rw [Function.comp_apply, Bool.eq_iff_iff, decide_eq_true_iff]
    exact equal_value_iff (hshort.diameter t ht) (hshort.diameter tool htool)
  have hfinite : job.diameter.isFinite = true := by
    rw [← heq]
    exact (hshort.diameter tool htool).isFinite_value
  rw [holes_eq_of_mem_byDiameter hjob hfinite, htools, List.flatMap_map, List.map_flatMap]
  exact congrArg (List.flatMap · _) (funext WrittenTool.holes_toToolJob)

/-- At the path of a merged job is the program for its number. -/
theorem isProgramFor_programPath (hshort : written.IsShort) {job : ToolJob} {tool : WrittenTool}
    (hjob : job ∈ written.toDrillJob.byDiameter) (htool : tool ∈ written.tools)
    (heq : tool.diameter.value = job.diameter)
    (h : AllPlaced host settings sinkName written.toDrillJob.byDiameter files files') :
    IsProgramFor host sinkName written.tools files' tool.diameter.toRat
      (programPath sinkName job.diameter) := by
  obtain ⟨hs, hj⟩ := fault?_eq_none_iff.1 (h.fault?_eq job hjob)
  obtain ⟨target, mode, hresolve, hlookup⟩ := h.exists_file hjob
  have hname : "_" ++ scalar job.diameter ++ "." ++ extension =
      "_" ++ scalar job.diameter ++ ".cnc" := by
    rw [String.append_assoc]
    rfl
  refine ⟨⟨scalar job.diameter, ?_, ?_⟩, document settings job, target, mode, hresolve, hlookup, ?_⟩
  · rw [programPath, hname]
  · rw [← heq]
    exact number?_toList_scalar (hshort.diameter tool htool)
  · rw [positions_document hs hj, holes_of_mem_byDiameter hshort hjob htool heq, List.map_map]
    refine List.map_congr_left fun hole hhole => ?_
    obtain ⟨t, ht, hhole⟩ := List.mem_flatMap.1 hhole
    obtain ⟨hx, hy⟩ := hshort.holes t (List.mem_of_mem_filter ht) hole hhole
    rw [Function.comp_apply, wordPosition, WrittenHole.toHole, number?_toList_coordinate hx,
      number?_toList_coordinate hy]

def diameterNumber (job : ToolJob) : ℚ := (Numeral.number? (scalar job.diameter).toList).getD 0

theorem diameterNumber_eq (hshort : written.IsShort) {job : ToolJob} {tool : WrittenTool}
    (htool : tool ∈ written.tools) (heq : tool.diameter.value = job.diameter) :
    diameterNumber job = tool.diameter.toRat := by
  rw [diameterNumber, ← heq, number?_toList_scalar (hshort.diameter tool htool), Option.getD_some]

theorem nodup_diameterNumber (hshort : written.IsShort) :
    (written.toDrillJob.byDiameter.map diameterNumber).Nodup := by
  rw [List.Nodup, List.pairwise_map]
  refine (merges_byDiameter written.toDrillJob).diameters.imp_of_mem ?_
  intro a b ha hb hab heq
  obtain ⟨tool, htool, htool_eq⟩ := exists_tool_of_mem_byDiameter ha
  obtain ⟨other, hother, hother_eq⟩ := exists_tool_of_mem_byDiameter hb
  rw [diameterNumber_eq hshort htool htool_eq, diameterNumber_eq hshort hother hother_eq,
    ← equal_value_iff (hshort.diameter tool htool) (hshort.diameter other hother), htool_eq,
    hother_eq, hab] at heq
  cases heq

/-- The numbers of merged jobs are those that are diameters of tools. -/
theorem mem_diameterNumber_iff (hshort : written.IsShort) {q : ℚ} :
    q ∈ written.toDrillJob.byDiameter.map diameterNumber ↔
      ∃ tool ∈ written.tools, tool.diameter.toRat = q := by
  rw [List.mem_map]
  constructor
  · rintro ⟨job, hjob, rfl⟩
    obtain ⟨tool, htool, heq⟩ := exists_tool_of_mem_byDiameter hjob
    exact ⟨tool, htool, (diameterNumber_eq hshort htool heq).symm⟩
  · rintro ⟨tool, htool, rfl⟩
    obtain ⟨job, hjob, hequal⟩ := exists_job_of_mem_tools hshort htool
    obtain ⟨first, hfirst, heq⟩ := exists_tool_of_mem_byDiameter hjob
    refine ⟨job, hjob, ?_⟩
    rw [← heq] at hequal
    rw [diameterNumber_eq hshort hfirst heq]
    exact (equal_value_iff (hshort.diameter first hfirst) (hshort.diameter tool htool)).1 hequal

/-- Two tools share a merged job exactly if their diameters denote one number. -/
theorem exists_job_iff (hshort : written.IsShort) {tool other : WrittenTool}
    (htool : tool ∈ written.tools) (hother : other ∈ written.tools) :
    (∃ job ∈ written.toDrillJob.byDiameter, job.diameter.equal tool.diameter.value = true ∧
      job.diameter.equal other.diameter.value = true) ↔
    tool.diameter.toRat = other.diameter.toRat := by
  rw [← equal_value_iff (hshort.diameter tool htool) (hshort.diameter other hother)]
  constructor
  · rintro ⟨job, -, hequal, hequal'⟩
    rw [Binary64.equal_comm] at hequal
    exact Binary64.equal_trans hequal hequal'
  · intro h
    obtain ⟨job, hjob, hequal⟩ := exists_job_of_mem_tools hshort htool
    exact ⟨job, hjob, hequal, Binary64.equal_trans hequal h⟩

/-- The programs of a job whose literals are short keep its decimals. -/
theorem keepsDecimals_placeAll {stored : FileSystem} {jobPath : Path} {text : String}
    {drill : DrillJob} {paths : List Path} (htext : stored.readText host jobPath = .ok text)
    (hload : (DrillJob.load stored host jobPath).result = .ok drill)
    (hshort : ∀ written, WrittenJob.ofJson text = .ok written → written.IsShort)
    (h : (placeAll disks host settings sinkName drill files).result = .ok paths) :
    ∃ written, WrittenJob.ofJson text = .ok written ∧
      KeepsDecimals host sinkName written paths
        (placeAll disks host settings sinkName drill files).files := by
  have hread : DrillJob.ofJson text = .ok drill := by
    rw [DrillJob.load, htext] at hload
    dsimp only at hload
    split at hload
    · cases hload
    · next hread =>
      cases hload
      exact hread
  rw [WrittenJob.toDrillJob_ofJson] at hread
  cases hwritten : WrittenJob.ofJson text with
  | error e =>
    rw [hwritten] at hread
    cases hread
  | ok written =>
    rw [hwritten] at hread
    cases hread
    have hshort := hshort written hwritten
    obtain ⟨rfl, hall⟩ := allPlaced_placeJobs (merges_byDiameter written.toDrillJob).diameters h
    refine ⟨written, rfl, ⟨_, nodup_diameterNumber hshort, fun q => mem_diameterNumber_iff hshort,
      ?_⟩, fun tool htool other hother => exists_job_iff hshort htool hother⟩
    rw [List.forall₂_map_left_iff, List.forall₂_map_right_iff, List.forall₂_same]
    intro job hjob
    obtain ⟨tool, htool, heq⟩ := exists_tool_of_mem_byDiameter hjob
    rw [diameterNumber_eq hshort htool heq]
    exact isProgramFor_programPath hshort hjob htool heq hall

/-- One diameter in two spellings. -/
theorem keepsDecimals_placeAll_two_spellings :
    let text := "[[0.8, [[[[0.1, -2.50]]]]], [8E-1, [[[[30e-2, 7]]]]]]"
    let host : Host := ⟨[], 0o022, none, none, none⟩
    let stored := FileSystem.empty.insert [utf8 "job"] (.file 0o644 (utf8 text))
    let drill : DrillJob := ⟨[⟨.ofRatio false 8 10, [⟨[⟨.ofRatio false 1 10, .ofRatio true 5 2⟩]⟩]⟩,
      ⟨.ofRatio false 8 10, [⟨[⟨.ofRatio false 3 10, .ofNat 7⟩]⟩]⟩]⟩
    let o := placeAll .sound host .standard (.ofText "out") drill stored
    ∃ written, WrittenJob.ofJson text = .ok written ∧
      KeepsDecimals host (.ofText "out") written [.ofText "out_0.8.cnc"] o.files := by
  intro text host stored drill o
  have htext : stored.readText host (.ofText "job") = .ok text := by decide +kernel
  have hjson : DrillJob.ofJson text = .ok drill := by decide +kernel
  have hload : (DrillJob.load stored host (.ofText "job")).result = .ok drill := by
    rw [DrillJob.load, htext]
    dsimp only
    rw [hjson]
    rfl
  have hshort : ∀ written, WrittenJob.ofJson text = .ok written → written.IsShort := by
    have h : (match WrittenJob.ofJson text with
      | .ok written => decide written.IsShort
      | .error _ => true) = true := by decide +kernel
    intro written hwritten
    rw [hwritten] at h
    exact of_decide_eq_true h
  have h : o.result = .ok [.ofText "out_0.8.cnc"] := by decide +kernel
  exact keepsDecimals_placeAll htext hload hshort h

end Gcode

end DrillPost
