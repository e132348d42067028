import DrillPost.Proofs.Gcode.Drilling
import DrillPost.Proofs.Gcode.Placement

/-!
# The heights in a program

The words of a program that begin with the letter of the vertical axis hold the texts of the two
lengths among the settings: at each hole the depth, after a minus sign, and the height, and at the
end the height once more (`Gcode.heightWords_document`). So they do in the texts of several programs
one after another (`Gcode.heightWords_join`).
-/

namespace DrillPost.Gcode

/-- The words of a text that say how high the tool is to move. -/
def heightWords (text : String) : List (List Char) :=
  (Machine.wordLines text).flatten.filter fun word => word.head? == some 'Z'

def Line.heightWords : Line → List (List Char)
  | .plunge depth => ['Z' :: '-' :: (scalar depth).toList]
  | .retract height | .withdraw height => ['Z' :: (scalar height).toList]
  | _ => []

theorem heightWords_renderLines {lines : List Line} (h : ∀ l ∈ lines, l.IsWritable) :
    heightWords (renderLines lines) = lines.flatMap Line.heightWords := by
  rw [heightWords, wordLines_renderLines h]
  clear h
  induction lines with
  | nil => rfl
  | cons l lines ih =>
    rw [List.flatMap_cons, ← ih]
    -- Only moves up and down have words that begin with this letter.
    cases l <;> rfl

/-- The words that say how high the tool is to move in the program of a job. -/
def jobHeightWords (settings : ProgramSettings) (job : ToolJob) : List (List Char) :=
  job.holes.flatMap (fun _ => ['Z' :: '-' :: (scalar settings.drillDepth).toList,
    'Z' :: (scalar settings.safeHeight).toList]) ++ ['Z' :: (scalar settings.safeHeight).toList]

theorem heightWords_programLines (settings : ProgramSettings) (job : ToolJob) :
    (programLines settings job).flatMap Line.heightWords = jobHeightWords settings job := by
  have hheader : (header settings.spindlePower).flatMap Line.heightWords = [] := rfl
  rw [programLines, List.flatMap_append, List.flatMap_append, hheader, List.nil_append,
    List.flatMap_assoc]
  rfl

/-- The lengths of the settings are written the same in each of several programs. -/
theorem heightWords_join {settings : ProgramSettings} {jobs : List ToolJob}
    (h : ∀ job ∈ jobs, fault? settings job = none) :
    heightWords (String.join (jobs.map (document settings))) =
      jobs.flatMap (jobHeightWords settings) := by
  have hwritable : ∀ l ∈ jobs.flatMap (programLines settings), l.IsWritable := by
    intro l hl
    obtain ⟨job, hjob, hl⟩ := List.mem_flatMap.1 hl
    obtain ⟨hs, hj⟩ := fault?_eq_none_iff.1 (h job hjob)
    exact isWritable_programLines hs hj l hl
  have htext : String.join (jobs.map (document settings)) =
      renderLines (jobs.flatMap (programLines settings)) := by
    rw [renderLines_flatMap]
    exact congrArg (fun f => String.join (jobs.map f)) (funext (document_eq settings))
  rw [htext, heightWords_renderLines hwritable, List.flatMap_assoc]
  exact congrArg (List.flatMap · jobs) (funext (heightWords_programLines settings))

theorem heightWords_document {settings : ProgramSettings} {job : ToolJob}
    (h : fault? settings job = none) :
    heightWords (document settings job) = jobHeightWords settings job := by
  have hjoin := heightWords_join (List.forall_mem_singleton.2 h)
  rwa [List.map_singleton, List.flatMap_singleton, String.join_cons, String.join_nil,
    String.append_empty] at hjoin

theorem heightWords_of_program {settings : ProgramSettings} {job : ToolJob} {text : String}
    (h : program settings job = .ok text) : heightWords text = jobHeightWords settings job := by
  unfold program at h
  split at h
  · cases h
  · next hfault =>
    cases h
    exact heightWords_document hfault

end DrillPost.Gcode
