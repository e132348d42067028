import DrillPost.Log.Filter
import DrillPost.Proofs.Log.Directive

/-!
# More detail

The directive that a flag adds is for every event, and no directive is less specific. So it decides
only where nothing else does, or where a directive of the same kind did (`Filter.shows_add_iff`).
That it takes the place of one need not show more: after one that lets everything through it shows
less. But it lets through all events that are no more detailed than it says, and so does each flag
that follows (`Filter.shows_withVerbosity_mono`).

There is a filter unless one of the directives stops the program (`Filter.exists_ofText?`).
-/

namespace DrillPost

variable {f : Filter} {e : Event} {s t : Threshold}

/-- The directive is for all parts of the program and asks for nothing. -/
def Directive.IsGeneral (d : Directive) : Prop := d.specificity = (0, 0)

instance (d : Directive) : Decidable d.IsGeneral := inferInstanceAs (Decidable (_ = _))

theorem Directive.moreSpecific_everywhere (d : Directive) (t : Threshold) :
    d.moreSpecific (everywhere t) = if d.IsGeneral then everywhere t else d := by
  have hspecificity : (everywhere t).specificity = (0, 0) := rfl
  unfold moreSpecific
  rw [hspecificity]
  by_cases h : d.IsGeneral
  · have hd : d.specificity = (0, 0) := h
    rw [if_pos h, hd, if_neg (by decide)]
  · have hpos : 0 < d.specificity.1 ∨ 0 = d.specificity.1 ∧ 0 < d.specificity.2 := by
      have hne : ¬ (d.specificity.1 = 0 ∧ d.specificity.2 = 0) := fun hd => h (Prod.ext hd.1 hd.2)
      omega
    rw [if_neg h, if_pos hpos]

namespace Filter

theorem decisive?_add (f : Filter) (t : Threshold) (e : Event) :
    (f.add (.everywhere t)).decisive? e =
      some ((f.decisive? e).elim (.everywhere t) fun d => d.moreSpecific (.everywhere t)) := by
  unfold decisive? add
  rw [List.filter_append, List.foldl_append]
  rfl

/-- A directive for everything decides unless a more specific one does. -/
theorem shows_add_iff :
    (f.add (.everywhere t)).shows e = true ↔
      (∃ d, f.decisive? e = some d ∧ ¬ d.IsGeneral ∧ f.shows e = true) ∨
        ((∀ d, f.decisive? e = some d → d.IsGeneral) ∧ e.level.rank ≤ Threshold.rank t) := by
  unfold shows
  rw [decisive?_add]
  cases hd : f.decisive? e with
  | none => simp [Directive.everywhere]
  | some d =>
    rw [Option.elim_some, Directive.moreSpecific_everywhere]
    split <;> simp_all [Directive.everywhere]

/-- One more directive for everything keeps what was shown, as far as it lets events through. -/
theorem shows_add_of_shows (ht : e.level.rank ≤ Threshold.rank t) (h : f.shows e = true) :
    (f.add (.everywhere t)).shows e = true := by
  rw [shows_add_iff]
  by_cases hgeneral : ∀ d, f.decisive? e = some d → d.IsGeneral
  · exact .inr ⟨hgeneral, ht⟩
  · obtain ⟨d, hspecific⟩ := Classical.not_forall.1 hgeneral
    obtain ⟨hd, hspecific⟩ := Classical.not_imp.1 hspecific
    exact .inl ⟨d, hd, hspecific, h⟩

theorem shows_add_of_shows_add (ht : e.level.rank ≤ Threshold.rank t)
    (h : (f.add (.everywhere s)).shows e = true) : (f.add (.everywhere t)).shows e = true := by
  rw [shows_add_iff] at h ⊢
  exact h.imp_right fun ⟨hgeneral, _⟩ => ⟨hgeneral, ht⟩

/-- One more flag keeps what was shown, as far as the first flag asks for it. -/
theorem shows_withVerbosity_succ {verbosity : Nat} (he : e.level.rank ≤ Level.debug.rank)
    (hshows : (f.withVerbosity verbosity).shows e = true) :
    (f.withVerbosity (verbosity + 1)).shows e = true := by
  have hdebug : e.level.rank ≤ Threshold.rank (some .debug) := he
  have htrace : e.level.rank ≤ Threshold.rank (some .trace) := Nat.le_succ_of_le he
  obtain _ | _ | _ := verbosity
  · exact shows_add_of_shows hdebug hshows
  · exact shows_add_of_shows_add htrace hshows
  · exact hshows

/-- Events that are no more detailed than the first flag asks for are shown with more flags if they
are shown with fewer, whatever the filter. -/
theorem shows_withVerbosity_mono {verbosity verbosity' : Nat} (h : verbosity ≤ verbosity')
    (he : e.level.rank ≤ Level.debug.rank)
    (hshows : (f.withVerbosity verbosity).shows e = true) :
    (f.withVerbosity verbosity').shows e = true := by
  induction h with
  | refl => exact hshows
  | step _ ih => exact shows_withVerbosity_succ he ih

/-- So all that is shown with fewer flags is shown with more, in the same order. -/
theorem sublist_filter_withVerbosity {verbosity verbosity' : Nat} (h : verbosity ≤ verbosity')
    (f : Filter) {events : List Event}
    (hevents : ∀ e ∈ events, e.level.rank ≤ Level.debug.rank) :
    (events.filter (f.withVerbosity verbosity).shows).Sublist
      (events.filter (f.withVerbosity verbosity').shows) := by
  have hfilter : events.filter (f.withVerbosity verbosity).shows =
      (events.filter (f.withVerbosity verbosity').shows).filter
        (f.withVerbosity verbosity).shows := by
    rw [List.filter_filter]
    apply List.filter_congr
    intro e he
    rw [Bool.eq_iff_iff, Bool.and_eq_true]
    exact ⟨fun hshows => ⟨hshows, shows_withVerbosity_mono h (hevents e he) hshows⟩, And.left⟩
  rw [hfilter]
  exact List.filter_sublist

/-! ### Filters of texts -/

theorem exists_mapM {α β : Type} {read : α → Option β} {l : List α}
    (h : ∀ a ∈ l, ∃ b, read a = some b) : ∃ bs, l.mapM read = some bs := by
  induction l with
  | nil => exact ⟨[], rfl⟩
  | cons a l ih =>
    rw [List.forall_mem_cons] at h
    obtain ⟨b, hb⟩ := h.1
    obtain ⟨bs, hbs⟩ := ih h.2
    exact ⟨b :: bs, by rw [List.mapM_cons, hb, hbs]; rfl⟩

/-- Texts whose cuts can all be made are a filter. -/
theorem exists_ofText? {s : String}
    (h : ∀ part ∈ split s.toList, Directive.IsHarmless part) : ∃ f, ofText? s = some f := by
  obtain ⟨readings, hreadings⟩ := exists_mapM fun part hpart =>
    Directive.exists_ofText? (h part hpart)
  rw [ofText?, directivesOf?, hreadings]
  exact ⟨_, rfl⟩

end Filter

end DrillPost
