import Mathlib.Data.List.Induction

/-!
# Membership under a log of additions and removals

Each event of a log adds an element, removes it, or leaves it alone: its
`verdict` is `some true`, `some false` or `none`. After a log the element is in
the set if the last event that concerns it has added it, or if there is no such
event and it was there before.

* `last verdict l`: the verdict of that event; `last_eq_some_iff` and
  `last_eq_none_iff` say which event it is.
* `decides`: what a verdict makes of membership, and `decides_or` for one event more.
-/

namespace EventLog

variable {E : Type*} (verdict : E → Option Bool)

/-- The verdict of the last event that has one. -/
def last (l : List E) : Option Bool := l.foldl (fun o e => (verdict e).or o) none

variable {verdict} {l : List E} {e : E}

@[simp] theorem last_nil : last verdict [] = none := rfl

@[simp] theorem last_concat : last verdict (l ++ [e]) = (verdict e).or (last verdict l) := by
  simp [last]

/-- No event has a verdict. -/
theorem last_eq_none_iff : last verdict l = none ↔ ∀ e ∈ l, verdict e = none := by
  induction l using List.reverseRecOn with
  | nil => simp
  | append_singleton l e ih => rw [last_concat, Option.or_eq_none_iff, ih]; grind

/-- The verdict `b` is that of an event behind which no event has one. -/
theorem last_eq_some_iff {b : Bool} : last verdict l = some b ↔
    ∃ before e behind, l = before ++ e :: behind ∧ verdict e = some b ∧
      ∀ e' ∈ behind, verdict e' = none := by
  constructor
  · induction l using List.reverseRecOn with
    | nil => intro h; cases h
    | append_singleton l e ih =>
      rw [last_concat]
      intro h
      rcases Option.or_eq_some_iff.mp h with he | ⟨he, hl⟩
      · exact ⟨l, e, [], rfl, he, by simp⟩
      · obtain ⟨before, e₁, behind, rfl, he₁, hbehind⟩ := ih hl
        refine ⟨before, e₁, behind ++ [e], by simp, he₁, fun e' he' => ?_⟩
        rcases List.mem_append.mp he' with he' | he'
        · exact hbehind e' he'
        · rwa [List.mem_singleton.mp he']
  · rintro ⟨before, e, behind, rfl, he, hbehind⟩
    induction behind using List.reverseRecOn with
    | nil => rw [last_concat, he]; rfl
    | append_singleton behind e' ih =>
      rw [← List.cons_append, ← List.append_assoc, last_concat, hbehind e' (by simp), Option.none_or]
      exact ih fun e'' he'' => hbehind e'' (List.mem_append_left _ he'')

/-- What a verdict makes of membership. -/
def decides (o : Option Bool) (before : Prop) : Prop := o.elim before (· = true)

theorem decides_or {o o' : Option Bool} {p : Prop} :
    decides (o.or o') p ↔ decides o (decides o' p) := by
  cases o <;> rfl

theorem decides_iff {o : Option Bool} {p : Prop} : decides o p ↔ o = some true ∨ o = none ∧ p := by
  cases o with
  | none => simp [decides]
  | some b => simp [decides]

end EventLog
