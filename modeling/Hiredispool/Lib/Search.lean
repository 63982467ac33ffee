import Mathlib.Data.List.Induction

/-!
# A linear search whose test has a state

`first test l s` examines the elements of `l` in order from the state `s` and
stops at the first one that passes. The test may change the state, also when
the element does not pass. `after test l s` is the state after examining all of
`l`, and `Rejected test l s` says that none of them passes.
-/

namespace Search

variable {σ α : Type*} (test : α → σ → σ × Bool)

/-- The first element that passes, and the state after its test. -/
def first : List α → σ → σ × Option α
  | [], s => (s, none)
  | a :: l, s => if (test a s).2 then ((test a s).1, some a) else first l (test a s).1

/-- The state after examining all of `l`. -/
def after (l : List α) (s : σ) : σ := l.foldl (fun s a => (test a s).1) s

/-- Each element of `l` fails the test, in the state in which it is examined. -/
def Rejected (l : List α) (s : σ) : Prop :=
  ∀ l₁ a l₂, l = l₁ ++ a :: l₂ → (test a (after test l₁ s)).2 = false

variable {test} {a : α} {l : List α} {s : σ}

@[simp] theorem after_nil : after test [] s = s := rfl

@[simp] theorem after_cons : after test (a :: l) s = after test l (test a s).1 := rfl

theorem rejected_nil : Rejected test [] s := by
  intro l₁ a l₂ h
  simp at h

theorem rejected_cons : Rejected test (a :: l) s ↔
    (test a s).2 = false ∧ Rejected test l (test a s).1 := by
  constructor
  · intro h
    refine ⟨h [] a l rfl, fun l₁ b l₂ hl => ?_⟩
    exact h (a :: l₁) b l₂ (by rw [hl]; rfl)
  · rintro ⟨h0, h⟩ l₁ b l₂ hl
    cases l₁ with
    | nil =>
      obtain ⟨rfl, -⟩ := List.cons.inj hl
      exact h0
    | cons c l₁ =>
      obtain ⟨rfl, hl'⟩ := List.cons.inj hl
      exact h l₁ b l₂ hl'

/-- The search stops at an element that passes after those before it have been
    rejected, or it rejects all of them. -/
theorem first_cases (test : α → σ → σ × Bool) (l : List α) (s : σ) :
    (∃ l₁ a l₂, l = l₁ ++ a :: l₂ ∧ Rejected test l₁ s ∧ (test a (after test l₁ s)).2 = true ∧
        first test l s = ((test a (after test l₁ s)).1, some a)) ∨
      Rejected test l s ∧ first test l s = (after test l s, none) := by
  induction l generalizing s with
  | nil => exact Or.inr ⟨rejected_nil, rfl⟩
  | cons b l ih =>
    rw [first]
    cases hb : (test b s).2 with
    | true => exact Or.inl ⟨[], b, l, rfl, rejected_nil, hb, rfl⟩
    | false =>
      rw [if_neg (by simp)]
      rcases ih (test b s).1 with ⟨l₁, a, l₂, rfl, hrej, hpass, he⟩ | ⟨hrej, he⟩
      · exact Or.inl ⟨b :: l₁, a, l₂, rfl, rejected_cons.mpr ⟨hb, hrej⟩, hpass, he⟩
      · exact Or.inr ⟨rejected_cons.mpr ⟨hb, hrej⟩, he⟩

/-- What is found is the first element that passes. -/
theorem first_eq_some_iff : (first test l s).2 = some a ↔
    ∃ l₁ l₂, l = l₁ ++ a :: l₂ ∧ Rejected test l₁ s ∧ (test a (after test l₁ s)).2 = true := by
  constructor
  · intro h
    rcases first_cases test l s with ⟨l₁, b, l₂, hl, hrej, hpass, he⟩ | ⟨-, he⟩
    · rw [he] at h
      obtain rfl := Option.some.inj h
      exact ⟨l₁, l₂, hl, hrej, hpass⟩
    · rw [he] at h; cases h
  · rintro ⟨l₁, l₂, rfl, hrej, hpass⟩
    induction l₁ generalizing s with
    | nil =>
      rw [after_nil] at hpass
      rw [List.nil_append, first, if_pos hpass]
    | cons b l₁ ih =>
      obtain ⟨hb, hrej⟩ := rejected_cons.mp hrej
      rw [List.cons_append, first, if_neg (by simp [hb])]
      exact ih hrej hpass

/-- Rejection by a predicate that describes the test in the states that the
    rejected elements lead to. -/
theorem rejected_iff {I : σ → Prop} {P : α → σ → Prop} (hs : I s)
    (htest : ∀ a ∈ l, ∀ s, I s → ((test a s).2 = true ↔ P a s))
    (hkeep : ∀ a ∈ l, ∀ s, I s → (test a s).2 = false → I (test a s).1) :
    Rejected test l s ↔ ∀ l₁ a l₂, l = l₁ ++ a :: l₂ → ¬P a (after test l₁ s) := by
  induction l generalizing s with
  | nil => exact iff_of_true rejected_nil (by intro l₁ a l₂ h; simp at h)
  | cons b l ih =>
    have hb := htest b List.mem_cons_self s hs
    have htail : (test b s).2 = false → (Rejected test l (test b s).1 ↔
        ∀ l₁ a l₂, l = l₁ ++ a :: l₂ → ¬P a (after test l₁ (test b s).1)) := by
      intro hfalse
      exact ih (hkeep b List.mem_cons_self s hs hfalse)
        (fun a ha => htest a (List.mem_cons_of_mem _ ha))
        (fun a ha => hkeep a (List.mem_cons_of_mem _ ha))
    rw [rejected_cons]
    constructor
    · rintro ⟨hfalse, hrej⟩ l₁ a l₂ hl
      cases l₁ with
      | nil =>
        obtain ⟨rfl, -⟩ := List.cons.inj hl
        intro hP
        rw [after_nil, ← hb, hfalse] at hP; cases hP
      | cons c l₁ =>
        obtain ⟨rfl, hl'⟩ := List.cons.inj hl
        exact (htail hfalse).mp hrej l₁ a l₂ hl'
    · intro h
      have hfalse : (test b s).2 = false := by
        rw [← Bool.not_eq_true, hb]
        exact h [] b l rfl
      refine ⟨hfalse, (htail hfalse).mpr fun l₁ a l₂ hl => ?_⟩
      exact h (b :: l₁) a l₂ (by rw [hl]; rfl)

/-- The proof rule: what holds of no elements, and is kept by a rejected one,
    holds after the rejected elements `l`. -/
theorem Rejected.induction {P : List α → σ → Prop} (hnil : P [] s)
    (hstep : ∀ l s' a, P l s' → (test a s').2 = false → P (l ++ [a]) (test a s').1)
    (h : Rejected test l s) : P l (after test l s) := by
  induction l using List.reverseRecOn with
  | nil => exact hnil
  | append_singleton l a ih =>
    have hl : Rejected test l s := by
      intro l₁ b l₂ hb
      exact h l₁ b (l₂ ++ [a]) (by rw [hb]; simp)
    have hafter : after test (l ++ [a]) s = (test a (after test l s)).1 := by simp [after]
    rw [hafter]
    exact hstep l _ a (ih hl) (h l a [] rfl)

end Search
