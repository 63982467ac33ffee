import Mathlib.Data.Option.Basic

/-!
# Labelled transition systems with a partial step function

A system has an initial predicate and a step function that returns `none`
where a label is not enabled. Invariants hold in every reachable state; the
rule `invariant_of_inductive_with` lets a proof use facts already known to be
invariant, of the state before the step and of the state after it.
`ReachableUnder C` is for runs whose steps all meet a condition `C`, and
`logged note` records what each step does.
-/

/-- A labelled transition system. -/
structure Lts (S L : Type*) where
  init : S → Prop
  step : S → L → Option S

namespace Lts

variable {S L : Type*} {m : Lts S L}

/-- The states reached from an initial state by any number of steps. -/
inductive Reachable (m : Lts S L) : S → Prop
  | init {s : S} : m.init s → Reachable m s
  | step {s s' : S} {l : L} : Reachable m s → m.step s l = some s' → Reachable m s'

/-- `P` holds in every reachable state. -/
def Invariant (m : Lts S L) (P : S → Prop) : Prop := ∀ s, m.Reachable s → P s

/-- The proof rule: an inductive predicate is invariant. -/
theorem invariant_of_inductive {P : S → Prop} (hinit : ∀ s, m.init s → P s)
    (hstep : ∀ s l s', P s → m.step s l = some s' → P s') : m.Invariant P := by
  intro s hs
  induction hs with
  | init h => exact hinit _ h
  | step _ h ih => exact hstep _ _ _ ih h

/-- An inductive predicate may use a known invariant `Q`, before and after the step. -/
theorem invariant_of_inductive_with {P Q : S → Prop} (hQ : m.Invariant Q)
    (hinit : ∀ s, m.init s → Q s → P s)
    (hstep : ∀ s l s', Q s → Q s' → P s → m.step s l = some s' → P s') : m.Invariant P := by
  intro s hs
  induction hs with
  | init h => exact hinit _ h (hQ _ (.init h))
  | step hr h ih => exact hstep _ _ _ (hQ _ hr) (hQ _ (.step hr h)) ih h

/-- A system whose steps, from states that both systems reach, are steps of `m'` too
    reaches only states that `m'` reaches. -/
theorem Reachable.mono {m' : Lts S L} (hinit : ∀ s, m.init s → m'.init s)
    (hstep : ∀ s l s', m.Reachable s → m'.Reachable s → m.step s l = some s' →
      m'.step s l = some s') {s : S} (hs : m.Reachable s) : m'.Reachable s := by
  induction hs with
  | init h => exact .init (hinit _ h)
  | step hr h ih => exact ih.step (hstep _ _ _ hr ih h)

/-- The states reached by steps that all meet the condition `C`. -/
inductive ReachableUnder (m : Lts S L) (C : S → L → Prop) : S → Prop
  | init {s : S} : m.init s → ReachableUnder m C s
  | step {s s' : S} {l : L} : ReachableUnder m C s → C s l → m.step s l = some s' →
      ReachableUnder m C s'

theorem ReachableUnder.reachable {C : S → L → Prop} {s : S} (hs : m.ReachableUnder C s) :
    m.Reachable s := by
  induction hs with
  | init h => exact .init h
  | step _ _ h ih => exact ih.step h

/-- A weaker condition allows more runs. -/
theorem ReachableUnder.mono {C C' : S → L → Prop} (h : ∀ s l, C s l → C' s l) {s : S}
    (hs : m.ReachableUnder C s) : m.ReachableUnder C' s := by
  induction hs with
  | init h0 => exact .init h0
  | step _ hC hstep ih => exact ih.step (h _ _ hC) hstep

/-- The proof rule for runs under a condition, with a known invariant `Q`. -/
theorem ReachableUnder.induction_with {C : S → L → Prop} {P Q : S → Prop} (hQ : m.Invariant Q)
    (hinit : ∀ s, m.init s → Q s → P s)
    (hstep : ∀ s l s', Q s → Q s' → P s → C s l → m.step s l = some s' → P s') {s : S}
    (hs : m.ReachableUnder C s) : P s := by
  induction hs with
  | init h => exact hinit _ h (hQ _ (.init h))
  | step hr hC h ih => exact hstep _ _ _ (hQ _ hr.reachable) (hQ _ (hr.reachable.step h)) ih hC h

/-- The state after the labels of `ls`, in order. -/
def run (m : Lts S L) : S → List L → Option S
  | s, [] => some s
  | s, l :: ls => (m.step s l).bind fun s' => run m s' ls

@[simp] theorem run_nil (s : S) : m.run s [] = some s := rfl

theorem run_cons {s s' : S} {l : L} (h : m.step s l = some s') (ls : List L) :
    m.run s (l :: ls) = m.run s' ls := by
  simp [run, h]

theorem run_append {s s' : S} {ls : List L} (h : m.run s ls = some s') (ls' : List L) :
    m.run s (ls ++ ls') = m.run s' ls' := by
  induction ls generalizing s with
  | nil => cases h; rfl
  | cons l ls ih =>
    obtain ⟨s₁, h₁, h₂⟩ := Option.bind_eq_some_iff.mp h
    rw [List.cons_append, run_cons h₁, ih h₂]

theorem Reachable.run {s s' : S} {ls : List L} (hs : m.Reachable s) (h : m.run s ls = some s') :
    m.Reachable s' := by
  induction ls generalizing s with
  | nil => cases h; exact hs
  | cons l ls ih =>
    obtain ⟨s₁, h₁, h₂⟩ := Option.bind_eq_some_iff.mp h
    exact ih (hs.step h₁) h₂

/-- The state after the labels of `ls`, if each step passes the check `chk`. -/
def runIf (m : Lts S L) (chk : S → L → Bool) : S → List L → Option S
  | s, [] => some s
  | s, l :: ls => if chk s l then (m.step s l).bind fun s' => runIf m chk s' ls else none

theorem run_of_runIf {chk : S → L → Bool} {s s' : S} {ls : List L}
    (h : m.runIf chk s ls = some s') : m.run s ls = some s' := by
  induction ls generalizing s with
  | nil => exact h
  | cons l ls ih =>
    rw [Lts.runIf] at h
    split at h
    · obtain ⟨s₁, h₁, h₂⟩ := Option.bind_eq_some_iff.mp h
      rw [run_cons h₁, ih h₂]
    · cases h

theorem ReachableUnder.runIf {C : S → L → Prop} {chk : S → L → Bool}
    (hchk : ∀ s l, chk s l = true → C s l) {s s' : S} {ls : List L} (hs : m.ReachableUnder C s)
    (h : m.runIf chk s ls = some s') : m.ReachableUnder C s' := by
  induction ls generalizing s with
  | nil => cases h; exact hs
  | cons l ls ih =>
    rw [Lts.runIf] at h
    split at h
    · obtain ⟨s₁, h₁, h₂⟩ := Option.bind_eq_some_iff.mp h
      exact ih (hs.step (hchk s l ‹_›) h₁) h₂
    · cases h

/-- `s'` is reached from `s` by a run. -/
def Steps (m : Lts S L) (s s' : S) : Prop := ∃ ls, m.run s ls = some s'

theorem Steps.refl (s : S) : m.Steps s s := ⟨[], rfl⟩

theorem Steps.single {s s' : S} {l : L} (h : m.step s l = some s') : m.Steps s s' :=
  ⟨[l], by rw [run_cons h]; rfl⟩

theorem Steps.trans {s s' s'' : S} (h : m.Steps s s') (h' : m.Steps s' s'') : m.Steps s s'' := by
  obtain ⟨ls, hls⟩ := h
  obtain ⟨ls', hls'⟩ := h'
  exact ⟨ls ++ ls', by rw [run_append hls, hls']⟩

/-- What holds at the start of a run and is preserved by its steps holds at its end. -/
theorem run_induction {P : S → Prop} (hstep : ∀ s l s', P s → m.step s l = some s' → P s')
    {s s' : S} {ls : List L} (hs : P s) (h : m.run s ls = some s') : P s' := by
  induction ls generalizing s with
  | nil => cases h; exact hs
  | cons l ls ih =>
    obtain ⟨s₁, h₁, h₂⟩ := Option.bind_eq_some_iff.mp h
    exact ih (hstep _ _ _ hs h₁) h₂

/-- The system with a record of what its steps did. -/
def logged {E : Type*} (m : Lts S L) (note : S → L → S → List E) : Lts (S × List E) L where
  init x := m.init x.1 ∧ x.2 = []
  step x l := (m.step x.1 l).map fun s' => (s', x.2 ++ note x.1 l s')

section Logged

variable {E : Type*} {note : S → L → S → List E}

theorem logged_step {x x' : S × List E} {l : L} (h : (m.logged note).step x l = some x') :
    m.step x.1 l = some x'.1 ∧ x'.2 = x.2 ++ note x.1 l x'.1 := by
  obtain ⟨s', hs', rfl⟩ := Option.map_eq_some_iff.mp h
  exact ⟨hs', rfl⟩

/-- The record does not restrict the runs. -/
theorem ReachableUnder.logged {C : S → L → Prop} {s : S} (hs : m.ReachableUnder C s) :
    ∃ log, (m.logged note).ReachableUnder (fun x l => C x.1 l) (s, log) := by
  induction hs with
  | init h => exact ⟨[], .init ⟨h, rfl⟩⟩
  | @step s s' l _ hC h ih =>
    obtain ⟨log, hlog⟩ := ih
    exact ⟨log ++ note s l s', hlog.step hC (by simp only [Lts.logged, h, Option.map_some])⟩

theorem Reachable.of_logged {x : S × List E} (hx : (m.logged note).Reachable x) :
    m.Reachable x.1 := by
  induction hx with
  | init h => exact .init h.1
  | step _ h ih => exact ih.step (logged_step h).1

end Logged

end Lts
