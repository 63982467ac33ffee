import Mathlib.Data.List.Basic
import Mathlib.Tactic.Basic

/-!
# Incremental parsers

A parser that is given its input in pieces keeps a state and a buffer of unread
input. One step advances (and may put out a result), waits for more input, or
stops with an error. What the laws of `Parser` say is that a step does not look
behind the input that it needs.

* `drain_append`: the results do not depend on how the input is cut.
* `drain_next`: nor on whether they are fetched one by one or all at once.
-/

namespace Incremental

/-- What one step does: it leaves a state and the input that it has not consumed. -/
inductive Step (σ α β ε : Type*)
  | advance (s : σ) (rest : List α) (out : Option β)
  | wait (s : σ) (rest : List α)
  | stop (e : ε)

/-- The step with `v` behind its input, if it does not wait. -/
def Step.append {σ α β ε : Type*} (v : List α) : Step σ α β ε → Step σ α β ε
  | .advance s rest out => .advance s (rest ++ v) out
  | .wait s rest => .wait s (rest ++ v)
  | .stop e => .stop e

/-- A step on `len` symbols that does not wait. -/
def Step.Finished {σ α β ε : Type*} (len : ℕ) : Step σ α β ε → Prop
  | .advance _ rest _ => rest.length < len
  | .wait _ _ => False
  | .stop _ => True

/-- An incremental parser: with more input, a step that did not wait is the same, and
    one that waited is the step from where it waited. -/
structure Parser (σ α β ε : Type*) where
  step : σ → List α → Step σ α β ε
  shorter : ∀ {s u s' rest out}, step s u = .advance s' rest out → rest.length < u.length
  advance : ∀ {s u s' rest out}, step s u = .advance s' rest out → ∀ v,
    step s (u ++ v) = .advance s' (rest ++ v) out
  wait : ∀ {s u s' rest}, step s u = .wait s' rest → ∀ v, step s (u ++ v) = step s' (rest ++ v)
  stop : ∀ {s u e}, step s u = .stop e → ∀ v, step s (u ++ v) = .stop e

namespace Parser

variable {σ α β ε : Type*}

/-- The laws from one statement: a step waits, or more input is left over. -/
def ofLocal (step : σ → List α → Step σ α β ε)
    (h : ∀ s u, (∃ s' rest, step s u = .wait s' rest ∧
        ∀ v, step s (u ++ v) = step s' (rest ++ v)) ∨
      (step s u).Finished u.length ∧ ∀ v, step s (u ++ v) = (step s u).append v) :
    Parser σ α β ε where
  step := step
  shorter := by
    intro s u s' rest out he
    rcases h s u with ⟨_, _, hw, -⟩ | ⟨hf, -⟩
    · rw [he] at hw; cases hw
    · rw [he] at hf; exact hf
  advance := by
    intro s u s' rest out he v
    rcases h s u with ⟨_, _, hw, -⟩ | ⟨-, happ⟩
    · rw [he] at hw; cases hw
    · rw [happ v, he]; rfl
  wait := by
    intro s u s' rest he v
    rcases h s u with ⟨_, _, hw, hgo⟩ | ⟨hf, -⟩
    · rw [he] at hw
      cases hw
      exact hgo v
    · rw [he] at hf; exact hf.elim
  stop := by
    intro s u e he v
    rcases h s u with ⟨_, _, hw, -⟩ | ⟨-, happ⟩
    · rw [he] at hw; cases hw
    · rw [happ v, he]; rfl

variable (p : Parser σ α β ε)

/-! ## All results -/

/-- The results that the input `u` gives from the state `s`, and where the parser
    waits then, or its error. -/
def drain (s : σ) (u : List α) : List β × (σ × List α ⊕ ε) :=
  match _h : p.step s u with
  | .advance s' rest out => ((out.toList ++ (drain s' rest).1), (drain s' rest).2)
  | .wait s' rest => ([], .inl (s', rest))
  | .stop e => ([], .inr e)
termination_by u.length
decreasing_by all_goals exact p.shorter ‹_›

variable {p} {s s' : σ} {u rest : List α} {out : Option β} {e : ε}

theorem drain_advance (h : p.step s u = .advance s' rest out) :
    p.drain s u = (out.toList ++ (p.drain s' rest).1, (p.drain s' rest).2) := by
  rw [drain]
  split
  · next h' => rw [h] at h'; cases h'; rfl
  · next h' => rw [h] at h'; cases h'
  · next h' => rw [h] at h'; cases h'

theorem drain_wait (h : p.step s u = .wait s' rest) : p.drain s u = ([], .inl (s', rest)) := by
  rw [drain]
  split
  · next h' => rw [h] at h'; cases h'
  · next h' => rw [h] at h'; cases h'; rfl
  · next h' => rw [h] at h'; cases h'

theorem drain_stop (h : p.step s u = .stop e) : p.drain s u = ([], .inr e) := by
  rw [drain]
  split
  · next h' => rw [h] at h'; cases h'
  · next h' => rw [h] at h'; cases h'
  · next h' => rw [h] at h'; cases h'; rfl

/-- A state in which the parser waits is as good as the one that it waited from. -/
theorem step_wait (h : p.step s u = .wait s' rest) : p.step s' rest = .wait s' rest := by
  have h' := p.wait h []
  rwa [List.append_nil, List.append_nil, h, eq_comm] at h'

theorem drain_of_wait (h : p.step s u = .wait s' rest) (v : List α) :
    p.drain s (u ++ v) = p.drain s' (rest ++ v) := by
  have hstep := p.wait h v
  cases hv : p.step s' (rest ++ v) with
  | advance s₁ r o => rw [drain_advance hv, drain_advance (hstep.trans hv)]
  | wait s₁ r => rw [drain_wait hv, drain_wait (hstep.trans hv)]
  | stop e => rw [drain_stop hv, drain_stop (hstep.trans hv)]

/-- By induction on the input: **what is in the buffer is parsed in the same way
    whatever comes behind it.** -/
theorem drain_append (s : σ) (u v : List α) :
    p.drain s (u ++ v) =
      match (p.drain s u).2 with
      | .inl (s', rest) =>
        ((p.drain s u).1 ++ (p.drain s' (rest ++ v)).1, (p.drain s' (rest ++ v)).2)
      | .inr e => ((p.drain s u).1, .inr e) := by
  induction hlen : u.length using Nat.strongRecOn generalizing s u with
  | _ n ih =>
    subst hlen
    cases h : p.step s u with
    | advance s' rest out =>
      rw [drain_advance (p.advance h v), drain_advance h, ih _ (p.shorter h) s' rest rfl]
      cases (p.drain s' rest).2 with
      | inl x => simp only [List.append_assoc]
      | inr e => rfl
    | wait s' rest =>
      rw [drain_of_wait h v, drain_wait h]
      rfl
    | stop e => rw [drain_stop (p.stop h v), drain_stop h]

/-- What is true of the results before more input comes is true afterwards. -/
theorem drain_append_of_eq {got : List β} {u' : List α}
    (h : p.drain s u = (got ++ (p.drain s' u').1, (p.drain s' u').2)) (v : List α) :
    p.drain s (u ++ v) = (got ++ (p.drain s' (u' ++ v)).1, (p.drain s' (u' ++ v)).2) := by
  rw [drain_append, drain_append s' u' v, h]
  cases (p.drain s' u').2 with
  | inl x => simp only [List.append_assoc]
  | inr e => rfl

/-- Where the parser waits, there is nothing to be had. -/
theorem drain_waiting (h : (p.drain s u).2 = .inl (s', rest)) :
    p.drain s' rest = ([], .inl (s', rest)) := by
  induction hlen : u.length using Nat.strongRecOn generalizing s u with
  | _ n ih =>
    subst hlen
    cases hs : p.step s u with
    | advance s₁ r o =>
      rw [drain_advance hs] at h
      exact ih _ (p.shorter hs) h rfl
    | wait s₁ r =>
      rw [drain_wait hs] at h
      cases h
      exact drain_wait (step_wait hs)
    | stop e => rw [drain_stop hs] at h; cases h

/-- The results of a longer input begin with those of a shorter one. -/
theorem drain_isPrefix (s : σ) (u v : List α) : (p.drain s u).1 <+: (p.drain s (u ++ v)).1 := by
  rw [drain_append]
  cases (p.drain s u).2 with
  | inl x => exact List.prefix_append _ _
  | inr e => exact List.prefix_refl _

theorem drain_append_of_stop (h : (p.drain s u).2 = .inr e) (v : List α) :
    p.drain s (u ++ v) = p.drain s u := by
  rw [drain_append, h]
  exact Prod.ext rfl h.symm

/-! ## One result -/

variable (p) in
/-- The steps up to the first result. -/
def next (s : σ) (u : List α) : Step σ α β ε :=
  match _h : p.step s u with
  | .advance s' rest (some b) => .advance s' rest (some b)
  | .advance s' rest none => next s' rest
  | .wait s' rest => .wait s' rest
  | .stop e => .stop e
termination_by u.length
decreasing_by exact p.shorter ‹_›

theorem next_silent (h : p.step s u = .advance s' rest none) : p.next s u = p.next s' rest := by
  rw [next]
  split
  · next h' => rw [h] at h'; cases h'
  · next h' => rw [h] at h'; cases h'; rfl
  · next h' => rw [h] at h'; cases h'
  · next h' => rw [h] at h'; cases h'

theorem next_eq_step (h : ∀ s' rest, p.step s u ≠ .advance s' rest none) :
    p.next s u = p.step s u := by
  rw [next]
  split
  · next h' => exact h'.symm
  · next h' => exact absurd h' (h _ _)
  · next h' => exact h'.symm
  · next h' => exact h'.symm

variable (p) in
/-- All results, if `next` was the first step. -/
def drainAfter : Step σ α β ε → List β × (σ × List α ⊕ ε)
  | .advance s rest out => (out.toList ++ (p.drain s rest).1, (p.drain s rest).2)
  | .wait s rest => ([], .inl (s, rest))
  | .stop e => ([], .inr e)

/-- By induction on the input: **fetching one result leaves the others.** -/
theorem drain_next (s : σ) (u : List α) : p.drain s u = p.drainAfter (p.next s u) := by
  induction hlen : u.length using Nat.strongRecOn generalizing s u with
  | _ n ih =>
    subst hlen
    cases h : p.step s u with
    | advance s' rest out =>
      cases out with
      | none =>
        rw [next_silent h, ← ih _ (p.shorter h) s' rest rfl, drain_advance h]
        rfl
      | some b =>
        rw [next_eq_step (by rw [h]; intro _ _ h'; cases h'), h, drain_advance h]
        rfl
    | wait s' rest =>
      rw [next_eq_step (by rw [h]; intro _ _ h'; cases h'), h, drain_wait h]
      rfl
    | stop e =>
      rw [next_eq_step (by rw [h]; intro _ _ h'; cases h'), h, drain_stop h]
      rfl

end Parser

end Incremental
