import Mathlib.Logic.Equiv.Basic
import Mathlib.Logic.ExistsUnique
import Mathlib.Order.Basic

/-!
# Tables of owned resources

Resources are numbered in the order of their creation; `n` of them exist.
`slot p` is the resource that slot `p` points to, `freed c` counts how often
resource `c` has been released, and `D p` says that the pointer of slot `p`
dangles: its resource has been released already. In an owned table every live
resource has exactly one owner and none is released twice.

* `Owned.free`: releasing the resource of a slot makes the slot dangle.
* `Owned.refill`: an empty or dangling slot gets a resource created since, or
  nothing; all other resources created since have been released once.
* `Owned.perm`: the resources are moved among the slots.
* `Owned.create`, `Owned.drop`: for tables without dangling pointers.
-/

namespace Handles

variable {P : Type*}

/-- Every live resource has exactly one owner and none is released twice. -/
structure Owned (slot : P → Option ℕ) (n : ℕ) (freed : ℕ → ℕ) (D : P → Prop) : Prop where
  lt : ∀ p c, slot p = some c → c < n
  inj : ∀ p q c, slot p = some c → slot q = some c → p = q
  live : ∀ p c, slot p = some c → ¬ D p → freed c = 0
  owner : ∀ c, c < n → freed c = 0 → ∃ p, slot p = some c ∧ ¬ D p
  once : ∀ c, c < n → freed c ≤ 1

variable {slot slot' : P → Option ℕ} {n n' : ℕ} {freed freed' : ℕ → ℕ} {D D' : P → Prop}

theorem Owned.congr (h : Owned slot n freed D) (hs : ∀ p, slot' p = slot p) (hn : n' = n)
    (hf : ∀ c, freed' c = freed c) (hD : ∀ p c, slot p = some c → (D' p ↔ D p)) :
    Owned slot' n' freed' D' := by
  subst hn
  obtain rfl : slot' = slot := funext hs
  obtain rfl : freed' = freed := funext hf
  refine ⟨h.lt, h.inj, fun p c hp hd => h.live p c hp (mt (hD p c hp).mpr hd), fun c hc h0 => ?_,
    h.once⟩
  obtain ⟨p, hp, hd⟩ := h.owner c hc h0
  exact ⟨p, hp, mt (hD p c hp).mp hd⟩

theorem Owned.unique_owner (h : Owned slot n freed D) {c : ℕ} (hc : c < n) (h0 : freed c = 0) :
    ∃! p, slot p = some c := by
  obtain ⟨p, hp, -⟩ := h.owner c hc h0
  exact ⟨p, hp, fun q hq => h.inj q p c hq hp⟩

/-- If all pointers dangle, every resource has been released exactly once. -/
theorem Owned.all_freed (h : Owned slot n freed D) (hD : ∀ p, D p) {c : ℕ} (hc : c < n) :
    freed c = 1 := by
  have hle := h.once c hc
  have hne : freed c ≠ 0 := fun h0 => by
    obtain ⟨p, -, hd⟩ := h.owner c hc h0
    exact hd (hD p)
  omega

/-- Release the resource of slot `p`. -/
theorem Owned.free (h : Owned slot n freed D) {p : P} {c : ℕ} (hp : slot p = some c) (hd : ¬ D p)
    (hc : freed' c = freed c + 1) (hother : ∀ c', c' ≠ c → freed' c' = freed c') :
    Owned slot n freed' (fun q => D q ∨ q = p) where
  lt := h.lt
  inj := h.inj
  live q c' hq hdq := by
    have hne : c' ≠ c := fun e => hdq (Or.inr (h.inj q p c (e ▸ hq) hp))
    rw [hother c' hne]
    exact h.live q c' hq fun hd => hdq (Or.inl hd)
  owner c' hc' h0 := by
    have hne : c' ≠ c := fun e => by rw [e, hc] at h0; omega
    rw [hother c' hne] at h0
    obtain ⟨q, hq, hdq⟩ := h.owner c' hc' h0
    refine ⟨q, hq, fun e => ?_⟩
    rcases e with e | e
    · exact hdq e
    · subst e
      exact hne (Option.some.inj (hq.symm.trans hp))
  once c' hc' := by
    by_cases hne : c' = c
    · subst hne
      have := h.live p c' hp hd
      omega
    · rw [hother c' hne]; exact h.once c' hc'

/-- The empty or dangling slot `p` gets one of the resources created since, or none. -/
theorem Owned.refill (h : Owned slot n freed D) {p : P} (hfree : ∀ c, slot p = some c → D p)
    (hn : n ≤ n') (hother : ∀ q, q ≠ p → slot' q = slot q)
    (hnew : ∀ c, slot' p = some c → n ≤ c ∧ c < n')
    (hold : ∀ c, c < n → freed' c = freed c)
    (hfresh : ∀ c, n ≤ c → c < n' → freed' c = if slot' p = some c then 0 else 1) :
    Owned slot' n' freed' (fun q => D q ∧ q ≠ p) where
  lt q c hq := by
    by_cases e : q = p
    · exact (hnew c (e ▸ hq)).2
    · exact Nat.lt_of_lt_of_le (h.lt q c (hother q e ▸ hq)) hn
  inj q q' c hq hq' := by
    have hlt : ∀ q, q ≠ p → slot' q = some c → c < n := fun q e hq => h.lt q c (hother q e ▸ hq)
    by_cases e : q = p <;> by_cases e' : q' = p
    · rw [e, e']
    · have h1 := hnew c (e ▸ hq)
      have h2 := hlt q' e' hq'
      omega
    · have h1 := hnew c (e' ▸ hq')
      have h2 := hlt q e hq
      omega
    · exact h.inj q q' c (hother q e ▸ hq) (hother q' e' ▸ hq')
  live q c hq hd := by
    by_cases e : q = p
    · subst e
      have hc := hnew c hq
      rw [hfresh c hc.1 hc.2, if_pos hq]
    · have hq' : slot q = some c := hother q e ▸ hq
      rw [hold c (h.lt q c hq')]
      exact h.live q c hq' fun hd' => hd ⟨hd', e⟩
  owner c hc h0 := by
    by_cases hlt : c < n
    · rw [hold c hlt] at h0
      obtain ⟨q, hq, hd⟩ := h.owner c hlt h0
      have hne : q ≠ p := fun e => hd (e ▸ hfree c (e ▸ hq))
      exact ⟨q, by rw [hother q hne, hq], fun e => hd e.1⟩
    · have hp : slot' p = some c := by
        by_contra hne
        rw [hfresh c (by omega) hc, if_neg hne] at h0
        exact absurd h0 Nat.one_ne_zero
      exact ⟨p, hp, fun e => e.2 rfl⟩
  once c hc := by
    by_cases hlt : c < n
    · rw [hold c hlt]; exact h.once c hlt
    · rw [hfresh c (by omega) hc]; split <;> omega

/-- The resources are moved among the slots. -/
theorem Owned.perm (h : Owned slot n freed D) (e : Equiv.Perm P) :
    Owned (slot ∘ e) n freed (D ∘ e) where
  lt p := h.lt (e p)
  inj p q c hp hq := e.injective (h.inj (e p) (e q) c hp hq)
  live p := h.live (e p)
  owner c hc h0 := by
    obtain ⟨p, hp, hd⟩ := h.owner c hc h0
    exact ⟨e.symm p, by simpa using hp, by simpa using hd⟩
  once := h.once

/-! ## Tables without dangling pointers -/

section Sound

theorem Owned.empty (freed : ℕ → ℕ) :
    Owned (fun _ : P => none) 0 freed fun _ => False where
  lt := by simp
  inj := by simp
  live := by simp
  owner c hc := absurd hc (Nat.not_lt_zero c)
  once c hc := absurd hc (Nat.not_lt_zero c)

variable [DecidableEq P] {p : P} {c : ℕ}

/-- An empty slot gets a new resource. -/
theorem Owned.create (h : Owned slot n freed fun _ => False) (hp : slot p = none)
    (hn : freed n = 0) : Owned (Function.update slot p (some n)) (n + 1) freed fun _ => False := by
  have hfill : Owned (Function.update slot p (some n)) (n + 1) freed fun q => False ∧ q ≠ p := by
    refine h.refill (by simp [hp]) (by omega) (fun q hq => Function.update_of_ne hq _ _) ?_
      (fun _ _ => rfl) ?_
    · intro c hc
      rw [Function.update_self] at hc
      cases hc
      omega
    · intro c hc hlt
      obtain rfl : c = n := by omega
      rw [Function.update_self, if_pos rfl, hn]
  simpa only [false_and] using hfill

/-- The resource of a slot is released and the slot emptied. -/
theorem Owned.drop (h : Owned slot n freed fun _ => False) (hp : slot p = some c)
    (hc : freed' c = freed c + 1) (hother : ∀ c', c' ≠ c → freed' c' = freed c') :
    Owned (Function.update slot p none) n freed' fun _ => False := by
  have hfree := h.free hp not_false hc hother
  have hfill : Owned (Function.update slot p none) n freed'
      fun q => (False ∨ q = p) ∧ q ≠ p := by
    refine hfree.refill (by simp) (Nat.le_refl n) (fun q hq => Function.update_of_ne hq _ _) (by simp)
      (fun _ _ => rfl) ?_
    intro c hc hlt
    omega
  simpa only [false_or, and_not_self_iff] using hfill

end Sound

end Handles
