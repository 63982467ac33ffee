import Mathlib.Data.Finset.Card
import Mathlib.Data.Fintype.EquivFin

/-!
# Reference counts

`slot h` is the object that the pointer `h` refers to, if any, and `count p` is
the counter of object `p`. The counters are exact when each one is the number
of pointers to its object. Setting a pointer that refers to nothing, clearing
one and exchanging two keeps them exact; so a counter is 0 exactly when nothing
points to the object.

* `Exact` adds the life of the objects: one is deleted when its last pointer goes.
* `Life` is what the counters are for: an object is deleted, once, if and only if
  nothing points to it any more.
-/

namespace RefCount

variable {H P : Type*}

/-- Each counter is the number of pointers to its object. -/
def Counted (slot : H → Option P) (count : P → ℕ) : Prop :=
  ∀ p, ∃ hs : Finset H, (∀ h, h ∈ hs ↔ slot h = some p) ∧ hs.card = count p

variable {slot : H → Option P} {count : P → ℕ} {h : H} {p : P}

theorem Counted.empty : Counted (fun _ : H => (none : Option P)) fun _ => 0 :=
  fun _ => ⟨∅, by simp, rfl⟩

theorem Counted.count_pos (hc : Counted slot count) (hp : slot h = some p) : 0 < count p := by
  obtain ⟨hs, hmem, hcard⟩ := hc p
  rw [← hcard]
  exact Finset.card_pos.mpr ⟨h, (hmem h).mpr hp⟩

/-- A counter is 0 when nothing points to the object any more. -/
theorem Counted.count_eq_zero (hc : Counted slot count) :
    count p = 0 ↔ ∀ h, slot h ≠ some p := by
  obtain ⟨hs, hmem, hcard⟩ := hc p
  rw [← hcard, Finset.card_eq_zero, Finset.eq_empty_iff_forall_notMem]
  exact forall_congr' fun h => not_congr (hmem h)

/-- The values of pointers are rearranged. -/
theorem Counted.perm (hc : Counted slot count) (e : Equiv.Perm H) : Counted (slot ∘ e) count := by
  intro q
  obtain ⟨hs, hmem, hcard⟩ := hc q
  refine ⟨hs.map e.symm.toEmbedding, fun h => ?_, by rw [Finset.card_map, hcard]⟩
  rw [Finset.mem_map_equiv, hmem]
  simp

section Update

variable [DecidableEq H] [DecidableEq P]

/-- A pointer that referred to nothing is set to `p` (`addRef`). -/
theorem Counted.set (hc : Counted slot count) (hn : slot h = none) :
    Counted (Function.update slot h (some p)) (Function.update count p (count p + 1)) := by
  intro q
  obtain ⟨hs, hmem, hcard⟩ := hc q
  have hnot : h ∉ hs := fun hm => by rw [hmem, hn] at hm; cases hm
  by_cases hq : q = p
  · subst hq
    refine ⟨insert h hs, fun h' => ?_, ?_⟩
    · by_cases hh : h' = h
      · simp [hh]
      · simp [hh, hmem]
    · rw [Finset.card_insert_of_notMem hnot, Function.update_self, hcard]
  · refine ⟨hs, fun h' => ?_, by rw [Function.update_of_ne hq, hcard]⟩
    by_cases hh : h' = h
    · subst hh
      simp only [Function.update_self, Option.some.injEq]
      exact ⟨fun hm => absurd hm hnot, fun e => absurd e.symm hq⟩
    · rw [Function.update_of_ne hh, hmem]

/-- A pointer to `p` is cleared (`release`). -/
theorem Counted.clear (hc : Counted slot count) (hp : slot h = some p) :
    Counted (Function.update slot h none) (Function.update count p (count p - 1)) := by
  intro q
  obtain ⟨hs, hmem, hcard⟩ := hc q
  by_cases hq : q = p
  · subst hq
    refine ⟨hs.erase h, fun h' => ?_, ?_⟩
    · by_cases hh : h' = h
      · simp [hh]
      · simp [hh, hmem]
    · rw [Finset.card_erase_of_mem ((hmem h).mpr hp), Function.update_self, hcard]
  · refine ⟨hs, fun h' => ?_, by rw [Function.update_of_ne hq, hcard]⟩
    by_cases hh : h' = h
    · subst hh
      simp only [Function.update_self, reduceCtorEq, iff_false, hmem, hp]
      exact fun e => hq (Option.some.inj e).symm
    · rw [Function.update_of_ne hh, hmem]

end Update

/-! ## Objects that are deleted with their last pointer -/

/-- `n` objects have been created; an object has been deleted, once, when nothing
    points to it any more. -/
structure Exact (slot : H → Option ℕ) (n : ℕ) (count deletes : ℕ → ℕ) : Prop where
  counted : Counted slot count
  allocated : ∀ h p, slot h = some p → p < n
  deletes : ∀ p, deletes p = if p < n ∧ count p = 0 then 1 else 0

section Exact

variable {H : Type*} {slot : H → Option ℕ} {n : ℕ} {count count' deletes deletes' : ℕ → ℕ}
  {h k : H} {p : ℕ}

theorem Exact.empty : Exact (fun _ : H => none) 0 (fun _ => 0) fun _ => 0 :=
  ⟨Counted.empty, by simp, by simp⟩

/-- Not deleted means that a pointer is left. -/
theorem Exact.deletes_eq_zero (he : Exact slot n count deletes) (hp : p < n) :
    deletes p = 0 ↔ ∃ h, slot h = some p := by
  rw [he.deletes p]
  have hz := he.counted.count_eq_zero (p := p)
  constructor
  · intro hd
    by_contra hno
    push Not at hno
    simp [hp, hz.mpr hno] at hd
  · rintro ⟨h, hh⟩
    have hpos : 0 < count p := he.counted.count_pos hh
    exact if_neg fun ⟨_, h0⟩ => absurd h0 hpos.ne'

/-- Of the `n` objects created so far one has pointers to it and has not been deleted,
    or it has none and has been deleted once. -/
structure Life (slot : H → Option ℕ) (n : ℕ) (deletes : ℕ → ℕ) : Prop where
  live : ∀ p, p < n →
    ((∃ h, slot h = some p) ∧ deletes p = 0) ∨ ((∀ h, slot h ≠ some p) ∧ deletes p = 1)
  unborn : ∀ p, n ≤ p → (∀ h, slot h ≠ some p) ∧ deletes p = 0

theorem Exact.life (he : Exact slot n count deletes) : Life slot n deletes where
  live p hp := by
    by_cases h0 : deletes p = 0
    · exact Or.inl ⟨(he.deletes_eq_zero hp).mp h0, h0⟩
    · have h1 := he.deletes p
      refine Or.inr ⟨fun h hh => h0 ((he.deletes_eq_zero hp).mpr ⟨h, hh⟩), ?_⟩
      split at h1 <;> omega
  unborn p hp := by
    refine ⟨fun h hh => absurd (he.allocated h p hh) (by omega), ?_⟩
    rw [he.deletes p, if_neg (by omega)]

/-- A deletion takes place when the last pointer goes, and only then. -/
theorem Life.moment {slot' : H → Option ℕ} {n' : ℕ} (hl : Life slot n deletes)
    (hl' : Life slot' n' deletes') (hp : p < n') :
    deletes' p = deletes p + 1 ↔ (n ≤ p ∨ ∃ h, slot h = some p) ∧ ∀ h, slot' h ≠ some p := by
  have hbefore : (n ≤ p ∨ ∃ h, slot h = some p) ↔ deletes p = 0 := by
    by_cases hn : n ≤ p
    · simp [hn, (hl.unborn p hn).2]
    · rcases hl.live p (by omega) with ⟨hex, h0⟩ | ⟨hno, h1⟩
      · simp [hex, h0]
      · simp [hn, hno, h1]
  have hafter : (∀ h, slot' h ≠ some p) ↔ deletes' p = 1 := by
    rcases hl'.live p hp with ⟨hex, h0⟩ | ⟨hno, h1⟩
    · obtain ⟨h, hh⟩ := hex
      simp only [h0, Nat.zero_ne_one, iff_false]
      exact fun hall => hall h hh
    · exact iff_of_true hno h1
  rw [hbefore, hafter]
  have hle : deletes' p ≤ 1 := by
    rcases hl'.live p hp with ⟨-, h0⟩ | ⟨-, h1⟩ <;> omega
  omega

theorem Exact.perm (he : Exact slot n count deletes) (e : Equiv.Perm H) :
    Exact (slot ∘ e) n count deletes :=
  ⟨he.counted.perm e, fun h p hp => he.allocated (e h) p hp, he.deletes⟩

variable [DecidableEq H]

/-- A pointer is copied to a place that has none. -/
theorem Exact.copied (he : Exact slot n count deletes) (hn : slot h = none) (hp : slot k = some p)
    (hc : count' = Function.update count p (count p + 1)) :
    Exact (Function.update slot h (some p)) n count' deletes where
  counted := by
    rw [hc]
    exact he.counted.set hn
  allocated := by
    intro k' q hk
    by_cases hkh : k' = h
    · rw [hkh, Function.update_self] at hk
      cases hk
      exact he.allocated k p hp
    · rw [Function.update_of_ne hkh] at hk
      exact he.allocated k' q hk
  deletes := by
    intro q
    have hpos : 0 < count p := he.counted.count_pos hp
    have hd := he.deletes q
    by_cases hq : q = p
    · subst hq
      rw [if_neg fun ⟨_, h0⟩ => absurd h0 hpos.ne'] at hd
      simp [hd, hc]
    · simpa [hc, hq] using hd

/-- A pointer goes, and its object with it if it was the last one. -/
theorem Exact.destroyed (he : Exact slot n count deletes) (hp : slot h = some p)
    (hc : count' = Function.update count p (count p - 1))
    (hd : ∀ q, deletes' q = deletes q + if q = p ∧ count' p = 0 then 1 else 0) :
    Exact (Function.update slot h none) n count' deletes' where
  counted := by
    rw [hc]
    exact he.counted.clear hp
  allocated := by
    intro k q hk
    by_cases hkh : k = h
    · rw [hkh, Function.update_self] at hk
      cases hk
    · rw [Function.update_of_ne hkh] at hk
      exact he.allocated k q hk
  deletes := by
    intro q
    have hpos : 0 < count p := he.counted.count_pos hp
    have hlt : p < n := he.allocated h p hp
    have hold := he.deletes q
    rw [hd q]
    by_cases hq : q = p
    · subst hq
      rw [if_neg fun ⟨_, h0⟩ => absurd h0 hpos.ne'] at hold
      simp [hold, hlt]
    · simp [hc, hq, hold]

/-- An object is created with its first pointer. -/
theorem Exact.created (he : Exact slot n count deletes) (hn : slot h = none)
    (hc : count' = Function.update count n 1) :
    Exact (Function.update slot h (some n)) (n + 1) count' deletes where
  counted := by
    have h0 : count n = 0 := by
      refine he.counted.count_eq_zero.mpr fun k hk => ?_
      exact absurd (he.allocated k _ hk) (lt_irrefl _)
    rw [hc]
    simpa only [h0, Nat.zero_add] using he.counted.set (p := n) hn
  allocated := by
    intro k q hk
    by_cases hkh : k = h
    · rw [hkh, Function.update_self] at hk
      cases hk
      omega
    · rw [Function.update_of_ne hkh] at hk
      have := he.allocated k q hk
      omega
  deletes := by
    intro q
    have hd := he.deletes q
    by_cases hq : q = n
    · simpa [hc, hq] using hd
    · have hlt : q < n + 1 ↔ q < n := by omega
      simpa [hc, hq, hlt] using hd

end Exact

end RefCount
