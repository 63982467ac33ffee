import Mathlib.Data.Fintype.Card
import Mathlib.Data.List.Nodup
import Mathlib.Data.Finset.Card

/-!
# Lock tables

`owner r` is what the mutex of resource `r` says (the thread that has it
locked, if any) and `locks t` is what thread `t` believes it has locked. The
two agree when each resource is owned by exactly the thread that lists it, and
no thread lists a resource twice. Locking a free resource, unlocking an owned
one and reordering a list keep the agreement; the agreement gives mutual
exclusion, and a count of the free resources.
-/

namespace LockTable

variable {R T : Type*}

/-- The mutexes and the threads' own lists agree. -/
structure Agree (owner : R → Option T) (locks : T → List R) : Prop where
  owner_iff : ∀ r t, owner r = some t ↔ r ∈ locks t
  nodup : ∀ t, (locks t).Nodup

variable {owner owner' : R → Option T} {locks locks' : T → List R} {r : R} {t u : T}

theorem Agree.unique (h : Agree owner locks) (ht : r ∈ locks t) (hu : r ∈ locks u) : t = u := by
  have h1 := (h.owner_iff r t).mpr ht
  have h2 := (h.owner_iff r u).mpr hu
  exact Option.some.inj (h1.symm.trans h2)

theorem Agree.free_iff (h : Agree owner locks) : owner r = none ↔ ∀ t, r ∉ locks t := by
  constructor
  · intro hn t ht
    rw [(h.owner_iff r t).mpr ht] at hn
    cases hn
  · intro hn
    cases ho : owner r with
    | none => rfl
    | some t => exact absurd ((h.owner_iff r t).mp ho) (hn t)

/-- If each thread locks one resource at most and only the threads `ts` lock
    any, some of more than `ts.card` resources is free. -/
theorem Agree.exists_free (h : Agree owner locks) (rs : Finset R) (ts : Finset T)
    (hcard : ts.card < rs.card) (hone : ∀ t, (locks t).length ≤ 1)
    (hout : ∀ t, t ∉ ts → locks t = []) : ∃ r ∈ rs, owner r = none := by
  by_contra hnone
  have hmaps : ∀ r ∈ rs, owner r ∈ ts.map Function.Embedding.some := by
    intro r hr
    cases ho : owner r with
    | none => exact absurd ⟨r, hr, ho⟩ hnone
    | some t =>
      refine Finset.mem_map_of_mem _ (Classical.not_not.mp fun ht => ?_)
      have := (h.owner_iff r t).mp ho
      rw [hout t ht] at this
      cases this
  have hcard' : (ts.map Function.Embedding.some).card < rs.card := by rwa [Finset.card_map]
  obtain ⟨r, hr, q, -, hne, heq⟩ := Finset.exists_ne_map_eq_of_card_lt_of_maps_to hcard' hmaps
  obtain ⟨t, -, ht⟩ := Finset.mem_map.mp (hmaps r hr)
  -- both are in the list of `t`
  have h1 : r ∈ locks t := (h.owner_iff r t).mp ht.symm
  have h2 : q ∈ locks t := (h.owner_iff q t).mp (heq.symm.trans ht.symm)
  have hlen := hone t
  rcases hl : locks t with _ | ⟨a, _ | ⟨b, rest⟩⟩ <;> rw [hl] at h1 h2 hlen
  · cases h1
  · exact hne ((List.mem_singleton.mp h1).trans (List.mem_singleton.mp h2).symm)
  · simp at hlen

/-- A step that changes no mutex and only reorders the list of `t`. -/
theorem Agree.keep (h : Agree owner locks) (hown : ∀ q, owner' q = owner q)
    (ht : (locks' t).Perm (locks t)) (hother : ∀ u, u ≠ t → locks' u = locks u) :
    Agree owner' locks' where
  owner_iff q u := by
    rw [hown, h.owner_iff]
    by_cases hu : u = t
    · subst hu; exact ht.mem_iff.symm
    · rw [hother u hu]
  nodup u := by
    by_cases hu : u = t
    · subst hu; exact ht.nodup_iff.mpr (h.nodup u)
    · rw [hother u hu]; exact h.nodup u

/-- Thread `t` locks the free resource `r`. -/
theorem Agree.acquire (h : Agree owner locks) (hfree : owner r = none)
    (hr : owner' r = some t) (hown : ∀ q, q ≠ r → owner' q = owner q)
    (ht : (locks' t).Perm (r :: locks t)) (hother : ∀ u, u ≠ t → locks' u = locks u) :
    Agree owner' locks' where
  owner_iff q u := by
    have hnot := h.free_iff.mp hfree
    by_cases hq : q = r <;> by_cases hu : u = t
    · subst hq hu; simp [hr, ht.mem_iff]
    · subst hq; rw [hr, hother u hu]
      exact ⟨fun e => absurd (Option.some.inj e).symm hu, fun e => absurd e (hnot u)⟩
    · subst hu; rw [hown q hq, ht.mem_iff, List.mem_cons, h.owner_iff]; simp [hq]
    · rw [hown q hq, hother u hu, h.owner_iff]
  nodup u := by
    by_cases hu : u = t
    · subst hu
      exact ht.nodup_iff.mpr (List.nodup_cons.mpr ⟨h.free_iff.mp hfree u, h.nodup u⟩)
    · rw [hother u hu]; exact h.nodup u

/-- Thread `t` unlocks `r`, which it had locked. -/
theorem Agree.release (h : Agree owner locks) (hr : owner' r = none)
    (hown : ∀ q, q ≠ r → owner' q = owner q)
    (ht : (locks t).Perm (r :: locks' t)) (hother : ∀ u, u ≠ t → locks' u = locks u) :
    Agree owner' locks' where
  owner_iff q u := by
    have hnd := ht.nodup_iff.mp (h.nodup t)
    have hrt : r ∈ locks t := ht.mem_iff.mpr List.mem_cons_self
    by_cases hq : q = r <;> by_cases hu : u = t
    · subst hq hu; simp [hr, (List.nodup_cons.mp hnd).1]
    · subst hq; rw [hr, hother u hu]
      simp only [reduceCtorEq, false_iff]
      exact fun e => hu (h.unique e hrt)
    · subst hu; rw [hown q hq, h.owner_iff, ht.mem_iff, List.mem_cons]; simp [hq]
    · rw [hown q hq, hother u hu, h.owner_iff]
  nodup u := by
    by_cases hu : u = t
    · subst hu; exact (List.nodup_cons.mp (ht.nodup_iff.mp (h.nodup u))).2
    · rw [hother u hu]; exact h.nodup u

end LockTable
