import Mathlib.Data.List.Iterate
import Mathlib.Data.List.Nodup
import Mathlib.Data.List.Perm.Subperm
import Mathlib.Order.Basic

/-!
# A ring of `N` nodes walked downwards

The nodes are `0, …, N - 1`; the walk goes from `i` to `i - 1` and from `0` to
`N - 1`, as a null-terminated list does whose nodes were each put in front of
the previous one. `hops N start q` counts the moves from `start` to `q`. A walk
that stops before it reaches its start again meets every node once, in the
order of `hops`.
-/

namespace Ring

/-- The node after `i`. -/
def after (N i : ℕ) : ℕ := if i = 0 then N - 1 else i - 1

/-- The number of moves from `start` to `q`. -/
def hops (N start q : ℕ) : ℕ := if q ≤ start then start - q else start + N - q

variable {N start i q q' : ℕ}

theorem after_lt (hi : i < N) : after N i < N := by
  unfold after; split <;> omega

@[simp] theorem hops_self : hops N start start = 0 := by simp [hops]

theorem hops_lt (hs : start < N) (hq : q < N) : hops N start q < N := by
  unfold hops; split <;> omega

theorem hops_inj (hq : q < N) (hq' : q' < N) (h : hops N start q = hops N start q') :
    q = q' := by
  unfold hops at h; split at h <;> split at h <;> omega

/-- The walk counts up by one until it is back at its start. -/
theorem hops_after (hs : start < N) (hi : i < N) (h : after N i ≠ start) :
    hops N start (after N i) = hops N start i + 1 := by
  unfold hops after at *; split_ifs at * <;> omega

/-- The node whose successor is the start is the last one. -/
theorem hops_last (hs : start < N) (hi : i < N) (h : after N i = start) :
    hops N start i + 1 = N := by
  unfold hops after at *; split_ifs at * <;> omega

/-- The nodes of a walk of `m` moves from `start`, without the last one reached. -/
def order (N start m : ℕ) : List ℕ := List.iterate (after N) start m

@[simp] theorem length_order (m : ℕ) : (order N start m).length = m := List.length_iterate _ _ _

theorem order_succ (m : ℕ) : order N start (m + 1) = start :: order N (after N start) m := rfl

/-- Within a round the walk has made `i` moves at the node number `i`. -/
theorem hops_iterate (hs : start < N) (hi : i < N) :
    (after N)^[i] start < N ∧ hops N start ((after N)^[i] start) = i := by
  induction i with
  | zero => exact ⟨hs, hops_self⟩
  | succ i ih =>
    obtain ⟨hlt, hhops⟩ := ih (by omega)
    rw [Function.iterate_succ_apply']
    refine ⟨after_lt hlt, ?_⟩
    have hne : after N ((after N)^[i] start) ≠ start := by
      intro h
      have := hops_last hs hlt h
      omega
    rw [hops_after hs hlt hne, hhops]

/-- One round meets every node once. -/
theorem order_nodup (hs : start < N) : (order N start N).Nodup := by
  rw [order, ← List.range_map_iterate]
  refine List.Nodup.map_on (fun j hj k hk h => ?_) List.nodup_range
  have hj' := (hops_iterate hs (List.mem_range.mp hj)).2
  rw [← hj', h, (hops_iterate hs (List.mem_range.mp hk)).2]

/-- A round ends where it began. -/
theorem iterate_round (hs : start < N) : (after N)^[N] start = start := by
  obtain ⟨m, rfl⟩ : ∃ m, N = m + 1 := ⟨N - 1, by omega⟩
  obtain ⟨hlt, hhops⟩ := hops_iterate hs (Nat.lt_succ_self m)
  rw [Function.iterate_succ_apply']
  by_contra hne
  have hnext := hops_after hs hlt hne
  have hbound := hops_lt hs (after_lt hlt)
  omega

theorem iterate_lt (hs : start < N) (k : ℕ) : (after N)^[k] start < N := by
  induction k with
  | zero => exact hs
  | succ k ih =>
    rw [Function.iterate_succ_apply']
    exact after_lt ih

theorem order_append (m k : ℕ) :
    order N start (m + k) = order N start m ++ order N ((after N)^[m] start) k :=
  List.iterate_add _ _ _ _

/-- Within a round the node number `i` has not been met before. -/
theorem iterate_not_mem_order (hs : start < N) (hi : i < N) :
    (after N)^[i] start ∉ order N start i := by
  intro hmem
  obtain ⟨j, hj, he⟩ := List.mem_iterate.mp hmem
  have hhops := (hops_iterate hs hi).2
  rw [he, (hops_iterate hs (by omega)).2] at hhops
  omega

theorem order_perm (hs : start < N) : (order N start N).Perm (List.range N) := by
  refine (List.subperm_of_subset (order_nodup hs) fun q hq => ?_).perm_of_length_le (by simp)
  obtain ⟨j, hj, rfl⟩ := List.mem_iterate.mp hq
  exact List.mem_range.mpr (hops_iterate hs hj).1

end Ring
