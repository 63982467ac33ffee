import Mathlib.Data.List.Range
import Mathlib.Data.List.Perm.Subperm
import Mathlib.Data.List.Nodup
import Mathlib.Data.Nat.ModEq

/-!
# A cycle of `n` positions walked upwards

The positions are `0, …, n - 1`; the walk goes from `i` to `(i + 1) % n`.
`order n b m` are the first `m` positions of the walk that starts at `b`. Up to
one round no position occurs twice, and one round meets each of them.
-/

namespace Cycle

/-- The first `m` positions from `b` on. -/
def order (n b m : ℕ) : List ℕ := (List.range m).map fun i => (b + i) % n

variable {n b m : ℕ}

@[simp] theorem order_zero : order n b 0 = [] := rfl

theorem order_succ : order n b (m + 1) = order n b m ++ [(b + m) % n] := by
  simp [order, List.range_succ]

theorem order_cons (hb : b < n) : order n b (m + 1) = b :: order n (b + 1) m := by
  rw [order, List.range_succ_eq_map, List.map_cons, List.map_map, Nat.add_zero, Nat.mod_eq_of_lt hb]
  refine congrArg (b :: ·) (List.map_congr_left fun i _ => ?_)
  show (b + (i + 1)) % n = (b + 1 + i) % n
  rw [Nat.add_assoc b 1 i, Nat.add_comm 1 i]

@[simp] theorem length_order : (order n b m).length = m := by simp [order]

theorem mod_succ (x : ℕ) : (x % n + 1) % n = (x + 1) % n := Nat.mod_add_mod x n 1

/-- Within a round the positions are distinct. -/
theorem order_nodup (h : m ≤ n) : (order n b m).Nodup := by
  refine List.Nodup.map_on (fun i hi j hj hij => ?_) List.nodup_range
  have hi' := List.mem_range.mp hi
  have hj' := List.mem_range.mp hj
  have hmod : i % n = j % n := Nat.ModEq.add_left_cancel' b hij
  rwa [Nat.mod_eq_of_lt (by omega), Nat.mod_eq_of_lt (by omega)] at hmod

/-- One round meets every position once. -/
theorem order_perm (n b : ℕ) : (order n b n).Perm (List.range n) := by
  refine (List.subperm_of_subset (order_nodup le_rfl) fun x hx => ?_).perm_of_length_le (by simp)
  obtain ⟨i, hi, rfl⟩ := List.mem_map.mp hx
  have hi' := List.mem_range.mp hi
  exact List.mem_range.mpr (Nat.mod_lt _ (by omega))

/-- A jump by one to `n - 1` positions leaves the position. -/
theorem jump_ne (hb : b < n) (hn : 1 < n) (x : ℕ) : (b + (1 + x % (n - 1))) % n ≠ b := by
  have hx : x % (n - 1) < n - 1 := Nat.mod_lt x (by omega)
  by_cases hlt : b + (1 + x % (n - 1)) < n
  · rw [Nat.mod_eq_of_lt hlt]; omega
  · rw [Nat.mod_eq_sub_mod (by omega), Nat.mod_eq_of_lt (by omega)]; omega

end Cycle
