import Mathlib.Logic.Function.Basic

/-!
# Maps filled by insertion

A map `κ → Option α` into which pairs are inserted one after the other. An
insertion adds an entry for a new key and keeps the entry of a key that is there.

* `insertAll_apply`: the entries after some insertions.
* `insertAll_entries_iff`: when every inserted pair is an entry.
* `insertAll_eq_self_iff`: when the map is as it was.
-/

namespace InsertMap

variable {κ α : Type*} [DecidableEq κ]

/-- The map `m` after the insertion of `kv`. -/
def insert (m : κ → Option α) (kv : κ × α) : κ → Option α :=
  match m kv.1 with
  | none => Function.update m kv.1 (some kv.2)
  | some _ => m

/-- The map `m` after the insertion of `kvs`. -/
def insertAll (m : κ → Option α) (kvs : List (κ × α)) : κ → Option α := kvs.foldl insert m

/-- The pairs `kvs` do not contradict the map `m`, nor each other. -/
structure Compatible (m : κ → Option α) (kvs : List (κ × α)) : Prop where
  old : ∀ kv ∈ kvs, ∀ x, m kv.1 = some x → x = kv.2
  new : ∀ kv ∈ kvs, ∀ kv' ∈ kvs, kv.1 = kv'.1 → kv.2 = kv'.2

theorem insert_new {m : κ → Option α} {kv : κ × α} (h : m kv.1 = none) :
    insert m kv = Function.update m kv.1 (some kv.2) := by
  unfold insert
  rw [h]

theorem insert_old {m : κ → Option α} {kv : κ × α} {x : α} (h : m kv.1 = some x) :
    insert m kv = m := by
  unfold insert
  rw [h]

theorem insert_apply (m : κ → Option α) (kv : κ × α) (k : κ) :
    insert m kv k = (m k).or (if k = kv.1 then some kv.2 else none) := by
  by_cases hk : k = kv.1
  · rw [if_pos hk, hk]
    cases h : m kv.1 with
    | none => rw [insert_new h, Function.update_self, Option.none_or]
    | some x => rw [insert_old h, h, Option.some_or]
  · rw [if_neg hk, Option.or_none]
    cases h : m kv.1 with
    | none => rw [insert_new h, Function.update_of_ne hk]
    | some x => rw [insert_old h]

/-- The first one of the pairs for a key counts, if the key is new. -/
theorem insertAll_apply (m : κ → Option α) (kvs : List (κ × α)) (k : κ) :
    insertAll m kvs k = (m k).or (kvs.lookup k) := by
  induction kvs generalizing m with
  | nil =>
    rw [List.lookup_nil, Option.or_none]
    rfl
  | cons kv kvs ih =>
    show insertAll (insert m kv) kvs k = _
    rw [ih, insert_apply, Option.or_assoc, List.lookup_cons]
    by_cases hk : k = kv.1
    · rw [if_pos hk, beq_iff_eq.mpr hk, Option.some_or]
    · rw [if_neg hk, beq_eq_false_iff_ne.mpr hk, Option.none_or]

theorem insertAll_old {m : κ → Option α} {k : κ} {x : α} (kvs : List (κ × α)) (h : m k = some x) :
    insertAll m kvs k = some x := by
  rw [insertAll_apply, h, Option.some_or]

/-- A pair was found for each key that was inserted. -/
theorem exists_lookup {kvs : List (κ × α)} {kv : κ × α} (h : kv ∈ kvs) :
    ∃ kv' ∈ kvs, kv'.1 = kv.1 ∧ kvs.lookup kv.1 = some kv'.2 := by
  cases hl : kvs.lookup kv.1 with
  | none =>
    have hne := List.lookup_eq_none_iff.mp hl kv h
    simp at hne
  | some x =>
    obtain ⟨l₁, l₂, rfl, -⟩ := List.lookup_eq_some_iff.mp hl
    exact ⟨(kv.1, x), by simp, rfl, rfl⟩

/-- **Every inserted pair is an entry** exactly if the pairs contradict neither the
    map nor each other. -/
theorem insertAll_entries_iff (m : κ → Option α) (kvs : List (κ × α)) :
    (∀ kv ∈ kvs, insertAll m kvs kv.1 = some kv.2) ↔ Compatible m kvs := by
  constructor
  · intro h
    constructor
    · intro kv hkv x hx
      have hentry := h kv hkv
      rw [insertAll_old kvs hx] at hentry
      exact Option.some.inj hentry
    · intro kv hkv kv' hkv' hk
      have hentry := h kv hkv
      rw [hk, h kv' hkv'] at hentry
      exact (Option.some.inj hentry).symm
  · intro h kv hkv
    cases hm : m kv.1 with
    | some x => rw [insertAll_old kvs hm, h.old kv hkv x hm]
    | none =>
      obtain ⟨kv', hkv', hk, hl⟩ := exists_lookup hkv
      rw [insertAll_apply, hm, Option.none_or, hl, h.new kv' hkv' kv hkv hk]

/-- **The map is as it was** exactly if it had an entry for each of the keys. -/
theorem insertAll_eq_self_iff (m : κ → Option α) (kvs : List (κ × α)) :
    insertAll m kvs = m ↔ ∀ kv ∈ kvs, m kv.1 ≠ none := by
  constructor
  · intro h kv hkv hm
    obtain ⟨kv', -, -, hl⟩ := exists_lookup hkv
    have hentry := congrFun h kv.1
    rw [insertAll_apply, hm, Option.none_or, hl] at hentry
    cases hentry
  · intro h
    funext k
    rw [insertAll_apply]
    cases hm : m k with
    | some x => rw [Option.some_or]
    | none =>
      rw [Option.none_or, List.lookup_eq_none_iff]
      intro kv hkv
      have hne : k ≠ kv.1 := by
        rintro rfl
        exact h kv hkv hm
      simpa using hne

end InsertMap
