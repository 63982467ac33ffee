import Mathlib.Data.Finmap

/-!
# Chained hash tables

A table is a list of chains of entries, and `slot` says which chain a key belongs to.
`Holds slot t m` relates a table to the finite map of its entries. The operations that
work on one chain only (push, erase, replace) refine those of the map, and pushing all
entries into a table of another size keeps the map.
-/

namespace Buckets

open List

variable {K V : Type*}

/-- The entries of the chains of `t` are those of `m`, each in the chain of its slot. -/
structure Holds (slot : K → ℕ) (t : List (List ((_ : K) × V))) (m : Finmap fun _ : K => V) :
    Prop where
  placed : ∀ {i chain}, t[i]? = some chain → ∀ e ∈ chain, slot e.1 = i
  entries : m.entries = (t.flatten : Multiset ((_ : K) × V))

variable {slot : K → ℕ} {t : List (List ((_ : K) × V))} {m : Finmap fun _ : K => V} {k : K}
  {v : V} {chain : List ((_ : K) × V)} {n : ℕ}

/-! ## Finite maps and lists of entries -/

section Entries

variable {es : List ((_ : K) × V)}

theorem eq_toFinmap (h : m.entries = es) :
    ∃ hnd : es.NodupKeys, m = AList.toFinmap ⟨es, hnd⟩ := by
  have hnd : es.NodupKeys := by simpa [h] using m.nodupKeys
  exact ⟨hnd, Finmap.ext h⟩

theorem nodupKeys (h : m.entries = es) : es.NodupKeys := (eq_toFinmap h).1

theorem card_keys (h : m.entries = es) : m.keys.card = es.length := by
  obtain ⟨hnd, rfl⟩ := eq_toFinmap h
  show Multiset.card (Finmap.keys _).val = es.length
  simp [List.keys]

variable [DecidableEq K]

theorem lookup_eq (h : m.entries = es) (k : K) : m.lookup k = es.dlookup k := by
  obtain ⟨hnd, rfl⟩ := eq_toFinmap h
  rfl

theorem entries_erase (h : m.entries = es) (k : K) : (m.erase k).entries = kerase k es := by
  obtain ⟨hnd, rfl⟩ := eq_toFinmap h
  rw [Finmap.erase_toFinmap]
  rfl

theorem entries_insert (h : m.entries = es) (k : K) (v : V) :
    (m.insert k v).entries = (⟨k, v⟩ :: kerase k es : List ((_ : K) × V)) := by
  obtain ⟨hnd, rfl⟩ := eq_toFinmap h
  rw [Finmap.insert_toFinmap]
  rfl

theorem card_erase (hk : k ∈ m) : (m.erase k).keys.card + 1 = m.keys.card := by
  rw [Finmap.keys_erase, Finset.card_erase_add_one (Finmap.mem_keys.mpr hk)]

theorem card_insert (k : K) (v : V) (m : Finmap fun _ : K => V) :
    (m.insert k v).keys.card = (m.erase k).keys.card + 1 := by
  obtain ⟨es, hes⟩ := Quot.exists_rep m.entries
  rw [card_keys (entries_insert hes.symm k v), card_keys (entries_erase hes.symm k),
    List.length_cons]

theorem erase_of_notMem (hk : k ∉ m) : m.erase k = m := by
  obtain ⟨es, hes⟩ := Quot.exists_rep m.entries
  apply Finmap.ext
  rw [entries_erase hes.symm, kerase_of_notMem_keys, ← hes]
  · rfl
  · rw [← List.dlookup_eq_none, ← lookup_eq hes.symm]
    exact Finmap.lookup_eq_none.mpr hk

theorem card_insert_le (k : K) (v : V) (m : Finmap fun _ : K => V) :
    (m.insert k v).keys.card ≤ m.keys.card + 1 := by
  rw [card_insert]
  by_cases hk : k ∈ m
  · rw [card_erase hk]
    exact Nat.le_succ _
  · rw [erase_of_notMem hk]

end Entries

/-! ## One chain of a table -/

/-- A table cut at the chain `i`. -/
theorem exists_split {i : ℕ} (h : t[i]? = some chain) :
    ∃ t₁ t₂, t = t₁ ++ chain :: t₂ ∧ t₁.length = i ∧ ∀ f, t.modify i f = t₁ ++ f chain :: t₂ := by
  obtain ⟨hi, hc⟩ := List.getElem?_eq_some_iff.mp h
  refine ⟨t.take i, t.drop (i + 1), ?_, List.length_take_of_le hi.le, fun f => ?_⟩
  · rw [← hc, ← List.drop_eq_getElem_cons hi, List.take_append_drop]
  · rw [List.modify_eq_take_cons_drop hi, hc]

namespace Holds

theorem length_flatten (h : Holds slot t m) : t.flatten.length = m.keys.card :=
  (card_keys h.entries).symm

/-- A change of the chain of `k` that leaves only keys of its slot in it. -/
theorem modify (h : Holds slot t m) {m' : Finmap fun _ : K => V}
    {f : List ((_ : K) × V) → List ((_ : K) × V)}
    (hf : ∀ chain, t[slot k]? = some chain → ∀ e ∈ f chain, e ∈ chain ∨ e.1 = k)
    (he : m'.entries = ((t.modify (slot k) f).flatten : Multiset ((_ : K) × V))) :
    Holds slot (t.modify (slot k) f) m' := by
  refine ⟨fun {i} chain hi e hmem => ?_, he⟩
  rw [List.getElem?_modify] at hi
  cases ht : t[i]? with
  | none => rw [ht] at hi; cases hi
  | some chain' =>
    rw [ht] at hi
    obtain rfl := Option.some.inj hi
    dsimp only at hmem
    by_cases hik : slot k = i
    · subst hik
      rw [if_pos rfl] at hmem
      rcases hf chain' ht e hmem with hold | hkey
      · exact h.placed ht e hold
      · rw [hkey]
    · rw [if_neg hik] at hmem
      exact h.placed ht e hmem

/-- The table cut at the chain of `k`, which has no entry elsewhere. -/
theorem exists_split (h : Holds slot t m) (hc : t[slot k]? = some chain) :
    ∃ t₁ t₂, t.flatten = t₁ ++ (chain ++ t₂) ∧ k ∉ t₁.keys ∧ k ∉ t₂.keys ∧
      ∀ f, (t.modify (slot k) f).flatten = t₁ ++ (f chain ++ t₂) := by
  obtain ⟨t₁, t₂, rfl, hlen, hmod⟩ := Buckets.exists_split hc
  have hother : ∀ i c, (t₁ ++ chain :: t₂)[i]? = some c → i ≠ slot k → ∀ e ∈ c, e.1 ≠ k := by
    intro i c hi hne e he hek
    exact hne ((h.placed hi e he).symm.trans (congrArg slot hek))
  refine ⟨t₁.flatten, t₂.flatten, by simp, ?_, ?_, fun f => by simp [hmod]⟩
  · intro hk
    obtain ⟨w, hw⟩ := List.exists_of_mem_keys hk
    obtain ⟨c, hct, he⟩ := List.mem_flatten.mp hw
    obtain ⟨i, hi, hic⟩ := List.mem_iff_getElem.mp hct
    refine hother i c ?_ (by omega) _ he rfl
    rw [List.getElem?_append_left hi, ← hic, List.getElem?_eq_getElem hi]
  · intro hk
    obtain ⟨w, hw⟩ := List.exists_of_mem_keys hk
    obtain ⟨c, hct, he⟩ := List.mem_flatten.mp hw
    obtain ⟨i, hi, hic⟩ := List.mem_iff_getElem.mp hct
    refine hother (t₁.length + 1 + i) c ?_ (by omega) _ he rfl
    rw [List.getElem?_append_right (by omega),
      show t₁.length + 1 + i - t₁.length = i + 1 by omega, List.getElem?_cons_succ, ← hic,
      List.getElem?_eq_getElem hi]

variable [DecidableEq K]

/-- A key is looked up in its chain. -/
theorem lookup (h : Holds slot t m) (hc : t[slot k]? = some chain) :
    chain.dlookup k = m.lookup k := by
  obtain ⟨t₁, t₂, hflat, h₁, h₂, -⟩ := h.exists_split hc
  rw [lookup_eq h.entries, hflat, List.dlookup_append, List.dlookup_eq_none.mpr h₁,
    Option.none_or, List.dlookup_append, List.dlookup_eq_none.mpr h₂, Option.or_none]

/-- A new key goes to the front of its chain. -/
theorem push (h : Holds slot t m) (hk : k ∉ m) (hslot : slot k < t.length) :
    Holds slot (t.modify (slot k) (⟨k, v⟩ :: ·)) (m.insert k v) := by
  have hc := List.getElem?_eq_getElem hslot
  refine h.modify (fun chain _ e he => ?_) ?_
  · rcases List.mem_cons.mp he with rfl | he
    · exact Or.inr rfl
    · exact Or.inl he
  · obtain ⟨t₁, t₂, hflat, -, -, hmod⟩ := h.exists_split hc
    rw [Finmap.entries_insert_of_notMem hk, h.entries, hmod, hflat, Multiset.cons_coe]
    exact Multiset.coe_eq_coe.mpr List.perm_middle.symm

/-- A key is erased from its chain. -/
theorem erase (h : Holds slot t m) (hslot : slot k < t.length) :
    Holds slot (t.modify (slot k) (kerase k)) (m.erase k) := by
  have hc := List.getElem?_eq_getElem hslot
  refine h.modify (fun chain _ e he => Or.inl ((kerase_sublist k chain).subset he)) ?_
  obtain ⟨t₁, t₂, hflat, h₁, h₂, hmod⟩ := h.exists_split hc
  rw [entries_erase h.entries, hmod, hflat, kerase_append_right h₁]
  by_cases hk : k ∈ t[slot k].keys
  · rw [kerase_append_left hk]
  · rw [kerase_append_right hk, kerase_of_notMem_keys hk, kerase_of_notMem_keys h₂]

theorem kreplace_perm {es : List ((_ : K) × V)} (hk : k ∈ es.keys) :
    kreplace k v es ~ ⟨k, v⟩ :: kerase k es := by
  induction es with
  | nil => simp at hk
  | cons e es ih =>
    by_cases hek : k = e.1
    · rw [kreplace, lookmap_cons_some _ es (b := ⟨k, v⟩) (if_pos hek), kerase_cons_eq hek]
    · have hk' : k ∈ es.keys := by simpa [hek] using hk
      rw [kreplace, lookmap_cons_none _ es (if_neg hek), kerase_cons_ne hek]
      exact ((ih hk').cons e).trans (List.Perm.swap ..)

/-- The value of a key is replaced in its chain. -/
theorem replace (h : Holds slot t m) (hk : k ∈ m) (hslot : slot k < t.length) :
    Holds slot (t.modify (slot k) (kreplace k v)) (m.insert k v) := by
  have hc := List.getElem?_eq_getElem hslot
  have hkey : k ∈ t[slot k].keys := by
    rw [← List.dlookup_isSome, h.lookup hc]
    exact Finmap.lookup_isSome.mpr hk
  have hperm : kreplace k v t[slot k] ~ ⟨k, v⟩ :: kerase k t[slot k] := kreplace_perm hkey
  refine h.modify (fun chain hchain e he => ?_) ?_
  · obtain rfl : t[slot k] = chain := Option.some.inj (hc.symm.trans hchain)
    rcases List.mem_cons.mp (hperm.subset he) with rfl | he
    · exact Or.inr rfl
    · exact Or.inl ((kerase_sublist k _).subset he)
  · obtain ⟨t₁, t₂, hflat, h₁, h₂, hmod⟩ := h.exists_split hc
    rw [entries_insert h.entries, hmod, hflat, kerase_append_right h₁, kerase_append_left hkey]
    refine Multiset.coe_eq_coe.mpr (List.Perm.symm ?_)
    calc t₁ ++ (kreplace k v t[slot k] ++ t₂)
        ~ t₁ ++ (⟨k, v⟩ :: (kerase k t[slot k] ++ t₂)) :=
          (hperm.append_right t₂).append_left t₁
      _ ~ ⟨k, v⟩ :: (t₁ ++ (kerase k t[slot k] ++ t₂)) := List.perm_middle

end Holds

/-! ## Tables of another size -/

theorem holds_replicate : Holds slot (replicate n []) (∅ : Finmap fun _ : K => V) := by
  refine ⟨fun {i} chain hi e he => ?_, by rw [List.flatten_replicate_nil]; rfl⟩
  obtain ⟨-, rfl⟩ := List.mem_replicate.mp (List.mem_of_getElem? hi)
  cases he

variable [DecidableEq K]

/-- All entries of a map are pushed into a table. -/
theorem holds_foldl_push {es : List ((_ : K) × V)} (hslot : ∀ k, slot k < t.length)
    {m' : Finmap fun _ : K => V} (h : Holds slot t m)
    (hm' : m'.entries = ((es ++ t.flatten : List ((_ : K) × V)) : Multiset ((_ : K) × V))) :
    Holds slot (es.foldl (fun t e => t.modify (slot e.1) (e :: ·)) t) m' := by
  induction es generalizing t m with
  | nil =>
    obtain rfl : m' = m := Finmap.ext (hm'.trans h.entries.symm)
    exact h
  | cons e es ih =>
    have hnd := nodupKeys hm'
    have hek : e.1 ∉ m := by
      rw [Finmap.mem_def, h.entries, Multiset.coe_keys, Multiset.mem_coe]
      rw [List.cons_append, List.nodupKeys_cons, List.keys_append, List.mem_append] at hnd
      tauto
    have hlt := hslot e.1
    have hpush := h.push (v := e.2) hek hlt
    refine ih (by simpa using hslot) hpush ?_
    obtain ⟨t₁, t₂, hflat, -, -, hmod⟩ := h.exists_split (List.getElem?_eq_getElem hlt)
    rw [hm', hmod, hflat]
    refine Multiset.coe_eq_coe.mpr ?_
    calc e :: es ++ (t₁ ++ (t[slot e.1] ++ t₂))
        ~ es ++ (e :: (t₁ ++ (t[slot e.1] ++ t₂))) := List.perm_middle.symm
      _ ~ es ++ (t₁ ++ (e :: t[slot e.1] ++ t₂)) :=
        (List.perm_middle.symm).append_left es

/-- Rehashing keeps the map. -/
theorem Holds.rehash {slot' : K → ℕ} (h : Holds slot t m) (hslot : ∀ k, slot' k < n) :
    Holds slot' (t.flatten.foldl (fun t e => t.modify (slot' e.1) (e :: ·)) (replicate n [])) m := by
  refine holds_foldl_push (by simpa using hslot) holds_replicate ?_
  rw [h.entries]
  simp

end Buckets
