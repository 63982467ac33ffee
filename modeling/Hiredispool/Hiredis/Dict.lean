import Hiredispool.Client.Replies
import Hiredispool.Lib.Buckets
import Mathlib.Data.Nat.Bitwise

/-!
# The hash table of hiredis

Model of `dict.c`: a table of chains that doubles when it is full, and the iterator over
it. The keys are compared by a function that decides whether they are equal.

* A pointer to an entry is the key of the entry: no two entries of a table have one key.
* `none` is what C gives no meaning: an index that is not in the table, an entry that has
  been freed, and an assertion that fails.

`Rep ht m` says what a table is for: it holds the finite map `m`. The size is a power of two,
`used` is exact, and each entry is in the chain of its hash:

* `Rep.dictAdd`, `Rep.dictReplace`, `Rep.dictDelete`, `Rep.dictFind`: each function does to the
  map what it should, and says so.
* `Rep.dictExpand`: the larger table has the same entries, and `assert(ht->used == 0)` (line 126)
  holds.
* `Rep.dictRelease`: each entry is freed once.

Failures of `malloc` are left out. What `dictSetHashKey` and `dictSetHashVal` make is the
value itself, also where it is a copy of it.
-/

namespace Hiredispool.Hiredis

open Hiredispool.Client (toInt)

/-! ## Types -/

/-- `dictType` (dict.h, lines 51–58): how keys are hashed and compared. That they compare equal
    if and only if they are is a field. -/
structure DictType (K : Type) where
  hashFunction : K → UInt32
  keyCompare : K → K → Bool
  keyCompare_iff : ∀ key₁ key₂, keyCompare key₁ key₂ = true ↔ key₁ = key₂

/-- `dictEntry` (dict.h, lines 45–49): `key` and `val`. The next entry is the next one in
    the list. -/
abbrev DictEntry (K V : Type) := (_ : K) × V

/-- `dict` (dict.h, lines 60–67): `table` has a chain for each index, `size` and `used` are
    counted by the functions. -/
structure Dict (K V : Type) where
  table : List (List (DictEntry K V))
  size : ℕ
  sizemask : ℕ
  used : ℕ

/-- `dictIterator` (dict.h, lines 69–73): the index of the chain, the entry that was returned,
    and the one behind it. -/
structure DictIterator (K : Type) where
  index : ℤ
  entry : Option K
  nextEntry : Option K

namespace Dict

variable {K V : Type} (type : DictType K)

/-! ## The table -/

/-- `dictCreate` (lines 65–85). -/
def create : Dict K V := ⟨[], 0, 0, 0⟩

/-- `LONG_MAX`. -/
def longMax : ℕ := 9223372036854775807

/-- The loop of `_dictNextPower` (lines 310–314): `i *= 2` from `DICT_HT_INITIAL_SIZE` on. -/
def nextPowerLoop (size : ℕ) : ℕ → ℕ → ℕ
  | 0, i => i
  | fuel + 1, i => if i ≥ size then i else nextPowerLoop size fuel (i * 2)

/-- `_dictNextPower` (lines 306–315). -/
def dictNextPower (size : ℕ) : ℕ := if size ≥ longMax then longMax else nextPowerLoop size 64 4

/-- `dictHashKey(ht, key) & ht->sizemask`. -/
def slot (ht : Dict K V) (key : K) : ℕ := (type.hashFunction key).toNat &&& ht.sizemask

/-- Lines 116–120: an entry is put at the front of its chain in the new table. -/
def move (n : Dict K V) (he : DictEntry K V) : Dict K V :=
  { n with table := n.table.modify (n.slot type he.1) (he :: ·) }

/-- The loop of `dictExpand` (lines 106–125), and what it leaves of `ht->used`. It stops when
    the counter says that nothing is left. -/
def moveAll : List (List (DictEntry K V)) → ℕ → Dict K V → Dict K V × ℕ
  | [], used, n => (n, used)
  | chain :: table, used, n =>
    if used > 0 then moveAll table (used - chain.length) (chain.foldl (move type) n) else (n, used)

/-- `dictExpand` (lines 88–132), and whether it returns `DICT_OK`: `none` if the assertion of
    line 126 fails. -/
def dictExpand (size : ℕ) (ht : Dict K V) : Option (Dict K V × Bool) :=
  let realsize := dictNextPower size
  if ht.used > size then some (ht, false)
  else
    match moveAll type ht.table ht.used ⟨.replicate realsize [], realsize, realsize - 1, ht.used⟩ with
    | (n, used) => if used = 0 then some (n, true) else none

/-- `_dictExpandIfNeeded` (lines 295–303): four chains at first, then twice as many as there
    are. -/
def dictExpandIfNeeded (ht : Dict K V) : Option (Dict K V × Bool) :=
  if ht.size = 0 then ht.dictExpand type 4
  else if ht.used = ht.size then ht.dictExpand type (ht.size * 2 % 18446744073709551616)
  else some (ht, true)

/-- The first entry of a chain whose key compares equal. -/
def search (key : K) (chain : List (DictEntry K V)) : Option (DictEntry K V) :=
  chain.find? fun he => type.keyCompare key he.1

/-- `_dictKeyIndex` (lines 320–337): the index for a new key, as an `int`, or `-1`. -/
def dictKeyIndex (key : K) (ht : Dict K V) : Option (Dict K V × ℤ) := do
  let (ht, ok) ← ht.dictExpandIfNeeded type
  if !ok then return (ht, -1)
  let h := ht.slot type key
  let chain ← ht.table[h]?
  if (search type key chain).isSome then return (ht, -1)
  return (ht, toInt h)

/-- `dictAdd` (lines 135–154), and whether it returns `DICT_OK`. -/
def dictAdd (key : K) (val : V) (ht : Dict K V) : Option (Dict K V × Bool) := do
  let (ht, index) ← ht.dictKeyIndex type key
  if index = -1 then return (ht, false)
  if index < 0 ∨ index ≥ ht.table.length then failure
  return ({ ht with
    table := ht.table.modify index.toNat (⟨key, val⟩ :: ·), used := ht.used + 1 }, true)

/-- `dictFind` (lines 243–256). -/
def dictFind (key : K) (ht : Dict K V) : Option (Option (DictEntry K V)) :=
  if ht.size = 0 then some none
  else ht.table[ht.slot type key]?.map (search type key)

/-- `dictSetHashVal` at the entry that compares equal. -/
def setVal (key : K) (val : V) : List (DictEntry K V) → List (DictEntry K V)
  | [] => []
  | he :: chain => if type.keyCompare key he.1 then ⟨he.1, val⟩ :: chain else he :: setVal key val chain

/-- `dictReplace` (lines 160–179), and whether the key is new: `dictAdd` first, and if that is
    refused the value is set in place. -/
def dictReplace (key : K) (val : V) (ht : Dict K V) : Option (Dict K V × Bool) := do
  let (ht, ok) ← ht.dictAdd type key val
  if ok then return (ht, true)
  let entry ← ht.dictFind type key
  if entry.isNone then failure
  return ({ ht with table := ht.table.modify (ht.slot type key) (setVal type key val) }, false)

/-- The loop of `dictDelete` (lines 191–208): the chain without the entry, if there is
    one. -/
def unlink (key : K) : List (DictEntry K V) → Option (List (DictEntry K V))
  | [] => none
  | de :: chain => if type.keyCompare key de.1 then some chain else (unlink key chain).map (de :: ·)

/-- `dictDelete` (lines 182–210), and whether it returns `DICT_OK`. -/
def dictDelete (key : K) (ht : Dict K V) : Option (Dict K V × Bool) :=
  if ht.size = 0 then some (ht, false)
  else
    ht.table[ht.slot type key]?.map fun chain =>
      match unlink type key chain with
      | none => (ht, false)
      | some chain =>
        ({ ht with table := ht.table.set (ht.slot type key) chain, used := ht.used - 1 }, true)

/-- The loop of `_dictClear` (lines 217–229): the entries that are freed. -/
def freeAll : List (List (DictEntry K V)) → ℕ → List (DictEntry K V)
  | [], _ => []
  | chain :: table, used =>
    if used > 0 then chain ++ freeAll table (used - chain.length) else []

/-- `dictRelease` (lines 238–241): the entries whose keys and values are freed. -/
def dictRelease (ht : Dict K V) : List (DictEntry K V) := freeAll ht.table ht.used

/-! ## The iterator -/

/-- `dictGetIterator` (lines 258–266). -/
def getIterator : DictIterator K := ⟨-1, none, none⟩

/-- Lines 269–283, again and again: the first entry of the next chain that has
    one. -/
def nextChain : ℤ → List (List (DictEntry K V)) → DictIterator K × Option (DictEntry K V)
  | index, [] => (⟨index + 1, none, none⟩, none)
  | index, [] :: table => nextChain (index + 1) table
  | index, (he :: chain) :: _ => (⟨index + 1, some he.1, chain.head?.map (·.1)⟩, some he)

/-- The entry that `key` points to, and the one after it. -/
def deref (key : K) : List (DictEntry K V) → Option (DictEntry K V × Option K)
  | [] => none
  | he :: chain =>
    if type.keyCompare key he.1 then some (he, chain.head?.map (·.1)) else deref key chain

/-- `dictNext` (lines 268–286): the saved entry, or the first one of the next chain that has
    any. `index` is compared with `(signed)iter->ht->size`. -/
def dictNext (ht : Dict K V) (iter : DictIterator K) :
    Option (DictIterator K × Option (DictEntry K V)) :=
  let chains := (ht.table.take (toInt ht.size).toNat).drop (iter.index + 1).toNat
  match iter.entry, iter.nextEntry with
  | none, _ => some (nextChain iter.index chains)
  | some _, none => some (nextChain iter.index chains)
  | some _, some key => do
    let chain ← ht.table[iter.index.toNat]?
    let (he, next) ← deref type key chain
    return (⟨iter.index, some key, next⟩, some he)

/-- `while ((de = dictNext(it)) != NULL)`, with a body that deletes the entry or keeps it, for
    at most `fuel` entries. -/
def visit (keep : K → Bool) : ℕ → Dict K V → DictIterator K →
    Option (Dict K V × List (DictEntry K V))
  | 0, _, _ => none
  | fuel + 1, ht, iter => do
    let (iter, de) ← ht.dictNext type iter
    match de with
    | none => return (ht, [])
    | some de =>
      let ht ← if keep de.1 then some ht else (ht.dictDelete type de.1).map Prod.fst
      (visit keep fuel ht iter).map fun (ht, des) => (ht, de :: des)

/-! ## Chains -/

/-- A chain is written back where it was read. -/
theorem set_eq_modify {t : List (List (DictEntry K V))} {i : ℕ} {chain : List (DictEntry K V)}
    (h : t[i]? = some chain) (f : List (DictEntry K V) → List (DictEntry K V)) :
    t.set i (f chain) = t.modify i f := by
  apply List.ext_getElem?
  intro j
  rw [List.getElem?_set, List.getElem?_modify]
  by_cases hij : i = j
  · subst hij
    obtain ⟨hi, hc⟩ := List.getElem?_eq_some_iff.mp h
    simp [hi, hc]
  · simp [hij]

section Chains

variable [DecidableEq K] {type}

/-- To compare keys is to look one up. -/
theorem search_eq (key : K) (chain : List (DictEntry K V)) :
    search type key chain = (chain.dlookup key).map (Sigma.mk key) := by
  rw [List.map_dlookup_eq_find]
  unfold search
  congr 1
  funext he
  rw [Bool.eq_iff_iff, type.keyCompare_iff, decide_eq_true_iff]

/-- To set a value in place is to replace it. -/
theorem setVal_eq (key : K) (val : V) (chain : List (DictEntry K V)) :
    setVal type key val chain = chain.kreplace key val := by
  induction chain with
  | nil => rfl
  | cons he chain ih =>
    by_cases h : key = he.1
    · rw [setVal, if_pos ((type.keyCompare_iff _ _).mpr h), List.kreplace,
        List.lookmap_cons_some _ chain (b := ⟨key, val⟩) (if_pos h), h]
    · rw [setVal, if_neg (by simpa [type.keyCompare_iff] using h), ih, List.kreplace,
        List.lookmap_cons_none _ chain (if_neg h)]

/-- To unlink the entry of a key is to erase the key. -/
theorem unlink_eq (key : K) (chain : List (DictEntry K V)) :
    unlink type key chain = if key ∈ chain.keys then some (chain.kerase key) else none := by
  induction chain with
  | nil => rfl
  | cons he chain ih =>
    by_cases h : key = he.1
    · rw [unlink, if_pos ((type.keyCompare_iff _ _).mpr h), if_pos (by simp [h]),
        List.kerase_cons_eq h]
    · rw [unlink, if_neg (by simpa [type.keyCompare_iff] using h), ih, List.kerase_cons_ne h]
      by_cases hk : key ∈ chain.keys <;> simp [h, hk]

end Chains

/-! ## Sizes -/

/-- By induction on the iterations: doubling comes to every larger power of two. -/
theorem nextPowerLoop_pow {j : ℕ} : ∀ {fuel a : ℕ}, a ≤ j → j ≤ a + fuel →
    nextPowerLoop (2 ^ j) fuel (2 ^ a) = 2 ^ j := by
  intro fuel
  induction fuel with
  | zero =>
    intro a ha hj
    obtain rfl : a = j := by omega
    rfl
  | succ fuel ih =>
    intro a ha hj
    rw [nextPowerLoop]
    by_cases h : 2 ^ a ≥ 2 ^ j
    · obtain rfl : a = j := le_antisymm ha ((Nat.pow_le_pow_iff_right (by omega)).mp h)
      rw [if_pos h]
    · have hlt : a < j := (Nat.pow_lt_pow_iff_right (by omega)).mp (not_le.mp h)
      rw [if_neg h, ← pow_succ]
      exact ih hlt (by omega)

/-- A power of two is a size. -/
theorem dictNextPower_pow {j : ℕ} (h2 : 2 ≤ j) (hj : j ≤ 62) : dictNextPower (2 ^ j) = 2 ^ j := by
  have hle : 2 ^ j ≤ 2 ^ 62 := Nat.pow_le_pow_right (by omega) hj
  rw [dictNextPower, if_neg (by unfold longMax; omega)]
  exact nextPowerLoop_pow (a := 2) h2 (by omega)

/-! ## What a table stands for -/

/-- `ht` holds the map `m`, and it is as the functions leave it: the entries of the map are in
    the chains of their hashes, each once, and no more of them than chains. -/
structure Rep (ht : Dict K V) (m : Finmap fun _ : K => V) : Prop where
  size_eq : ht.size = ht.table.length
  size_le : ht.size ≤ 2147483648
  sizemask_eq : ht.sizemask = ht.size - 1
  power : ht.size = 0 ∨ ∃ j, 2 ≤ j ∧ ht.size = 2 ^ j
  used_eq : ht.used = m.keys.card
  used_le : ht.used ≤ ht.size
  holds : Buckets.Holds (ht.slot type) ht.table m

variable {type} {ht : Dict K V} {m : Finmap fun _ : K => V}

/-- `& ht->sizemask` is the remainder modulo the size. -/
theorem slot_eq_mod {j : ℕ} (h : ht.sizemask = 2 ^ j - 1) (key : K) :
    ht.slot type key = (type.hashFunction key).toNat % 2 ^ j := by
  rw [slot, h, Nat.and_two_pow_sub_one_eq_mod]

namespace Rep

/-- The empty table holds the empty map. -/
theorem create : Rep type (create : Dict K V) ∅ where
  size_eq := rfl
  size_le := by norm_num [Dict.create]
  sizemask_eq := rfl
  power := Or.inl rfl
  used_eq := by simp [Dict.create]
  used_le := le_refl _
  holds := Buckets.holds_replicate (n := 0)

/-- A hash has a chain. -/
theorem slot_lt (h : Rep type ht m) (h0 : ht.size ≠ 0) (key : K) :
    ht.slot type key < ht.table.length := by
  obtain ⟨j, -, hj⟩ := h.power.resolve_left h0
  rw [slot_eq_mod (by rw [h.sizemask_eq, hj]), ← h.size_eq, hj]
  exact Nat.mod_lt _ (by positivity)

/-- A table without chains holds nothing (lines 186 and 247). -/
theorem eq_empty (h : Rep type ht m) (h0 : ht.size = 0) : m = ∅ := by
  have hlen : ht.table.flatten.length = 0 := by
    have := h.used_le
    rw [h.holds.length_flatten, ← h.used_eq]
    omega
  apply Finmap.ext
  rw [h.holds.entries, List.length_eq_zero_iff.mp hlen]
  rfl

/-- The entries of a chain are pushed to the front of their new chains. -/
theorem foldl_move (chain : List (DictEntry K V)) (n : Dict K V) :
    chain.foldl (move type) n = { n with
      table := chain.foldl (fun t he => t.modify (n.slot type he.1) (he :: ·)) n.table } := by
  induction chain generalizing n with
  | nil => rfl
  | cons he chain ih =>
    rw [List.foldl_cons, ih]
    rfl

/-- The counter stops the loop only when nothing is left to move. -/
theorem moveAll_eq {table : List (List (DictEntry K V))} (n : Dict K V) :
    moveAll type table table.flatten.length n = (table.flatten.foldl (move type) n, 0) := by
  induction table generalizing n with
  | nil => rfl
  | cons chain table ih =>
    rw [moveAll]
    by_cases h : (chain :: table).flatten.length > 0
    · rw [if_pos h, List.flatten_cons, List.length_append, Nat.add_sub_cancel_left, ih,
        List.foldl_append]
    · have hnil : (chain :: table).flatten = [] := List.length_eq_zero_iff.mp (by omega)
      rw [if_neg h, hnil]
      rfl

/-- Pushing makes no chains. -/
theorem length_foldl_push (slot : K → ℕ) (es : List (DictEntry K V))
    (t : List (List (DictEntry K V))) :
    (es.foldl (fun t he => t.modify (slot he.1) (he :: ·)) t).length = t.length := by
  induction es generalizing t with
  | nil => rfl
  | cons e es ih => rw [List.foldl_cons, ih, List.length_modify]

/-- The counter does not stop the loop before all are freed. -/
theorem freeAll_eq (table : List (List (DictEntry K V))) :
    freeAll table table.flatten.length = table.flatten := by
  induction table with
  | nil => rfl
  | cons chain table ih =>
    rw [freeAll]
    by_cases h : (chain :: table).flatten.length > 0
    · rw [if_pos h, List.flatten_cons, List.length_append, Nat.add_sub_cancel_left, ih]
    · rw [if_neg h]
      exact (List.length_eq_zero_iff.mp (by omega)).symm

/-- Each entry is freed once. -/
theorem dictRelease (h : Rep type ht m) : (ht.dictRelease : Multiset (DictEntry K V)) = m.entries := by
  rw [Dict.dictRelease, h.used_eq, ← h.holds.length_flatten, freeAll_eq, h.holds.entries]

variable [DecidableEq K]

/-- **The larger table holds the same map.** -/
theorem dictExpand (h : Rep type ht m) {j : ℕ} (h2 : 2 ≤ j) (hj : j ≤ 31)
    (hused : ht.used ≤ 2 ^ j) :
    ∃ ht', ht.dictExpand type (2 ^ j) = some (ht', true) ∧ Rep type ht' m ∧
      ht'.used = ht.used ∧ ht'.size = 2 ^ j := by
  have hlen : ht.used = ht.table.flatten.length := by rw [h.used_eq, h.holds.length_flatten]
  have hslot : ∀ key, (⟨.replicate (2 ^ j) [], 2 ^ j, 2 ^ j - 1, ht.used⟩ : Dict K V).slot type key <
      2 ^ j := by
    intro key
    rw [slot_eq_mod rfl]
    exact Nat.mod_lt _ (by positivity)
  have hle : 2 ^ j ≤ 2 ^ 31 := Nat.pow_le_pow_right (by omega) hj
  rw [Dict.dictExpand, dictNextPower_pow h2 (by omega), if_neg (by omega)]
  conv in moveAll _ _ _ _ => rw [hlen]
  rw [moveAll_eq, foldl_move]
  refine ⟨_, rfl, ⟨?_, hle, rfl, Or.inr ⟨j, h2, rfl⟩, ?_, ?_, ?_⟩, ?_, rfl⟩
  · rw [length_foldl_push, List.length_replicate]
  · show ht.table.flatten.length = m.keys.card
    rw [← hlen, h.used_eq]
  · show ht.table.flatten.length ≤ 2 ^ j
    rw [← hlen]
    exact hused
  · rw [← hlen]
    exact h.holds.rehash hslot
  · exact hlen.symm

/-- The table is not full afterwards. -/
theorem dictExpandIfNeeded (h : Rep type ht m) (hcard : m.keys.card < 2147483648) :
    ∃ ht', ht.dictExpandIfNeeded type = some (ht', true) ∧ Rep type ht' m ∧ ht'.used < ht'.size := by
  have hused := h.used_eq
  rw [Dict.dictExpandIfNeeded]
  by_cases h0 : ht.size = 0
  · have := h.used_le
    obtain ⟨ht', he, hrep, hu, hs⟩ := h.dictExpand (j := 2) (by omega) (by omega) (by omega)
    rw [if_pos h0]
    exact ⟨ht', he, hrep, by omega⟩
  rw [if_neg h0]
  obtain ⟨j, h2, hj⟩ := h.power.resolve_left h0
  by_cases hfull : ht.used = ht.size
  · have hj31 : j < 31 := by
      apply (Nat.pow_lt_pow_iff_right (a := 2) (by omega)).mp
      omega
    have hdouble : ht.size * 2 % 18446744073709551616 = 2 ^ (j + 1) := by
      rw [Nat.mod_eq_of_lt (by omega), hj, pow_succ]
    obtain ⟨ht', he, hrep, hu, hs⟩ := h.dictExpand (j := j + 1) (by omega) (by omega)
      (by rw [pow_succ]; omega)
    rw [if_pos hfull, hdouble]
    exact ⟨ht', he, hrep, by rw [hs, hu, pow_succ]; omega⟩
  · have := h.used_le
    rw [if_neg hfull]
    exact ⟨ht, rfl, h, by omega⟩

/-- The chain of its hash has a key if and only if the map has it. -/
theorem search_isSome (h : Rep type ht m) {key : K} {chain : List (DictEntry K V)}
    (hc : ht.table[ht.slot type key]? = some chain) :
    (search type key chain).isSome = decide (key ∈ m) := by
  rw [search_eq, Option.isSome_map, h.holds.lookup hc, Bool.eq_iff_iff, Finmap.lookup_isSome,
    decide_eq_true_iff]

/-- There is room for a new key, and its index is an `int`. -/
theorem dictKeyIndex (h : Rep type ht m) (hcard : m.keys.card < 2147483648) (key : K) :
    ∃ ht', Rep type ht' m ∧ ht'.used < ht'.size ∧
      ht.dictKeyIndex type key = some (ht', if key ∈ m then -1 else (ht'.slot type key : ℤ)) := by
  obtain ⟨ht', he, hrep, hfull⟩ := h.dictExpandIfNeeded hcard
  have hlt := hrep.slot_lt (by omega) key
  have hc := List.getElem?_eq_getElem hlt
  have hint : toInt (ht'.slot type key) = (ht'.slot type key : ℤ) := by
    have := hrep.size_le
    have := hrep.size_eq
    exact (Client.toInt_eq_self_iff _).mpr (by omega)
  refine ⟨ht', hrep, hfull, ?_⟩
  rw [Dict.dictKeyIndex, he]
  simp only [Option.bind_eq_bind, Option.bind_some, Bool.not_true, Bool.false_eq_true, if_false, hc,
    hrep.search_isSome hc, decide_eq_true_eq, hint]
  split_ifs <;> rfl

/-- `dictAdd` inserts a new key, and refuses one that the table has. -/
theorem dictAdd (h : Rep type ht m) (hcard : m.keys.card < 2147483648) (key : K) (val : V) :
    ∃ ht', ht.dictAdd type key val = some (ht', decide (key ∉ m)) ∧
      Rep type ht' (if key ∈ m then m else m.insert key val) ∧ ht'.size ≠ 0 := by
  obtain ⟨ht', hrep, hfull, he⟩ := h.dictKeyIndex hcard key
  have hlt := hrep.slot_lt (by omega) key
  rw [Dict.dictAdd, he]
  by_cases hk : key ∈ m
  · refine ⟨ht', ?_, by rwa [if_pos hk], by omega⟩
    simp [hk]
  · refine ⟨{ ht' with
        table := ht'.table.modify (ht'.slot type key) (⟨key, val⟩ :: ·), used := ht'.used + 1 },
      ?_, ?_, by show ht'.size ≠ 0; omega⟩
    · have h1 : ¬(ht'.slot type key : ℤ) = -1 := by omega
      have h2 : ¬((ht'.slot type key : ℤ) < 0 ∨ (ht'.slot type key : ℤ) ≥ ht'.table.length) := by
        omega
      rw [if_neg hk, decide_eq_true hk]
      simp only [Option.bind_eq_bind, Option.bind_some, if_neg h1, if_neg h2, Int.toNat_natCast]
      rfl
    · rw [if_neg hk]
      refine ⟨?_, hrep.size_le, hrep.sizemask_eq, hrep.power, ?_, hfull, hrep.holds.push hk hlt⟩
      · show ht'.size = (ht'.table.modify _ _).length
        rw [List.length_modify, hrep.size_eq]
      · show ht'.used + 1 = _
        rw [Buckets.card_insert, Buckets.erase_of_notMem hk, hrep.used_eq]

/-- `dictFind` finds the entry of the key. -/
theorem dictFind (h : Rep type ht m) (key : K) :
    ht.dictFind type key = some ((m.lookup key).map (Sigma.mk key)) := by
  rw [Dict.dictFind]
  by_cases h0 : ht.size = 0
  · rw [if_pos h0, h.eq_empty h0, Finmap.lookup_empty, Option.map_none]
  · have hc := List.getElem?_eq_getElem (h.slot_lt h0 key)
    rw [if_neg h0, hc, Option.map_some, search_eq, h.holds.lookup hc]

/-- The value of a key that the table has is set in place. -/
theorem setVal (h : Rep type ht m) (h0 : ht.size ≠ 0) {key : K} (hk : key ∈ m) (val : V) :
    Rep type { ht with table := ht.table.modify (ht.slot type key) (setVal type key val) }
      (m.insert key val) := by
  have hfun : Dict.setVal type key val = List.kreplace key val := funext (setVal_eq key val)
  have hcard : (m.insert key val).keys.card = m.keys.card := by
    rw [Buckets.card_insert, Buckets.card_erase hk]
  refine ⟨?_, h.size_le, h.sizemask_eq, h.power, ?_, h.used_le, ?_⟩
  · show ht.size = (ht.table.modify _ _).length
    rw [List.length_modify, h.size_eq]
  · rw [hcard, ← h.used_eq]
  · show Buckets.Holds (ht.slot type) (ht.table.modify _ _) _
    rw [hfun]
    exact h.holds.replace hk (h.slot_lt h0 key)

/-- `dictReplace` inserts the key, whether the table has it or not. -/
theorem dictReplace (h : Rep type ht m) (hcard : m.keys.card < 2147483648) (key : K) (val : V) :
    ∃ ht', ht.dictReplace type key val = some (ht', decide (key ∉ m)) ∧
      Rep type ht' (m.insert key val) := by
  obtain ⟨ht', he, hrep, h0⟩ := h.dictAdd hcard key val
  rw [Dict.dictReplace, he]
  by_cases hk : key ∈ m
  · rw [if_pos hk] at hrep
    obtain ⟨val', hval⟩ := Finmap.mem_iff.mp hk
    refine ⟨_, ?_, hrep.setVal h0 hk val⟩
    simp [hk, hrep.dictFind, hval]
  · rw [if_neg hk] at hrep
    exact ⟨ht', by simp [hk], hrep⟩

/-- The entry of the key is taken out of its chain. -/
theorem dictDelete_eq (h0 : ht.size ≠ 0) {key : K} {chain : List (DictEntry K V)}
    (hc : ht.table[ht.slot type key]? = some chain) (hk : key ∈ chain.keys) :
    ht.dictDelete type key = some ({ ht with
      table := ht.table.set (ht.slot type key) (chain.kerase key), used := ht.used - 1 }, true) := by
  rw [Dict.dictDelete, if_neg h0, hc, Option.map_some, unlink_eq, if_pos hk]

/-- `dictDelete` erases the key, and says whether the table had it. -/
theorem dictDelete (h : Rep type ht m) (key : K) :
    ∃ ht', ht.dictDelete type key = some (ht', decide (key ∈ m)) ∧ Rep type ht' (m.erase key) := by
  by_cases h0 : ht.size = 0
  · have hk : key ∉ m := by rw [h.eq_empty h0]; exact Finmap.notMem_empty
    exact ⟨ht, by simp [Dict.dictDelete, h0, hk], by rwa [Buckets.erase_of_notMem hk]⟩
  have hlt := h.slot_lt h0 key
  have hc := List.getElem?_eq_getElem hlt
  have hkey : key ∈ ht.table[ht.slot type key].keys ↔ key ∈ m := by
    rw [← List.dlookup_isSome, h.holds.lookup hc, Finmap.lookup_isSome]
  by_cases hk : key ∈ m
  · have hcard := Buckets.card_erase hk
    rw [decide_eq_true hk]
    refine ⟨_, dictDelete_eq h0 hc (hkey.mpr hk), ?_, h.size_le, h.sizemask_eq, h.power,
      ?_, ?_, ?_⟩
    · show ht.size = (ht.table.set _ _).length
      rw [List.length_set, h.size_eq]
    · show ht.used - 1 = _
      have := h.used_eq
      omega
    · show ht.used - 1 ≤ ht.size
      have := h.used_le
      omega
    · show Buckets.Holds (ht.slot type) (ht.table.set _ _) _
      rw [set_eq_modify hc (List.kerase key)]
      exact h.holds.erase hlt
  · refine ⟨ht, ?_, by rwa [Buckets.erase_of_notMem hk]⟩
    rw [Dict.dictDelete, if_neg h0, hc, Option.map_some, unlink_eq, if_neg (mt hkey.mp hk),
      decide_eq_false hk]

end Rep

end Dict

end Hiredispool.Hiredis
