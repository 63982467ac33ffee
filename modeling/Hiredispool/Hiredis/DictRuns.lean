import Hiredispool.Hiredis.Dict

/-!
# Runs of the hash table

What the functions of `dict.c` (lines 65–286) do one after the other, from `dictCreate` on.

* `calls_create`: in every sequence of calls, the answers are those of a finite map.
* `visit_all`: an iteration that deletes any of the entries it is given is given each
  entry of the table once.

```
while ((de = dictNext(it)) != NULL)
```

The iterator keeps the entry behind the one that it returns, for "the iterator user may delete
the entry we are returning" (lines 279–281). No more may be deleted than that, and nothing added.
-/

namespace Hiredispool.Hiredis.Dict

open Hiredispool.Client (toInt)

variable {K V : Type} {type : DictType K} {ht : Dict K V} {m : Finmap fun _ : K => V}

/-! ## Calls -/

/-- A call on a table. -/
inductive Call (K V : Type)
  | add (key : K) (val : V)
  | replace (key : K) (val : V)
  | delete (key : K)
  | find (key : K)

/-- What a call returns. -/
inductive Answer (K V : Type)
  | status (ok : Bool)
  | entry (de : Option (DictEntry K V))

/-- The call made on the table. -/
def call (type : DictType K) : Call K V → Dict K V → Option (Dict K V × Answer K V)
  | .add key val, ht => (ht.dictAdd type key val).map fun (ht, ok) => (ht, .status ok)
  | .replace key val, ht => (ht.dictReplace type key val).map fun (ht, ok) => (ht, .status ok)
  | .delete key, ht => (ht.dictDelete type key).map fun (ht, ok) => (ht, .status ok)
  | .find key, ht => (ht.dictFind type key).map fun de => (ht, .entry de)

/-- Calls one after the other, and their answers. -/
def calls (type : DictType K) : List (Call K V) → Dict K V → Option (Dict K V × List (Answer K V))
  | [], ht => some (ht, [])
  | c :: cs, ht => do
    let (ht, a) ← call type c ht
    let (ht, as) ← calls type cs ht
    return (ht, a :: as)

section Calls

variable [DecidableEq K]

/-- The purpose of a call: what it does to a finite map. -/
def Call.act : Call K V → (Finmap fun _ : K => V) → (Finmap fun _ : K => V) × Answer K V
  | .add key val, m => (if key ∈ m then m else m.insert key val, .status (decide (key ∉ m)))
  | .replace key val, m => (m.insert key val, .status (decide (key ∉ m)))
  | .delete key, m => (m.erase key, .status (decide (key ∈ m)))
  | .find key, m => (m, .entry ((m.lookup key).map (Sigma.mk key)))

/-- What the calls do to a finite map. -/
def Call.acts : List (Call K V) → (Finmap fun _ : K => V) → (Finmap fun _ : K => V) × List (Answer K V)
  | [], m => (m, [])
  | c :: cs, m =>
    let (m, a) := c.act m
    let (m, as) := acts cs m
    (m, a :: as)

/-- An `int` can be the index of a key that is added: from 2^31 entries on the table would have
    more chains than that. -/
def Call.Fits (m : Finmap fun _ : K => V) : Call K V → Prop
  | .add .. => m.keys.card < 2147483648
  | .replace .. => m.keys.card < 2147483648
  | _ => True

/-- Each call fits when its turn comes. -/
def Call.AllFit : List (Call K V) → (Finmap fun _ : K => V) → Prop
  | [], _ => True
  | c :: cs, m => c.Fits m ∧ AllFit cs (c.act m).1

/-- Each call does to the table what it does to the map. -/
theorem call_spec (h : Rep type ht m) {c : Call K V} (hfits : c.Fits m) :
    ∃ ht', call type c ht = some (ht', (c.act m).2) ∧ Rep type ht' (c.act m).1 := by
  cases c with
  | add key val =>
    obtain ⟨ht', he, hrep, -⟩ := h.dictAdd hfits key val
    exact ⟨ht', by rw [call, he]; rfl, hrep⟩
  | replace key val =>
    obtain ⟨ht', he, hrep⟩ := h.dictReplace hfits key val
    exact ⟨ht', by rw [call, he]; rfl, hrep⟩
  | delete key =>
    obtain ⟨ht', he, hrep⟩ := h.dictDelete key
    exact ⟨ht', by rw [call, he]; rfl, hrep⟩
  | find key => exact ⟨ht, by rw [call, h.dictFind]; rfl, h⟩

/-- By induction on the calls. -/
theorem calls_spec (h : Rep type ht m) {cs : List (Call K V)} (hfit : Call.AllFit cs m) :
    ∃ ht', calls type cs ht = some (ht', (Call.acts cs m).2) ∧ Rep type ht' (Call.acts cs m).1 := by
  induction cs generalizing ht m with
  | nil => exact ⟨ht, rfl, h⟩
  | cons c cs ih =>
    obtain ⟨ht₁, he₁, hrep₁⟩ := call_spec h hfit.1
    obtain ⟨ht₂, he₂, hrep₂⟩ := ih hrep₁ hfit.2
    exact ⟨ht₂, by rw [calls, he₁]; simp [he₂, Call.acts], hrep₂⟩

/-- From the empty table on, the answers of all calls are those of a finite map, and the
    entries that `dictRelease` frees at the end are the entries of the map. -/
theorem calls_create {cs : List (Call K V)} (hfit : Call.AllFit cs ∅) :
    ∃ ht', calls type cs create = some (ht', (Call.acts cs ∅).2) ∧
      Rep type ht' (Call.acts cs ∅).1 ∧
      (ht'.dictRelease : Multiset (DictEntry K V)) = (Call.acts cs ∅).1.entries := by
  obtain ⟨ht', he, hrep⟩ := calls_spec Rep.create hfit
  exact ⟨ht', he, hrep, hrep.dictRelease⟩

/-- Numbers, which share a chain if they are equal modulo the size. -/
def numbers : DictType ℕ where
  hashFunction := UInt32.ofNat
  keyCompare := fun key₁ key₂ => key₁ == key₂
  keyCompare_iff := fun _ _ => beq_iff_eq

/-- Two keys with one hash, a value that is replaced, and a key that is deleted. -/
def someCalls : List (Call ℕ ℕ) :=
  [.add 1 10, .add 5 50, .replace 1 11, .add 5 51, .delete 5, .add 9 90]

/-- Few keys. -/
theorem someCalls_fit : Call.AllFit someCalls ∅ := by
  refine ⟨?_, ?_, ?_, ?_, trivial, ?_, trivial⟩ <;> show Finset.card _ < _ <;> decide

/-- So they are answered as they should be, and the table is freed. -/
theorem calls_create_some : ∃ ht', calls numbers someCalls create =
      some (ht', (Call.acts someCalls ∅).2) ∧ Rep numbers ht' (Call.acts someCalls ∅).1 ∧
    (ht'.dictRelease : Multiset (DictEntry ℕ ℕ)) = (Call.acts someCalls ∅).1.entries :=
  calls_create someCalls_fit

end Calls

/-! ## Iteration -/

/-- The iterator has returned `he`, and the entries `todo` come behind it. -/
def At (ht : Dict K V) (iter : DictIterator K) (he : DictEntry K V)
    (todo : List (DictEntry K V)) : Prop :=
  ∃ before kept chain after, ht.table = before ++ (kept ++ he :: chain) :: after ∧
    iter = ⟨before.length, some he.1, chain.head?.map (·.1)⟩ ∧ todo = chain ++ after.flatten

/-- The entries `todo` are still to be returned. -/
def Ahead (ht : Dict K V) (iter : DictIterator K) (todo : List (DictEntry K V)) : Prop :=
  iter = getIterator ∧ todo = ht.table.flatten ∨
    ∃ before kept chain after key, ht.table = before ++ (kept ++ chain) :: after ∧
      iter = ⟨before.length, some key, chain.head?.map (·.1)⟩ ∧ todo = chain ++ after.flatten

/-- What comes behind the entry that was returned is ahead. -/
theorem At.ahead {iter : DictIterator K} {he : DictEntry K V} {todo : List (DictEntry K V)}
    (h : At ht iter he todo) : Ahead ht iter todo := by
  obtain ⟨before, kept, chain, after, htable, hiter, htodo⟩ := h
  exact Or.inr ⟨before, kept ++ [he], chain, after, he.1, by simpa using htable, hiter, htodo⟩

/-- Behind the last entry the iterator runs to the end of the table. -/
theorem nextChain_nil {table : List (List (DictEntry K V))} (h : table.flatten = []) (index : ℤ) :
    (nextChain index table).2 = none := by
  induction table generalizing index with
  | nil => rfl
  | cons chain table ih =>
    obtain ⟨rfl, hrest⟩ := List.append_eq_nil_iff.mp (List.flatten_cons ▸ h)
    exact ih hrest (index + 1)

/-- Empty chains are skipped. -/
theorem nextChain_cons {table : List (List (DictEntry K V))} {he : DictEntry K V}
    {todo : List (DictEntry K V)} (h : table.flatten = he :: todo) (index : ℤ) :
    ∃ empty chain after, table = empty ++ (he :: chain) :: after ∧ todo = chain ++ after.flatten ∧
      nextChain index table =
        (⟨index + empty.length + 1, some he.1, chain.head?.map (·.1)⟩, some he) := by
  induction table generalizing index with
  | nil => cases h
  | cons chain table ih =>
    cases chain with
    | nil =>
      obtain ⟨empty, chain, after, rfl, htodo, he⟩ := ih h (index + 1)
      refine ⟨[] :: empty, chain, after, rfl, htodo, ?_⟩
      rw [nextChain, he]
      simp [add_assoc, add_comm]
    | cons he' chain =>
      obtain ⟨rfl, rfl⟩ := List.cons.inj h
      exact ⟨[], chain, table, rfl, rfl, by simp [nextChain]⟩

/-- The entry that is pointed to, and the next one of its chain. -/
theorem deref_append {kept chain : List (DictEntry K V)} {he : DictEntry K V}
    (h : he.1 ∉ kept.keys) :
    deref type he.1 (kept ++ he :: chain) = some (he, chain.head?.map (·.1)) := by
  induction kept with
  | nil => rw [List.nil_append, deref, if_pos ((type.keyCompare_iff _ _).mpr rfl)]
  | cons e kept ih =>
    obtain ⟨hne, hkept⟩ := not_or.mp (mt List.mem_cons.mpr h)
    rw [List.cons_append, deref, if_neg (by simpa [type.keyCompare_iff] using hne)]
    exact ih hkept

/-- `(signed)iter->ht->size` is the size below 2^31. -/
theorem chains_left (h : Rep type ht m) (hsize : ht.size < 2147483648) :
    ht.table.take (toInt ht.size).toNat = ht.table := by
  rw [(Client.toInt_eq_self_iff _).mpr (by omega), h.size_eq, Int.toNat_natCast]
  exact List.take_length

/-- One step of the iterator. -/
theorem dictNext_spec (h : Rep type ht m) (hsize : ht.size < 2147483648) {iter : DictIterator K}
    {todo : List (DictEntry K V)} (hiter : Ahead ht iter todo) :
    ∃ iter', ht.dictNext type iter = some (iter', todo.head?) ∧
      ∀ he ∈ todo.head?, At ht iter' he todo.tail := by
  have hscan : ∀ before rest, ht.table = before ++ rest → todo = rest.flatten →
      ∃ iter', some (nextChain ((before.length : ℤ) - 1) rest) = some (iter', todo.head?) ∧
        ∀ he ∈ todo.head?, At ht iter' he todo.tail := by
    intro before rest htable htodo
    cases htodo' : todo with
    | nil =>
      have := nextChain_nil (htodo.symm.trans htodo') ((before.length : ℤ) - 1)
      exact ⟨_, by rw [List.head?_nil, ← this], by simp⟩
    | cons he todo' =>
      obtain ⟨empty, chain, after, rfl, htodo'', hnext⟩ :=
        nextChain_cons (htodo.symm.trans htodo') ((before.length : ℤ) - 1)
      refine ⟨_, by rw [hnext]; rfl, fun e hmem => ?_⟩
      obtain rfl : he = e := by simpa using hmem
      refine ⟨before ++ empty, [], chain, after, by simpa using htable, ?_, htodo''⟩
      rw [List.length_append]
      congr 1
      push_cast
      ring
  rcases hiter with ⟨rfl, htodo⟩ | ⟨before, kept, chain, after, key, htable, rfl, htodo⟩
  · obtain ⟨iter', hnext, hat⟩ := hscan [] ht.table rfl htodo
    refine ⟨iter', ?_, hat⟩
    rw [← hnext]
    simp [dictNext, getIterator, chains_left h hsize]
  · cases chain with
    | nil =>
      obtain ⟨iter', hnext, hat⟩ := hscan (before ++ [kept]) after (by simpa using htable) htodo
      refine ⟨iter', ?_, hat⟩
      rw [← hnext]
      have hdrop : ht.table.drop (before.length + 1) = after := by
        rw [htable, ← List.drop_drop, List.drop_left]
        rfl
      simp [dictNext, chains_left h hsize, hdrop,
        show ((before.length : ℤ) + 1).toNat = before.length + 1 by omega]
    | cons he chain =>
      have hc : ht.table[before.length]? = some (kept ++ he :: chain) := by
        rw [htable, List.getElem?_append_right le_rfl, Nat.sub_self]
        rfl
      have hnd : (kept ++ he :: chain).NodupKeys :=
        (List.nodupKeys_flatten.mp (Buckets.nodupKeys h.holds.entries)).1 _
          (List.mem_of_getElem? hc)
      have hkept : he.1 ∉ kept.keys := by
        have := (List.nodupKeys_middle.mp hnd)
        have := List.notMem_keys_of_nodupKeys_cons this
        rw [List.keys_append, List.mem_append] at this
        tauto
      refine ⟨⟨before.length, some he.1, chain.head?.map (·.1)⟩, ?_, fun e hmem => ?_⟩
      · rw [htodo]
        simp [dictNext, hc, deref_append hkept]
      · rw [htodo] at hmem ⊢
        obtain rfl : he = e := by simpa using hmem
        exact ⟨before, kept, chain, after, htable, rfl, rfl⟩

variable [DecidableEq K]

/-- The entry that the iterator has returned may be deleted. -/
theorem At.dictDelete (h : Rep type ht m) {iter : DictIterator K} {he : DictEntry K V}
    {todo : List (DictEntry K V)} (hat : At ht iter he todo) :
    ∃ ht', ht.dictDelete type he.1 = some (ht', true) ∧ Rep type ht' (m.erase he.1) ∧
      ht'.size = ht.size ∧ Ahead ht' iter todo := by
  obtain ⟨before, kept, chain, after, htable, hiter, htodo⟩ := hat
  have hc : ht.table[before.length]? = some (kept ++ he :: chain) := by
    rw [htable, List.getElem?_append_right le_rfl, Nat.sub_self]
    rfl
  have hslot : ht.slot type he.1 = before.length := h.holds.placed hc he (by simp)
  have hkey : he.1 ∈ (kept ++ he :: chain).keys := by simp
  have hnd : (he :: (kept ++ chain)).NodupKeys := by
    have := (List.nodupKeys_flatten.mp (Buckets.nodupKeys h.holds.entries)).1 _
      (List.mem_of_getElem? hc)
    exact List.nodupKeys_middle.mp this
  have hkept : he.1 ∉ kept.keys := by
    have := List.notMem_keys_of_nodupKeys_cons hnd
    rw [List.keys_append, List.mem_append] at this
    tauto
  have h0 : ht.size ≠ 0 := by
    rw [h.size_eq, htable]
    simp
  have hm : he.1 ∈ m := by
    rw [← hslot] at hc
    rw [← Finmap.lookup_isSome, ← h.holds.lookup hc, List.dlookup_isSome]
    exact hkey
  obtain ⟨ht', hdel, hrep⟩ := h.dictDelete he.1
  rw [decide_eq_true hm] at hdel
  have heq := hdel.symm.trans (Rep.dictDelete_eq h0 (hslot ▸ hc) hkey)
  obtain rfl := (Prod.mk.inj (Option.some.inj heq)).1
  refine ⟨_, hdel, hrep, rfl, Or.inr ⟨before, kept, chain, after, he.1, ?_, hiter, htodo⟩⟩
  show ht.table.set _ _ = _
  rw [hslot, htable, List.kerase_append_right hkept, List.kerase_cons_eq rfl,
    List.set_append_right _ _ le_rfl, Nat.sub_self]
  rfl

/-- The map without those of the entries that are not kept. -/
def prune (keep : K → Bool) (des : List (DictEntry K V)) (m : Finmap fun _ : K => V) :
    Finmap fun _ : K => V :=
  des.foldl (fun m de => if keep de.1 then m else m.erase de.1) m

/-- What is left of the map. -/
theorem lookup_prune (keep : K → Bool) (des : List (DictEntry K V)) (m : Finmap fun _ : K => V)
    (key : K) :
    (prune keep des m).lookup key = if key ∈ des.keys ∧ keep key = false then none else m.lookup key := by
  induction des generalizing m with
  | nil => simp [prune]
  | cons de des ih =>
    show (prune keep des _).lookup key = _
    rw [ih]
    by_cases hkey : key = de.1
    · subst hkey
      cases hk : keep de.1 <;> simp [hk]
    · cases hk : keep de.1 <;> simp [hk, hkey]

/-- An iteration returns the entries that are ahead, in their order. -/
theorem visit_ahead (keep : K → Bool) {fuel : ℕ} {iter : DictIterator K}
    {todo : List (DictEntry K V)} (h : Rep type ht m) (hsize : ht.size < 2147483648)
    (hiter : Ahead ht iter todo) (hfuel : todo.length < fuel) :
    ∃ ht', visit type keep fuel ht iter = some (ht', todo) ∧ Rep type ht' (prune keep todo m) := by
  induction todo generalizing fuel ht m iter with
  | nil =>
    obtain ⟨fuel, rfl⟩ := Nat.exists_eq_succ_of_ne_zero (Nat.ne_of_gt hfuel)
    obtain ⟨iter', hnext, -⟩ := dictNext_spec h hsize hiter
    exact ⟨ht, by rw [visit, hnext]; rfl, h⟩
  | cons he todo ih =>
    obtain ⟨fuel, rfl⟩ := Nat.exists_eq_succ_of_ne_zero (Nat.ne_of_gt (Nat.zero_lt_of_lt hfuel))
    obtain ⟨iter', hnext, hat⟩ := dictNext_spec h hsize hiter
    have hat := hat he rfl
    have hfuel' : todo.length < fuel := Nat.lt_of_succ_lt_succ hfuel
    cases hkeep : keep he.1 with
    | true =>
      obtain ⟨ht', hvisit, hrep⟩ := ih h hsize hat.ahead hfuel'
      refine ⟨ht', ?_, ?_⟩
      · rw [visit, hnext]
        simp [hkeep, hvisit]
      · rwa [prune, List.foldl_cons, hkeep]
    | false =>
      obtain ⟨ht₁, hdel, hrep₁, hsize₁, hahead⟩ := hat.dictDelete h
      obtain ⟨ht', hvisit, hrep⟩ := ih hrep₁ (by omega) hahead hfuel'
      refine ⟨ht', ?_, ?_⟩
      · rw [visit, hnext]
        simp [hkeep, hdel, hvisit]
      · rwa [prune, List.foldl_cons, hkeep]

/-- After any calls, an iteration is given each entry of the table exactly once, whichever
    of them it deletes, and the table is left with the others. The iterator compares its
    index with `(signed)size`. -/
theorem visit_all (keep : K → Bool) {cs : List (Call K V)} {as : List (Answer K V)}
    (hfit : Call.AllFit cs ∅) (hcalls : calls type cs create = some (ht, as))
    (hsize : ht.size < 2147483648) :
    ∃ ht' des m', visit type keep (ht.used + 1) ht getIterator = some (ht', des) ∧
      (des : Multiset (DictEntry K V)) = (Call.acts cs ∅).1.entries ∧ Rep type ht' m' ∧
      ∀ key, m'.lookup key = if keep key then (Call.acts cs ∅).1.lookup key else none := by
  obtain ⟨ht₁, he, hrep⟩ := @calls_spec _ _ type _ _ _ Rep.create _ hfit
  obtain rfl := (Prod.mk.inj (Option.some.inj (hcalls.symm.trans he))).1
  have hfuel : ht.table.flatten.length < ht.used + 1 := by
    rw [hrep.used_eq, hrep.holds.length_flatten]
    exact Nat.lt_succ_self _
  obtain ⟨ht', hvisit, hrep'⟩ := visit_ahead keep hrep hsize (Or.inl ⟨rfl, rfl⟩) hfuel
  refine ⟨ht', _, _, hvisit, hrep.holds.entries.symm, hrep', fun key => ?_⟩
  rw [lookup_prune]
  have hkeys : key ∈ ht.table.flatten.keys ↔ key ∈ (Call.acts cs ∅).1 := by
    rw [← List.dlookup_isSome, ← Buckets.lookup_eq hrep.holds.entries, Finmap.lookup_isSome]
  cases hk : keep key with
  | true => simp
  | false =>
    by_cases hmem : key ∈ (Call.acts cs ∅).1
    · simp [hkeys, hmem]
    · simp [hkeys, hmem, Finmap.lookup_eq_none.mpr hmem]

/-- The iteration deletes a key that shares its chain. -/
theorem visit_all_some : ∃ ht ht' des m', visit numbers (· == 9) (ht.used + 1) ht getIterator =
      some (ht', des) ∧ (des : Multiset (DictEntry ℕ ℕ)) = (Call.acts someCalls ∅).1.entries ∧
    Rep numbers ht' m' ∧
    ∀ key, m'.lookup key = if key == 9 then (Call.acts someCalls ∅).1.lookup key else none := by
  obtain ⟨ht, he, -⟩ := @calls_spec _ _ numbers _ _ _ Rep.create _ someCalls_fit
  have hsize : ht.size < 2147483648 := by
    have : (calls numbers someCalls create).map (·.1.size) = some 4 := by decide
    rw [he] at this
    have hs : ht.size = 4 := Option.some.inj this
    omega
  exact ⟨ht, visit_all (· == 9) someCalls_fit he hsize⟩

end Hiredispool.Hiredis.Dict
