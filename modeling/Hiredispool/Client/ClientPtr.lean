import Hiredispool.Lib.Lts
import Hiredispool.Lib.RefCount
import Hiredispool.Pool.Types
import Mathlib.Data.List.Count

/-!
# Who refers to a `RedisClient`

`RedisClientPtr` shares a `RedisClient` by counting: each pointer has the address
of the `RedisClient`, or NULL, and that of the `SharedCount` it has in common with
its copies. Assignment takes its argument by value and exchanges.

* `pointers_counted`: after any operations on any pointers, `instMap` included,
  each `SharedCount` is the number of its pointers, which all have the same
  `RedisClient`, and both are deleted, once, when the last pointer goes.
* `operands_suffice`: an operation needs nothing but its operands.

`int c` of a `SharedCount` is a natural number here: in C the 2^31st pointer that is
alive at one time overflows it.
-/

namespace Hiredispool.ClientPtr

open Hiredispool.Pool RefCount

/-! ## The objects -/

/-- What a `RedisClientPtr` has: the `RedisClient` or NULL, and the `SharedCount`. -/
structure Value where
  p : Option ℕ
  c : ℕ
deriving DecidableEq

/-- A place for a `RedisClientPtr`. -/
inductive Holder
  /-- an object of the program -/
  | var (x : ℕ)
  /-- the entry of `instMap` -/
  | inst (dbname : Bytes)
  /-- the argument `other` of `operator=` (line 63) -/
  | other
  /-- the variable `c` of `createInst` (line 174) -/
  | c
deriving DecidableEq

/-- What `delete` is applied to; the `RedisClient` may be NULL. -/
inductive Deleted
  | redisClient (p : Option ℕ)
  | sharedCount (c : ℕ)
deriving DecidableEq

structure Mem where
  /-- the pointers that are alive -/
  ptr : Holder → Option Value
  /-- the member `c` of each `SharedCount`, without the bound of its `int` -/
  count : ℕ → ℕ
  counts : ℕ
  clients : ℕ
  /-- the calls of `delete`, in order -/
  deleted : List Deleted

namespace Mem

/-- `RedisClientPtr(_p)` (lines 41–45), with a new `SharedCount` at 1. -/
def construct (m : Mem) (h : Holder) (p : Option ℕ) : Option Mem :=
  if m.ptr h = none then
    some { m with
      ptr := Function.update m.ptr h (some ⟨p, m.counts⟩)
      count := Function.update m.count m.counts 1
      counts := m.counts + 1 }
  else none

/-- `RedisClientPtr(new RedisClient(..))`. -/
def constructNew (m : Mem) (h : Holder) : Option Mem :=
  { m with clients := m.clients + 1 }.construct h (some m.clients)

/-- `RedisClientPtr(const RedisClientPtr& other)` (lines 57–62). -/
def copy (m : Mem) (h k : Holder) : Option Mem :=
  match m.ptr k with
  | none => none
  | some v =>
    if m.ptr h = none then
      some { m with
        ptr := Function.update m.ptr h (some v)
        count := Function.update m.count v.c (m.count v.c + 1) }
    else none

/-- `swap` (lines 67–70). -/
def swap (m : Mem) (h k : Holder) : Option Mem :=
  if m.ptr h ≠ none ∧ m.ptr k ≠ none then
    some { m with ptr := Function.update (Function.update m.ptr h (m.ptr k)) k (m.ptr h) }
  else none

/-- `~RedisClientPtr()` (lines 46–55). -/
def destroy (m : Mem) (h : Holder) : Option Mem :=
  match m.ptr h with
  | none => none
  | some v =>
    let n := m.count v.c - 1
    some { m with
      ptr := Function.update m.ptr h none
      count := Function.update m.count v.c n
      deleted := if n = 0 then m.deleted ++ [.redisClient v.p, .sharedCount v.c] else m.deleted }

/-- `operator=` (lines 63–66): the argument is a copy, which goes with what it got. -/
def assign (m : Mem) (h k : Holder) : Option Mem := do
  let m ← m.copy .other k
  let m ← m.swap h .other
  m.destroy .other

/-- `findInst` (`RedisClientYaf.cpp`, lines 149–156); `x` is what it returns. -/
def findInst (m : Mem) (x : ℕ) (dbname : Bytes) : Option Mem :=
  if m.ptr (.inst dbname) ≠ none then m.copy (.var x) (.inst dbname)
  else m.construct (.var x) none

/-- `createInst` (lines 167–182). `instMap[dbname]` makes an entry that is NULL, which
    is then assigned; `constructed` is false if the constructor of `RedisClient`
    throws. -/
def createInst (m : Mem) (x : ℕ) (dbname : Bytes) (constructed : Bool) : Option Mem :=
  if m.ptr (.inst dbname) ≠ none then m.copy (.var x) (.inst dbname)
  else if constructed then do
    let m ← m.constructNew .c
    let m ← m.construct (.inst dbname) none
    let m ← m.assign (.inst dbname) .c
    let m ← m.copy (.var x) .c
    m.destroy .c
  else m.construct (.var x) none

/-- `deleteInst` (lines 183–186). -/
def deleteInst (m : Mem) (dbname : Bytes) : Option Mem :=
  if m.ptr (.inst dbname) ≠ none then m.destroy (.inst dbname) else some m

/-- Nothing has been done. -/
def empty : Mem := ⟨fun _ => none, fun _ => 0, 0, 0, []⟩

end Mem

inductive Op
  | null (x : ℕ)
  | new (x : ℕ)
  | copy (x y : ℕ)
  | assign (x y : ℕ)
  | swap (x y : ℕ)
  | destroy (x : ℕ)
  | findInst (x : ℕ) (dbname : Bytes)
  | createInst (x : ℕ) (dbname : Bytes) (constructed : Bool)
  | deleteInst (dbname : Bytes)

/-- One operation: what it constructs is not alive before, what it uses is. -/
def step (m : Mem) : Op → Option Mem
  | .null x => m.construct (.var x) none
  | .new x => m.constructNew (.var x)
  | .copy x y => m.copy (.var x) (.var y)
  | .assign x y => m.assign (.var x) (.var y)
  | .swap x y => m.swap (.var x) (.var y)
  | .destroy x => m.destroy (.var x)
  | .findInst x db => m.findInst x db
  | .createInst x db constructed => m.createInst x db constructed
  | .deleteInst db => m.deleteInst db

/-- Any operations, in any order. -/
def pointers : Lts Mem Op where
  init m := m = Mem.empty
  step := step

/-! ## The counters -/

/-- The `SharedCount` that a pointer refers to. -/
def Mem.countOf (m : Mem) (h : Holder) : Option ℕ := (m.ptr h).map Value.c

/-- The `RedisClient` that a pointer refers to. -/
def Mem.clientOf (m : Mem) (h : Holder) : Option ℕ := (m.ptr h).bind Value.p

/-- How often `delete` has been applied. -/
def Mem.deletes (m : Mem) (d : Deleted) : ℕ := m.deleted.count d

/-- `client c` is the `RedisClient` that the `SharedCount` `c` counts for: the counters
    are exact, and a `RedisClient` goes with its `SharedCount`. -/
structure Sound (m : Mem) (client : ℕ → Option ℕ) : Prop where
  exact : Exact m.countOf m.counts m.count fun c => m.deletes (.sharedCount c)
  same : ∀ h v, m.ptr h = some v → v.p = client v.c
  inj : ∀ c c' p, client c = some p → client c' = some p → c = c'
  range : ∀ c p, client c = some p → c < m.counts ∧ p < m.clients
  total : ∀ p, p < m.clients → ∃ c, client c = some p
  together : ∀ c p, client c = some p →
    m.deletes (.redisClient (some p)) = m.deletes (.sharedCount c)
  unborn : ∀ p, (∀ c, client c ≠ some p) → m.deletes (.redisClient (some p)) = 0

variable {m m' : Mem} {client : ℕ → Option ℕ} {h k : Holder}

theorem Sound.empty : Sound .empty fun _ => none where
  exact := Exact.empty
  same h v hv := by simp [Mem.empty] at hv
  inj c c' p hc := by simp at hc
  range c p hc := by simp at hc
  total p hp := absurd hp (Nat.not_lt_zero p)
  together c p hc := by simp at hc
  unborn _ _ := rfl

/-- A pointer is written. -/
theorem countOf_update (m : Mem) (h : Holder) (v : Option Value) :
    (fun j => (Function.update m.ptr h v j).map Value.c) =
      Function.update m.countOf h (v.map Value.c) :=
  Function.comp_update (Option.map Value.c) m.ptr h v

theorem same_update {v : Option Value}
    (hs : ∀ j w, m.ptr j = some w → w.p = client w.c)
    (hv : ∀ w, v = some w → w.p = client w.c) (j : Holder) (w : Value)
    (hw : Function.update m.ptr h v j = some w) : w.p = client w.c := by
  by_cases hj : j = h
  · rw [hj, Function.update_self] at hw
    exact hv w hw
  · rw [Function.update_of_ne hj] at hw
    exact hs j w hw

/-- A `RedisClient` that no `SharedCount` counts for may get a new one. -/
theorem client_update_inj {n : ℕ} {q : Option ℕ}
    (hinj : ∀ c c' p, client c = some p → client c' = some p → c = c')
    (hq : ∀ p, q = some p → ∀ c, client c ≠ some p) (c c' p : ℕ)
    (hc : Function.update client n q c = some p) (hc' : Function.update client n q c' = some p) :
    c = c' := by
  by_cases h₁ : c = n <;> by_cases h₂ : c' = n
  · rw [h₁, h₂]
  · rw [h₁, Function.update_self] at hc
    rw [Function.update_of_ne h₂] at hc'
    exact absurd hc' (hq p hc c')
  · rw [h₂, Function.update_self] at hc'
    rw [Function.update_of_ne h₁] at hc
    exact absurd hc (hq p hc' c)
  · rw [Function.update_of_ne h₁] at hc
    rw [Function.update_of_ne h₂] at hc'
    exact hinj c c' p hc hc'

/-- Nothing has been deleted that is not there yet. -/
theorem Sound.deletes_new (hs : Sound m client) : m.deletes (.sharedCount m.counts) = 0 := by
  rw [hs.exact.deletes m.counts, if_neg]
  omega

/-- A pointer gets a new `SharedCount`. It counts for `q`, NULL or a new `RedisClient`,
    with which there are `n` of them. -/
theorem Sound.construct {q : Option ℕ} {n : ℕ} (hs : Sound m client)
    (hq : ∀ p, q = some p → p < n ∧ ∀ c, client c ≠ some p) (hn : m.clients ≤ n)
    (hall : ∀ p, m.clients ≤ p → p < n → q = some p)
    (hm : { m with clients := n }.construct h q = some m') :
    Sound m' (Function.update client m.counts q) := by
  rw [Mem.construct] at hm
  split at hm
  · next hfree =>
    cases hm
    have hnone : m.ptr h = none := hfree
    have hold : ∀ c, c < m.counts → Function.update client m.counts q c = client c :=
      fun c hc => Function.update_of_ne (by omega) _ _
    refine ⟨?_, ?_, ?_, ?_, ?_, ?_, ?_⟩
    · show Exact (fun j => (Function.update m.ptr h (some ⟨q, m.counts⟩) j).map Value.c)
        (m.counts + 1) _ _
      rw [countOf_update]
      exact hs.exact.created (by simp [Mem.countOf, hnone]) rfl
    · refine same_update (fun j v hv => ?_) fun v hv => ?_
      · rw [hold v.c (hs.exact.allocated j v.c (congrArg (Option.map Value.c) hv))]
        exact hs.same j v hv
      · cases hv
        show q = Function.update client m.counts q m.counts
        rw [Function.update_self]
    · exact client_update_inj hs.inj fun p hp => (hq p hp).2
    · intro c p hc
      show c < m.counts + 1 ∧ p < n
      by_cases h₁ : c = m.counts
      · rw [h₁, Function.update_self] at hc
        exact ⟨by omega, (hq p hc).1⟩
      · rw [Function.update_of_ne h₁] at hc
        have := hs.range c p hc
        omega
    · intro p hp
      by_cases hlt : p < m.clients
      · obtain ⟨c, hc⟩ := hs.total p hlt
        exact ⟨c, by rw [hold c (hs.range c p hc).1, hc]⟩
      · exact ⟨m.counts, by rw [Function.update_self, hall p (by omega) hp]⟩
    · intro c p hc
      show m.deletes _ = m.deletes _
      by_cases h₁ : c = m.counts
      · rw [h₁, Function.update_self] at hc
        rw [hs.unborn p (hq p hc).2, h₁, hs.deletes_new]
      · rw [Function.update_of_ne h₁] at hc
        exact hs.together c p hc
    · intro p hp
      refine hs.unborn p fun c hc => ?_
      exact hp c (by rw [hold c (hs.range c p hc).1, hc])
  · cases hm

theorem Sound.null (hs : Sound m client) (hm : m.construct h none = some m') :
    Sound m' (Function.update client m.counts none) :=
  hs.construct (n := m.clients) (by simp) (Nat.le_refl _) (fun p hp hlt => by omega) hm

theorem Sound.new (hs : Sound m client) (hm : m.constructNew h = some m') :
    Sound m' (Function.update client m.counts (some m.clients)) := by
  refine hs.construct (n := m.clients + 1) ?_ (by omega) ?_ hm
  · intro p hp
    cases hp
    exact ⟨by omega, fun c hc => absurd (hs.range c _ hc).2 (Nat.lt_irrefl _)⟩
  · intro p hp hlt
    rw [show m.clients = p by omega]

theorem Sound.copy (hs : Sound m client) (hm : m.copy h k = some m') : Sound m' client := by
  rw [Mem.copy] at hm
  split at hm
  · cases hm
  · next v hv =>
    split at hm
    · next hn =>
      cases hm
      refine ⟨?_, ?_, hs.inj, hs.range, hs.total, hs.together, hs.unborn⟩
      · show Exact (fun j => (Function.update m.ptr h (some v) j).map Value.c) _ _ _
        rw [countOf_update]
        exact hs.exact.copied (k := k) (by simp [Mem.countOf, hn]) (by simp [Mem.countOf, hv]) rfl
      · refine same_update hs.same fun w hw => ?_
        cases hw
        exact hs.same k v hv
    · cases hm

theorem Sound.swap (hs : Sound m client) (hm : m.swap h k = some m') : Sound m' client := by
  rw [Mem.swap] at hm
  split at hm
  · cases hm
    have hptr : Function.update (Function.update m.ptr h (m.ptr k)) k (m.ptr h) =
        m.ptr ∘ Equiv.swap h k := by
      funext j
      by_cases hk : j = k
      · simp [hk]
      · by_cases hh : j = h
        · subst hh
          simp [hk]
        · simp [hk, hh, Equiv.swap_apply_of_ne_of_ne hh hk]
    refine ⟨?_, ?_, hs.inj, hs.range, hs.total, hs.together, hs.unborn⟩
    · simp only [hptr]
      exact hs.exact.perm (Equiv.swap h k)
    · intro j w hw
      simp only [hptr] at hw
      exact hs.same _ w hw
  · cases hm

/-- What a destructor deletes. -/
theorem count_deleted {m : Mem} {v : Value} {n : ℕ} (d : Deleted) :
    List.count d (if n = 0 then m.deleted ++ [.redisClient v.p, .sharedCount v.c] else m.deleted) =
      m.deletes d + if n = 0 ∧ (d = .redisClient v.p ∨ d = .sharedCount v.c) then 1 else 0 := by
  by_cases hn : n = 0
  · cases d with
    | redisClient p =>
      by_cases hp : p = v.p
      · simp [Mem.deletes, hn, hp]
      · simp [Mem.deletes, hn, hp, Ne.symm hp]
    | sharedCount c =>
      by_cases hc : c = v.c
      · simp [Mem.deletes, hn, hc]
      · simp [Mem.deletes, hn, hc, Ne.symm hc]
  · simp [Mem.deletes, hn]

theorem Sound.destroy (hs : Sound m client) (hm : m.destroy h = some m') : Sound m' client := by
  rw [Mem.destroy] at hm
  split at hm
  · cases hm
  · next v hv =>
    cases hm
    have hc : m.countOf h = some v.c := by simp [Mem.countOf, hv]
    have hp : v.p = client v.c := hs.same h v hv
    refine ⟨?_, ?_, hs.inj, hs.range, hs.total, ?_, ?_⟩
    · show Exact (fun j => (Function.update m.ptr h none j).map Value.c) _ _ _
      rw [countOf_update]
      refine hs.exact.destroyed hc rfl fun c => ?_
      rw [Mem.deletes, count_deleted]
      simp [and_comm]
    · exact same_update hs.same fun w hw => by cases hw
    · intro c p hcp
      -- the `RedisClient` of `c` goes exactly when `c` does
      have hiff : some p = v.p ↔ c = v.c := by
        rw [hp]
        constructor
        · intro h'
          exact hs.inj c v.c p hcp h'.symm
        · rintro rfl
          exact hcp.symm
      rw [Mem.deletes, Mem.deletes, count_deleted, count_deleted, hs.together c p hcp]
      simp [hiff]
    · intro p hnone
      have hne : some p ≠ v.p := by
        rw [hp]
        exact fun h' => hnone v.c h'.symm
      rw [Mem.deletes, count_deleted, hs.unborn p hnone]
      simp [hne]

/-- The counters are right for some assignment of `RedisClient`s to `SharedCount`s. -/
def Kept (m : Mem) : Prop := ∃ client, Sound m client

theorem Kept.null (hs : Kept m) (hm : m.construct h none = some m') : Kept m' :=
  hs.elim fun _ hc => ⟨_, hc.null hm⟩

theorem Kept.new (hs : Kept m) (hm : m.constructNew h = some m') : Kept m' :=
  hs.elim fun _ hc => ⟨_, hc.new hm⟩

theorem Kept.copy (hs : Kept m) (hm : m.copy h k = some m') : Kept m' :=
  hs.elim fun _ hc => ⟨_, hc.copy hm⟩

theorem Kept.swap (hs : Kept m) (hm : m.swap h k = some m') : Kept m' :=
  hs.elim fun _ hc => ⟨_, hc.swap hm⟩

theorem Kept.destroy (hs : Kept m) (hm : m.destroy h = some m') : Kept m' :=
  hs.elim fun _ hc => ⟨_, hc.destroy hm⟩

theorem Kept.assign (hs : Kept m) (hm : m.assign h k = some m') : Kept m' := by
  obtain ⟨m₁, h₁, hm⟩ := Option.bind_eq_some_iff.mp hm
  obtain ⟨m₂, h₂, h₃⟩ := Option.bind_eq_some_iff.mp hm
  exact ((hs.copy h₁).swap h₂).destroy h₃

theorem Kept.findInst {x : ℕ} {db : Bytes} (hs : Kept m) (hm : m.findInst x db = some m') :
    Kept m' := by
  rw [Mem.findInst] at hm
  split at hm
  · exact hs.copy hm
  · exact hs.null hm

theorem Kept.createInst {x : ℕ} {db : Bytes} {constructed : Bool} (hs : Kept m)
    (hm : m.createInst x db constructed = some m') : Kept m' := by
  rw [Mem.createInst] at hm
  split at hm
  · exact hs.copy hm
  · split at hm
    · obtain ⟨m₁, h₁, hm⟩ := Option.bind_eq_some_iff.mp hm
      obtain ⟨m₂, h₂, hm⟩ := Option.bind_eq_some_iff.mp hm
      obtain ⟨m₃, h₃, hm⟩ := Option.bind_eq_some_iff.mp hm
      obtain ⟨m₄, h₄, h₅⟩ := Option.bind_eq_some_iff.mp hm
      exact ((((hs.new h₁).null h₂).assign h₃).copy h₄).destroy h₅
    · exact hs.null hm

theorem Kept.deleteInst {db : Bytes} (hs : Kept m) (hm : m.deleteInst db = some m') :
    Kept m' := by
  rw [Mem.deleteInst] at hm
  split at hm
  · exact hs.destroy hm
  · cases hm
    exact hs

theorem Kept.step {o : Op} (hs : Kept m) (hm : step m o = some m') : Kept m' := by
  cases o with
  | null x => exact hs.null hm
  | new x => exact hs.new hm
  | copy x y => exact hs.copy hm
  | assign x y => exact hs.assign hm
  | swap x y => exact hs.swap hm
  | destroy x => exact hs.destroy hm
  | findInst x db => exact hs.findInst hm
  | createInst x db constructed => exact hs.createInst hm
  | deleteInst db => exact hs.deleteInst hm

theorem kept_invariant : pointers.Invariant Kept := by
  refine Lts.invariant_of_inductive ?_ fun m o m' hs hm => hs.step hm
  rintro m rfl
  exact ⟨_, .empty⟩

/-! ## Deletion -/

/-- The `RedisClient` of a pointer is that of its `SharedCount`. -/
theorem Sound.clientOf_iff (hs : Sound m client) {c p : ℕ} (hc : client c = some p) :
    m.clientOf h = some p ↔ m.countOf h = some c := by
  cases hv : m.ptr h with
  | none => simp [Mem.clientOf, Mem.countOf, hv]
  | some v =>
    have hp : v.p = client v.c := hs.same h v hv
    simp only [Mem.clientOf, Mem.countOf, hv, Option.bind_some, Option.map_some, hp,
      Option.some.injEq]
    constructor
    · intro h'
      exact hs.inj v.c c p h' hc
    · rintro rfl
      exact hc

theorem Kept.count_life (hs : Kept m) :
    Life m.countOf m.counts fun c => m.deletes (.sharedCount c) :=
  hs.elim fun _ hc => hc.exact.life

theorem Kept.client_life (hs : Kept m) :
    Life m.clientOf m.clients fun p => m.deletes (.redisClient (some p)) := by
  obtain ⟨client, hs⟩ := hs
  refine ⟨fun p hp => ?_, fun p hp => ?_⟩
  · obtain ⟨c, hc⟩ := hs.total p hp
    have hlife := hs.exact.life.live c (hs.range c p hc).1
    simp only [ne_eq, hs.clientOf_iff hc, hs.together c p hc]
    exact hlife
  · have hnone : ∀ c, client c ≠ some p := fun c hc => absurd (hs.range c p hc).2 (by omega)
    refine ⟨fun h hh => ?_, hs.unborn p hnone⟩
    obtain ⟨v, hv, hvp⟩ := Option.bind_eq_some_iff.mp hh
    exact hnone v.c (by rw [← hs.same h v hv, hvp])

/-- What the pointers promise. -/
structure CountedOnce (m : Mem) : Prop where
  /-- each `SharedCount` is the number of its pointers -/
  counted : Counted m.countOf m.count
  /-- which have the same `RedisClient` -/
  same : ∀ h k v w, m.ptr h = some v → m.ptr k = some w → v.c = w.c → v.p = w.p
  /-- `SharedCount`s and `RedisClient`s are deleted once, without pointers to them -/
  counts : Life m.countOf m.counts fun c => m.deletes (.sharedCount c)
  clients : Life m.clientOf m.clients fun p => m.deletes (.redisClient (some p))
  /-- by the operation that takes the last pointer away -/
  count_moment : ∀ o m', step m o = some m' → ∀ c, c < m'.counts →
    (m'.deletes (.sharedCount c) = m.deletes (.sharedCount c) + 1 ↔
      (m.counts ≤ c ∨ ∃ h, m.countOf h = some c) ∧ ∀ h, m'.countOf h ≠ some c)
  client_moment : ∀ o m', step m o = some m' → ∀ p, p < m'.clients →
    (m'.deletes (.redisClient (some p)) = m.deletes (.redisClient (some p)) + 1 ↔
      (m.clients ≤ p ∨ ∃ h, m.clientOf h = some p) ∧ ∀ h, m'.clientOf h ≠ some p)

/-- After any operations on any pointers, those in `instMap` included. -/
theorem pointers_counted (m : Mem) (hm : pointers.Reachable m) : CountedOnce m := by
  have hk : Kept m := kept_invariant m hm
  refine ⟨hk.elim fun _ hs => hs.exact.counted, ?_, hk.count_life, hk.client_life, ?_, ?_⟩
  · intro h k v w hv hw hvw
    obtain ⟨client, hs⟩ := hk
    rw [hs.same h v hv, hs.same k w hw, hvw]
  · intro o m' hstep c hc
    exact hk.count_life.moment (hk.step hstep).count_life hc
  · intro o m' hstep p hp
    exact hk.client_life.moment (hk.step hstep).client_life hp

/-- An entry of `instMap` is made, copied, erased and outlived. -/
def outlived : List Op :=
  [.createInst 0 [109] true, .findInst 1 [109], .deleteInst [109], .assign 0 0, .destroy 0,
    .null 2, .assign 1 2]

theorem pointers_counted_outlived :
    ∃ m, pointers.run .empty outlived = some m ∧ CountedOnce m ∧
      m.deleted = [.redisClient none, .sharedCount 1, .redisClient (some 0), .sharedCount 0] := by
  obtain ⟨m, hrun, hdel⟩ : ∃ m, pointers.run .empty outlived = some m ∧
      m.deleted = [.redisClient none, .sharedCount 1, .redisClient (some 0), .sharedCount 0] :=
    ⟨_, rfl, rfl⟩
  exact ⟨m, hrun, pointers_counted m ((Lts.Reachable.init rfl).run hrun), hdel⟩

/-! ## What the operations need -/

/-- The operands: what is constructed is not alive, what is used is. -/
def Op.Ready (m : Mem) : Op → Prop
  | .null x | .new x | .findInst x _ | .createInst x _ _ => m.ptr (.var x) = none
  | .copy x y => m.ptr (.var x) = none ∧ m.ptr (.var y) ≠ none
  | .assign x y | .swap x y => m.ptr (.var x) ≠ none ∧ m.ptr (.var y) ≠ none
  | .destroy x => m.ptr (.var x) ≠ none
  | .deleteInst _ => True

/-- No function is running. -/
structure Quiet (m : Mem) : Prop where
  other : m.ptr .other = none
  c : m.ptr .c = none

/-- The pointers after a construction. -/
theorem construct_ptr {q : Option ℕ} (hh : m.ptr h = none) :
    ∃ m', m.construct h q = some m' ∧
      m'.ptr = Function.update m.ptr h (some ⟨q, m.counts⟩) :=
  ⟨_, if_pos hh, rfl⟩

theorem copy_ptr {v : Value} (hh : m.ptr h = none) (hk : m.ptr k = some v) :
    ∃ m', m.copy h k = some m' ∧ m'.ptr = Function.update m.ptr h (some v) := by
  simp [Mem.copy, hh, hk]

theorem swap_ptr (hh : m.ptr h ≠ none) (hk : m.ptr k ≠ none) :
    ∃ m', m.swap h k = some m' ∧
      m'.ptr = Function.update (Function.update m.ptr h (m.ptr k)) k (m.ptr h) :=
  ⟨_, if_pos ⟨hh, hk⟩, rfl⟩

theorem destroy_ptr (hh : m.ptr h ≠ none) :
    ∃ m', m.destroy h = some m' ∧ m'.ptr = Function.update m.ptr h none := by
  obtain ⟨v, hv⟩ := Option.ne_none_iff_exists'.mp hh
  simp [Mem.destroy, hv]

/-- An assignment copies the pointer; the argument is gone again. -/
theorem assign_ptr {v : Value} (hh : m.ptr h ≠ none) (hk : m.ptr k = some v)
    (ho : m.ptr .other = none) :
    ∃ m', m.assign h k = some m' ∧ m'.ptr = Function.update m.ptr h (some v) := by
  have hne : h ≠ .other := by
    rintro rfl
    exact hh ho
  obtain ⟨m₁, h₁, hp₁⟩ := copy_ptr ho hk
  obtain ⟨m₂, h₂, hp₂⟩ := swap_ptr (m := m₁) (h := h) (k := .other) (by simpa [hp₁, hne] using hh)
    (by simp [hp₁])
  obtain ⟨m₃, h₃, hp₃⟩ := destroy_ptr (m := m₂) (h := .other) (by simpa [hp₂, hp₁, hne] using hh)
  refine ⟨m₃, ?_, ?_⟩
  · simp [Mem.assign, h₁, h₂, h₃]
  · rw [hp₃, hp₂, hp₁]
    funext j
    by_cases hj : j = .other
    · simp [hj, Ne.symm hne, ho]
    · by_cases hjh : j = h
      · simp [hjh, hne]
      · simp [hj, hjh]

/-- A new `RedisClient` has two pointers: the entry of `instMap`, and what is returned. -/
theorem createInst_ptr {x : ℕ} {db : Bytes} (hq : Quiet m) (hx : m.ptr (.var x) = none)
    (hdb : m.ptr (.inst db) = none) :
    ∃ m', m.createInst x db true = some m' ∧ ∃ v : Value, v.p = some m.clients ∧
      m'.ptr = Function.update (Function.update m.ptr (.inst db) (some v)) (.var x) (some v) := by
  obtain ⟨m₁, h₁, hp₁⟩ := construct_ptr (m := { m with clients := m.clients + 1 }) (h := .c)
    (q := some m.clients) hq.c
  obtain ⟨m₂, h₂, hp₂⟩ := construct_ptr (m := m₁) (h := .inst db) (q := none)
    (by simp [hp₁, hdb])
  obtain ⟨m₃, h₃, hp₃⟩ := assign_ptr (m := m₂) (h := .inst db) (k := .c)
    (v := ⟨some m.clients, m.counts⟩) (by simp [hp₂]) (by simp [hp₂, hp₁])
    (by simp [hp₂, hp₁, hq.other])
  obtain ⟨m₄, h₄, hp₄⟩ := copy_ptr (m := m₃) (h := .var x) (k := .c)
    (v := ⟨some m.clients, m.counts⟩) (by simp [hp₃, hp₂, hp₁, hx]) (by simp [hp₃, hp₂, hp₁])
  obtain ⟨m₅, h₅, hp₅⟩ := destroy_ptr (m := m₄) (h := .c) (by simp [hp₄, hp₃, hp₂, hp₁])
  refine ⟨m₅, ?_, ⟨some m.clients, m.counts⟩, rfl, ?_⟩
  · simp [Mem.createInst, hdb, Mem.constructNew, h₁, h₂, h₃, h₄, h₅]
  · rw [hp₅, hp₄, hp₃, hp₂, hp₁]
    funext j
    by_cases hj : j = .c
    · simp [hj, hq.c]
    · by_cases hx' : j = .var x
      · simp [hx']
      · by_cases hi : j = .inst db
        · simp [hi]
        · simp [hj, hx', hi]

/-! ### The places of a call -/

variable {j : Holder}

theorem construct_frame {q : Option ℕ} (hm : m.construct h q = some m') (hj : j ≠ h) :
    m'.ptr j = m.ptr j := by
  rw [Mem.construct] at hm
  split at hm <;> cases hm
  exact Function.update_of_ne hj _ _

theorem copy_frame (hm : m.copy h k = some m') (hj : j ≠ h) : m'.ptr j = m.ptr j := by
  rw [Mem.copy] at hm
  split at hm
  · cases hm
  · split at hm <;> cases hm
    exact Function.update_of_ne hj _ _

theorem swap_frame (hm : m.swap h k = some m') (hj : j ≠ h) (hjk : j ≠ k) :
    m'.ptr j = m.ptr j := by
  rw [Mem.swap] at hm
  split at hm <;> cases hm
  show Function.update _ k _ j = _
  rw [Function.update_of_ne hjk, Function.update_of_ne hj]

theorem destroy_frame (hm : m.destroy h = some m') (hj : j ≠ h) : m'.ptr j = m.ptr j := by
  rw [Mem.destroy] at hm
  split at hm <;> cases hm
  exact Function.update_of_ne hj _ _

theorem destroy_self (hm : m.destroy h = some m') : m'.ptr h = none := by
  rw [Mem.destroy] at hm
  split at hm <;> cases hm
  exact Function.update_self _ _ _

/-- The argument of an assignment goes when it returns. -/
theorem assign_other (hm : m.assign h k = some m') : m'.ptr .other = none := by
  obtain ⟨m₁, -, hm⟩ := Option.bind_eq_some_iff.mp hm
  obtain ⟨m₂, -, h₃⟩ := Option.bind_eq_some_iff.mp hm
  exact destroy_self h₃

theorem assign_frame (hm : m.assign h k = some m') (hj : j ≠ h) (ho : j ≠ .other) :
    m'.ptr j = m.ptr j := by
  obtain ⟨m₁, h₁, hm⟩ := Option.bind_eq_some_iff.mp hm
  obtain ⟨m₂, h₂, h₃⟩ := Option.bind_eq_some_iff.mp hm
  rw [destroy_frame h₃ ho, swap_frame h₂ hj ho, copy_frame h₁ ho]

theorem local_ne_var (hj : j = .other ∨ j = .c) (x : ℕ) : j ≠ .var x := by
  rcases hj with rfl | rfl <;> simp

theorem local_ne_inst (hj : j = .other ∨ j = .c) (db : Bytes) : j ≠ .inst db := by
  rcases hj with rfl | rfl <;> simp

/-- A function that touches neither place. -/
theorem Quiet.frame (hq : Quiet m) (hf : ∀ j, j = .other ∨ j = .c → m'.ptr j = m.ptr j) :
    Quiet m' :=
  ⟨by rw [hf .other (.inl rfl), hq.other], by rw [hf .c (.inr rfl), hq.c]⟩

theorem Quiet.createInst {x : ℕ} {db : Bytes} {constructed : Bool} (hq : Quiet m)
    (hm : m.createInst x db constructed = some m') : Quiet m' := by
  rw [Mem.createInst] at hm
  split at hm
  · exact hq.frame fun j hj => copy_frame hm (local_ne_var hj _)
  · split at hm
    · obtain ⟨m₁, h₁, hm⟩ := Option.bind_eq_some_iff.mp hm
      obtain ⟨m₂, h₂, hm⟩ := Option.bind_eq_some_iff.mp hm
      obtain ⟨m₃, h₃, hm⟩ := Option.bind_eq_some_iff.mp hm
      obtain ⟨m₄, h₄, h₅⟩ := Option.bind_eq_some_iff.mp hm
      refine ⟨?_, destroy_self h₅⟩
      rw [destroy_frame h₅ (by simp), copy_frame h₄ (by simp), assign_other h₃]
    · exact hq.frame fun j hj => construct_frame hm (local_ne_var hj _)

theorem Quiet.step {o : Op} (hq : Quiet m) (hm : step m o = some m') : Quiet m' := by
  cases o with
  | null x => exact hq.frame fun j hj => construct_frame hm (local_ne_var hj _)
  | new x =>
    refine hq.frame fun j hj => ?_
    exact construct_frame (m := { m with clients := m.clients + 1 }) hm (local_ne_var hj x)
  | copy x y => exact hq.frame fun j hj => copy_frame hm (local_ne_var hj _)
  | assign x y =>
    refine ⟨assign_other hm, ?_⟩
    rw [assign_frame hm (by simp) (by simp), hq.c]
  | swap x y =>
    exact hq.frame fun j hj => swap_frame hm (local_ne_var hj x) (local_ne_var hj y)
  | destroy x => exact hq.frame fun j hj => destroy_frame hm (local_ne_var hj _)
  | findInst x db =>
    simp only [ClientPtr.step, Mem.findInst] at hm
    split at hm
    · exact hq.frame fun j hj => copy_frame hm (local_ne_var hj _)
    · exact hq.frame fun j hj => construct_frame hm (local_ne_var hj _)
  | createInst x db constructed => exact hq.createInst hm
  | deleteInst db =>
    simp only [ClientPtr.step, Mem.deleteInst] at hm
    split at hm
    · exact hq.frame fun j hj => destroy_frame hm (local_ne_inst hj db)
    · cases hm
      exact hq

theorem quiet_invariant : pointers.Invariant Quiet := by
  refine Lts.invariant_of_inductive ?_ fun m o m' hq hm => hq.step hm
  rintro m rfl
  exact ⟨rfl, rfl⟩

/-- Between the operations of any run, each operation can be done whose operands are
    alive as it needs them. -/
theorem operands_suffice (m : Mem) (hm : pointers.Reachable m) (o : Op) (ho : o.Ready m) :
    ∃ m', step m o = some m' := by
  have hq : Quiet m := quiet_invariant m hm
  cases o with
  | null x => exact (construct_ptr ho).imp fun _ h => h.1
  | new x =>
    exact (construct_ptr (m := { m with clients := m.clients + 1 }) ho).imp fun _ h => h.1
  | copy x y =>
    obtain ⟨v, hv⟩ := Option.ne_none_iff_exists'.mp ho.2
    exact (copy_ptr ho.1 hv).imp fun _ h => h.1
  | assign x y =>
    obtain ⟨v, hv⟩ := Option.ne_none_iff_exists'.mp ho.2
    exact (assign_ptr ho.1 hv hq.other).imp fun _ h => h.1
  | swap x y => exact (swap_ptr ho.1 ho.2).imp fun _ h => h.1
  | destroy x => exact (destroy_ptr ho).imp fun _ h => h.1
  | findInst x db =>
    simp only [ClientPtr.step, Mem.findInst]
    split
    · next hdb =>
      obtain ⟨v, hv⟩ := Option.ne_none_iff_exists'.mp hdb
      exact (copy_ptr ho hv).imp fun _ h => h.1
    · exact (construct_ptr ho).imp fun _ h => h.1
  | createInst x db constructed =>
    by_cases hdb : m.ptr (.inst db) = none
    · cases constructed with
      | true => exact (createInst_ptr hq ho hdb).imp fun _ h => h.1
      | false =>
        simp only [ClientPtr.step, Mem.createInst, hdb, ne_eq, not_true_eq_false, if_false]
        exact (construct_ptr ho).imp fun _ h => h.1
    · obtain ⟨v, hv⟩ := Option.ne_none_iff_exists'.mp hdb
      simp only [ClientPtr.step, Mem.createInst, ne_eq, hdb, not_false_eq_true, if_true]
      exact (copy_ptr ho hv).imp fun _ h => h.1
  | deleteInst db =>
    simp only [ClientPtr.step, Mem.deleteInst]
    split
    · next hdb => exact (destroy_ptr hdb).imp fun _ h => h.1
    · exact ⟨m, rfl⟩

end Hiredispool.ClientPtr
