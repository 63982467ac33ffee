import Hiredispool.Lib.Handles
import Hiredispool.Lib.Lts
import Mathlib.Data.List.Count
import Mathlib.Logic.Equiv.Basic

/-!
# Who owns a reply

`RedisReplyPtr` is a smart pointer in the manner of `auto_ptr`: copying and
assigning take the reply out of the source, and a `RedisReplyRef`, which has no
destructor, carries it from a temporary into a pointer. The class is the same in
the root's `RedisClient.h` and in the experimental client, where it manages a
`RedisReplyPack` that has the reply.

* `replies_owned_once`: whatever is done with any number of pointers, a reply has
  one owner until `freeReplyObject` is called for it, once.
* `redisCommand_hands_over`: the reply of a command reaches the caller's pointer.
-/

namespace Hiredispool.ReplyPtr

open Handles

/-! ## The objects -/

/-- What the pointers manage: a `redisReply` (`RedisClient.h`) or a
    `RedisReplyPack`, whose `reply` may be NULL (experimental `RedisClient.h`,
    lines 59–69). The reply of a pack bears the number of the pack. -/
inductive Managed
  | redisReply
  | redisReplyPack (reply : ℕ → Bool)

/-- The object has a reply. -/
def Managed.hasReply : Managed → ℕ → Bool
  | .redisReply, _ => true
  | .redisReplyPack reply, k => reply k

/-- The calls of `freeReplyObject` by `~RedisReplyPtr()`: for `p` (lines 62–65), or
    by `delete p` for `p->reply` (experimental, lines 65 and 82–85). -/
def Managed.dtor : Managed → Option ℕ → List (Option ℕ)
  | .redisReply, p => [p]
  | .redisReplyPack _, none => []
  | .redisReplyPack reply, some k => [if reply k then some k else none]

structure Mem where
  /-- the `RedisReplyPtr` objects that are alive, with their `p` -/
  ptr : ℕ → Option (Option ℕ)
  /-- the `RedisReplyRef`s that wait to be consumed, with their `p` -/
  ref : ℕ → Option (Option ℕ)
  /-- what `release` has returned to the caller, NULL aside -/
  given : List ℕ
  /-- the number of objects that constructors have received -/
  created : ℕ
  /-- the `p` of each destructor that has run -/
  destroyed : List (Option ℕ)

namespace Mem

/-- The member `p` of a pointer is set. -/
def setP (m : Mem) (x : ℕ) (p : Option ℕ) : Mem :=
  { m with ptr := Function.update m.ptr x (some p) }

/-- A `RedisReplyRef` is made, or consumed. -/
def setRef (m : Mem) (r : ℕ) (v : Option (Option ℕ)) : Mem :=
  { m with ref := Function.update m.ref r v }

/-- `~RedisReplyPtr()` runs on an object with the member `p`. -/
def dtor (m : Mem) (p : Option ℕ) : Mem := { m with destroyed := m.destroyed ++ [p] }

/-- `RedisReplyPtr(_p)` for a fresh object, or for NULL (line 61). -/
def construct (m : Mem) (x : ℕ) (fresh : Bool) : Mem :=
  if fresh then { m with created := m.created + 1 }.setP x (some m.created) else m.setP x none

/-- `release()` (lines 68–72). -/
def release (m : Mem) (x : ℕ) : Option ℕ × Mem := ((m.ptr x).join, m.setP x none)

/-- `RedisReplyPtr(RedisReplyPtr& other)` (lines 75–77). -/
def copy (m : Mem) (x other : ℕ) : Mem :=
  let (p, m) := m.release other
  m.setP x p

/-- `operator=(RedisReplyPtr& other)` (lines 78–84); `temp` is destroyed on return. -/
def assign (m : Mem) (x other : ℕ) : Mem :=
  if x = other then m
  else
    let (temp, m) := m.release x
    let (p, m) := m.release other
    (m.setP x p).dtor temp

/-- `operator RedisReplyRef()` (line 97). -/
def toRef (m : Mem) (r x : ℕ) : Mem :=
  let (p, m) := m.release x
  m.setRef r (some p)

/-- `RedisReplyPtr(RedisReplyRef _ref)` (lines 87–89). -/
def ofRef (m : Mem) (x r : ℕ) : Mem := (m.setP x (m.ref r).join).setRef r none

/-- `operator=(RedisReplyRef _ref)` (lines 90–96). -/
def assignRef (m : Mem) (x r : ℕ) : Mem :=
  let p := (m.ref r).join
  if (m.ptr x).join = p then m.setRef r none
  else
    let (temp, m) := m.release x
    ((m.setP x p).setRef r none).dtor temp

/-- `release()` called by the user, who keeps what it returns. -/
def give (m : Mem) (x : ℕ) : Mem :=
  let (p, m) := m.release x
  { m with given := m.given ++ p.toList }

/-- The end of a pointer's lifetime. -/
def destroy (m : Mem) (x : ℕ) : Mem :=
  { m with ptr := Function.update m.ptr x none }.dtor (m.ptr x).join

/-- The arguments of the calls of `freeReplyObject` so far. -/
def freed (m : Mem) (v : Managed) : List (Option ℕ) := m.destroyed.flatMap v.dtor

end Mem

inductive Op
  | construct (x : ℕ) (fresh : Bool)
  | copy (x other : ℕ)
  | assign (x other : ℕ)
  | toRef (r x : ℕ)
  | ofRef (x r : ℕ)
  | assignRef (x r : ℕ)
  | release (x : ℕ)
  | destroy (x : ℕ)

/-- One operation: it constructs an object that is not alive, or uses objects that
    are, and consumes a `RedisReplyRef` that is still waiting. -/
def step (m : Mem) : Op → Option Mem
  | .construct x fresh => if m.ptr x = none then some (m.construct x fresh) else none
  | .copy x other =>
    if m.ptr x = none ∧ m.ptr other ≠ none then some (m.copy x other) else none
  | .assign x other =>
    if m.ptr x ≠ none ∧ m.ptr other ≠ none then some (m.assign x other) else none
  | .toRef r x => if m.ref r = none ∧ m.ptr x ≠ none then some (m.toRef r x) else none
  | .ofRef x r => if m.ptr x = none ∧ m.ref r ≠ none then some (m.ofRef x r) else none
  | .assignRef x r => if m.ptr x ≠ none ∧ m.ref r ≠ none then some (m.assignRef x r) else none
  | .release x => if m.ptr x ≠ none then some (m.give x) else none
  | .destroy x => if m.ptr x ≠ none then some (m.destroy x) else none

/-- The memory before the first operation. -/
def Mem.empty : Mem := ⟨fun _ => none, fun _ => none, [], 0, []⟩

/-- Any operations, in any order. -/
def pointers : Lts Mem Op where
  init m := m = Mem.empty
  step := step

/-! ## Owners -/

/-- Who can own a reply. -/
inductive Owner
  | ptr (x : ℕ)
  | ref (r : ℕ)
  /-- the caller, who has got it by the `i`-th `release` that returned one -/
  | caller (i : ℕ)
deriving DecidableEq

/-- What an owner has. -/
def Mem.slot (m : Mem) : Owner → Option ℕ
  | .ptr x => (m.ptr x).join
  | .ref r => (m.ref r).join
  | .caller i => m.given[i]?

/-- From which owner to which one an operation takes what there is. -/
def Op.transfer (m : Mem) : Op → Option (Owner × Owner)
  | .copy x other => some (.ptr other, .ptr x)
  | .assign x other => if x = other then none else some (.ptr other, .ptr x)
  | .toRef r x => some (.ptr x, .ref r)
  | .ofRef x r => some (.ref r, .ptr x)
  | .assignRef x r => some (.ref r, .ptr x)
  | .release x => some (.ptr x, .caller m.given.length)
  | .construct _ _ | .destroy _ => none

/-- How often a pointer to `k` has been destroyed. -/
def Mem.frees (m : Mem) (k : ℕ) : ℕ := m.destroyed.count (some k)

section Slot

variable (m : Mem)

@[simp] theorem slot_setP (x : ℕ) (p : Option ℕ) :
    (m.setP x p).slot = Function.update m.slot (.ptr x) p := by
  funext o
  cases o with
  | ptr y => by_cases hy : y = x <;> simp [Mem.slot, Mem.setP, hy]
  | ref r => simp [Mem.slot, Mem.setP]
  | caller i => simp [Mem.slot, Mem.setP]

@[simp] theorem slot_setRef (r : ℕ) (v : Option (Option ℕ)) :
    (m.setRef r v).slot = Function.update m.slot (.ref r) v.join := by
  funext o
  cases o with
  | ptr y => simp [Mem.slot, Mem.setRef]
  | ref q => by_cases hq : q = r <;> simp [Mem.slot, Mem.setRef, hq]
  | caller i => simp [Mem.slot, Mem.setRef]

@[simp] theorem slot_dtor (p : Option ℕ) : (m.dtor p).slot = m.slot := by
  funext o
  cases o <;> rfl

theorem slot_destroy (x : ℕ) : (m.destroy x).slot = Function.update m.slot (.ptr x) none := by
  rw [Mem.destroy, slot_dtor]
  funext o
  cases o with
  | ptr y => by_cases hy : y = x <;> simp [Mem.slot, hy]
  | ref r => simp [Mem.slot]
  | caller i => simp [Mem.slot]

/-- What `release` returns becomes the caller's last acquisition. -/
theorem slot_give (x : ℕ) :
    (m.give x).slot = Function.update (Function.update m.slot (.ptr x) none)
      (.caller m.given.length) (m.slot (.ptr x)) := by
  funext o
  cases o with
  | ptr y => by_cases hy : y = x <;> simp [Mem.give, Mem.release, Mem.slot, Mem.setP, hy]
  | ref r => simp [Mem.give, Mem.release, Mem.slot, Mem.setP]
  | caller i =>
    have hend : ∀ p : Option ℕ, (m.given ++ p.toList)[i]? =
        if i = m.given.length then p else m.given[i]? := by
      intro p
      cases p with
      | none =>
        simp only [Option.toList_none, List.append_nil]
        split
        · next hi => rw [hi, List.getElem?_eq_none (Nat.le_refl _)]
        · rfl
      | some k => rw [Option.toList_some, List.getElem?_append]; grind
    show (m.given ++ ((m.ptr x).join).toList)[i]? = _
    rw [hend]
    by_cases hi : i = m.given.length
    · simp [Mem.slot, hi]
    · simp [Mem.slot, hi]

end Slot

/-! ## What an operation does to the owners -/

/-- A reply goes from an owner to another one that has none. -/
theorem move_eq {slot : Owner → Option ℕ} {a b : Owner} (ha : slot a = none) :
    Function.update (Function.update slot b none) a (slot b) = slot ∘ Equiv.swap a b := by
  funext o
  by_cases hoa : o = a
  · simp [hoa]
  · by_cases hob : o = b
    · subst hob
      simp [hoa, ha]
    · simp [hoa, hob, Equiv.swap_apply_of_ne_of_ne hoa hob]

/-- The operations as changes of ownership. -/
inductive Effect (m m' : Mem) : Prop
  | create (o : Owner) : m.slot o = none → m'.slot = Function.update m.slot o (some m.created) →
      m'.created = m.created + 1 → m'.destroyed = m.destroyed → Effect m m'
  | move (e : Equiv.Perm Owner) : m'.slot = m.slot ∘ e → m'.created = m.created →
      m'.destroyed = m.destroyed → Effect m m'
  | drop (o : Owner) (e : Equiv.Perm Owner) : m'.slot = Function.update m.slot o none ∘ e →
      m'.created = m.created → m'.destroyed = m.destroyed ++ [m.slot o] → Effect m m'

/-- Every reply that has not been freed has one owner, and none is freed twice. -/
structure Sound (m : Mem) : Prop where
  table : Owned m.slot m.created m.frees fun _ => False
  future : ∀ k, m.created ≤ k → m.frees k = 0

variable {m m' : Mem} {x r other : ℕ}

/-- An owner that is not there has no reply. -/
theorem slot_ptr (hx : m.ptr x = none) : m.slot (.ptr x) = none := by simp [Mem.slot, hx]

theorem slot_ref (hr : m.ref r = none) : m.slot (.ref r) = none := by simp [Mem.slot, hr]

theorem construct_effect (hx : m.ptr x = none) (fresh : Bool) : Effect m (m.construct x fresh) := by
  have hslot := slot_ptr hx
  cases fresh with
  | true => exact .create (.ptr x) hslot (slot_setP _ _ _) rfl rfl
  | false =>
    refine .move (Equiv.refl _) ?_ rfl rfl
    show (m.setP x none).slot = m.slot
    rw [slot_setP]
    exact Function.update_eq_self_iff.mpr hslot.symm

/-- What `b` has goes to `a`, and everything else stays. -/
theorem transfer_spec {slot slot' : Owner → Option ℕ} {a b : Owner} (hne : a ≠ b)
    (h : slot' = Function.update (Function.update slot b none) a (slot b)) :
    slot' a = slot b ∧ slot' b = none ∧ ∀ o, o ≠ b → o ≠ a → slot' o = slot o := by
  subst h
  refine ⟨Function.update_self _ _ _, ?_, fun o hb ha => ?_⟩
  · rw [Function.update_of_ne hne.symm, Function.update_self]
  · rw [Function.update_of_ne ha, Function.update_of_ne hb]

/-- What `a` had before does not matter. -/
theorem update_overwrite {slot : Owner → Option ℕ} {a b : Owner} (p : Option ℕ) :
    Function.update (Function.update (Function.update slot a none) b none) a p =
      Function.update (Function.update slot b none) a p := by
  funext o
  by_cases hoa : o = a
  · simp [hoa]
  · by_cases hob : o = b
    · subst hob
      simp [hoa]
    · simp [hoa, hob]

theorem copy_slot : (m.copy x other).slot =
    Function.update (Function.update m.slot (.ptr other) none) (.ptr x) (m.slot (.ptr other)) := by
  show ((m.setP other none).setP x _).slot = _
  rw [slot_setP, slot_setP]
  rfl

theorem copy_effect (hx : m.ptr x = none) : Effect m (m.copy x other) := by
  refine .move (Equiv.swap (.ptr x) (.ptr other)) ?_ rfl rfl
  rw [← move_eq (slot_ptr hx)]
  exact copy_slot

theorem assign_slot (hne : x ≠ other) : (m.assign x other).slot =
    Function.update (Function.update m.slot (.ptr other) none) (.ptr x) (m.slot (.ptr other)) := by
  have hother : ((m.setP x none).ptr other).join = m.slot (.ptr other) := by
    simp [Mem.slot, Mem.setP, Ne.symm hne]
  simp only [Mem.assign, if_neg hne, Mem.release, slot_dtor, slot_setP, hother, update_overwrite]

/-- The previous reply goes with `temp`, and the source's takes its place. -/
theorem assign_effect (hne : x ≠ other) : Effect m (m.assign x other) := by
  refine .drop (.ptr x) (Equiv.swap (.ptr x) (.ptr other)) ?_ ?_ ?_
  · have hother : Function.update m.slot (.ptr x) none (.ptr other) = m.slot (.ptr other) :=
      Function.update_of_ne (fun h => hne (Owner.ptr.inj h).symm) _ _
    rw [← move_eq (Function.update_self _ _ _), hother, assign_slot hne, update_overwrite]
  · simp [Mem.assign, if_neg hne, Mem.release, Mem.dtor, Mem.setP]
  · simp [Mem.assign, if_neg hne, Mem.release, Mem.dtor, Mem.setP, Mem.slot]

theorem toRef_slot : (m.toRef r x).slot =
    Function.update (Function.update m.slot (.ptr x) none) (.ref r) (m.slot (.ptr x)) := by
  show ((m.setP x none).setRef r _).slot = _
  rw [slot_setRef, slot_setP]
  rfl

theorem toRef_effect (hr : m.ref r = none) : Effect m (m.toRef r x) := by
  refine .move (Equiv.swap (.ref r) (.ptr x)) ?_ rfl rfl
  rw [← move_eq (slot_ref hr)]
  exact toRef_slot

theorem ofRef_slot : (m.ofRef x r).slot =
    Function.update (Function.update m.slot (.ref r) none) (.ptr x) (m.slot (.ref r)) := by
  rw [Function.update_comm (by simp)]
  show ((m.setP x _).setRef r none).slot = _
  rw [slot_setRef, slot_setP]
  rfl

theorem ofRef_effect (hx : m.ptr x = none) : Effect m (m.ofRef x r) := by
  refine .move (Equiv.swap (.ptr x) (.ref r)) ?_ rfl rfl
  rw [← move_eq (slot_ptr hx)]
  exact ofRef_slot

/-- The pointers are equal only if both are NULL: no reply has two owners. -/
theorem Sound.both_null (hm : Sound m) (heq : (m.ptr x).join = (m.ref r).join) :
    m.slot (.ref r) = none := by
  cases hr : m.slot (.ref r) with
  | none => rfl
  | some k =>
    have hx : m.slot (.ptr x) = some k := heq.trans hr
    have hsame := hm.table.inj (.ptr x) (.ref r) k hx hr
    simp at hsame

theorem assignRef_slot (hm : Sound m) : (m.assignRef x r).slot =
    Function.update (Function.update m.slot (.ref r) none) (.ptr x) (m.slot (.ref r)) := by
  by_cases heq : (m.ptr x).join = (m.ref r).join
  · have hnone := hm.both_null heq
    have hx : m.slot (.ptr x) = none := heq.trans hnone
    simp only [Mem.assignRef, if_pos heq, slot_setRef, hnone]
    refine (Function.update_eq_self_iff.mpr ?_).symm
    rw [Function.update_of_ne (by simp), hx]
  · simp only [Mem.assignRef, if_neg heq, Mem.release, slot_dtor, slot_setRef, slot_setP]
    rw [Function.update_idem, Function.update_comm (by simp)]
    rfl

theorem assignRef_effect (hm : Sound m) : Effect m (m.assignRef x r) := by
  by_cases heq : (m.ptr x).join = (m.ref r).join
  · refine .move (Equiv.refl _) ?_ ?_ ?_
    · simp only [Mem.assignRef, if_pos heq, slot_setRef]
      exact Function.update_eq_self_iff.mpr (hm.both_null heq).symm
    · simp [Mem.assignRef, if_pos heq, Mem.setRef]
    · simp [Mem.assignRef, if_pos heq, Mem.setRef]
  · refine .drop (.ptr x) (Equiv.swap (.ptr x) (.ref r)) ?_ ?_ ?_
    · have href : Function.update m.slot (.ptr x) none (.ref r) = m.slot (.ref r) :=
        Function.update_of_ne (by simp) _ _
      rw [← move_eq (Function.update_self _ _ _), href, Function.update_comm (by simp)]
      simp only [Mem.assignRef, if_neg heq, Mem.release, slot_dtor, slot_setRef, slot_setP]
      rfl
    · simp [Mem.assignRef, if_neg heq, Mem.release, Mem.dtor, Mem.setP, Mem.setRef]
    · simp [Mem.assignRef, if_neg heq, Mem.release, Mem.dtor, Mem.setP, Mem.setRef, Mem.slot]

theorem give_effect : Effect m (m.give x) := by
  refine .move (Equiv.swap (.caller m.given.length) (.ptr x)) ?_ rfl rfl
  rw [← move_eq (by simp [Mem.slot])]
  exact slot_give m x

theorem destroy_effect : Effect m (m.destroy x) :=
  .drop (.ptr x) (Equiv.refl _) (slot_destroy m x) rfl rfl

theorem step_effect (hm : Sound m) {o : Op} (h : step m o = some m') : Effect m m' := by
  cases o <;> simp only [step] at h <;> split at h <;> cases h
  case construct.isTrue x fresh hg => exact construct_effect hg fresh
  case copy.isTrue x other hg => exact copy_effect hg.1
  case assign.isTrue x other hg =>
    by_cases hne : x = other
    · rw [Mem.assign, if_pos hne]
      exact .move (Equiv.refl _) rfl rfl rfl
    · exact assign_effect hne
  case toRef.isTrue r x hg => exact toRef_effect hg.1
  case ofRef.isTrue x r hg => exact ofRef_effect hg.1
  case assignRef.isTrue x r hg => exact assignRef_effect hm
  case release.isTrue x hg => exact give_effect
  case destroy.isTrue x hg => exact destroy_effect

theorem Sound.empty : Sound Mem.empty where
  table := (Owned.empty fun _ => 0).congr (fun o => by cases o <;> rfl) rfl (fun _ => rfl) (by simp)
  future k _ := rfl

theorem frees_congr (h : m'.destroyed = m.destroyed) : m'.frees = m.frees := by
  funext k
  rw [Mem.frees, h, Mem.frees]

theorem Sound.effect (hm : Sound m) (h : Effect m m') : Sound m' := by
  cases h with
  | create o ho hslot hn hd =>
    have hfrees := frees_congr hd
    refine ⟨?_, fun k hk => ?_⟩
    · rw [hslot, hn, hfrees]
      exact hm.table.create ho (hm.future _ (Nat.le_refl _))
    · rw [hfrees]
      exact hm.future k (by omega)
  | move e hslot hn hd =>
    have hfrees := frees_congr hd
    refine ⟨?_, fun k hk => ?_⟩
    · rw [hslot, hn, hfrees]
      exact hm.table.perm e
    · rw [hfrees]
      exact hm.future k (by omega)
  | drop o e hslot hn hd =>
    have hfrees : ∀ k, m'.frees k = m.frees k + if m.slot o = some k then 1 else 0 := by
      intro k
      rw [Mem.frees, hd, List.count_append, List.count_singleton, Mem.frees]
      simp
    cases ho : m.slot o with
    | none =>
      have hsame : ∀ k, m'.frees k = m.frees k := by
        intro k
        simp [hfrees k, ho]
      refine ⟨?_, fun k hk => ?_⟩
      · rw [hslot, hn, Function.update_eq_self_iff.mpr ho.symm, funext hsame]
        exact hm.table.perm e
      · rw [hsame]
        exact hm.future k (by omega)
    | some c =>
      have hc : c < m.created := hm.table.lt o c ho
      refine ⟨?_, fun k hk => ?_⟩
      · rw [hslot, hn]
        refine (hm.table.drop ho ?_ ?_).perm e
        · simp [hfrees, ho]
        · intro k hk
          simp [hfrees, ho, Ne.symm hk]
      · have hne : c ≠ k := by omega
        rw [hfrees, ho, if_neg fun h => hne (Option.some.inj h)]
        exact hm.future k (by omega)

theorem sound_invariant : pointers.Invariant Sound := by
  refine Lts.invariant_of_inductive ?_ ?_
  · rintro m rfl
    exact .empty
  · intro m o m' hm h
    exact hm.effect (step_effect hm h)

/-! ## The calls of `freeReplyObject` -/

theorem dtor_count (v : Managed) (p : Option ℕ) (k : ℕ) :
    (v.dtor p).count (some k) = if v.hasReply k then List.count (some k) [p] else 0 := by
  cases v with
  | redisReply => simp [Managed.dtor, Managed.hasReply]
  | redisReplyPack reply =>
    cases p with
    | none => simp [Managed.dtor]
    | some c =>
      by_cases hc : c = k
      · subst hc
        by_cases hr : reply c = true <;> simp [Managed.dtor, Managed.hasReply, hr]
      · by_cases hr : reply c = true <;> simp [Managed.dtor, hr, hc]

/-- A reply is freed as often as a pointer to it is destroyed. -/
theorem freed_count (v : Managed) (m : Mem) (k : ℕ) :
    (m.freed v).count (some k) = if v.hasReply k then m.frees k else 0 := by
  rw [Mem.freed, Mem.frees]
  induction m.destroyed with
  | nil => simp
  | cons p ps ih =>
    rw [List.flatMap_cons, List.count_append, ih, dtor_count]
    split
    · rw [← List.count_append, List.singleton_append]
    · rfl

/-- The replies are owned and freed as they should be. -/
structure OwnedOnce (v : Managed) (m : Mem) : Prop where
  /-- a reply has exactly one owner and has not been freed, or it has none and
      `freeReplyObject` has been called for it once -/
  live : ∀ k, k < m.created → v.hasReply k = true →
    ((∃! o, m.slot o = some k) ∧ (m.freed v).count (some k) = 0) ∨
    ((∀ o, m.slot o ≠ some k) ∧ (m.freed v).count (some k) = 1)
  /-- nothing else is freed -/
  others : ∀ k, ¬ (k < m.created ∧ v.hasReply k = true) → (m.freed v).count (some k) = 0
  /-- at the end the replies not given away have been freed once -/
  finished : (∀ x, m.ptr x = none) → (∀ r, m.ref r = none) →
    ∀ k, k < m.created → v.hasReply k = true →
      (k ∈ m.given ∧ (m.freed v).count (some k) = 0) ∨
      (k ∉ m.given ∧ (m.freed v).count (some k) = 1)
  /-- assigning over a pointer frees its previous reply -/
  assign : ∀ x other m' k, x ≠ other → m.ptr x = some (some k) →
    step m (.assign x other) = some m' → m'.freed v = m.freed v ++ v.dtor (some k)
  assignRef : ∀ x r m' k, m.ptr x = some (some k) →
    step m (.assignRef x r) = some m' → m'.freed v = m.freed v ++ v.dtor (some k)
  /-- copies, assignments, conversions and `release` take the reply from one owner to another -/
  transfer : ∀ op m' src dst, op.transfer m = some (src, dst) → step m op = some m' →
    m'.slot dst = m.slot src ∧ m'.slot src = none ∧
      ∀ o, o ≠ src → o ≠ dst → m'.slot o = m.slot o
  /-- a fresh reply is that of the pointer, and a destroyed pointer has none -/
  construct : ∀ x m', step m (.construct x true) = some m' →
    m'.slot = Function.update m.slot (.ptr x) (some m.created)
  destroy : ∀ x m', step m (.destroy x) = some m' →
    m'.slot = Function.update m.slot (.ptr x) none ∧
      m'.freed v = m.freed v ++ v.dtor (m.slot (.ptr x))
  /-- an assignment to itself does nothing -/
  self : ∀ x m', step m (.assign x x) = some m' → m' = m

/-- A reply has one owner, or it has been freed once. -/
theorem Sound.owned_or_freed (hs : Sound m) (v : Managed) {k : ℕ} (hk : k < m.created)
    (hv : v.hasReply k = true) :
    ((∃! o, m.slot o = some k) ∧ (m.freed v).count (some k) = 0) ∨
      ((∀ o, m.slot o ≠ some k) ∧ (m.freed v).count (some k) = 1) := by
  rw [freed_count, if_pos hv]
  have hle := hs.table.once k hk
  by_cases h0 : m.frees k = 0
  · exact Or.inl ⟨hs.table.unique_owner hk h0, h0⟩
  · exact Or.inr ⟨fun o ho => h0 (hs.table.live o k ho not_false), by omega⟩

/-- When no pointer and no reference is left, only a caller of `release` can own it. -/
theorem given_of_slot (hptr : ∀ x, m.ptr x = none) (href : ∀ r, m.ref r = none) {k : ℕ} {o : Owner}
    (ho : m.slot o = some k) : k ∈ m.given := by
  cases o with
  | ptr x => simp [Mem.slot, hptr] at ho
  | ref r => simp [Mem.slot, href] at ho
  | caller i => exact List.mem_of_getElem? ho

/-- What an operation takes from one owner is the other's. -/
theorem Sound.transfer (hs : Sound m) {op : Op} {src dst : Owner}
    (hop : op.transfer m = some (src, dst)) (h : step m op = some m') :
    m'.slot dst = m.slot src ∧ m'.slot src = none ∧
      ∀ o, o ≠ src → o ≠ dst → m'.slot o = m.slot o := by
  cases op with
  | copy x other =>
    obtain ⟨hx, h⟩ := Option.ite_none_right_eq_some.mp h
    cases h
    cases hop
    refine transfer_spec ?_ copy_slot
    rintro ⟨⟩
    exact hx.2 hx.1
  | assign x other =>
    obtain ⟨-, h⟩ := Option.ite_none_right_eq_some.mp h
    cases h
    obtain ⟨hne, heq⟩ := Option.ite_none_left_eq_some.mp hop
    cases heq
    exact transfer_spec (by simpa using hne) (assign_slot hne)
  | toRef r x =>
    obtain ⟨-, h⟩ := Option.ite_none_right_eq_some.mp h
    cases h
    cases hop
    exact transfer_spec (by simp) toRef_slot
  | ofRef x r =>
    obtain ⟨-, h⟩ := Option.ite_none_right_eq_some.mp h
    cases h
    cases hop
    exact transfer_spec (by simp) ofRef_slot
  | assignRef x r =>
    obtain ⟨-, h⟩ := Option.ite_none_right_eq_some.mp h
    cases h
    cases hop
    exact transfer_spec (by simp) (assignRef_slot hs)
  | release x =>
    obtain ⟨-, h⟩ := Option.ite_none_right_eq_some.mp h
    cases h
    cases hop
    exact transfer_spec (by simp) (slot_give m x)
  | construct x fresh => cases hop
  | destroy x => cases hop

/-- After any operations on any number of pointers, in either client. -/
theorem replies_owned_once (v : Managed) (m : Mem) (hm : pointers.Reachable m) : OwnedOnce v m := by
  have hs : Sound m := sound_invariant m hm
  refine ⟨fun k hk hv => hs.owned_or_freed v hk hv, ?_, ?_, ?_, ?_,
    fun op m' src dst hop h => hs.transfer hop h, ?_, ?_, ?_⟩
  · intro k hk
    rw [freed_count]
    split
    · next hv => exact hs.future k (Nat.le_of_not_lt fun h => hk ⟨h, hv⟩)
    · rfl
  · intro hptr href k hk hv
    rcases hs.owned_or_freed v hk hv with ⟨hone, h0⟩ | ⟨hnone, h1⟩
    · obtain ⟨o, ho, -⟩ := hone
      exact Or.inl ⟨given_of_slot hptr href ho, h0⟩
    · refine Or.inr ⟨fun hmem => ?_, h1⟩
      obtain ⟨i, hi⟩ := List.mem_iff_getElem?.mp hmem
      exact hnone (.caller i) hi
  · intro x other m' k hne hx h
    simp only [step] at h
    split at h <;> cases h
    simp [Mem.assign, hne, Mem.release, Mem.freed, Mem.dtor, Mem.setP, hx]
  · intro x r m' k hx h
    simp only [step] at h
    split at h <;> cases h
    -- the pointers differ, for no reference has the pointer's reply
    have hne : (m.ptr x).join ≠ (m.ref r).join := by
      intro heq
      have hnull : (m.ref r).join = none := hs.both_null heq
      rw [hnull, hx] at heq
      cases heq
    rw [Mem.assignRef, if_neg hne]
    simp [Mem.release, Mem.freed, Mem.dtor, Mem.setP, Mem.setRef, hx]
  · intro x m' h
    obtain ⟨-, h⟩ := Option.ite_none_right_eq_some.mp h
    cases h
    exact slot_setP _ _ _
  · intro x m' h
    obtain ⟨-, h⟩ := Option.ite_none_right_eq_some.mp h
    cases h
    refine ⟨slot_destroy m x, ?_⟩
    simp [Mem.freed, Mem.destroy, Mem.dtor, Mem.slot]
  · intro x m' h
    simp only [step] at h
    split at h <;> cases h
    rw [Mem.assign, if_pos rfl]

/-- A reply is carried by a `RedisReplyRef` into a pointer that has another one. -/
def carried : List Op :=
  [.construct 0 true, .construct 1 true, .toRef 0 0, .assignRef 1 0, .destroy 0, .release 1,
    .destroy 1]

theorem replies_owned_once_carried :
    ∃ m, pointers.run .empty carried = some m ∧ OwnedOnce .redisReply m ∧
      m.freed .redisReply = [some 1, none, none] ∧ m.given = [0] := by
  obtain ⟨m, hrun, hfreed, hgiven⟩ : ∃ m, pointers.run .empty carried = some m ∧
      m.freed .redisReply = [some 1, none, none] ∧ m.given = [0] := ⟨_, rfl, rfl, rfl⟩
  exact ⟨m, hrun, replies_owned_once .redisReply m ((Lts.Reachable.init rfl).run hrun), hfreed,
    hgiven⟩

/-! ## A command -/

/-- `redisvCommand` returns `RedisReplyPtr(reply)` (`RedisClient.cpp`, line 33);
    `got` if there is a reply. The experimental client always gets a pack. -/
def redisvCommand (result : ℕ) (got : Bool) : List Op := [.construct result got]

/-- `x = f()`: the temporary that `f` returns is assigned through a `RedisReplyRef`. -/
def assignTemporary (x temp ref : ℕ) : List Op := [.toRef ref temp, .assignRef x ref, .destroy temp]

/-- `return x` copies a local variable and destroys it. -/
def returnLocal (x result : ℕ) : List Op := [.copy result x, .destroy x]

/-- `redisCommand` (lines 10–20). -/
def redisCommand (reply temp ref result : ℕ) (got : Bool) : List Op :=
  .construct reply false :: redisvCommand temp got ++ assignTemporary reply temp ref ++
    returnLocal reply result

/-- Only `ptr` has changed, and no reply has been freed. -/
def Mem.Moved (m : Mem) (ptr : ℕ → Option (Option ℕ)) (m' : Mem) : Prop :=
  m'.ptr = ptr ∧ m'.ref = m.ref ∧ m'.given = m.given ∧ m'.created = m.created ∧
    ∀ k, m'.frees k = m.frees k

theorem frees_null {m m' : Mem} {n : ℕ}
    (h : m'.destroyed = m.destroyed ++ List.replicate n none) (k : ℕ) : m'.frees k = m.frees k := by
  rw [Mem.frees, h, List.count_append, List.count_replicate]
  simp [Mem.frees]

theorem assignTemporary_run {p : Option ℕ} (x temp ref : ℕ) (hx : m.ptr x = some none)
    (ht : m.ptr temp = some p) (hr : m.ref ref = none) (hne : x ≠ temp) :
    ∃ m', pointers.run m (assignTemporary x temp ref) = some m' ∧
      m.Moved (Function.update (Function.update m.ptr temp none) x (some p)) m' := by
  have hne' : temp ≠ x := Ne.symm hne
  refine ⟨((m.toRef ref temp).assignRef x ref).destroy temp, ?_, ?_⟩
  · have hx' : (m.toRef ref temp).ptr x = some none := by
      simp [Mem.toRef, Mem.release, Mem.setP, Mem.setRef, hne, hx]
    have ht' : ((m.toRef ref temp).assignRef x ref).ptr temp = some none := by
      rw [Mem.assignRef]
      split <;> simp [Mem.toRef, Mem.release, Mem.setP, Mem.setRef, Mem.dtor, hne']
    have hr' : (m.toRef ref temp).ref ref = some p := by
      simp [Mem.toRef, Mem.release, Mem.setRef, ht]
    simp [assignTemporary, Lts.run, pointers, step, hr, ht, hx', hr', ht']
  · have href : Function.update m.ref ref none = m.ref := Function.update_eq_self_iff.mpr hr.symm
    have hset : (m.toRef ref temp).assignRef x ref =
        if p = none then (m.setP temp none).setRef ref none
        else (((m.setP temp none).setP x p).setRef ref none).dtor none := by
      cases p <;> simp [Mem.assignRef, Mem.toRef, Mem.release, Mem.setP, Mem.setRef, ht, hx, hne]
    rw [hset]
    split
    · next hp =>
      -- the early return: both are NULL
      subst hp
      refine ⟨?_, href, rfl, rfl, frees_null (n := 1) ?_⟩
      · funext y
        by_cases hy : y = temp
        · simp [Mem.destroy, Mem.setP, Mem.setRef, Mem.dtor, hy, hne']
        · by_cases hyx : y = x
          · simp [Mem.destroy, Mem.setP, Mem.setRef, Mem.dtor, hyx, hne, hx]
          · simp [Mem.destroy, Mem.setP, Mem.setRef, Mem.dtor, hy, hyx]
      · simp [Mem.destroy, Mem.setP, Mem.setRef, Mem.dtor]
    · refine ⟨?_, href, rfl, rfl, frees_null (n := 2) ?_⟩
      · funext y
        by_cases hy : y = temp
        · simp [Mem.destroy, Mem.setP, Mem.setRef, Mem.dtor, hy, hne']
        · by_cases hyx : y = x
          · simp [Mem.destroy, Mem.setP, Mem.setRef, Mem.dtor, hyx, hne]
          · simp [Mem.destroy, Mem.setP, Mem.setRef, Mem.dtor, hy, hyx]
      · simp [Mem.destroy, Mem.setP, Mem.setRef, Mem.dtor, hne', List.replicate]

theorem returnLocal_run {p : Option ℕ} (x result : ℕ) (hx : m.ptr x = some p)
    (hr : m.ptr result = none) :
    ∃ m', pointers.run m (returnLocal x result) = some m' ∧
      m.Moved (Function.update (Function.update m.ptr x none) result (some p)) m' := by
  have hne : x ≠ result := by
    rintro rfl
    rw [hx] at hr
    cases hr
  refine ⟨(m.copy result x).destroy x, ?_, ?_, rfl, rfl, rfl, frees_null (n := 1) ?_⟩
  · simp [returnLocal, Lts.run, pointers, step, hx, hr, Mem.copy, Mem.release, Mem.setP, hne]
  · funext y
    by_cases hy : y = x
    · simp [Mem.destroy, Mem.copy, Mem.release, Mem.setP, Mem.dtor, hy, hne]
    · by_cases hyr : y = result
      · simp [Mem.destroy, Mem.copy, Mem.release, Mem.setP, Mem.dtor, hyr, Ne.symm hne, hx]
      · simp [Mem.destroy, Mem.copy, Mem.release, Mem.setP, Mem.dtor, hy, hyr]
  · simp [Mem.destroy, Mem.copy, Mem.release, Mem.setP, Mem.dtor, hne]

/-- The caller gets the reply, or NULL, in `result`; nothing is left behind and
    nothing is freed. -/
theorem redisCommand_hands_over {reply temp ref result : ℕ} (got : Bool)
    (hreply : m.ptr reply = none) (htemp : m.ptr temp = none) (hresult : m.ptr result = none)
    (href : m.ref ref = none) (hrt : reply ≠ temp) (hrr : reply ≠ result) (htr : temp ≠ result) :
    ∃ m', pointers.run m (redisCommand reply temp ref result got) = some m' ∧
      m'.ptr = Function.update m.ptr result (some (if got then some m.created else none)) ∧
      m'.ref = m.ref ∧ m'.given = m.given ∧ ∀ k, m'.frees k = m.frees k := by
  obtain ⟨m₁, h₁, hp₁, hr₁, hg₁, hf₁⟩ : ∃ m₁,
      pointers.run m (.construct reply false :: redisvCommand temp got) = some m₁ ∧
      m₁.ptr = Function.update (Function.update m.ptr reply (some none)) temp
        (some (if got then some m.created else none)) ∧
      m₁.ref = m.ref ∧ m₁.given = m.given ∧ ∀ k, m₁.frees k = m.frees k := by
    refine ⟨(m.construct reply false).construct temp got, ?_, ?_, ?_, ?_, fun k => ?_⟩
    · simp [redisvCommand, Lts.run, pointers, step, hreply, Mem.construct, Mem.setP, htemp,
        Ne.symm hrt]
    all_goals cases got <;> rfl
  obtain ⟨m₂, h₂, hp₂, hr₂, hg₂, -, hf₂⟩ :=
    assignTemporary_run (m := m₁) reply temp ref
      (p := if got then some m.created else none) (by simp [hp₁, hrt]) (by simp [hp₁])
      (by rw [hr₁, href]) hrt
  obtain ⟨m₃, h₃, hp₃, hr₃, hg₃, -, hf₃⟩ :=
    returnLocal_run (m := m₂) reply result
      (p := if got then some m.created else none) (by simp [hp₂])
      (by simp [hp₂, hp₁, Ne.symm hrr, Ne.symm htr, hresult])
  refine ⟨m₃, ?_, ?_, by rw [hr₃, hr₂, hr₁], by rw [hg₃, hg₂, hg₁],
    fun k => by rw [hf₃, hf₂, hf₁]⟩
  · have h₁₂ := (Lts.run_append h₁ (assignTemporary reply temp ref)).trans h₂
    exact (Lts.run_append h₁₂ (returnLocal reply result)).trans h₃
  · rw [hp₃, hp₂, hp₁]
    funext y
    by_cases hy : y = result
    · simp [hy]
    · by_cases hyr : y = reply
      · simp [hyr, hreply, hrr]
      · by_cases hyt : y = temp
        · simp [hyt, Ne.symm hrt, htr, htemp]
        · simp [hy, hyr, hyt]

end Hiredispool.ReplyPtr
