import Hiredispool.Config.Machine
import Hiredispool.Lib.RefCount

/-!
# The lifetime of a `RedisClient`

A `RedisClient` lives as long as a `RedisClientPtr` refers to it: an entry of
`instMap`, the `client` member of a `Client` object, or the pointer that
`getRedisClient` has returned. A command runs through the raw pointer of the
member, which the next command on the same `Client` object overwrites.

* `Tracked`: the `SharedCount`s are exact in every reachable state.
* `destroyed_in_use`: a run in which a `RedisClient` is destroyed under a command.
* `use_is_safe`: none is, if and only if no step gives up the last pointer to a
  `RedisClient` in use.
-/

namespace Hiredispool.Config

open Hiredispool.Pool RefCount

/-! ## The pointers -/

/-- A place that keeps a `RedisClientPtr`. -/
inductive Holder
  /-- the entry of `instMap` -/
  | inst (dbname : Bytes)
  /-- the `client` member of a `Client` object -/
  | member (o : ℕ)
  /-- what `getRedisClient` has returned to a thread -/
  | returned (t : ℕ)
deriving DecidableEq

/-- The pointer that a thread holds on its stack between two steps. -/
def Pc.returned : Pc → Option ℕ
  | .assign _ c => c
  | _ => none

/-- The values of the pointers. -/
def slotOf (instMap : Bytes → Option ℕ) (client : ℕ → Option ℕ) (pc : ℕ → Pc) : Holder → Option ℕ
  | .inst db => instMap db
  | .member o => client o
  | .returned t => (pc t).returned

/-- The pointers of a system. -/
def Sys.slot (s : Sys) : Holder → Option ℕ := slotOf s.store.instMap s.store.client s.pc

section Slot

variable (instMap : Bytes → Option ℕ) (client : ℕ → Option ℕ) (pc : ℕ → Pc)

theorem slotOf_instMap (db : Bytes) (c : Option ℕ) :
    slotOf (Function.update instMap db c) client pc =
      Function.update (slotOf instMap client pc) (.inst db) c := by
  funext h
  cases h with
  | inst db' => by_cases hd : db' = db <;> simp [slotOf, hd]
  | member _ => simp [slotOf]
  | returned _ => simp [slotOf]

theorem slotOf_client (o : ℕ) (c : Option ℕ) :
    slotOf instMap (Function.update client o c) pc =
      Function.update (slotOf instMap client pc) (.member o) c := by
  funext h
  cases h with
  | inst _ => simp [slotOf]
  | member o' => by_cases ho : o' = o <;> simp [slotOf, ho]
  | returned _ => simp [slotOf]

theorem slotOf_pc (t : ℕ) (x : Pc) :
    slotOf instMap client (Function.update pc t x) =
      Function.update (slotOf instMap client pc) (.returned t) x.returned := by
  funext h
  cases h with
  | inst _ => simp [slotOf]
  | member _ => simp [slotOf]
  | returned u => by_cases hu : u = t <;> simp [slotOf, hu]

end Slot

/-- The pointers after a step of `t`. -/
theorem Sys.slot_put (s : Sys) (t : ℕ) (st : Store) (x : Pc) :
    (s.put t (st, x)).slot =
      Function.update (slotOf st.instMap st.client s.pc) (.returned t) x.returned :=
  slotOf_pc _ _ _ _ _

/-! ## The counters -/

section Tracked

variable {H : Type*}

/-- The counters are those of the pointers `slot`; a `RedisClient` has been
    destroyed, once, when no pointer refers to it any more. -/
structure Tracked (slot : H → Option ℕ) (s : Store) : Prop where
  counted : Counted slot fun p => (s.obj p).count
  allocated : ∀ h p, slot h = some p → p < s.clients
  deletes : ∀ p, (s.obj p).deletes = if p < s.clients ∧ (s.obj p).count = 0 then 1 else 0

variable {slot : H → Option ℕ} {s : Store} {h k : H} {p : ℕ}

theorem count_copied (s : Store) (p : ℕ) :
    (fun q => ((s.copied (some p)).obj q).count) =
      Function.update (fun q => (s.obj q).count) p ((s.obj p).count + 1) := by
  funext q
  by_cases hq : q = p <;> simp [Store.copied, Store.setObj, hq]

theorem count_destroyed (s : Store) (p : ℕ) :
    (fun q => ((s.destroyed (some p)).obj q).count) =
      Function.update (fun q => (s.obj q).count) p ((s.obj p).count - 1) := by
  funext q
  by_cases hq : q = p <;> simp [Store.destroyed, Store.setObj, hq]

theorem count_newRedisClient (s : Store) (m : Meta) :
    (fun q => ((s.newRedisClient m).obj q).count) =
      Function.update (fun q => (s.obj q).count) s.clients 1 := by
  funext q
  by_cases hq : q = s.clients <;> simp [Store.newRedisClient, hq]

/-- The counters and the deletions of a store are those of the library. -/
theorem tracked_iff : Tracked slot s ↔
    Exact slot s.clients (fun p => (s.obj p).count) fun p => (s.obj p).deletes :=
  ⟨fun ht => ⟨ht.counted, ht.allocated, ht.deletes⟩,
    fun he => ⟨he.counted, he.allocated, he.deletes⟩⟩

/-- Not destroyed means that a pointer is left. -/
theorem Tracked.deletes_eq_zero (ht : Tracked slot s) (hp : p < s.clients) :
    (s.obj p).deletes = 0 ↔ ∃ h, slot h = some p :=
  (tracked_iff.mp ht).deletes_eq_zero hp

theorem Tracked.perm (ht : Tracked slot s) (e : Equiv.Perm H) : Tracked (slot ∘ e) s :=
  tracked_iff.mpr ((tracked_iff.mp ht).perm e)

variable [DecidableEq H]

/-- A pointer is copied to a place that holds NULL. -/
theorem Tracked.copied (ht : Tracked slot s) (hn : slot h = none) (hp : slot k = some p) :
    Tracked (Function.update slot h (some p)) (s.copied (some p)) := by
  have hdel : (fun q => ((s.copied (some p)).obj q).deletes) = fun q => (s.obj q).deletes := by
    funext q
    by_cases hq : q = p <;> simp [Store.copied, Store.setObj, hq]
  rw [tracked_iff, hdel]
  exact (tracked_iff.mp ht).copied hn hp (count_copied s p)

/-- A pointer goes. -/
theorem Tracked.destroyed (ht : Tracked slot s) (hp : slot h = some p) :
    Tracked (Function.update slot h none) (s.destroyed (some p)) := by
  refine tracked_iff.mpr ((tracked_iff.mp ht).destroyed hp (count_destroyed s p) fun q => ?_)
  by_cases hq : q = p
  · subst hq
    by_cases h1 : (s.obj q).count - 1 = 0 <;> simp [Store.destroyed, Store.setObj, h1]
  · simp [Store.destroyed, Store.setObj, hq]

/-- A `RedisClient` is created. -/
theorem Tracked.newRedisClient (ht : Tracked slot s) (hn : slot h = none) (m : Meta) :
    Tracked (Function.update slot h (some s.clients)) (s.newRedisClient m) := by
  have hdel : (fun q => ((s.newRedisClient m).obj q).deletes) = fun q => (s.obj q).deletes := by
    funext q
    by_cases hq : q = s.clients
    · subst hq
      simp [Store.newRedisClient, ht.deletes]
    · simp [Store.newRedisClient, hq]
  rw [tracked_iff, hdel]
  exact (tracked_iff.mp ht).created hn (count_newRedisClient s m)

end Tracked

/-! ## What a step does to the pointers -/

/-- The step gives up the pointer `h` to `p`. -/
inductive Drops (s : Sys) : Action → Holder → ℕ → Prop
  /-- line 381 overwrites the member of the `Client` object -/
  | assign {t o p : ℕ} {c : Option ℕ} {constructed : Bool} : s.pc t = .assign o c →
      s.store.client o = some p → Drops s (.step t constructed) (.member o) p
  /-- lines 232 and 252 erase the entry of `instMap` -/
  | evict {t p : ℕ} {e : ServerEvent} {db : Bytes} {rest : List Bytes} {constructed : Bool} :
      s.pc t = .evict e db rest → s.store.instMap db = some p →
      Drops s (.step t constructed) (.inst db) p

theorem Drops.slot {s : Sys} {a : Action} {h : Holder} {p : ℕ} (hd : Drops s a h p) :
    s.slot h = some p := by
  cases hd with
  | assign _ hc => exact hc
  | evict _ hi => exact hi

/-- A step gives up one pointer at most. -/
theorem Drops.unique {s : Sys} {a : Action} {h h' : Holder} {p p' : ℕ} (hd : Drops s a h p)
    (hd' : Drops s a h' p') : h = h' := by
  cases hd with
  | assign hpc _ =>
    cases hd' with
    | assign hpc' _ => rw [hpc] at hpc'; cases hpc'; rfl
    | evict hpc' _ => rw [hpc] at hpc'; cases hpc'
  | evict hpc _ =>
    cases hd' with
    | assign hpc' _ => rw [hpc] at hpc'; cases hpc'
    | evict hpc' _ => rw [hpc] at hpc'; cases hpc'; rfl

/-- The steps as operations on pointers and on the memory. -/
inductive PtrStep (s : Sys) (a : Action) (s' : Sys) : Prop
  | move (e : Equiv.Perm Holder) : s'.slot = s.slot ∘ e → s'.store.obj = s.store.obj →
      s'.store.clients = s.store.clients → PtrStep s a s'
  | copy {h k : Holder} {p : ℕ} : s.slot h = none → s.slot k = some p →
      s'.slot = Function.update s.slot h (some p) →
      s'.store.obj = (s.store.copied (some p)).obj → s'.store.clients = s.store.clients →
      PtrStep s a s'
  | create {h k : Holder} {m : Meta} : h ≠ k → s.slot h = none → s.slot k = none →
      s'.slot = Function.update (Function.update s.slot h (some s.store.clients)) k
        (some s.store.clients) →
      s'.store.obj = ((s.store.newRedisClient m).copied (some s.store.clients)).obj →
      s'.store.clients = s.store.clients + 1 → PtrStep s a s'
  | drop (e : Equiv.Perm Holder) {h : Holder} {p : ℕ} : Drops s a (e h) p →
      s'.slot = Function.update (s.slot ∘ e) h none →
      s'.store.obj = (s.store.destroyed (some p)).obj → s'.store.clients = s.store.clients →
      PtrStep s a s'

section Step

variable {dbname : ℕ → Bytes} {s s' : Sys} {a : Action}

/-- A step that touches no pointer. -/
theorem PtrStep.keep {t : ℕ} {st : Store} {x : Pc} (hi : st.instMap = s.store.instMap)
    (hc : st.client = s.store.client) (hr : x.returned = (s.pc t).returned)
    (ho : st.obj = s.store.obj) (hn : st.clients = s.store.clients) :
    PtrStep s a (s.put t (st, x)) := by
  refine .move (Equiv.refl _) ?_ ho hn
  rw [Sys.slot_put, hi, hc, hr]
  exact Function.update_eq_self (Holder.returned t) s.slot

/-- Line 381: the member and the pointer that was returned are exchanged, and the
    latter is destroyed. -/
theorem slot_assign {t o : ℕ} {c : Option ℕ} (hpc : s.pc t = .assign o c) :
    (s.put t (s.store.assign o c, .start o)).slot =
      Function.update (s.slot ∘ Equiv.swap (.returned t) (.member o)) (.returned t) none := by
  have hslot : s.slot (.returned t) = c := by simp [Sys.slot, slotOf, hpc, Pc.returned]
  rw [Sys.slot_put]
  show Function.update (slotOf (s.store.assign o c).instMap (s.store.assign o c).client s.pc)
    (.returned t) none = _
  simp only [Store.assign, Store.destroyed_instMap, Store.destroyed_client]
  rw [slotOf_client]
  funext h
  by_cases hr : h = .returned t
  · simp [hr]
  · by_cases hm : h = .member o
    · simp [hm, hslot]
    · simp [hr, hm, Equiv.swap_apply_of_ne_of_ne hr hm, Sys.slot]

/-- Lines 232 and 252. -/
theorem slot_evict {t : ℕ} {e : ServerEvent} {db : Bytes} {rest : List Bytes}
    (hpc : s.pc t = .evict e db rest) :
    (s.put t (s.store.deleteInst db, .loop e rest)).slot =
      Function.update s.slot (.inst db) none := by
  rw [Sys.slot_put]
  simp only [Store.deleteInst, Store.destroyed_client]
  rw [slotOf_instMap]
  -- the thread holds no pointer, before and after
  refine Function.update_eq_self_iff.mpr ?_
  simp [slotOf, hpc, Pc.returned]

theorem PtrStep.of_sysStep (h : SysStep dbname s a s') : PtrStep s a s' := by
  cases h with
  | call hidle hc =>
    cases hc with
    | command o => exact .keep rfl rfl (by rw [hidle]; rfl) rfl rfl
    | event e _ => exact .keep rfl rfl (by rw [hidle]; rfl) rfl rfl
    | addMeta db m _ => exact .keep (by simp) (by simp) (by rw [hidle]) (by simp) (by simp)
  | @step t _ st x hl =>
    generalize hpc : s.pc t = pc at hl
    -- what the thread holds before the step
    have hret : s.slot (.returned t) = pc.returned := by rw [← hpc]; rfl
    cases hl with
    | notFound _ | unknown _ | known _ | failed _ _ | null _ | start _ | finish | unlock
      | change _ _ | pass => exact .keep rfl rfl (by rw [hpc]; rfl) rfl rfl
    | @found o p hi | @already o p _ hi =>
      refine .copy (h := .returned t) (k := .inst (dbname o)) hret hi ?_ rfl rfl
      rw [Sys.slot_put, Store.copied_instMap, Store.copied_client]
      rfl
    | @create o m hi _ _ =>
      refine .create (h := .inst (dbname o)) (k := .returned t) (m := m) (by simp) hi hret ?_
        rfl rfl
      rw [Sys.slot_put, Store.copied_client]
      dsimp only
      rw [slotOf_instMap]
      rfl
    | @assign o c =>
      cases hc : s.store.client o with
      | none =>
        refine .move (Equiv.swap (.returned t) (.member o)) ?_ ?_ ?_
        · rw [slot_assign hpc]
          refine Function.update_eq_self_iff.mpr ?_
          simp [Sys.slot, slotOf, hc]
        · simp [Store.assign, hc, Store.destroyed]
        · simp [Store.assign]
      | some p =>
        refine .drop (Equiv.swap (.returned t) (.member o)) (h := .returned t) (p := p) ?_
          (slot_assign hpc) ?_ ?_
        · rw [Equiv.swap_apply_left]
          exact .assign hpc hc
        · simp [Store.assign, hc, Store.destroyed, Store.setObj]
        · simp [Store.assign]
    | @evict e db rest =>
      cases hi : s.store.instMap db with
      | none =>
        refine .move (Equiv.refl _) ?_ ?_ ?_
        · rw [slot_evict hpc]
          exact Function.update_eq_self_iff.mpr hi.symm
        · simp [Store.deleteInst, hi, Store.destroyed]
        · simp [Store.deleteInst]
      | some p =>
        refine .drop (Equiv.refl _) (h := .inst db) (p := p) (.evict hpc hi) (slot_evict hpc) ?_ ?_
        · simp [Store.deleteInst, hi]
        · simp [Store.deleteInst]

end Step

/-- `Tracked` looks at the memory only. -/
theorem Tracked.congr {H : Type*} {slot : H → Option ℕ} {s s' : Store} (ht : Tracked slot s)
    (ho : s'.obj = s.obj) (hn : s'.clients = s.clients) : Tracked slot s' where
  counted := by rw [ho]; exact ht.counted
  allocated := by rw [hn]; exact ht.allocated
  deletes := by rw [ho, hn]; exact ht.deletes

theorem PtrStep.tracked {s s' : Sys} {a : Action} (h : PtrStep s a s')
    (ht : Tracked s.slot s.store) : Tracked s'.slot s'.store := by
  cases h with
  | move e hslot ho hn =>
    rw [hslot]
    exact (ht.perm e).congr ho hn
  | copy hnone hp hslot ho hn =>
    rw [hslot]
    exact (ht.copied hnone hp).congr ho (by simp [hn])
  | @create h k m hne hnone hnone' hslot ho hn =>
    rw [hslot]
    have hnew := ht.newRedisClient hnone m
    refine Tracked.congr (hnew.copied (h := k) (k := h) ?_ (Function.update_self ..)) ho ?_
    · rw [Function.update_of_ne hne.symm, hnone']
    · simpa [Store.newRedisClient] using hn
  | drop e hd hslot ho hn =>
    rw [hslot]
    exact ((ht.perm e).destroyed hd.slot).congr ho (by simp [hn])

theorem Initial.slot_eq {s : Sys} (h : Initial s) (k : Holder) : s.slot k = none := by
  obtain ⟨⟨metas, -, hst⟩, hpc⟩ := h
  cases k with
  | inst db => simp [Sys.slot, slotOf, hst, Store.init]
  | member o => simp [Sys.slot, slotOf, hst, Store.init]
  | returned t => simp [Sys.slot, slotOf, hpc, Pc.returned]

/-- The counters are exact in every reachable state. -/
theorem tracked_invariant (dbname : ℕ → Bytes) :
    (machine dbname).Invariant fun s => Tracked s.slot s.store := by
  apply Lts.invariant_of_inductive
  · intro s hs
    have hslot : s.slot = fun _ => none := funext hs.slot_eq
    obtain ⟨⟨metas, -, hst⟩, -⟩ := hs
    rw [hslot, hst]
    refine ⟨.empty, fun _ _ h => ?_, fun _ => by simp [Store.init]⟩
    cases h
  · intro s a s' ht h
    exact (PtrStep.of_sysStep (.of_eq h)).tracked ht

/-! ## Commands and the pools they run on -/

/-- A command runs on the `RedisClient` `p`. -/
def Sys.InUse (s : Sys) (p : ℕ) : Prop := ∃ t o, s.pc t = .running o p

/-- No `RedisClient` has been destroyed under a command. -/
def Sys.UseIsSafe (s : Sys) : Prop := ∀ p, s.InUse p → (s.store.obj p).deletes = 0

/-- If the step gives up a pointer to a `RedisClient` in use, then it is not the
    only one. -/
def Kept (s : Sys) (a : Action) : Prop :=
  ∀ h p, Drops s a h p → s.InUse p → ∃ h', h' ≠ h ∧ s.slot h' = some p

section Use

variable {dbname : ℕ → Bytes} {s s' : Sys} {a : Action} {p : ℕ}

/-- A pointer that a step does not give up is there after the step. -/
theorem PtrStep.held (h : PtrStep s a s') {k : Holder} (hk : s.slot k = some p)
    (hd : ¬ Drops s a k p) : ∃ k', s'.slot k' = some p := by
  cases h with
  | move e hslot _ _ => exact ⟨e.symm k, by simp [hslot, hk]⟩
  | @copy h _ _ hnone _ hslot _ _ =>
    have hne : k ≠ h := by rintro rfl; rw [hnone] at hk; cases hk
    exact ⟨k, by rw [hslot, Function.update_of_ne hne, hk]⟩
  | @create h i _ _ hnone hnone' hslot _ _ =>
    have hne : k ≠ h := by rintro rfl; rw [hnone] at hk; cases hk
    have hne' : k ≠ i := by rintro rfl; rw [hnone'] at hk; cases hk
    exact ⟨k, by rw [hslot, Function.update_of_ne hne', Function.update_of_ne hne, hk]⟩
  | @drop e h q hdrop hslot _ _ =>
    have hne : e.symm k ≠ h := by
      rintro rfl
      rw [e.apply_symm_apply] at hdrop
      have hq := hdrop.slot
      rw [hk] at hq
      cases hq
      exact hd hdrop
    exact ⟨e.symm k, by simp [hslot, hne, hk]⟩

/-- A pointer that is there after a step that gives `h` up was another one. -/
theorem Drops.other {h : Holder} (hd : Drops s a h p) (hs : SysStep dbname s a s') {k : Holder}
    (hk : s'.slot k = some p) : ∃ h', h' ≠ h ∧ s.slot h' = some p := by
  cases hd with
  | @assign t o _ c _ hpc hc =>
    cases hs with
    | step hl =>
      rw [hpc] at hl
      cases hl
      rw [slot_assign hpc] at hk
      have hne : k ≠ .returned t := by rintro rfl; simp at hk
      rw [Function.update_of_ne hne] at hk
      refine ⟨_, fun e => hne ?_, hk⟩
      rw [Equiv.swap_apply_eq_iff, Equiv.swap_apply_right] at e
      exact e
  | @evict t _ e db rest _ hpc hi =>
    cases hs with
    | step hl =>
      rw [hpc] at hl
      cases hl
      rw [slot_evict hpc] at hk
      have hne : k ≠ .inst db := by rintro rfl; simp at hk
      rw [Function.update_of_ne hne] at hk
      exact ⟨k, hne, hk⟩

/-- A command that runs after a step ran before, or has been started through the
    member of its `Client` object. -/
theorem SysStep.inUse (h : SysStep dbname s a s') (hp : s'.InUse p) :
    s.InUse p ∨ ∃ k, s'.slot k = some p := by
  obtain ⟨u, o, hu⟩ := hp
  by_cases ht : a.thread = u
  · cases h with
    | call hidle hc =>
      cases ht
      cases hc <;> simp [Action.thread] at hu
    | step hl =>
      cases ht
      generalize hpc : s.pc _ = pc at hl
      cases hl <;> simp [Action.thread] at hu
      obtain ⟨rfl, rfl⟩ := hu
      exact Or.inr ⟨.member _, ‹_›⟩
  · rw [h.pc_of_ne ht] at hu
    exact Or.inl ⟨u, o, hu⟩

/-- A step that gives a pointer up ends no command. -/
theorem Drops.inUse {h : Holder} {q : ℕ} (hd : Drops s a h q) (hs : SysStep dbname s a s')
    (hp : s.InUse p) : s'.InUse p := by
  obtain ⟨u, o, hu⟩ := hp
  refine ⟨u, o, ?_⟩
  rw [hs.pc_of_ne, hu]
  rintro rfl
  cases hd with
  | assign hpc _ => rw [Action.thread, hpc] at hu; cases hu
  | evict hpc _ => rw [Action.thread, hpc] at hu; cases hu

/-- Nothing is deallocated from the numbering. -/
theorem PtrStep.clients_le (h : PtrStep s a s') : s.store.clients ≤ s'.store.clients := by
  cases h <;> omega

/-- A `RedisClient` in use has a pointer to it, and keeps one over a step that meets
    the condition. -/
theorem held_step (hheld : ∀ p, s.InUse p → ∃ k, s.slot k = some p) (hkept : Kept s a)
    (hs : SysStep dbname s a s') : ∀ p, s'.InUse p → ∃ k, s'.slot k = some p := by
  intro p hp
  have hptr : PtrStep s a s' := .of_sysStep hs
  rcases hs.inUse hp with hin | hk
  · obtain ⟨k, hk⟩ := hheld p hin
    by_cases hd : Drops s a k p
    · obtain ⟨k', hne, hk'⟩ := hkept k p hd hin
      exact hptr.held hk' fun hd' => hne (hd'.unique hd)
    · exact hptr.held hk hd
  · exact hk

theorem held_under (hs : (machine dbname).ReachableUnder Kept s) :
    ∀ p, s.InUse p → ∃ k, s.slot k = some p := by
  induction hs with
  | init h =>
    rintro p ⟨t, o, ht⟩
    rw [h.2 t] at ht
    cases ht
  | step _ hkept h ih => exact held_step ih hkept (.of_eq h)

/-- What a pointer refers to is not destroyed. -/
theorem useIsSafe_of_held (hs : (machine dbname).Reachable s)
    (hheld : ∀ p, s.InUse p → ∃ k, s.slot k = some p) : s.UseIsSafe := by
  intro p hp
  obtain ⟨k, hk⟩ := hheld p hp
  have ht := tracked_invariant dbname s hs
  exact (ht.deletes_eq_zero (ht.allocated k p hk)).mpr ⟨k, hk⟩

/-- A step after which a `RedisClient` in use is not destroyed has left a pointer to it. -/
theorem kept_of_useIsSafe (hs : (machine dbname).Reachable s)
    (h : (machine dbname).step s a = some s') (hsafe : s'.UseIsSafe) : Kept s a := by
  intro k p hd hp
  have hstep : SysStep dbname s a s' := .of_eq h
  have ht := tracked_invariant dbname s hs
  have ht' := tracked_invariant dbname s' (hs.step h)
  have hlt : p < s'.store.clients :=
    (ht.allocated k p hd.slot).trans_le (PtrStep.of_sysStep hstep).clients_le
  have hin : s'.InUse p := hd.inUse hstep hp
  obtain ⟨k', hk'⟩ := (ht'.deletes_eq_zero hlt).mp (hsafe p hin)
  exact hd.other hstep hk'

end Use

/-! ## Main theorem -/

/-- In a run whose steps never give up the last pointer to a `RedisClient` in use,
    none is destroyed under a command; a step that does destroys one. -/
theorem use_is_safe (dbname : ℕ → Bytes) (s : Sys) (hs : (machine dbname).ReachableUnder Kept s) :
    s.UseIsSafe ∧ ∀ a s', (machine dbname).step s a = some s' → (Kept s a ↔ s'.UseIsSafe) := by
  have hheld := held_under hs
  refine ⟨useIsSafe_of_held hs.reachable hheld, fun a s' h => ?_⟩
  constructor
  · intro hkept
    exact useIsSafe_of_held (hs.reachable.step h) (held_step hheld hkept (.of_eq h))
  · exact kept_of_useIsSafe hs.reachable h

/-- A test for `Kept`: the member that is overwritten is NULL, and the entry that is
    erased is the member of the `Client` object 0 too. -/
def keptCheck (s : Sys) : Action → Bool
  | .call _ _ => true
  | .step t _ =>
    match s.pc t with
    | .assign o _ => s.store.client o = none
    | .evict _ db _ => s.store.client 0 = s.store.instMap db
    | _ => true

theorem kept_of_check (s : Sys) (a : Action) (h : keptCheck s a = true) : Kept s a := by
  intro k p hd _
  cases hd with
  | assign hpc hc => simp [keptCheck, hpc, hc] at h
  | evict hpc hi =>
    simp only [keptCheck, hpc, decide_eq_true_eq] at h
    exact ⟨.member 0, by simp, h.trans hi⟩

/-- A server is added while thread 0 runs a command. -/
def evictUnderCommand : List Action :=
  [.call 0 (.command 0)] ++ List.replicate 5 (.step 0 true) ++
    [.call 2 (.event (.onAddServer mockServer))] ++ List.replicate 3 (.step 2 true)

/-- The `RedisClient` of the command is not in `instMap` any more; the member of the
    `Client` object still refers to it. -/
theorem use_is_safe_evicted :
    ∃ s, (machine fun _ => mockDb).Reachable s ∧ s.pc 0 = .running 0 0 ∧
      s.store.instMap mockDb = none ∧ s.UseIsSafe := by
  obtain ⟨s, hs, hp, -⟩ := exists_of_replayIf (fun _ => mockDb) [(mockDb, mockMeta)]
    evictUnderCommand kept_of_check (fun s => s.pc 0 = .running 0 0 ∧ s.store.instMap mockDb = none)
    (by decide) (by decide +kernel)
  obtain ⟨hpc, hi⟩ := of_decide_eq_true hp
  exact ⟨s, hs.reachable, hpc, hi, (use_is_safe _ s hs).1⟩

/-- The next command on the same `Client` object, on thread 1, destroys it: thread 0
    goes on with a `RedisClient` that is not there. -/
theorem destroyed_in_use :
    ∃ s, (machine fun _ => mockDb).Reachable s ∧ ¬ s.UseIsSafe := by
  obtain ⟨s, hs, hp, -⟩ := exists_of_replay (fun _ => mockDb) [(mockDb, mockMeta)]
    (evictUnderCommand ++ [.call 1 (.command 0)] ++ List.replicate 4 (.step 1 true))
    (fun s => s.pc 0 = .running 0 0 ∧ (s.store.obj 0).deletes = 1) (by decide) (by decide +kernel)
  obtain ⟨hpc, hd⟩ := of_decide_eq_true hp
  refine ⟨s, hs, fun hsafe => ?_⟩
  rw [hsafe 0 ⟨0, 0, hpc⟩] at hd
  cases hd

end Hiredispool.Config
