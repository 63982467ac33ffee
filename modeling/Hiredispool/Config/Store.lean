import Hiredispool.Config.Meta

/-!
# The configuration store

Model of `experimental/redisclient/RedisClientYaf.cpp`, lines 149–255 and
379–384, and of `RedisClientPtr` (`RedisClientYaf.h`, lines 38–82): one
`Config`, the `Client` objects that use it, and the `RedisClient`s.

* A `RedisClient*` is the number of the `RedisClient`; its memory, with the
  `SharedCount` of the pointers to it, is `Store.obj`. NULL is `none`: the
  `SharedCount` of a NULL pointer is not shared with others and is left out.
* `int c` of a `SharedCount` (`RedisClientYaf.h`, line 34) is a natural number
  here. In C it overflows when 2^31 pointers to one `RedisClient` are alive.
* The methods of `Config` are the bodies of its critical sections.
-/

namespace Hiredispool.Config

open Hiredispool.Pool

/-! ## Data -/

/-- `metaMap`. The order of the keys plays no role. -/
abbrev MetaMap := List (Bytes × Meta)

/-- Write to the `Meta` of `dbname`. -/
def MetaMap.modify (metas : MetaMap) (dbname : Bytes) (f : Meta → Meta) : MetaMap :=
  metas.map fun e => if e.1 = dbname then (e.1, f e.2) else e

/-- A `RedisClient` and the `SharedCount` of its pointers: `conf` is what the
    pool was created from, `count` is the `int c` of the `SharedCount` without
    its bound, `deletes` counts the calls of its destructor. -/
structure RedisClientObj where
  conf : Meta
  count : ℕ
  deletes : ℕ

/-- One `Config` (lines 196–202), the `client` members of the `Client` objects
    (RedisClientYaf.h:189), and the memory. `metaMutex` is the thread that has it
    locked. -/
structure Store where
  metaMap : MetaMap
  metaMutex : Option ℕ
  instMap : Bytes → Option ℕ
  client : ℕ → Option ℕ
  clients : ℕ
  obj : ℕ → RedisClientObj

/-- A store with the given databases and no pool. -/
def Store.init (metas : MetaMap) : Store where
  metaMap := metas
  metaMutex := none
  instMap := fun _ => none
  client := fun _ => none
  clients := 0
  obj := fun _ => ⟨⟨0, 0, 0, 0, [], [], 0⟩, 0, 0⟩

namespace Store

/-! ## `RedisClientPtr` -/

/-- Write to the memory of the `RedisClient` number `p`. -/
def setObj (p : ℕ) (f : RedisClientObj → RedisClientObj) (s : Store) : Store :=
  { s with obj := Function.update s.obj p (f (s.obj p)) }

/-- The copy constructor (lines 61–66). -/
def copied (c : Option ℕ) (s : Store) : Store :=
  match c with
  | none => s
  | some p => s.setObj p fun x => { x with count := x.count + 1 }

/-- The destructor (lines 50–59). -/
def destroyed (c : Option ℕ) (s : Store) : Store :=
  match c with
  | none => s
  | some p => s.setObj p fun x =>
      { x with
        count := x.count - 1
        deletes := if x.count - 1 = 0 then x.deletes + 1 else x.deletes }

/-! ## The critical sections -/

/-- `findInst` (lines 149–156): the pointer that is returned is a copy. -/
def findInst (dbname : Bytes) (s : Store) : Store × Option ℕ :=
  (s.copied (s.instMap dbname), s.instMap dbname)

/-- `findMeta` (lines 157–166). -/
def findMeta (dbname : Bytes) (s : Store) : Option Meta := s.metaMap.lookup dbname

/-- Line 174: the constructor of `RedisClient`, and the first pointer to it. -/
def newRedisClient (m : Meta) (s : Store) : Store :=
  { s with clients := s.clients + 1, obj := Function.update s.obj s.clients ⟨m, 1, 0⟩ }

/-- `createInst` (lines 167–182). `constructed` is false if the constructor of
    `RedisClient` throws although the configuration is good. Of the pointers
    made here one is in `instMap` and one is returned. -/
def createInst (dbname : Bytes) (m : Meta) (constructed : Bool) (s : Store) : Store × Option ℕ :=
  match s.instMap dbname with
  | some p => (s.copied (some p), some p)
  | none =>
    if (checkConfig m.toConf).isSome && constructed then
      let p := s.clients
      let s := (s.newRedisClient m).copied (some p)
      ({ s with instMap := Function.update s.instMap dbname (some p) }, some p)
    else (s, none)

/-- `deleteInst` (lines 183–186). -/
def deleteInst (dbname : Bytes) (s : Store) : Store :=
  { s.destroyed (s.instMap dbname) with instMap := Function.update s.instMap dbname none }

/-- `addMeta` (lines 187–195). -/
def addMeta (dbname : Bytes) (m : Meta) (s : Store) : Store :=
  if (s.findMeta dbname).isSome then s else { s with metaMap := s.metaMap ++ [(dbname, m)] }

/-- Lines 222–231 and 242–251: the `Meta` of `dbname` after the event, and whether
    the server is one of that database. -/
def serverEvent (e : ServerEvent) (dbname : Bytes) (s : Store) : Store × Bool :=
  match s.findMeta dbname with
  | none => (s, false)
  | some m =>
    if m.isFor e.server then ({ s with metaMap := s.metaMap.modify dbname e.apply }, true)
    else (s, false)

/-- Line 381 after the lookup has returned `c`: `operator=` exchanges `c` and the
    member of the `Client` object `o`, and destroys what was there. -/
def assign (o : ℕ) (c : Option ℕ) (s : Store) : Store :=
  { s with client := Function.update s.client o c }.destroyed (s.client o)

/-! ## Lemmas -/

theorem serverEvent_cases (e : ServerEvent) (dbname : Bytes) (s : Store) :
    (∃ m, s.findMeta dbname = some m ∧ m.isFor e.server = true ∧
        s.serverEvent e dbname = ({ s with metaMap := s.metaMap.modify dbname e.apply }, true)) ∨
      s.serverEvent e dbname = (s, false) := by
  unfold serverEvent
  cases hm : s.findMeta dbname with
  | none => exact Or.inr rfl
  | some m =>
    cases hf : m.isFor e.server with
    | true => exact Or.inl ⟨m, rfl, hf, by simp [hf]⟩
    | false => exact Or.inr (by simp [hf])

theorem lookup_modify (metas : MetaMap) (dbname : Bytes) (f : Meta → Meta) (db : Bytes) :
    (metas.modify dbname f).lookup db =
      if db = dbname then (metas.lookup db).map f else metas.lookup db := by
  induction metas with
  | nil => simp [MetaMap.modify]
  | cons e metas ih =>
    obtain ⟨k, m⟩ := e
    simp only [MetaMap.modify, List.map_cons] at ih ⊢
    by_cases hk : db = k
    · subst hk
      by_cases hd : db = dbname <;> simp [hd]
    · have hne : (db == k) = false := by simpa using hk
      by_cases hd : k = dbname
      · rw [if_pos hd, List.lookup_cons, List.lookup_cons, hne]
        exact ih
      · rw [if_neg hd, List.lookup_cons, List.lookup_cons, hne]
        exact ih

/-- `addMeta` changes nothing for the databases that are known. -/
theorem findMeta_addMeta {s : Store} {db : Bytes} {m : Meta} (h : s.findMeta db = some m)
    (dbname : Bytes) (m' : Meta) : (s.addMeta dbname m').findMeta db = some m := by
  unfold addMeta
  split
  · exact h
  · unfold findMeta at h ⊢
    rw [List.lookup_append, h, Option.some_or]

/-! What the pointers leave alone. -/

section Simp

variable (s : Store) (c : Option ℕ) (o : ℕ) (db : Bytes) (m : Meta)

@[simp] theorem copied_metaMap : (s.copied c).metaMap = s.metaMap := by cases c <;> rfl
@[simp] theorem copied_instMap : (s.copied c).instMap = s.instMap := by cases c <;> rfl
@[simp] theorem copied_client : (s.copied c).client = s.client := by cases c <;> rfl
@[simp] theorem copied_clients : (s.copied c).clients = s.clients := by cases c <;> rfl
@[simp] theorem destroyed_metaMap : (s.destroyed c).metaMap = s.metaMap := by cases c <;> rfl
@[simp] theorem destroyed_instMap : (s.destroyed c).instMap = s.instMap := by cases c <;> rfl
@[simp] theorem destroyed_client : (s.destroyed c).client = s.client := by cases c <;> rfl
@[simp] theorem destroyed_clients : (s.destroyed c).clients = s.clients := by cases c <;> rfl

@[simp] theorem copied_conf (p : ℕ) : ((s.copied c).obj p).conf = (s.obj p).conf := by
  cases c with
  | none => rfl
  | some q => by_cases h : p = q <;> simp [copied, setObj, h]

@[simp] theorem destroyed_conf (p : ℕ) : ((s.destroyed c).obj p).conf = (s.obj p).conf := by
  cases c with
  | none => rfl
  | some q => by_cases h : p = q <;> simp [destroyed, setObj, h]

@[simp] theorem addMeta_instMap : (s.addMeta db m).instMap = s.instMap := by
  unfold addMeta; split <;> rfl
@[simp] theorem addMeta_client : (s.addMeta db m).client = s.client := by
  unfold addMeta; split <;> rfl
@[simp] theorem addMeta_clients : (s.addMeta db m).clients = s.clients := by
  unfold addMeta; split <;> rfl
@[simp] theorem addMeta_obj : (s.addMeta db m).obj = s.obj := by
  unfold addMeta; split <;> rfl

end Simp

end Store

end Hiredispool.Config
