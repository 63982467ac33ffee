import Hiredispool.Config.Lifetime

/-!
# One pool per database

`getRedisClient` looks for an instance, copies the `Meta`, and looks again under
`instMutex` before it constructs one. As long as no server comes or goes, all
lookups of a database agree on one `RedisClient`.

* `Note`: what the lookups did, in order.
* `OnePool`: each `RedisClient` that was constructed or returned is the one in
  `instMap`.
* `one_pool`: the agreement, for any number of threads and any outcome of the
  constructions.
-/

namespace Hiredispool.Config

open Hiredispool.Pool

/-! ## What the lookups did -/

/-- A `RedisClient` was constructed for a database, or `getRedisClient` returned. -/
inductive Note
  | constructed (dbname : Bytes) (p : ℕ)
  | result (dbname : Bytes) (c : Option ℕ)
deriving DecidableEq

/-- What a step of a thread from `pc` to `pc'` did. -/
def noteOf (dbname : ℕ → Bytes) (s s' : Store) (pc pc' : Pc) : List Note :=
  match pc, pc' with
  | .createInst o _, .assign _ c =>
    if s.clients < s'.clients then
      [.constructed (dbname o) s.clients, .result (dbname o) c]
    else [.result (dbname o) c]
  | _, .assign o c => [.result (dbname o) c]
  | _, _ => []

/-- What a step of the system did. -/
def notes (dbname : ℕ → Bytes) (s : Sys) (a : Action) (s' : Sys) : List Note :=
  match a with
  | .call _ _ => []
  | .step t _ => noteOf dbname s.store s'.store (s.pc t) (s'.pc t)

/-- No server comes or goes. -/
def NoEvent (a : Action) : Prop := ∀ t e, a ≠ .call t (.event e)

/-- The machine with its notes. -/
def noted (dbname : ℕ → Bytes) : Lts (Sys × List Note) Action :=
  (machine dbname).logged (notes dbname)

/-- Every run in which no server comes or goes has its notes. -/
theorem exists_notes {dbname : ℕ → Bytes} {s : Sys}
    (hs : (machine dbname).ReachableUnder (fun _ a => NoEvent a) s) :
    ∃ log, (noted dbname).ReachableUnder (fun _ a => NoEvent a) (s, log) := hs.logged

/-! ## The invariant -/

/-- Not in the loop of an event. -/
def Pc.inEvent : Pc → Bool
  | .loop _ _ | .evict _ _ _ => true
  | _ => false

/-- Everything that was constructed or returned is in `instMap`, whose databases
    are known. -/
structure OnePool (dbname : ℕ → Bytes) (s : Sys) (log : List Note) : Prop where
  constructed : ∀ db p, .constructed db p ∈ log → s.store.instMap db = some p
  result : ∀ db p, .result db (some p) ∈ log → .constructed db p ∈ log
  inst : ∀ db p, s.store.instMap db = some p → .constructed db p ∈ log
  known : ∀ db, s.store.findMeta db = none → s.store.instMap db = none
  carried : ∀ t o m, s.pc t = .createInst o m → (s.store.findMeta (dbname o)).isSome = true
  quiet : ∀ t, (s.pc t).inEvent = false

section Step

variable {dbname : ℕ → Bytes} {s : Sys} {log : List Note} {t : ℕ} {st : Store} {x : Pc}

/-- The threads, when `t` has done its step and no database was forgotten. -/
theorem OnePool.threads (h : OnePool dbname s log)
    (hm : ∀ db, st.findMeta db = none → s.store.findMeta db = none)
    (hx : ∀ o m, x = .createInst o m → (s.store.findMeta (dbname o)).isSome = true)
    (hq : x.inEvent = false) :
    (∀ u o m, (s.put t (st, x)).pc u = .createInst o m → (st.findMeta (dbname o)).isSome = true) ∧
      ∀ u, ((s.put t (st, x)).pc u).inEvent = false := by
  have hsome : ∀ db, (s.store.findMeta db).isSome = true → (st.findMeta db).isSome = true := by
    intro db hdb
    by_contra hnone
    rw [hm db (Option.not_isSome_iff_eq_none.mp hnone)] at hdb
    cases hdb
  constructor
  · intro u o m hu
    by_cases hut : u = t
    · rw [hut, Sys.put_pc_self] at hu
      exact hsome _ (hx o m hu)
    · rw [Sys.put_pc_of_ne _ _ _ hut] at hu
      exact hsome _ (h.carried u o m hu)
  · intro u
    by_cases hut : u = t
    · rw [hut, Sys.put_pc_self]; exact hq
    · rw [Sys.put_pc_of_ne _ _ _ hut]; exact h.quiet u

/-- A step that leaves `instMap` alone, forgets no database, and does nothing but
    return what `instMap` has. -/
theorem OnePool.keep (h : OnePool dbname s log) {new : List Note}
    (hi : st.instMap = s.store.instMap)
    (hm : ∀ db, st.findMeta db = none → s.store.findMeta db = none)
    (hnew : ∀ e ∈ new, ∃ db c, e = .result db c ∧ ∀ p, c = some p → s.store.instMap db = some p)
    (hx : ∀ o m, x = .createInst o m → (s.store.findMeta (dbname o)).isSome = true)
    (hq : x.inEvent = false) : OnePool dbname (s.put t (st, x)) (log ++ new) := by
  have hold : ∀ db p, .constructed db p ∈ log ++ new → .constructed db p ∈ log := by
    intro db p hp
    refine (List.mem_append.mp hp).resolve_right fun hp => ?_
    obtain ⟨db', c, he, -⟩ := hnew _ hp
    cases he
  obtain ⟨hcarried, hquiet⟩ := h.threads (t := t) hm hx hq
  refine ⟨fun db p hp => ?_, fun db p hp => ?_, fun db p hp => ?_, fun db hdb => ?_, hcarried, hquiet⟩
  · rw [Sys.put_store, hi]
    exact h.constructed db p (hold db p hp)
  · rcases List.mem_append.mp hp with hp | hp
    · exact List.mem_append_left _ (h.result db p hp)
    · obtain ⟨db', c, he, hc⟩ := hnew _ hp
      cases he
      exact List.mem_append_left _ (h.inst db p (hc p rfl))
  · rw [Sys.put_store, hi] at hp
    exact List.mem_append_left _ (h.inst db p hp)
  · rw [Sys.put_store, hi]
    exact h.known db (hm db hdb)

/-- The step that constructs a `RedisClient`: it puts `p` into the entry of `db`,
    which was empty. -/
theorem OnePool.create (h : OnePool dbname s log) {db : Bytes} {p : ℕ}
    (hnone : s.store.instMap db = none) (hknown : (s.store.findMeta db).isSome = true)
    (hi : st.instMap = Function.update s.store.instMap db (some p))
    (hm : ∀ db', st.findMeta db' = s.store.findMeta db')
    (hx : ∀ o m, x ≠ .createInst o m) (hq : x.inEvent = false) :
    OnePool dbname (s.put t (st, x)) (log ++ [.constructed db p, .result db (some p)]) := by
  have hself : st.instMap db = some p := by rw [hi, Function.update_self]
  have hother : ∀ db', db' ≠ db → st.instMap db' = s.store.instMap db' := by
    intro db' hne
    rw [hi, Function.update_of_ne hne]
  have hmem : ∀ db' q, .constructed db' q ∈ log ++ [.constructed db p, .result db (some p)] ↔
      .constructed db' q ∈ log ∨ db' = db ∧ q = p := by
    intro db' q
    simp
  obtain ⟨hcarried, hquiet⟩ := h.threads (t := t) (fun db' hdb => (hm db').symm.trans hdb)
    (fun o m he => absurd he (hx o m)) hq
  refine ⟨fun db' q hq => ?_, fun db' q hq => ?_, fun db' q hq => ?_, fun db' hdb => ?_,
    hcarried, hquiet⟩
  · rw [Sys.put_store]
    rcases (hmem db' q).mp hq with hq | ⟨rfl, rfl⟩
    · have hold : s.store.instMap db' = some q := h.constructed db' q hq
      have hne : db' ≠ db := by
        rintro rfl
        rw [hnone] at hold
        cases hold
      rw [hother db' hne, hold]
    · exact hself
  · refine (hmem db' q).mpr ?_
    rcases List.mem_append.mp hq with hq | hq
    · exact Or.inl (h.result db' q hq)
    · exact Or.inr (by simpa using hq)
  · refine (hmem db' q).mpr ?_
    rw [Sys.put_store] at hq
    by_cases hdb : db' = db
    · rw [hdb, hself] at hq
      exact Or.inr ⟨hdb, (Option.some.inj hq).symm⟩
    · rw [hother db' hdb] at hq
      exact Or.inl (h.inst db' q hq)
  · rw [Sys.put_store, hm] at hdb
    have hne : db' ≠ db := by
      rintro rfl
      rw [hdb] at hknown
      cases hknown
    rw [Sys.put_store, hother db' hne]
    exact h.known db' hdb

/-- A call that is not an event. -/
theorem OnePool.call (h : OnePool dbname s log) {c : Call} (hc : ∀ e, c ≠ .event e)
    (hs : startCall t s.store c = some (st, x)) : OnePool dbname (s.put t (st, x)) (log ++ []) := by
  cases c with
  | command o =>
    cases hs
    exact h.keep rfl (fun _ hm => hm) (by simp) (by simp) rfl
  | event e => exact absurd rfl (hc e)
  | addMeta db m =>
    simp only [startCall] at hs
    split at hs
    · cases hs
      refine h.keep (by simp) ?_ (by simp) (by simp) rfl
      intro db' hnone
      by_contra hsome
      obtain ⟨m', hm'⟩ := Option.ne_none_iff_exists'.mp hsome
      rw [Store.findMeta_addMeta hm'] at hnone
      cases hnone
    · cases hs

/-- A step of a thread. -/
theorem OnePool.localStep {ok : Bool} (h : OnePool dbname s log)
    (hl : LocalStep dbname ok s.store (s.pc t) st x) :
    OnePool dbname (s.put t (st, x)) (log ++ noteOf dbname s.store st (s.pc t) x) := by
  have hquiet : (s.pc t).inEvent = false := h.quiet t
  generalize hpc : s.pc t = pc at hl hquiet
  cases hl with
  | @found o p hi =>
    refine h.keep (by simp) (by simp [Store.findMeta]) ?_ (by simp) rfl
    simpa [noteOf] using hi
  | known hm =>
    refine h.keep rfl (fun _ hm => hm) (by simp [noteOf]) ?_ rfl
    intro o' m' he
    cases he
    exact Option.isSome_iff_exists.mpr ⟨_, hm⟩
  | @already o p m hi =>
    refine h.keep (by simp) (by simp [Store.findMeta]) ?_ (by simp) rfl
    simpa [noteOf] using hi
  | @create o m hnone _ _ =>
    have hnew : noteOf dbname s.store
        { (s.store.newRedisClient m).copied (some s.store.clients) with
          instMap := Function.update s.store.instMap (dbname o) (some s.store.clients) }
        (.createInst o m) (.assign o (some s.store.clients)) =
        [.constructed (dbname o) s.store.clients,
          .result (dbname o) (some s.store.clients)] := if_pos (Nat.lt_succ_self _)
    rw [hnew]
    exact h.create hnone (h.carried t o m hpc) rfl (fun _ => rfl) (by simp) rfl
  | assign =>
    refine h.keep ?_ ?_ (by simp [noteOf]) (by simp) rfl
    · simp [Store.assign]
    · simp [Store.assign, Store.findMeta]
  | notFound _ | unknown _ | failed _ _ | null _ | start _ | finish =>
    exact h.keep rfl (fun _ hm => hm) (by simp [noteOf]) (by simp) rfl
  | unlock => cases hquiet
  | change _ _ => cases hquiet
  | pass => cases hquiet
  | evict => cases hquiet

end Step

/-- The invariant holds as long as no server comes or goes. -/
theorem onePool_invariant {dbname : ℕ → Bytes} {x : Sys × List Note}
    (hx : (noted dbname).ReachableUnder (fun _ a => NoEvent a) x) : OnePool dbname x.1 x.2 := by
  induction hx with
  | @init x hinit =>
    obtain ⟨⟨⟨metas, -, hst⟩, hidle⟩, hlog⟩ := hinit
    constructor <;> simp [hst, hlog, hidle, Store.init, Pc.inEvent]
  | @step x x' a _ ha h ih =>
    obtain ⟨hs, hlog⟩ := Lts.logged_step h
    rw [hlog]
    cases a with
    | call t c =>
      simp only [machine, sysStep] at hs
      split at hs
      · obtain ⟨⟨st, pc⟩, hc, hx'⟩ := Option.map_eq_some_iff.mp hs
        rw [← hx']
        refine ih.call ?_ hc
        rintro e rfl
        exact ha t e rfl
      · cases hs
    | step t ok =>
      obtain ⟨⟨st, pc⟩, hl, hx'⟩ := Option.map_eq_some_iff.mp hs
      rw [← hx']
      simpa [notes] using ih.localStep (.of_eq hl)

/-- The second look under the lock has missed, and the construction fails: the step
    is done, `instMap` is as before, and the pointer is NULL. -/
theorem createInst_failed {dbname : ℕ → Bytes} {x : Sys × List Note} {t o : ℕ} {m : Meta}
    {ok : Bool} (hpc : x.1.pc t = .createInst o m) (hnone : x.1.store.instMap (dbname o) = none)
    (hfail : ¬ ((checkConfig m.toConf).isSome = true ∧ ok = true)) :
    (noted dbname).step x (.step t ok) =
      some (x.1.put t (x.1.store, .assign o none), x.2 ++ [.result (dbname o) none]) := by
  have hcreate : x.1.store.createInst (dbname o) m ok = (x.1.store, none) := by
    unfold Store.createInst
    rw [hnone]
    exact if_neg fun hok => hfail (Bool.and_eq_true_iff.mp hok)
  have hstep : (machine dbname).step x.1 (.step t ok) =
      some (x.1.put t (x.1.store, .assign o none)) := by
    simp only [machine, sysStep, hpc, localStep, hcreate, Option.map_some]
  simp only [noted, Lts.logged, hstep, Option.map_some]
  simp [notes, noteOf, hpc]

/-! ## Main theorem -/

/-- While no server comes or goes: at most one `RedisClient` is constructed for a
    database, and it is not destroyed; all lookups that return one return the
    same; a database that is not known has none; a construction that fails leaves
    `instMap` as it is, and the lookup returns NULL. -/
theorem one_pool (dbname : ℕ → Bytes) (x : Sys × List Note)
    (hx : (noted dbname).ReachableUnder (fun _ a => NoEvent a) x) :
    (∀ db p p', .constructed db p ∈ x.2 → .constructed db p' ∈ x.2 → p = p') ∧
    (∀ db p, .constructed db p ∈ x.2 → (x.1.store.obj p).deletes = 0) ∧
    (∀ db p p', .result db (some p) ∈ x.2 → .result db (some p') ∈ x.2 → p = p') ∧
    (∀ db, x.1.store.findMeta db = none → x.1.store.instMap db = none) ∧
    ∀ t o m ok, x.1.pc t = .createInst o m → x.1.store.instMap (dbname o) = none →
      ¬ ((checkConfig m.toConf).isSome = true ∧ ok = true) →
      ∃ s', (noted dbname).step x (.step t ok) = some (s', x.2 ++ [.result (dbname o) none]) ∧
        s'.store.instMap = x.1.store.instMap ∧ s'.pc t = .assign o none := by
  have h : OnePool dbname x.1 x.2 := onePool_invariant hx
  have hunique : ∀ db p p', .constructed db p ∈ x.2 → .constructed db p' ∈ x.2 → p = p' := by
    intro db p p' hp hp'
    have he := h.constructed db p hp
    rw [h.constructed db p' hp'] at he
    exact (Option.some.inj he).symm
  refine ⟨hunique, fun db p hp => ?_, fun db p p' hp hp' => ?_, h.known,
    fun t o m ok hpc hnone hfail => ?_⟩
  · have ht := tracked_invariant dbname x.1 (Lts.Reachable.of_logged hx.reachable)
    have hslot : x.1.slot (.inst db) = some p := h.constructed db p hp
    exact (ht.deletes_eq_zero (ht.allocated _ p hslot)).mpr ⟨_, hslot⟩
  · exact hunique db p p' (h.result db p hp) (h.result db p' hp')
  · exact ⟨_, createInst_failed hpc hnone hfail, rfl, Sys.put_pc_self ..⟩

/-- A test for `NoEvent`. -/
def noEventCheck (_ : Sys × List Note) : Action → Bool
  | .call _ (.event _) => false
  | _ => true

theorem noEvent_of_check (x : Sys × List Note) (a : Action) (h : noEventCheck x a = true) :
    NoEvent a := by
  rintro t e rfl
  cases h

/-- Three threads miss in `findInst` and copy the `Meta`; the construction of the
    first fails, the second constructs, the third finds what is there. -/
def threeMisses : List Action :=
  (List.range 3).map (fun t => .call t (.command t)) ++
    (List.range 3).flatMap (fun t => List.replicate 2 (.step t true)) ++
    [.step 0 false, .step 1 true, .step 2 true]

theorem one_pool_race :
    ∃ x, (noted fun _ => mockDb).ReachableUnder (fun _ a => NoEvent a) x ∧
      x.2 = [.result mockDb none, .constructed mockDb 0, .result mockDb (some 0),
        .result mockDb (some 0)] ∧
      (x.1.store.obj 0).deletes = 0 := by
  have hrun : ((noted fun _ => mockDb).runIf noEventCheck (Sys.start [(mockDb, mockMeta)], [])
      threeMisses).any (fun x => x.2 = [.result mockDb none, .constructed mockDb 0,
        .result mockDb (some 0), .result mockDb (some 0)]) = true := by decide +kernel
  obtain ⟨x, hx, hlog⟩ := (Option.any_eq_true _ _).mp hrun
  have hlog := of_decide_eq_true hlog
  have hinit : (noted fun _ => mockDb).ReachableUnder (fun _ a => NoEvent a)
      (Sys.start [(mockDb, mockMeta)], []) := .init ⟨.start _ (by decide), rfl⟩
  have hreach := hinit.runIf noEvent_of_check hx
  exact ⟨x, hreach, hlog, (one_pool _ x hreach).2.1 mockDb 0 (by simp [hlog])⟩

end Hiredispool.Config
