import Hiredispool.Config.Update
import Hiredispool.Lib.EventLog

/-!
# Endpoints follow the history

Calls on one `Config` are executed one after the other. What `metaMap` has for a
database depends on the update that registered it and on the events for its
service since then.

* `Registers`: the history splits at the update that registered the database.
* `Rebuilds`: what the next lookup makes of the endpoints that are there.
* `endpoint_history`: the endpoints of a registered database, and what the next
  call does to it.
-/

namespace Hiredispool.Config

open Hiredispool.Pool

/-! ## Histories -/

/-- A call on the store. -/
inductive Op
  | update (keyValues : KeyValues)
  | event (e : ServerEvent)
  | get (dbname : Bytes) (constructed : Bool)

/-- The call is executed. -/
def Store.exec (s : Store) : Op → Store
  | .update keyValues => s.mapValuesConfigUpdate keyValues
  | .event e => s.onServer e
  | .get dbname constructed => (s.getRedisClient dbname constructed).1

/-- The store after the calls `h`. -/
def history (h : List Op) : Store := h.foldl Store.exec (Store.init [])

theorem history_concat (h : List Op) (op : Op) : history (h ++ [op]) = (history h).exec op := by
  rw [history, List.foldl_append]; rfl

/-- The attributes that an update has for `db`. -/
def Op.attrs (db : Bytes) : Op → Option Attrs
  | .update keyValues => keyValues.lookup db
  | _ => none

/-- `db` was registered with `attrs`, and the calls `later` came after that. -/
def Registers (db : Bytes) (attrs : Attrs) (h later : List Op) : Prop :=
  ∃ earlier op, h = earlier ++ op :: later ∧ op.attrs db = some attrs ∧
    ∀ op' ∈ earlier, op'.attrs db = none

/-- What an event for the service of a database says of the endpoint `ep`. -/
def ServerEvent.verdict (attrs : Attrs) (ep : RedisEndpoint) (e : ServerEvent) : Option Bool :=
  if (convert attrs).isFor e.server = true ∧ e.server.endpoint = ep then
    some (match e with
      | .onAddServer _ => true
      | .onRemoveServer _ => false)
  else none

/-- The same for a call. -/
def Op.verdict (attrs : Attrs) (ep : RedisEndpoint) : Op → Option Bool
  | .event e => e.verdict attrs ep
  | _ => none

/-- `ep` is one of the two endpoints that the attributes give. -/
def Attrs.Static (attrs : Attrs) (ep : RedisEndpoint) : Prop :=
  (∃ host port, attrs.find "host" = some host ∧ attrs.find "port" = some port ∧
      ep = ⟨cStr host, atoi port⟩) ∨
    ∃ host port, attrs.find "backup_host" = some host ∧ attrs.find "backup_port" = some port ∧
      ep = ⟨cStr host, atoi port⟩

theorem mem_addStatic {attrs : Attrs} {host port : String} {m : Meta} {ep : RedisEndpoint} :
    ep ∈ (addStatic attrs host port m).endpoints ↔
      (∃ h p, attrs.find host = some h ∧ attrs.find port = some p ∧ ep = ⟨cStr h, atoi p⟩) ∨
        ep ∈ m.endpoints := by
  unfold addStatic
  cases hh : attrs.find host with
  | none => simp
  | some h =>
    cases hp : attrs.find port with
    | none => simp
    | some p => simp [Meta.mem_addEndpoint]

theorem mem_convert {attrs : Attrs} {ep : RedisEndpoint} :
    ep ∈ (convert attrs).endpoints ↔ attrs.Static ep := by
  unfold convert Attrs.Static
  rw [mem_addStatic, mem_addStatic]
  simp [or_comm]

/-! ## The invariant -/

/-- What `metaMap` has for a registered database. -/
structure Follows (db : Bytes) (h : List Op) (m : Meta) (attrs : Attrs) (later : List Op) : Prop where
  registers : Registers db attrs h later
  nodup : m.endpoints.Nodup
  isFor : ∀ server, m.isFor server = (convert attrs).isFor server
  mem : ∀ ep, ep ∈ m.endpoints ↔
    EventLog.decides (EventLog.last (Op.verdict attrs ep) later) (attrs.Static ep)

theorem Registers.concat {db : Bytes} {attrs : Attrs} {h later : List Op}
    (hr : Registers db attrs h later) (op : Op) : Registers db attrs (h ++ [op]) (later ++ [op]) := by
  obtain ⟨earlier, op', rfl, hop', hearlier⟩ := hr
  exact ⟨earlier, op', by simp, hop', hearlier⟩

/-- A call that leaves the `Meta` alone, and has no verdict. -/
theorem Follows.keep {db : Bytes} {h later : List Op} {m : Meta} {attrs : Attrs}
    (hf : Follows db h m attrs later) {op : Op} (hop : ∀ ep, op.verdict attrs ep = none) :
    Follows db (h ++ [op]) m attrs (later ++ [op]) := by
  refine ⟨hf.registers.concat op, hf.nodup, hf.isFor, fun ep => ?_⟩
  rw [EventLog.last_concat, hop ep]
  exact hf.mem ep

/-- An event for the service of the database. -/
theorem Follows.event {db : Bytes} {h later : List Op} {m : Meta} {attrs : Attrs} {e : ServerEvent}
    (hf : Follows db h m attrs later) (he : m.isFor e.server = true) :
    Follows db (h ++ [.event e]) (e.apply m) attrs (later ++ [.event e]) := by
  have hfor : (convert attrs).isFor e.server = true := (hf.isFor e.server).symm.trans he
  refine ⟨hf.registers.concat _, Meta.nodup_apply hf.nodup e, fun server => ?_, fun ep => ?_⟩
  · rw [Meta.isFor_apply]; exact hf.isFor server
  · rw [EventLog.last_concat, EventLog.decides_or, ← hf.mem ep]
    show _ ↔ EventLog.decides (e.verdict attrs ep) _
    unfold ServerEvent.verdict
    cases e with
    | onAddServer server =>
      show ep ∈ (m.addEndpoint server.endpoint).endpoints ↔ _
      rw [Meta.mem_addEndpoint]
      by_cases hep : server.endpoint = ep
      · rw [if_pos ⟨hfor, hep⟩]
        exact iff_of_true (Or.inl hep.symm) rfl
      · rw [if_neg fun h => hep h.2]
        exact or_iff_right fun h => hep h.symm
    | onRemoveServer server =>
      show ep ∈ (m.removeEndpoint server.endpoint).endpoints ↔ _
      rw [Meta.mem_removeEndpoint]
      by_cases hep : server.endpoint = ep
      · rw [if_pos ⟨hfor, hep⟩]
        exact iff_of_false (fun h => h.1 hep.symm) (by simp [EventLog.decides])
      · rw [if_neg fun h => hep h.2]
        exact and_iff_right fun h => hep h.symm

/-- What the store has for each database. -/
structure Recorded (h : List Op) (s : Store) : Prop where
  ordered : s.Ordered
  unknown : ∀ db, s.findMeta db = none → ∀ op ∈ h, op.attrs db = none
  known : ∀ db m, s.findMeta db = some m → ∃ attrs later, Follows db h m attrs later

section Step

variable {h : List Op} {s : Store}

/-- A step that registers `db` with the attributes `attrs`. -/
theorem Recorded.register (hr : Recorded h s) {db : Bytes} {op : Op} {attrs : Attrs}
    (hnone : s.findMeta db = none) (hop : op.attrs db = some attrs) :
    Follows db (h ++ [op]) (convert attrs) attrs [] :=
  ⟨⟨h, op, rfl, hop, hr.unknown db hnone⟩, nodup_convert attrs, fun _ => rfl, fun _ => mem_convert⟩

theorem Recorded.concat_unknown (hr : Recorded h s) {db : Bytes} {op : Op}
    (hnone : s.findMeta db = none) (hop : op.attrs db = none) :
    ∀ op' ∈ h ++ [op], op'.attrs db = none := by
  intro op' hmem
  rcases List.mem_append.mp hmem with hmem | hmem
  · exact hr.unknown db hnone op' hmem
  · rw [List.mem_singleton.mp hmem]; exact hop

theorem Recorded.update (hr : Recorded h s) (keyValues : KeyValues) :
    Recorded (h ++ [.update keyValues]) (s.mapValuesConfigUpdate keyValues) := by
  refine ⟨hr.ordered.update keyValues, fun db hnone => ?_, fun db m hm => ?_⟩
  · rw [Store.findMeta_mapValuesConfigUpdate, Option.or_eq_none_iff, Option.map_eq_none_iff] at hnone
    exact hr.concat_unknown hnone.1 hnone.2
  · rw [Store.findMeta_mapValuesConfigUpdate] at hm
    rcases Option.or_eq_some_iff.mp hm with hm | ⟨hnone, hm⟩
    · obtain ⟨attrs, later, hf⟩ := hr.known db m hm
      exact ⟨attrs, _, hf.keep fun _ => rfl⟩
    · obtain ⟨attrs, hattrs, rfl⟩ := Option.map_eq_some_iff.mp hm
      exact ⟨attrs, [], hr.register hnone hattrs⟩

theorem Recorded.event (hr : Recorded h s) (e : ServerEvent) :
    Recorded (h ++ [.event e]) (s.onServer e) := by
  refine ⟨hr.ordered.onServer e, fun db hnone => ?_, fun db m hm => ?_⟩
  · rw [Store.findMeta_onServer hr.ordered.keys] at hnone
    have hnone' : s.findMeta db = none := by
      split at hnone
      · exact Option.map_eq_none_iff.mp hnone
      · exact hnone
    exact hr.concat_unknown hnone' rfl
  · rw [Store.findMeta_onServer hr.ordered.keys] at hm
    split at hm
    · rename_i hc
      obtain ⟨m', hm', rfl⟩ := Option.map_eq_some_iff.mp hm
      obtain ⟨attrs, later, hf⟩ := hr.known db m' hm'
      have hfor : m'.isFor e.server = true := by simpa [Store.concerns, hm'] using hc
      exact ⟨attrs, _, hf.event hfor⟩
    · rename_i hc
      obtain ⟨attrs, later, hf⟩ := hr.known db m hm
      have hfor : m.isFor e.server = false := by simpa [Store.concerns, hm] using hc
      refine ⟨attrs, _, hf.keep fun ep => ?_⟩
      show e.verdict attrs ep = none
      unfold ServerEvent.verdict
      rw [← hf.isFor, hfor, if_neg (by simp)]

theorem Recorded.get (hr : Recorded h s) (dbname : Bytes) (constructed : Bool) :
    Recorded (h ++ [.get dbname constructed]) (s.getRedisClient dbname constructed).1 := by
  refine ⟨hr.ordered.getRedisClient dbname constructed, fun db hnone => ?_, fun db m hm => ?_⟩
  · rw [Store.findMeta_getRedisClient] at hnone
    exact hr.concat_unknown hnone rfl
  · rw [Store.findMeta_getRedisClient] at hm
    obtain ⟨attrs, later, hf⟩ := hr.known db m hm
    exact ⟨attrs, _, hf.keep fun _ => rfl⟩

end Step

/-- By induction on the history. -/
theorem recorded_history (h : List Op) : Recorded h (history h) := by
  induction h using List.reverseRecOn with
  | nil =>
    refine ⟨Store.ordered_init, fun _ _ op hop => ?_, fun db m hm => ?_⟩
    · cases hop
    · cases hm
  | append_singleton h op ih =>
    rw [history_concat]
    cases op with
    | update keyValues => exact ih.update keyValues
    | event e => exact ih.event e
    | get dbname constructed => exact ih.get dbname constructed

/-! ## The next lookup -/

/-- No lookup of `db`. -/
def Op.notGet (db : Bytes) : Op → Bool
  | .get dbname _ => dbname ≠ db
  | _ => true

/-- An instance that is gone stays gone until the next lookup. -/
theorem instMap_none {db : Bytes} {ops : List Op} (hops : ∀ op ∈ ops, op.notGet db = true)
    {h : List Op} (hnone : (history h).instMap db = none) :
    (history (h ++ ops)).instMap db = none := by
  induction ops using List.reverseRecOn with
  | nil => simpa using hnone
  | append_singleton ops op ih =>
    have ih := ih fun op' hop' => hops op' (List.mem_append_left _ hop')
    have hop := hops op (by simp)
    rw [← List.append_assoc, history_concat]
    cases op with
    | update keyValues =>
      exact (congrFun (Store.mapValuesConfigUpdate_frame keyValues _).1 db).trans ih
    | event e =>
      refine (Store.instMap_onServer (recorded_history _).ordered.keys e db).trans ?_
      split
      · rfl
      · exact ih
    | get dbname constructed =>
      have hne : db ≠ dbname := by
        have : dbname ≠ db := of_decide_eq_true hop
        exact this.symm
      exact (Store.instMap_getRedisClient constructed _ hne).trans ih

/-- Without endpoints there is no pool. -/
theorem checkConfig_nil {m : Meta} (h : m.endpoints = []) : checkConfig m.toConf = none := by
  have hnone : m.toConf.endpoints = none := by simp [Meta.toConf, h]
  unfold checkConfig
  split
  · rfl
  · rename_i l hl
    rw [hnone] at hl; cases hl

/-- `redis_pool_create` accepts the endpoints of a `Meta` if there are some, each has a host and
    a port between 1 and 65535, and there are not too many sockets. -/
theorem checkConfig_toConf_iff {m : Meta} :
    (checkConfig m.toConf).isSome = true ↔ m.endpoints ≠ [] ∧
      (∀ ep ∈ m.endpoints, ep.host ≠ [] ∧ 0 < ep.port ∧ ep.port ≤ 65535) ∧
      m.numRedisSocks ≤ 1000 := by
  have hendpoint : ∀ ep : RedisEndpoint,
      endpointOk ep = true ↔ ep.host ≠ [] ∧ 0 < ep.port ∧ ep.port ≤ 65535 := by
    intro ep
    simp [endpointOk, and_assoc]
  rw [Option.isSome_iff_exists, checkConfig_isSome_iff]
  constructor
  · rintro ⟨⟨l, hl, hall⟩, hnum, hsocks⟩
    have hne : m.endpoints ≠ [] := by
      intro hnil
      have hlen : (1 : ℤ) ≤ (m.endpoints.length : ℤ) := hnum
      rw [hnil] at hlen
      exact absurd hlen (by decide)
    obtain rfl : m.endpoints = l := Option.some.inj ((if_neg hne).symm.trans hl)
    refine ⟨hne, fun ep hep => (hendpoint ep).mp (hall ep ?_), hsocks⟩
    rwa [show m.toConf.numEndpoints.toNat = m.endpoints.length from Int.toNat_natCast _,
      List.take_length]
  · rintro ⟨hne, hall, hsocks⟩
    refine ⟨⟨m.endpoints, if_neg hne, fun ep hep => ?_⟩, ?_, hsocks⟩
    · exact (hendpoint ep).mpr (hall ep (List.mem_of_mem_take hep))
    · have hpos := List.length_pos_of_ne_nil hne
      show (1 : ℤ) ≤ (m.endpoints.length : ℤ)
      omega

/-- The pool has its own copy of these endpoints, all of them and in their order. -/
theorem checkConfig_toConf_endpoints {m : Meta} {c : PoolConfig} (h : checkConfig m.toConf = some c) :
    m.toConf.endpoints = some m.endpoints ∧ c.endpoints = m.endpoints := by
  have hne := (checkConfig_toConf_iff.mp (by rw [h]; rfl)).1
  have hconf : m.toConf.endpoints = some m.endpoints := if_neg hne
  refine ⟨hconf, ((checkConfig_some h).endpoints _ hconf).trans ?_⟩
  rw [show m.toConf.numEndpoints.toNat = m.endpoints.length from Int.toNat_natCast _, List.take_length]

/-- A pool is created from an accepted configuration, unless `pthread_mutex_init` fails, and keeps
    it. -/
theorem redisPoolCreate_config {config : RedisConfig} {c : PoolConfig}
    (hc : checkConfig config = some c) (env : Env) (w : World) :
    ((∀ i, env.mutexInit i = 0) → ∃ pool, redisPoolCreate env config w = .ok pool) ∧
      ∀ pool, redisPoolCreate env config w = .ok pool → pool.config = c := by
  rcases redisPoolCreate_cases (P := fun _ _ => True) config w (fun _ _ => trivial)
    (fun _ _ _ => trivial) with ⟨hnone, -⟩ | ⟨c', hc', s, hconf, -, ⟨-, -, he⟩ | ⟨i, -, hmutex, -, he⟩⟩
  · rw [hc] at hnone; cases hnone
  · refine ⟨fun _ => ⟨s, he⟩, fun pool h => ?_⟩
    obtain rfl := Except.ok.inj (he.symm.trans h)
    exact hconf.trans (Option.some.inj (hc'.symm.trans hc))
  · refine ⟨fun hall => absurd (hall i) hmutex, fun pool h => ?_⟩
    rw [he] at h; cases h

/-- What a lookup of a database `db` does that has no instance, but the `Meta` `m`. -/
structure Rebuilds (db : Bytes) (m : Meta) (s : Store) : Prop where
  /-- When `redis_pool_create` accepts the configuration made of `m`. -/
  accepted_iff : (checkConfig m.toConf).isSome = true ↔ m.endpoints ≠ [] ∧
    (∀ ep ∈ m.endpoints, ep.host ≠ [] ∧ 0 < ep.port ∧ ep.port ≤ 65535) ∧ m.numRedisSocks ≤ 1000
  /-- The configuration has the endpoints of `m`, exactly these and in their order, and so has
      the pool, which is created from it unless `pthread_mutex_init` fails. -/
  endpoints : ∀ c, checkConfig m.toConf = some c →
    m.toConf.endpoints = some m.endpoints ∧ m.toConf.numEndpoints = m.endpoints.length ∧
      c.endpoints = m.endpoints ∧
      ∀ env w, ((∀ i, env.mutexInit i = 0) → ∃ pool, redisPoolCreate env m.toConf w = .ok pool) ∧
        ∀ pool, redisPoolCreate env m.toConf w = .ok pool → pool.config = c
  /-- If it is accepted, the `RedisClient` that is constructed from it is returned and put into
      `instMap`. -/
  rebuilt : (checkConfig m.toConf).isSome = true → ∃ s',
    s.getRedisClient db true = (s', some s.clients) ∧ s'.instMap db = some s.clients ∧
      (s'.obj s.clients).conf = m
  /-- Otherwise NULL is returned and nothing changes. -/
  refused : checkConfig m.toConf = none →
    ∀ constructed, s.getRedisClient db constructed = (s, none)
  /-- So it is if the constructor throws. -/
  thrown : s.getRedisClient db false = (s, none)

theorem rebuilds {db : Bytes} {m : Meta} {s : Store} (hm : s.findMeta db = some m)
    (hi : s.instMap db = none) : Rebuilds db m s := by
  have hcases : ∀ constructed,
      ((checkConfig m.toConf).isSome = true ∧ constructed = true ∧
          s.getRedisClient db constructed =
            ({ (s.newRedisClient m).copied (some s.clients) with
                instMap := Function.update s.instMap db (some s.clients) }, some s.clients)) ∨
        ¬((checkConfig m.toConf).isSome = true ∧ constructed = true) ∧
          s.getRedisClient db constructed = (s, none) := by
    intro constructed
    rcases s.getRedisClient_cases db constructed with ⟨p, hp, -⟩ | ⟨-, ⟨m', hm', h1, h2, he⟩ | ⟨hno, he⟩⟩
    · rw [hi] at hp; cases hp
    · obtain rfl := Option.some.inj (hm.symm.trans hm')
      exact Or.inl ⟨h1, h2, he⟩
    · exact Or.inr ⟨hno m hm, he⟩
  refine ⟨checkConfig_toConf_iff, fun c hc => ?_, fun hok => ?_, fun hbad constructed => ?_, ?_⟩
  · obtain ⟨hconf, hcopy⟩ := checkConfig_toConf_endpoints hc
    exact ⟨hconf, rfl, hcopy, redisPoolCreate_config hc⟩
  · rcases hcases true with ⟨-, -, he⟩ | ⟨hno, -⟩
    · exact ⟨_, he, by simp, by simp [Store.newRedisClient]⟩
    · exact absurd ⟨hok, rfl⟩ hno
  · rcases hcases constructed with ⟨hok, -⟩ | ⟨-, he⟩
    · rw [hbad] at hok; cases hok
    · exact he
  · rcases hcases false with ⟨-, hf, -⟩ | ⟨-, he⟩
    · cases hf
    · exact he

/-! ## The last event -/

/-- The databases that are known are those that an update had. -/
theorem known_iff (h : List Op) (db : Bytes) :
    ((history h).findMeta db).isSome = true ↔ ∃ op ∈ h, (op.attrs db).isSome = true := by
  have hr := recorded_history h
  constructor
  · intro hsome
    obtain ⟨m, hm⟩ := Option.isSome_iff_exists.mp hsome
    obtain ⟨attrs, later, hf⟩ := hr.known db m hm
    obtain ⟨earlier, op, rfl, hop, -⟩ := hf.registers
    exact ⟨op, by simp, by rw [hop]; rfl⟩
  · rintro ⟨op, hmem, hop⟩
    by_contra hnone
    rw [hr.unknown db (Option.not_isSome_iff_eq_none.mp hnone) op hmem] at hop
    cases hop

/-- `server` is one of the service of `m`, and `ep` is its endpoint (lines 223–230 and
    243–250). -/
def PServer.Maps (server : PServer) (m : Meta) (ep : RedisEndpoint) : Prop :=
  server.name = m.s2sname ∧ server.groupId = m.groupId ∧ ep.host = ipNtoa server.ip ∧
    ep.port = server.listenPort

section Last

variable {db : Bytes} {h later : List Op} {m : Meta} {attrs : Attrs}

theorem Follows.maps_iff (hf : Follows db h m attrs later) {server : PServer} {ep : RedisEndpoint} :
    server.Maps m ep ↔ (convert attrs).isFor server = true ∧ server.endpoint = ep := by
  rw [← hf.isFor]
  cases ep
  simp only [PServer.Maps, Meta.isFor, PServer.endpoint, RedisEndpoint.mk.injEq, decide_eq_true_eq]
  grind

/-- The calls that have no verdict on `ep`. -/
theorem Follows.verdict_eq_none_iff (hf : Follows db h m attrs later) {ep : RedisEndpoint} {op : Op} :
    op.verdict attrs ep = none ↔ ∀ e, op = .event e → ¬e.server.Maps m ep := by
  cases op with
  | event e =>
    show e.verdict attrs ep = none ↔ _
    unfold ServerEvent.verdict
    rw [ite_eq_right_iff]
    constructor
    · rintro hno e' heq hmaps
      obtain rfl := Op.event.inj heq
      cases hno (hf.maps_iff.mp hmaps)
    · intro hno hyes
      exact absurd (hf.maps_iff.mpr hyes) (hno e rfl)
  | update keyValues => exact iff_of_true rfl (by rintro e ⟨⟩)
  | get dbname constructed => exact iff_of_true rfl (by rintro e ⟨⟩)

/-- The calls that add `ep`. -/
theorem Follows.verdict_eq_true_iff (hf : Follows db h m attrs later) {ep : RedisEndpoint} {op : Op} :
    op.verdict attrs ep = some true ↔
      ∃ server, op = .event (.onAddServer server) ∧ server.Maps m ep := by
  cases op with
  | event e =>
    show e.verdict attrs ep = some true ↔ _
    unfold ServerEvent.verdict
    rw [Option.ite_none_right_eq_some]
    constructor
    · rintro ⟨hyes, hadd⟩
      cases e with
      | onAddServer server => exact ⟨server, rfl, hf.maps_iff.mpr hyes⟩
      | onRemoveServer server => cases hadd
    · rintro ⟨server, heq, hmaps⟩
      obtain rfl := Op.event.inj heq
      exact ⟨hf.maps_iff.mp hmaps, rfl⟩
  | update keyValues => exact iff_of_false (by rintro ⟨⟩) (by rintro ⟨server, ⟨⟩, -⟩)
  | get dbname constructed => exact iff_of_false (by rintro ⟨⟩) (by rintro ⟨server, ⟨⟩, -⟩)

/-- An endpoint is there if the last event that maps to it is an add, or there is none and it is
    a static one. -/
theorem Follows.mem_iff (hf : Follows db h m attrs later) (ep : RedisEndpoint) :
    ep ∈ m.endpoints ↔
      (∃ before server behind, later = before ++ .event (.onAddServer server) :: behind ∧
          server.Maps m ep ∧ ∀ e, .event e ∈ behind → ¬e.server.Maps m ep) ∨
        (∀ e, .event e ∈ later → ¬e.server.Maps m ep) ∧ attrs.Static ep := by
  have hall : ∀ ops : List Op, (∀ op ∈ ops, op.verdict attrs ep = none) ↔
      ∀ e, .event e ∈ ops → ¬e.server.Maps m ep := by
    intro ops
    constructor
    · exact fun hno e he => hf.verdict_eq_none_iff.mp (hno _ he) e rfl
    · exact fun hno op hop => hf.verdict_eq_none_iff.mpr fun e heq => hno e (heq ▸ hop)
  rw [hf.mem ep, EventLog.decides_iff, EventLog.last_eq_none_iff, hall, EventLog.last_eq_some_iff]
  refine or_congr_left ⟨?_, ?_⟩
  · rintro ⟨before, op, behind, rfl, hop, hbehind⟩
    obtain ⟨server, rfl, hmaps⟩ := hf.verdict_eq_true_iff.mp hop
    exact ⟨before, server, behind, rfl, hmaps, (hall behind).mp hbehind⟩
  · rintro ⟨before, server, behind, rfl, hmaps, hbehind⟩
    exact ⟨before, _, behind, rfl, hf.verdict_eq_true_iff.mpr ⟨server, rfl, hmaps⟩,
      (hall behind).mpr hbehind⟩

theorem addStatic_service (attrs : Attrs) (host port : String) (m : Meta) :
    (addStatic attrs host port m).s2sname = m.s2sname ∧
      (addStatic attrs host port m).groupId = m.groupId := by
  unfold addStatic Meta.addEndpoint
  split
  · split <;> exact ⟨rfl, rfl⟩
  · exact ⟨rfl, rfl⟩

/-- The service of a database is that of its attributes. -/
theorem convert_service (attrs : Attrs) :
    (convert attrs).s2sname = (attrs.find "s2sname").getD [] ∧
      (convert attrs).groupId = UInt32.ofInt ((attrs.find "groupId").elim 0 atoi) := by
  obtain ⟨hname, hgroup⟩ := addStatic_service attrs "backup_host" "backup_port" (addStatic attrs
    "host" "port" ⟨attrs.int "connect_timeout" 500, attrs.int "net_readwrite_timeout" 500,
      attrs.int "num_redis_socks" 100, attrs.int "connect_failure_retry_delay" 1, [],
      (attrs.find "s2sname").getD [], UInt32.ofInt (attrs.int "groupId" 0)⟩)
  obtain ⟨hname', hgroup'⟩ := addStatic_service attrs "host" "port" ⟨attrs.int "connect_timeout" 500,
    attrs.int "net_readwrite_timeout" 500, attrs.int "num_redis_socks" 100,
    attrs.int "connect_failure_retry_delay" 1, [], (attrs.find "s2sname").getD [],
    UInt32.ofInt (attrs.int "groupId" 0)⟩
  exact ⟨hname.trans hname', hgroup.trans hgroup'⟩

/-- Events leave the service alone. -/
theorem Follows.service (hf : Follows db h m attrs later) :
    m.s2sname = (attrs.find "s2sname").getD [] ∧
      m.groupId = UInt32.ofInt ((attrs.find "groupId").elim 0 atoi) := by
  obtain ⟨hname, hgroup⟩ := convert_service attrs
  have hsame := hf.isFor ⟨m.s2sname, m.groupId, 0, 0⟩
  rw [Meta.isFor, Meta.isFor, decide_eq_true (p := m.s2sname = m.s2sname ∧ m.groupId = m.groupId)
    ⟨rfl, rfl⟩] at hsame
  obtain ⟨hname', hgroup'⟩ := of_decide_eq_true hsame.symm
  exact ⟨hname'.symm.trans hname, hgroup'.symm.trans hgroup⟩

end Last

/-! ## Main theorem -/

/-- **The endpoints of a database follow the history**, for any sequence `h` of
    calls. A database is known iff an update had it. Then its service is that of the update that
    registered it, its endpoints are distinct, and `ep` is one of them iff the last event after
    the registration whose server is of that service and maps to `ep` has added it, or there was
    none and `ep` is one of the two static endpoints. A later update changes nothing, nor does
    an event for other services; after an event for its service, whatever comes next, the next
    lookup creates the pool from the endpoints that are there by then. -/
theorem endpoint_history (h : List Op) (db : Bytes) :
    (((history h).findMeta db).isSome = true ↔ ∃ op ∈ h, (op.attrs db).isSome = true) ∧
      ∀ m, (history h).findMeta db = some m →
        m.endpoints.Nodup ∧
        (∃ attrs later, Registers db attrs h later ∧
          m.s2sname = (attrs.find "s2sname").getD [] ∧
          m.groupId = UInt32.ofInt ((attrs.find "groupId").elim 0 atoi) ∧
          ∀ ep, ep ∈ m.endpoints ↔
            (∃ before server behind, later = before ++ .event (.onAddServer server) :: behind ∧
                server.Maps m ep ∧ ∀ e, .event e ∈ behind → ¬e.server.Maps m ep) ∨
              (∀ e, .event e ∈ later → ¬e.server.Maps m ep) ∧
                ((∃ host port, attrs.find "host" = some host ∧ attrs.find "port" = some port ∧
                    ep = ⟨cStr host, atoi port⟩) ∨
                  ∃ host port, attrs.find "backup_host" = some host ∧
                    attrs.find "backup_port" = some port ∧ ep = ⟨cStr host, atoi port⟩)) ∧
        (∀ keyValues, let s := (history h).mapValuesConfigUpdate keyValues
          s.findMeta db = some m ∧ s.instMap = (history h).instMap ∧ s.obj = (history h).obj) ∧
        (∀ e : ServerEvent, ¬(e.server.name = m.s2sname ∧ e.server.groupId = m.groupId) →
          let s := (history h).onServer e
          s.findMeta db = some m ∧ s.instMap db = (history h).instMap db ∧
          ∀ p, (history h).instMap db = some p → s.obj p = (history h).obj p) ∧
        (∀ e : ServerEvent, e.server.name = m.s2sname → e.server.groupId = m.groupId →
          ∀ ops, (∀ op ∈ ops, op.notGet db = true) →
          let s := history (h ++ .event e :: ops)
          s.instMap db = none ∧ ∃ m', s.findMeta db = some m' ∧ Rebuilds db m' s ∧
            (m'.endpoints = [] → checkConfig m'.toConf = none)) := by
  have hr := recorded_history h
  refine ⟨known_iff h db, fun m hm => ?_⟩
  obtain ⟨attrs, later, hf⟩ := hr.known db m hm
  obtain ⟨hname, hgroup⟩ := hf.service
  refine ⟨hf.nodup, ⟨attrs, later, hf.registers, hname, hgroup, hf.mem_iff⟩, fun keyValues => ?_,
    fun e he => ?_, fun e hen heg ops hops => ?_⟩
  · obtain ⟨hinst, -, hobj⟩ := Store.mapValuesConfigUpdate_frame keyValues (history h)
    refine ⟨?_, hinst, hobj⟩
    rw [Store.findMeta_mapValuesConfigUpdate, hm, Option.some_or]
  · have hfor : m.isFor e.server = false :=
      decide_eq_false fun hc => he ⟨hc.1.symm, hc.2.symm⟩
    have hno : (history h).concerns e db = false := by simp [Store.concerns, hm, hfor]
    refine ⟨?_, ?_, fun p hp => Store.obj_onServer hr.ordered hno hp⟩
    · rw [Store.findMeta_onServer hr.ordered.keys, hno, if_neg (by simp), hm]
    · rw [Store.instMap_onServer hr.ordered.keys, hno, if_neg (by simp)]
  · have hfor : m.isFor e.server = true := decide_eq_true ⟨hen.symm, heg.symm⟩
    have hyes : (history h).concerns e db = true := by simp [Store.concerns, hm, hfor]
    have hevicted : (history (h ++ [.event e])).instMap db = none := by
      rw [history_concat]
      exact (Store.instMap_onServer hr.ordered.keys e db).trans (if_pos hyes)
    have hnone : (history (h ++ .event e :: ops)).instMap db = none := by
      rw [List.append_cons]
      exact instMap_none hops hevicted
    have hknown : ((history (h ++ .event e :: ops)).findMeta db).isSome = true := by
      rw [known_iff]
      obtain ⟨op, hmem, hop⟩ := (known_iff h db).mp (by rw [hm]; rfl)
      exact ⟨op, List.mem_append_left _ hmem, hop⟩
    obtain ⟨m', hm'⟩ := Option.isSome_iff_exists.mp hknown
    exact ⟨hnone, m', hm', rebuilds hm' hnone, checkConfig_nil⟩

/-- Attributes with one static endpoint and the service of the mock servers. -/
def mockAttrs : Attrs where
  entries :=
    [(.ofString "host", .ofString "127.0.0.1"), (.ofString "port", .ofString "6379"),
      (.ofString "s2sname", mockDb), (.ofString "groupId", .ofString "100")]
  nodup := by decide
  host_lt := by
    intro key hkey v hv
    rcases List.mem_pair.mp hkey with rfl | rfl
    · rw [← show Bytes.ofString "127.0.0.1" = v from Option.some.inj hv]
      decide
    · cases hv

example : convert mockAttrs = mockMeta := by decide +kernel

/-- The database is registered and used, and a server is added. -/
def mockHistory : List Op :=
  [.update [(mockDb, mockAttrs)], .get mockDb true, .event (.onAddServer mockServer)]

/-- The endpoints after `mockHistory`, and when the same server is removed: then the next lookup
    creates a pool with the static endpoint alone. -/
theorem endpoint_history_mock :
    (∃ m, (history mockHistory).findMeta mockDb = some m ∧
      m.endpoints = [⟨.ofString "127.0.0.1", 6379⟩, ⟨.ofString "106.38.198.210", 9403⟩] ∧
      m.endpoints.Nodup ∧ ∃ attrs later, Registers mockDb attrs mockHistory later ∧
        m.s2sname = (attrs.find "s2sname").getD []) ∧
    ∃ m', (history (mockHistory ++ [.event (.onRemoveServer mockServer)])).findMeta mockDb = some m' ∧
      m'.endpoints = [⟨.ofString "127.0.0.1", 6379⟩] ∧
      (checkConfig m'.toConf).isSome = true ∧
      Rebuilds mockDb m' (history (mockHistory ++ [.event (.onRemoveServer mockServer)])) := by
  have hbefore : ((history mockHistory).findMeta mockDb).map (fun m => (m.endpoints, m.s2sname,
      m.groupId)) = some ([⟨.ofString "127.0.0.1", 6379⟩, ⟨.ofString "106.38.198.210", 9403⟩],
        mockDb, 100) := by decide +kernel
  have hafter : ((history (mockHistory ++ [.event (.onRemoveServer mockServer)])).findMeta
      mockDb).map Meta.endpoints = some [⟨.ofString "127.0.0.1", 6379⟩] := by decide +kernel
  have haccepted : ((history (mockHistory ++ [.event (.onRemoveServer mockServer)])).findMeta
      mockDb).map (fun m => (checkConfig m.toConf).isSome) = some true := by decide +kernel
  obtain ⟨m, hm, heq⟩ := Option.map_eq_some_iff.mp hbefore
  obtain ⟨heps, heq⟩ := Prod.mk.inj heq
  obtain ⟨hname, hgroup⟩ := Prod.mk.inj heq
  obtain ⟨hnodup, ⟨attrs, later, hreg, hservice, -⟩, -, -, hevent⟩ :=
    (endpoint_history mockHistory mockDb).2 m hm
  obtain ⟨-, m', hm', hre, -⟩ :=
    hevent (.onRemoveServer mockServer) hname.symm hgroup.symm [] (by simp)
  rw [hm'] at hafter haccepted
  exact ⟨⟨m, hm, heps, hnodup, attrs, later, hreg, hservice⟩, m', hm', Option.some.inj hafter,
    Option.some.inj haccepted, hre⟩

end Hiredispool.Config
