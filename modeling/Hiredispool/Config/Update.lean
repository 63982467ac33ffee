import Hiredispool.Config.Machine

/-!
# Updates of the configuration store

Model of `experimental/redisclient/RedisClientYaf.cpp`, lines 205–318: the whole
calls of `MapValuesConfigUpdate`, `onAddServer`, `onRemoveServer` and
`getRedisClient`, each executed without another call in between.

* `convert`: what the attributes of a database become.
* `findMeta_mapValuesConfigUpdate`, `findMeta_onServer`, `instMap_onServer`: what
  a call does to one database.
* `getRedisClient_steps`, `onServer_steps`: the calls are the runs of `machine`
  in which one thread takes all the steps.
-/

namespace Hiredispool.Config

open Hiredispool.Pool

/-! ## Attributes -/

/-- `isspace` in the C locale. -/
def isSpace (b : UInt8) : Bool := b = 32 ∨ 9 ≤ b ∧ b ≤ 13

/-- The value of the leading decimal digits. -/
def digits (s : Bytes) : ℤ :=
  (s.takeWhile fun b => 48 ≤ b ∧ b ≤ 57).foldl (fun n b => 10 * n + (b.toNat - 48)) 0

/-- `strtol(s, NULL, 10)` with a 64-bit `long`. -/
def strtol (s : Bytes) : ℤ :=
  match s.dropWhile isSpace with
  | 45 :: rest => max (-9223372036854775808) (-digits rest)
  | 43 :: rest => min 9223372036854775807 (digits rest)
  | rest => min 9223372036854775807 (digits rest)

/-- `atoi(s.c_str())`: the conversion of a `long` to `int`. -/
def atoi (s : Bytes) : ℤ := (strtol (cStr s)).bmod 4294967296

example : atoi [32, 45, 52, 50, 120] = -42 := by decide

/-- The attributes of a database (`map<string, string>`). The hosts fit into the
    `host[256]` that they are copied to. -/
structure Attrs where
  entries : List (Bytes × Bytes)
  nodup : (entries.map Prod.fst).Nodup
  host_lt : ∀ key ∈ [Bytes.ofString "host", Bytes.ofString "backup_host"], ∀ v,
    entries.lookup key = some v → (cStr v).length < 256

/-- `attrs.find(key)->second`. -/
def Attrs.find (attrs : Attrs) (key : String) : Option Bytes :=
  attrs.entries.lookup (Bytes.ofString key)

/-- `atoi` of an attribute that is there, or the default. -/
def Attrs.int (attrs : Attrs) (key : String) (default : ℤ) : ℤ := (attrs.find key).elim default atoi

/-- Lines 269–278: an endpoint whose host and port are both given is added. -/
def addStatic (attrs : Attrs) (host port : String) (m : Meta) : Meta :=
  match attrs.find host, attrs.find port with
  | some h, some p => m.addEndpoint ⟨cStr h, atoi p⟩
  | _, _ => m

/-- `convert` (lines 257–305) for a new `Meta`. -/
def convert (attrs : Attrs) : Meta :=
  let m : Meta :=
    { connectTimeout := attrs.int "connect_timeout" 500
      netReadwriteTimeout := attrs.int "net_readwrite_timeout" 500
      numRedisSocks := attrs.int "num_redis_socks" 100
      connectFailureRetryDelay := attrs.int "connect_failure_retry_delay" 1
      endpoints := []
      s2sname := (attrs.find "s2sname").getD []
      groupId := UInt32.ofInt (attrs.int "groupId" 0) }
  addStatic attrs "backup_host" "backup_port" (addStatic attrs "host" "port" m)

namespace Meta

/-- An event leaves the service of a database alone. -/
theorem isFor_apply (e : ServerEvent) (m : Meta) (server : PServer) :
    (e.apply m).isFor server = m.isFor server := by
  cases e with
  | onAddServer s =>
    show (m.addEndpoint s.endpoint).isFor server = _
    unfold addEndpoint
    split <;> rfl
  | onRemoveServer s => rfl

theorem mem_addEndpoint {m : Meta} {ep e : RedisEndpoint} :
    e ∈ (m.addEndpoint ep).endpoints ↔ e = ep ∨ e ∈ m.endpoints := by
  unfold addEndpoint
  split
  · constructor
    · exact Or.inr
    · rintro (rfl | h)
      · assumption
      · exact h
  · simp [or_comm]

theorem mem_removeEndpoint {m : Meta} {ep e : RedisEndpoint} :
    e ∈ (m.removeEndpoint ep).endpoints ↔ e ≠ ep ∧ e ∈ m.endpoints := by
  simp [removeEndpoint, and_comm]

theorem nodup_addEndpoint {m : Meta} (h : m.endpoints.Nodup) (ep : RedisEndpoint) :
    (m.addEndpoint ep).endpoints.Nodup := by
  unfold addEndpoint
  split
  · exact h
  · rename_i hep
    refine List.nodup_append.mpr ⟨h, by simp, ?_⟩
    rintro a ha b hb rfl
    rw [List.mem_singleton.mp hb] at ha
    exact hep ha

theorem nodup_apply {m : Meta} (h : m.endpoints.Nodup) (e : ServerEvent) :
    (e.apply m).endpoints.Nodup := by
  cases e with
  | onAddServer s => exact nodup_addEndpoint h _
  | onRemoveServer s => exact h.filter _

end Meta

theorem nodup_addStatic {m : Meta} (h : m.endpoints.Nodup) (attrs : Attrs) (host port : String) :
    (addStatic attrs host port m).endpoints.Nodup := by
  unfold addStatic
  split
  · exact Meta.nodup_addEndpoint h _
  · exact h

theorem nodup_convert (attrs : Attrs) : (convert attrs).endpoints.Nodup :=
  nodup_addStatic (nodup_addStatic List.nodup_nil attrs _ _) attrs _ _

/-! ## The calls -/

/-- The tag of the watchers of `Config`, with the attributes of some databases. -/
abbrev KeyValues := List (Bytes × Attrs)

namespace Store

/-- `MapValuesConfigUpdate` (lines 205–215). -/
def mapValuesConfigUpdate (keyValues : KeyValues) (s : Store) : Store :=
  keyValues.foldl (fun s e => s.addMeta e.1 (convert e.2)) s

/-- The body of the loops of lines 220–234 and 240–254 for one database. -/
def onServerFor (e : ServerEvent) (s : Store) (dbname : Bytes) : Store :=
  match s.serverEvent e dbname with
  | (s, true) => s.deleteInst dbname
  | (s, false) => s

/-- `onAddServer` and `onRemoveServer` (lines 217–255). -/
def onServer (e : ServerEvent) (s : Store) : Store :=
  (s.metaMap.map Prod.fst).foldl (onServerFor e) s

/-- `getRedisClient` (lines 307–318). -/
def getRedisClient (dbname : Bytes) (constructed : Bool) (s : Store) : Store × Option ℕ :=
  match s.findInst dbname with
  | (s, some p) => (s, some p)
  | (s, none) =>
    match s.findMeta dbname with
    | none => (s, none)
    | some m => s.createInst dbname m constructed

/-- Each database is listed once, and each instance belongs to one database. -/
structure Ordered (s : Store) : Prop where
  keys : (s.metaMap.map Prod.fst).Nodup
  lt : ∀ db p, s.instMap db = some p → p < s.clients
  inj : ∀ db db' p, s.instMap db = some p → s.instMap db' = some p → db = db'

section Calls

variable {s : Store} {e : ServerEvent} {db : Bytes}

theorem ordered_init : Ordered (Store.init []) :=
  ⟨List.nodup_nil, by simp [Store.init], by simp [Store.init]⟩

theorem mem_keys_iff : db ∈ s.metaMap.map Prod.fst ↔ (s.findMeta db).isSome = true := by
  unfold findMeta
  induction s.metaMap with
  | nil => simp
  | cons x l ih =>
    rw [List.map_cons, List.mem_cons, List.lookup_cons]
    by_cases hx : db = x.1
    · simp [hx]
    · have hne : (db == x.1) = false := by simpa using hx
      simp [hx, hne, ih]

/-! ### New databases -/

theorem findMeta_addMeta_eq (d : Bytes) (m : Meta) (s : Store) (db : Bytes) :
    (s.addMeta d m).findMeta db =
      (s.findMeta db).or (if db = d then some m else none) := by
  unfold addMeta
  split
  · rename_i hd
    by_cases hdb : db = d
    · obtain ⟨m', hm'⟩ := Option.isSome_iff_exists.mp hd
      rw [hdb, hm']; rfl
    · simp [hdb]
  · unfold findMeta
    rw [List.lookup_append]
    congr 1
    rw [List.lookup_cons]
    by_cases hdb : db = d
    · simp [hdb]
    · have hne : (db == d) = false := by simpa using hdb
      rw [hne, if_neg hdb]; rfl

/-- The first attributes that a database gets are those that count. -/
theorem findMeta_mapValuesConfigUpdate (keyValues : KeyValues) (s : Store) (db : Bytes) :
    (s.mapValuesConfigUpdate keyValues).findMeta db =
      (s.findMeta db).or ((keyValues.lookup db).map convert) := by
  induction keyValues generalizing s with
  | nil => simp [mapValuesConfigUpdate]
  | cons x keyValues ih =>
    show ((s.addMeta x.1 (convert x.2)).mapValuesConfigUpdate keyValues).findMeta db = _
    rw [ih, findMeta_addMeta_eq, List.lookup_cons, Option.or_assoc]
    by_cases hx : db = x.1
    · simp [hx]
    · have hne : (db == x.1) = false := by simpa using hx
      simp [hx, hne]

theorem keys_addMeta (hkeys : (s.metaMap.map Prod.fst).Nodup) (d : Bytes) (m : Meta) :
    ((s.addMeta d m).metaMap.map Prod.fst).Nodup := by
  unfold addMeta
  split
  · exact hkeys
  · rename_i hd
    rw [List.map_append, List.nodup_append]
    refine ⟨hkeys, by simp, ?_⟩
    rintro a ha b hb rfl
    rw [List.map_cons, List.map_nil, List.mem_singleton] at hb
    rw [hb, mem_keys_iff] at ha
    exact hd ha

theorem keys_mapValuesConfigUpdate (hkeys : (s.metaMap.map Prod.fst).Nodup)
    (keyValues : KeyValues) : ((s.mapValuesConfigUpdate keyValues).metaMap.map Prod.fst).Nodup := by
  induction keyValues generalizing s with
  | nil => exact hkeys
  | cons x keyValues ih => exact ih (keys_addMeta hkeys _ _)

/-- What an update leaves alone. -/
theorem mapValuesConfigUpdate_frame (keyValues : KeyValues) (s : Store) :
    (s.mapValuesConfigUpdate keyValues).instMap = s.instMap ∧
      (s.mapValuesConfigUpdate keyValues).clients = s.clients ∧
      (s.mapValuesConfigUpdate keyValues).obj = s.obj := by
  induction keyValues generalizing s with
  | nil => exact ⟨rfl, rfl, rfl⟩
  | cons x keyValues ih =>
    obtain ⟨h1, h2, h3⟩ := ih (s.addMeta x.1 (convert x.2))
    exact ⟨h1.trans (addMeta_instMap s _ _), h2.trans (addMeta_clients s _ _),
      h3.trans (addMeta_obj s _ _)⟩

theorem Ordered.addMeta (h : Ordered s) (d : Bytes) (m : Meta) : Ordered (s.addMeta d m) :=
  ⟨keys_addMeta h.keys d m, by simpa using h.lt, by simpa using h.inj⟩

theorem Ordered.update (h : Ordered s) (keyValues : KeyValues) :
    Ordered (s.mapValuesConfigUpdate keyValues) := by
  induction keyValues generalizing s with
  | nil => exact h
  | cons x keyValues ih => exact ih (h.addMeta _ _)

/-! ### Events -/

/-- An event is one for the database `db`. -/
def concerns (s : Store) (e : ServerEvent) (db : Bytes) : Bool :=
  (s.findMeta db).any fun m => m.isFor e.server

theorem onServerFor_cases (e : ServerEvent) (s : Store) (d : Bytes) :
    s.concerns e d = true ∧ onServerFor e s d =
        ({ s with metaMap := s.metaMap.modify d e.apply } : Store).deleteInst d ∨
      s.concerns e d = false ∧ onServerFor e s d = s := by
  unfold concerns onServerFor serverEvent
  cases hm : s.findMeta d with
  | none => exact Or.inr ⟨rfl, rfl⟩
  | some m =>
    cases hf : m.isFor e.server with
    | true => exact Or.inl ⟨hf, by simp [hf]⟩
    | false => exact Or.inr ⟨hf, by simp [hf]⟩

/-- What the body of the loop does to `db`: nothing, unless it is called for `db`
    and the event concerns it. -/
theorem onServerFor_frame (e : ServerEvent) (s : Store) (d db : Bytes) :
    (onServerFor e s d).findMeta db =
        (if db = d ∧ s.concerns e db = true then (s.findMeta db).map e.apply else s.findMeta db) ∧
      (onServerFor e s d).instMap db =
        (if db = d ∧ s.concerns e db = true then none else s.instMap db) ∧
      (onServerFor e s d).clients = s.clients ∧
      (onServerFor e s d).metaMap.map Prod.fst = s.metaMap.map Prod.fst := by
  rcases onServerFor_cases e s d with ⟨hc, he⟩ | ⟨hc, he⟩
  · rw [he]
    have hfind : (({ s with metaMap := s.metaMap.modify d e.apply } : Store).deleteInst d).findMeta db =
        (s.metaMap.modify d e.apply).lookup db := by
      simp [deleteInst, findMeta]
    refine ⟨?_, ?_, by simp [deleteInst], ?_⟩
    · rw [hfind, lookup_modify]
      by_cases hdb : db = d
      · simp [hdb, hc, findMeta]
      · simp [hdb, findMeta]
    · by_cases hdb : db = d
      · simp [hdb, hc, deleteInst]
      · simp [hdb, deleteInst]
    · simp only [deleteInst, destroyed_metaMap, MetaMap.modify, List.map_map]
      refine List.map_congr_left fun x _ => ?_
      by_cases hx : x.1 = d <;> simp [hx]
  · rw [he]
    have hno : ¬(db = d ∧ s.concerns e db = true) := by
      rintro ⟨rfl, h⟩
      rw [hc] at h; cases h
    simp [hno]

theorem concerns_onServerFor (e : ServerEvent) (s : Store) (d db : Bytes) :
    (onServerFor e s d).concerns e db = s.concerns e db := by
  unfold concerns
  rw [(onServerFor_frame e s d db).1]
  split
  · cases s.findMeta db with
    | none => rfl
    | some m => exact Meta.isFor_apply e m e.server
  · rfl

/-- The `RedisClient` of a database that the event does not concern. -/
theorem onServerFor_obj {d : Bytes} {p : ℕ} (h : Ordered s) (hp : s.instMap db = some p)
    (hno : ¬(db = d ∧ s.concerns e db = true)) : (onServerFor e s d).obj p = s.obj p := by
  rcases onServerFor_cases e s d with ⟨hc, he⟩ | ⟨-, he⟩
  · rw [he]
    show ((({ s with metaMap := s.metaMap.modify d e.apply } : Store).destroyed (s.instMap d)).obj p) = _
    cases hd : s.instMap d with
    | none => rfl
    | some q =>
      have hpq : p ≠ q := by
        rintro rfl
        obtain rfl := h.inj db d p hp hd
        exact hno ⟨rfl, hc⟩
      exact Function.update_of_ne hpq _ _
  · rw [he]

theorem Ordered.onServerFor (h : Ordered s) (e : ServerEvent) (d : Bytes) :
    Ordered (onServerFor e s d) := by
  have hsub : ∀ db p, (Store.onServerFor e s d).instMap db = some p → s.instMap db = some p := by
    intro db p hp
    rw [(onServerFor_frame e s d db).2.1] at hp
    split at hp
    · cases hp
    · exact hp
  obtain ⟨-, -, hclients, hkeys⟩ := onServerFor_frame e s d d
  refine ⟨hkeys ▸ h.keys, fun db p hp => ?_, fun db db' p hp hp' => ?_⟩
  · rw [hclients]; exact h.lt db p (hsub db p hp)
  · exact h.inj db db' p (hsub db p hp) (hsub db' p hp')

/-- The loop over some databases, by induction on them: each one that the event
    concerns is changed once, and its instance is deleted. -/
theorem foldl_onServerFor {keys : List Bytes} (hkeys : keys.Nodup) (s : Store) (db : Bytes) :
    (keys.foldl (onServerFor e) s).findMeta db =
        (if db ∈ keys ∧ s.concerns e db = true then (s.findMeta db).map e.apply else s.findMeta db) ∧
      (keys.foldl (onServerFor e) s).instMap db =
        (if db ∈ keys ∧ s.concerns e db = true then none else s.instMap db) ∧
      (keys.foldl (onServerFor e) s).metaMap.map Prod.fst = s.metaMap.map Prod.fst := by
  induction keys generalizing s with
  | nil => simp
  | cons d keys ih =>
    obtain ⟨hd, hkeys⟩ := List.nodup_cons.mp hkeys
    obtain ⟨hfind, hinst, hmap⟩ := ih hkeys (onServerFor e s d)
    obtain ⟨h1, h2, -, h4⟩ := onServerFor_frame e s d db
    rw [concerns_onServerFor] at hfind hinst
    refine ⟨?_, ?_, hmap.trans h4⟩
    · rw [List.foldl_cons, hfind, h1]
      by_cases hdb : db = d
      · simp [hdb, hd]
      · simp [hdb]
    · rw [List.foldl_cons, hinst, h2]
      by_cases hdb : db = d
      · simp [hdb, hd]
      · simp [hdb]

/-- The loop leaves the `RedisClient`s of other databases alone. -/
theorem Ordered.foldl_onServerFor (h : Ordered s) (e : ServerEvent) (keys : List Bytes) :
    Ordered (keys.foldl (Store.onServerFor e) s) ∧
      ∀ db p, s.concerns e db = false → s.instMap db = some p →
        (keys.foldl (Store.onServerFor e) s).obj p = s.obj p := by
  induction keys generalizing s with
  | nil => exact ⟨h, fun _ _ _ _ => rfl⟩
  | cons d keys ih =>
    obtain ⟨ho, hobj⟩ := ih (h.onServerFor e d)
    refine ⟨ho, fun db p hno hp => ?_⟩
    have hne : ¬(db = d ∧ s.concerns e db = true) := by simp [hno]
    have hp' : (Store.onServerFor e s d).instMap db = some p := by
      rw [(onServerFor_frame e s d db).2.1, if_neg hne]; exact hp
    rw [List.foldl_cons, hobj db p ((concerns_onServerFor e s d db).trans hno) hp',
      onServerFor_obj h hp hne]

theorem concerns_mem (h : s.concerns e db = true) : db ∈ s.metaMap.map Prod.fst := by
  rw [mem_keys_iff]
  unfold concerns at h
  cases hm : s.findMeta db with
  | none => rw [hm] at h; cases h
  | some m => rfl

theorem mem_keys_and_concerns :
    (db ∈ s.metaMap.map Prod.fst ∧ s.concerns e db = true) ↔ s.concerns e db = true :=
  ⟨fun h => h.2, fun h => ⟨concerns_mem h, h⟩⟩

theorem Ordered.onServer (h : Ordered s) (e : ServerEvent) : Ordered (s.onServer e) :=
  (h.foldl_onServerFor e _).1

/-- **An event changes the databases that it concerns.** -/
theorem findMeta_onServer (hkeys : (s.metaMap.map Prod.fst).Nodup) (e : ServerEvent) (db : Bytes) :
    (s.onServer e).findMeta db =
      if s.concerns e db = true then (s.findMeta db).map e.apply else s.findMeta db := by
  have hfind := (foldl_onServerFor (e := e) hkeys s db).1
  simp only [mem_keys_and_concerns] at hfind
  exact hfind

theorem keys_onServer (hkeys : (s.metaMap.map Prod.fst).Nodup) (e : ServerEvent) :
    (s.onServer e).metaMap.map Prod.fst = s.metaMap.map Prod.fst :=
  (foldl_onServerFor (e := e) hkeys s []).2.2

/-- **An event deletes the instances of the databases that it concerns.** -/
theorem instMap_onServer (hkeys : (s.metaMap.map Prod.fst).Nodup) (e : ServerEvent) (db : Bytes) :
    (s.onServer e).instMap db = if s.concerns e db = true then none else s.instMap db := by
  have hinst := (foldl_onServerFor (e := e) hkeys s db).2.1
  simp only [mem_keys_and_concerns] at hinst
  exact hinst

theorem obj_onServer (h : Ordered s) (hno : s.concerns e db = false) {p : ℕ}
    (hp : s.instMap db = some p) : (s.onServer e).obj p = s.obj p :=
  (h.foldl_onServerFor e _).2 db p hno hp

/-! ### Lookups -/

/-- What `getRedisClient` does: it returns a copy of the instance that is there, or
    makes one if there is a configuration that a pool can be created from. -/
theorem getRedisClient_cases (db : Bytes) (constructed : Bool) (s : Store) :
    (∃ p, s.instMap db = some p ∧
        s.getRedisClient db constructed = (s.copied (some p), some p)) ∨
      s.instMap db = none ∧
        ((∃ m, s.findMeta db = some m ∧ (checkConfig m.toConf).isSome = true ∧ constructed = true ∧
            s.getRedisClient db constructed =
              ({ (s.newRedisClient m).copied (some s.clients) with
                  instMap := Function.update s.instMap db (some s.clients) }, some s.clients)) ∨
          (∀ m, s.findMeta db = some m →
              ¬((checkConfig m.toConf).isSome = true ∧ constructed = true)) ∧
            s.getRedisClient db constructed = (s, none)) := by
  unfold getRedisClient findInst
  cases hi : s.instMap db with
  | some p => exact Or.inl ⟨p, rfl, rfl⟩
  | none =>
    refine Or.inr ⟨rfl, ?_⟩
    cases hm : s.findMeta db with
    | none => exact Or.inr ⟨by simp, by simp only [copied, hm]⟩
    | some m =>
      by_cases hok : (checkConfig m.toConf).isSome = true ∧ constructed = true
      · refine Or.inl ⟨m, rfl, hok.1, hok.2, ?_⟩
        simp only [copied, hm, createInst, hi, hok.1, hok.2, Bool.and_self, if_true]
        rfl
      · refine Or.inr ⟨?_, ?_⟩
        · rintro m' hm'
          obtain rfl := Option.some.inj hm'
          exact hok
        · have hno : ¬((checkConfig m.toConf).isSome && constructed) = true := by
            rwa [Bool.and_eq_true]
          simp only [copied, hm, createInst, hi, if_neg hno]

theorem Ordered.copied (h : Ordered s) (c : Option ℕ) : Ordered (s.copied c) :=
  ⟨by simpa using h.keys, by simpa using h.lt, by simpa using h.inj⟩

/-- What a lookup keeps. -/
theorem Ordered.getRedisClient (h : Ordered s) (db : Bytes) (constructed : Bool) :
    Ordered (s.getRedisClient db constructed).1 := by
  rcases s.getRedisClient_cases db constructed with ⟨p, -, he⟩ | ⟨-, ⟨m, -, -, -, he⟩ | ⟨-, he⟩⟩
  · rw [he]; exact h.copied (some p)
  · rw [he]
    refine ⟨by simpa [newRedisClient] using h.keys, fun d p hp => ?_, fun d d' p hp hp' => ?_⟩
    · simp only [Function.update_apply] at hp
      split at hp
      · rw [← Option.some.inj hp]
        simp [newRedisClient]
      · have := h.lt d p hp
        simp only [copied_clients, newRedisClient]
        omega
    · simp only [Function.update_apply] at hp hp'
      split at hp <;> split at hp'
      · rename_i e1 e2
        rw [e1, e2]
      · have := h.lt d' p hp'
        rw [← Option.some.inj hp] at this
        exact absurd this (lt_irrefl _)
      · have := h.lt d p hp
        rw [← Option.some.inj hp'] at this
        exact absurd this (lt_irrefl _)
      · exact h.inj d d' p hp hp'
  · rw [he]; exact h

theorem findMeta_getRedisClient (d : Bytes) (constructed : Bool) (s : Store) (db : Bytes) :
    (s.getRedisClient d constructed).1.findMeta db = s.findMeta db := by
  rcases s.getRedisClient_cases d constructed with ⟨p, -, he⟩ | ⟨-, ⟨m, -, -, -, he⟩ | ⟨-, he⟩⟩
  · rw [he]; simp [findMeta]
  · rw [he]; simp [findMeta, newRedisClient]
  · rw [he]

theorem instMap_getRedisClient {d : Bytes} (constructed : Bool) (s : Store) (hd : db ≠ d) :
    (s.getRedisClient d constructed).1.instMap db = s.instMap db := by
  rcases s.getRedisClient_cases d constructed with ⟨p, -, he⟩ | ⟨-, ⟨m, -, -, -, he⟩ | ⟨-, he⟩⟩
  · rw [he]; simp
  · rw [he]; simp [hd]
  · rw [he]

end Calls

end Store

/-! ## The calls as runs of the machine -/

section Alone

variable {dbname : ℕ → Bytes} {s : Sys} {t : ℕ}

theorem Sys.put_put (s : Sys) (t : ℕ) (r r' : Store × Pc) : (s.put t r).put t r' = s.put t r' := by
  simp [Sys.put]

/-- A step of thread `t` from where a step of it has led to. -/
theorem step_put (constructed : Bool) {st st' : Store} {pc pc' : Pc}
    (h : localStep dbname constructed st pc = some (st', pc')) :
    (machine dbname).Steps (s.put t (st, pc)) (s.put t (st', pc')) := by
  refine .single (l := .step t constructed) ?_
  simp only [machine, sysStep, Sys.put_store, Sys.put_pc_self, h, Option.map_some, Sys.put_put]

theorem put_self {pc : Pc} (h : s.pc t = pc) : s.put t (s.store, pc) = s := by
  rw [Sys.put, ← h, Function.update_eq_self]

/-- `getRedisClient`, up to the assignment of its result. -/
theorem getRedisClient_steps {o : ℕ} (constructed : Bool) (hpc : s.pc t = .findInst o)
    (hfree : s.store.metaMutex = none) :
    (machine dbname).Steps s (s.put t ((s.store.getRedisClient (dbname o) constructed).1,
      .assign o (s.store.getRedisClient (dbname o) constructed).2)) := by
  have hs : s.put t (s.store, .findInst o) = s := put_self hpc
  unfold Store.getRedisClient
  cases hi : s.store.instMap (dbname o) with
  | some p =>
    have hfind : localStep dbname constructed s.store (.findInst o) =
        some (s.store.copied (some p), .assign o (some p)) := by
      simp only [localStep, Store.findInst, hi]
    have hrun := step_put (s := s) (t := t) constructed hfind
    rw [hs] at hrun
    simpa only [Store.findInst, hi] using hrun
  | none =>
    have hfind : localStep dbname constructed s.store (.findInst o) = some (s.store, .findMeta o) := by
      simp only [localStep, Store.findInst, hi, Store.copied]
    have hrun := step_put (s := s) (t := t) constructed hfind
    rw [hs] at hrun
    simp only [Store.findInst, hi, Store.copied]
    cases hm : s.store.findMeta (dbname o) with
    | none =>
      have hmeta : localStep dbname constructed s.store (.findMeta o) = some (s.store, .assign o none) := by
        simp only [localStep, hfree, if_true, hm]
      exact hrun.trans (step_put constructed hmeta)
    | some m =>
      have hmeta : localStep dbname constructed s.store (.findMeta o) =
          some (s.store, .createInst o m) := by
        simp only [localStep, hfree, if_true, hm]
      have hcreate : localStep dbname constructed s.store (.createInst o m) =
          some ((s.store.createInst (dbname o) m constructed).1,
            .assign o (s.store.createInst (dbname o) m constructed).2) := rfl
      exact (hrun.trans (step_put constructed hmeta)).trans (step_put constructed hcreate)

/-- The loop of an event over the databases `keys`, by induction on them. -/
theorem loop_steps (e : ServerEvent) (keys : List Bytes) (st : Store) :
    (machine dbname).Steps (s.put t (st, .loop e keys))
      (s.put t (keys.foldl (Store.onServerFor e) st, .loop e [])) := by
  induction keys generalizing st with
  | nil => exact .refl _
  | cons db keys ih =>
    have hbody : (machine dbname).Steps (s.put t (st, .loop e (db :: keys)))
        (s.put t (Store.onServerFor e st db, .loop e keys)) := by
      unfold Store.onServerFor
      rcases hev : st.serverEvent e db with ⟨st', found⟩
      cases found with
      | true =>
        have hchange : localStep dbname true st (.loop e (db :: keys)) =
            some (st', .evict e db keys) := by simp only [localStep, hev]
        have hevict : localStep dbname true st' (.evict e db keys) =
            some (st'.deleteInst db, .loop e keys) := rfl
        exact (step_put true hchange).trans (step_put true hevict)
      | false =>
        have hpass : localStep dbname true st (.loop e (db :: keys)) = some (st', .loop e keys) := by
          simp only [localStep, hev]
        exact step_put true hpass
    exact hbody.trans (ih _)

/-- `metaMutex` plays no role in the loop. -/
theorem foldl_onServerFor_metaMutex (e : ServerEvent) (keys : List Bytes) (st : Store)
    (u : Option ℕ) :
    keys.foldl (Store.onServerFor e) { st with metaMutex := u } =
      { keys.foldl (Store.onServerFor e) st with metaMutex := u } := by
  induction keys generalizing st with
  | nil => rfl
  | cons db keys ih =>
    have hbody : Store.onServerFor e { st with metaMutex := u } db =
        { Store.onServerFor e st db with metaMutex := u } := by
      rcases Store.onServerFor_cases e st db with ⟨hc, he⟩ | ⟨hc, he⟩
      · rcases Store.onServerFor_cases e { st with metaMutex := u } db with ⟨-, he'⟩ | ⟨hc', -⟩
        · rw [he, he']
          unfold Store.deleteInst
          cases hi : st.instMap db with
          | none => rfl
          | some p => rfl
        · cases hc.symm.trans hc'
      · rcases Store.onServerFor_cases e { st with metaMutex := u } db with ⟨hc', -⟩ | ⟨-, he'⟩
        · cases hc.symm.trans hc'
        · rw [he, he']
    rw [List.foldl_cons, hbody, ih, List.foldl_cons]

/-- `onAddServer` and `onRemoveServer`. -/
theorem onServer_steps (e : ServerEvent) (hpc : s.pc t = .idle) (hfree : s.store.metaMutex = none) :
    (machine dbname).Steps s (s.put t (s.store.onServer e, .idle)) := by
  have hlock : (machine dbname).step s (.call t (.event e)) = some (s.put t
      ({ s.store with metaMutex := some t }, .loop e (s.store.metaMap.map Prod.fst))) := by
    simp only [machine, sysStep, hpc, if_true, startCall, hfree, Option.map_some]
  have hkeep : { s.store.onServer e with metaMutex := none } = s.store.onServer e := by
    have hst : { s.store with metaMutex := none } = s.store := by rw [← hfree]
    have hfold := foldl_onServerFor_metaMutex e (s.store.metaMap.map Prod.fst) s.store none
    rw [hst] at hfold
    exact hfold.symm
  have hunlock : localStep dbname true { s.store.onServer e with metaMutex := some t } (.loop e []) =
      some ({ s.store.onServer e with metaMutex := none }, .idle) := rfl
  rw [hkeep] at hunlock
  refine (Lts.Steps.single hlock).trans ((loop_steps e _ _).trans ?_)
  rw [foldl_onServerFor_metaMutex]
  exact step_put true hunlock

end Alone

end Hiredispool.Config
