import Hiredispool.Config.History

/-!
# A database that is registered late

`Config` remembers a server only in the endpoints of the databases that exist
when it is announced. A database that is registered afterwards does not get it.

* `deliver_iff`: exactly when the place of an update among the announcements does
  not matter for the endpoints.
* `announced_too_early`: one database and one server for which it does.
-/

namespace Hiredispool.Config

open Hiredispool.Pool

/-- The servers are announced one after the other. -/
def Store.announce (servers : List PServer) (s : Store) : Store :=
  servers.foldl (fun s server => s.onServer (.onAddServer server)) s

/-- The update comes after the announcement of the servers `before`, and before
    that of the servers `after`. -/
def Store.deliver (keyValues : KeyValues) (before after : List PServer) (s : Store) : Store :=
  ((s.announce before).mapValuesConfigUpdate keyValues).announce after

/-- The set of endpoints in `metaMap[dbname]`. -/
def Store.endpointSet (s : Store) (dbname : Bytes) : Option (Set RedisEndpoint) :=
  (s.findMeta dbname).map fun m => {ep | ep ∈ m.endpoints}

/-- The endpoints of the servers that are announced for the service of `m`. -/
def Meta.served (m : Meta) (servers : List PServer) : Set RedisEndpoint :=
  {ep | ∃ server ∈ servers, m.isFor server = true ∧ server.endpoint = ep}

section Deliver

variable {s : Store} {db : Bytes}

/-- What some announcements leave of a database, by induction on them. -/
theorem findMeta_announce (db : Bytes) (hkeys : (s.metaMap.map Prod.fst).Nodup)
    (servers : List PServer) :
    ((s.announce servers).metaMap.map Prod.fst).Nodup ∧
      (s.findMeta db = none → (s.announce servers).findMeta db = none) ∧
      ∀ m, s.findMeta db = some m → ∃ m', (s.announce servers).findMeta db = some m' ∧
        {ep | ep ∈ m'.endpoints} = {ep | ep ∈ m.endpoints} ∪ m.served servers ∧
        ∀ server, m'.isFor server = m.isFor server := by
  induction servers generalizing s with
  | nil =>
    refine ⟨hkeys, id, fun m hm => ⟨m, hm, ?_, fun _ => rfl⟩⟩
    simp [Meta.served]
  | cons server servers ih =>
    have hkeys' : ((s.onServer (.onAddServer server)).metaMap.map Prod.fst).Nodup := by
      rw [Store.keys_onServer hkeys]; exact hkeys
    have hfind := Store.findMeta_onServer hkeys (.onAddServer server) db
    obtain ⟨h1, h2, h3⟩ := ih hkeys'
    refine ⟨h1, fun hnone => h2 ?_, fun m hm => ?_⟩
    · rw [hfind, hnone]; simp
    · by_cases hfor : m.isFor server = true
      · have hc : s.concerns (.onAddServer server) db = true := by
          simp [Store.concerns, hm, ServerEvent.server, hfor]
        rw [if_pos hc, hm] at hfind
        obtain ⟨m', hm', hset, hsame⟩ := h3 _ hfind
        have hsame' : ∀ server', (m.addEndpoint server.endpoint).isFor server' = m.isFor server' :=
          Meta.isFor_apply (.onAddServer server) m
        refine ⟨m', hm', hset.trans ?_, fun server' => (hsame server').trans (hsame' server')⟩
        ext ep
        simp only [ServerEvent.apply, Meta.served, hsame', Set.mem_union, Set.mem_ofPred_eq,
          Meta.mem_addEndpoint, List.mem_cons, exists_eq_or_imp, hfor, true_and]
        rw [eq_comm (a := ep)]
        tauto
      · have hc : s.concerns (.onAddServer server) db = false := by
          simp [Store.concerns, hm, ServerEvent.server, hfor]
        rw [hc, if_neg (by simp), hm] at hfind
        obtain ⟨m', hm', hset, hsame⟩ := h3 _ hfind
        refine ⟨m', hm', hset.trans ?_, hsame⟩
        ext ep
        simp only [Meta.served, Set.mem_union, Set.mem_ofPred_eq, List.mem_cons, exists_eq_or_imp]
        simp [hfor]

/-- The endpoints of a database that was there before. -/
theorem endpointSet_deliver_old (hkeys : (s.metaMap.map Prod.fst).Nodup) (keyValues : KeyValues)
    (before after : List PServer) {m : Meta} (hm : s.findMeta db = some m) :
    (s.deliver keyValues before after).endpointSet db =
      some ({ep | ep ∈ m.endpoints} ∪ m.served (before ++ after)) := by
  obtain ⟨hkeys₁, -, h₁⟩ := findMeta_announce db hkeys before
  obtain ⟨m₁, hm₁, hset₁, hsame₁⟩ := h₁ m hm
  have hm₂ : ((s.announce before).mapValuesConfigUpdate keyValues).findMeta db = some m₁ := by
    rw [Store.findMeta_mapValuesConfigUpdate, hm₁, Option.some_or]
  obtain ⟨-, -, h₃⟩ := findMeta_announce db
    (Store.keys_mapValuesConfigUpdate hkeys₁ keyValues) after
  obtain ⟨m₃, hm₃, hset₃, -⟩ := h₃ m₁ hm₂
  rw [Store.endpointSet, Store.deliver, hm₃, Option.map_some, hset₃, hset₁]
  congr 1
  ext ep
  simp only [Meta.served, hsame₁, Set.mem_union, Set.mem_ofPred_eq, List.mem_append]
  constructor
  · rintro ((h | ⟨x, hx, h⟩) | ⟨x, hx, h⟩)
    · exact Or.inl h
    · exact Or.inr ⟨x, Or.inl hx, h⟩
    · exact Or.inr ⟨x, Or.inr hx, h⟩
  · rintro (h | ⟨x, hx | hx, h⟩)
    · exact Or.inl (Or.inl h)
    · exact Or.inl (Or.inr ⟨x, hx, h⟩)
    · exact Or.inr ⟨x, hx, h⟩

/-- A database that the update registers gets the servers announced after it. -/
theorem endpointSet_deliver_new (hkeys : (s.metaMap.map Prod.fst).Nodup) (keyValues : KeyValues)
    (before after : List PServer) (hnone : s.findMeta db = none) :
    (s.deliver keyValues before after).endpointSet db = (keyValues.lookup db).map fun attrs =>
      {ep | ep ∈ (convert attrs).endpoints} ∪ (convert attrs).served after := by
  obtain ⟨hkeys₁, h₁, -⟩ := findMeta_announce db hkeys before
  have hm₂ : ((s.announce before).mapValuesConfigUpdate keyValues).findMeta db =
      (keyValues.lookup db).map convert := by
    rw [Store.findMeta_mapValuesConfigUpdate, h₁ hnone, Option.none_or]
  obtain ⟨-, h₃, h₃'⟩ := findMeta_announce db
    (Store.keys_mapValuesConfigUpdate hkeys₁ keyValues) after
  rw [Store.endpointSet, Store.deliver]
  cases hattrs : keyValues.lookup db with
  | none =>
    rw [hattrs] at hm₂
    rw [h₃ hm₂]; rfl
  | some attrs =>
    rw [hattrs] at hm₂
    obtain ⟨m₃, hm₃, hset₃, -⟩ := h₃' _ hm₂
    rw [hm₃, Option.map_some, hset₃]; rfl

/-- The servers of a database that the update registers have endpoints that the
    database has from its attributes. -/
def Foreign (s : Store) (keyValues : KeyValues) (servers : List PServer) : Prop :=
  ∀ db attrs, s.findMeta db = none → keyValues.lookup db = some attrs →
    ∀ server ∈ servers, (convert attrs).isFor server = true →
      server.endpoint ∈ (convert attrs).endpoints

/-- **When the place of an update does not matter.** -/
theorem deliver_iff (hkeys : (s.metaMap.map Prod.fst).Nodup) (keyValues : KeyValues)
    (servers : List PServer) :
    (∀ before after, servers = before ++ after → ∀ db,
        (s.deliver keyValues before after).endpointSet db =
          (s.deliver keyValues [] servers).endpointSet db) ↔
      Foreign s keyValues servers := by
  constructor
  · intro h db attrs hnone hattrs server hserver hfor
    have hsame := h servers [] (List.append_nil _).symm db
    rw [endpointSet_deliver_new hkeys _ _ _ hnone, endpointSet_deliver_new hkeys _ _ _ hnone,
      hattrs, Option.map_some, Option.map_some, Option.some.injEq] at hsame
    have hmem : server.endpoint ∈ {ep | ep ∈ (convert attrs).endpoints} ∪
        (convert attrs).served servers := Or.inr ⟨server, hserver, hfor, rfl⟩
    rw [← hsame] at hmem
    rcases hmem with hmem | ⟨x, hx, -⟩
    · exact hmem
    · cases hx
  · rintro hforeign before after rfl db
    cases hm : s.findMeta db with
    | some m =>
      rw [endpointSet_deliver_old hkeys _ _ _ hm, endpointSet_deliver_old hkeys _ _ _ hm,
        List.nil_append]
    | none =>
      rw [endpointSet_deliver_new hkeys _ _ _ hm, endpointSet_deliver_new hkeys _ _ _ hm]
      refine Option.map_congr fun attrs hattrs => ?_
      have hsub : ∀ servers' ⊆ before ++ after, {ep | ep ∈ (convert attrs).endpoints} ∪
          (convert attrs).served servers' = {ep | ep ∈ (convert attrs).endpoints} := by
        intro servers' hsub
        refine Set.union_eq_left.mpr ?_
        rintro ep ⟨server, hserver, hfor, rfl⟩
        exact hforeign db attrs hm hattrs server (hsub hserver) hfor
      rw [hsub after (List.subset_append_right _ _), hsub _ (List.Subset.refl _)]

end Deliver

/-- The mock server announced at the static endpoint of the database. -/
def localServer : PServer := { mockServer with ip := 0x7f000001, listenPort := 6379 }

/-- Its announcement and the registration commute. -/
theorem deliver_iff_local :
    ((Store.init []).deliver [(mockDb, mockAttrs)] [localServer] []).endpointSet mockDb =
      ((Store.init []).deliver [(mockDb, mockAttrs)] [] [localServer]).endpointSet mockDb := by
  refine (deliver_iff (s := Store.init []) List.nodup_nil _ [localServer]).mpr ?_ _ _ rfl _
  intro db attrs _ hattrs server hserver _
  have hdb : db = mockDb := by
    by_contra hne
    have hfalse : (db == mockDb) = false := by simpa using hne
    rw [List.lookup_cons, hfalse] at hattrs
    cases hattrs
  rw [hdb] at hattrs
  obtain rfl : mockAttrs = attrs := Option.some.inj hattrs
  rw [List.mem_singleton.mp hserver]
  decide +kernel

/-- A server that is announced before the update that registers its database is
    missing, and one that is announced after it is there. -/
theorem announced_too_early :
    ((Store.init []).deliver [(mockDb, mockAttrs)] [mockServer] []).endpointSet mockDb ≠
      ((Store.init []).deliver [(mockDb, mockAttrs)] [] [mockServer]).endpointSet mockDb := by
  have hattrs : List.lookup mockDb [(mockDb, mockAttrs)] = some mockAttrs := rfl
  have hnew : ∀ before after,
      ((Store.init []).deliver [(mockDb, mockAttrs)] before after).endpointSet mockDb =
        (List.lookup mockDb [(mockDb, mockAttrs)]).map fun attrs =>
          {ep | ep ∈ (convert attrs).endpoints} ∪ (convert attrs).served after :=
    fun before after => endpointSet_deliver_new (s := Store.init []) List.nodup_nil _ before after rfl
  intro h
  rw [hnew, hnew, hattrs, Option.map_some, Option.map_some, Option.some.injEq] at h
  have hfor : (convert mockAttrs).isFor mockServer = true := by decide +kernel
  have hmem : mockServer.endpoint ∈ {ep | ep ∈ (convert mockAttrs).endpoints} ∪
      (convert mockAttrs).served [mockServer] :=
    Or.inr ⟨mockServer, List.mem_singleton_self _, hfor, rfl⟩
  rw [← h] at hmem
  rcases hmem with hmem | ⟨server, hserver, -⟩
  · have hno : mockServer.endpoint ∉ (convert mockAttrs).endpoints := by decide +kernel
    exact hno hmem
  · cases hserver

end Hiredispool.Config
