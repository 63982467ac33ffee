import Hiredispool.Client.Batch
import Hiredispool.Hiredis.Session

/-!
# Maps over the wire

`mset` writes a map and `mget` reads a set of keys (`RedisClientYaf.cpp`, lines 665–731), through
the formatter, the socket, a server, and the reader.

The server is not part of the repository. It is a parameter: any function from a state and an
argument vector to a state and a reply, with what the client relies on as hypotheses.

* `Speaks`: each answer is a reply of the protocol.
* `KeepsStrings`: what `MSET` and `MGET` are documented to do. Nothing is said of the other
  commands, which may do anything.
* `mset_mget`: **a map that was written is read back**, whatever bytes are in it, however
  the socket cuts the commands and the answers, and whatever was sent before.
-/

namespace Hiredispool.Client

open Hiredispool.Pool (Bytes)
open Hiredispool.Hiredis

/-! ## The server -/

/-- The answer to `MGET`: the strings that are held under the keys, and nil for the others. -/
def heldAt (held : Bytes → Option Bytes) (keys : List Bytes) : List RedisReply :=
  keys.map fun key => (held key).elim .nil .string

/-- What the server is relied on for; `held st` are the strings that it holds in the state `st`. -/
structure KeepsStrings {σ : Type} (serve : σ → List Bytes → σ × RedisReply)
    (held : σ → Bytes → Option Bytes) : Prop where
  /-- `MSET` sets the keys that are given to their values. -/
  sets : ∀ st kvs, kvs ≠ [] → (kvs.map Prod.fst).Nodup → ∀ key val, (key, val) ∈ kvs →
    held (serve st (Bytes.ofString "MSET" :: kvs.flatMap fun e => [e.1, e.2])).1 key = some val
  /-- It leaves the others alone. -/
  keeps : ∀ st kvs, kvs ≠ [] → (kvs.map Prod.fst).Nodup → ∀ key, key ∉ kvs.map Prod.fst →
    held (serve st (Bytes.ofString "MSET" :: kvs.flatMap fun e => [e.1, e.2])).1 key = held st key
  /-- `MGET` answers with the values of all keys. -/
  gets : ∀ st keys, keys ≠ [] →
    (serve st (Bytes.ofString "MGET" :: keys)).2 = .array (heldAt (held st) keys)

/-- What `mget` makes of the answer of the server. -/
theorem batchRead_heldAt {keys : KeySet} (hcount : keys.keys.length < 2 ^ 31)
    (held : Bytes → Option Bytes) (info : RedisCommandInfo) (vals : Vals) :
    ∃ vals', batchRead keys (some ⟨some (.array (heldAt held keys.keys)), info⟩) vals =
        .ok (Status.of "ok", vals') ∧
      ∀ key, vals' key = if key ∈ keys.keys ∧ held key ≠ none then held key else vals key := by
  have hlength : (heldAt held keys.keys).length = keys.keys.length := List.length_map _
  have hread : _ ∨ _ := @readElements_eq (heldAt held keys.keys) vals keys.keys 0
    (by rw [hlength]; exact hcount) keys.nodup (Nat.zero_le _)
  rcases hread with ⟨-, vals', hread, haligned⟩ | ⟨hlt, -⟩
  · refine ⟨vals', ?_, fun key => ?_⟩
    · show (readElements (heldAt held keys.keys) keys.keys 0 vals).map (Status.of "ok", ·) = _
      rw [hread]
      rfl
    · by_cases hmem : key ∈ keys.keys
      · obtain ⟨j, hj⟩ := List.mem_iff_getElem?.mp hmem
        have helement : (heldAt held keys.keys)[(0 : UInt32).toNat + j]? =
            some ((held key).elim .nil .string) := by
          show (heldAt held keys.keys)[0 + j]? = _
          rw [Nat.zero_add, heldAt, List.getElem?_map, hj]
          rfl
        rw [haligned.key j key _ hj helement]
        cases hval : held key with
        | none => simp [RedisReply.assign]
        | some val => simp [RedisReply.assign, hmem]
      · rw [haligned.other key hmem, if_neg (fun h => hmem h.1)]
  · have h0 : (0 : UInt32).toNat = 0 := rfl
    omega

/-! ## Writing and reading -/

/-- **A map that was written is read back**: in a session on such a server, after any commands
    `before`, the client sends what `mset kvs` and `mget keys` make, and has all replies. Then
    the last one gives it the values of `kvs`, and for the other keys what the server held
    before. -/
theorem mset_mget {σ D : Type} {serve : σ → List Bytes → σ × RedisReply} {server : σ}
    {held : σ → Bytes → Option Bytes} {text : Bytes → Num D → Bytes}
    (hspeaks : Speaks serve server) (hkeeps : KeepsStrings serve held) {s : Session}
    (hs : (Session.machine text).ReachableUnder (Honest serve server) s)
    {before : List (List Bytes)} {kvs : List (Bytes × Bytes)} {keys : KeySet} {write read : List Bytes}
    (hkvs : kvs ≠ []) (hkeys : keys.keys ≠ []) (hnodup : (kvs.map Prod.fst).Nodup)
    (hwrite : mset kvs = .ok write) (hread : mget keys.keys = .ok read)
    (happended : s.appended = before ++ [write, read]) (hall : s.got.length = s.appended.length)
    (info : RedisCommandInfo) (vals : Vals) :
    ∃ element vals', s.got.getLast? = some (object (.array element)) ∧
      batchRead keys (some ⟨some (.array element), info⟩) vals = .ok (Status.of "ok", vals') ∧
      (∀ key val, key ∈ keys.keys → (key, val) ∈ kvs → vals' key = some val) ∧
      ∀ key, key ∉ kvs.map Prod.fst → vals' key =
        if key ∈ keys.keys ∧ held (serverAfter serve server before) key ≠ none then
          held (serverAfter serve server before) key
        else vals key := by
  obtain ⟨hinv, hans⟩ := Session.answered_of_reachable hs
  -- the answers to the two commands
  have hset : write = Bytes.ofString "MSET" :: kvs.flatMap fun e => [e.1, e.2] :=
    (Except.ok.inj ((mset_eq kvs).symm.trans hwrite)).symm
  have hget : read = Bytes.ofString "MGET" :: keys.keys :=
    (Except.ok.inj ((keysCommand_eq "MGET" keys.keys).symm.trans hread)).symm
  let st := serverAfter serve server before
  have hanswers : answers serve server s.appended = answers serve server before ++
      [(serve st write).2, .array (heldAt (held (serve st write).1) keys.keys)] := by
    rw [happended, answers_append, ← hkeeps.gets _ _ hkeys, ← hget]
    rfl
  have hgot : s.got = (answers serve server s.appended).map object :=
    (hinv.got_isPrefix_appended hspeaks hans).eq_of_length
      (by rw [hall, List.length_map, length_answers])
  have hcount : keys.keys.length < 2 ^ 31 := by
    have hshort := hinv.short read (by rw [happended]; simp)
    have hle := length_le_totalLength read
    rw [hget] at hshort hle
    rw [List.length_cons] at hle
    omega
  obtain ⟨vals', hbatch, hvals⟩ := batchRead_heldAt hcount (held (serve st write).1) info vals
  refine ⟨heldAt (held (serve st write).1) keys.keys, vals', ?_, hbatch,
    fun key val hkey hmem => ?_, fun key hkey => ?_⟩
  · rw [hgot, hanswers, List.map_append, List.getLast?_append]
    rfl
  · have hval : held (serve st write).1 key = some val := by
      rw [hset]
      exact hkeeps.sets st kvs hkvs hnodup key val hmem
    rw [hvals, if_pos ⟨hkey, by rw [hval]; simp⟩, hval]
  · have hval : held (serve st write).1 key = held st key := by
      rw [hset]
      exact hkeeps.keeps st kvs hkvs hnodup key hkey
    rw [hvals, hval]

/-! ## A run -/

/-- The strings of `table` after `MSET` with these arguments. -/
def setPairs : (Bytes → Option Bytes) → List Bytes → Bytes → Option Bytes
  | table, key :: val :: args => setPairs (Function.update table key (some val)) args
  | table, _ => table

/-- A server for the run below: a table, with `MSET` and `MGET`, that refuses the rest. -/
def tableServer (table : Bytes → Option Bytes) : List Bytes → (Bytes → Option Bytes) × RedisReply
  | name :: args =>
    if name = Bytes.ofString "MSET" then (setPairs table args, .status (Bytes.ofString "OK"))
    else if name = Bytes.ofString "MGET" then (table, .array (heldAt table args))
    else (table, .error (Bytes.ofString "ERR unknown command"))
  | [] => (table, .error (Bytes.ofString "ERR unknown command"))

theorem setPairs_of_notMem {kvs : List (Bytes × Bytes)} {table : Bytes → Option Bytes} {key : Bytes}
    (h : key ∉ kvs.map Prod.fst) :
    setPairs table (kvs.flatMap fun e => [e.1, e.2]) key = table key := by
  induction kvs generalizing table with
  | nil => rfl
  | cons e kvs ih =>
    rw [List.map_cons, List.mem_cons, not_or] at h
    show setPairs (Function.update table e.1 (some e.2)) (kvs.flatMap fun e => [e.1, e.2]) key = _
    rw [ih h.2, Function.update_of_ne h.1]

theorem setPairs_of_mem {kvs : List (Bytes × Bytes)} {table : Bytes → Option Bytes}
    {key val : Bytes} (hnodup : (kvs.map Prod.fst).Nodup) (h : (key, val) ∈ kvs) :
    setPairs table (kvs.flatMap fun e => [e.1, e.2]) key = some val := by
  induction kvs generalizing table with
  | nil => cases h
  | cons e kvs ih =>
    rw [List.map_cons, List.nodup_cons] at hnodup
    show setPairs (Function.update table e.1 (some e.2)) (kvs.flatMap fun e => [e.1, e.2]) key = _
    rcases List.mem_cons.mp h with rfl | h
    · rw [setPairs_of_notMem hnodup.1, Function.update_self]
    · exact ih hnodup.2 h

theorem tableServer_keeps : KeepsStrings tableServer fun table => table where
  sets _ _ _ hnodup _ _ h := setPairs_of_mem hnodup h
  keeps _ _ _ _ _ h := setPairs_of_notMem h
  gets _ _ _ := rfl

/-- The values are no longer than a reply may be. -/
def ShortValues (table : Bytes → Option Bytes) : Prop :=
  ∀ key val, table key = some val → val.length < 9223372036854775806

theorem ShortValues.setPairs {table : Bytes → Option Bytes} (h : ShortValues table)
    {args : List Bytes} (hargs : ∀ arg ∈ args, arg.length < 9223372036854775806) :
    ShortValues (setPairs table args) := by
  induction table, args using Client.setPairs.induct with
  | case1 table key val args ih =>
    obtain ⟨-, hargs⟩ := List.forall_mem_cons.mp hargs
    obtain ⟨hval, hargs⟩ := List.forall_mem_cons.mp hargs
    refine ih ?_ hargs
    intro key' val' h'
    by_cases hkey : key' = key
    · rw [hkey, Function.update_self] at h'
      rw [← Option.some.inj h']
      exact hval
    · rw [Function.update_of_ne hkey] at h'
      exact h key' val' h'
  | case2 table args hargs' =>
    rw [Client.setPairs.eq_def]
    split
    · exact absurd rfl (hargs' _ _ _)
    · exact h

theorem heldAt_accepted {table : Bytes → Option Bytes} (h : ShortValues table) {keys : List Bytes}
    (hcount : keys.length < 2147483648) : (object (.array (heldAt table keys))).Accepted 8 := by
  rw [object, objects_eq_map]
  refine .array (by simpa [heldAt] using hcount) ?_
  intro obj hobj
  obtain ⟨x, hx, rfl⟩ := List.mem_map.mp hobj
  obtain ⟨key, -, rfl⟩ := List.mem_map.mp hx
  cases hval : table key with
  | none => exact .nil
  | some val => exact .string (h key val hval)

theorem tableServer_speaks {table : Bytes → Option Bytes} (h : ShortValues table) :
    Speaks tableServer table := by
  intro cmds hshort
  induction cmds generalizing table with
  | nil => intro x hx; cases hx
  | cons argv cmds ih =>
    obtain ⟨hargv, hshort⟩ := List.forall_mem_cons.mp hshort
    have hargs : ∀ arg ∈ argv, arg.length < 9223372036854775806 := by
      intro arg harg
      have := length_arg_le harg
      omega
    have herror : (object (.error (Bytes.ofString "ERR unknown command"))).Accepted 8 :=
      .error (by decide)
    suffices hserve : ShortValues (tableServer table argv).1 ∧
        (object (tableServer table argv).2).Accepted 8 from
      List.forall_mem_cons.mpr ⟨hserve.2, ih hserve.1 hshort⟩
    cases argv with
    | nil => exact ⟨h, herror⟩
    | cons name args =>
      rw [tableServer]
      split
      · exact ⟨h.setPairs fun arg harg => hargs arg (List.mem_cons_of_mem name harg),
          .status (by decide)⟩
      · split
        · have hcount := length_le_totalLength (name :: args)
          rw [List.length_cons] at hcount
          exact ⟨h, heldAt_accepted h (by omega)⟩
        · exact ⟨h, herror⟩

/-- `MSET` of one key, and `MGET` of it and of another one. -/
theorem mset_mget_one : ∃ (s : Session) (element : List RedisReply) (vals' : Vals),
    s.got.getLast? = some (object (.array element)) ∧ vals' [97] = some [98] ∧ vals' [99] = none := by
  have hmset : encode (argvReply [[77, 83, 69, 84], [97], [98]]) =
      [42, 51, 13, 10, 36, 52, 13, 10, 77, 83, 69, 84, 13, 10, 36, 49, 13, 10, 97, 13, 10,
        36, 49, 13, 10, 98, 13, 10] := by
    simp [argvReply, encode, encodeAll, encodeLine, Decimal.ofInt, Decimal.ofNat, Decimal.digit]
  have hmget : encode (argvReply [[77, 71, 69, 84], [97], [99]]) =
      [42, 51, 13, 10, 36, 52, 13, 10, 77, 71, 69, 84, 13, 10, 36, 49, 13, 10, 97, 13, 10,
        36, 49, 13, 10, 99, 13, 10] := by
    simp [argvReply, encode, encodeAll, encodeLine, Decimal.ofInt, Decimal.ofNat, Decimal.digit]
  have hshort : totalLength [[77, 83, 69, 84], [97], [98]] < 2147483648 ∧
      totalLength [[77, 71, 69, 84], [97], [99]] < 2147483648 := by
    simp [totalLength, bulklen, countDigits_of_lt]
  have hempty : ShortValues fun _ => none := by
    intro key val h
    cases h
  have h₁ := Lts.ReachableUnder.init (m := Session.machine Session.noText)
    (C := Honest tableServer fun _ => none) (s := Session.start) rfl
  have h₂ := h₁.step ⟨⟨by decide, by decide, hshort.1⟩, trivial⟩ (Session.step_append rfl hshort.1)
  rw [hmset] at h₂
  have h₃ := h₂.step ⟨⟨by decide, by decide, hshort.2⟩, trivial⟩ (Session.step_append rfl hshort.2)
  rw [hmget] at h₃
  have h₄ := h₃.step (l := .getReply) ⟨⟨by decide, by decide, trivial⟩, trivial⟩ rfl
  have h₅ := h₄.step (l := .write (.wrote 56))
    ⟨⟨by decide, by decide, show 56 ≤ 56 by decide⟩, trivial⟩ rfl
  have hinv := (Session.answered_of_reachable h₅).1
  have hreceived := (received_isPrefix hinv.short hinv.wire).2 rfl
  have hanswers := (congrArg (fun cmds => encodeAll (answers tableServer (fun _ => none) cmds))
    hreceived).trans (show encodeAll [.status [79, 75], .array [.string [98], .nil]] =
      [43, 79, 75, 13, 10, 42, 50, 13, 10, 36, 49, 13, 10, 98, 13, 10, 36, 45, 49, 13, 10] by
        simp [encode, encodeAll, encodeLine, Decimal.ofInt, Decimal.ofNat, Decimal.digit])
  have h₆ := h₅.step (l := .read (.data [43, 79, 75, 13, 10, 42, 50, 13, 10, 36, 49, 13, 10, 98, 13,
      10, 36, 45, 49, 13, 10]))
    (And.intro ⟨by decide, by decide, show 0 + 21 < 2147483648 by decide⟩
      (And.intro (List.cons_ne_nil _ _) ⟨[], hanswers.symm⟩)) rfl
  have h₇ := h₆.step (l := .getReply) ⟨⟨by decide, by decide, trivial⟩, trivial⟩ rfl
  let keys : KeySet := ⟨[[97], [99]], by decide⟩
  obtain ⟨element, vals', hgot, -, hvals, hothers⟩ :=
    mset_mget (tableServer_speaks hempty) tableServer_keeps h₇ (List.cons_ne_nil ([97], [98]) [])
      (List.cons_ne_nil [97] [[99]] : keys.keys ≠ []) (by simp) (mset_eq _)
      (show mget keys.keys = .ok _ from keysCommand_eq _ _) (show _ = [] ++ [_, _] from rfl) rfl
      ⟨0, [], [], 0⟩ fun _ => none
  refine ⟨_, element, vals', hgot, hvals [97] [98] List.mem_cons_self List.mem_cons_self, ?_⟩
  rw [hothers [99] (by decide)]
  exact if_neg fun h => h.2 rfl

end Hiredispool.Client
