import Hiredispool.Hiredis.AsyncRuns

/-!
# Subscriptions

Runs of an asynchronous context that subscribes to channels and patterns: its tables are
the maps of the subscriptions, whatever the hash table does.

`Subscriptions` is what the tables are for: a finite map of channels and one of patterns, the
callbacks of the commands that are invalid while there are any, and the mode. The events of a run
are the commands that were not refused and the replies that no command waits for, and `after`
folds them.

* `Async.subscriptions`: the tables are these maps, and each reply is handed to the callback that
  they have for it.
* `Async.routed`: a message is handed to the callback that was subscribed last for its channel or
  its pattern, until the server confirms that it is unsubscribed.

A context that monitors and is not subscribed does not look into the maps: it calls the callback
that was called before in the same loop, and the tables stay as they are (lines 464–466), also
when the message is one of a channel that they have.
-/

namespace Hiredispool.Hiredis

open Hiredispool.Pool (Bytes cStr)
open Hiredispool.Client (Arg Num)

/-! ## What the tables are for -/

/-- The subscriptions of a context, and the callbacks of the commands that are invalid while
    there are any (`ac->sub`, async.h). No table, no hash, no bytes of a command. -/
structure Subscriptions where
  subscribed : Bool
  channels : Finmap fun _ : Name => RedisCallback
  patterns : Finmap fun _ : Name => RedisCallback
  invalid : List RedisCallback

/-- What happens to them: the commands of the application, and what the server sends unasked. -/
inductive PubSub
  -- a command that is not refused
  | command (cb : RedisCallback) (argv : List Bytes)
  -- a reply for which no command waits, the callback that was called before in the same
  -- loop, and what is called
  | pushed (reply : ReplyObject) (prev : RedisCallback) (told : List Notice)

/-- The callback is called if there is a function (line 468). -/
def told (cb : RedisCallback) (reply : ReplyObject) : List Notice :=
  if cb.fn.isSome then [(cb, some reply)] else []

/-- A name of a command as `strncasecmp` takes it, without a `p` in front and with its line end.
    -/
def named (lit name : Bytes) : Bool :=
  RedisAsyncContext.caseEq (RedisAsyncContext.variant (name ++ [13, 10])).2 lit

/-- There is a `p` in front: `PSUBSCRIBE`, `pmessage`, and also `PING`. -/
def isPattern (name : Bytes) : Bool := (RedisAsyncContext.variant name).1

/-- The name of a channel or of a pattern. -/
def nameOf (str : Bytes) : Option Name :=
  if h : str.length < 2147483648 then some ⟨str, h⟩ else none

namespace Subscriptions

/-- No subscriptions. -/
def init : Subscriptions := ⟨false, ∅, ∅, []⟩

/-- The channels or the patterns. -/
def table (m : Subscriptions) (pattern : Bool) : Finmap fun _ : Name => RedisCallback :=
  if pattern then m.patterns else m.channels

/-- The same with other channels or other patterns. -/
def setTable (m : Subscriptions) (pattern : Bool) (t : Finmap fun _ : Name => RedisCallback) :
    Subscriptions :=
  if pattern then { m with patterns := t } else { m with channels := t }

/-- All the names are subscribed with `cb`. -/
def subscribe (cb : RedisCallback) (names : List Name) (t : Finmap fun _ : Name => RedisCallback) :
    Finmap fun _ : Name => RedisCallback :=
  names.foldl (fun t name => t.insert name cb) t

/-- A command: a `SUBSCRIBE` of some names, one that has no callback or one of a queue, or one
    that is invalid while the context is subscribed (lines 608–640). -/
def command (cb : RedisCallback) (m : Subscriptions) : List Bytes → Subscriptions
  | [] => m
  | name :: args =>
    if args ≠ [] ∧ named (Bytes.ofString "subscribe\r\n") name then
      { m.setTable (isPattern name) (subscribe cb (args.filterMap nameOf) (m.table (isPattern name)))
        with subscribed := true }
    else if named (Bytes.ofString "unsubscribe\r\n") name then m
    else if named (Bytes.ofString "monitor\r\n") name then m
    else if m.subscribed then { m with invalid := m.invalid ++ [cb] }
    else m

/-- The callback that a reply is for; if there is none, the one that was called before (lines
    388–390 and 406). -/
def callback (m : Subscriptions) (prev : RedisCallback) : ReplyObject → RedisCallback
  | .array (.string stype :: .string str :: _) =>
    (((nameOf str).bind fun name => (m.table (isPattern stype)).lookup name)).getD prev
  | .array _ => prev
  | .counted _ => prev
  | _ => m.invalid.headD prev

/-- The server says that a name is unsubscribed. -/
def unsubscribes (stype : Bytes) : Bool :=
  (cStr (RedisAsyncContext.variant stype).2).map RedisAsyncContext.toLower =
    Bytes.ofString "unsubscribe"

/-- A reply: the name of an `unsubscribe` message goes, and with the last one the mode; the
    first of the invalid commands has its reply (lines 393–401 and 406). -/
def reply (m : Subscriptions) : ReplyObject → Subscriptions
  | .array (.string stype :: .string str :: rest) =>
    match nameOf str with
    | some name =>
      if name ∈ m.table (isPattern stype) ∧ unsubscribes stype = true then
        { m.setTable (isPattern stype) ((m.table (isPattern stype)).erase name) with
          subscribed := m.subscribed && match rest with
            | .integer n :: _ => decide (n ≠ 0)
            | _ => true }
      else m
    | none => m
  | .array _ => m
  | .counted _ => m
  | _ => { m with invalid := m.invalid.tail }

/-- The callback that a reply is handed to for which no command waits. A context that is not
    subscribed is in monitor mode, and does not ask the tables (line 464). -/
def handed (m : Subscriptions) (prev : RedisCallback) (r : ReplyObject) : RedisCallback :=
  if m.subscribed then m.callback prev r else prev

/-- What such a reply does; in monitor mode it does nothing. -/
def pushed (m : Subscriptions) (r : ReplyObject) : Subscriptions :=
  if m.subscribed then m.reply r else m

/-- What has happened, one after the other. -/
def after (events : List PubSub) : Subscriptions :=
  events.foldl (fun m event => match event with
    | .command cb argv => m.command cb argv
    | .pushed reply _ _ => m.pushed reply) init

/-- One more event. -/
theorem after_append (events : List PubSub) (event : PubSub) :
    after (events ++ [event]) = match event with
      | .command cb argv => (after events).command cb argv
      | .pushed reply _ _ => (after events).pushed reply := by
  rw [after, List.foldl_append]
  rfl

/-! ### One name -/

/-- Channels and patterns do not touch each other. -/
theorem table_setTable (m : Subscriptions) (p q : Bool) (t : Finmap fun _ : Name => RedisCallback) :
    (m.setTable p t).table q = if p = q then t else m.table q := by
  cases p <;> cases q <;> rfl

/-- By induction on the names: those that were named have the callback. -/
theorem lookup_subscribe (cb : RedisCallback) (names : List Name)
    (t : Finmap fun _ : Name => RedisCallback) (name : Name) :
    (subscribe cb names t).lookup name = if name ∈ names then some cb else t.lookup name := by
  induction names generalizing t with
  | nil => rfl
  | cons name' names ih =>
    rw [subscribe, List.foldl_cons, ← subscribe, ih]
    by_cases hmem : name ∈ names
    · rw [if_pos hmem, if_pos (List.mem_cons_of_mem _ hmem)]
    · rw [if_neg hmem]
      by_cases hname : name = name'
      · subst hname
        rw [if_pos List.mem_cons_self, Finmap.lookup_insert]
      · rw [if_neg (by simp [hname, hmem]), Finmap.lookup_insert_of_ne _ hname]

/-- The names are the arguments. -/
theorem mem_filterMap_nameOf {args : List Bytes} {name : Name} :
    name ∈ args.filterMap nameOf ↔ name.1 ∈ args := by
  rw [List.mem_filterMap]
  constructor
  · rintro ⟨arg, hmem, harg⟩
    unfold nameOf at harg
    split at harg
    · obtain rfl := Option.some.inj harg
      exact hmem
    · cases harg
  · exact fun hmem => ⟨name.1, hmem, dif_pos name.2⟩

/-- The channel, or the pattern, is subscribed or unsubscribed. -/
def concerns (pattern : Bool) (name : Name) : PubSub → Prop
  | .command _ (cmd :: args) =>
    named (Bytes.ofString "subscribe\r\n") cmd = true ∧ isPattern cmd = pattern ∧ name.1 ∈ args
  | .pushed (.array (.string stype :: .string str :: _)) _ _ =>
    unsubscribes stype = true ∧ isPattern stype = pattern ∧ str = name.1
  | _ => False

/-- A command does to no name anything that it does not name. -/
theorem lookup_command (m : Subscriptions) {cb : RedisCallback} {argv : List Bytes}
    {pattern : Bool} {name : Name} (h : ¬concerns pattern name (.command cb argv)) :
    ((m.command cb argv).table pattern).lookup name = (m.table pattern).lookup name := by
  cases argv with
  | nil => rfl
  | cons cmd args =>
    rw [command]
    split
    · next hsub =>
      have htable : ∀ t, ({ m.setTable (isPattern cmd) t with
          subscribed := true } : Subscriptions).table pattern =
          if isPattern cmd = pattern then t else m.table pattern :=
        fun t => table_setTable m (isPattern cmd) pattern t
      rw [htable]
      split
      · next hpattern =>
        rw [lookup_subscribe, if_neg, hpattern]
        rw [mem_filterMap_nameOf]
        exact fun hmem => h ⟨hsub.2, hpattern, hmem⟩
      · rfl
    · split
      · rfl
      · split
        · rfl
        · split <;> rfl

/-- Nor does a message, and one of another kind does nothing at all. -/
theorem lookup_pushed (m : Subscriptions) {reply : ReplyObject} {prev : RedisCallback}
    {notices : List Notice} {pattern : Bool} {name : Name}
    (h : ¬concerns pattern name (.pushed reply prev notices)) :
    ((m.pushed reply).table pattern).lookup name = (m.table pattern).lookup name := by
  unfold Subscriptions.pushed
  split
  swap
  · rfl
  unfold Subscriptions.reply
  split
  · next stype str rest =>
    split
    · next name' hname =>
      split
      · next hun =>
        have htable : ∀ b t, ({ m.setTable (isPattern stype) t with
            subscribed := b } : Subscriptions).table pattern =
            if isPattern stype = pattern then t else m.table pattern :=
          fun _ t => table_setTable m (isPattern stype) pattern t
        rw [htable]
        split
        · next hpattern =>
          have hne : name ≠ name' := by
            rintro rfl
            unfold nameOf at hname
            split at hname
            · exact h ⟨hun.2, hpattern, congrArg Subtype.val (Option.some.inj hname)⟩
            · cases hname
          rw [Finmap.lookup_erase_ne hne, hpattern]
        · rfl
      · rfl
    · rfl
  · rfl
  · rfl
  · rfl

/-- A name stays as it is as long as nothing concerns it. -/
theorem lookup_after (pattern : Bool) (name : Name) (before : List PubSub) {events : List PubSub}
    (h : ∀ event ∈ events, ¬concerns pattern name event) :
    ((after (before ++ events)).table pattern).lookup name =
      ((after before).table pattern).lookup name := by
  induction events using List.reverseRecOn with
  | nil => rw [List.append_nil]
  | append_singleton events event ih =>
    have hevent := h event (by simp)
    rw [← ih fun event' hmem => h event' (by simp [hmem]), ← List.append_assoc, after_append]
    cases event with
    | command cb argv => exact lookup_command _ hevent
    | pushed reply prev notices => exact lookup_pushed _ hevent

end Subscriptions

/-! ## The tables -/

open Subscriptions (init)

namespace RedisAsyncContext

/-- `ac->sub.patterns` or `ac->sub.channels`. -/
def table (ac : RedisAsyncContext) (pattern : Bool) : Dict Name RedisCallback :=
  if pattern then ac.patterns else ac.channels

/-- The context with another table. -/
def setTable (ac : RedisAsyncContext) (pattern : Bool) (t : Dict Name RedisCallback) :
    RedisAsyncContext :=
  if pattern then { ac with patterns := t } else { ac with channels := t }

/-- The tables of the context hold the subscriptions, and the context is in the mode that it
    should be in. -/
structure Holds (ac : RedisAsyncContext) (m : Subscriptions) : Prop where
  subscribed : ac.subscribed = m.subscribed
  table : ∀ pattern, Dict.Rep callbackDict (ac.table pattern) (m.table pattern)

/-- A new context has none. -/
theorem Holds.start (c : RedisContext) : (asyncInitialize c).Holds init where
  subscribed := rfl
  table := by
    intro pattern
    cases pattern <;> exact Dict.Rep.create

/-- Another table for another map. -/
theorem Holds.setTable {ac : RedisAsyncContext} {m : Subscriptions} (h : ac.Holds m)
    (pattern : Bool) {ht : Dict Name RedisCallback} {t : Finmap fun _ : Name => RedisCallback}
    (hrep : Dict.Rep callbackDict ht t) : (ac.setTable pattern ht).Holds (m.setTable pattern t) where
  subscribed := by cases pattern <;> exact h.subscribed
  table := by
    intro p
    have hp := h.table p
    cases pattern <;> cases p
    · exact hrep
    · exact hp
    · exact hp
    · exact hrep

/-- One iteration of the loop over the names (lines 612–620). -/
theorem subscribe_succ (pattern : Bool) (cb : RedisCallback) (fuel : ℕ) (p : Bytes)
    (ac : RedisAsyncContext) : subscribe pattern cb (fuel + 1) p ac =
      (nextArgument p).bind fun arg =>
        match arg with
        | none => some ac
        | some (astr, alen, p) =>
          if hlen : (astr.take alen).length < 2147483648 then
            ((ac.table pattern).dictReplace callbackDict ⟨astr.take alen, hlen⟩ cb).bind
              fun (dict, _) => subscribe pattern cb fuel p (ac.setTable pattern dict)
          else none := by
  cases pattern <;> rfl

/-- Behind the last argument there is no `$`. -/
theorem nextArgument_nil : nextArgument [] = some none := by
  rw [nextArgument]
  rfl

/-- The loop over the names of a `(P)SUBSCRIBE`: by induction on the names, the table gets
    each one. -/
theorem subscribe_spec {cb : RedisCallback} {pattern : Bool} {args : List Bytes}
    (hlen : ∀ arg ∈ args, arg.length < 2147483648) {fuel : ℕ} (hfuel : args.length < fuel)
    {ac : RedisAsyncContext} {m : Subscriptions} (h : ac.Holds m)
    (hcard : (m.table pattern).keys.card + args.length ≤ 2147483648) :
    ∃ ht, subscribe pattern cb fuel (encodeAll (args.map .string)) ac =
        some (ac.setTable pattern ht) ∧
      Dict.Rep callbackDict ht
        (Subscriptions.subscribe cb (args.filterMap nameOf) (m.table pattern)) := by
  induction args generalizing fuel ac m with
  | nil =>
    obtain ⟨fuel, rfl⟩ := Nat.exists_eq_succ_of_ne_zero (Nat.ne_of_gt hfuel)
    refine ⟨ac.table pattern, ?_, h.table pattern⟩
    rw [Nat.succ_eq_add_one, subscribe_succ, List.map_nil, encodeAll, nextArgument_nil]
    cases pattern <;> rfl
  | cons arg args ih =>
    obtain ⟨fuel, rfl⟩ := Nat.exists_eq_succ_of_ne_zero (Nat.ne_of_gt (Nat.zero_lt_of_lt hfuel))
    obtain ⟨harg, hargs⟩ := List.forall_mem_cons.mp hlen
    rw [List.length_cons] at hcard hfuel
    have htake : (arg ++ 13 :: 10 :: encodeAll (args.map .string)).take arg.length = arg :=
      List.take_left
    obtain ⟨ht, hreplace, hrep⟩ := (h.table pattern).dictReplace (by omega) ⟨arg, harg⟩ cb
    have htable : (m.setTable pattern ((m.table pattern).insert ⟨arg, harg⟩ cb)).table pattern =
        (m.table pattern).insert ⟨arg, harg⟩ cb := by
      cases pattern <;> rfl
    have hle := Buckets.card_insert_le (⟨arg, harg⟩ : Name) cb (m.table pattern)
    obtain ⟨ht', hsub, hrep'⟩ := ih hargs (Nat.lt_of_succ_lt_succ hfuel) (h.setTable pattern hrep)
      (by rw [htable]; omega)
    rw [htable] at hrep'
    refine ⟨ht', ?_, ?_⟩
    · rw [Nat.succ_eq_add_one, subscribe_succ, nextArgument_cons harg, Option.bind_some]
      simp only [htake, harg, dif_pos, hreplace, Option.bind_some, hsub]
      cases pattern <;> rfl
    · have hname : nameOf arg = some ⟨arg, harg⟩ := dif_pos harg
      rw [List.filterMap_cons_some hname]
      exact hrep'

/-- The `p` is that of the name. -/
theorem variant_fst (name rest : Bytes) : (variant (name ++ 13 :: rest)).1 = isPattern name := by
  have h13 : ¬toLower 13 = 112 := by decide
  have h0 : ¬toLower 0 = 112 := by decide
  cases name with
  | nil => simp [variant, isPattern, h13, h0]
  | cons b name => by_cases hp : toLower b = 112 <;> simp [variant, isPattern, hp]

/-- `hasnext = (p[0] == '$')` (line 603): there is an argument. -/
theorem head_encodeAll (args : List Bytes) :
    (encodeAll (args.map .string)).head? = some 36 ↔ args ≠ [] := by
  cases args with
  | nil => simp [encodeAll]
  | cons arg args => rw [encodeAll_strings_cons]; simp

/-- What `__redisAsyncCommand` does to the tables. -/
theorem Holds.asyncCommand {cb : RedisCallback} {argv : List Bytes}
    (hlen : totalLength argv < 2147483648) {ac ac' : RedisAsyncContext} {m : Subscriptions}
    (h : ac.Holds m) (hfit : ∀ pattern, (ac.table pattern).used + argv.length ≤ 2147483648) {ok : Bool}
    (hs : ac.asyncCommand cb (encode (argvReply argv)) (totalLength argv) = some (ac', ok))
    (hlive : ¬(ac.disconnecting = true ∨ ac.freeing = true)) :
    ac'.Holds (m.command cb argv) ∧
      (ac.invalid = m.invalid → ac'.invalid = (m.command cb argv).invalid) := by
  rw [RedisAsyncContext.asyncCommand, if_neg hlive] at hs
  cases argv with
  | nil =>
    have hnone : nextArgument (encode (argvReply [])) = some none := by decide
    rw [hnone] at hs
    cases hs
  | cons name args =>
    have hname : name.length ≤ totalLength (name :: args) := length_arg_le List.mem_cons_self
    have hnamed : ∀ w : Bytes, 13 ∉ w → caseEq (variant (name ++ 13 :: 10 ::
        encodeAll (args.map .string))).2 (w ++ [13, 10]) = named (w ++ [13, 10]) name :=
      fun w hw => special_append name _ hw
    have h₁ := hnamed (Bytes.ofString "subscribe") (by decide)
    have h₂ := hnamed (Bytes.ofString "unsubscribe") (by decide)
    have h₃ := hnamed (Bytes.ofString "monitor") (by decide)
    rw [show Bytes.ofString "subscribe" ++ [13, 10] = Bytes.ofString "subscribe\r\n" by decide] at h₁
    rw [show Bytes.ofString "unsubscribe" ++ [13, 10] = Bytes.ofString "unsubscribe\r\n" by decide]
      at h₂
    rw [show Bytes.ofString "monitor" ++ [13, 10] = Bytes.ofString "monitor\r\n" by decide] at h₃
    rw [nextArgument_argv (by omega)] at hs
    simp only [Option.bind_eq_bind, Option.bind_some, h₁, h₂, h₃, variant_fst, head_encodeAll,
      append_argv hlen] at hs
    rw [Subscriptions.command]
    split at hs
    · next hsub =>
      rw [if_pos hsub]
      have hargs : ∀ arg ∈ args, arg.length < 2147483648 := by
        intro arg harg
        have := length_arg_le (List.mem_cons_of_mem name harg)
        omega
      have hused := hfit (isPattern name)
      rw [(h.table _).used_eq, List.length_cons] at hused
      have hfuel : args.length < (encode (argvReply (name :: args))).length + 1 := by
        have := length_le_totalLength (name :: args)
        rw [length_encode_argv]
        rw [List.length_cons] at this
        omega
      have h' : ({ ac with subscribed := true } : RedisAsyncContext).Holds { m with subscribed := true } :=
        ⟨rfl, h.table⟩
      have hcard : (({ m with subscribed := true } : Subscriptions).table (isPattern name)).keys.card +
          args.length ≤ 2147483648 := by
        show (m.table _).keys.card + _ ≤ _
        omega
      obtain ⟨ht, hloop, hrep⟩ := subscribe_spec hargs hfuel h' hcard
      rw [hloop, Option.bind_some] at hs
      obtain ⟨rfl, -⟩ := Prod.mk.inj (Option.some.inj hs)
      have hset := h'.setTable (isPattern name) hrep
      revert hset
      cases isPattern name
      · exact fun hset => ⟨⟨rfl, hset.table⟩, id⟩
      · exact fun hset => ⟨⟨rfl, hset.table⟩, id⟩
    · next hsub =>
      rw [if_neg hsub]
      split at hs
      · next hunsub =>
        rw [if_pos hunsub]
        split at hs
        · obtain ⟨rfl, -⟩ := Prod.mk.inj (Option.some.inj hs)
          exact ⟨h, id⟩
        · obtain ⟨rfl, -⟩ := Prod.mk.inj (Option.some.inj hs)
          exact ⟨⟨h.subscribed, h.table⟩, id⟩
      · next hunsub =>
        rw [if_neg hunsub]
        split at hs
        · next hmonitor =>
          rw [if_pos hmonitor]
          obtain ⟨rfl, -⟩ := Prod.mk.inj (Option.some.inj hs)
          exact ⟨⟨h.subscribed, h.table⟩, id⟩
        · next hmonitor =>
          rw [if_neg hmonitor]
          split at hs
          · next hmode =>
            obtain ⟨rfl, -⟩ := Prod.mk.inj (Option.some.inj hs)
            rw [if_pos (h.subscribed ▸ hmode)]
            exact ⟨⟨h.subscribed, h.table⟩, fun hinvalid => congrArg (· ++ [cb]) hinvalid⟩
          · next hmode =>
            obtain ⟨rfl, -⟩ := Prod.mk.inj (Option.some.inj hs)
            rw [if_neg (h.subscribed ▸ hmode)]
            exact ⟨⟨h.subscribed, h.table⟩, id⟩

/-- What `__redisGetSubscribeCallback` finds, and what it does to the tables. -/
theorem Holds.getSubscribeCallback {ac ac' : RedisAsyncContext} {m : Subscriptions} (h : ac.Holds m)
    (hinvalid : ac.invalid = m.invalid) {reply : ReplyObject} {prev cb : RedisCallback}
    (hs : ac.getSubscribeCallback reply prev = some (ac', cb)) :
    cb = m.callback prev reply ∧ ac'.Holds (m.reply reply) ∧ ac'.invalid = (m.reply reply).invalid := by
  unfold RedisAsyncContext.getSubscribeCallback at hs
  split at hs
  · next stype str rest =>
    dsimp only at hs
    split at hs
    · next hlen =>
      have hname : nameOf str = some ⟨str, hlen⟩ := dif_pos hlen
      have htable := h.table (isPattern stype)
      rw [show (if (variant stype).1 = true then ac.patterns else ac.channels) =
        ac.table (isPattern stype) from rfl, htable.dictFind, Option.bind_some] at hs
      simp only [Subscriptions.callback, Subscriptions.reply, hname, Option.bind_some]
      cases hfind : (m.table (isPattern stype)).lookup ⟨str, hlen⟩ with
      | none =>
        rw [hfind] at hs
        obtain ⟨rfl, rfl⟩ := Prod.mk.inj (Option.some.inj hs)
        rw [if_neg (fun hmem => Finmap.lookup_eq_none.mp hfind hmem.1)]
        exact ⟨rfl, h, hinvalid⟩
      | some cb' =>
        have hmem := Finmap.mem_of_lookup_eq_some hfind
        rw [hfind] at hs
        dsimp only [Option.map_some] at hs
        split at hs
        · next hkind =>
          obtain ⟨ht, hdel, hrep⟩ := htable.dictDelete ⟨str, hlen⟩
          rw [hdel, Option.bind_some] at hs
          rw [if_pos ⟨hmem, decide_eq_true hkind⟩]
          split at hs
          · next n rest =>
            obtain ⟨rfl, rfl⟩ := Prod.mk.inj (Option.some.inj hs)
            have hset := h.setTable (isPattern stype) hrep
            refine ⟨rfl, ⟨?_, hset.table⟩, ?_⟩
            · rw [← h.subscribed]
              show ((ac.setTable (isPattern stype) ht).subscribed && _) = _
              cases isPattern stype <;> rfl
            · show (ac.setTable (isPattern stype) ht).invalid = (m.setTable (isPattern stype) _).invalid
              cases isPattern stype <;> exact hinvalid
          · cases hs
        · next hkind =>
          obtain ⟨rfl, rfl⟩ := Prod.mk.inj (Option.some.inj hs)
          rw [if_neg (fun hun => hkind (of_decide_eq_true hun.2))]
          exact ⟨rfl, h, hinvalid⟩
    · cases hs
  · cases hs
  · cases hs
  · next hne₁ hne₂ hne₃ =>
    have hcb : cb = m.invalid.headD prev ∧ ac'.Holds { m with invalid := m.invalid.tail } ∧
        ac'.invalid = m.invalid.tail := by
      rw [← hinvalid]
      split at hs
      · next hnil =>
        obtain ⟨rfl, rfl⟩ := Prod.mk.inj (Option.some.inj hs)
        rw [hnil]
        exact ⟨rfl, ⟨h.subscribed, h.table⟩, rfl⟩
      · next cb' invalid hcons =>
        obtain ⟨rfl, rfl⟩ := Prod.mk.inj (Option.some.inj hs)
        rw [hcons]
        exact ⟨rfl, ⟨h.subscribed, h.table⟩, rfl⟩
    cases reply with
    | array element =>
      exact absurd rfl (hne₂ element)
    | counted n => exact absurd rfl (hne₃ n)
    | _ => exact hcb

end RedisAsyncContext

/-! ## Runs -/

/-- The command fits an `int`, and so do the tables when they get all its arguments. -/
def RedisAsyncContext.Fits (ac : RedisAsyncContext) (argv : List Bytes) : Prop :=
  totalLength argv < 2147483648 ∧ ∀ pattern, (ac.table pattern).used + argv.length ≤ 2147483648

/-- The commands fit. -/
def Fitting {D : Type} (text : Bytes → Num D → Bytes) (s : Async) : AsyncAction D → Prop
  | .command _ argv => s.ac.Fits argv
  | .commandFormat _ format args =>
    ∀ argv, Client.redisvFormatCommand text format args = .ok argv → s.ac.Fits argv
  | _ => True

namespace Async

/-- A command, if it is not refused. -/
def noteCommand (s : Async) (cb : RedisCallback) (argv : List Bytes) : List PubSub :=
  if s.ac.disconnecting ∨ s.ac.freeing then [] else [.command cb argv]

/-- A reply for which no command waits, and which is no error, with the calls between `s` and
    `s'`. -/
def noteReply (s : Async) (prev : RedisCallback) (s' : Async) : List PubSub :=
  match s.ac.c.getReplyEnter with
  | some (_, .returned true (some (.error _))) => []
  | some (_, .returned true (some reply)) =>
    if s.ac.replies = [] then [.pushed reply prev (s'.calls.drop s.calls.length)] else []
  | _ => []

/-- What a step does to the subscriptions. -/
def note {D : Type} (text : Bytes → Num D → Bytes) (s : Async) (a : AsyncAction D) (s' : Async) :
    List PubSub :=
  match a with
  | .command cb argv => s.noteCommand cb argv
  | .commandFormat cb format args =>
    match Client.redisvFormatCommand text format args with
    | .ok argv => s.noteCommand cb argv
    | .error _ => []
  | .iterate =>
    match s.control with
    | .processing prev => s.noteReply prev s'
    | _ => []
  | _ => []

/-- The subscriptions are as before, and so are the callbacks of invalid commands while the
    context is in use. -/
structure Untouched (s s' : Async) : Prop where
  channels : s'.ac.channels = s.ac.channels
  patterns : s'.ac.patterns = s.ac.patterns
  subscribed : s'.ac.subscribed = s.ac.subscribed
  live : s'.control.closing = false →
    s.control.closing = false ∧ s'.ac.invalid = s.ac.invalid

/-- Tearing a context down does not begin with its tables. -/
theorem asyncDisconnect_untouched {s s' : Async} (hs : s.asyncDisconnect = some s') :
    Untouched s s' := by
  obtain ⟨disconnecting, rfl, -⟩ := asyncDisconnect_eq hs
  exact ⟨rfl, rfl, rfl, by rintro ⟨⟩⟩

/-- A disconnect of the application leaves the subscriptions alone. -/
theorem redisAsyncDisconnect_untouched {s s' : Async} (hs : s.redisAsyncDisconnect = some s') :
    Untouched s s' := by
  unfold redisAsyncDisconnect at hs
  dsimp only at hs
  split at hs
  · exact { asyncDisconnect_untouched hs with }
  · obtain rfl := Option.some.inj hs
    exact ⟨rfl, rfl, rfl, fun hlive => ⟨hlive, rfl⟩⟩

/-- So does `redisAsyncFree`. -/
theorem redisAsyncFree_untouched (s : Async) : Untouched s s.redisAsyncFree := by
  unfold redisAsyncFree
  dsimp only
  split
  · exact ⟨rfl, rfl, rfl, by rintro ⟨⟩⟩
  · exact ⟨rfl, rfl, rfl, fun hlive => ⟨hlive, rfl⟩⟩

/-- So does the first event. -/
theorem handleConnect_untouched {s s' : Async} (hcontrol : s.control = .idle) {error : SocketError}
    {handler : Handler} (hs : s.handleConnect error handler = some s') : Untouched s s' := by
  have hlive : s.control.closing = false := by rw [hcontrol]; rfl
  rcases handleConnect_cases hs with ⟨-, rfl⟩ | ⟨-, ⟨text, -, rfl⟩ | ⟨text, -, -, rfl⟩ |
    ⟨text, -, -, hs⟩ | ⟨-, -, rfl⟩ | ⟨-, -, rfl⟩⟩
  · exact ⟨rfl, rfl, rfl, fun _ => ⟨hlive, rfl⟩⟩
  · exact ⟨rfl, rfl, rfl, fun _ => ⟨hlive, rfl⟩⟩
  · exact ⟨rfl, rfl, rfl, fun _ => ⟨hlive, rfl⟩⟩
  · exact { asyncDisconnect_untouched hs with }
  · exact ⟨rfl, rfl, rfl, fun _ => ⟨hlive, rfl⟩⟩
  · exact ⟨rfl, rfl, rfl, fun _ => ⟨hlive, rfl⟩⟩

/-- So does what is read, before it is looked at. -/
theorem handleRead_untouched {s s' : Async} (hcontrol : s.control = .handling .read)
    {res : ReadResult} (hs : s.handleRead res = some s') : Untouched s s' := by
  have hlive : s.control.closing = false := by rw [hcontrol]; rfl
  unfold handleRead at hs
  dsimp only at hs
  split at hs
  · exact { asyncDisconnect_untouched hs with }
  · obtain rfl := Option.some.inj hs
    exact ⟨rfl, rfl, rfl, fun _ => ⟨hlive, rfl⟩⟩

/-- So does what is written. -/
theorem handleWrite_untouched {s s' : Async} (hcontrol : s.control = .handling .write)
    {res : WriteResult} (hs : s.handleWrite res = some s') : Untouched s s' := by
  have hlive : s.control.closing = false := by rw [hcontrol]; rfl
  obtain ⟨⟨c, ok, done⟩, -, hs⟩ := Option.bind_eq_some_iff.mp hs
  dsimp only at hs
  split at hs
  · exact { asyncDisconnect_untouched hs with }
  · obtain rfl := Option.some.inj hs
    exact ⟨rfl, rfl, rfl, fun _ => ⟨hlive, rfl⟩⟩

/-- The loops of `__redisAsyncFree` take callbacks only from the queues. -/
theorem asyncFree_untouched {s s' : Async} {stage : Release} (hs : s.asyncFree stage = some s') :
    Untouched s s' := by
  obtain ⟨replies, invalid, cb, stage, rfl⟩ | ⟨stage, rfl⟩ | rfl := asyncFree_cases hs
  · rw [runCallback_eq]
    cases cb.fn.isSome <;> exact ⟨rfl, rfl, rfl, by rintro ⟨⟩⟩
  · exact ⟨rfl, rfl, rfl, by rintro ⟨⟩⟩
  · unfold asyncFreed
    dsimp only
    split <;> exact ⟨rfl, rfl, rfl, by rintro ⟨⟩⟩

/-- So does the end of a callback. -/
theorem returned_untouched {D : Type} {text : Bytes → Num D → Bytes} {s s' : Async}
    (hs : s.step text .returned = some s') : Untouched s s' := by
  obtain ⟨handler, hcontrol, rfl⟩ | ⟨handler, hcontrol, hs⟩ | ⟨cb, hcontrol, rfl⟩ |
      ⟨stage, hcontrol, rfl⟩ | ⟨hcontrol, rfl⟩ := step_returned hs
  · exact ⟨rfl, rfl, rfl, fun _ => ⟨by rw [hcontrol]; rfl, rfl⟩⟩
  · exact asyncDisconnect_untouched hs
  · exact ⟨rfl, rfl, rfl, fun _ => ⟨by rw [hcontrol]; rfl, rfl⟩⟩
  · exact ⟨rfl, rfl, rfl, by rintro ⟨⟩⟩
  · exact ⟨rfl, rfl, rfl, by rintro ⟨⟩⟩

/-- A reply that no command waits for is noted, with the calls. -/
theorem noteReply_pushed {s s' : Async} {prev : RedisCallback} {c : RedisContext}
    {reply : ReplyObject} (henter : s.ac.c.getReplyEnter = some (c, .returned true (some reply)))
    (hnil : s.ac.replies = []) (hne : ∀ str, reply = .error str → False) :
    s.noteReply prev s' = [.pushed reply prev (s'.calls.drop s.calls.length)] := by
  rw [noteReply, henter]
  cases reply with
  | error str => exact absurd rfl (hne str)
  | _ => exact if_pos hnil

/-- One iteration over the replies: there is no reply or a command waits for it, and the
    subscriptions are as before, or no command waits for it. -/
theorem processCallbacks_note {s s' : Async} {prev : RedisCallback}
    (hcontrol : s.control = .processing prev) (hs : s.processCallbacks prev = some s') :
    s.noteReply prev s' = [] ∧ Untouched s s' ∨
      ∃ reply cb, s.noteReply prev s' = [.pushed reply prev (told cb reply)] ∧
        (s.ac.subscribed = false ∧ cb = prev ∧ Untouched s s' ∨
          s.ac.subscribed = true ∧ ∃ c ac,
            RedisAsyncContext.getSubscribeCallback reply prev { s.ac with c := c } = some (ac, cb) ∧
            s' = { s with ac := ac }.runCallback cb (some reply) (.processing cb) (.replying cb)) := by
  have hlive : s.control.closing = false := by rw [hcontrol]; rfl
  obtain ⟨⟨c, result⟩, henter, hs⟩ := Option.bind_eq_some_iff.mp hs
  have hrun : ∀ (t : Async) (cb : RedisCallback) (reply : ReplyObject),
      t.ac.channels = s.ac.channels → t.ac.patterns = s.ac.patterns →
      t.ac.subscribed = s.ac.subscribed → t.ac.invalid = s.ac.invalid →
      Untouched s (t.runCallback cb (some reply) (.processing cb) (.replying cb)) := by
    intro t cb reply hchannels hpatterns hsubscribed hinvalid
    rw [runCallback_eq]
    exact ⟨hchannels, hpatterns, hsubscribed, fun _ => ⟨hlive, hinvalid⟩⟩
  have hcalls : ∀ (t : Async) (cb : RedisCallback) (reply : ReplyObject), t.calls = s.calls →
      (t.runCallback cb (some reply) (.processing cb) (.replying cb)).calls.drop s.calls.length =
        told cb reply := by
    intro t cb reply ht
    rw [runCallback_eq, ← ht]
    exact List.drop_left
  cases result with
  | returned ok reply =>
    cases ok with
    | false =>
      rw [noteReply, henter]
      exact Or.inl ⟨rfl, { asyncDisconnect_untouched hs with }⟩
    | true =>
      cases reply with
      | none =>
        rw [noteReply, henter]
        refine Or.inl ⟨rfl, ?_⟩
        dsimp only at hs
        split at hs
        · exact { asyncDisconnect_untouched hs with }
        · split at hs <;> obtain rfl := Option.some.inj hs <;>
            exact ⟨rfl, rfl, rfl, fun _ => ⟨hlive, rfl⟩⟩
      | some reply =>
        dsimp only at hs
        split at hs
        · next cb replies hqueue =>
          obtain rfl := Option.some.inj hs
          refine Or.inl ⟨?_, hrun _ _ _ rfl rfl rfl rfl⟩
          rw [noteReply, henter]
          cases reply <;> simp [hqueue]
        · next hnil =>
          split at hs
          · rw [noteReply, henter]
            exact Or.inl ⟨rfl, { asyncDisconnect_untouched hs with }⟩
          · next hne =>
            have hnote : ∀ t : Async, s.noteReply prev t =
                [.pushed reply prev (t.calls.drop s.calls.length)] :=
              fun t => noteReply_pushed henter hnil hne
            rw [hnote]
            split at hs
            · cases hs
            · split at hs
              · next hsub =>
                obtain ⟨⟨ac, cb⟩, hget, rfl⟩ := Option.map_eq_some_iff.mp hs
                refine Or.inr ⟨reply, cb, ?_, Or.inr ⟨hsub, c, ac, hget, rfl⟩⟩
                exact congrArg (fun n => [PubSub.pushed reply prev n])
                  (hcalls { s with ac := ac } cb reply rfl)
              · next hsub =>
                obtain rfl := Option.some.inj hs
                refine Or.inr ⟨reply, prev, ?_, Or.inl ⟨Bool.eq_false_iff.mpr hsub, rfl, ?_⟩⟩
                · exact congrArg (fun n => [PubSub.pushed reply prev n]) (hcalls _ prev reply rfl)
                · exact hrun _ _ _ rfl rfl rfl rfl
  | _ => cases hs

/-- The context and the events so far: the tables hold what the events make of no subscriptions
    at all, and each reply among them was handed to the callback of its time. -/
structure Subscribed (s : Async) (events : List PubSub) : Prop where
  holds : s.ac.Holds (.after events)
  invalid : s.control.closing = false → s.ac.invalid = (Subscriptions.after events).invalid
  told : ∀ before reply prev notices later, events = before ++ .pushed reply prev notices :: later →
    notices = told ((Subscriptions.after before).handed prev reply) reply

/-- No events. -/
theorem Subscribed.start : Subscribed start [] where
  holds := .start _
  invalid := fun _ => rfl
  told := by
    intro before reply prev notices later h
    cases before <;> cases h

/-- A step that is no event. -/
theorem Subscribed.untouched {s s' : Async} {events : List PubSub} (h : Subscribed s events)
    (hsame : Untouched s s') : Subscribed s' (events ++ []) := by
  rw [List.append_nil]
  refine ⟨⟨hsame.subscribed.trans h.holds.subscribed, fun pattern => ?_⟩, fun hlive => ?_, h.told⟩
  · have htable : s'.ac.table pattern = s.ac.table pattern := by
      unfold RedisAsyncContext.table
      rw [hsame.channels, hsame.patterns]
    rw [htable]
    exact h.holds.table pattern
  · obtain ⟨hlive', hinvalid⟩ := hsame.live hlive
    rw [hinvalid]
    exact h.invalid hlive'

/-- One more event. -/
theorem Subscribed.told_snoc {s : Async} {events : List PubSub} (h : Subscribed s events)
    {event : PubSub} (hevent : ∀ reply prev notices, event = .pushed reply prev notices →
      notices = Hiredis.told ((Subscriptions.after events).handed prev reply) reply)
    (before : List PubSub) (reply : ReplyObject) (prev : RedisCallback) (notices : List Notice)
    (later : List PubSub) (heq : events ++ [event] = before ++ .pushed reply prev notices :: later) :
    notices = Hiredis.told ((Subscriptions.after before).handed prev reply) reply := by
  rcases List.eq_nil_or_concat later with rfl | ⟨later, last, rfl⟩
  · obtain ⟨rfl, hlast⟩ := List.append_inj' heq rfl
    exact hevent _ _ _ (List.singleton_injective hlast)
  · rw [List.concat_eq_append, ← List.cons_append, ← List.append_assoc] at heq
    exact h.told before reply prev notices later (List.append_inj' heq rfl).1

/-- A command of the application: if it is accepted it is an event, and changes the tables as
    such. -/
theorem Subscribed.command {D : Type} {text : Bytes → Num D → Bytes} {s s' : Async}
    {events : List PubSub} (h : Subscribed s events) {cb : RedisCallback} {argv : List Bytes}
    (hfits : s.ac.Fits argv) (hs : s.step text (.command cb argv) = some s') :
    Subscribed s' (events ++ s.noteCommand cb argv) := by
  obtain ⟨-, hs⟩ := Option.ite_none_right_eq_some.mp hs
  rw [RedisAsyncContext.asyncCommandArgv, redisFormatSdsCommandArgv_eq hfits.1, Option.bind_some]
    at hs
  dsimp only at hs
  obtain ⟨⟨ac, ok⟩, hcommand, rfl⟩ := Option.map_eq_some_iff.mp hs
  rw [noteCommand]
  by_cases hrefused : s.ac.disconnecting = true ∨ s.ac.freeing = true
  · rw [if_pos hrefused]
    have hsame : ac = s.ac := by
      rw [RedisAsyncContext.asyncCommand, if_pos hrefused] at hcommand
      exact ((Prod.mk.inj (Option.some.inj hcommand)).1).symm
    subst hsame
    exact h.untouched ⟨rfl, rfl, rfl, fun hlive => ⟨hlive, rfl⟩⟩
  · rw [if_neg hrefused]
    obtain ⟨hholds, hinvalid⟩ := h.holds.asyncCommand hfits.1 hfits.2 hcommand hrefused
    refine ⟨?_, fun hlive => ?_, h.told_snoc (by rintro - - - ⟨⟩)⟩
    · rw [Subscriptions.after_append]
      exact hholds
    · rw [Subscriptions.after_append]
      exact hinvalid (h.invalid hlive)

/-- A reply: no command waits for it, or it does not matter. -/
theorem Subscribed.processCallbacks {s s' : Async} {events : List PubSub} (h : Subscribed s events)
    {prev : RedisCallback} (hcontrol : s.control = .processing prev)
    (hs : s.processCallbacks prev = some s') : Subscribed s' (events ++ s.noteReply prev s') := by
  obtain ⟨hnote, hsame⟩ | ⟨reply, cb, hnote, hmode⟩ := processCallbacks_note hcontrol hs
  · rw [hnote]
    exact h.untouched hsame
  have htold : cb = (Subscriptions.after events).handed prev reply →
      ∀ reply' prev' notices, PubSub.pushed reply prev (Hiredis.told cb reply) =
          .pushed reply' prev' notices →
        notices = Hiredis.told ((Subscriptions.after events).handed prev' reply') reply' := by
    rintro hcb reply' prev' notices ⟨⟩
    rw [hcb]
  rw [hnote]
  rcases hmode with ⟨hsub, rfl, hsame⟩ | ⟨hsub, c, ac, hget, rfl⟩
  · -- monitor mode alone
    have hmode : (Subscriptions.after events).subscribed = false := h.holds.subscribed ▸ hsub
    have hsame' := h.untouched hsame
    rw [List.append_nil] at hsame'
    have hafter : Subscriptions.after (events ++ [.pushed reply cb (Hiredis.told cb reply)]) =
        Subscriptions.after events := by
      rw [Subscriptions.after_append]
      exact if_neg (by rw [hmode]; exact Bool.false_ne_true)
    refine ⟨?_, ?_, h.told_snoc (htold ?_)⟩
    · rw [hafter]
      exact hsame'.holds
    · rw [hafter]
      exact hsame'.invalid
    · rw [Subscriptions.handed, hmode]
      rfl
  · have hmode : (Subscriptions.after events).subscribed = true := h.holds.subscribed ▸ hsub
    have hinvalid := h.invalid (by rw [hcontrol]; rfl)
    have hholds : ({ s.ac with c := c } : RedisAsyncContext).Holds (.after events) :=
      ⟨h.holds.subscribed, h.holds.table⟩
    obtain ⟨hcb, hholds', hinvalid'⟩ := hholds.getSubscribeCallback hinvalid hget
    have hpushed : (Subscriptions.after events).pushed reply =
        (Subscriptions.after events).reply reply := if_pos hmode
    refine ⟨?_, fun _ => ?_, h.told_snoc (htold ?_)⟩
    · rw [Subscriptions.after_append, runCallback_eq]
      dsimp only
      rw [hpushed]
      exact ⟨hholds'.subscribed, hholds'.table⟩
    · rw [Subscriptions.after_append, runCallback_eq]
      dsimp only
      rw [hpushed]
      exact hinvalid'
    · rw [hcb, Subscriptions.handed, if_pos hmode]

/-- Each step keeps it, with what the step does. -/
theorem Subscribed.step {D : Type} {text : Bytes → Num D → Bytes} {s s' : Async}
    {events : List PubSub} (h : Subscribed s events) {a : AsyncAction D} (ha : Fitting text s a)
    (hs : s.step text a = some s') : Subscribed s' (events ++ note text s a s') := by
  cases a with
  | setConnectCallback =>
    obtain ⟨-, hs⟩ := Option.ite_none_right_eq_some.mp hs
    obtain rfl := Option.some.inj hs
    unfold RedisAsyncContext.setConnectCallback
    split <;> exact h.untouched ⟨rfl, rfl, rfl, fun hlive => ⟨hlive, rfl⟩⟩
  | setDisconnectCallback =>
    obtain ⟨-, hs⟩ := Option.ite_none_right_eq_some.mp hs
    obtain rfl := Option.some.inj hs
    unfold RedisAsyncContext.setDisconnectCallback
    split <;> exact h.untouched ⟨rfl, rfl, rfl, fun hlive => ⟨hlive, rfl⟩⟩
  | command cb argv => exact h.command ha hs
  | commandFormat cb format args =>
    rw [note]
    obtain ⟨argv, hformat, hs⟩ | ⟨hformat, rfl⟩ := step_commandFormat hs
    · rw [hformat]
      exact h.command (ha argv hformat) hs
    · rw [hformat]
      exact h.untouched ⟨rfl, rfl, rfl, fun hlive => ⟨hlive, rfl⟩⟩
  | disconnect =>
    obtain ⟨-, hs⟩ := Option.ite_none_right_eq_some.mp hs
    exact h.untouched (redisAsyncDisconnect_untouched hs)
  | free =>
    obtain ⟨-, hs⟩ := Option.ite_none_right_eq_some.mp hs
    obtain rfl := Option.some.inj hs
    exact h.untouched (redisAsyncFree_untouched s)
  | returned => exact h.untouched (returned_untouched hs)
  | readable error =>
    obtain ⟨hcontrol, hs⟩ := step_readable hs
    exact h.untouched { handleConnect_untouched (by exact hcontrol) hs with }
  | writable error =>
    obtain ⟨hcontrol, hs⟩ := step_writable hs
    exact h.untouched { handleConnect_untouched (by exact hcontrol) hs with }
  | read res =>
    obtain ⟨hcontrol, hs⟩ := step_read hs
    exact h.untouched (handleRead_untouched hcontrol hs)
  | write res =>
    obtain ⟨hcontrol, hs⟩ := step_write hs
    exact h.untouched (handleWrite_untouched hcontrol hs)
  | iterate =>
    obtain ⟨cb, hcontrol, hs⟩ | ⟨stage, hcontrol, hs⟩ := step_iterate hs
    · rw [note, hcontrol]
      exact h.processCallbacks hcontrol hs
    · rw [note, hcontrol]
      exact h.untouched (asyncFree_untouched hs)

/-- By induction on the run. -/
theorem subscribed_of_reachable {D : Type} {text : Bytes → Num D → Bytes} {x : Async × List PubSub}
    (hx : ((machine text).logged (note text)).ReachableUnder (fun x a => Fitting text x.1 a) x) :
    Subscribed x.1 x.2 := by
  induction hx with
  | init h =>
    obtain ⟨hstart, hnil⟩ := h
    rw [hnil, show _ = start from hstart]
    exact Subscribed.start
  | step _ ha hstep ih =>
    obtain ⟨hs, hlog⟩ := Lts.logged_step hstep
    rw [hlog]
    exact ih.step ha hs

/-! ## A run -/

/-- `SUBSCRIBE a`. -/
def subscribeA : List Bytes := [Bytes.ofString "SUBSCRIBE", [97]]

/-- The message `x` for `a`. -/
def messageA : ReplyObject := .array [.string (Bytes.ofString "message"), .string [97], .string [120]]

/-- One name in an empty table. -/
theorem subscribeA_fits : start.ac.Fits subscribeA := by
  refine ⟨?_, ?_⟩
  · rw [← length_encode_argv]
    decide
  · intro pattern
    cases pattern <;> decide

/-- The step is not a command. -/
def noCommand (_ : Async × List PubSub) (a : AsyncAction Unit) : Bool :=
  match a with
  | .command _ _ => false
  | .commandFormat _ _ _ => false
  | _ => true

/-- `SUBSCRIBE a` is written, and the message comes. -/
def messageRun : Option (Async × List PubSub) :=
  (((machine Session.noText).logged (note Session.noText)).step (start, [])
    (.command cbP subscribeA)).bind fun x =>
      ((machine Session.noText).logged (note Session.noText)).runIf noCommand x
        [.writable .none, .write (.wrote 26), .readable .none, .read (.data (Bytes.ofString
          "*3\r\n$7\r\nmessage\r\n$1\r\na\r\n$1\r\nx\r\n")), .iterate]

/-- The command and the message, and who was called. -/
theorem messageRun_events : messageRun.map (·.2) =
    some [.command cbP subscribeA, .pushed messageA ⟨none, 0⟩ [(cbP, some messageA)]] := by
  with_unfolding_all rfl

/-- The state behind it. -/
theorem messageRun_reachable : ∃ s, ((machine Session.noText).logged
    (note Session.noText)).ReachableUnder (fun x a => Fitting Session.noText x.1 a)
      (s, [.command cbP subscribeA, .pushed messageA ⟨none, 0⟩ [(cbP, some messageA)]]) := by
  obtain ⟨⟨s, events⟩, hrun, hevents⟩ := Option.map_eq_some_iff.mp messageRun_events
  obtain rfl : events = _ := hevents
  obtain ⟨x, hstep, hrun⟩ := Option.bind_eq_some_iff.mp hrun
  have hquiet : ∀ (x : Async × List PubSub) (a : AsyncAction Unit), noCommand x a = true →
      Fitting Session.noText x.1 a := by
    intro x a ha
    cases a <;> first | exact trivial | cases ha
  have hfits : Fitting Session.noText start (.command cbP subscribeA) := subscribeA_fits
  have h₁ := (Lts.ReachableUnder.init (m := (machine Session.noText).logged (note Session.noText))
    (C := fun x a => Fitting Session.noText x.1 a) (s := (start, [])) ⟨rfl, rfl⟩).step
    hfits hstep
  exact ⟨s, h₁.runIf hquiet hrun⟩

/-! ## Results -/

/-- While the context is subscribed, a message for which no command waits is handed to the
    callback of the last `(P)SUBSCRIBE` of its channel or its pattern, unless the server has said
    since that it is unsubscribed. -/
theorem routed {D : Type} {text : Bytes → Num D → Bytes} {s : Async}
    {before between later : List PubSub} {cb prev : RedisCallback} {cmd stype str : Bytes}
    {args : List Bytes} {rest : List ReplyObject} {notices : List Notice}
    (hs : ((machine text).logged (note text)).ReachableUnder (fun x a => Fitting text x.1 a)
      (s, before ++ .command cb (cmd :: args) :: between ++
        .pushed (.array (.string stype :: .string str :: rest)) prev notices :: later))
    (hcmd : named (Bytes.ofString "subscribe\r\n") cmd = true) (hkind : isPattern cmd = isPattern stype)
    (hlen : str.length < 2147483648) (hmem : str ∈ args)
    (hbetween : ∀ event ∈ between,
      ¬Subscriptions.concerns (isPattern stype) ⟨str, hlen⟩ event)
    (hsubscribed : (Subscriptions.after (before ++ .command cb (cmd :: args) ::
      between)).subscribed = true) :
    notices = told cb (.array (.string stype :: .string str :: rest)) := by
  have h := subscribed_of_reachable hs
  rw [h.told _ _ _ _ _ rfl]
  have hname : nameOf str = some ⟨str, hlen⟩ := dif_pos hlen
  have hlookup : ((Subscriptions.after (before ++ .command cb (cmd :: args) :: between)).table
      (isPattern stype)).lookup ⟨str, hlen⟩ = some cb := by
    rw [show before ++ .command cb (cmd :: args) :: between =
      (before ++ [.command cb (cmd :: args)]) ++ between by simp,
      Subscriptions.lookup_after _ _ _ hbetween, Subscriptions.after_append]
    have hargs : args ≠ [] := List.ne_nil_of_mem hmem
    dsimp only
    rw [Subscriptions.command, if_pos ⟨hargs, hcmd⟩, hkind]
    show (((Subscriptions.after before).setTable _ _).table _).lookup _ = _
    rw [Subscriptions.table_setTable, if_pos rfl, Subscriptions.lookup_subscribe,
      if_pos (Subscriptions.mem_filterMap_nameOf.mpr hmem)]
  rw [Subscriptions.handed, if_pos hsubscribed, Subscriptions.callback, hname, Option.bind_some,
    hlookup, Option.getD_some]

/-- No event in between, and the callback of `SUBSCRIBE a` is called. -/
theorem routed_a : ∃ s : Async, ((machine Session.noText).logged
    (note Session.noText)).ReachableUnder (fun x a => Fitting Session.noText x.1 a)
      (s, [.command cbP subscribeA, .pushed messageA ⟨none, 0⟩ [(cbP, some messageA)]]) ∧
    [(cbP, some messageA)] = told cbP messageA := by
  obtain ⟨s, hs⟩ := messageRun_reachable
  have hlen : List.length ([97] : Bytes) < 2147483648 := by decide
  exact ⟨s, hs, @routed Unit _ _ [] [] [] _ _ _ _ _ _ _ _ hs (by decide) (by decide) hlen (by decide)
    (by simp) (by decide)⟩

end Async

end Hiredispool.Hiredis
