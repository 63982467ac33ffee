import Hiredispool.Pool.Types

/-!
# hiredis, the network and the servers

The functions of hiredis that `hiredispool.c` calls, acting on `World`. At the
root hiredis is a git submodule; the model takes what its documentation and the
copy under `experimental/` promise:

* a context is a FIFO connection: `redisvCommand` appends a request and returns
  the oldest unread answer, or NULL;
* when it returns NULL, `err` is set and stays set, and every later
  `redisvCommand` on that context returns NULL at once;
* `redisSetTimeout` and `redisEnableKeepAlive` set `err` when they fail;
* `redisFree(NULL)` does nothing.

`redisvCommand` is made of `World.append` (send the request) and `World.await`
(wait for an answer), so that other threads and the servers can act in between.
-/

namespace Hiredispool.Pool

namespace World

/-- Record an event. -/
def log (w : World) (e : Event) : World := { w with trace := w.trace ++ [e] }

/-- Write to the memory of the context `c`. -/
def setCtx (w : World) (c : ℕ) (f : RedisContext → RedisContext) : World :=
  { w with ctx := Function.update w.ctx c (f (w.ctx c)) }

/-- `time(NULL)`. -/
def time (env : Env) (w : World) : ℤ × World :=
  (env.clock w.clocks, { w with clocks := w.clocks + 1 })

/-- `rand()`. -/
def rand (env : Env) (w : World) : ℕ × World :=
  (env.rand w.rands, { w with rands := w.rands + 1 })

section Simp

variable (w : World) (e : Event) (c : ℕ) (f : RedisContext → RedisContext)

@[simp] theorem log_trace : (w.log e).trace = w.trace ++ [e] := rfl
@[simp] theorem log_ctx : (w.log e).ctx = w.ctx := rfl
@[simp] theorem log_nctx : (w.log e).nctx = w.nctx := rfl
@[simp] theorem log_clocks : (w.log e).clocks = w.clocks := rfl
@[simp] theorem log_connects : (w.log e).connects = w.connects := rfl
@[simp] theorem setCtx_trace : (w.setCtx c f).trace = w.trace := rfl
@[simp] theorem setCtx_nctx : (w.setCtx c f).nctx = w.nctx := rfl
@[simp] theorem setCtx_clocks : (w.setCtx c f).clocks = w.clocks := rfl
@[simp] theorem setCtx_connects : (w.setCtx c f).connects = w.connects := rfl

@[simp] theorem setCtx_self : (w.setCtx c f).ctx c = f (w.ctx c) := by simp [setCtx]

@[simp] theorem setCtx_of_ne {c' : ℕ} (h : c' ≠ c) : (w.setCtx c f).ctx c' = w.ctx c' := by
  simp [setCtx, h]

end Simp

end World

/-! ## The servers -/

/-- The requests that servers have applied, in order. -/
def applied (tr : List Event) : List Request :=
  tr.filterMap fun
    | .served _ a => some a.request
    | _ => none

/-- The value of key `k` after a command that found it at `v`. -/
def Command.apply (k : ℕ) (v : ℤ) : Command → ℤ
  | .set k' x => if k' = k then x else v
  | .incr k' => if k' = k then v + 1 else v
  | .other _ => v

/-- The value of key `k` after the requests `rs`, all sent to one data set. -/
def valueOf (rs : List Request) (k : ℕ) : ℤ := rs.foldl (fun v r => r.cmd.apply k v) 0

/-- The answer of a server that applies `r` after the requests `rs`: the new
    value for `INCR`, a status (`0` here) otherwise. -/
def answerTo (rs : List Request) (r : Request) : Reply :=
  ⟨r, match r.cmd with
    | .incr k => valueOf (rs ++ [r]) k
    | _ => 0⟩

@[simp] theorem answerTo_request (rs : List Request) (r : Request) :
    (answerTo rs r).request = r := rfl

namespace World

/-- A server takes the oldest request on `c`, applies it and answers. -/
def serve (c : ℕ) (w : World) : World :=
  match (w.ctx c).sent with
  | [] => w
  | r :: rest =>
    let a := answerTo (applied w.trace) r
    (w.setCtx c fun x => { x with sent := rest, inbox := x.inbox ++ [a] }).log (.served c a)

/-- The oldest request on `c` never reaches a server. -/
def drop (c : ℕ) (w : World) : World :=
  w.setCtx c fun x => { x with sent := x.sent.tail }

/-- The oldest unread answer on `c` is lost. -/
def lose (c : ℕ) (w : World) : World :=
  w.setCtx c fun x => { x with inbox := x.inbox.tail }

/-! ## Connecting and freeing -/

/-- `redisConnectWithTimeout(host, port, …)` for the socket `p` and the endpoint
    number `endpoint`. -/
def redisConnectWithTimeout (env : Env) (p : ℕ) (endpoint : ℕ) (target : RedisEndpoint)
    (w : World) : World × Option ℕ :=
  let res := env.connect w.connects
  let w := { w with connects := w.connects + 1 }
  if res = .null then (w.log (.connect p endpoint none), none)
  else
    let x : RedisContext := ⟨endpoint, target, decide (res = .error), 0, [], []⟩
    let w' := { w.setCtx w.nctx fun _ => x with nctx := w.nctx + 1 }
    (w'.log (.connect p endpoint (some w.nctx)), some w.nctx)

/-- `__redisSetError`. -/
def setErr (c : ℕ) (w : World) : World := w.setCtx c fun x => { x with err := true }

/-- `redisSetTimeout`. -/
def redisSetTimeout (env : Env) (c : ℕ) (w : World) : World :=
  if env.setTimeout c then w else w.setErr c

/-- `redisEnableKeepAlive`. -/
def redisEnableKeepAlive (env : Env) (c : ℕ) (w : World) : World :=
  if env.keepAlive c then w else w.setErr c

/-- `redisFree`. -/
def redisFree (c : Option ℕ) (w : World) : World :=
  match c with
  | none => w
  | some c => (w.setCtx c fun x => { x with frees := x.frees + 1 }).log (.free c)

/-- A write to a context that does not count as a `redisFree`. -/
theorem setCtx_frees (w : World) (c : ℕ) {f : RedisContext → RedisContext}
    (hf : ∀ x, (f x).frees = x.frees) (c' : ℕ) :
    ((w.setCtx c f).ctx c').frees = (w.ctx c').frees := by
  by_cases h : c' = c
  · subst h; simp [hf]
  · simp [h]

/-- What serving a context does: nothing, or the move of its oldest request. -/
theorem serve_cases (c : ℕ) (w : World) :
    (w.ctx c).sent = [] ∧ w.serve c = w ∨
      ∃ r rest, (w.ctx c).sent = r :: rest ∧
        w.serve c = (w.setCtx c fun x =>
          { x with sent := rest, inbox := x.inbox ++ [answerTo (applied w.trace) r] }).log
            (.served c (answerTo (applied w.trace) r)) := by
  unfold serve
  cases h : (w.ctx c).sent with
  | nil => exact Or.inl ⟨rfl, rfl⟩
  | cons r rest => exact Or.inr ⟨r, rest, rfl, rfl⟩

/-- `c` has been opened and not freed. -/
def Live (w : World) (c : ℕ) : Prop := c < w.nctx ∧ (w.ctx c).frees = 0

instance (w : World) (c : ℕ) : Decidable (w.Live c) := inferInstanceAs (Decidable (_ ∧ _))

/-! ## Commands -/

/-- `redisvCommand` is entered. -/
def sending (c : Option ℕ) (r : Request) (w : World) : World :=
  { w.log (.command c r) with commands := w.commands + 1 }

section Simp

variable (w : World) (c : Option ℕ) (r : Request)

@[simp] theorem sending_trace : (w.sending c r).trace = w.trace ++ [.command c r] := rfl
@[simp] theorem sending_ctx : (w.sending c r).ctx = w.ctx := rfl
@[simp] theorem sending_nctx : (w.sending c r).nctx = w.nctx := rfl

end Simp

/-- The first half of `redisvCommand`: append the request and write it out. A
    NULL context is a NULL dereference in C; the call is recorded and nothing
    is claimed of what follows. Returns the context if an answer is awaited. -/
def append (c : Option ℕ) (r : Request) (writeOk : Bool) (w : World) :
    World × Option ℕ :=
  let w := w.sending c r
  match c with
  | none => (w.log (.noReply r), none)
  | some c =>
    if (w.ctx c).err || !writeOk then ((w.setErr c).log (.noReply r), none)
    else (w.setCtx c fun x => { x with sent := x.sent ++ [r] }, some c)

/-- The second half of `redisvCommand`: the oldest unread answer, or NULL after
    a time-out or a broken connection. `none` while there is nothing to read. -/
def await (c : ℕ) (r : Request) (broken : Bool) (w : World) : Option (World × Option Reply) :=
  if broken then some ((w.setErr c).log (.noReply r), none)
  else
    match (w.ctx c).inbox with
    | [] => none
    | a :: rest => some (w.setCtx c fun x => { x with inbox := rest }, some a)

/-- A server answers everything that has been sent on `c`. -/
def serveAll (c : ℕ) (w : World) : World := (serve c)^[(w.ctx c).sent.length] w

/-- `redisvCommand` without anything else happening meanwhile. -/
def redisvCommand (env : Env) (c : Option ℕ) (r : Request) (w : World) :
    World × Option CtxReply :=
  let res : CommandResult := match c with
    | some c => env.command c w.commands
    | none => .unsent
  match w.append c r (decide (res ≠ CommandResult.unsent)) with
  | (w, none) => (w, none)
  | (w, some c) =>
    match (w.serveAll c).await c r (decide (res = CommandResult.lost)) with
    | some (w, a) => (w, a.map fun a => (c, a))
    | none => (w, none)

end World

/-- Record an event. -/
def St.log (s : St) (e : Event) : St := { s with world := s.world.log e }

section Simp

variable (s : St) (e : Event)

@[simp] theorem St.log_config : (s.log e).config = s.config := rfl
@[simp] theorem St.log_connectAfter : (s.log e).connectAfter = s.connectAfter := rfl
@[simp] theorem St.log_redisPool : (s.log e).redisPool = s.redisPool := rfl
@[simp] theorem St.log_lastUsed : (s.log e).lastUsed = s.lastUsed := rfl
@[simp] theorem St.log_sock : (s.log e).sock = s.sock := rfl
@[simp] theorem St.log_world : (s.log e).world = s.world.log e := rfl

end Simp

end Hiredispool.Pool
