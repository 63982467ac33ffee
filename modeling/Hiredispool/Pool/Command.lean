import Hiredispool.Pool.Scan

/-!
# `redis_vcommand` and `RedisClient::redisvCommand`

Model of `hiredispool.c`, lines 467–518, and of `RedisClient.cpp`, lines 22–34.
A call of `redis_vcommand` is identified by its `Request`: the caller, the
number of the call, and the command.
-/

namespace Hiredispool.Pool

/-- Lines 486–487 and 504–505: `redisvCommand` on the context of the socket. -/
def attempt (env : Env) (p : ℕ) (r : Request) (s : St) : St × Option CtxReply :=
  let (w, reply) := s.world.redisvCommand env (s.sock p).conn r
  ({ s with world := w }, reply)

/-- `redis_vcommand(redisocket, inst, format, ap)` (lines 477–518). The reply
    comes with the context it was read from. -/
def redisVcommand (env : Env) (p : ℕ) (r : Request) (s : St) : St × Option CtxReply :=
  let c := (s.sock p).conn
  let (s, reply) := match attempt env p r s with
    | (s, some a) => (s, some a)
    | (s, none) =>
      -- close the socket that failed, and reconnect it
      let s := { s with world := s.world.redisFree c }
      let (s, ok) := connectSingleSocket env p s
      -- retry on the newly connected socket
      if ok then attempt env p r.retry s else (s, none)
  (s.log (.returned r.caller r.call reply), reply)

/-- `RedisClient::redisvCommand(format, ap)` (lines 22–34): get a socket, run the
    command, release the socket. `none` if the scan does not end. -/
def redisClientCommand (env : Env) (r : Request) (s : St) : Option (St × Option CtxReply) :=
  (redisGetSocket env r.caller s).map fun (s, socket) =>
    let (s, reply) := match socket with
      | some p => redisVcommand env p r s
      | none => (s, none)
    (redisReleaseSocket r.caller socket s, reply)

end Hiredispool.Pool
