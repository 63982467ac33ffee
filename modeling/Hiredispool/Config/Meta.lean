import Hiredispool.Pool.Create

/-!
# The databases and their endpoints

Model of `experimental/redisclient/RedisClientYaf.cpp`, lines 33–43, 78–127 and
217–255: what `Config` knows of a database, and what the events of a server
change in it. The names that `Meta` keeps for its log calls are left out.
-/

namespace Hiredispool.Config

open Hiredispool.Pool

/-- `%d` for a number that is not negative. -/
def decimal (n : ℕ) : Bytes := (Nat.toDigits 10 n).map fun d => UInt8.ofNat d.toNat

/-- `ip_ntoa` (lines 33–43). `ip` is the address after `ntohl`. -/
def ipNtoa (ip : UInt32) : Bytes :=
  decimal ((ip >>> 24) &&& 0xff).toNat ++ 46 :: decimal ((ip >>> 16) &&& 0xff).toNat ++
    46 :: decimal ((ip >>> 8) &&& 0xff).toNat ++ 46 :: decimal (ip &&& 0xff).toNat

example : ipNtoa 0x7f000001 = [49, 50, 55, 46, 48, 46, 48, 46, 49] := by decide

/-- `PServer`, as far as the events look at it; `ip` is `ntohl(getIp(CTL))`. -/
structure PServer where
  name : Bytes
  groupId : UInt32
  ip : UInt32
  listenPort : ℤ
deriving DecidableEq

/-- The endpoint that the events make of a server (lines 227–230 and 247–250). -/
def PServer.endpoint (server : PServer) : RedisEndpoint := ⟨ipNtoa server.ip, server.listenPort⟩

/-- `Meta` (lines 78–127). -/
structure Meta where
  connectTimeout : ℤ
  netReadwriteTimeout : ℤ
  numRedisSocks : ℤ
  connectFailureRetryDelay : ℤ
  endpoints : List RedisEndpoint
  s2sname : Bytes
  groupId : UInt32
deriving DecidableEq

namespace Meta

/-- `toConf` (lines 88–98). -/
def toConf (m : Meta) : RedisConfig where
  endpoints := if m.endpoints = [] then none else some m.endpoints
  numEndpoints := m.endpoints.length
  connectTimeout := m.connectTimeout
  netReadwriteTimeout := m.netReadwriteTimeout
  numRedisSocks := m.numRedisSocks
  connectFailureRetryDelay := m.connectFailureRetryDelay
  numEndpoints_le := by
    intro l h
    split at h
    · cases h
    · cases h; exact le_rfl

/-- `addEndpoint` (lines 99–106): no endpoint is listed twice. -/
def addEndpoint (ep : RedisEndpoint) (m : Meta) : Meta :=
  if ep ∈ m.endpoints then m else { m with endpoints := m.endpoints ++ [ep] }

/-- `removeEndpoint` (lines 107–115). -/
def removeEndpoint (ep : RedisEndpoint) (m : Meta) : Meta :=
  { m with endpoints := m.endpoints.filter (· ≠ ep) }

/-- The test of lines 223–226 and 243–246. -/
def isFor (m : Meta) (server : PServer) : Bool :=
  m.s2sname = server.name ∧ m.groupId = server.groupId

end Meta

/-- The two events that change endpoints. -/
inductive ServerEvent
  | onAddServer (server : PServer)
  | onRemoveServer (server : PServer)
deriving DecidableEq

/-- The server that an event is about. -/
def ServerEvent.server : ServerEvent → PServer
  | .onAddServer server | .onRemoveServer server => server

/-- What the body of the loop does to the `Meta` of a database of that server
    (lines 231 and 251). -/
def ServerEvent.apply : ServerEvent → Meta → Meta
  | .onAddServer server => Meta.addEndpoint server.endpoint
  | .onRemoveServer server => Meta.removeEndpoint server.endpoint

end Hiredispool.Config
