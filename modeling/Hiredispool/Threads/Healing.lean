import Hiredispool.Pool.Healing
import Hiredispool.Threads.Alone
import Hiredispool.Threads.Ownership

/-!
# The pool heals itself in one call

Any number of threads have run `RedisClient::redisvCommand` on the pool, with
any failures. Once the servers are back, one more call is answered, whatever
the threads have left behind in the sockets.

* `Sys.Healed`: a call of `t` that runs alone is answered.
* `pool_heals`: the main theorem; `Pool.Healing` says what one call does, the
  invariants say that every reachable state meets its assumptions.
-/

namespace Hiredispool.Threads

open Hiredispool.Pool

/-- No `inuse` is left set on a socket with a free mutex. -/
theorem Exclusive.inuse_of_free {s : Sys} (h : Exclusive s) {q : ℕ}
    (hfree : (s.st.sock q).mutex = none) : (s.st.sock q).inuse = 0 := by
  refine h.unmarked q fun t hm => ?_
  have hunlocked : ∀ t, q ∉ (s.thr t).locks := h.agree.free_iff.mp hfree
  exact hunlocked t (Local.marks_subset hm)

/-- `RedisClient::redisvCommand(cmd)` by `t` returns a reply. The call is a run
    of the machine at whose end `t` is out of the library. -/
def Sys.Healed (env : Env) (s : Sys) (t : ℕ) (cmd : Command) : Prop :=
  ∃ st reply l, redisClientCommand env ⟨t, (s.thr t).calls, 0, cmd⟩ s.st = some (st, some reply) ∧
    (machine env redisClient).Steps s (s.put t (st, l)) ∧ l.pc = .idle ∧ l.ret = .done

/-! ## Main theorem -/

/-- **The pool heals itself in one call.** In every state that calls of
    `RedisClient::redisvCommand` can reach, with any failures: if a socket is
    free, the clock reads later than `connect_after`, and from now on connects
    are accepted and commands on new contexts answered, then the next call
    returns a reply. -/
theorem pool_heals (env : Env) (s : Sys) (hs : (machine env redisClient).Reachable s)
    (hh : Healthy env s.st.world s.st.connectAfter) (p : ℕ) (hp : p < s.st.numSocks)
    (hfree : (s.st.sock p).mutex = none) (t : ℕ) (hidle : (s.thr t).pc = .idle)
    (hret : (s.thr t).ret = .done) (cmd : Command) : s.Healed env t cmd := by
  have hx : Exclusive s := exclusive_invariant env _ s hs
  have hown : Owning s :=
    owning_invariant env s (reachable_onConnected (reachable_stopAfterNull hs))
  have hlinked : Linked s.st := (inList_invariant env _ s hs).linked
  obtain ⟨st, reply, hcall⟩ := redisClientCommand_some hlinked hh (fun q => hx.inuse_of_free)
    (fun q => (hown.owned.state_iff q).mp) hp hfree ⟨t, (s.thr t).calls, 0, cmd⟩
  obtain ⟨l, hrun, hl⟩ := redisClientCommand_steps hidle hret hcall
  exact ⟨st, reply, l, hcall, hrun, hl⟩

/-- A call whose two attempts both time out: it leaves a dead context in a
    connected socket. -/
def bothTimeOut : List Action :=
  [.call 0 .get, .step 0 true, .step 0 true, .step 0 true, .step 0 true, .step 0 true,
    .call 0 (.vcommand 0 (.incr 0)), .step 0 true, .step 0 false, .step 0 true, .step 0 true,
    .step 0 true, .step 0 false, .step 0 true, .call 0 (.release (some 0)), .step 0 true,
    .step 0 true]

/-- The next call revives the dead context of the only socket. -/
theorem pool_heals_dead : ∃ s, (machine .good redisClient).Reachable s ∧
    (s.st.sock 0).conn = some 1 ∧ (s.st.world.ctx 1).err = true ∧ s.Healed .good 0 (.incr 0) := by
  obtain ⟨s, hs, hp⟩ := exists_of_replay .good redisClient (.single 1 5) bothTimeOut
    (fun s => (s.thr 0).pc = .idle ∧ (s.thr 0).ret = .done ∧ (s.st.sock 0).mutex = none ∧
      s.st.connectAfter = 0 ∧ 0 < s.st.numSocks ∧ (s.st.sock 0).conn = some 1 ∧
      (s.st.world.ctx 1).err = true) (by decide +kernel)
  obtain ⟨hidle, hret, hfree, hafter, hlen, hconn, herr⟩ := of_decide_eq_true hp
  have hclock : ∀ n, s.st.world.clocks ≤ n → s.st.connectAfter < Env.good.clock n := by
    intro n _
    rw [hafter]
    show (0 : ℤ) < (n : ℤ) + 1
    omega
  have hh : Healthy .good s.st.world s.st.connectAfter :=
    ⟨hclock, fun _ _ => rfl, fun _ _ => ⟨rfl, rfl⟩, fun _ _ _ => rfl⟩
  exact ⟨s, hs, hconn, herr, pool_heals .good s hs hh 0 hlen hfree 0 hidle hret (.incr 0)⟩

end Hiredispool.Threads
