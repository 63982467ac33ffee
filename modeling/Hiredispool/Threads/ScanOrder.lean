import Hiredispool.Pool.ScanOrder
import Hiredispool.Threads.Healing

/-!
# The scan in a reachable pool

Whatever the threads have done to the pool, a `redis_get_socket` that runs
alone examines the sockets in the order of the list and returns the first one
that can be handed out.
-/

namespace Hiredispool.Threads

open Hiredispool.Pool

/-- In every reachable state the list is linked and free sockets are unused. -/
theorem settled_invariant (env : Env) (allow : Policy) :
    (machine env allow).Invariant fun s => Settled s.st := by
  intro s hs
  have hx : Exclusive s := exclusive_invariant env allow s hs
  exact ⟨(inList_invariant env allow s hs).linked, fun p _ hm => hx.inuse_of_free hm⟩

/-- **Specification of the scan.** Every reachable pool is settled, and from a
    settled pool a call that runs alone ends as `Scanned` says. -/
theorem scan_specification (env : Env) :
    (∀ s, (machine env anyCall).Reachable s → Settled s.st) ∧
      ∀ (t : ℕ) (s : St), Settled s →
        ∃ s' r, redisGetSocket env t s = some (s', r) ∧ Scanned env t s s' r :=
  ⟨settled_invariant env anyCall, fun t _ h => redisGetSocket_scanned env t h⟩

/-- Thread 0 holds socket 2 of three; the scan starts behind it and returns socket 1. -/
theorem scan_specification_held : ∃ s, (machine .good anyCall).Reachable s ∧
    (s.st.sock 2).mutex = some 0 ∧ s.st.lastUsed = some 1 ∧
    ∃ s', redisGetSocket .good 1 s.st = some (s', some 1) ∧
      Scanned .good 1 s.st s' (some 1) := by
  obtain ⟨s, hs, hp⟩ := exists_of_replay .good anyCall (.single 3 1)
    [.call 0 .get, .step 0 true, .step 0 true, .step 0 true, .step 0 true, .step 0 true]
    (fun s => (s.st.sock 2).mutex = some 0 ∧ s.st.lastUsed = some 1 ∧
      (redisGetSocket .good 1 s.st).map (·.2) = some (some 1)) (by decide +kernel)
  obtain ⟨hm, hlast, hsocket⟩ := of_decide_eq_true hp
  obtain ⟨hsettled, hscan⟩ := scan_specification .good
  obtain ⟨s', r, hget, hscanned⟩ := hscan 1 s.st (hsettled s hs)
  rw [hget] at hsocket
  obtain rfl : r = some 1 := Option.some.inj hsocket
  exact ⟨s, hs, hm, hlast, s', hget, hscanned⟩

end Hiredispool.Threads
