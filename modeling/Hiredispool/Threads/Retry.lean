import Mathlib.Data.List.Nodup
import Mathlib.Data.List.Range
import Hiredispool.Threads.Fates

/-!
# What a retry does to the servers' data

When the answer to the first attempt of a command is lost, the server has
applied the command, and `redis_vcommand` sends it again: the one reply that the
caller sees hides that the command was applied twice.

* `applied_twice`: a run in which this happens to `INCR`.
* `command_applied_once`: a call that returned a reply has been applied exactly
  once if and only if no attempt of it was applied whose answer was lost; and
  then `SET id 0` and `n` times `INCR id` count to `n`.
-/

namespace Hiredispool.Threads

open Hiredispool.Pool

/-! ## How often a call is applied -/

/-- The requests of call `k` of `t` that servers have applied. -/
def appliedBy (t k : ℕ) (tr : List Event) : List Request :=
  (applied tr).filter fun r => r.caller = t ∧ r.call = k

/-- A server has applied an attempt of call `k` of `t` for which `redisvCommand`
    returned NULL. -/
def LostAnswer (tr : List Event) (t k : ℕ) : Prop := ∃ r ∈ appliedBy t k tr, .noReply r ∈ tr

instance (tr : List Event) (t k : ℕ) : Decidable (LostAnswer tr t k) :=
  inferInstanceAs (Decidable (∃ _ ∈ _, _))

theorem mem_appliedBy {t k : ℕ} {tr : List Event} {r : Request} :
    r ∈ appliedBy t k tr ↔ r ∈ applied tr ∧ r.caller = t ∧ r.call = k := by
  simp [appliedBy]

section Returned

variable {s : Sys} {t k c : ℕ} {a : Reply}

/-- The request whose answer a call returned has been applied. -/
theorem Answered.applied (h : Answered s) (hm : .returned t k (some (c, a)) ∈ s.st.world.trace) :
    a.request ∈ appliedBy t k s.st.world.trace := by
  obtain ⟨h1, h2, hsub⟩ := h.returned t k c a hm
  exact mem_appliedBy.mpr ⟨mem_applied.mpr ⟨c, a, hsub.subset (by simp), rfl⟩, h1, h2⟩

/-- The answer to that request was not lost. -/
theorem Fates.not_lost (h : Fates s) (hans : Answered s)
    (hm : .returned t k (some (c, a)) ∈ s.st.world.trace) :
    .noReply a.request ∉ s.st.world.trace := by
  obtain ⟨rfl, rfl, -⟩ := hans.returned t k c a hm
  exact fun hno => (h.noReply _ hno).2.2 ⟨c, a, hm, rfl⟩

/-- Any other applied request of the call has lost its answer. -/
theorem Fates.lost_of_ne (h : Fates s) (happ : Applied s.st.world)
    (hm : .returned t k (some (c, a)) ∈ s.st.world.trace) {r : Request}
    (hr : r ∈ appliedBy t k s.st.world.trace) (hne : r ≠ a.request) :
    .noReply r ∈ s.st.world.trace := by
  obtain ⟨hr', rfl, rfl⟩ := mem_appliedBy.mp hr
  obtain ⟨c', hc'⟩ := happ.command r hr'
  rcases h.fate c' r hc' with hno | hholds | ⟨c'', a'', hm', ha''⟩
  · exact hno
  · -- the call is over
    have h1 := (h.holds _ r hholds).2.1
    have h2 := h.calls _ _ _ hm
    omega
  · cases h.returned _ _ _ _ hm hm'
    exact absurd ha''.symm hne

/-- A call that returned a reply has been applied once, and once more if an
    answer was lost. -/
theorem applied_once_iff (h : Fates s) (happ : Applied s.st.world) (hans : Answered s)
    (hm : .returned t k (some (c, a)) ∈ s.st.world.trace) :
    (appliedBy t k s.st.world.trace).length = 1 ↔ ¬ LostAnswer s.st.world.trace t k := by
  have hmem := hans.applied hm
  constructor
  · rintro hlen ⟨r, hr, hno⟩
    obtain ⟨x, hx⟩ := List.length_eq_one_iff.mp hlen
    rw [hx, List.mem_singleton] at hr hmem
    rw [hr, ← hmem] at hno
    exact h.not_lost hans hm hno
  · intro hlost
    have hall : ∀ r ∈ appliedBy t k s.st.world.trace, r = a.request := by
      intro r hr
      by_contra hne
      exact hlost ⟨r, hr, h.lost_of_ne happ hm hr hne⟩
    have hnodup : (appliedBy t k s.st.world.trace).Nodup := happ.nodup.filter _
    have hperm : (appliedBy t k s.st.world.trace).Perm [a.request] := by
      refine (List.perm_ext_iff_of_nodup hnodup (List.nodup_singleton _)).mpr fun r => ?_
      rw [List.mem_singleton]
      exact ⟨hall r, fun e => e ▸ hmem⟩
    exact hperm.length_eq

end Returned

/-! ## Counting -/

/-- The requests that can change key `id`. -/
def touching (id : ℕ) (rs : List Request) : List Request := rs.filter fun r => r.cmd.key? = some id

theorem apply_of_key_ne {id : ℕ} {cmd : Command} (h : cmd.key? ≠ some id) (v : ℤ) :
    cmd.apply id v = v := by
  cases cmd with
  | set k x => exact if_neg fun e => h (congrArg some e)
  | incr k => exact if_neg fun e => h (congrArg some e)
  | other _ => rfl

theorem valueOf_touching (id : ℕ) (rs : List Request) : valueOf rs id = valueOf (touching id rs) id := by
  unfold valueOf touching
  generalize (0 : ℤ) = v
  induction rs generalizing v with
  | nil => rfl
  | cons r rs ih =>
    by_cases hr : r.cmd.key? = some id
    · simp [hr, ih]
    · simp [hr, ih, apply_of_key_ne hr]

/-- Thread `t` runs `SET id 0` as its call `k₀` and `INCR id` as the next `n`
    calls, each returns a reply, and nobody else sends commands on `id`. -/
structure Counting (tr : List Event) (t id k₀ n : ℕ) : Prop where
  alone : ∀ c r, .command c r ∈ tr → r.cmd.key? = some id →
    r.caller = t ∧ k₀ ≤ r.call ∧ r.call ≤ k₀ + n
  cmd : ∀ c r, .command c r ∈ tr → r.caller = t → k₀ ≤ r.call → r.call ≤ k₀ + n →
    r.cmd = if r.call = k₀ then .set id 0 else .incr id
  replied : ∀ i, i ≤ n → ∃ x, .returned t (k₀ + i) (some x) ∈ tr

/-- `SET id 0` and then `n` times `INCR id`. -/
theorem foldl_counting (id n : ℕ) :
    (Command.set id 0 :: List.replicate n (.incr id)).foldl (fun v cmd => cmd.apply id v) 0 = n := by
  have hincr : ∀ v : ℤ,
      (List.replicate n (.incr id)).foldl (fun v cmd => Command.apply id v cmd) v = v + n := by
    induction n with
    | zero => intro v; simp
    | succ n ih =>
      intro v
      rw [List.replicate_succ, List.foldl_cons, ih]
      simp only [Command.apply, if_true, Nat.cast_succ]
      omega
  rw [List.foldl_cons, hincr]
  simp [Command.apply]

section Counting

variable {s : Sys} {t id k₀ n : ℕ}

/-- The applied requests on `id` are of the calls, and no answer to them was lost. -/
theorem Counting.of_mem (hcount : Counting s.st.world.trace t id k₀ n) (happ : Applied s.st.world)
    (hlost : ∀ i, i ≤ n → ¬ LostAnswer s.st.world.trace t (k₀ + i)) {r : Request}
    (hr : r ∈ touching id (applied s.st.world.trace)) :
    r ∈ appliedBy t r.call s.st.world.trace ∧ (∃ i, i ≤ n ∧ r.call = k₀ + i) ∧
      .noReply r ∉ s.st.world.trace := by
  obtain ⟨hr, hkey⟩ := List.mem_filter.mp hr
  obtain ⟨c, hc⟩ := happ.command r hr
  obtain ⟨hcaller, hlo, hhi⟩ := hcount.alone _ r hc (of_decide_eq_true hkey)
  have hcall : r.call = k₀ + (r.call - k₀) := by omega
  refine ⟨mem_appliedBy.mpr ⟨hr, hcaller, rfl⟩, ⟨r.call - k₀, by omega, hcall⟩, fun hno => ?_⟩
  exact hlost (r.call - k₀) (by omega) ⟨r, mem_appliedBy.mpr ⟨hr, hcaller, hcall⟩, hno⟩

/-- They are applied in the order of the calls, one for each call. -/
theorem Counting.strict (hcount : Counting s.st.world.trace t id k₀ n) (h : Fates s)
    (happ : Applied s.st.world)
    (hlost : ∀ i, i ≤ n → ¬ LostAnswer s.st.world.trace t (k₀ + i)) :
    (touching id (applied s.st.world.trace)).Pairwise fun r r' => r.call < r'.call := by
  have hordered := happ.ordered.filter fun r => r.cmd.key? = some id
  have hnodup : (touching id (applied s.st.world.trace)).Nodup := happ.nodup.filter _
  refine (hordered.and hnodup).imp_of_mem fun {r r'} hr hr' ⟨hle, hne⟩ => ?_
  obtain ⟨hby, ⟨i, hi, hcall⟩, hno⟩ := hcount.of_mem happ hlost hr
  obtain ⟨hby', -, hno'⟩ := hcount.of_mem happ hlost hr'
  have hle' := (hle ((mem_appliedBy.mp hby).2.1.trans (mem_appliedBy.mp hby').2.1.symm)).resolve_right hno'
  refine lt_of_le_of_ne hle' fun heq => hne ?_
  -- both are the one request of the call that was answered
  obtain ⟨⟨c, a⟩, hm⟩ := hcount.replied i hi
  rw [← hcall] at hm
  have h1 : r = a.request := Classical.not_not.mp fun hn => hno (h.lost_of_ne happ hm hby hn)
  have h2 : r' = a.request := Classical.not_not.mp fun hn =>
    hno' (h.lost_of_ne happ hm (heq ▸ hby') hn)
  exact h1.trans h2.symm

/-- A reply's request on the counter. -/
theorem Counting.reply_cmd (hcount : Counting s.st.world.trace t id k₀ n) (hans : Answered s)
    {i c : ℕ} {a : Reply} (hi : i ≤ n)
    (hm : .returned t (k₀ + i) (some (c, a)) ∈ s.st.world.trace) :
    a.request.call = k₀ + i ∧ a.request.cmd = if i = 0 then .set id 0 else .incr id := by
  obtain ⟨hcaller, hcall, hsub⟩ := hans.returned _ _ c a hm
  have hsent : Event.command (some c) a.request ∈ s.st.world.trace := hsub.subset (by simp)
  have hcmd := hcount.cmd _ a.request hsent hcaller (by omega) (by omega)
  refine ⟨hcall, hcmd.trans ?_⟩
  rw [hcall]
  simp

theorem Counting.calls (hcount : Counting s.st.world.trace t id k₀ n) (h : Fates s)
    (happ : Applied s.st.world) (hans : Answered s)
    (hlost : ∀ i, i ≤ n → ¬ LostAnswer s.st.world.trace t (k₀ + i)) :
    (touching id (applied s.st.world.trace)).map Request.call = List.range' k₀ (n + 1) := by
  have hstrict : ((touching id (applied s.st.world.trace)).map Request.call).Pairwise (· < ·) :=
    List.pairwise_map.mpr (hcount.strict h happ hlost)
  have hrange : (List.range' k₀ (n + 1)).Pairwise (· < ·) := List.pairwise_lt_range'
  have hperm : ((touching id (applied s.st.world.trace)).map Request.call).Perm
      (List.range' k₀ (n + 1)) := by
    refine (List.perm_ext_iff_of_nodup (hstrict.imp Nat.ne_of_lt)
      (hrange.imp Nat.ne_of_lt)).mpr fun k => ?_
    rw [List.mem_map, List.mem_range'_1]
    constructor
    · rintro ⟨r, hr, rfl⟩
      obtain ⟨-, ⟨i, hi, hcall⟩, -⟩ := hcount.of_mem happ hlost hr
      omega
    · rintro ⟨hlo, hhi⟩
      obtain ⟨⟨c, a⟩, hm⟩ := hcount.replied (k - k₀) (by omega)
      obtain ⟨hcall, hcmd⟩ := hcount.reply_cmd hans (by omega) hm
      refine ⟨a.request, List.mem_filter.mpr ⟨(mem_appliedBy.mp (hans.applied hm)).1, ?_⟩, by omega⟩
      rw [hcmd]
      split <;> simp [Command.key?]
  exact hperm.eq_of_pairwise (fun a b _ _ h1 h2 => by omega) hstrict hrange

/-- Without lost answers the counter counts the calls. -/
theorem Counting.value (hcount : Counting s.st.world.trace t id k₀ n) (h : Fates s)
    (happ : Applied s.st.world) (hans : Answered s)
    (hlost : ∀ i, i ≤ n → ¬ LostAnswer s.st.world.trace t (k₀ + i)) :
    valueOf (applied s.st.world.trace) id = n := by
  have hcmds : (touching id (applied s.st.world.trace)).map Request.cmd =
      .set id 0 :: List.replicate n (.incr id) := by
    let cmdOf : ℕ → Command := fun k => if k = k₀ then .set id 0 else .incr id
    have hof : ∀ r ∈ touching id (applied s.st.world.trace), r.cmd = cmdOf r.call := by
      intro r hr
      obtain ⟨hby, ⟨i, hi, hcall⟩, -⟩ := hcount.of_mem happ hlost hr
      obtain ⟨happlied, hcaller, -⟩ := mem_appliedBy.mp hby
      obtain ⟨c, hc⟩ := happ.command r happlied
      exact hcount.cmd _ r hc hcaller (by omega) (by omega)
    have hrest : ∀ k ∈ List.range' (k₀ + 1) n, cmdOf k = .incr id := by
      intro k hk
      have := (List.mem_range'_1.mp hk).1
      exact if_neg (by omega)
    have hfirst : cmdOf k₀ = .set id 0 := if_pos rfl
    calc (touching id (applied s.st.world.trace)).map Request.cmd
        = ((touching id (applied s.st.world.trace)).map Request.call).map cmdOf := by
          rw [List.map_map]; exact List.map_congr_left hof
      _ = cmdOf k₀ :: (List.range' (k₀ + 1) n).map cmdOf := by
          rw [hcount.calls h happ hans hlost, List.range'_succ, List.map_cons]
      _ = .set id 0 :: List.replicate n (.incr id) := by
          rw [List.map_congr_left hrest, List.map_const', List.length_range', hfirst]
  rw [valueOf_touching, valueOf, ← List.foldl_map, hcmds]
  exact foldl_counting id n

/-- And the last call returns the count. -/
theorem Counting.last (hcount : Counting s.st.world.trace t id k₀ n) (h : Fates s)
    (happ : Applied s.st.world) (hans : Answered s)
    (hlost : ∀ i, i ≤ n → ¬ LostAnswer s.st.world.trace t (k₀ + i)) (hn : 0 < n) {c : ℕ} {a : Reply}
    (hm : .returned t (k₀ + n) (some (c, a)) ∈ s.st.world.trace) : a.value = n := by
  obtain ⟨hcall, hcmd⟩ := hcount.reply_cmd hans le_rfl hm
  rw [if_neg (by omega)] at hcmd
  have hserved : .served c a ∈ s.st.world.trace :=
    (hans.returned _ _ c a hm).2.2.subset (by simp)
  obtain ⟨pre, post, hsplit, ha⟩ := happ.answer c a hserved
  -- no request on `id` is applied after the last call's
  have hpost : touching id post = [] := by
    have hstrict := hcount.strict h happ hlost
    have hsplit' : touching id (applied s.st.world.trace) =
        touching id pre ++ a.request :: touching id post := by
      rw [hsplit]; simp [touching, hcmd, Command.key?]
    refine List.eq_nil_iff_forall_not_mem.mpr fun r hr => ?_
    have hr' : r ∈ touching id (applied s.st.world.trace) := by rw [hsplit']; simp [hr]
    obtain ⟨-, ⟨i, hi, hcall'⟩, -⟩ := hcount.of_mem happ hlost hr'
    rw [hsplit'] at hstrict
    have hlt := (List.pairwise_cons.mp (List.pairwise_append.mp hstrict).2.1).1 r hr
    omega
  have hvalue : a.value = valueOf (pre ++ [a.request]) id := by
    rw [ha]; simp [answerTo, hcmd]
  have hsame : touching id (applied s.st.world.trace) = touching id (pre ++ [a.request]) := by
    rw [hsplit, List.append_cons, touching, List.filter_append]
    exact (congrArg _ hpost).trans (List.append_nil _)
  rw [hvalue, valueOf_touching, ← hsame, ← valueOf_touching]
  exact hcount.value h happ hans hlost

end Counting

/-- `Counting`, evaluated. -/
def countingCheck (tr : List Event) (t id k₀ n : ℕ) : Bool :=
  (tr.all fun
    | .command _ r =>
      (r.cmd.key? = some id → r.caller = t ∧ k₀ ≤ r.call ∧ r.call ≤ k₀ + n) ∧
        (r.caller = t → k₀ ≤ r.call → r.call ≤ k₀ + n →
          r.cmd = if r.call = k₀ then .set id 0 else .incr id)
    | _ => true) &&
  (List.range (n + 1)).all fun i => tr.any fun
    | .returned t' k (some _) => t' = t ∧ k = k₀ + i
    | _ => false

theorem Counting.of_check {tr : List Event} {t id k₀ n : ℕ}
    (h : countingCheck tr t id k₀ n = true) : Counting tr t id k₀ n := by
  obtain ⟨h1, h2⟩ := (Bool.and_eq_true _ _).mp h
  have hcmd := List.all_eq_true.mp h1
  refine ⟨fun c r hm => (of_decide_eq_true (hcmd _ hm)).1,
    fun c r hm => (of_decide_eq_true (hcmd _ hm)).2, fun i hi => ?_⟩
  have hany := List.all_eq_true.mp h2 i (List.mem_range.mpr (Nat.lt_succ_of_le hi))
  obtain ⟨e, hm, he⟩ := List.any_eq_true.mp hany
  cases e with
  | returned t' k x =>
    cases x with
    | some x =>
      obtain ⟨rfl, rfl⟩ := of_decide_eq_true he
      exact ⟨x, hm⟩
    | none => cases he
  | _ => cases he

/-! ## Main theorem -/

/-- **When a command is applied exactly once.** Any number of threads run
    commands on one pool. A call of `redis_vcommand` that has returned a reply
    has been applied exactly once if and only if no attempt of it was applied to
    which `redisvCommand` answered NULL. Where that holds for all calls of a
    thread that alone runs `SET id 0` and `n` times `INCR id`, the value of `id`
    and the last reply are `n`. -/
theorem command_applied_once (env : Env) (s : Sys) (hs : (machine env onConnected).Reachable s) :
    (∀ t k x, .returned t k (some x) ∈ s.st.world.trace →
        ((appliedBy t k s.st.world.trace).length = 1 ↔ ¬ LostAnswer s.st.world.trace t k)) ∧
      ∀ t id k₀ n : ℕ, Counting s.st.world.trace t id k₀ n →
        (∀ i, i ≤ n → ¬ LostAnswer s.st.world.trace t (k₀ + i)) →
        valueOf (applied s.st.world.trace) id = n ∧
          ∀ (c : ℕ) (a : Reply), 0 < n →
            .returned t (k₀ + n) (some (c, a)) ∈ s.st.world.trace → a.value = n := by
  have h : Fates s := fates_invariant env s hs
  have happ : Applied s.st.world := applied_invariant env s hs
  have hans : Answered s := answered_invariant env s hs
  refine ⟨fun t k ⟨c, a⟩ hm => applied_once_iff h happ hans hm, fun t id k₀ n hcount hlost => ?_⟩
  exact ⟨hcount.value h happ hans hlost, fun c a hn hm => hcount.last h happ hans hlost hn hm⟩

/-- `SET` and `INCR` on one hold. The first attempt of `INCR` is sent and not
    applied, the retry is answered. -/
def incrRetried : List Action :=
  [.call 0 .get, .step 0 true, .step 0 true, .step 0 true, .step 0 true, .step 0 true,
    .call 0 (.vcommand 0 (.set 7 0)), .step 0 true, .serve 0, .step 0 true, .step 0 true,
    .call 0 (.vcommand 0 (.incr 7)), .step 0 true, .drop 0, .step 0 false, .step 0 true,
    .step 0 true, .step 0 true, .serve 1, .step 0 true, .step 0 true]

/-- The retry alone is applied, and the count is right. -/
theorem command_applied_once_retry : ∃ s, (machine .good onConnected).Reachable s ∧
    .noReply ⟨0, 1, 0, .incr 7⟩ ∈ s.st.world.trace ∧ (appliedBy 0 1 s.st.world.trace).length = 1 ∧
    valueOf (applied s.st.world.trace) 7 = 1 := by
  obtain ⟨s, hs, hp⟩ := exists_of_replay .good onConnected (.single 1 5) incrRetried
    (fun s => .noReply ⟨0, 1, 0, .incr 7⟩ ∈ s.st.world.trace ∧
      .returned 0 1 (some (1, ⟨⟨0, 1, 1, .incr 7⟩, 1⟩)) ∈ s.st.world.trace ∧
      countingCheck s.st.world.trace 0 7 0 1 = true ∧
      ¬ LostAnswer s.st.world.trace 0 0 ∧ ¬ LostAnswer s.st.world.trace 0 1) (by decide +kernel)
  obtain ⟨hno, hret, hcount, hlost₀, hlost₁⟩ := of_decide_eq_true hp
  obtain ⟨hiff, hvalue⟩ := command_applied_once .good s hs
  refine ⟨s, hs, hno, (hiff 0 1 _ hret).mpr hlost₁, ?_⟩
  refine (hvalue 0 7 0 1 (.of_check hcount) fun i hi => ?_).1
  obtain rfl | rfl : i = 0 ∨ i = 1 := by omega
  · exact hlost₀
  · exact hlost₁

/-- The first attempt of `INCR` is applied and its answer lost. -/
def incrTwice : List Action :=
  [.call 0 .get, .step 0 true, .step 0 true, .step 0 true, .step 0 true, .step 0 true,
    .call 0 (.vcommand 0 (.set 7 0)), .step 0 true, .serve 0, .step 0 true, .step 0 true,
    .call 0 (.release (some 0)), .step 0 true, .step 0 true,
    .call 0 .get, .step 0 true, .step 0 true, .step 0 true, .step 0 true, .step 0 true,
    .call 0 (.vcommand 0 (.incr 7)), .step 0 true, .serve 0, .step 0 false, .step 0 true,
    .step 0 true, .step 0 true, .serve 1, .step 0 true, .step 0 true]

/-- `SET` and one `INCR`, both answered, end with the count 2. -/
theorem applied_twice : ∃ s, (machine .good redisClient).Reachable s ∧
    (∃ x, .returned 0 0 (some x) ∈ s.st.world.trace) ∧
    .returned 0 1 (some (1, ⟨⟨0, 1, 1, .incr 7⟩, 2⟩)) ∈ s.st.world.trace ∧
    (appliedBy 0 1 s.st.world.trace).length = 2 := by
  obtain ⟨s, hs, hp⟩ := exists_of_replay .good redisClient (.single 1 5) incrTwice
    (fun s => .returned 0 0 (some (0, ⟨⟨0, 0, 0, .set 7 0⟩, 0⟩)) ∈ s.st.world.trace ∧
      .returned 0 1 (some (1, ⟨⟨0, 1, 1, .incr 7⟩, 2⟩)) ∈ s.st.world.trace ∧
      (appliedBy 0 1 s.st.world.trace).length = 2) (by decide +kernel)
  obtain ⟨h0, h1, h2⟩ := of_decide_eq_true hp
  exact ⟨s, hs, ⟨_, h0⟩, h1, h2⟩

end Hiredispool.Threads
