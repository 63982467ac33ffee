import Hiredispool.Threads.Exclusion

/-!
# The grace period

After a failed `connect_single_socket` at clock reading `t`, the creation loop
and the scan connect nothing before the clock has passed `t` plus the retry
delay; and with a delay of `-1` the scan tries every unconnected socket that it
finds free. The clock must not go back.

* `Grace`: what relates `connect_after`, the clock and the recorded calls.
* `grace_period`: the two properties, for every run.
* `ignored_at_zero`: at clock reading 0 a socket is ignored without a try.
-/

namespace Hiredispool.Threads

open Hiredispool.Pool

/-! ## The invariant -/

/-- The clock has passed the end of the grace period of an earlier failure. -/
def SpacedBy (d : ℤ) (e e' : Event) : Prop :=
  ∀ p t site q now, e = .connectFailed p t → e' = .startConnect site q now → t + d < now

/-- `connect_after` lies behind every failure by the delay `d`, and not further
    ahead of the clock than `d`, unless it still is 0. -/
structure Grace (env : Env) (d : ℤ) (s : St) : Prop where
  delay : s.config.connectFailureRetryDelay = d
  after : s.connectAfter = 0 ∨ s.connectAfter ≤ env.clock s.world.clocks + d
  failed : ∀ p t, .connectFailed p t ∈ s.world.trace →
    t ≤ env.clock s.world.clocks ∧ t + d ≤ s.connectAfter
  spaced : s.world.trace.Pairwise (SpacedBy d)
  tried : ∀ p now, .ignored p now false ∈ s.world.trace → d = -1 → now ≤ 0

/-- An event that may be recorded while `connect_after` is `a`. -/
def Event.inGrace (d a : ℤ) : Event → Prop
  | .startConnect _ _ now => a < now
  | .connectFailed _ _ => False
  | .ignored _ now false => d = -1 → now ≤ 0
  | _ => True

/-- The events that have to do with the clock. -/
def Event.timed : Event → Bool
  | .startConnect _ _ _ | .connectFailed _ _ | .ignored _ _ false => true
  | _ => false

section Steps

variable {env : Env} {d : ℤ} {s s' : St}

theorem Grace.extend (h : Grace env d s) (hclock : Monotone env.clock) {new : List Event}
    (hc : s'.config = s.config) (ha : s'.connectAfter = s.connectAfter)
    (hn : s.world.clocks ≤ s'.world.clocks) (htr : s'.world.trace = s.world.trace ++ new)
    (hnew : ∀ e ∈ new, Event.inGrace d s.connectAfter e)
    (hpw : new.Pairwise (SpacedBy d)) : Grace env d s' where
  delay := by rw [hc]; exact h.delay
  after := by have := hclock hn; rw [ha]; exact h.after.imp_right fun h => by omega
  failed p t hm := by
    have hle := hclock hn
    rw [htr, List.mem_append] at hm
    rcases hm with hm | hm
    · have := h.failed p t hm
      rw [ha]; omega
    · exact (hnew _ hm).elim
  spaced := by
    rw [htr]
    refine List.pairwise_append.mpr ⟨h.spaced, hpw, ?_⟩
    rintro e he e' he' p t site q now rfl rfl
    have h1 := (h.failed p t he).2
    have h2 : s.connectAfter < now := hnew _ he'
    omega
  tried p now hm := by
    rw [htr, List.mem_append] at hm
    rcases hm with hm | hm
    · exact h.tried p now hm
    · exact hnew _ hm

/-- Events that have nothing to do with the clock. -/
theorem Grace.quiet (h : Grace env d s) (hclock : Monotone env.clock) {new : List Event}
    (hc : s'.config = s.config) (ha : s'.connectAfter = s.connectAfter)
    (hn : s.world.clocks ≤ s'.world.clocks) (htr : s'.world.trace = s.world.trace ++ new)
    (hnew : ∀ e ∈ new, Event.timed e = false) : Grace env d s' := by
  refine h.extend hclock hc ha hn htr (fun e he => ?_)
    (List.pairwise_of_forall_mem_list fun e he e' _ => ?_)
  · have := hnew e he
    unfold Event.inGrace
    unfold Event.timed at this
    split at this <;> simp_all
  · rintro p t site q now rfl -
    exact absurd (hnew _ he) (by simp [Event.timed])

/-- A single event with the clock reading it needs. -/
theorem Grace.log (h : Grace env d s) (hclock : Monotone env.clock) {e : Event}
    (hc : s'.config = s.config) (ha : s'.connectAfter = s.connectAfter)
    (hn : s.world.clocks ≤ s'.world.clocks) (htr : s'.world.trace = s.world.trace ++ [e])
    (he : Event.inGrace d s.connectAfter e) : Grace env d s' :=
  h.extend hclock hc ha hn htr (fun e' he' => by rw [List.mem_singleton.mp he']; exact he)
    (List.pairwise_singleton _ _)

/-- `connect_single_socket` sets `connect_after` from a new reading when it fails. -/
theorem Grace.connect (h : Grace env d s) (hclock : Monotone env.clock) {p : ℕ} {r : St × Bool}
    (hspec : ConnectSpec env p s r) : Grace env d r.1 := by
  obtain ⟨new, hnew, h1⟩ := hspec.trace
  have htimed : ∀ e ∈ new, Event.timed e = false := by
    intro e he
    have := hnew e he
    unfold Event.ofAttempt at this
    split at this <;> first | rfl | exact this.elim
  rcases h1 with ⟨-, ha, hn, htr⟩ | ⟨-, ha, hn, htr⟩
  · exact h.quiet hclock hspec.1.config ha hn.ge htr htimed
  · have hle : env.clock s.world.clocks ≤ env.clock r.1.world.clocks := hclock (by omega)
    have hmem : ∀ {e : Event}, Event.timed e = true → e ∈ r.1.world.trace →
        e ∈ s.world.trace ∨ e = .connectFailed p (env.clock s.world.clocks) := by
      intro e he hm
      rw [htr, List.mem_append, List.mem_append, List.mem_singleton] at hm
      rcases hm with (hm | hm) | hm
      · exact Or.inl hm
      · rw [htimed e hm] at he; cases he
      · exact Or.inr hm
    refine ⟨by rw [hspec.1.config]; exact h.delay, Or.inr (by rw [ha, h.delay]; omega),
      fun q t hm => ?_, ?_, fun q now hm => ?_⟩
    · rw [ha, h.delay]
      rcases hmem rfl hm with hm | hm
      · have := h.failed q t hm; omega
      · cases hm; omega
    · rw [htr, List.append_assoc]
      refine List.pairwise_append.mpr ⟨h.spaced, List.pairwise_append.mpr
        ⟨List.pairwise_of_forall_mem_list ?_, List.pairwise_singleton _ _, ?_⟩, ?_⟩
      · rintro e he e' - q t site q' now rfl -
        exact absurd (htimed _ he) (by simp [Event.timed])
      · rintro e he e' - q t site q' now rfl -
        exact absurd (htimed _ he) (by simp [Event.timed])
      · rintro e he e' he' q t site q' now rfl rfl
        rcases List.mem_append.mp he' with hm | hm
        · exact absurd (htimed _ hm) (by simp [Event.timed])
        · cases List.mem_singleton.mp hm
    · rcases hmem rfl hm with hm | hm
      · exact h.tried q now hm
      · cases hm

/-! ## The scan and the creation -/

theorem checkSocket_grace {cur : ℕ} (h : Grace env d s) (hclock : Monotone env.clock) :
    Grace env d (checkSocket env cur s).1 := by
  have hconnect : s.connectAfter < env.clock s.world.clocks →
      Grace env d (connectSingleSocket env cur (beforeConnect env cur s)).1 := by
    intro hlt
    have hb : Grace env d (beforeConnect env cur s) :=
      h.log hclock rfl rfl (Nat.le_succ _) rfl hlt
    exact hb.connect hclock (connectSingleSocket_spec env cur _)
  rcases checkSocket_cases env cur s with
    ⟨-, e⟩ | ⟨-, -, e⟩ | ⟨-, -, ⟨hle, e⟩ | ⟨hlt, ⟨-, e⟩ | ⟨-, e⟩⟩⟩ <;> rw [e]
  · exact h
  · exact h.quiet hclock rfl rfl le_rfl (List.append_nil _).symm (by simp)
  · refine h.log hclock rfl rfl (Nat.le_succ _) rfl fun hd => ?_
    have := h.after
    omega
  · exact hconnect hlt
  · exact (hconnect hlt).log hclock rfl rfl le_rfl rfl True.intro

theorem initSocket_grace {i : ℕ} (h : Grace env d s) (hclock : Monotone env.clock) :
    Grace env d (pushSocket i (initSocket env i s)) := by
  have hpush : ∀ {s : St}, Grace env d s → Grace env d (pushSocket i s) := fun h =>
    h.quiet hclock rfl rfl le_rfl (List.append_nil _).symm (by simp)
  rcases initSocket_cases env i s with ⟨-, e⟩ | ⟨hlt, e⟩ <;> rw [e]
  · exact hpush (h.quiet hclock rfl rfl (Nat.le_succ _) (List.append_nil _).symm (by simp))
  · have hb : Grace env d (beforeInit env i s) := h.log hclock rfl rfl (Nat.le_succ _) rfl hlt
    exact hpush (hb.connect hclock (connectSingleSocket_spec env i _))

theorem redisPoolCreate_grace {config : RedisConfig} (hclock : Monotone env.clock)
    (h : redisPoolCreate env config World.init = .ok s) :
    Grace env (normDelay config.connectFailureRetryDelay) s :=
  redisPoolCreate_induction (P := fun _ s => Grace env (normDelay config.connectFailureRetryDelay) s)
    h (fun _ hc => ⟨checkConfig_delay hc, Or.inl rfl, nofun, List.Pairwise.nil, nofun⟩)
    fun _ _ ih => initSocket_grace ih hclock

end Steps

/-! ## The run -/

theorem LocalStep.grace {env : Env} {d : ℤ} {t : ℕ} {s s' : St} {l l' : Local}
    (hclock : Monotone env.clock) (h : LocalStep env t s l s' l') (hg : Grace env d s) :
    Grace env d s' := by
  cases h with
  | startEmpty _ _ | start _ _ | lastUsed _ | clear _ | receive _ _ =>
    exact hg.quiet hclock rfl rfl le_rfl (List.append_nil _).symm (by simp)
  | lock _ _ | busy _ _ | skipped _ | getReturn _ | send _ _ _ | cmdReturn _ | released _
  | timeout _ =>
    exact hg.log hclock rfl rfl le_rfl rfl True.intro
  | sendFailed _ _ | sendNull _ _ =>
    exact hg.quiet hclock rfl rfl le_rfl (List.append_assoc _ _ _) (by simp [Event.timed])
  | @free p c r _ =>
    cases c with
    | none => exact hg
    | some c => exact hg.log hclock rfl rfl le_rfl rfl True.intro
  | found _ _ | skip _ _ => exact checkSocket_grace hg hclock
  | reconnected _ _ | serverDown _ _ => exact hg.connect hclock (connectSingleSocket_spec env _ s)

theorem CallStep.grace {env : Env} {d : ℤ} {t : ℕ} {s s' : St} {l l' : Local} {api : Api}
    (hclock : Monotone env.clock) (h : CallStep t s l api s' l') (hg : Grace env d s) :
    Grace env d s' := by
  cases h with
  | get => exact hg.log hclock rfl rfl le_rfl rfl True.intro
  | _ => exact hg

theorem SysStep.grace {env : Env} {d : ℤ} {allow : Policy} {s s' : Sys}
    (hclock : Monotone env.clock) (h : SysStep env allow s s') (hg : Grace env d s.st) :
    Grace env d s'.st := by
  cases h with
  | call _ _ h => exact h.grace hclock hg
  | step h => exact h.grace hclock hg
  | serve c =>
    rcases s.st.world.serve_cases c with ⟨-, e⟩ | ⟨r, rest, -, e⟩
    · exact hg.quiet hclock rfl rfl (by simp [Sys.outside, e])
        (by rw [Sys.outside, e]; exact (List.append_nil _).symm) (by simp)
    · exact hg.quiet hclock rfl rfl (by simp [Sys.outside, e]) (by rw [Sys.outside, e]; rfl)
        (by simp [Event.timed])
  | drop c | lose c =>
    exact hg.quiet hclock rfl rfl le_rfl (List.append_nil _).symm (by simp)

/-! ## Main theorem -/

/-- **The grace period.** Take any run on a pool made from `config`, with a clock
    that does not go back. With a retry delay `d ≥ 1`, once a
    `connect_single_socket` call has failed and set `connect_after` at reading
    `t`, neither the creation loop nor the scan starts another one at a reading
    up to `t + d`. With a delay `≤ 0`, the scan ignores an unconnected socket
    that it found free without a try only if the clock reads 0 or less. -/
theorem grace_period (env : Env) (hclock : Monotone env.clock) (config : RedisConfig) (st : St)
    (hst : redisPoolCreate env config World.init = .ok st) (as : List Action) (s : Sys)
    (hs : (machine env anyCall).run ⟨st, fun _ => Local.init⟩ as = some s) :
    (1 ≤ config.connectFailureRetryDelay →
        s.st.world.trace.Pairwise (SpacedBy config.connectFailureRetryDelay)) ∧
      (config.connectFailureRetryDelay ≤ 0 →
        ∀ p now, .ignored p now false ∈ s.st.world.trace → now ≤ 0) := by
  have h : Grace env (normDelay config.connectFailureRetryDelay) s.st :=
    Lts.run_induction (P := fun s : Sys => Grace env (normDelay config.connectFailureRetryDelay) s.st)
      (fun s a s' hg hstep => (SysStep.of_eq hstep).grace hclock hg)
      (redisPoolCreate_grace hclock hst) hs
  refine ⟨fun hd => ?_, fun hd p now hm => h.tried p now hm (if_pos hd)⟩
  have hnorm : normDelay config.connectFailureRetryDelay = config.connectFailureRetryDelay :=
    if_neg (by omega)
  exact hnorm ▸ h.spaced

/-- No server accepts: the failure at reading 2 keeps the scan at 4 from connecting. -/
theorem grace_period_down : ∃ s, (machine (.connects 0) anyCall).Reachable s ∧
    .connectFailed 0 2 ∈ s.st.world.trace ∧ .ignored 1 4 false ∈ s.st.world.trace ∧
    s.st.world.trace.Pairwise (SpacedBy 5) := by
  obtain ⟨st, s, hst, hs, hp⟩ := exists_run_of_replay (.connects 0) anyCall (.single 2 5)
    [.call 0 .get, .step 0 true, .step 0 true, .step 0 true]
    (fun s => .connectFailed 0 2 ∈ s.st.world.trace ∧ .ignored 1 4 false ∈ s.st.world.trace)
    (by decide +kernel)
  have hclock : Monotone (Env.connects 0).clock := fun i j hij => by simp [Env.connects, Env.good, hij]
  have hinit : (machine (.connects 0) anyCall).init ⟨st, fun _ => Local.init⟩ :=
    ⟨⟨_, hst⟩, fun _ => rfl⟩
  obtain ⟨h1, h2⟩ := of_decide_eq_true hp
  exact ⟨s, (Lts.Reachable.init hinit).run hs, h1, h2,
    (grace_period _ hclock _ st hst _ s hs).1 (by decide)⟩

/-- A pool created at reading 0: the clock has not gone back and the delay is
    not positive, but the scan ignores the free unconnected socket untried. -/
theorem ignored_at_zero : ∃ s, (machine { Env.good with clock := fun _ => 0 } anyCall).Reachable s ∧
    s.st.config.connectFailureRetryDelay = -1 ∧ .ignored 0 0 false ∈ s.st.world.trace := by
  obtain ⟨s, hs, hp⟩ := exists_of_replay { Env.good with clock := fun _ => 0 } anyCall (.single 1 0)
    [.call 0 .get, .step 0 true, .step 0 true, .step 0 true]
    (fun s => s.st.config.connectFailureRetryDelay = -1 ∧ .ignored 0 0 false ∈ s.st.world.trace)
    (by decide +kernel)
  exact ⟨s, hs, of_decide_eq_true hp⟩

end Hiredispool.Threads
