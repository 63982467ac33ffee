import Hiredispool.Pool.Index
import Hiredispool.Threads.Commands

/-!
# The endpoint index while threads run

`Pool.Indexed` along every run: each step of a thread writes `backup` only
through `connect_single_socket`, and a command fails on the context that its
socket still has when it is reconnected.

* `indexed_invariant`, `failing_invariant`: the invariants.
* `endpoint_index`: the index is in range and its arithmetic defined, and a
  reconnect goes to another endpoint than the one that failed.
-/

namespace Hiredispool.Threads

open Hiredispool.Pool

/-! ## The index -/

section Steps

variable {env : Env} {n t : ℕ} {s s' : St} {l l' : Local}

theorem LocalStep.indexed (h : LocalStep env t s l s' l') (hs : Indexed n s) : Indexed n s' := by
  cases h with
  | startEmpty _ _ | start _ _ => exact hs
  | lastUsed _ =>
    exact hs.quiet rfl (fun _ => ⟨rfl, rfl, rfl⟩) rfl (fun _ => rfl) (List.append_nil _).symm (by simp)
  | @lock _ cur _ _ =>
    exact (hs.setSock cur (f := fun r => { r with mutex := some t }) fun _ => ⟨rfl, rfl, rfl⟩).log rfl
  | @skipped _ p _ | @released p _ =>
    exact (hs.setSock p (f := fun r => { r with mutex := none }) fun _ => ⟨rfl, rfl, rfl⟩).log rfl
  | @clear p _ => exact hs.setSock p (f := fun r => { r with inuse := 0 }) fun _ => ⟨rfl, rfl, rfl⟩
  | busy _ _ | getReturn _ | cmdReturn _ => exact hs.log rfl
  | send _ _ _ =>
    exact hs.outside rfl (by simp [setCtx_endpoint]) rfl (by simp [Event.attempt])
  | sendFailed _ _ =>
    exact hs.outside rfl (by simp [setCtx_endpoint, World.setErr]) (List.append_assoc _ _ _)
      (by simp [Event.attempt])
  | sendNull _ _ =>
    exact hs.outside rfl (fun _ => rfl) (List.append_assoc _ _ _) (by simp [Event.attempt])
  | receive _ _ =>
    exact hs.outside rfl (by simp [setCtx_endpoint]) (List.append_nil _).symm (by simp)
  | timeout _ =>
    exact hs.outside rfl (by simp [setCtx_endpoint, World.setErr]) rfl (by simp [Event.attempt])
  | @free p c r _ =>
    cases c with
    | none => exact hs
    | some c =>
      exact hs.outside rfl (by simp [setCtx_endpoint, World.redisFree]) rfl (by simp [Event.attempt])
  | found _ _ | skip _ _ => exact checkSocket_indexed hs env _
  | reconnected _ _ | serverDown _ _ => exact hs.connect env _

theorem CallStep.indexed {api : Api} (h : CallStep t s l api s' l') (hs : Indexed n s) :
    Indexed n s' := by
  cases h with
  | get => exact hs.log rfl
  | _ => exact hs

theorem SysStep.indexed {allow : Policy} {s s' : Sys} (h : SysStep env allow s s')
    (hs : Indexed n s.st) : Indexed n s'.st := by
  cases h with
  | call _ _ h => exact h.indexed hs
  | step h => exact h.indexed hs
  | serve c =>
    rcases s.st.world.serve_cases c with ⟨-, e⟩ | ⟨r, rest, -, e⟩
    · rw [Sys.outside, e]; exact hs
    · rw [Sys.outside, e]
      exact hs.outside rfl (by simp [setCtx_endpoint]) rfl (by simp [Event.attempt])
  | drop c | lose c =>
    exact hs.outside rfl (by simp [setCtx_endpoint, World.drop, World.lose]) (List.append_nil _).symm (by simp)

end Steps

/-- The index is in range in every reachable state. -/
theorem indexed_invariant (env : Env) (allow : Policy) :
    (machine env allow).Invariant fun s => Indexed s.st.config.numEndpoints s.st := by
  refine Lts.invariant_of_inductive (fun s h => ?_) fun s a s' ih h => ?_
  · obtain ⟨⟨config, hc⟩, -⟩ := h
    exact redisPoolCreate_indexed hc
  · have hs := (SysStep.of_eq h).indexed ih
    rwa [hs.config]

/-! ## The context of a failed command -/

/-- The request of a command is on the trace with the context of the socket,
    which it keeps until the reconnect. -/
def Local.Failing (s : St) (l : Local) : Prop :=
  match l.pc with
  | .cmdWait p c r => (s.sock p).conn = some c ∧ .command (some c) r ∈ s.world.trace
  | .cmdFree p c r => (s.sock p).conn = c ∧ .command c r ∈ s.world.trace
  | .cmdConnect p r => .command (s.sock p).conn r ∈ s.world.trace
  | _ => True

section Failing

variable {env : Env} {t : ℕ} {s s' : St} {l l' : Local}

theorem Local.failing_of_target (h : l.pc.target = none) : l.Failing s := by
  unfold Local.Failing
  split <;> simp_all [Pc.target]

theorem Local.Failing.congr (h : l.Failing s)
    (hs : ∀ p, l.pc.target = some p → (s'.sock p).conn = (s.sock p).conn)
    (htr : s.world.trace ⊆ s'.world.trace) : l.Failing s' := by
  unfold Local.Failing at *
  split at h
  · rename_i p c r hpc
    rw [hs p (by rw [hpc]; rfl)]
    exact ⟨h.1, htr h.2⟩
  · rename_i p c r hpc
    rw [hs p (by rw [hpc]; rfl)]
    exact ⟨h.1, htr h.2⟩
  · rename_i p r hpc
    rw [hs p (by rw [hpc]; rfl)]
    exact htr h
  · exact True.intro

/-- After an attempt without an answer, the request is on the trace. -/
theorem failing_onNoReply {p : ℕ} {c : Option ℕ} {r : Request} (hc : (s.sock p).conn = c)
    (htr : .command c r ∈ s.world.trace) : Local.Failing s { l with pc := onNoReply p c r } := by
  unfold onNoReply
  split
  · exact ⟨hc, htr⟩
  · exact True.intro

theorem LocalStep.trace_subset (h : LocalStep env t s l s' l') :
    s.world.trace ⊆ s'.world.trace := by
  cases h with
  | startEmpty _ _ | start _ _ | lastUsed _ | clear _ | receive _ _ => exact List.Subset.refl _
  | lock _ _ | busy _ _ | skipped _ | getReturn _ | send _ _ _ | timeout _ | cmdReturn _
  | released _ => exact List.subset_append_left _ _
  | sendFailed _ _ | sendNull _ _ =>
    exact fun _ h => List.mem_append_left _ (List.mem_append_left _ h)
  | @free _ c _ _ =>
    cases c with
    | none => exact List.Subset.refl _
    | some c => exact List.subset_append_left _ _
  | found _ _ | skip _ _ =>
    obtain ⟨new, htr, -⟩ := (checkSocket_silent env _ s).trace
    rw [htr]
    exact List.subset_append_left _ _
  | reconnected _ _ | serverDown _ _ =>
    obtain ⟨new, htr, -⟩ := (Silent.of_connect (connectSingleSocket_spec env _ s)).trace
    rw [htr]
    exact List.subset_append_left _ _

theorem ThreadStep.trace_subset (h : ThreadStep env t s l s' l') :
    s.world.trace ⊆ s'.world.trace := by
  rcases h with ⟨-, api, h⟩ | h
  · cases h with
    | get => exact List.subset_append_left _ _
    | _ => exact List.Subset.refl _
  · exact h.trace_subset

theorem ThreadStep.failing (h : ThreadStep env t s l s' l') (hl : l.Failing s) :
    l'.Failing s' := by
  rcases h with ⟨hidle, api, h⟩ | h
  · cases h with
    | releaseNull => exact Local.failing_of_target (by rw [hidle]; rfl)
    | _ => exact True.intro
  · cases h with
    | busy _ _ | skipped _ => exact Local.failing_of_target (getNext_target _ _ _)
    | send hpc hc _ => exact ⟨hc, List.mem_append_right _ (List.mem_singleton_self _)⟩
    | sendFailed hpc hc | sendNull hpc hc => exact failing_onNoReply hc (by simp [World.setErr])
    | timeout hpc =>
      simp only [Local.Failing, hpc] at hl
      exact failing_onNoReply hl.1 (by simp [World.setErr, hl.2])
    | @free p c r hpc =>
      simp only [Local.Failing, hpc] at hl
      have hmem : .command c r ∈ (s.world.redisFree c).trace := by
        cases c with
        | none => exact hl.2
        | some c => exact List.mem_append_left _ hl.2
      show .command (s.sock p).conn r ∈ (s.world.redisFree c).trace
      rw [hl.1]; exact hmem
    | _ => exact True.intro

end Failing

theorem failing_invariant (env : Env) (allow : Policy) :
    (machine env allow).Invariant fun s => ∀ t, (s.thr t).Failing s.st := by
  refine Lts.invariant_of_inductive_with (exclusive_invariant env allow) (fun s h _ t => ?_)
    fun s a s' hx _ ih h => ?_
  · rw [h.2 t]; exact True.intro
  · have put : ∀ {t : ℕ} {st : St} {l : Local}, ThreadStep env t s.st (s.thr t) st l →
        ∀ u, ((s.put t (st, l)).thr u).Failing st := by
      intro t st l hstep u
      by_cases hut : u = t
      · subst hut; rw [Sys.put_thr_self]; exact hstep.failing (ih u)
      · rw [Sys.put_thr_of_ne s t (st, l) hut]
        refine (ih u).congr (fun p hp => (hstep.untouched (hx.target t) fun hp' => hut ?_).1)
          hstep.trace_subset
        exact hx.agree.unique (Local.held_subset (hx.target u p hp)) hp'
    cases SysStep.of_eq h with
    | call hidle _ hcall => exact put (Or.inl ⟨hidle, _, hcall⟩)
    | step hstep => exact put (Or.inr hstep)
    | serve c =>
      refine fun t => (ih t).congr (fun _ _ => rfl) ?_
      rcases s.st.world.serve_cases c with ⟨-, e⟩ | ⟨r, rest, -, e⟩
      · rw [Sys.outside, e]; exact List.Subset.refl _
      · rw [Sys.outside, e]; exact List.subset_append_left _ _
    | drop c | lose c =>
      exact fun t => (ih t).congr (fun _ _ => rfl) (List.Subset.refl _)

/-! ## Main theorem -/

/-- A reconnect with a choice first tries the endpoint of `backup`. -/
theorem connectSingleSocket_first (env : Env) {n p : ℕ} {s : St} (h : Indexed n s) (h1 : 1 < n) :
    ∃ new rest, (connectSingleSocket env p s).1.world.trace = s.world.trace ++ new ∧
      tried p new = (s.sock p).backup :: rest := by
  have hb : (s.sock p).backup < s.config.numEndpoints := by rw [h.config]; exact h.backup p
  obtain ⟨m, new, hswept⟩ := connectSingleSocket_swept env hb
  obtain ⟨k, rfl⟩ : ∃ k, m = k + 1 := by
    refine Nat.exists_eq_succ_of_ne_zero fun hm => ?_
    subst hm
    cases hok : (connectSingleSocket env p s).2 with
    | true =>
      obtain ⟨i, hi, -⟩ := hswept.ok_iff.mp hok
      omega
    | false =>
      have hlen := (hswept.fail_iff.mp hok).1.length_eq
      rw [hswept.tried, Cycle.length_order, List.length_range, h.config] at hlen
      omega
  exact ⟨new, _, hswept.trace, hswept.tried.trans (Cycle.order_cons hb)⟩

/-- **The endpoint index and the fail-over.** With `n ≤ 2 ^ 30` endpoints, in
    every reachable state: `backup` is in range; every access to `endpoints`
    was in range; a call of `connect_single_socket` on any socket computes its
    indices as 32-bit integers without an overflow or a division by 0, and so
    did the creation. If there is a choice, `backup` of a connected socket is
    not the endpoint it is connected to, and the reconnect after a failed
    command first tries another endpoint than the one of the failed context. -/
theorem endpoint_index (env : Env) :
    (∀ config c, checkConfig config = some c → c.numEndpoints ≤ 2 ^ 30 →
        initLoopInt env c.numSocks 0 (emptyPool c World.init) =
          some (initLoop env c.numSocks 0 (emptyPool c World.init))) ∧
      ∀ s, (machine env anyCall).Reachable s → s.st.config.numEndpoints ≤ 2 ^ 30 →
        (∀ p, (s.st.sock p).backup < s.st.config.numEndpoints) ∧
        (∀ p ep c, .connect p ep c ∈ s.st.world.trace → ep < s.st.config.numEndpoints) ∧
        (∀ p st, st.config = s.st.config → (st.sock p).backup = (s.st.sock p).backup →
          connectSingleSocketInt env p st = some (connectSingleSocket env p st)) ∧
        (1 < s.st.config.numEndpoints →
          (∀ p, (s.st.sock p).state = .sockconnected → ∃ c, (s.st.sock p).conn = some c ∧
            (s.st.world.ctx c).endpoint ≠ (s.st.sock p).backup) ∧
          ∀ t p r, (s.thr t).pc = .cmdConnect p r →
            .command (s.st.sock p).conn r ∈ s.st.world.trace ∧
            ∀ io s', (machine env anyCall).step s (.step t io) = some s' →
              ∃ new ep rest, s'.st.world.trace = s.st.world.trace ++ new ∧
                tried p new = ep :: rest ∧
                ∀ c, (s.st.sock p).conn = some c → ep ≠ (s.st.world.ctx c).endpoint) := by
  refine ⟨fun config c _ hn => initLoopInt_eq env _ _ hn, fun s hs hn => ?_⟩
  have h := indexed_invariant env anyCall s hs
  refine ⟨h.backup, h.access, fun p st hc hb => ?_, fun h1 => ⟨fun p hp => ?_, fun t p r hpc => ?_⟩⟩
  · refine connectSingleSocketInt_eq env ?_ (hc ▸ hn)
    rw [hc, hb]; exact h.backup p
  · obtain ⟨c, hc⟩ := h.connected p hp
    exact ⟨c, hc, h.apart h1 p c hc⟩
  · have hf := failing_invariant env anyCall s hs t
    simp only [Local.Failing, hpc] at hf
    refine ⟨hf, fun io s' hstep => ?_⟩
    obtain ⟨new, rest, htr, htried⟩ := connectSingleSocket_first env (p := p) h h1
    have hst : s'.st = (connectSingleSocket env p s.st).1 := by
      simp only [machine, sysStep, localStep, hpc, Option.map_some, Option.some.injEq] at hstep
      rw [← hstep, Sys.put_st]
    rw [hst]
    exact ⟨new, _, rest, htr, htried, fun c hc => (h.apart h1 p c hc).symm⟩

/-- With two endpoints, a thread is about to reconnect after a failed command. -/
theorem endpoint_index_failed : ∃ s, (machine .good anyCall).Reachable s ∧
    (s.st.sock 0).backup < 2 ∧ (s.st.sock 0).conn = some 0 ∧
    .command (some 0) ⟨0, 0, 0, .incr 0⟩ ∈ s.st.world.trace ∧
    (∃ s' new ep rest, (machine .good anyCall).step s (.step 0 true) = some s' ∧
      s'.st.world.trace = s.st.world.trace ++ new ∧ tried 0 new = ep :: rest ∧
      ep ≠ (s.st.world.ctx 0).endpoint) ∧
    ∃ c, checkConfig (.pair 1 5) = some c ∧
      initLoopInt .good c.numSocks 0 (emptyPool c World.init) =
        some (initLoop .good c.numSocks 0 (emptyPool c World.init)) := by
  obtain ⟨s, hs, hp⟩ := exists_of_replay .good anyCall (.pair 1 5) (commandTwice.take 10)
    (fun s => s.st.config.numEndpoints = 2 ∧ (s.thr 0).pc = .cmdConnect 0 ⟨0, 0, 0, .incr 0⟩ ∧
      (s.st.sock 0).conn = some 0 ∧ ((machine .good anyCall).step s (.step 0 true)).isSome)
    (by decide +kernel)
  obtain ⟨hn, hpc, hconn, hstep⟩ := of_decide_eq_true hp
  obtain ⟨c, hc⟩ : ∃ c, checkConfig (.pair 1 5) = some c := Option.isSome_iff_exists.mp rfl
  have hcn : c.numEndpoints = 2 := by
    obtain rfl := Option.some.inj hc
    rfl
  obtain ⟨hinit, hreach⟩ := endpoint_index .good
  obtain ⟨hb, -, -, hfail⟩ := hreach s hs (by omega)
  obtain ⟨-, hcmd⟩ := hfail (by omega)
  obtain ⟨htr, hnext⟩ := hcmd 0 0 _ hpc
  obtain ⟨s', hs'⟩ := Option.isSome_iff_exists.mp hstep
  obtain ⟨new, ep, rest, htr', htried, hep⟩ := hnext true s' hs'
  exact ⟨s, hs, hn ▸ hb 0, hconn, hconn ▸ htr, ⟨s', new, ep, rest, hs', htr', htried, hep 0 hconn⟩,
    c, hc, hinit _ c hc (by omega)⟩

end Hiredispool.Threads
