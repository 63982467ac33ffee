import Hiredispool.Threads.Replies

/-!
# What becomes of a request

`redisvCommand` ends in one of two ways for each request: it returns NULL
(`noReply`), or it hands an answer to the call, which then returns it. A request
is never in both.

* `Fates`: the two outcomes and the request under way, as an invariant.
* `Applied`: each request is applied at most once; unless it was given up
  before, it is applied in the order of its thread's calls; and each answer was
  computed from what had been applied before.
* `fates_invariant`, `applied_invariant`: both hold in every reachable state.
-/

namespace Hiredispool.Threads

open Hiredispool.Pool

/-! ## Outcomes -/

/-- The thread waits for an answer to `r`, or is about to return it. -/
def Local.Holds (l : Local) (r : Request) : Prop :=
  match l.pc with
  | .cmdWait _ _ r' => r' = r
  | .cmdReturn _ (some (_, a)) => a.request = r
  | _ => False

theorem Local.not_holds {l : Local} (hw : ∀ p c r, l.pc ≠ .cmdWait p c r)
    (hr : ∀ p x, l.pc ≠ .cmdReturn p (some x)) (r : Request) : ¬ l.Holds r := by
  unfold Local.Holds
  split
  · exact absurd ‹_› (hw _ _ _)
  · exact absurd ‹_› (hr _ _)
  · exact id

/-- Call `k` of `t` returned the answer to `r`. -/
def ReturnedTo (tr : List Event) (r : Request) : Prop :=
  ∃ c a, Event.returned r.caller r.call (some (c, a)) ∈ tr ∧ a.request = r

/-- What becomes of requests and calls. -/
structure Fates (s : Sys) : Prop where
  calls : ∀ t k x, .returned t k x ∈ s.st.world.trace → k < (s.thr t).calls
  returned : ∀ t k x y, .returned t k x ∈ s.st.world.trace → .returned t k y ∈ s.st.world.trace →
    x = y
  holds : ∀ t r, (s.thr t).Holds r → r.caller = t ∧ r.call = (s.thr t).calls ∧
    ∃ c, .command (some c) r ∈ s.st.world.trace
  fate : ∀ c r, .command (some c) r ∈ s.st.world.trace → .noReply r ∈ s.st.world.trace ∨
    (s.thr r.caller).Holds r ∨ ReturnedTo s.st.world.trace r
  noReply : ∀ r, .noReply r ∈ s.st.world.trace → (∃ c, .command (some c) r ∈ s.st.world.trace) ∧
    ¬ (s.thr r.caller).Holds r ∧ ¬ ReturnedTo s.st.world.trace r

/-- What a thread is about to send has not been sent. -/
theorem Calls.fresh {s : Sys} (h : Calls s) {t p : ℕ} {r : Request}
    (hpc : (s.thr t).pc = .cmdSend p r) (c : ℕ) : .command (some c) r ∉ s.st.world.trace := by
  intro hm
  obtain ⟨hcaller, hcall, -⟩ := (h.names t).request r (by rw [hpc]; rfl)
  rcases h.sent c r hm with hlt | ⟨-, hs⟩
  · rw [hcaller] at hlt; omega
  · rw [hcaller] at hs
    simp only [Local.Sent, hpc] at hs
    have h1 : r.attempt = r.attempt + 1 := congrArg Request.attempt hs.2.1
    omega

/-- A request is sent on one context. -/
theorem Calls.command_unique {s : Sys} (h : Calls s) {c c' : ℕ} {r : Request}
    (hm : .command (some c) r ∈ s.st.world.trace) (hm' : .command (some c') r ∈ s.st.world.trace) :
    c = c' := by
  let R : Event → Event → Prop := fun e e' =>
    ∀ c c' r, e = .command (some c) r → e' = .command (some c') r → c = c'
  have hR : s.st.world.trace.Pairwise R := by
    refine h.pairs.imp fun hr c c' r he he' => ?_
    have h1 := (hr c r c' r he he' rfl rfl).2.1
    have h2 : r.attempt = r.attempt + 1 := congrArg Request.attempt h1
    omega
  have hsymm : Std.Symm R := ⟨fun e e' hee c c' r he he' => (hee c' c r he' he).symm⟩
  have hself : ∀ e ∈ s.st.world.trace, R e e := fun e _ c c' r he he' => by
    rw [he] at he'; cases he'; rfl
  exact hR.forall_of_forall hself hm hm' c c' r rfl rfl

/-! ## Steps by what they decide -/

/-- The events that decide what becomes of a request. -/
def Event.fateful : Event → Bool
  | .command _ _ | .noReply _ | .returned _ _ _ => true
  | _ => false

/-- One step of thread `t`, by what it decides. -/
inductive FateStep (t : ℕ) (s : St) (l : Local) (s' : St) (l' : Local) : Prop
  | quiet : (∀ e, Event.fateful e = true → (e ∈ s'.world.trace ↔ e ∈ s.world.trace)) →
      (∀ r, l'.Holds r ↔ l.Holds r) → l'.calls = l.calls → FateStep t s l s' l'
  | sent (p c : ℕ) (r : Request) : l.pc = .cmdSend p r →
      (∀ e, Event.fateful e = true →
        (e ∈ s'.world.trace ↔ e ∈ s.world.trace ∨ e = .command (some c) r)) →
      (∀ r', l'.Holds r' ↔ r' = r) → l'.calls = l.calls → FateStep t s l s' l'
  | sentFailed (p c : ℕ) (r : Request) : l.pc = .cmdSend p r →
      (∀ e, Event.fateful e = true →
        (e ∈ s'.world.trace ↔ e ∈ s.world.trace ∨ e = .command (some c) r ∨ e = .noReply r)) →
      (∀ r', ¬ l'.Holds r') → l'.calls = l.calls → FateStep t s l s' l'
  | timeout (r : Request) : (∀ r', l.Holds r' ↔ r' = r) →
      (∀ e, Event.fateful e = true → (e ∈ s'.world.trace ↔ e ∈ s.world.trace ∨ e = .noReply r)) →
      (∀ r', ¬ l'.Holds r') → l'.calls = l.calls → FateStep t s l s' l'
  | ret (x : Option CtxReply) : (∀ r', l.Holds r' ↔ ∃ c a, x = some (c, a) ∧ a.request = r') →
      (∀ e, Event.fateful e = true →
        (e ∈ s'.world.trace ↔ e ∈ s.world.trace ∨ e = .returned t l.calls x)) →
      (∀ r', ¬ l'.Holds r') → l'.calls = l.calls + 1 → FateStep t s l s' l'

theorem onNoReply_not_holds (l : Local) (p : ℕ) (c : Option ℕ) (r r' : Request) :
    ¬ Local.Holds { l with pc := onNoReply p c r } r' := by
  unfold onNoReply
  split <;> exact id

theorem Silent.fateful {s s' : St} (h : Silent s s') {e : Event} (he : Event.fateful e = true) :
    e ∈ s'.world.trace ↔ e ∈ s.world.trace := by
  obtain ⟨new, htr, hnew⟩ := h.trace
  rw [htr, List.mem_append]
  refine ⟨fun hm => hm.resolve_right fun hm => ?_, Or.inl⟩
  have := hnew e hm
  cases e <;> simp_all [Event.silent, Event.fateful]

theorem CmdStep.fateStep {env : Env} {s : Sys} {t : ℕ} {st : St} {l : Local}
    (hs : CmdStep env t s.st (s.thr t) st l) (hd : Drained s) :
    FateStep t s.st (s.thr t) st l := by
  have none_of_target : ∀ {l : Local}, l.pc.target = none → ∀ r, ¬ l.Holds r := by
    intro l h
    exact Local.not_holds (fun p c r e => by rw [e] at h; cases h)
      fun p x e => by rw [e] at h; cases h
  cases hs with
  | silent hsil ht hl hcalls =>
    exact .quiet (fun e he => hsil.fateful he)
      (fun r => iff_of_false (none_of_target hl r) (none_of_target ht r)) hcalls
  | enter hidle =>
    refine .quiet (fun _ _ => Iff.rfl) (fun r => iff_of_false id ?_) rfl
    exact none_of_target (by rw [hidle]; rfl) r
  | @send p c r hpc _ _ =>
    refine .sent p c r hpc (fun e _ => by simp) (fun r' => eq_comm) rfl
  | @sendFailed p c r hpc _ =>
    exact .sentFailed p c r hpc (fun e _ => by simp [World.setErr])
      (fun r' => onNoReply_not_holds _ _ _ _ r') rfl
  | @receive p c r a rest hpc _ hi =>
    refine .quiet (fun _ _ => Iff.rfl) (fun r' => ?_) rfl
    have hr : a.request = r := hd.read hpc hi
    unfold Local.Holds
    rw [hpc]
    exact hr ▸ Iff.rfl
  | @timeout p c r hpc _ =>
    refine .timeout r (fun r' => ?_) (fun e _ => by simp [World.setErr])
      (fun r' => onNoReply_not_holds _ _ _ _ r') rfl
    unfold Local.Holds
    rw [hpc]; exact eq_comm
  | @free p c r hpc _ =>
    refine .quiet (fun e he => ?_) (fun r' => iff_of_false id ?_) rfl
    · simp only [World.redisFree, World.log_trace, List.mem_append, List.mem_singleton,
        World.setCtx_trace, or_iff_left_iff_imp]
      rintro rfl; cases he
    · exact Local.not_holds (by simp [hpc]) (by simp [hpc]) r'
  | @reconnect p r hpc =>
    refine .quiet (fun e he => (Silent.of_connect (connectSingleSocket_spec env p s.st)).fateful he)
      (fun r' => iff_of_false ?_ ?_) rfl
    · refine Local.not_holds ?_ ?_ r' <;> dsimp only <;> split <;> simp
    · exact Local.not_holds (by simp [hpc]) (by simp [hpc]) r'
  | @ret p reply hpc =>
    refine .ret reply (fun r' => ?_) (fun e _ => by simp) (fun r' => id) rfl
    unfold Local.Holds
    rw [hpc]
    rcases reply with _ | ⟨c, a⟩ <;> simp

/-- The three kinds of fateful events. -/
theorem fateful_mem {tr : List Event} {P : Event → Prop}
    (h : ∀ e, Event.fateful e = true → (e ∈ tr ↔ P e)) :
    (∀ c r, .command (some c) r ∈ tr ↔ P (.command (some c) r)) ∧
      (∀ r, .noReply r ∈ tr ↔ P (.noReply r)) ∧
      ∀ t k x, .returned t k x ∈ tr ↔ P (.returned t k x) :=
  ⟨fun _ _ => h _ rfl, fun _ => h _ rfl, fun _ _ _ => h _ rfl⟩

/-- The invariant through a step of one thread. -/
theorem Fates.put {s : Sys} (h : Fates s) (hcalls : Calls s) {t : ℕ} {st : St}
    {l : Local} (hs : FateStep t s.st (s.thr t) st l) : Fates (s.put t (st, l)) := by
  have hholds : ∀ u r, ((s.put t (st, l)).thr u).Holds r ↔
      u = t ∧ l.Holds r ∨ u ≠ t ∧ (s.thr u).Holds r := by
    intro u r
    by_cases hu : u = t
    · subst hu; simp
    · simp [hu]
  have hcount : ∀ u, u ≠ t → ((s.put t (st, l)).thr u).calls = (s.thr u).calls :=
    fun u hu => by rw [Sys.put_thr_of_ne s t (st, l) hu]
  have hself : ((s.put t (st, l)).thr t).calls = l.calls := by rw [Sys.put_thr_self]
  obtain ⟨hlt, hret, hheld, hfate, hno⟩ := h
  simp only [ReturnedTo] at hfate hno
  cases hs with
  | quiet hmem hl hcalls' =>
    obtain ⟨hcmd, hnr, hrt⟩ := fateful_mem hmem
    refine ⟨?_, ?_, ?_, ?_, ?_⟩ <;> simp only [Sys.put_st, ReturnedTo, hholds] <;> grind
  | sent p c r hpc hmem hl hcalls' =>
    obtain ⟨hcmd, hnr, hrt⟩ := fateful_mem hmem
    have hfresh := hcalls.fresh hpc
    have hnew : Event.command (some c) r ∈ st.world.trace := (hcmd c r).mpr (Or.inr rfl)
    obtain ⟨hcaller, hcall, -⟩ := (hcalls.names t).request r (by rw [hpc]; rfl)
    have hbefore : ∀ r', ¬ (s.thr t).Holds r' :=
      Local.not_holds (by simp [hpc]) (by simp [hpc])
    refine ⟨?_, ?_, ?_, ?_, ?_⟩ <;> simp only [Sys.put_st, ReturnedTo, hholds] <;> grind
  | sentFailed p c r hpc hmem hl hcalls' =>
    obtain ⟨hcmd, hnr, hrt⟩ := fateful_mem hmem
    have hnew : Event.command (some c) r ∈ st.world.trace := (hcmd c r).mpr (Or.inr (Or.inl rfl))
    obtain ⟨hcaller, hcall, -⟩ := (hcalls.names t).request r (by rw [hpc]; rfl)
    have hbefore : ∀ r', ¬ (s.thr t).Holds r' :=
      Local.not_holds (by simp [hpc]) (by simp [hpc])
    refine ⟨?_, ?_, ?_, ?_, ?_⟩ <;> simp only [Sys.put_st, ReturnedTo, hholds] <;> grind
  | timeout r hl hmem hl' hcalls' =>
    obtain ⟨hcmd, hnr, hrt⟩ := fateful_mem hmem
    refine ⟨?_, ?_, ?_, ?_, ?_⟩ <;> simp only [Sys.put_st, ReturnedTo, hholds] <;> grind
  | ret x hl hmem hl' hcalls' =>
    obtain ⟨hcmd, hnr, hrt⟩ := fateful_mem hmem
    refine ⟨?_, ?_, ?_, ?_, ?_⟩ <;> simp only [Sys.put_st, ReturnedTo, hholds] <;> grind

/-- Steps that neither decide anything nor move a thread. -/
theorem Fates.outside {s : Sys} (h : Fates s) {f : World → World}
    (hmem : ∀ e, Event.fateful e = true → (e ∈ (f s.st.world).trace ↔ e ∈ s.st.world.trace)) :
    Fates (s.outside f) := by
  obtain ⟨hcmd, hnr, hrt⟩ := fateful_mem hmem
  obtain ⟨hlt, hret, hheld, hfate, hno⟩ := h
  simp only [ReturnedTo] at hfate hno
  refine ⟨?_, ?_, ?_, ?_, ?_⟩ <;>
    simp only [Sys.outside, ReturnedTo, hcmd, hnr, hrt] <;> assumption

theorem serve_fateful (w : World) (c : ℕ) {e : Event} (he : Event.fateful e = true) :
    e ∈ (w.serve c).trace ↔ e ∈ w.trace := by
  rcases w.serve_cases c with ⟨-, e'⟩ | ⟨r, rest, -, e'⟩ <;> rw [e']
  simp only [World.log_trace, World.setCtx_trace, List.mem_append, List.mem_singleton,
    or_iff_left_iff_imp]
  rintro rfl
  cases he

theorem fates_invariant (env : Env) : (machine env onConnected).Invariant Fates := by
  have hinv : (machine env onConnected).Invariant fun s => Owning s ∧ Calls s ∧ Drained s :=
    fun s hs => ⟨owning_invariant env s hs, calls_invariant env s hs,
      (contents_drained_invariant env s hs).2⟩
  refine Lts.invariant_of_inductive_with hinv (fun s h _ => ?_)
    fun s a s' ⟨ho, hcalls, hd⟩ _ ih h => ?_
  · -- nothing has been sent
    obtain ⟨⟨config, hcreate⟩, hthr⟩ := h
    obtain ⟨c, hsilent⟩ := redisPoolCreate_silent hcreate
    have hnone : ∀ e, Event.fateful e = true → e ∉ s.st.world.trace := fun e he hm => by
      have hm' := (hsilent.fateful he).mp hm
      cases hm'
    have hheld : ∀ t r, ¬ (s.thr t).Holds r := fun t r => by rw [hthr t]; exact id
    exact ⟨fun t k x hm => absurd hm (hnone _ rfl), fun t k x y hm => absurd hm (hnone _ rfl),
      fun t r hr => absurd hr (hheld t r), fun c r hm => absurd hm (hnone _ rfl),
      fun r hm => absurd hm (hnone _ rfl)⟩
  · cases SysStep.of_eq h with
    | @call t api st l hidle _ hcall =>
      have hstep : ThreadStep env t s.st (s.thr t) st l := Or.inl ⟨hidle, api, hcall⟩
      exact ih.put hcalls ((hstep.cmdStep (ho.uses t)).fateStep hd)
    | @step t st l hstep => exact ih.put hcalls ((hstep.cmdStep (ho.uses t)).fateStep hd)
    | serve c => exact ih.outside fun e he => serve_fateful _ c he
    | drop c | lose c => exact ih.outside fun _ _ => Iff.rfl

/-! ## What the servers apply -/

theorem applied_append (tr new : List Event) : applied (tr ++ new) = applied tr ++ applied new :=
  List.filterMap_append

theorem applied_eq_nil {tr : List Event} (h : ∀ e ∈ tr, ∀ c a, e ≠ .served c a) :
    applied tr = [] := by
  refine List.filterMap_eq_nil_iff.mpr fun e he => ?_
  cases e with
  | served c a => exact absurd rfl (h _ he c a)
  | _ => rfl

theorem mem_applied {tr : List Event} {r : Request} :
    r ∈ applied tr ↔ ∃ c a, .served c a ∈ tr ∧ a.request = r := by
  unfold applied
  rw [List.mem_filterMap]
  constructor
  · rintro ⟨e, he, hr⟩
    cases e with
    | served c a => exact ⟨c, a, he, Option.some.inj hr⟩
    | _ => cases hr
  · rintro ⟨c, a, he, rfl⟩
    exact ⟨_, he, rfl⟩

/-- What the servers have applied and what they will find. -/
structure Applied (w : World) : Prop where
  nodup : (applied w.trace).Nodup
  sent_nodup : ∀ c, (w.ctx c).sent.Nodup
  sent_fresh : ∀ c r, r ∈ (w.ctx c).sent → r ∉ applied w.trace
  command : ∀ r ∈ applied w.trace, ∃ c, .command (some c) r ∈ w.trace
  ordered : (applied w.trace).Pairwise fun r r' =>
    r.caller = r'.caller → r.call ≤ r'.call ∨ .noReply r' ∈ w.trace
  answer : ∀ c a, .served c a ∈ w.trace →
    ∃ pre post, applied w.trace = pre ++ a.request :: post ∧ a = answerTo pre a.request

/-- A step that serves nothing and sends nothing. -/
theorem Applied.keep {w w' : World} (h : Applied w) {new : List Event}
    (htr : w'.trace = w.trace ++ new) (hnew : ∀ e ∈ new, ∀ c a, e ≠ .served c a)
    (hsent : ∀ c, (w'.ctx c).sent.Sublist (w.ctx c).sent) : Applied w' := by
  have happ : applied w'.trace = applied w.trace := by
    rw [htr, applied_append, applied_eq_nil hnew, List.append_nil]
  have hmem : ∀ e ∈ w.trace, e ∈ w'.trace := fun e he => htr ▸ List.mem_append_left _ he
  refine ⟨happ ▸ h.nodup, fun c => (h.sent_nodup c).sublist (hsent c), fun c r hr => ?_,
    fun r hr => ?_, ?_, fun c a hm => ?_⟩
  · rw [happ]; exact h.sent_fresh c r ((hsent c).subset hr)
  · obtain ⟨c, hc⟩ := h.command r (happ ▸ hr)
    exact ⟨c, hmem _ hc⟩
  · rw [happ]
    exact h.ordered.imp fun hp hcaller => (hp hcaller).imp_right (hmem _)
  · rw [happ]
    rw [htr, List.mem_append] at hm
    exact h.answer c a (hm.resolve_right fun hm => hnew _ hm c a rfl)

/-- A request that has not been sent before is sent. -/
theorem Applied.send {w w' : World} (h : Applied w) {c : ℕ} {r : Request}
    (htr : w'.trace = w.trace ++ [.command (some c) r])
    (hctx : ∀ c', (w'.ctx c').sent = if c' = c then (w.ctx c).sent ++ [r] else (w.ctx c').sent)
    (hfresh : ∀ c', .command (some c') r ∉ w.trace) (hsent : r ∉ (w.ctx c).sent) : Applied w' := by
  have h₁ : Applied { w with trace := w'.trace } :=
    h.keep htr (by simp) fun _ => List.Sublist.refl _
  have happ : applied w'.trace = applied w.trace := by
    have hnil : applied [.command (some c) r] = [] := applied_eq_nil (by simp)
    rw [htr, applied_append, hnil, List.append_nil]
  have hr : r ∉ applied w'.trace := fun hr => by
    obtain ⟨c', hc'⟩ := h.command r (happ ▸ hr)
    exact hfresh c' hc'
  refine ⟨h₁.nodup, fun c' => ?_, fun c' r' hr' => ?_, h₁.command, h₁.ordered, h₁.answer⟩
  · rw [hctx]
    split
    · rw [← List.concat_eq_append]
      exact List.Nodup.concat hsent (h.sent_nodup c)
    · exact h.sent_nodup c'
  · rw [hctx] at hr'
    split at hr'
    · rcases List.mem_append.mp hr' with hr' | hr'
      · exact h₁.sent_fresh c r' hr'
      · rw [List.mem_singleton.mp hr']; exact hr
    · exact h₁.sent_fresh c' r' hr'

/-- A request that waits for a server, while a later one of the same thread has
    been applied, has been given up. -/
theorem Fates.late {s : Sys} (h : Fates s) (hcalls : Calls s) (hans : Answered s)
    (hc : Contents s.st.world) {c : ℕ} {r r₀ : Request} (hr : r ∈ (s.st.world.ctx c).sent)
    (hnew : r ∉ applied s.st.world.trace) {c₀ : ℕ} (h₀ : .command (some c₀) r₀ ∈ s.st.world.trace)
    (hcaller : r₀.caller = r.caller) : r₀.call ≤ r.call ∨ .noReply r ∈ s.st.world.trace := by
  rcases h.fate c r (hc.sent c r hr) with hno | hholds | ⟨c', a, hm, ha⟩
  · exact Or.inr hno
  · left
    have hcall := (h.holds _ r hholds).2.1
    have hle := hcalls.sent c₀ r₀ h₀
    rw [hcaller] at hle
    omega
  · -- what was answered had been applied
    have hsub := (hans.returned _ _ c' a hm).2.2
    exact absurd (mem_applied.mpr ⟨c', a, hsub.subset (by simp), ha⟩) hnew

theorem Applied.serve {s : Sys} (h : Applied s.st.world) (hf : Fates s) (hcalls : Calls s)
    (hans : Answered s) (hc : Contents s.st.world) (c : ℕ) : Applied (s.st.world.serve c) := by
  rcases s.st.world.serve_cases c with ⟨-, e⟩ | ⟨r, rest, hsent, e⟩ <;> rw [e]
  · exact h
  set w := s.st.world with hw
  set a := answerTo (applied w.trace) r with ha
  have hr : r ∈ (w.ctx c).sent := by rw [hsent]; exact List.mem_cons_self
  have hnew : r ∉ applied w.trace := h.sent_fresh c r hr
  have hnodup : (r :: rest).Nodup := hsent ▸ h.sent_nodup c
  have happ : applied (w.trace ++ [.served c a]) = applied w.trace ++ [r] := applied_append _ _
  have hctx : ∀ c', (((w.setCtx c fun x =>
      { x with sent := rest, inbox := x.inbox ++ [a] }).log (.served c a)).ctx c').sent =
      if c' = c then rest else (w.ctx c').sent := by
    intro c'
    split
    · subst c'; simp
    · simp [*]
  refine ⟨?_, fun c' => ?_, fun c' r' hr' => ?_, fun r' hr' => ?_, ?_, fun c' a' hm => ?_⟩
  · show (applied (w.trace ++ [.served c a])).Nodup
    rw [happ, ← List.concat_eq_append]
    exact List.Nodup.concat hnew h.nodup
  · rw [hctx]
    split
    · exact hnodup.of_cons
    · exact h.sent_nodup c'
  · show r' ∉ applied (w.trace ++ [.served c a])
    rw [hctx] at hr'
    rw [happ, List.mem_append, List.mem_singleton, not_or]
    by_cases hcc : c' = c
    · rw [if_pos hcc] at hr'
      refine ⟨h.sent_fresh c r' (hsent ▸ List.mem_cons_of_mem r hr'), ?_⟩
      rintro rfl
      exact (List.nodup_cons.mp hnodup).1 hr'
    · rw [if_neg hcc] at hr'
      refine ⟨h.sent_fresh c' r' hr', ?_⟩
      rintro rfl
      exact hcc (hcalls.command_unique (hc.sent c' r' hr') (hc.sent c r' hr))
  · have hr'' : r' ∈ applied w.trace ++ [r] := happ ▸ hr'
    rcases List.mem_append.mp hr'' with hr'' | hr''
    · obtain ⟨c', hc'⟩ := h.command r' hr''
      exact ⟨c', List.mem_append_left _ hc'⟩
    · rw [List.mem_singleton.mp hr'']
      exact ⟨c, List.mem_append_left _ (hc.sent c r hr)⟩
  · show (applied (w.trace ++ [.served c a])).Pairwise fun r r' =>
      r.caller = r'.caller → r.call ≤ r'.call ∨ .noReply r' ∈ w.trace ++ [.served c a]
    rw [happ]
    refine List.pairwise_append.mpr ⟨h.ordered.imp fun hp hcaller =>
      (hp hcaller).imp_right (List.mem_append_left _), List.pairwise_singleton _ _, ?_⟩
    intro r₀ h₀ r' hr' hcaller
    rw [List.mem_singleton.mp hr'] at hcaller ⊢
    obtain ⟨c₀, hc₀⟩ := h.command r₀ h₀
    exact (hf.late hcalls hans hc hr hnew hc₀ hcaller).imp_right (List.mem_append_left _)
  · show ∃ pre post, applied (w.trace ++ [.served c a]) = pre ++ a'.request :: post ∧ _
    rw [happ]
    rcases List.mem_append.mp hm with hm | hm
    · obtain ⟨pre, post, happ', ha'⟩ := h.answer c' a' hm
      exact ⟨pre, post ++ [r], by rw [happ', List.append_assoc, List.cons_append], ha'⟩
    · cases List.mem_singleton.mp hm
      exact ⟨applied w.trace, [], rfl, rfl⟩

theorem Silent.applied {s s' : St} (hs : Silent s s') (h : Applied s.world) : Applied s'.world := by
  obtain ⟨new, htr, hnew⟩ := hs.trace
  refine h.keep htr (fun e he c a heq => ?_) fun c => ?_
  · have := hnew e he
    rw [heq] at this; cases this
  · rcases hs.ctx c with e | ⟨-, e, -⟩ <;> rw [e]
    exact List.nil_sublist _

/-- A write to one context that keeps or shortens what was sent on it. -/
theorem Applied.setCtx {w w' : World} (h : Applied w) {c : ℕ} {f : RedisContext → RedisContext}
    (hctx : w'.ctx = (w.setCtx c f).ctx) (hsent : (f (w.ctx c)).sent.Sublist (w.ctx c).sent)
    {new : List Event} (htr : w'.trace = w.trace ++ new)
    (hnew : ∀ e ∈ new, ∀ c a, e ≠ .served c a) : Applied w' := by
  refine h.keep htr hnew fun c' => ?_
  rw [hctx]
  by_cases hc : c' = c
  · subst hc; simpa using hsent
  · simp [hc]

theorem CmdStep.applied {env : Env} {s : Sys} {t : ℕ} {st : St} {l : Local}
    (hs : CmdStep env t s.st (s.thr t) st l) (hcalls : Calls s) (hc : Contents s.st.world)
    (h : Applied s.st.world) : Applied st.world := by
  cases hs with
  | silent hsil _ _ _ => exact hsil.applied h
  | reconnect _ => exact (Silent.of_connect (connectSingleSocket_spec env _ s.st)).applied h
  | enter _ => exact h
  | @receive _ c _ _ rest _ _ _ =>
    exact h.setCtx (f := fun x => { x with inbox := rest }) rfl (List.Sublist.refl _)
      (List.append_nil _).symm nofun
  | timeout _ _ =>
    exact h.setCtx (f := fun x => { x with err := true }) rfl (List.Sublist.refl _) rfl (by simp)
  | free _ _ =>
    exact h.setCtx (f := fun x => { x with frees := x.frees + 1 }) rfl (List.Sublist.refl _) rfl
      (by simp)
  | ret _ => exact h.keep rfl (by simp) fun c => List.Sublist.refl _
  | sendFailed _ _ =>
    exact h.setCtx (f := fun x => { x with err := true }) rfl (List.Sublist.refl _)
      (List.append_assoc _ _ _) (by simp)
  | @send p c r hpc _ _ =>
    have hfresh := hcalls.fresh hpc
    refine h.send (c := c) (r := r) rfl (fun c' => ?_) hfresh fun hr => hfresh c (hc.sent c r hr)
    split
    · subst c'; simp
    · simp [*]

theorem applied_invariant (env : Env) :
    (machine env onConnected).Invariant fun s => Applied s.st.world := by
  have hinv : (machine env onConnected).Invariant fun s => Owning s ∧ Calls s ∧
      Contents s.st.world ∧ Answered s ∧ Fates s := fun s hs => ⟨owning_invariant env s hs,
    calls_invariant env s hs, (contents_drained_invariant env s hs).1, answered_invariant env s hs,
    fates_invariant env s hs⟩
  refine Lts.invariant_of_inductive_with hinv (fun s h _ => ?_)
    fun s a s' ⟨ho, hcalls, hc, hans, hf⟩ _ ih h => ?_
  · obtain ⟨⟨config, hcreate⟩, hthr⟩ := h
    obtain ⟨c, hsilent⟩ := redisPoolCreate_silent hcreate
    refine hsilent.applied ?_
    exact ⟨List.nodup_nil, fun _ => List.nodup_nil, nofun, nofun, List.Pairwise.nil, nofun⟩
  · cases SysStep.of_eq h with
    | @call t api st l hidle _ hcall =>
      have hstep : ThreadStep env t s.st (s.thr t) st l := Or.inl ⟨hidle, api, hcall⟩
      exact (hstep.cmdStep (ho.uses t)).applied hcalls hc ih
    | @step t st l hstep => exact (hstep.cmdStep (ho.uses t)).applied hcalls hc ih
    | serve c => exact ih.serve hf hcalls hans hc c
    | drop c =>
      exact ih.setCtx (f := fun x => { x with sent := x.sent.tail }) rfl (List.tail_sublist _)
        (List.append_nil _).symm nofun
    | lose c =>
      exact ih.setCtx (f := fun x => { x with inbox := x.inbox.tail }) rfl (List.Sublist.refl _)
        (List.append_nil _).symm nofun

end Hiredispool.Threads
