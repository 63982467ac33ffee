import Hiredispool.Threads.Commands

/-!
# Replies never cross between callers

A context that no thread waits on is broken (`err`) or drained: nothing sent on
it is unanswered and no answer is unread. A thread waits on a context that holds
at most its own request or its answer. Broken contexts do stay in connected
sockets (line 510), but `redisvCommand` sends nothing on them.

* `contents_drained_invariant`: the two invariants, `answered_invariant` what follows.
* `replies_match`: a returned reply is the server's answer to the request that
  the same call sent on that context; a call sends its command at most twice,
  the second time on a context opened after the first one was freed.
-/

namespace Hiredispool.Threads

open Hiredispool.Pool

/-! ## What the contexts hold -/

/-- Requests and answers on the contexts have a history. -/
structure Contents (w : World) : Prop where
  beyond : ∀ c, w.nctx ≤ c → (w.ctx c).sent = [] ∧ (w.ctx c).inbox = []
  sent : ∀ c r, r ∈ (w.ctx c).sent → Event.command (some c) r ∈ w.trace
  inbox : ∀ c a, a ∈ (w.ctx c).inbox →
    [Event.command (some c) a.request, .served c a].Sublist w.trace

/-- A step that adds to `sent` and `inbox` only what it records. -/
theorem Contents.step {w w' : World} (h : Contents w) (htr : w.trace.Sublist w'.trace)
    (hbeyond : ∀ c, w'.nctx ≤ c → (w'.ctx c).sent = [] ∧ (w'.ctx c).inbox = [])
    (hsent : ∀ c r, r ∈ (w'.ctx c).sent → r ∈ (w.ctx c).sent ∨ Event.command (some c) r ∈ w'.trace)
    (hinbox : ∀ c a, a ∈ (w'.ctx c).inbox → a ∈ (w.ctx c).inbox ∨
      [Event.command (some c) a.request, .served c a].Sublist w'.trace) : Contents w' where
  beyond := hbeyond
  sent c r hr := (hsent c r hr).elim (fun hr => htr.subset (h.sent c r hr)) id
  inbox c a ha := (hinbox c a ha).elim (fun ha => (h.inbox c a ha).trans htr) id

/-- A step that empties contexts, or does not touch them. -/
theorem Contents.of_subset {w w' : World} (h : Contents w) (htr : w.trace.Sublist w'.trace)
    (hn : w.nctx ≤ w'.nctx) (hsent : ∀ c, (w'.ctx c).sent ⊆ (w.ctx c).sent)
    (hinbox : ∀ c, (w'.ctx c).inbox ⊆ (w.ctx c).inbox) : Contents w' := by
  refine h.step htr (fun c hc => ?_) (fun c r hr => Or.inl (hsent c hr))
    (fun c a ha => Or.inl (hinbox c ha))
  obtain ⟨h1, h2⟩ := h.beyond c (hn.trans hc)
  exact ⟨List.subset_nil.mp (h1 ▸ hsent c), List.subset_nil.mp (h2 ▸ hinbox c)⟩

theorem Silent.contents {s s' : St} (hs : Silent s s') (h : Contents s.world) :
    Contents s'.world := by
  obtain ⟨new, htr, -⟩ := hs.trace
  refine h.of_subset (htr ▸ List.sublist_append_left _ _) hs.nctx (fun c => ?_) (fun c => ?_)
  · rcases hs.ctx c with e | ⟨-, e, -⟩ <;> rw [e]
    · exact List.Subset.refl _
    · exact List.nil_subset _
  · rcases hs.ctx c with e | ⟨-, -, e⟩ <;> rw [e]
    · exact List.Subset.refl _
    · exact List.nil_subset _

/-- A write to one context that keeps or shortens its two queues. -/
theorem Contents.setCtx {w w' : World} (h : Contents w) {c : ℕ} {f : RedisContext → RedisContext}
    (hctx : w'.ctx = (w.setCtx c f).ctx) (hn : w'.nctx = w.nctx)
    (htr : w.trace.Sublist w'.trace) (hsent : (f (w.ctx c)).sent ⊆ (w.ctx c).sent)
    (hinbox : (f (w.ctx c)).inbox ⊆ (w.ctx c).inbox) : Contents w' := by
  refine h.of_subset htr hn.ge (fun c' => ?_) (fun c' => ?_) <;> rw [hctx]
  · by_cases hc : c' = c
    · subst hc; simpa using hsent
    · simp [hc]
  · by_cases hc : c' = c
    · subst hc; simpa using hinbox
    · simp [hc]

theorem Contents.serve {w : World} (h : Contents w) (c : ℕ) : Contents (w.serve c) := by
  rcases w.serve_cases c with ⟨-, e⟩ | ⟨r, rest, hsent, e⟩ <;> rw [e]
  · exact h
  have hr := h.sent c r (by rw [hsent]; exact List.mem_cons_self)
  refine h.step (List.sublist_append_left _ _) (fun c' hc' => ?_) (fun c' r' hr' => ?_)
    (fun c' a ha => ?_)
  · have hne : c' ≠ c := fun e => by
      have := (h.beyond c' hc').1
      rw [e, hsent] at this; cases this
    simpa [World.setCtx, hne] using h.beyond c' hc'
  · by_cases hc : c' = c
    · subst hc
      left
      rw [hsent]
      exact List.mem_cons_of_mem r (by simpa [World.setCtx] using hr')
    · left; simpa [World.setCtx, hc] using hr'
  · by_cases hc : c' = c
    · subst hc
      have ha' : a ∈ (w.ctx c').inbox ∨ a = answerTo (applied w.trace) r := by
        simpa [World.setCtx] using ha
      refine ha'.imp_right fun ha' => ?_
      subst ha'
      exact (List.singleton_sublist.mpr hr).append (List.Sublist.refl [_])
    · left; simpa [World.setCtx, hc] using ha

theorem CmdStep.contents {env : Env} {t : ℕ} {s s' : St} {l l' : Local}
    (h : CmdStep env t s l s' l') (hlt : ∀ p c, (s.sock p).conn = some c → c < s.world.nctx)
    (hc : Contents s.world) : Contents s'.world := by
  cases h with
  | silent h _ _ _ => exact h.contents hc
  | enter _ => exact hc
  | reconnect _ => exact (Silent.of_connect (connectSingleSocket_spec env _ s)).contents hc
  | ret _ =>
    exact hc.of_subset (List.sublist_append_left _ _) le_rfl (fun _ => List.Subset.refl _)
      fun _ => List.Subset.refl _
  | free _ _ =>
    exact hc.setCtx (f := fun x => { x with frees := x.frees + 1 }) rfl rfl
      (List.sublist_append_left _ _) (List.Subset.refl _) (List.Subset.refl _)
  | timeout _ _ =>
    exact hc.setCtx (f := fun x => { x with err := true }) rfl rfl
      (List.sublist_append_left _ _) (List.Subset.refl _) (List.Subset.refl _)
  | sendFailed _ _ =>
    refine hc.setCtx (f := fun x => { x with err := true }) rfl rfl ?_ (List.Subset.refl _)
      (List.Subset.refl _)
    exact (List.sublist_append_left _ _).trans (List.sublist_append_left _ _)
  | @receive p c r a rest _ _ hi =>
    refine hc.setCtx (f := fun x => { x with inbox := rest }) rfl rfl (List.Sublist.refl _)
      (List.Subset.refl _) ?_
    rw [hi]
    exact List.subset_cons_self _ _
  | @send p c r _ hp _ =>
    refine hc.step (List.sublist_append_left _ _) (fun c' hc' => ?_) (fun c' r' hr' => ?_)
      (fun c' a ha => ?_)
    · have hne : c' ≠ c := by
        have := hlt p c hp
        have : s.world.nctx ≤ c' := hc'
        omega
      simpa [hne] using hc.beyond c' hc'
    · by_cases he : c' = c
      · subst he
        have hr'' : r' ∈ (s.world.ctx c').sent ∨ r' = r := by simpa using hr'
        exact hr''.imp_right fun e => by simp [e]
      · left; simpa [he] using hr'
    · left
      by_cases he : c' = c
      · subst he; simpa using ha
      · simpa [he] using ha

/-! ## Broken or drained -/

/-- The requests on `c` whose answers have not been read. -/
def pending (w : World) (c : ℕ) : List Request :=
  (w.ctx c).sent ++ (w.ctx c).inbox.map Reply.request

theorem pending_congr {w w' : World} {c : ℕ} (hs : (w'.ctx c).sent = (w.ctx c).sent)
    (hi : (w'.ctx c).inbox = (w.ctx c).inbox) : pending w' c = pending w c := by
  rw [pending, pending, hs, hi]

/-- What the threads may rely on when they send on a context or read from it. -/
structure Drained (s : Sys) : Prop where
  waiting : ∀ t p c r, (s.thr t).pc = .cmdWait p c r →
    pending s.st.world c = [] ∨ pending s.st.world c = [r]
  idle : ∀ p c, (s.st.sock p).conn = some c → (∀ t r, (s.thr t).pc ≠ .cmdWait p c r) →
    (s.st.world.ctx c).err = true ∨ pending s.st.world c = []

/-- While the thread that works on a socket does not wait, nobody waits on its context. -/
theorem not_waiting {s : Sys} (hx : Exclusive s) {t p : ℕ} (htgt : (s.thr t).pc.target = some p)
    (ht : ∀ c r, (s.thr t).pc ≠ .cmdWait p c r) (u c : ℕ) (r : Request) :
    (s.thr u).pc ≠ .cmdWait p c r := by
  intro hu
  have hut : u = t := hx.agree.unique
    (Local.held_subset (hx.target u p (by rw [hu]; rfl))) (Local.held_subset (hx.target t p htgt))
  exact ht c r (hut ▸ hu)

/-- A step of a thread that does not wait, before and after, and that leaves the
    contexts in use alone. -/
theorem Drained.still {s : Sys} (h : Drained s) (ho : Owning s) {t : ℕ} {st : St} {l : Local}
    (hctx : ∀ c, c < s.st.world.nctx → (st.world.ctx c).err = (s.st.world.ctx c).err ∧
      pending st.world c = pending s.st.world c)
    (hconn : ∀ p c, (st.sock p).conn = some c → (s.st.sock p).conn = some c ∨
      pending st.world c = [])
    (ht : ∀ p c r, (s.thr t).pc ≠ .cmdWait p c r) (hl : ∀ p c r, l.pc ≠ .cmdWait p c r) :
    Drained (s.put t (st, l)) where
  waiting u p c r hpc := by
    have hut : u ≠ t := fun e => by
      subst e; rw [Sys.put_thr_self] at hpc; exact hl p c r hpc
    rw [Sys.put_thr_of_ne s t (st, l) hut] at hpc
    have hc : (s.st.sock p).conn = some c := by
      have := ho.uses u
      simpa only [Local.Uses, hpc] using this
    rw [Sys.put_st, (hctx c (ho.owned.table.lt p c hc)).2]
    exact h.waiting u p c r hpc
  idle p c hc hno := by
    rcases hconn p c hc with hc | hempty
    · have hlt := hctx c (ho.owned.table.lt p c hc)
      rw [Sys.put_st, hlt.1, hlt.2]
      refine h.idle p c hc fun u r hpc => ?_
      have hut : u ≠ t := fun e => by subst e; exact ht p c r hpc
      have := hno u r
      rw [Sys.put_thr_of_ne s t (st, l) hut] at this
      exact this hpc
    · exact Or.inr hempty

/-- A step of a command that changes nothing but the context of its socket. -/
theorem Drained.focus {s : Sys} (h : Drained s) (hx : Exclusive s) (ho : Owning s) {t p c : ℕ}
    {st : St} {l : Local} (htgt : (s.thr t).pc.target = some p)
    (hc : (s.st.sock p).conn = some c) (hsock : st.sock = s.st.sock)
    (hctx : ∀ c', c' ≠ c → st.world.ctx c' = s.st.world.ctx c')
    (hwait : ∀ q c' r, l.pc = .cmdWait q c' r →
      q = p ∧ c' = c ∧ (pending st.world c = [] ∨ pending st.world c = [r]))
    (hidle : (∀ r, l.pc ≠ .cmdWait p c r) →
      (st.world.ctx c).err = true ∨ pending st.world c = []) :
    Drained (s.put t (st, l)) := by
  -- other threads wait on other contexts
  have hother : ∀ u q c' r, u ≠ t → (s.thr u).pc = .cmdWait q c' r → q ≠ p ∧ c' ≠ c := by
    intro u q c' r hut hpc
    have hq : (s.st.sock q).conn = some c' := by
      have := ho.uses u
      simpa only [Local.Uses, hpc] using this
    have hne : q ≠ p := fun e => hut <| by
      subst e
      exact hx.agree.unique (Local.held_subset (hx.target u q (by rw [hpc]; rfl)))
        (Local.held_subset (hx.target t q htgt))
    exact ⟨hne, fun e => hne (ho.owned.table.inj q p c (e ▸ hq) hc)⟩
  refine ⟨fun u q c' r hpc => ?_, fun q c' hq hno => ?_⟩
  · by_cases hut : u = t
    · subst hut
      rw [Sys.put_thr_self] at hpc
      obtain ⟨rfl, rfl, hp⟩ := hwait q c' r hpc
      exact hp
    · rw [Sys.put_thr_of_ne s t (st, l) hut] at hpc
      have hne := (hother u q c' r hut hpc).2
      have hp : pending st.world c' = pending s.st.world c' :=
        pending_congr (by rw [hctx c' hne]) (by rw [hctx c' hne])
      rw [Sys.put_st, hp]
      exact h.waiting u q c' r hpc
  · rw [Sys.put_st, hsock] at hq
    by_cases hqp : q = p
    · subst hqp
      obtain rfl : c = c' := Option.some.inj (hc.symm.trans hq)
      refine hidle fun r hpc => hno t r ?_
      rw [Sys.put_thr_self]; exact hpc
    · have hne : c' ≠ c := fun e => hqp (ho.owned.table.inj q p c (e ▸ hq) hc)
      have hp : pending st.world c' = pending s.st.world c' :=
        pending_congr (by rw [hctx c' hne]) (by rw [hctx c' hne])
      rw [Sys.put_st, hp, hctx c' hne]
      refine h.idle q c' hq fun u r hpc => ?_
      by_cases hut : u = t
      · subst hut
        have : (s.thr u).pc.target = some q := by rw [hpc]; rfl
        exact hqp (Option.some.inj (this.symm.trans htgt))
      · have := hno u r
        rw [Sys.put_thr_of_ne s t (st, l) hut] at this
        exact this hpc

theorem onNoReply_ne_wait (p : ℕ) (c : Option ℕ) (r : Request) (q c' : ℕ) (r' : Request) :
    onNoReply p c r ≠ .cmdWait q c' r' := by
  unfold onNoReply; split <;> simp

/-- A step that leaves the contexts in the list alone, by a thread that does not wait
    for an answer. -/
theorem Drained.silent {s : Sys} {t : ℕ} {st : St} {l : Local} (h : Drained s) (ho : Owning s)
    (hc : Contents s.st.world) (hsil : Silent s.st st)
    (ht : ∀ p c r, (s.thr t).pc ≠ .cmdWait p c r) (hl : ∀ p c r, l.pc ≠ .cmdWait p c r) :
    Drained (s.put t (st, l)) := by
  refine h.still ho (fun c hlt => ?_) (fun p c hp => ?_) ht hl
  · have e : st.world.ctx c = s.st.world.ctx c := (hsil.ctx c).resolve_right (by omega)
    exact ⟨by rw [e], pending_congr (by rw [e]) (by rw [e])⟩
  · rcases hsil.conn p with e | e | ⟨c', e, hge⟩
    · exact Or.inl (e ▸ hp)
    · rw [e] at hp; cases hp
    · obtain rfl : c' = c := Option.some.inj (e.symm.trans hp)
      right
      unfold pending
      rcases hsil.ctx c' with e' | ⟨-, h1, h2⟩
      · obtain ⟨h1, h2⟩ := hc.beyond c' hge
        rw [e', h1, h2]; rfl
      · rw [h1, h2]; rfl

theorem CmdStep.drained {env : Env} {s : Sys} {t : ℕ} {st : St} {l : Local}
    (hs : CmdStep env t s.st (s.thr t) st l) (hx : Exclusive s) (ho : Owning s)
    (hc : Contents s.st.world) (h : Drained s) : Drained (s.put t (st, l)) := by
  have of_target : ∀ {pc : Pc}, pc.target = none → ∀ p c r, pc ≠ .cmdWait p c r := by
    rintro pc htgt p c r rfl
    cases htgt
  cases hs with
  | silent hsil ht hl _ => exact h.silent ho hc hsil (of_target ht) (of_target hl)
  | enter hidle => exact h.silent ho hc (.refl _) (by simp [hidle]) (by simp)
  | @reconnect p r hpc =>
    refine h.silent ho hc (.of_connect (connectSingleSocket_spec env p s.st)) (by simp [hpc]) ?_
    dsimp only
    split <;> simp
  | ret hpc =>
    exact h.still ho (fun _ _ => ⟨rfl, rfl⟩) (fun _ _ => Or.inl) (by simp [hpc]) (of_target rfl)
  | @send p c r hpc hp herr =>
    refine h.focus hx ho (by rw [hpc]; rfl) hp rfl (fun c' hne => by simp [hne]) ?_ ?_
    · rintro q c' r' e
      cases e
      -- nobody waits on `c`: it is drained
      have hempty : pending s.st.world c = [] := by
        have hno := not_waiting hx (t := t) (p := p) (by rw [hpc]; rfl) (by simp [hpc])
        exact (h.idle p c hp fun u => hno u c).resolve_left (by simp [herr])
      refine ⟨rfl, rfl, Or.inr ?_⟩
      obtain ⟨h1, h2⟩ := List.append_eq_nil_iff.mp hempty
      simp [pending, h1, List.map_eq_nil_iff.mp h2]
    · exact fun hno => absurd rfl (hno r)
  | @receive p c r a rest hpc hp hi =>
    refine h.focus hx ho (by rw [hpc]; rfl) hp rfl (fun c' hne => by simp [hne]) (by simp) ?_
    intro _
    right
    have hone := h.waiting t p c r hpc
    simp only [pending, hi, List.map_cons] at hone
    have hlen : ((s.st.world.ctx c).sent ++ a.request :: rest.map Reply.request).length ≤ 1 := by
      rcases hone with e | e <;> rw [e] <;> simp
    simp only [List.length_append, List.length_cons, List.length_map] at hlen
    have h1 : (s.st.world.ctx c).sent = [] := List.length_eq_zero_iff.mp (by omega)
    have h2 : rest = [] := List.length_eq_zero_iff.mp (by omega)
    simp [pending, h1, h2]
  | @sendFailed p c r hpc hp | @timeout p c r hpc hp =>
    refine h.focus hx ho (by rw [hpc]; rfl) hp rfl (fun c' hne => by simp [World.setErr, hne]) ?_ ?_
    · exact fun q c' r' e => absurd e (onNoReply_ne_wait _ _ _ _ _ _)
    · exact fun _ => Or.inl (by simp [World.setErr])
  | @free p c r hpc hp =>
    refine h.focus hx ho (by rw [hpc]; rfl) hp rfl (fun c' hne => by simp [World.redisFree, hne])
      (by simp) fun _ => ?_
    have hno := not_waiting hx (t := t) (p := p) (by rw [hpc]; rfl) (by simp [hpc])
    simpa [World.redisFree, pending] using h.idle p c hp fun u => hno u c

/-- Serving moves a request to the answers. -/
theorem pending_serve_perm (w : World) (c c' : ℕ) :
    (pending (w.serve c) c').Perm (pending w c') := by
  rcases w.serve_cases c with ⟨-, e⟩ | ⟨r, rest, hsent, e⟩ <;> rw [e]
  by_cases hc : c' = c
  · subst hc
    simp only [pending, World.log_ctx, World.setCtx_self, hsent, List.map_append, List.map_cons,
      answerTo_request, List.map_nil, ← List.append_assoc, List.cons_append]
    exact List.perm_append_singleton _ _
  · exact List.Perm.of_eq (pending_congr (by simp [hc]) (by simp [hc]))

theorem pending_drop_sublist (w : World) (c c' : ℕ) :
    (pending (w.drop c) c').Sublist (pending w c') := by
  by_cases hc : c' = c
  · subst hc
    simp only [pending, World.drop, World.setCtx_self]
    exact (List.tail_sublist _).append_right _
  · have hctx : (w.drop c).ctx c' = w.ctx c' := World.setCtx_of_ne w c _ hc
    have h : pending (w.drop c) c' = pending w c' := pending_congr (by rw [hctx]) (by rw [hctx])
    exact h ▸ List.Sublist.refl _

theorem pending_lose_sublist (w : World) (c c' : ℕ) :
    (pending (w.lose c) c').Sublist (pending w c') := by
  by_cases hc : c' = c
  · subst hc
    simp only [pending, World.lose, World.setCtx_self, List.map_tail]
    exact (List.tail_sublist _).append_left _
  · have hctx : (w.lose c).ctx c' = w.ctx c' := World.setCtx_of_ne w c _ hc
    have h : pending (w.lose c) c' = pending w c' := pending_congr (by rw [hctx]) (by rw [hctx])
    exact h ▸ List.Sublist.refl _

/-- The servers and the network only take away from what is pending. -/
theorem Drained.outside {s : Sys} (h : Drained s) {f : World → World}
    (herr : ∀ c, ((f s.st.world).ctx c).err = (s.st.world.ctx c).err)
    (hpend : ∀ c, (pending (f s.st.world) c).Subperm (pending s.st.world c)) :
    Drained (s.outside f) := by
  have hnil : ∀ c, pending s.st.world c = [] → pending (f s.st.world) c = [] := by
    intro c hc
    have := hpend c
    rw [hc] at this
    exact List.subperm_nil.mp this
  refine ⟨fun t p c r hpc => ?_, fun p c hc hno => ?_⟩
  · rcases h.waiting t p c r hpc with e | e
    · exact Or.inl (hnil c e)
    · have := hpend c
      rw [e] at this
      rcases Nat.eq_zero_or_pos (pending (f s.st.world) c).length with h0 | h0
      · exact Or.inl (List.length_eq_zero_iff.mp h0)
      · exact Or.inr (this.perm_of_length_le h0).eq_singleton
  · exact (h.idle p c hc hno).imp (fun e => (herr c).trans e) (hnil c)

theorem serve_err (w : World) (c c' : ℕ) : ((w.serve c).ctx c').err = (w.ctx c').err := by
  rcases w.serve_cases c with ⟨-, e⟩ | ⟨r, rest, -, e⟩ <;> rw [e]
  by_cases hc : c' = c
  · subst hc; simp
  · simp [hc]

theorem contents_drained_invariant (env : Env) :
    (machine env onConnected).Invariant fun s => Contents s.st.world ∧ Drained s := by
  have hinv : (machine env onConnected).Invariant fun s => Exclusive s ∧ Owning s :=
    fun s hs => ⟨exclusive_invariant env _ s hs, owning_invariant env s hs⟩
  refine Lts.invariant_of_inductive_with hinv (fun s h _ => ?_)
    fun s a s' ⟨hx, ho⟩ _ ⟨hc, hd⟩ h => ?_
  · obtain ⟨⟨config, hcreate⟩, hthr⟩ := h
    obtain ⟨c, hsilent⟩ := redisPoolCreate_silent hcreate
    have hempty : ∀ c, (s.st.world.ctx c).sent = [] ∧ (s.st.world.ctx c).inbox = [] := by
      intro c
      rcases hsilent.ctx c with e | ⟨-, h⟩
      · rw [e]; exact ⟨rfl, rfl⟩
      · exact h
    refine ⟨⟨fun c _ => hempty c, fun c r hr => ?_, fun c a ha => ?_⟩,
      ⟨fun t p c r hpc => ?_, fun p c _ _ => Or.inr (by simp [pending, hempty c])⟩⟩
    · rw [(hempty c).1] at hr; cases hr
    · rw [(hempty c).2] at ha; cases ha
    · rw [hthr t] at hpc; cases hpc
  · have hlt := ho.owned.table.lt
    cases SysStep.of_eq h with
    | @call t api st l hidle _ hcall =>
      have hstep : ThreadStep env t s.st (s.thr t) st l := Or.inl ⟨hidle, api, hcall⟩
      have hcmd := hstep.cmdStep (ho.uses t)
      exact ⟨hcmd.contents hlt hc, hcmd.drained hx ho hc hd⟩
    | @step t st l hstep =>
      have hcmd := hstep.cmdStep (ho.uses t)
      exact ⟨hcmd.contents hlt hc, hcmd.drained hx ho hc hd⟩
    | serve c =>
      exact ⟨hc.serve c, hd.outside (serve_err _ c) fun c' => (pending_serve_perm _ c c').subperm⟩
    | drop c =>
      refine ⟨hc.setCtx rfl rfl (List.Sublist.refl _) (List.tail_subset _) (List.Subset.refl _),
        hd.outside (fun c' => ?_) fun c' => (pending_drop_sublist _ c c').subperm⟩
      by_cases he : c' = c
      · subst he; simp [World.drop]
      · simp [World.drop, he]
    | lose c =>
      refine ⟨hc.setCtx rfl rfl (List.Sublist.refl _) (List.Subset.refl _) (List.tail_subset _),
        hd.outside (fun c' => ?_) fun c' => (pending_lose_sublist _ c c').subperm⟩
      by_cases he : c' = c
      · subst he; simp [World.lose]
      · simp [World.lose, he]

/-! ## What is returned -/

/-- `a` was read from `c` by call `k` of `t`: it is the answer to the request
    that this call sent on `c`. -/
def Answers (tr : List Event) (t k c : ℕ) (a : Reply) : Prop :=
  a.request.caller = t ∧ a.request.call = k ∧
    [Event.command (some c) a.request, .served c a].Sublist tr

/-- Replies about to be returned, and returned ones, answer their call. -/
structure Answered (s : Sys) : Prop where
  reply : ∀ t p c a, (s.thr t).pc = .cmdReturn p (some (c, a)) →
    Answers s.st.world.trace t (s.thr t).calls c a
  returned : ∀ t k c a, .returned t k (some (c, a)) ∈ s.st.world.trace →
    a.request.caller = t ∧ a.request.call = k ∧
      [Event.command (some c) a.request, .served c a, .returned t k (some (c, a))].Sublist
        s.st.world.trace

theorem Answers.mono {tr tr' : List Event} {t k c : ℕ} {a : Reply} (h : Answers tr t k c a)
    (htr : tr.Sublist tr') : Answers tr' t k c a :=
  ⟨h.1, h.2.1, h.2.2.trans htr⟩

/-- What a waiting thread reads is all that is pending on its context. -/
theorem Drained.read {s : Sys} (h : Drained s) {t p c : ℕ} {r : Request} {a : Reply}
    {rest : List Reply} (hwait : (s.thr t).pc = .cmdWait p c r)
    (hi : (s.st.world.ctx c).inbox = a :: rest) : a.request = r := by
  have hmem : a.request ∈ pending s.st.world c := by simp [pending, hi]
  rcases h.waiting t p c r hwait with e | e <;> rw [e] at hmem
  · cases hmem
  · exact List.mem_singleton.mp hmem

/-- A step gives its thread no reply but the one it reads. -/
theorem CmdStep.reply {env : Env} {s : Sys} {t : ℕ} {st : St} {l : Local}
    (hs : CmdStep env t s.st (s.thr t) st l) (hcalls : Calls s) (hc : Contents s.st.world)
    (hd : Drained s) {p c : ℕ} {a : Reply} (hpc : l.pc = .cmdReturn p (some (c, a))) :
    Answers st.world.trace t l.calls c a := by
  cases hs with
  | silent _ _ hl _ => rw [hpc] at hl; cases hl
  | enter _ | send _ _ _ | free _ _ | ret _ => cases hpc
  | sendFailed _ _ | timeout _ _ =>
    simp only [onNoReply] at hpc
    split at hpc <;> cases hpc
  | reconnect _ =>
    dsimp only at hpc
    split at hpc <;> cases hpc
  | @receive q c' r a' rest hwait hconn hi =>
    cases hpc
    have hr : a.request = r := hd.read hwait hi
    obtain ⟨h1, h2, -⟩ := (hcalls.names t).request r (by rw [hwait]; rfl)
    exact ⟨hr ▸ h1, hr ▸ h2, hc.inbox c a (by rw [hi]; exact List.mem_cons_self)⟩

theorem CmdStep.returned_mem {env : Env} {t : ℕ} {s s' : St} {l l' : Local}
    (h : CmdStep env t s l s' l') {u k : ℕ} {r : Option CtxReply}
    (hm : .returned u k r ∈ s'.world.trace) : .returned u k r ∈ s.world.trace ∨
      u = t ∧ k = l.calls ∧ s'.world.trace = s.world.trace ++ [.returned u k r] ∧
        ∃ p, l.pc = .cmdReturn p r := by
  have silent : ∀ {s' : St}, Silent s s' → .returned u k r ∈ s'.world.trace →
      .returned u k r ∈ s.world.trace := by
    intro s' hs hm
    obtain ⟨new, htr, hnew⟩ := hs.trace
    rw [htr, List.mem_append] at hm
    exact hm.resolve_right fun hm => absurd (hnew _ hm) (by simp [Event.silent])
  cases h with
  | silent h _ _ _ => exact Or.inl (silent h hm)
  | reconnect _ => exact Or.inl (silent (.of_connect (connectSingleSocket_spec env _ s)) hm)
  | enter _ | receive _ _ _ => exact Or.inl hm
  | send _ _ _ | timeout _ _ | free _ _ =>
    rcases List.mem_append.mp hm with hm | hm
    · exact Or.inl hm
    · cases List.mem_singleton.mp hm
  | sendFailed _ _ => exact Or.inl (by simpa [World.setErr] using hm)
  | ret hpc =>
    rcases List.mem_append.mp hm with hm | hm
    · exact Or.inl hm
    · cases List.mem_singleton.mp hm
      exact Or.inr ⟨rfl, rfl, rfl, _, hpc⟩

theorem Answered.put {env : Env} {s : Sys} (h : Answered s) {t : ℕ} {st : St} {l : Local}
    (hs : CmdStep env t s.st (s.thr t) st l) (hcalls : Calls s) (hc : Contents s.st.world)
    (hd : Drained s) : Answered (s.put t (st, l)) := by
  obtain ⟨new, htr⟩ := hs.trace
  have hsub : s.st.world.trace.Sublist st.world.trace := htr ▸ List.sublist_append_left _ _
  refine ⟨fun u p c a hpc => ?_, fun u k c a hm => ?_⟩
  · by_cases hu : u = t
    · subst hu
      rw [Sys.put_thr_self] at hpc ⊢
      exact hs.reply hcalls hc hd hpc
    · rw [Sys.put_thr_of_ne s t (st, l) hu] at hpc ⊢
      exact (h.reply u p c a hpc).mono hsub
  · rcases hs.returned_mem hm with hm | ⟨rfl, rfl, htr', p, hpc⟩
    · obtain ⟨h1, h2, h3⟩ := h.returned u k c a hm
      exact ⟨h1, h2, h3.trans hsub⟩
    · obtain ⟨h1, h2, h3⟩ := h.reply u p c a hpc
      refine ⟨h1, h2, ?_⟩
      rw [Sys.put_st, htr']
      exact h3.append (List.Sublist.refl [_])

theorem answered_invariant (env : Env) : (machine env onConnected).Invariant Answered := by
  have hinv : (machine env onConnected).Invariant fun s => Owning s ∧ Calls s ∧
      Contents s.st.world ∧ Drained s := fun s hs => ⟨owning_invariant env s hs,
    calls_invariant env s hs, contents_drained_invariant env s hs⟩
  refine Lts.invariant_of_inductive_with hinv (fun s h _ => ?_)
    fun s a s' ⟨ho, hcalls, hc, hd⟩ _ ih h => ?_
  · obtain ⟨⟨config, hcreate⟩, hthr⟩ := h
    obtain ⟨c, hsilent⟩ := redisPoolCreate_silent hcreate
    obtain ⟨new, htr, hnew⟩ := hsilent.trace
    refine ⟨fun t p c a hpc => ?_, fun t k c a hm => ?_⟩
    · rw [hthr t] at hpc; cases hpc
    · rw [htr] at hm
      exact absurd (hnew _ hm) (by simp [Event.silent])
  · cases SysStep.of_eq h with
    | @call t api st l hidle _ hcall =>
      have hstep : ThreadStep env t s.st (s.thr t) st l := Or.inl ⟨hidle, api, hcall⟩
      exact ih.put (hstep.cmdStep (ho.uses t)) hcalls hc hd
    | @step t st l hstep => exact ih.put (hstep.cmdStep (ho.uses t)) hcalls hc hd
    | serve c =>
      rcases s.st.world.serve_cases c with ⟨-, e⟩ | ⟨r, rest, -, e⟩
      · exact ⟨by rw [Sys.outside, e]; exact ih.reply, by rw [Sys.outside, e]; exact ih.returned⟩
      · have hsub : s.st.world.trace.Sublist (s.outside (World.serve c)).st.world.trace := by
          rw [Sys.outside, e]; exact List.sublist_append_left _ _
        refine ⟨fun t p c a hpc => (ih.reply t p c a hpc).mono hsub, fun t k c a hm => ?_⟩
        have hm' : .returned t k (some (c, a)) ∈ s.st.world.trace := by
          rw [Sys.outside, e] at hm
          simpa using hm
        obtain ⟨h1, h2, h3⟩ := ih.returned t k c a hm'
        exact ⟨h1, h2, h3.trans hsub⟩
    | drop c | lose c => exact ⟨ih.reply, ih.returned⟩

/-! ## Main theorem -/

/-- Whether an event is a command of call `k` of thread `t`. -/
def isCommandOf (t k : ℕ) : Event → Bool
  | .command _ r => r.caller = t ∧ r.call = k
  | _ => false

/-- Three commands of one call do not fit: the second would be a retry and a first attempt. -/
theorem Calls.count_le_two {s : Sys} (h : Calls s) (t k : ℕ) :
    s.st.world.trace.countP (isCommandOf t k) ≤ 2 := by
  rw [List.countP_eq_length_filter]
  have hpw := h.pairs.filter (isCommandOf t k)
  have hof : ∀ e ∈ s.st.world.trace.filter (isCommandOf t k),
      ∃ c r, e = .command (some c) r ∧ r.caller = t ∧ r.call = k := by
    intro e he
    obtain ⟨hm, hp⟩ := List.mem_filter.mp he
    cases e with
    | command oc r =>
      cases oc with
      | none => exact absurd hm (h.nonnull r)
      | some c => exact ⟨c, r, rfl, of_decide_eq_true hp⟩
    | _ => cases hp
  match hl : s.st.world.trace.filter (isCommandOf t k) with
  | [] | [_] | [_, _] => simp
  | e₁ :: e₂ :: e₃ :: rest =>
    rw [hl] at hpw hof
    obtain ⟨c₁, r₁, rfl, ht₁, hk₁⟩ := hof e₁ (by simp)
    obtain ⟨c₂, r₂, rfl, ht₂, hk₂⟩ := hof e₂ (by simp)
    obtain ⟨c₃, r₃, rfl, ht₃, hk₃⟩ := hof e₃ (by simp)
    rw [List.pairwise_cons, List.pairwise_cons] at hpw
    obtain ⟨-, hretry, -⟩ := hpw.1 _ (List.mem_cons_self) _ _ _ _ rfl rfl (ht₁.trans ht₂.symm)
      (hk₁.trans hk₂.symm)
    obtain ⟨hfirst, -, -⟩ := hpw.2.1 _ (List.mem_cons_self) _ _ _ _ rfl rfl (ht₂.trans ht₃.symm)
      (hk₂.trans hk₃.symm)
    rw [hretry] at hfirst
    exact absurd hfirst (Nat.succ_ne_zero _)

/-- **Replies never cross between callers.** Any number of threads run
    `RedisClient::redisvCommand` on one pool, in any interleaving, with any
    timeouts, lost or late answers, failures and reconnects. A reply that call
    `k` of thread `t` returns is the server's answer to the request that this
    call sent on the context it read from; a call sends its command at most
    twice, the second time as the retry of the first, on another context that
    was opened after the first one was freed. -/
theorem replies_match (env : Env) (s : Sys) (hs : (machine env redisClient).Reachable s) :
    (∀ t k c a, .returned t k (some (c, a)) ∈ s.st.world.trace →
        a.request.caller = t ∧ a.request.call = k ∧
          [Event.command (some c) a.request, .served c a, .returned t k (some (c, a))].Sublist
            s.st.world.trace) ∧
      (∀ t k, s.st.world.trace.countP (isCommandOf t k) ≤ 2) ∧
      (∀ oc r oc' r', [Event.command oc r, .command oc' r'].Sublist s.st.world.trace →
        r.caller = r'.caller → r.call = r'.call → r' = r.retry ∧ ∃ c c' p ep, oc = some c ∧
          oc' = some c' ∧ [Event.command (some c) r, .free c, .connect p ep (some c'),
            .command (some c') r'].Sublist s.st.world.trace) := by
  have hs' := reachable_onConnected (reachable_stopAfterNull hs)
  have hcalls := calls_invariant env s hs'
  refine ⟨(answered_invariant env s hs').returned, hcalls.count_le_two, ?_⟩
  intro oc r oc' r' hsub hcaller hcall
  have hmem : ∀ e ∈ [Event.command oc r, .command oc' r'], e ∈ s.st.world.trace :=
    fun e he => hsub.subset he
  obtain ⟨c, rfl⟩ : ∃ c, oc = some c := Option.ne_none_iff_exists'.mp fun e =>
    hcalls.nonnull r (e ▸ hmem _ (by simp))
  obtain ⟨c', rfl⟩ : ∃ c, oc' = some c := Option.ne_none_iff_exists'.mp fun e =>
    hcalls.nonnull r' (e ▸ hmem _ (by simp))
  obtain ⟨-, hretry, p, ep, hchain⟩ :=
    List.pairwise_iff_forall_sublist.mp hcalls.pairs hsub c r c' r' rfl rfl hcaller hcall
  exact ⟨hretry, c, c', p, ep, rfl, rfl, hchain⟩

/-- A command whose first attempt times out, and its retry. -/
def commandRetried : List Action :=
  [.call 0 .get, .step 0 true, .step 0 true, .step 0 true, .step 0 true, .step 0 true,
    .call 0 (.vcommand 0 (.incr 7)), .step 0 true, .step 0 false, .step 0 true, .step 0 true,
    .step 0 true, .serve 1, .step 0 true, .step 0 true]

theorem replies_match_retry : ∃ s, (machine .good redisClient).Reachable s ∧
    [Event.command (some 1) ⟨0, 0, 1, .incr 7⟩, .served 1 ⟨⟨0, 0, 1, .incr 7⟩, 1⟩,
      .returned 0 0 (some (1, ⟨⟨0, 0, 1, .incr 7⟩, 1⟩))].Sublist s.st.world.trace := by
  obtain ⟨s, hs, hp⟩ := exists_of_replay .good redisClient (.single 1 5) commandRetried
    (fun s => .returned 0 0 (some (1, ⟨⟨0, 0, 1, .incr 7⟩, 1⟩)) ∈ s.st.world.trace)
    (by decide +kernel)
  obtain ⟨hmatch, -, -⟩ := replies_match _ s hs
  exact ⟨s, hs, (hmatch 0 0 1 _ (of_decide_eq_true hp)).2.2⟩

end Hiredispool.Threads
