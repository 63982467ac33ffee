import Hiredispool.Lib.LockTable
import Hiredispool.Lib.Lts
import Mathlib.Order.WellFounded

/-!
# Programs that lock

Threads run programs over a shared state that lock and unlock mutexes; a mutex
is not recursive, and a thread that locks one that is taken waits.

* `Prog`: a program, with `withLock` for a mutex that is locked over a scope.
* `Prog.Disciplined`: a program locks upwards in a rank, and unlocks what it
  locked last. It has a rule for each way to build a program.
* `exists_step`, `not_relock`, `not_owner_of_idle`: threads with such programs do not
  deadlock.
* `Prog.eval`: a program without other threads.
-/

namespace LockTable

variable {R T K : Type*} [Preorder K] {owner : R → Option T} {locks : T → List R}

/-- Each thread waits for a resource that is above those it has locked. -/
def Upwards (rank : R → K) (locks : T → List R) (wants : T → Option R) : Prop :=
  ∀ t r, wants t = some r → ∀ q ∈ locks t, rank q < rank r

variable {rank : R → K} {wants : T → Option R} {t : T} {r : R}

/-- No thread waits for itself. -/
theorem Agree.not_relock (h : Agree owner locks) (hup : Upwards rank locks wants)
    (hw : wants t = some r) : owner r ≠ some t := by
  intro ho
  have hlt : rank r < rank r := hup t r hw r ((h.owner_iff r t).mp ho)
  exact lt_irrefl _ hlt

/-- A thread, or one that has a resource locked, does not have to wait. -/
theorem Agree.exists_ready [WellFoundedGT K] (h : Agree owner locks)
    (hup : Upwards rank locks wants) (t : T) :
    ∃ u, (u = t ∨ locks u ≠ []) ∧ ∀ r, wants u = some r → owner r = none := by
  -- along a chain of owners that wait the rank goes up
  have chain : ∀ k t r, wants t = some r → rank r = k →
      ∃ u, (u = t ∨ locks u ≠ []) ∧ ∀ q, wants u = some q → owner q = none := by
    intro k
    induction k using WellFoundedGT.induction with
    | ind k ih =>
      intro t r hw hk
      cases ho : owner r with
      | none =>
        refine ⟨t, Or.inl rfl, fun q hq => ?_⟩
        rw [hw] at hq
        cases hq
        exact ho
      | some v =>
        have hv : r ∈ locks v := (h.owner_iff r v).mp ho
        have hne : locks v ≠ [] := List.ne_nil_of_mem hv
        cases hwv : wants v with
        | none =>
          refine ⟨v, Or.inr hne, fun q hq => ?_⟩
          rw [hwv] at hq
          cases hq
        | some q =>
          have hlt : rank q > k := by rw [← hk]; exact hup v q hwv r hv
          obtain ⟨u, hu, hready⟩ := ih (rank q) hlt v q hwv rfl
          refine ⟨u, Or.inr ?_, hready⟩
          rcases hu with rfl | hu
          · exact hne
          · exact hu
  cases hw : wants t with
  | none =>
    refine ⟨t, Or.inl rfl, fun q hq => ?_⟩
    rw [hw] at hq
    cases hq
  | some r => exact chain (rank r) t r hw rfl

end LockTable

namespace LockProg

/-- A program over the shared state `S` with the mutexes `L`. An access is one
    step; `O` is what the environment decides in it. -/
inductive Prog (S L O α : Type*)
  | ret (a : α)
  | lock (l : L) (k : Prog S L O α)
  | unlock (l : L) (k : Prog S L O α)
  | access (f : S → O → S) (k : S → O → Prog S L O α)

namespace Prog

universe u

variable {S L O : Type*} {α β : Type u}

/-- One program after the other. -/
def bind : Prog S L O α → (α → Prog S L O β) → Prog S L O β
  | .ret a, q => q a
  | .lock l k, q => .lock l (k.bind q)
  | .unlock l k, q => .unlock l (k.bind q)
  | .access f k, q => .access f fun s o => (k s o).bind q

instance : Monad (Prog S L O) where
  pure := .ret
  bind := .bind

/-- One access to the shared state. -/
def atomic (f : S → O → S × α) : Prog S L O α :=
  .access (fun s o => (f s o).1) fun s o => .ret (f s o).2

/-- `l` is locked, and unlocked when `p` returns. -/
def withLock (l : L) (p : Prog S L O α) : Prog S L O α :=
  .lock l (p.bind fun a => .unlock l (.ret a))

/-! ## Lock discipline -/

section Disciplined

variable {K : Type*} [Preorder K] (rank : L → K)

/-- With the mutexes `held`, the newest first, the program locks upwards only,
    unlocks the newest first, and returns with `out`. -/
def Disciplined (out : List L) : Prog S L O α → List L → Prop
  | .ret _, held => held = out
  | .lock l k, held => (∀ q ∈ held, rank q < rank l) ∧ k.Disciplined out (l :: held)
  | .unlock l k, held => ∃ rest, held = l :: rest ∧ k.Disciplined out rest
  | .access _ k, held => ∀ s o, (k s o).Disciplined out held

variable {rank} {held mid out : List L}

theorem Disciplined.pure (a : α) :
    (Pure.pure a : Prog S L O α).Disciplined rank held held := rfl

theorem Disciplined.bind {p : Prog S L O α} {q : α → Prog S L O β}
    (hp : p.Disciplined rank mid held) (hq : ∀ a, (q a).Disciplined rank out mid) :
    (p >>= q).Disciplined rank out held := by
  show (p.bind q).Disciplined rank out held
  induction p generalizing held with
  | ret a =>
    obtain rfl : held = mid := hp
    exact hq a
  | lock l k ih => exact ⟨hp.1, ih hp.2⟩
  | unlock l k ih =>
    obtain ⟨rest, hheld, hk⟩ := hp
    exact ⟨rest, hheld, ih hk⟩
  | access f k ih => exact fun s o => ih s o (hp s o)

theorem Disciplined.atomic (f : S → O → S × α) :
    (Prog.atomic f : Prog S L O α).Disciplined rank held held := fun _ _ => rfl

theorem Disciplined.withLock {l : L} {p : Prog S L O α} (hl : ∀ q ∈ held, rank q < rank l)
    (hp : p.Disciplined rank (l :: held) (l :: held)) :
    (Prog.withLock l p).Disciplined rank held held :=
  ⟨hl, hp.bind fun _ => ⟨held, rfl, rfl⟩⟩

theorem Disciplined.forM {as : List β} {p : β → Prog S L O PUnit}
    (hp : ∀ a, (p a).Disciplined rank held held) :
    (as.forM p).Disciplined rank held held := by
  induction as with
  | nil => exact .pure _
  | cons a as ih => exact (hp a).bind fun _ => ih

end Disciplined

/-! ## A program alone -/

/-- The end of the program when no other thread runs and the environment always
    decides `o`. -/
def eval (o : O) : Prog S L O α → S → S × α
  | .ret a, s => (s, a)
  | .lock _ k, s => k.eval o s
  | .unlock _ k, s => k.eval o s
  | .access f k, s => (k s o).eval o (f s o)

variable (o : O) (s : S)

@[simp] theorem eval_pure (a : α) : (pure a : Prog S L O α).eval o s = (s, a) := rfl

@[simp] theorem eval_bind (p : Prog S L O α) (q : α → Prog S L O β) :
    (p >>= q).eval o s = (q (p.eval o s).2).eval o (p.eval o s).1 := by
  show (p.bind q).eval o s = _
  induction p generalizing s with
  | ret a => rfl
  | lock l k ih => exact ih s
  | unlock l k ih => exact ih s
  | access f k ih => exact ih s o (f s o)

@[simp] theorem eval_atomic (f : S → O → S × α) :
    (atomic f : Prog S L O α).eval o s = f s o := rfl

@[simp] theorem eval_withLock (l : L) (p : Prog S L O α) : (withLock l p).eval o s = p.eval o s :=
  eval_bind o s p fun a => .unlock l (.ret a)

theorem eval_forM (as : List β) (p : β → Prog S L O PUnit) :
    ((as.forM p).eval o s).1 = as.foldl (fun s a => ((p a).eval o s).1) s := by
  induction as generalizing s with
  | nil => rfl
  | cons a as ih =>
    show ((p a >>= fun _ => as.forM p).eval o s).1 = _
    rw [eval_bind, ih]
    rfl

end Prog

/-! ## Threads -/

/-- What a thread executes, and what it will call after that. -/
structure Thread (S L O : Type*) where
  current : Prog S L O Unit
  todo : List (Prog S L O Unit)

/-- Threads over a shared state. `owner l` is the thread that has `l` locked. -/
structure Sys (T S L O : Type*) where
  shared : S
  owner : L → Option T
  thread : T → Thread S L O

namespace Sys

variable {T S L O : Type*}

/-- The mutex that the next step of a thread locks. -/
def wants (s : Sys T S L O) (t : T) : Option L :=
  match (s.thread t).current with
  | .lock l _ => some l
  | _ => none

/-- The thread is not in a call. -/
def Idle (s : Sys T S L O) (t : T) : Prop := (s.thread t).current = .ret ()

/-- The thread has nothing left to do. -/
def Finished (s : Sys T S L O) (t : T) : Prop := s.Idle t ∧ (s.thread t).todo = []

variable [DecidableEq T] [DecidableEq L]

/-- Thread `t` goes on with `p`. -/
def goOn (s : Sys T S L O) (t : T) (p : Prog S L O Unit) : T → Thread S L O :=
  Function.update s.thread t ⟨p, (s.thread t).todo⟩

/-- One step of thread `t`: the next lock, unlock or access, or the start of the
    next call. -/
def step (s : Sys T S L O) (a : T × O) : Option (Sys T S L O) :=
  match (s.thread a.1).current with
  | .ret _ =>
    match (s.thread a.1).todo with
    | [] => none
    | p :: ps => some { s with thread := Function.update s.thread a.1 ⟨p, ps⟩ }
  | .lock l k =>
    if s.owner l = none then
      some { s with owner := Function.update s.owner l (some a.1), thread := s.goOn a.1 k }
    else none
  | .unlock l k =>
    some { s with owner := Function.update s.owner l none, thread := s.goOn a.1 k }
  | .access f k =>
    some { s with shared := f s.shared a.2, thread := s.goOn a.1 (k s.shared a.2) }

/-- What a step can do. -/
theorem step_cases {s s' : Sys T S L O} {t : T} {o : O} (h : s.step (t, o) = some s') :
    (∃ p ps, s.Idle t ∧ (s.thread t).todo = p :: ps ∧
      s' = { s with thread := Function.update s.thread t ⟨p, ps⟩ }) ∨
    (∃ l k, (s.thread t).current = .lock l k ∧ s.owner l = none ∧
      s' = { s with owner := Function.update s.owner l (some t), thread := s.goOn t k }) ∨
    (∃ l k, (s.thread t).current = .unlock l k ∧
      s' = { s with owner := Function.update s.owner l none, thread := s.goOn t k }) ∨
    ∃ f k, (s.thread t).current = .access f k ∧
      s' = { s with shared := f s.shared o, thread := s.goOn t (k s.shared o) } := by
  unfold step at h
  dsimp only at h
  split at h
  · rename_i a hcur
    split at h
    · cases h
    · cases h
      exact Or.inl ⟨_, _, hcur, ‹_›, rfl⟩
  · rename_i l k hcur
    split at h
    · cases h
      exact Or.inr (Or.inl ⟨l, k, hcur, ‹_›, rfl⟩)
    · cases h
  · rename_i l k hcur
    cases h
    exact Or.inr (Or.inr (Or.inl ⟨l, k, hcur, rfl⟩))
  · rename_i f k hcur
    cases h
    exact Or.inr (Or.inr (Or.inr ⟨f, k, hcur, rfl⟩))

/-- A thread that has something to do and does not wait can take a step. -/
theorem exists_step_of_ready {s : Sys T S L O} {t : T} (hf : ¬ s.Finished t)
    (hw : ∀ l, s.wants t = some l → s.owner l = none) (o : O) :
    ∃ s', s.step (t, o) = some s' := by
  unfold step
  cases hcur : (s.thread t).current with
  | ret a =>
    cases htodo : (s.thread t).todo with
    | nil => exact absurd ⟨hcur, htodo⟩ hf
    | cons p ps => exact ⟨_, rfl⟩
  | lock l k =>
    have hfree : s.owner l = none := hw l (by simp [wants, hcur])
    exact ⟨_, if_pos hfree⟩
  | unlock l k => exact ⟨_, rfl⟩
  | access f k => exact ⟨_, rfl⟩

end Sys

/-- Threads that run sequences of calls from `calls`. -/
def threads {T S L O : Type*} [DecidableEq T] [DecidableEq L] (calls : Prog S L O Unit → Prop) :
    Lts (Sys T S L O) (T × O) where
  init s := (∀ l, s.owner l = none) ∧ ∀ t, s.Idle t ∧ ∀ p ∈ (s.thread t).todo, calls p
  step := Sys.step

section Invariant

variable {T S L O K : Type*} [Preorder K] {rank : L → K} {s s' : Sys T S L O} {t : T}
  {held : T → List L}

/-- The mutexes are those that the threads hold, and all that the threads will do
    keeps to the discipline. -/
structure Ordered (rank : L → K) (s : Sys T S L O) (held : T → List L) : Prop where
  agree : LockTable.Agree s.owner held
  current : ∀ t, (s.thread t).current.Disciplined rank [] (held t)
  todo : ∀ t, ∀ p ∈ (s.thread t).todo, p.Disciplined rank [] []

theorem Ordered.upwards (h : Ordered rank s held) : LockTable.Upwards rank held s.wants := by
  intro t l hw
  have hd := h.current t
  unfold Sys.wants at hw
  split at hw
  · rename_i l' k hcur
    cases hw
    rw [hcur] at hd
    exact hd.1
  · cases hw

/-- A thread that is not in a call holds nothing. -/
theorem Ordered.held_eq_nil (h : Ordered rank s held) (hi : s.Idle t) : held t = [] := by
  have hd := h.current t
  rw [hi] at hd
  exact hd

variable [DecidableEq T]

/-- Thread `t` goes on with `p` and holds `k`. -/
theorem Ordered.put (h : Ordered rank s held) {p : Prog S L O Unit}
    {ps : List (Prog S L O Unit)} {k : List L} {owner : L → Option T} {shared : S}
    (ho : LockTable.Agree owner (Function.update held t k)) (hp : p.Disciplined rank [] k)
    (hps : ∀ q ∈ ps, q.Disciplined rank [] []) :
    Ordered rank ⟨shared, owner, Function.update s.thread t ⟨p, ps⟩⟩
      (Function.update held t k) where
  agree := ho
  current u := by
    by_cases hu : u = t
    · subst hu; simpa using hp
    · simpa [hu] using h.current u
  todo u := by
    by_cases hu : u = t
    · subst hu; simpa using hps
    · simpa [hu] using h.todo u

variable [DecidableEq L]

theorem Ordered.step {o : O} (h : Ordered rank s held) (hstep : s.step (t, o) = some s') :
    ∃ held', Ordered rank s' held' := by
  have hd := h.current t
  have hother : ∀ hs u, u ≠ t → Function.update held t hs u = held u := by
    intro hs u hu
    exact Function.update_of_ne hu _ _
  obtain ⟨p, ps, hidle, htodo, rfl⟩ | ⟨l, k, hcur, hfree, rfl⟩ | ⟨l, k, hcur, rfl⟩ |
    ⟨f, k, hcur, rfl⟩ := Sys.step_cases hstep
  · have hps := h.todo t
    rw [htodo] at hps
    have hnil : held t = [] := h.held_eq_nil hidle
    refine ⟨_, h.put (k := []) ?_ (hps p (by simp)) fun q hq => hps q (by simp [hq])⟩
    rw [← hnil, Function.update_eq_self]
    exact h.agree
  · rw [hcur] at hd
    refine ⟨_, h.put (k := l :: held t) ?_ hd.2 (h.todo t)⟩
    exact h.agree.acquire hfree (by simp) (fun q hq => by simp [hq]) (by simp) (hother _)
  · rw [hcur] at hd
    obtain ⟨rest, hheld, hk⟩ := hd
    refine ⟨_, h.put (k := rest) ?_ hk (h.todo t)⟩
    exact h.agree.release (r := l) (by simp) (fun q hq => by simp [hq]) (by simp [hheld]) (hother _)
  · rw [hcur] at hd
    refine ⟨_, h.put (k := held t) ?_ (hd _ _) (h.todo t)⟩
    rw [Function.update_eq_self]
    exact h.agree

variable {calls : Prog S L O Unit → Prop} (hcalls : ∀ p, calls p → p.Disciplined rank [] [])

include hcalls

theorem exists_ordered (hs : (threads calls).Reachable s) : ∃ held, Ordered rank s held := by
  induction hs with
  | init h =>
    obtain ⟨hfree, hidle⟩ := h
    refine ⟨fun _ => [], ⟨fun l t => ?_, fun _ => List.nodup_nil⟩, fun t => ?_, fun t p hp => ?_⟩
    · simp [hfree l]
    · rw [(hidle t).1]
      rfl
    · exact hcalls p ((hidle t).2 p hp)
  | step _ h ih =>
    obtain ⟨held, hord⟩ := ih
    exact hord.step h

/-- No deadlock: if a thread has something to do, some thread can take a step. -/
theorem exists_step [WellFoundedGT K] (hs : (threads calls).Reachable s) (hf : ¬ s.Finished t) :
    ∃ u, ∀ o, ∃ s', s.step (u, o) = some s' := by
  obtain ⟨held, h⟩ := exists_ordered hcalls hs
  obtain ⟨u, hu, hready⟩ := h.agree.exists_ready h.upwards t
  refine ⟨u, Sys.exists_step_of_ready ?_ hready⟩
  rcases hu with rfl | hu
  · exact hf
  · exact fun hfin => hu (h.held_eq_nil hfin.1)

/-- No thread locks a mutex that it has locked. -/
theorem not_relock (hs : (threads calls).Reachable s) {l : L} (hw : s.wants t = some l) :
    s.owner l ≠ some t := by
  obtain ⟨held, h⟩ := exists_ordered hcalls hs
  exact h.agree.not_relock h.upwards hw

/-- A thread has nothing locked between its calls. -/
theorem not_owner_of_idle (hs : (threads calls).Reachable s) (hi : s.Idle t) (l : L) :
    s.owner l ≠ some t := by
  obtain ⟨held, h⟩ := exists_ordered hcalls hs
  intro ho
  have hmem : l ∈ held t := (h.agree.owner_iff l t).mp ho
  rw [h.held_eq_nil hi] at hmem
  cases hmem

end Invariant

end LockProg
