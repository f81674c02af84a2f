import Ums.Io.Basic
import Ums.Runtime.Pass

/-!
# Requests and their completions

A worker waits for I/O exactly while its request is pending, and exactly then its ring has
something on its way: the operation of that request, or its completion. `Step` lists what a step
does where that is so, and each of its outcomes keeps it so.
-/

namespace Ums

/-! ## The workers that wait for I/O -/

namespace Runtime

open Lib Scheduler

variable {c : Config} {s s' : System c} {i j : SchedId c} {u v : WorkerId c}
  {x y : Scheduler c.workers} {p q : Pc c}

/-- What a statement of the scheduling code leaves of the list. -/
def leftIo (x : Scheduler c.workers) (completed : Bool) : Pc c → List (WorkerId c)
  | .scheduleIo it => if completed then x.pendingIoQueue.eraseIdx it else x.pendingIoQueue
  | _ => x.pendingIoQueue

theorem leftIo_of_ne {b : Bool} (hat : ¬ ∃ it, p = .scheduleIo it) :
    leftIo x b p = x.pendingIoQueue := by
  unfold leftIo
  split
  · exact absurd ⟨_, rfl⟩ hat
  · rfl

/-- The worker that is asked leaves the list if its request is complete, and nobody else does. -/
theorem mem_leftIo {b : Bool} (hnd : ∀ it, p = .scheduleIo it → x.pendingIoQueue.Nodup) :
    u ∈ leftIo x b p ↔ u ∈ x.pendingIoQueue ∧
      ¬ (b = true ∧ ∃ it, p = .scheduleIo it ∧ x.pendingIoQueue[it]? = some u) := by
  by_cases hat : ∃ it, p = .scheduleIo it
  · obtain ⟨it, rfl⟩ := hat
    have hnd := hnd it rfl
    cases b with
    | false => simp [leftIo]
    | true =>
        rw [leftIo, if_pos rfl, List.mem_eraseIdx_iff_getElem?]
        constructor
        · intro ⟨n, hn, hu⟩
          refine ⟨List.mem_of_getElem? hu, ?_⟩
          intro ⟨_, m, hm, hu'⟩
          cases hm
          have hlt := (List.getElem?_eq_some_iff.mp hu).1
          exact hn ((List.getElem?_inj hlt hnd).mp (hu.trans hu'.symm))
        · intro ⟨hu, hne⟩
          obtain ⟨n, hn⟩ := List.mem_iff_getElem?.mp hu
          refine ⟨n, ?_, hn⟩
          intro heq
          subst heq
          exact hne ⟨rfl, n, rfl, hn⟩
  · rw [leftIo_of_ne hat]
    exact ⟨fun hu => ⟨hu, fun ⟨_, it, hp, _⟩ => hat ⟨it, hp⟩⟩, And.left⟩

theorem pendingIo_codeStep {b : Bool} (h : codeStep s i b x p = some (y, q)) :
    y.pendingIoQueue = leftIo x b p := by
  by_cases hat : ∃ it, p = .scheduleIo it
  · obtain ⟨it, rfl⟩ := hat
    simp only [codeStep] at h
    split at h <;> cases h
    · rename_i hnone
      rw [leftIo, List.eraseIdx_of_length_le (List.getElem?_eq_none_iff.mp hnone), ite_self]
    · rw [leftIo]
      cases b <;> rfl
  · rw [leftIo_of_ne hat]
    cases code_of_codeStep h with
    | ioEnd | ioRound => exact absurd ⟨_, rfl⟩ hat
    | @waitingRound it v =>
        unfold scheduleWaitingWorker
        split <;> rfl
    | assign ha => exact (assignTask_spec ha).1
    | yielded =>
        unfold scheduleYieldedWorkers
        split <;> rfl
    | exec hx =>
        obtain ⟨_, _, -, rfl⟩ := prepareExec_eq_some.mp hx
        rfl
    | startTimer => exact (alike_startIdleTimer _).pendingIoQueue
    | exit =>
        unfold Scheduler.exitNow
        split <;> rfl
    | _ => rfl

/-- Only the code of a worker's own scheduler asks for its request. -/
theorem polls_eq_some {e : Event c} {b : Bool} :
    Io.polls s e = some ((j, u), b) ↔
      e = .code j b ∧ ∃ it, s.pc j = .scheduleIo it ∧ (s.sched j).pendingIoQueue[it]? = some u := by
  constructor
  · intro h
    unfold Io.polls at h
    split at h
    · split at h
      · rename_i i completed it hpc
        obtain ⟨v, hv, heq⟩ := Option.map_eq_some_iff.mp h
        cases heq
        exact ⟨rfl, it, hpc, hv⟩
      · cases h
    · cases h
  · rintro ⟨rfl, it, hpc, hv⟩
    simp [Io.polls, hpc, hv]

/-- **Who is on the list**: whoever was there and is not found complete, and whoever issues a
request. -/
theorem mem_pendingIo {e : Event c} (hr : (machine c).Reachable s) (h : next s e = some s') :
    u ∈ (s'.sched j).pendingIoQueue ↔
      (u ∈ (s.sched j).pendingIoQueue ∧ Io.polls s e ≠ some ((j, u), true)) ∨
        (e = .user j .io ∧ s.taskWorker j = some u) := by
  have hl := locals_reachable hr
  by_cases hio : e = .user j .io
  · subst hio
    cases step_of_next h with
    | user hw hu =>
        cases hu
        rw [System.setBoth_sched, Function.update_self]
        simp [Scheduler.parkWorker, Scheduler.parkPendingIo, Scheduler.setWorkerState,
          Scheduler.setWorker, Scheduler.manageLoad, Io.polls, hw, eq_comm]
  · by_cases hcode : ∃ b, e = .code j b
    · obtain ⟨b, rfl⟩ := hcode
      obtain ⟨⟨y, q⟩, hstep, rfl⟩ := Option.map_eq_some_iff.mp h
      have hleft := pendingIo_codeStep hstep
      rw [System.setBoth_sched, Function.update_self, hleft]
      have hnd : ∀ it, s.pc j = .scheduleIo it → (s.sched j).pendingIoQueue.Nodup := by
        intro it hpc
        exact (hl.core hpc (by simp)).placed.binned.nodup .pendingIo
      rw [mem_leftIo hnd, Ne, polls_eq_some]
      simp
    · have hpolls : Io.polls s e ≠ some ((j, u), true) := by
        intro hp
        exact hcode ⟨true, (polls_eq_some.mp hp).1⟩
      rw [((step_of_next h).lists fun b hb => hcode ⟨b, hb⟩).2 hio]
      simp [hpolls, hio]

/-- The worker that runs waits for nothing. -/
theorem not_mem_pendingIo (hr : (machine c).Reachable s) (hv : s.taskWorker j = some v) :
    v ∉ (s.sched j).pendingIoQueue := by
  obtain ⟨hp, hw, _⟩ := taskWorker_eq_some hv
  have hpl := ((locals_reachable hr).core hp nofun).active rfl hw
  intro hmem
  have hst := (hpl.1.binned.mem .pendingIo v).mp hmem
  rw [Placed.stateOf_active hpl.1] at hst
  cases hst

end Runtime

namespace Io

open Lib

variable {c : Config} {τ : Type}

/-! ## What a request may do -/

/-- The operation a request waits for. -/
def awaited (o : Option (IoRequest τ)) : Option Sqe :=
  (o.filter IoRequest.pending).map IoRequest.sqe

theorem awaited_isSome {o : Option (IoRequest τ)} :
    (awaited o).isSome ↔ ∃ io, o = some io ∧ io.pending = true := by
  cases o with
  | none => simp [awaited]
  | some io => by_cases hp : io.pending <;> simp [awaited, Option.filter, hp]

theorem awaited_pending {io : IoRequest τ} (h : io.pending = true) :
    awaited (some io) = some io.sqe := by
  simp [awaited, Option.filter, h]

theorem awaited_not_pending {io : IoRequest τ} (h : io.pending = false) :
    awaited (some io) = none := by
  simp [awaited, Option.filter, h]

/-- **The life of a request**: it is submitted, and then completes or fails. -/
inductive Moves : IoState → IoState → Prop
  | submit : Moves .init .pending
  | complete : Moves .pending .completed
  | fail : Moves .pending .error

theorem Moves.not_pending {st : IoState} (h : Moves .pending st) : st ≠ .pending := by
  cases h <;> nofun

/-! ## The two functions on the ring -/

section

variable [DecidableEq τ] {rings : τ → Uring} {io : IoRequest τ} {t : τ}

/-- **A ring that holds nothing takes a request.** -/
theorem uringSubmit_spec (io : IoRequest τ) (ht : io.ioHandle.uring = t)
    (h : (rings t).Holds completion none) :
    ∃ ring, ring.Holds completion (some io.sqe) ∧ uringSubmit rings io =
      some (Function.update rings t ring, { io with state := .pending }) := by
  obtain ⟨r, hprep, hone, hholds⟩ := h.submit io.sqe (show 0 < uringEntries by decide)
  refine ⟨r.submit.2, hholds, ?_⟩
  rw [uringSubmit, ht, hprep]
  exact if_pos hone

/-- **A pending request finds nothing, or its own completion**, and after that there is nothing
left on its ring. -/
theorem uringUpdate_spec (ht : io.ioHandle.uring = t) (hp : io.state = .pending)
    (h : (rings t).Holds completion (some io.sqe)) :
    ((rings t).peek = none ∧ uringUpdate rings io = some (rings, io)) ∨
    ∃ res st ring, (rings t).peek = some (completion io.sqe res) ∧ Moves .pending st ∧
      ring.Holds completion none ∧
      uringUpdate rings io = some (Function.update rings t ring, { io with state := st }) := by
  rw [uringUpdate, if_neg (not_not.mpr hp), ht]
  cases hb : (rings t).peek with
  | none => exact Or.inl ⟨rfl, rfl⟩
  | some cqe =>
      obtain ⟨sqe, res, hsqe, hcqe, hseen⟩ := h.peek hb
      cases hsqe
      cases hcqe
      refine Or.inr ⟨res, _, _, rfl, ?_, hseen, if_pos rfl⟩
      split
      · exact .fail
      · exact .complete

end

/-! ## What holds throughout -/

/-- Requests, rings and lists fit together. -/
structure Matched (s : System c) : Prop where
  /-- The runtime is in a state that it can reach. -/
  runtime : (Runtime.machine c).Reachable s.runtime
  /-- A worker waits for I/O while its request is pending. -/
  list : ∀ i v, v ∈ (s.runtime.sched i).pendingIoQueue ↔ (awaited (s.requests (i, v))).isSome
  /-- A request is for the ring of its worker's thread. -/
  own : ∀ t io, s.requests t = some io → io.ioHandle.uring = t
  /-- What is on its way on a ring is what the request of its thread waits for. -/
  ring : ∀ t, (s.rings t).Holds completion (awaited (s.requests t))

variable {s s' : System c} {e : Event c} {i : SchedId c} {v : WorkerId c} {t : Thread c}

theorem matched_init (h : (machine c).init s) : Matched s := by
  obtain ⟨hr, hrings, hreq, _⟩ := h
  have hreach : (Runtime.machine c).Reachable s.runtime := .init hr
  refine ⟨hreach, ?_, ?_, ?_⟩
  · intro i v
    obtain ⟨now, hnow⟩ := hr
    have hlist : (s.runtime.sched i).pendingIoQueue = [] := by
      rw [hnow]
      exact (Scheduler.constructed_lists c.workers).2.2.1
    rw [hlist, hreq]
    simp [awaited]
  · intro t io hio
    rw [hreq] at hio
    cases hio
  · intro t
    rw [hreq, hrings]
    exact .nothing rfl

/-- **The ring of the worker that runs is empty.** -/
theorem Matched.holds_none (h : Matched s) (hv : s.runtime.taskWorker i = some v) :
    (s.rings (i, v)).Holds completion none := by
  have hnone : awaited (s.requests (i, v)) = none := by
    rw [← Option.not_isSome_iff_eq_none, ← h.list i v]
    exact Runtime.not_mem_pendingIo h.runtime hv
  have hring := h.ring (i, v)
  rwa [hnone] at hring

/-- **Whoever is asked has a request that is pending.** -/
theorem Matched.request_of_polls {e : Runtime.Event c} {b : Bool} (h : Matched s)
    (hp : polls s.runtime e = some (t, b)) :
    ∃ io, s.requests t = some io ∧ io.pending = true := by
  obtain ⟨_, it, _, hit⟩ := Runtime.polls_eq_some.mp hp
  exact awaited_isSome.mp ((h.list t.1 t.2).mp (List.mem_of_getElem? hit))

/-- **The question is answered**: nothing is found, or the completion of the very request that is
asked for. -/
theorem Matched.pollStep_spec {e : Runtime.Event c} {b : Bool} (h : Matched s)
    (hp : polls s.runtime e = some (t, b)) :
    ∃ io, s.requests t = some io ∧ io.state = .pending ∧
      ((s.rings t).peek = none ∧ pollStep s t = some (s, false) ∨
      ∃ res st ring, (s.rings t).peek = some (completion io.sqe res) ∧ Moves .pending st ∧
        ring.Holds completion none ∧
        pollStep s t = some
          ({ s with
              rings := Function.update s.rings t ring
              requests := Function.update s.requests t (some { io with state := st }) },
            true)) := by
  obtain ⟨io, hio, hpend⟩ := h.request_of_polls hp
  have hst : io.state = .pending := by simpa [IoRequest.pending] using hpend
  have hring := h.ring t
  rw [hio, awaited_pending hpend] at hring
  refine ⟨io, hio, hst, ?_⟩
  rcases uringUpdate_spec (h.own t io hio) hst hring with
    ⟨hpeek, hup⟩ | ⟨res, st, ring, hpeek, hmoves, hnone, hup⟩
  · left
    refine ⟨hpeek, ?_⟩
    rw [pollStep, hio]
    simp [hup, hpend, ← hio]
  · right
    refine ⟨res, st, ring, hpeek, hmoves, hnone, ?_⟩
    rw [pollStep, hio]
    simp [hup, IoRequest.pending, hmoves.not_pending]

/-- What a step does. -/
inductive Step (s : System c) : Event c → System c → Prop
  /-- The running worker issues a request and parks itself. -/
  | file {i v type fileHandle ioBuffer offset ring r} {io : IoRequest (Thread c)}
      (hv : s.runtime.taskWorker i = some v)
      (hio : io = .new (i, v) s.ioCnt type fileHandle ioBuffer offset)
      (hring : ring.Holds completion (some io.sqe))
      (hr : Runtime.next s.runtime (.user i .io) = some r) :
      Step s (.file i type fileHandle ioBuffer offset)
        { runtime := r, rings := Function.update s.rings (i, v) ring
          requests := Function.update s.requests (i, v) (some { io with state := .pending })
          ioCnt := s.ioCnt + 1 }
  /-- An operation is reported. -/
  | report {t n res ring} (hring : (s.rings t).report completion n res = some ring) :
      Step s (.report t n res) { s with rings := Function.update s.rings t ring }
  /-- A request is asked for and found to be complete. -/
  | answered {e t io st ring r} (hp : polls s.runtime e = some (t, true))
      (hio : s.requests t = some io) (hpend : io.state = .pending) (hst : Moves .pending st)
      (hring : ring.Holds completion none) (hr : Runtime.next s.runtime e = some r) :
      Step s (.runtime e)
        { s with
          runtime := r, rings := Function.update s.rings t ring
          requests := Function.update s.requests t (some { io with state := st }) }
  /-- Anything else. -/
  | other {e r} (hp : ∀ t, polls s.runtime e ≠ some (t, true)) (he : ∀ i, e ≠ .user i .io)
      (hr : Runtime.next s.runtime e = some r) : Step s (.runtime e) { s with runtime := r }

theorem next_runtime {e : Runtime.Event c} (he : ∀ i, e ≠ .user i .io) :
    next s (.runtime e) =
      match polls s.runtime e with
      | none => (Runtime.next s.runtime e).map fun r => { s with runtime := r }
      | some (t, completed) =>
        match pollStep s t with
        | none => none
        | some (s, answer) =>
          if completed = answer then
            (Runtime.next s.runtime e).map fun r => { s with runtime := r }
          else none := by
  unfold next
  split
  · rename_i heq
    cases heq
  · rename_i heq
    cases heq
  · rename_i i heq
    exact absurd (Event.runtime.inj heq) (he i)
  · rename_i heq
    cases heq
    rfl

theorem step_of_next (h : Matched s) (hn : next s e = some s') : Step s e s' := by
  cases e with
  | file i type fileHandle ioBuffer offset =>
      rw [next] at hn
      split at hn
      · cases hn
      · rename_i v hv
        obtain ⟨ring, hring, hsub⟩ := uringSubmit_spec
          (.new (i, v) s.ioCnt type fileHandle ioBuffer offset) rfl (h.holds_none hv)
        rw [fileStep, hsub] at hn
        obtain ⟨r, hr, rfl⟩ := Option.map_eq_some_iff.mp hn
        exact .file hv rfl hring hr
  | report t n res =>
      obtain ⟨ring, hring, rfl⟩ := Option.map_eq_some_iff.mp hn
      exact .report hring
  | runtime e =>
      by_cases hio : ∃ i, e = .user i .io
      · obtain ⟨i, rfl⟩ := hio
        cases hn
      · have he : ∀ i, e ≠ .user i .io := fun i hi => hio ⟨i, hi⟩
        rw [next_runtime he] at hn
        cases hp : polls s.runtime e with
        | none =>
            rw [hp] at hn
            obtain ⟨r, hr, rfl⟩ := Option.map_eq_some_iff.mp hn
            exact .other (by simp [hp]) he hr
        | some tb =>
            obtain ⟨t, b⟩ := tb
            rw [hp] at hn
            obtain ⟨io, hio, hst, hpoll⟩ := h.pollStep_spec hp
            rcases hpoll with ⟨-, hpoll⟩ | ⟨res, st, ring, -, hmoves, hring, hpoll⟩
            · simp only [hpoll] at hn
              cases b with
              | true => cases hn
              | false =>
                  obtain ⟨r, hr, rfl⟩ := Option.map_eq_some_iff.mp hn
                  exact .other (by simp [hp]) he hr
            · simp only [hpoll] at hn
              cases b with
              | false => cases hn
              | true =>
                  obtain ⟨r, hr, rfl⟩ := Option.map_eq_some_iff.mp hn
                  exact .answered hp hio hst hmoves hring hr

/-- Another request, or the same in another state, on its own ring. -/
theorem Matched.update {r : Runtime.System c} {ring : Uring} {io : IoRequest (Thread c)}
    {n : BitVec 64} (h : Matched s) (hr : (Runtime.machine c).Reachable r)
    (hlist : ∀ i v, v ∈ (r.sched i).pendingIoQueue ↔
      if (i, v) = t then io.pending = true else v ∈ (s.runtime.sched i).pendingIoQueue)
    (hown : io.ioHandle.uring = t) (hring : ring.Holds completion (awaited (some io))) :
    Matched
      { runtime := r, rings := Function.update s.rings t ring
        requests := Function.update s.requests t (some io), ioCnt := n } where
  runtime := hr
  list i v := by
    rw [hlist]
    show _ ↔ (awaited (Function.update s.requests t (some io) (i, v))).isSome
    by_cases ht : (i, v) = t
    · rw [if_pos ht, ht, Function.update_self, awaited_isSome]
      simp
    · rw [if_neg ht, Function.update_of_ne ht, h.list]
  own u io' hio' := by
    change Function.update s.requests t (some io) u = some io' at hio'
    by_cases hu : u = t
    · subst hu
      rw [Function.update_self] at hio'
      cases hio'
      exact hown
    · rw [Function.update_of_ne hu] at hio'
      exact h.own u io' hio'
  ring u := by
    show (Function.update s.rings t ring u).Holds completion
      (awaited (Function.update s.requests t (some io) u))
    by_cases hu : u = t
    · subst hu
      rwa [Function.update_self, Function.update_self]
    · rw [Function.update_of_ne hu, Function.update_of_ne hu]
      exact h.ring u

/-- **Preserved by every step.** -/
theorem Matched.step (h : Matched s) (hs : Step s e s') : Matched s' := by
  cases hs with
  | @file i v type fileHandle ioBuffer offset ring r io hv hio hring hr =>
      refine h.update (h.runtime.tail (e := .user i .io) hr) ?_ (by rw [hio]; rfl) ?_
      · intro j u
        rw [Runtime.mem_pendingIo h.runtime hr]
        split
        · rename_i hju
          cases hju
          simp [hv, IoRequest.pending]
        · rename_i hju
          have hnew : ¬ (Runtime.Event.user i .io = .user j .io ∧
              s.runtime.taskWorker j = some u) := by
            intro ⟨hij, hu⟩
            cases hij
            rw [hv] at hu
            cases hu
            exact hju rfl
          rw [or_iff_left hnew]
          simp [polls]
      · rw [awaited_pending rfl]
        exact hring
  | @report t n res ring hring =>
      refine ⟨h.runtime, h.list, h.own, ?_⟩
      intro u
      show (Function.update s.rings t ring u).Holds completion (awaited (s.requests u))
      by_cases hu : u = t
      · subst hu
        rw [Function.update_self]
        exact (h.ring u).report hring
      · rw [Function.update_of_ne hu]
        exact h.ring u
  | @answered e t io st ring r hp hio hpend hst hring hr =>
      have hnot : IoRequest.pending { io with state := st } = false := by
        simp [IoRequest.pending, hst.not_pending]
      refine h.update (h.runtime.tail (e := e) hr) ?_ (h.own t io hio) ?_
      · intro j u
        rw [Runtime.mem_pendingIo h.runtime hr, hp]
        have hio' : e ≠ .user j .io := by
          rw [(Runtime.polls_eq_some.mp hp).1]
          nofun
        split
        · rename_i hju
          simp [hju, hnot, hio']
        · rename_i hju
          simp [hio', Ne.symm hju]
      · rw [awaited_not_pending hnot]
        exact hring
  | @other e r hp he hr =>
      refine ⟨h.runtime.tail (e := e) hr, ?_, h.own, h.ring⟩
      intro j u
      rw [Runtime.mem_pendingIo h.runtime hr, ← h.list]
      simp [hp, he]

theorem matched_reachable (h : (machine c).Reachable s) : Matched s :=
  Machine.Reach.invariant (fun _ => matched_init)
    (fun _ _ _ _ _ hn hm => hm.step (step_of_next hm hn)) h

/-! ## The life of a request -/

/-- The worker of the thread `t` issues a request. -/
def Issues (s : System c) (t : Thread c) (e : Event c) : Prop :=
  s.runtime.taskWorker t.1 = some t.2 ∧
    ∃ type fileHandle ioBuffer offset, e = .file t.1 type fileHandle ioBuffer offset

/-- **A step leaves a request as it is, or takes it one state further,** unless its worker issues
another. -/
theorem Step.request {io : IoRequest (Thread c)} (hs : Step s e s') (hno : ¬ Issues s t e)
    (hio : s.requests t = some io) :
    s'.requests t = some io ∨
      ∃ st, Moves io.state st ∧ s'.requests t = some { io with state := st } := by
  cases hs with
  | @file i v _ _ _ _ _ _ _ hv =>
      left
      have ht : t ≠ (i, v) := by
        intro ht
        subst ht
        exact hno ⟨hv, _, _, _, _, rfl⟩
      exact (Function.update_of_ne ht _ _).trans hio
  | report | other => exact Or.inl hio
  | @answered e u io' st ring r hp hio' hpend hst =>
      by_cases hu : t = u
      · subst hu
        right
        rw [hio] at hio'
        cases hio'
        exact ⟨st, hpend ▸ hst, Function.update_self ..⟩
      · left
        exact (Function.update_of_ne hu _ _).trans hio

/-- **Along a run a request moves on**, until its worker issues another. -/
theorem request_run {io : IoRequest (Thread c)} {es : List (Event c)}
    (h : (machine c).Reachable s) (hio : s.requests t = some io)
    (hrun : (machine c).run s es = some s')
    (hno : (machine c).Meets (fun q e => ¬ Issues q t e) s es) :
    ∃ st, Relation.ReflTransGen Moves io.state st ∧
      s'.requests t = some { io with state := st } := by
  induction es generalizing s io with
  | nil =>
      rw [Machine.run_nil] at hrun
      cases hrun
      exact ⟨io.state, .refl, hio⟩
  | cons e es ih =>
      obtain ⟨m, hm, hrun⟩ := Machine.run_cons_some hrun
      rcases (step_of_next (matched_reachable h) hm).request hno.1 hio with
        hsame | ⟨st, hmoves, hnew⟩
      · exact ih (h.tail hm) hsame hrun (hno.2 m hm)
      · obtain ⟨st', hmoves', hnew'⟩ := ih (h.tail hm) hnew hrun (hno.2 m hm)
        exact ⟨st', .head hmoves hmoves', hnew'⟩

/-- **A worker leaves the list in the step in which its request completes or fails.** -/
theorem Matched.leaves (h : Matched s) (hn : next s e = some s')
    (hv : v ∈ (s.runtime.sched i).pendingIoQueue) :
    v ∉ (s'.runtime.sched i).pendingIoQueue ↔ ∃ io st, s.requests (i, v) = some io ∧
      Moves io.state st ∧ s'.requests (i, v) = some { io with state := st } := by
  have hs := step_of_next h hn
  have h' := h.step hs
  obtain ⟨io, hio, hpend⟩ := awaited_isSome.mp ((h.list i v).mp hv)
  have hst : io.state = .pending := by simpa [IoRequest.pending] using hpend
  rw [h'.list, awaited_isSome]
  constructor
  · intro hnot
    have hno : ¬ Issues s (i, v) e := by
      intro hiss
      exact Runtime.not_mem_pendingIo h.runtime hiss.1 hv
    rcases hs.request hno hio with hsame | ⟨st, hmoves, hnew⟩
    · exact absurd ⟨io, hsame, hpend⟩ hnot
    · exact ⟨io, st, hio, hmoves, hnew⟩
  · intro ⟨io', st, hio', hmoves, hnew⟩ ⟨io'', hio'', hpend'⟩
    rw [hio] at hio'
    cases hio'
    rw [hnew] at hio''
    cases hio''
    rw [hst] at hmoves
    exact hmoves.not_pending (by simpa [IoRequest.pending] using hpend')

/-- **Nothing stands in the way of the next request.** -/
theorem Matched.file (h : Matched s) (hv : s.runtime.taskWorker i = some v) (type : IoType)
    (fileHandle : BitVec 32) (ioBuffer : IoBuffer) (offset : BitVec 64) :
    ∃ s', next s (.file i type fileHandle ioBuffer offset) = some s' ∧
      s'.requests (i, v) = some
        { IoRequest.new (i, v) s.ioCnt type fileHandle ioBuffer offset with
          state := .pending } := by
  obtain ⟨ring, -, hsub⟩ := uringSubmit_spec
    (.new (i, v) s.ioCnt type fileHandle ioBuffer offset) rfl (h.holds_none hv)
  have hsome : (next s (.file i type fileHandle ioBuffer offset)).isSome := by
    have hpark : (Runtime.next s.runtime (.user i .io)).isSome := by
      rw [Runtime.next, hv]
      rfl
    rw [next, hv]
    simpa [fileStep, hsub, IoRequest.pending] using hpark
  obtain ⟨s', hn⟩ := Option.isSome_iff_exists.mp hsome
  refine ⟨s', hn, ?_⟩
  cases step_of_next h hn with
  | file hv' hio =>
      rw [hv] at hv'
      cases hv'
      cases hio
      exact Function.update_self ..

/-- **Completions match.** In every state that a run reaches: on the ring of a worker's thread there
is what the worker's own request waits for, which is one operation or its completion at most;
whichever request is asked for is pending, what is found for it is its own completion, and the
assertions hold; a request that is issued is pending and moves on to completed or error and nowhere
else; the workers on the lists are those whose request is pending, and they leave in the step in
which it is no longer; and the ring of a worker that runs is empty. -/
theorem io_completions_match (h : (machine c).Reachable s) :
    (∀ t, (s.rings t).inFlight.length + (s.rings t).completions.length ≤ 1 ∧
      (s.rings t).Holds completion (awaited (s.requests t)) ∧
      ∀ io, s.requests t = some io → io.ioHandle.uring = t) ∧
    (∀ e t b, polls s.runtime e = some (t, b) →
      ∃ io, s.requests t = some io ∧ io.pending = true ∧ uringUpdate s.rings io ≠ none ∧
        ∀ cqe, (s.rings io.ioHandle.uring).peek = some cqe →
          cqe.data64 = io.ioHandle.id ∧ ∃ res, cqe = completion io.sqe res) ∧
    (∀ t io es s', s.requests t = some io → (machine c).run s es = some s' →
      (machine c).Meets (fun q e => ¬ Issues q t e) s es →
      ∃ st, Relation.ReflTransGen Moves io.state st ∧
        s'.requests t = some { io with state := st }) ∧
    (∀ i v, (v ∈ (s.runtime.sched i).pendingIoQueue ↔
        ∃ io, s.requests (i, v) = some io ∧ io.pending = true) ∧
      ∀ e s', next s e = some s' → v ∈ (s.runtime.sched i).pendingIoQueue →
        (v ∉ (s'.runtime.sched i).pendingIoQueue ↔ ∃ io st, s.requests (i, v) = some io ∧
          Moves io.state st ∧ s'.requests (i, v) = some { io with state := st })) ∧
    ∀ i v, s.runtime.taskWorker i = some v → s.rings (i, v) = {} ∧
      ∀ type fileHandle ioBuffer offset,
        ∃ s', next s (.file i type fileHandle ioBuffer offset) = some s' ∧
          s'.requests (i, v) = some
            { IoRequest.new (i, v) s.ioCnt type fileHandle ioBuffer offset with
              state := .pending } := by
  have hm := matched_reachable h
  refine ⟨?_, ?_, ?_, ?_, ?_⟩
  · intro t
    have hring := hm.ring t
    have hle := hring.length_le
    exact ⟨by omega, hring, hm.own t⟩
  · intro e t b hp
    obtain ⟨io, hio, hst, hpoll⟩ := hm.pollStep_spec hp
    have hup : (pollStep s t).isSome → uringUpdate s.rings io ≠ none := by
      intro hsome hnone
      rw [pollStep, hio] at hsome
      simp [hnone] at hsome
    refine ⟨io, hio, by simp [IoRequest.pending, hst], ?_, ?_⟩
    · rcases hpoll with ⟨-, hpoll⟩ | ⟨_, _, _, -, -, -, hpoll⟩
      · exact hup (by rw [hpoll]; rfl)
      · exact hup (by rw [hpoll]; rfl)
    · intro cqe hcqe
      rw [hm.own t io hio] at hcqe
      rcases hpoll with ⟨hpeek, -⟩ | ⟨res, _, _, hpeek, -, -, -⟩
      · rw [hpeek] at hcqe
        cases hcqe
      · rw [hpeek] at hcqe
        cases hcqe
        exact ⟨rfl, res, rfl⟩
  · intro t io es s' hio hrun hno
    exact request_run h hio hrun hno
  · intro i v
    refine ⟨(hm.list i v).trans awaited_isSome, ?_⟩
    intro e s' hn hv
    exact hm.leaves hn hv
  · intro i v hv
    exact ⟨(hm.holds_none hv).eq_empty, hm.file hv⟩

open Ums.Runtime (oneWorker only onlyWorker startRun) in
/-- The only worker of the smallest configuration reads four bytes, and its scheduler finds the
completion. -/
theorem io_completions_match_read : ∃ s io, (machine oneWorker).Reachable s ∧
    (s.rings (only, onlyWorker)).peek = some ⟨0, 4⟩ ∧
    s.requests (only, onlyWorker) = some io ∧ io.pending = true ∧ uringUpdate s.rings io ≠ none ∧
    io.ioHandle.id = 0 := by
  obtain ⟨s, hr, hp⟩ := Lib.Machine.exists_of_run (M := machine oneWorker)
    (p := fun s => decide ((s.rings (only, onlyWorker)).peek = some ⟨0, 4⟩) &&
      decide (polls s.runtime (.code only true) = some ((only, onlyWorker), true)))
    (s := ⟨Runtime.System.constructed oneWorker 0, fun _ => {}, fun _ => none, 0⟩)
    (.init ⟨⟨0, rfl⟩, fun _ => rfl, fun _ => rfl, rfl⟩)
    (startRun.map .runtime ++
      [.runtime (.loop only), .file only .read 3 ⟨0, 4⟩ 0, .report (only, onlyWorker) 0 4])
    (by decide +kernel)
  simp only [Bool.and_eq_true, decide_eq_true_eq] at hp
  obtain ⟨hrings, hpolls, -⟩ := io_completions_match hr
  obtain ⟨io, hio, hpend, hup, hpeek⟩ := hpolls _ _ _ hp.2
  have hown := (hrings (only, onlyWorker)).2.2 io hio
  have hid := (hpeek ⟨0, 4⟩ (by rw [hown]; exact hp.1)).1
  exact ⟨s, io, hr, hp.1, hio, hpend, hup, hid.symm⟩

end Io

end Ums
