import Ums.Runtime.System

/-!
# What a step can do

`next` is a function of the state and a label. The proofs go by cases on what one
statement did, so each outcome is listed here once, with what the thread found out
on the way: `Code` for the scheduling code of one scheduler, `Main` for the main
thread, and `Step` for the whole system. `step_of_next` is the only place where
the step function is unfolded.
-/

namespace Ums.Runtime

open Lib

variable {c : Config} {s s' : System c}

/-! ## The scheduling code -/

/-- The outcomes of a statement of the scheduling code of scheduler `i`. -/
inductive Code (s : System c) (i : SchedId c) (x : Scheduler c.workers) :
    Pc c → Scheduler c.workers → Pc c → Prop
  | ioEnd {it} (h : x.pendingIoQueue[it]? = none) :
      Code s i x (.scheduleIo it) x (.scheduleWaiting 0)
  | ioRound {it v} (completed : Bool) (h : x.pendingIoQueue[it]? = some v) :
      Code s i x (.scheduleIo it) (x.scheduleIoWorker it v completed).1
        (.scheduleIo (x.scheduleIoWorker it v completed).2)
  | waitingEnd {it} (h : x.waitingQueue[it]? = none) :
      Code s i x (.scheduleWaiting it) x .scheduleIdle
  | waitingRound {it v} (h : x.waitingQueue[it]? = some v) :
      Code s i x (.scheduleWaiting it) (x.scheduleWaitingWorker it v s.now).1
        (.scheduleWaiting (x.scheduleWaitingWorker it v s.now).2)
  | idleTry (hr : x.runnableQueue = []) (hi : x.idleQueue ≠ []) (ht : x.tasks.queue ≠ []) :
      Code s i x .scheduleIdle x .nextTask
  | idleSkip (h : x.runnableQueue = [] → x.idleQueue ≠ [] → x.tasks.queue = []) :
      Code s i x .scheduleIdle x .scheduleYielded
  | nextNone (h : x.tasks.queue = []) : Code s i x .nextTask x .scheduleYielded
  | nextSome {t rest} (h : x.tasks.queue = t :: rest) :
      Code s i x .nextTask x.dropTask (.assign t false)
  | assign {t stolen y q} (h : x.assignTask t = some y)
      (hq : q = if stolen then .dispatch else .scheduleYielded) : Code s i x (.assign t stolen) y q
  | yielded : Code s i x .scheduleYielded x.scheduleYieldedWorkers .stealWork
  | stealSkip (h : x.runnableQueue ≠ [] ∨ x.idleQueue = []) : Code s i x .stealWork x .dispatch
  | stealStart (hr : x.runnableQueue = []) (hi : x.idleQueue ≠ []) :
      Code s i x .stealWork x (.steal 0)
  | stealSelf {k} (h : k < c.schedulers) (hk : k = i.val) :
      Code s i x (.steal k) x (.steal (k + 1))
  | stealEmpty {k} (h : k < c.schedulers) (hk : k ≠ i.val)
      (hq : (s.sched ⟨k, h⟩).tasks.queue = []) : Code s i x (.steal k) x (.steal (k + 1))
  | stealOne {k} (h : k < c.schedulers) (hk : k ≠ i.val) :
      Code s i x (.steal k) x (.stealLoad ⟨k, h⟩)
  | stealMany {k} (h : k < c.schedulers) (hk : k ≠ i.val) :
      Code s i x (.steal k) x (.stealTake ⟨k, h⟩)
  | stealEnd {k} (h : ¬k < c.schedulers) : Code s i x (.steal k) x .dispatch
  | loadSome {k : SchedId c} : Code s i x (.stealLoad k) x (.stealTake k)
  | loadNone {k : SchedId c} (h : (s.sched k).stateLoad ≤ 0) :
      Code s i x (.stealLoad k) x (.steal (k.val + 1))
  | exec {y} (h : x.prepareExec = some y) : Code s i x .dispatch y .user
  | toSleep (h : x.runnableQueue = []) : Code s i x .dispatch x .sleep
  | ioPending : Code s i x .sleep x .shouldExit
  | startTimer (h : x.pendingIoQueue = []) :
      Code s i x .sleep (x.startIdleTimer s.now) .sleepSpin
  | spin : Code s i x .sleepSpin x .shouldExit
  | lockNext : Code s i x .sleepSpin x .sleepLock
  | lock (h : s.mtxFree i = true) : Code s i x .sleepLock x .sleepCheck
  | ownTask : Code s i x .sleepCheck x .shouldExit
  | noTask (h : x.idleQueue ≠ [] → x.tasks.queue = []) : Code s i x .sleepCheck x .sleepExit
  | leave : Code s i x .sleepExit x .shouldExit
  | stay (h : x.exit = false ∨ x.waitingQueue ≠ [] ∨ x.tasks.queue ≠ []) :
      Code s i x .sleepExit x .sleepWaiting
  | condSet : Code s i x .sleepWaiting x .shouldExit
  | condClear (hw : x.waitingQueue ≠ []) (hc : x.waitersCond = false) :
      Code s i x .sleepWaiting x (.sleepBlock (wrap64 (x.earliestWait - idleSleepThreshold)))
  | noWaiting (hw : x.waitingQueue = []) :
      Code s i x .sleepWaiting { x with state := .idleSleep } .signalIdle
  | due {d} (h : d ≤ (s.now : Time)) : Code s i x (.sleepBlock d) x .shouldExit
  | block {d} (h : (s.now : Time) < d) :
      Code s i x (.sleepBlock d) { x with state := .idleWait, running := false, cv := .blocked }
        (.idleWait d)
  | wake {d} (hf : s.mtxFree i = true) (hr : x.running = true ∨ d ≤ (s.now : Time)) :
      Code s i x (.idleWait d) { x with running := true, state := .running, cv := .awake }
        .shouldExit
  | waitAgain {d} (hf : s.mtxFree i = true) (hr : x.running = false) (hd : (s.now : Time) < d) :
      Code s i x (.idleWait d) { x with cv := .blocked } (.idleWait d)
  | idleLeave (h : x.tasks.queue ≠ [] ∨ x.exit = true) : Code s i x .idleCheck x .signalRunning
  | idleStay (hq : x.tasks.queue = []) (he : x.exit = false) : Code s i x .idleCheck x .idleBlock
  | idleBlock : Code s i x .idleBlock { x with cv := .blocked } .idleSleep
  | idleWake (hf : s.mtxFree i = true) : Code s i x .idleSleep { x with cv := .awake } .idleCheck
  | exit (h : x.exit = true) : Code s i x .shouldExit x.exitNow .exited
  | again (h : x.exit = false) : Code s i x .shouldExit x (.scheduleIo 0)

/-- The scheduling code does nothing but what `Code` lists. -/
theorem code_of_codeStep {i : SchedId c} {completed : Bool} {x y : Scheduler c.workers} {p q : Pc c}
    (h : codeStep s i completed x p = some (y, q)) : Code s i x p y q := by
  cases p <;> simp only [codeStep, reduceCtorEq] at h
  case scheduleIo it =>
    split at h <;> cases h
    · exact .ioEnd ‹_›
    · exact .ioRound completed ‹_›
  case scheduleWaiting it =>
    split at h <;> cases h
    · exact .waitingEnd ‹_›
    · exact .waitingRound ‹_›
  case scheduleIdle =>
    split at h <;> rename_i hc <;> cases h <;> simp at hc
    · exact .idleTry hc.1.1 hc.1.2 hc.2
    · exact .idleSkip hc
  case nextTask =>
    rcases x.tasks.deque_cases with ⟨hq, hd⟩ | ⟨t, rest, hq, ht, _⟩
    · rw [hd] at h
      cases h
      exact .nextNone hq
    · rw [ht] at h
      cases h
      exact .nextSome hq
  case assign t stolen =>
    obtain ⟨z, hz, he⟩ := Option.map_eq_some_iff.mp h
    cases he
    exact .assign hz rfl
  case scheduleYielded =>
    cases h
    exact .yielded
  case stealWork =>
    split at h <;> rename_i hc <;> cases h <;> simp at hc
    · exact .stealSkip hc
    · exact .stealStart hc.1 hc.2
  case steal k =>
    split at h
    · split at h
      · cases h
        exact .stealSelf ‹_› ‹_›
      · rename_i hk hne
        split at h <;> cases h
        · rename_i hsz
          rw [Tasks.sized, List.length_eq_zero_iff] at hsz
          exact .stealEmpty hk hne hsz
        · exact .stealOne hk hne
        · exact .stealMany hk hne
    · cases h
      exact .stealEnd ‹_›
  case stealLoad k =>
    split at h <;> cases h
    · exact .loadSome
    · exact .loadNone (by omega)
  case dispatch =>
    split at h
    · obtain ⟨z, hz, he⟩ := Option.map_eq_some_iff.mp h
      cases he
      exact .exec hz
    · rename_i hc
      cases h
      exact .toSleep (by simpa using hc)
  case sleep =>
    split at h <;> rename_i hc <;> cases h
    · exact .ioPending
    · exact .startTimer (by simpa using hc)
  case sleepSpin =>
    cases h
    split
    · exact .spin
    · exact .lockNext
  case sleepLock =>
    split at h <;> cases h
    exact .lock ‹_›
  case sleepCheck =>
    split at h <;> rename_i hc <;> cases h <;> simp at hc
    · exact .ownTask
    · exact .noTask fun hi => by_contra fun hq => hi (hc hq)
  case sleepExit =>
    split at h <;> rename_i hc <;> cases h
    · exact .leave
    · refine .stay ?_
      simp at hc
      by_cases he : x.exit = true
      · by_cases hw : x.waitingQueue = []
        · exact Or.inr (Or.inr (hc he hw))
        · exact Or.inr (Or.inl hw)
      · exact Or.inl (by simpa using he)
  case sleepWaiting =>
    split at h
    · rename_i hw
      split at h <;> rename_i hc <;> cases h
      · exact .condSet
      · exact .condClear (by simpa using hw) (by simpa using hc)
    · rename_i hw
      cases h
      exact .noWaiting (by simpa using hw)
  case sleepBlock d =>
    split at h <;> rename_i hd <;> cases h
    · exact .due hd
    · exact .block (Int.not_le.mp hd)
  case idleWait d =>
    split at h
    · rename_i hf
      split at h <;> rename_i hc <;> cases h <;> simp at hc
      · exact .wake hf hc
      · exact .waitAgain hf hc.1 hc.2
    · cases h
  case idleCheck =>
    split at h <;> rename_i hc <;> cases h <;> simp at hc
    · exact .idleLeave hc
    · exact .idleStay hc.1 hc.2
  case idleBlock =>
    cases h
    exact .idleBlock
  case idleSleep =>
    split at h <;> cases h
    exact .idleWake ‹_›
  case shouldExit =>
    split at h <;> rename_i he <;> cases h
    · exact .exit he
    · exact .again (by simpa using he)

/-! ## The main thread -/

/-- The outcomes of a statement of the main thread outside of `async`. -/
inductive Main (s : System c) : System c → Prop
  | flagSet (hm : s.main = .predicate) (hc : s.checkIdle = true) :
      Main s { s with checkIdle := false, main := .allIdleCount }
  | flagClear (hm : s.main = .predicate) (hc : s.checkIdle = false) :
      Main s { s with main := .blocked false }
  | countFew (hm : s.main = .allIdleCount) (h : s.idleSchedulers < c.schedulers) :
      Main s { s with main := .relock false }
  | countAll (hm : s.main = .allIdleCount) (h : c.schedulers ≤ s.idleSchedulers) :
      Main s { s with main := .allIdleTasks 0 }
  | tasksSome {k} (hm : s.main = .allIdleTasks k) (h : k < c.schedulers)
      (hq : (s.sched ⟨k, h⟩).tasks.queue ≠ []) : Main s { s with main := .relock false }
  | tasksNone {k} (hm : s.main = .allIdleTasks k) (h : k < c.schedulers)
      (hq : (s.sched ⟨k, h⟩).tasks.queue = []) : Main s { s with main := .allIdleTasks (k + 1) }
  | tasksEnd {k} (hm : s.main = .allIdleTasks k) (h : c.schedulers ≤ k) :
      Main s { s with main := .allIdleLock 0 }
  | lock {k} (hm : s.main = .allIdleLock k) (h : k < c.schedulers)
      (hf : (s.pc ⟨k, h⟩).holdsMtx = false) : Main s { s with main := .allIdleLock (k + 1) }
  | lockEnd {k} (hm : s.main = .allIdleLock k) (h : c.schedulers ≤ k) :
      Main s { s with main := .allIdleState 0 }
  | stateIdle {k} (hm : s.main = .allIdleState k) (h : k < c.schedulers)
      (hi : (s.sched ⟨k, h⟩).state = .idleSleep) (hq : (s.sched ⟨k, h⟩).tasks.queue = []) :
      Main s { s with main := .allIdleState (k + 1) }
  | stateBusy {k} (hm : s.main = .allIdleState k) (h : k < c.schedulers)
      (hb : (s.sched ⟨k, h⟩).state = .idleSleep → (s.sched ⟨k, h⟩).tasks.queue ≠ []) :
      Main s { s with main := .allIdleUnlock 0 false }
  | stateEnd {k} (hm : s.main = .allIdleState k) (h : c.schedulers ≤ k) :
      Main s { s with main := .allIdleUnlock 0 true }
  | unlock {k r} (hm : s.main = .allIdleUnlock k r) (h : k < c.schedulers) :
      Main s { s with main := .allIdleUnlock (k + 1) r }
  | unlockEnd {k r} (hm : s.main = .allIdleUnlock k r) (h : c.schedulers ≤ k) :
      Main s { s with main := .relock r }
  | returnTrue (hm : s.main = .relock true) : Main s { s with main := .exitSignal 0 }
  | returnFalse (hm : s.main = .relock false) : Main s { s with main := .blocked false }
  | wake {b} (hm : s.main = .blocked b) : Main s { s with main := .predicate }
  | exitSignal {k} (hm : s.main = .exitSignal k) (h : k < c.schedulers) :
      Main s { s.setSched ⟨k, h⟩ (s.sched ⟨k, h⟩).signalExit with main := .exitNotify ⟨k, h⟩ }
  | exitEnd {k} (hm : s.main = .exitSignal k) (h : c.schedulers ≤ k) :
      Main s { s with main := .done }
  | exitNotify {k} (hm : s.main = .exitNotify k) (hf : s.mtxFree k = true) :
      Main s { s.setSched k (s.sched k).notifySection with main := .exitNotifyOne k }
  | exitNotifyOne {k} (hm : s.main = .exitNotifyOne k) :
      Main s { s.setSched k (s.sched k).notifyCv with main := .exitJoin k }
  | exitJoin {k} (hm : s.main = .exitJoin k) (hp : s.pc k = .exited) :
      Main s { s with main := .exitSignal (k.val + 1) }

/-- The main thread does nothing but what `Main` lists. -/
theorem main_of_mainStep (h : mainStep s s.main = some s') : Main s s' := by
  cases hm : s.main <;> rw [hm] at h <;> simp only [mainStep, reduceCtorEq] at h
  case predicate =>
    split at h <;> rename_i hc <;> cases h
    · exact .flagSet hm hc
    · exact .flagClear hm (by simpa using hc)
  case allIdleCount =>
    split at h <;> rename_i hc <;> cases h
    · exact .countFew hm hc
    · exact .countAll hm (by omega)
  case allIdleTasks k =>
    split at h
    · rename_i hk
      split at h <;> rename_i hq <;> cases h <;> simp at hq
      · exact .tasksSome hm hk hq
      · exact .tasksNone hm hk hq
    · cases h
      exact .tasksEnd hm (by omega)
  case allIdleLock k =>
    split at h
    · rename_i hk
      split at h <;> rename_i hf <;> cases h
      exact .lock hm hk (by simpa using hf)
    · cases h
      exact .lockEnd hm (by omega)
  case allIdleState k =>
    split at h
    · rename_i hk
      split at h <;> rename_i hi <;> cases h <;> simp [Scheduler.idle] at hi
      · exact .stateIdle hm hk hi.1 hi.2
      · exact .stateBusy hm hk hi
    · cases h
      exact .stateEnd hm (by omega)
  case allIdleUnlock k r =>
    split at h <;> cases h
    · exact .unlock hm ‹_›
    · exact .unlockEnd hm (by omega)
  case relock r =>
    cases r <;> cases h
    · exact .returnFalse hm
    · exact .returnTrue hm
  case blocked b =>
    cases h
    exact .wake hm
  case exitSignal k =>
    split at h <;> cases h
    · exact .exitSignal hm ‹_›
    · exact .exitEnd hm (by omega)
  case exitNotify k =>
    split at h <;> cases h
    exact .exitNotify hm ‹_›
  case exitNotifyOne k =>
    cases h
    exact .exitNotifyOne hm
  case exitJoin k =>
    split at h <;> cases h
    exact .exitJoin hm ‹_›

/-! ## Changing one scheduler -/

namespace System

variable {P : SchedId c → Scheduler c.workers → Pc c → Prop} {i : SchedId c}
  {y : Scheduler c.workers} {q : Pc c}

section

variable {a : Thread c} {r : Option (Call c)}

@[simp] theorem setCall_sched : (s.setCall a r).sched = s.sched := by cases a <;> rfl

@[simp] theorem setCall_idleSchedulers : (s.setCall a r).idleSchedulers = s.idleSchedulers := by
  cases a <;> rfl

@[simp] theorem setCall_checkIdle : (s.setCall a r).checkIdle = s.checkIdle := by cases a <;> rfl

@[simp] theorem setCall_nextTask : (s.setCall a r).nextTask = s.nextTask := by cases a <;> rfl

@[simp] theorem setCall_invoked : (s.setCall a r).invoked = s.invoked := by cases a <;> rfl

@[simp] theorem setCall_setCall {r' : Option (Call c)} :
    (s.setCall a r).setCall a r' = s.setCall a r' := by
  cases a with
  | active i =>
      simp only [System.setCall, System.setPc]
      rw [Function.update_idem]
  | main => rfl

@[simp] theorem setCall_notified : (s.setCall a r).notified = s.notified := by cases a <;> rfl

end

theorem forall_setBoth (h : ∀ j, j ≠ i → P j (s.sched j) (s.pc j)) (hi : P i y q)
    (j : SchedId c) :
    P j ((s.setBoth i y q).sched j) ((s.setBoth i y q).pc j) := by
  by_cases hj : j = i
  · subst hj; simpa using hi
  · simpa [hj] using h j hj

theorem forall_setSched (h : ∀ j, j ≠ i → P j (s.sched j) (s.pc j)) (hi : P i y (s.pc i))
    (j : SchedId c) :
    P j ((s.setSched i y).sched j) ((s.setSched i y).pc j) := by
  by_cases hj : j = i
  · subst hj; simpa using hi
  · simpa [hj] using h j hj

theorem forall_setPc (h : ∀ j, j ≠ i → P j (s.sched j) (s.pc j)) (hi : P i (s.sched i) q)
    (j : SchedId c) :
    P j ((s.setPc i q).sched j) ((s.setPc i q).pc j) := by
  by_cases hj : j = i
  · subst hj; simpa using hi
  · simpa [hj] using h j hj

end System

/-! ## The whole system -/

/-- The outcomes of a step of the system. -/
inductive Step (s : System c) : Event c → System c → Prop
  | user {i op v y p} (hw : s.taskWorker i = some v)
      (hu : userStep s.now (s.sched i) v op = some (y, p)) : Step s (.user i op) (s.setBoth i y p)
  | async {i v} (hw : s.taskWorker i = some v) :
      Step s (.async i) (s.setPc i (.call (.minLoad 1 ⟨0, c.schedulers_pos⟩ .nothing)))
  | notifyWaiter {i j u v} (hw : s.taskWorker i = some u) :
      Step s (.notifyWaiter i j v)
        ((s.setSched j ((s.sched j).setCond v)).setPc i (.call (.notify j (.cond v))))
  | invoke {i v t} (hp : s.pc i = .user) (hv : (s.sched i).worker = some v)
      (hl : ((s.sched i).workers v).loop = .sync) (ht : ((s.sched i).workers v).task = some t) :
      Step s (.loop i)
        { s.setSched i ((s.sched i).setWorker v { (s.sched i).workers v with loop := .invoke }) with
          invoked := t :: s.invoked }
  | invoked {i v t} (hp : s.pc i = .user) (hv : (s.sched i).worker = some v)
      (hl : ((s.sched i).workers v).loop = .invoke) (ht : ((s.sched i).workers v).task = some t) :
      Step s (.loop i)
        (s.setSched i ((s.sched i).setWorker v { (s.sched i).workers v with loop := .notify }))
  | finish {i v t} (hp : s.pc i = .user) (hv : (s.sched i).worker = some v)
      (hl : ((s.sched i).workers v).loop = .notify) (ht : ((s.sched i).workers v).task = some t) :
      Step s (.loop i)
        { s.setBoth i (((s.sched i).setWorker v
            { (s.sched i).workers v with task := none, loop := .sync }).parkWorker .main v)
            (.scheduleIo 0) with
          notified := t :: s.notified }
  | compare {a k best seen k' b r} (hc : s.callOf a = some (.minLoad k best seen)) :
      Step s (.call a) (s.setCall a (some (.minLoad k' b r)))
  | choose {a k best seen} (hc : s.callOf a = some (.minLoad k best seen)) :
      Step s (.call a) (s.setCall a (some (.enque best)))
  | enque {a j} (hc : s.callOf a = some (.enque j)) :
      Step s (.call a)
        (({ s.setSched j ((s.sched j).enque s.nextTask) with
          nextTask := s.nextTask + 1 } : System c).setCall a (some (.notify j (.task s.nextTask))))
  | notifySection {a j p} (hc : s.callOf a = some (.notify j p)) (hf : s.mtxFree j = true) :
      Step s (.call a)
        ((s.setSched j (s.sched j).notifySection).setCall a (some (.notifyOne j p)))
  | notifyCv {a j p} (hc : s.callOf a = some (.notifyOne j p)) :
      Step s (.call a) ((s.setSched j (s.sched j).notifyCv).setCall a none)
  | code {i b y q} (h : Code s i (s.sched i) (s.pc i) y q) : Step s (.code i b) (s.setBoth i y q)
  | stealNone {i k} (hp : s.pc i = .stealTake k) (hq : (s.sched k).tasks.queue = []) :
      Step s (.steal i) (s.setPc i (.steal (k.val + 1)))
  | stealSome {i k t rest} (hp : s.pc i = .stealTake k) (hq : (s.sched k).tasks.queue = t :: rest) :
      Step s (.steal i) ((s.setSched k (s.sched k).dropTask).setPc i (.assign t true))
  | signalFew {i} (hp : s.pc i = .signalIdle) (h : s.idleSchedulers + 1 < c.schedulers) :
      Step s (.signal i) (({ s with idleSchedulers := s.idleSchedulers + 1 } : System c).setBoth i
        { s.sched i with running := false } .idleCheck)
  | signalAll {i} (hp : s.pc i = .signalIdle) (h : c.schedulers ≤ s.idleSchedulers + 1) :
      Step s (.signal i)
        (({ s with idleSchedulers := s.idleSchedulers + 1 } : System c).setPc i .signalLock)
  | signalLock {i} (hp : s.pc i = .signalLock) :
      Step s (.signal i) (({ s with checkIdle := true } : System c).setPc i .signalCv)
  | signalCv {i} (hp : s.pc i = .signalCv) :
      Step s (.signal i) (({ s with main := s.main.notified } : System c).setBoth i
        { s.sched i with running := false } .idleCheck)
  | signalRunning {i} (hp : s.pc i = .signalRunning) :
      Step s (.signal i) (({ s with idleSchedulers := s.idleSchedulers - 1 } : System c).setBoth i
        { s.sched i with state := .running } .shouldExit)
  | main {t} (h : Main s t) : Step s .main t
  | tick {d} : Step s (.tick d) { s with now := s.now + d }

/-- The worker whose task runs, spelled out. -/
theorem taskWorker_eq_some {i : SchedId c} {v : WorkerId c} (h : s.taskWorker i = some v) :
    s.pc i = .user ∧ (s.sched i).worker = some v ∧ ((s.sched i).workers v).loop ≠ .sync := by
  unfold System.taskWorker at h
  split at h
  · rename_i u hp hw
    split at h <;> cases h
    exact ⟨hp, hw, ‹_›⟩
  · cases h

/-- The call of a scheduler's thread, spelled out. -/
theorem callOf_active {i : SchedId c} {k : Call c} (h : s.callOf (.active i) = some k) :
    s.pc i = .call k := by
  cases hp : s.pc i <;> rw [System.callOf, hp] at h <;> cases h
  rfl

/-- A thread is in the call it was told to go on with. -/
theorem callOf_setCall_self {a : Thread c} {r : Option (Call c)} :
    (s.setCall a r).callOf a = r := by
  cases a with
  | active i => cases r <;> simp [System.callOf, System.setCall, Pc.inCall]
  | main => cases r <;> rfl

theorem userStep_ne_exited {now : Time} {x y : Scheduler c.workers} {v : WorkerId c} {op : UserOp c}
    {q : Pc c} (h : userStep now x v op = some (y, q)) : q ≠ .exited := by
  rintro rfl
  cases op <;> simp only [userStep] at h
  · cases h
  · cases h
  · split at h <;> cases h
  · split at h <;> cases h

private theorem step_of_loopStep {i : SchedId c} {v : WorkerId c} (hp : s.pc i = .user)
    (hv : (s.sched i).worker = some v) (h : loopStep s i v = some s') : Step s (.loop i) s' := by
  simp only [loopStep] at h
  split at h
  · cases h
  · rename_i hl ht
    cases h
    exact .invoke hp hv hl ht
  · rename_i hl ht
    cases h
    exact .invoked hp hv hl ht
  · rename_i hl ht
    cases h
    exact .finish hp hv hl ht

private theorem step_of_callStep {a : Thread c} {k : Call c} {r : System c × Option (Call c)}
    (hc : s.callOf a = some k) (h : callStep s k = some r) :
    Step s (.call a) (r.1.setCall a r.2) := by
  cases k with
  | minLoad k best seen =>
      simp only [callStep] at h
      split at h <;> cases h
      · cases seen <;> exact .compare hc
      · exact .choose hc
  | enque j =>
      cases h
      exact .enque hc
  | notify j p =>
      simp only [callStep] at h
      split at h <;> cases h
      exact .notifySection hc ‹_›
  | notifyOne j p =>
      cases h
      exact .notifyCv hc

private theorem step_of_signalStep {i : SchedId c} (h : signalStep s i (s.pc i) = some s') :
    Step s (.signal i) s' := by
  cases hp : s.pc i <;> rw [hp] at h <;> simp only [signalStep, reduceCtorEq] at h
  case signalIdle =>
    split at h <;> cases h
    · exact .signalFew hp ‹_›
    · exact .signalAll hp (by omega)
  case signalLock =>
    cases h
    exact .signalLock hp
  case signalCv =>
    cases h
    exact .signalCv hp
  case signalRunning =>
    cases h
    exact .signalRunning hp

/-- **A step of the system does what one of the outcomes of `Step` says.** -/
theorem step_of_next {e : Event c} (h : next s e = some s') : Step s e s' := by
  cases e with
  | user i op =>
      simp only [next] at h
      split at h
      · obtain ⟨⟨y, p⟩, hu, rfl⟩ := Option.map_eq_some_iff.mp h
        exact .user ‹_› hu
      · cases h
  | async i =>
      simp only [next] at h
      split at h <;> cases h
      exact .async ‹_›
  | notifyWaiter i j v =>
      simp only [next] at h
      split at h <;> cases h
      exact .notifyWaiter ‹_›
  | loop i =>
      simp only [next] at h
      split at h
      · exact step_of_loopStep ‹_› ‹_› h
      · cases h
  | call a =>
      simp only [next] at h
      split at h
      · obtain ⟨r, hr, rfl⟩ := Option.map_eq_some_iff.mp h
        exact step_of_callStep ‹_› hr
      · cases h
  | code i completed =>
      simp only [next] at h
      obtain ⟨⟨y, q⟩, hr, rfl⟩ := Option.map_eq_some_iff.mp h
      exact .code (code_of_codeStep hr)
  | steal i =>
      simp only [next] at h
      split at h
      · rename_i k hp
        cases h
        rcases (s.sched k).tasks.deque_cases with ⟨hq, hd⟩ | ⟨t, rest, hq, ht, _⟩
        · simp only [stealStep, hd]
          exact .stealNone hp hq
        · simp only [stealStep, ht]
          exact .stealSome hp hq
      · cases h
  | signal i => exact step_of_signalStep h
  | main => exact .main (main_of_mainStep h)
  | tick d =>
      cases h
      exact .tick

/-! ## Who moves -/

/-- The scheduler whose thread moves, if one does. -/
def Event.actor : Event c → Option (SchedId c)
  | .user i _ | .async i | .notifyWaiter i _ _ | .loop i | .code i _ | .steal i
  | .signal i => some i
  | .call (.active i) => some i
  | .call .main | .main | .tick _ => none

/-- Only the thread that moves has a new control point. -/
theorem Step.pc_other {e : Event c} {j : SchedId c} (hs : Step s e s') (ha : e.actor ≠ some j) :
    s'.pc j = s.pc j := by
  have hset : ∀ {i : SchedId c} {f : SchedId c → Pc c} {q : Pc c}, some i ≠ some j →
      Function.update f i q j = f j := fun hne =>
    Function.update_of_ne (fun he => hne (congrArg some he.symm)) _ _
  have hcall : ∀ {t : System c} {a : Thread c} {r : Option (Call c)},
      Event.actor (.call a) ≠ some j → (t.setCall a r).pc j = t.pc j := by
    intro t a r hne
    cases a with
    | main => rfl
    | active i => exact hset hne
  cases hs with
  | user | async | notifyWaiter | finish | code | stealNone | stealSome | signalFew | signalAll
  | signalLock | signalCv | signalRunning => exact hset ha
  | compare | choose => exact hcall ha
  | enque | notifySection | notifyCv => exact hcall ha
  | invoke | invoked | tick => rfl
  | main hm => cases hm <;> rfl

/-- What a step of another thread does to a scheduler. -/
inductive Touched (x : Scheduler c.workers) : Scheduler c.workers → Prop
  | kept : Touched x x
  | enque {t} : Touched x (x.enque t)
  | dropTask : Touched x x.dropTask
  | setCond {v} : Touched x (x.setCond v)
  | notifySection : Touched x x.notifySection
  | notifyCv : Touched x x.notifyCv
  | signalExit : Touched x x.signalExit

/-- What is done to a scheduler, seen from a scheduler. -/
theorem touched_setSched {i j : SchedId c} {y : Scheduler c.workers} (h : Touched (s.sched j) y) :
    Touched (s.sched i) ((s.setSched j y).sched i) := by
  by_cases hj : i = j
  · subst hj
    simpa using h
  · simpa [hj] using Touched.kept

/-- **The other threads reach into a scheduler only in the ways `Touched` lists.** -/
theorem Step.touched {e : Event c} {i : SchedId c} (hs : Step s e s') (ha : e.actor ≠ some i) :
    Touched (s.sched i) (s'.sched i) := by
  have hset : ∀ {j : SchedId c} {z : Scheduler c.workers}, some j ≠ some i →
      Touched (s.sched i) (Function.update s.sched j z i) := fun hne => by
    rw [Function.update_of_ne fun he => hne (congrArg some he.symm)]
    exact .kept
  cases hs with
  | user | invoke | invoked | finish | code | signalFew | signalCv | signalRunning => exact hset ha
  | async | stealNone | signalAll | signalLock | tick => exact .kept
  | notifyWaiter => exact touched_setSched .setCond
  | compare | choose => rw [System.setCall_sched]; exact .kept
  | enque => rw [System.setCall_sched]; exact touched_setSched .enque
  | notifySection => rw [System.setCall_sched]; exact touched_setSched .notifySection
  | notifyCv => rw [System.setCall_sched]; exact touched_setSched .notifyCv
  | stealSome => exact touched_setSched .dropTask
  | main hm =>
      cases hm with
      | exitSignal => exact touched_setSched .signalExit
      | exitNotify => exact touched_setSched .notifySection
      | exitNotifyOne => exact touched_setSched .notifyCv
      | _ => exact .kept

/-- A scheduler's thread does to the main thread at most what a notification does. -/
theorem Step.main_of_actor {e : Event c} {i : SchedId c} (hs : Step s e s')
    (ha : e.actor = some i) :
    s'.main = s.main ∨ s'.main = s.main.notified := by
  have hcall : ∀ {t : System c} {a : Thread c} {r : Option (Call c)},
      Event.actor (.call a) = some i → (t.setCall a r).main = t.main := by
    intro t a r he
    cases a with
    | main => cases he
    | active i => rfl
  cases hs with
  | compare | choose => exact Or.inl (hcall ha)
  | enque | notifySection | notifyCv => exact Or.inl (hcall ha)
  | signalCv => exact Or.inr rfl
  | main | tick => cases ha
  | _ => exact Or.inl rfl

/-- The ways of a scheduler's thread from one control point to the next. -/
inductive Turn (s : System c) (i : SchedId c) : Pc c → Pc c → Prop
  | code {p q y} (h : Code s i (s.sched i) p y q) : Turn s i p q
  | task {q} (h : q = .user ∨ q = .scheduleIo 0 ∨ ∃ k, q = .call k) : Turn s i .user q
  | call {k q} (h : q = .user ∨ ∃ k', q = .call k') : Turn s i (.call k) q
  | steal {k : SchedId c} {q} (h : q = .steal (k.val + 1) ∨ ∃ t, q = .assign t true) :
      Turn s i (.stealTake k) q
  | signalFew (h : s.idleSchedulers + 1 < c.schedulers) : Turn s i .signalIdle .idleCheck
  | signalAll : Turn s i .signalIdle .signalLock
  | signalLock : Turn s i .signalLock .signalCv
  | signalCv : Turn s i .signalCv .idleCheck
  | signalRunning : Turn s i .signalRunning .shouldExit

theorem turn_userStep {i : SchedId c} {now : Time} {x y : Scheduler c.workers} {v : WorkerId c}
    {op : UserOp c} {q : Pc c} (h : userStep now x v op = some (y, q)) : Turn s i .user q := by
  refine .task ?_
  cases op <;> simp only [userStep] at h
  · cases h; exact Or.inr (Or.inl rfl)
  · cases h; exact Or.inr (Or.inl rfl)
  · split at h <;> cases h; exact Or.inl rfl
  · split at h <;> cases h
    · exact Or.inl rfl
    · exact Or.inr (Or.inl rfl)

/-- **The thread that moves takes one of its ways.** -/
theorem Step.turn {e : Event c} {i : SchedId c} (hs : Step s e s') (ha : e.actor = some i) :
    Turn s i (s.pc i) (s'.pc i) := by
  -- a call made by the thread of a scheduler is a control point of that scheduler
  have hcall : ∀ {t : System c} {a : Thread c} {k : Call c} {r : Option (Call c)},
      Event.actor (.call a) = some i → s.callOf a = some k →
      Turn s i (s.pc i) ((t.setCall a r).pc i) := by
    intro t a k r he hc
    cases a with
    | main => cases he
    | active j =>
        cases he
        rw [callOf_active hc, show (t.setCall (.active i) r).pc i = r.elim .user .call from
          Function.update_self ..]
        refine .call ?_
        cases r with
        | none => exact Or.inl rfl
        | some k' => exact Or.inr ⟨k', rfl⟩
  cases hs with
  | main | tick => cases ha
  | compare hc | choose hc => exact hcall ha hc
  | enque hc | notifySection hc | notifyCv hc => exact hcall ha hc
  | user hw hu =>
      cases ha
      rw [(taskWorker_eq_some hw).1, System.setBoth_pc, Function.update_self]
      exact turn_userStep hu
  | async hw | notifyWaiter hw =>
      cases ha
      rw [(taskWorker_eq_some hw).1, System.setPc_pc, Function.update_self]
      exact .task (Or.inr (Or.inr ⟨_, rfl⟩))
  | invoke hp | invoked hp =>
      cases ha
      simp only [System.setSched_pc, hp]
      exact .task (Or.inl rfl)
  | finish hp =>
      cases ha
      simp only [System.setBoth_pc, Function.update_self, hp]
      exact .task (Or.inr (Or.inl rfl))
  | code hc =>
      cases ha
      rw [System.setBoth_pc, Function.update_self]
      exact .code hc
  | stealNone hp =>
      cases ha
      rw [hp, System.setPc_pc, Function.update_self]
      exact .steal (Or.inl rfl)
  | stealSome hp =>
      cases ha
      rw [hp, System.setPc_pc, Function.update_self]
      exact .steal (Or.inr ⟨_, rfl⟩)
  | signalFew hp hlt =>
      cases ha
      simp only [System.setBoth_pc, Function.update_self, hp]
      exact .signalFew hlt
  | signalAll hp =>
      cases ha
      simp only [System.setPc_pc, Function.update_self, hp]
      exact .signalAll
  | signalLock hp =>
      cases ha
      simp only [System.setPc_pc, Function.update_self, hp]
      exact .signalLock
  | signalCv hp =>
      cases ha
      simp only [System.setBoth_pc, Function.update_self, hp]
      exact .signalCv
  | signalRunning hp =>
      cases ha
      simp only [System.setBoth_pc, Function.update_self, hp]
      exact .signalRunning

/-- What moves when no scheduler's thread does. -/
theorem Step.main_cases {e : Event c} (hs : Step s e s') (ha : e.actor = none) :
    (e = .main ∧ Main s s') ∨
      ((∃ k, s.main = .call k) ∧ (s'.main = .predicate ∨ ∃ k, s'.main = .call k) ∧
        s'.checkIdle = s.checkIdle ∧ s'.idleSchedulers = s.idleSchedulers) ∨
      (s'.sched = s.sched ∧ s'.main = s.main ∧ s'.checkIdle = s.checkIdle ∧
        s'.idleSchedulers = s.idleSchedulers) := by
  have hcall : ∀ {t : System c} {a : Thread c} {k : Call c} {r : Option (Call c)},
      Event.actor (.call a) = none → s.callOf a = some k →
      (∃ k, s.main = .call k) ∧ ((t.setCall a r).main = .predicate ∨
        ∃ k, (t.setCall a r).main = .call k) := by
    intro t a k r he hc
    cases a with
    | active i => cases he
    | main =>
        refine ⟨⟨k, ?_⟩, ?_⟩
        · cases hm : s.main <;> rw [System.callOf, hm] at hc <;> cases hc
          rfl
        · cases r with
          | none => exact Or.inl rfl
          | some k' => exact Or.inr ⟨k', rfl⟩
  cases hs with
  | compare hc | choose hc =>
      obtain ⟨h1, h2⟩ := hcall (t := s) ha hc
      exact Or.inr (Or.inl ⟨h1, h2, by simp, by simp⟩)
  | enque hc | notifySection hc | notifyCv hc =>
      obtain ⟨h1, h2⟩ := hcall ha hc
      exact Or.inr (Or.inl ⟨h1, h2, by simp, by simp⟩)
  | main hm => exact Or.inl ⟨rfl, hm⟩
  | tick => exact Or.inr (Or.inr ⟨rfl, rfl, rfl, rfl⟩)
  | _ => cases ha

/-- A step of the main thread or of the clock leaves every control point as it is. -/
theorem Step.pc_eq {e : Event c} (hs : Step s e s') (ha : e.actor = none) : s'.pc = s.pc := by
  funext j
  exact hs.pc_other (by rw [ha]; simp)

/-- **What every way of a thread preserves, every step preserves of every control point.** -/
theorem Step.forall_pc {P : SchedId c → Pc c → Prop} {e : Event c} (hs : Step s e s')
    (h : ∀ j, P j (s.pc j)) (ht : ∀ i p q, Turn s i p q → P i p → P i q) (j : SchedId c) :
    P j (s'.pc j) := by
  by_cases hj : e.actor = some j
  · exact ht j _ _ (hs.turn hj) (h j)
  · rw [hs.pc_other hj]
    exact h j

end Ums.Runtime
