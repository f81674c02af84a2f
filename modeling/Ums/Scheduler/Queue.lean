import Ums.Monitor.History
import Ums.Mutex.Spin
import Ums.Scheduler.Basic

/-!
# The task queue, statement by statement

`Tasks` with its spinlock, its `std::deque` and the counter that `size` and `empty` read without
the lock. What is done to `m_tasks` under the lock is one step, and so is each access of
`m_flag` and of `m_size`. Any worker may call any operation at any time.

The queue of `Ums.Tasks`, whose operations are one step each, is what this program looks like
from outside: an operation takes effect as it changes or reads the counter.
-/

namespace Ums.TaskQueue

open Monitor Mutex
open Lib (Object Status)

/-- The members of `Tasks`. -/
structure Data where
  /-- `m_lock.m_flag`. -/
  flag : BitVec 32 := 0#32
  /-- `m_tasks`. -/
  tasks : List TaskId := []
  /-- `m_size`. -/
  size : BitVec 64 := 0#64

/-- The statements of `enque`. -/
inductive EnquePoint where
  /-- `m_lock.lock`. -/
  | lock (p : SpinPoint)
  /-- `m_tasks.push_back`. -/
  | pushBack
  /-- `m_size.fetch_add`. -/
  | fetchAdd
  /-- `m_lock.unlock`. -/
  | unlock
  deriving DecidableEq

/-- The statements of `deque`. -/
inductive DequePoint where
  /-- `m_lock.lock`. -/
  | lock (p : SpinPoint)
  /-- Testing whether `m_tasks` is empty, and taking its front out. -/
  | popFront
  /-- `m_size.fetch_sub`. -/
  | fetchSub (t : TaskId)
  /-- `m_lock.unlock`, and the return. -/
  | unlock (t : Option TaskId)
  deriving DecidableEq

/-- Where a worker is. -/
inductive Ctl where
  /-- In its own code. -/
  | idle
  /-- In `enque`. -/
  | enque (t : TaskId) (p : EnquePoint)
  /-- In `deque`. -/
  | deque (p : DequePoint)
  /-- In `size`, about to read `m_size`. -/
  | size
  /-- In `size`, about to return. -/
  | sizeLeave (n : BitVec 64)
  /-- In `empty`, about to read `m_size`. -/
  | empty
  /-- In `empty`, about to return. -/
  | emptyLeave (b : Bool)
  deriving DecidableEq

namespace Ctl

/-- What a worker may call. -/
def calls : Ctl → Bool
  | .enque _ (.lock .load) | .deque (.lock .load) | .size | .empty => true
  | _ => false

/-- The worker has the lock. -/
def owns : Ctl → Bool
  | .enque _ (.lock _) | .deque (.lock _) => false
  | .enque .. | .deque _ => true
  | _ => false

end Ctl

/-- A command of this program. -/
abbrev Command := Cmd Empty Empty Data Ctl

/-- The flag of the spinlock. -/
def flag : Flag Data where
  get x := x.flag
  set v x := { x with flag := v }
  get_set _ _ := rfl

/-- `enque`. -/
def enqueCode (t : TaskId) : EnquePoint → Command
  | .lock p => flag.spinLock (fun p => .enque t (.lock p)) (.enque t .pushBack) p
  | .pushBack => .act fun _ x => ({ x with tasks := x.tasks ++ [t] }, .enque t .fetchAdd)
  | .fetchAdd => .act fun _ x => ({ x with size := x.size + 1#64 }, .enque t .unlock)
  | .unlock => .act fun _ x => (flag.set 0#32 x, .idle)

/-- `deque`. -/
def dequeCode : DequePoint → Command
  | .lock p => flag.spinLock (fun p => .deque (.lock p)) (.deque .popFront) p
  | .popFront =>
    .act fun _ x =>
      match x.tasks with
      | [] => (x, .deque (.unlock none))
      | t :: rest => ({ x with tasks := rest }, .deque (.fetchSub t))
  | .fetchSub t => .act fun _ x => ({ x with size := x.size - 1#64 }, .deque (.unlock (some t)))
  | .unlock _ => .act fun _ x => (flag.set 0#32 x, .idle)

/-- The program. -/
def code : Ctl → Command
  | .idle => .choose Ctl.calls
  | .enque t p => enqueCode t p
  | .deque p => dequeCode p
  | .size => .act fun _ x => (x, .sizeLeave x.size)
  | .sizeLeave _ => .act fun _ x => (x, .idle)
  | .empty => .act fun _ x => (x, .emptyLeave (x.size == 0#64))
  | .emptyLeave _ => .act fun _ x => (x, .idle)

/-- An empty queue, used by the workers `T`. -/
abbrev machine (T : Type) [DecidableEq T] :
    Lib.Machine (State T Empty Empty Data Ctl) (Event T Ctl) :=
  Monitor.machine code (fun _ => .idle) {}

/-! ## What a statement does -/

/-- What a statement does: where it leads, and what becomes of the queue and the counter. -/
inductive Goes (x : Data) : Ctl → Ctl → Data → Prop
  /-- A call begins. -/
  | calls {k} (hk : k.calls = true) : Goes x .idle k x
  | enqueOn {t p q y} (hl : Flag.Tries flag x y false) :
      Goes x (.enque t (.lock p)) (.enque t (.lock q)) y
  | enqueLocks {t p y} (hw : Flag.Tries flag x y true) :
      Goes x (.enque t (.lock p)) (.enque t .pushBack) y
  | pushBack {t} :
      Goes x (.enque t .pushBack) (.enque t .fetchAdd) { x with tasks := x.tasks ++ [t] }
  | fetchAdd {t} : Goes x (.enque t .fetchAdd) (.enque t .unlock) { x with size := x.size + 1#64 }
  | enqueUnlock {t} : Goes x (.enque t .unlock) .idle (flag.set 0#32 x)
  | dequeOn {p q y} (hl : Flag.Tries flag x y false) :
      Goes x (.deque (.lock p)) (.deque (.lock q)) y
  | dequeLocks {p y} (hw : Flag.Tries flag x y true) :
      Goes x (.deque (.lock p)) (.deque .popFront) y
  | findsNone (hn : x.tasks = []) : Goes x (.deque .popFront) (.deque (.unlock none)) x
  | popFront {t rest} (ht : x.tasks = t :: rest) :
      Goes x (.deque .popFront) (.deque (.fetchSub t)) { x with tasks := rest }
  | fetchSub {t} :
      Goes x (.deque (.fetchSub t)) (.deque (.unlock (some t))) { x with size := x.size - 1#64 }
  | dequeUnlock {t} : Goes x (.deque (.unlock t)) .idle (flag.set 0#32 x)
  | size : Goes x .size (.sizeLeave x.size) x
  | sizeLeave {n} : Goes x (.sizeLeave n) .idle x
  | empty : Goes x .empty (.emptyLeave (x.size == 0#64)) x
  | emptyLeave {b} : Goes x (.emptyLeave b) .idle x

variable {c k : Ctl} {x y : Data} {now : Time}

/-- **Every statement does one of these things.** -/
theorem goes_of_jump (hj : Jump code now c x k y) : Goes x c k y := by
  cases c with
  | idle =>
      cases hj with
      | choose hc hk =>
          cases hc
          exact .calls hk
      | _ hc => cases hc
  | enque t p =>
      cases p with
      | lock p =>
          have hc : code (.enque t (.lock p)) = enqueCode t (.lock p) := rfl
          rw [enqueCode] at hc
          rcases Flag.spinLock_jump hc hj with ⟨q, rfl, hl⟩ | ⟨rfl, hw⟩
          · exact .enqueOn hl
          · exact .enqueLocks hw
      | pushBack => cases hj with | _ hc => cases hc <;> exact .pushBack
      | fetchAdd => cases hj with | _ hc => cases hc <;> exact .fetchAdd
      | unlock => cases hj with | _ hc => cases hc <;> exact .enqueUnlock
  | deque p =>
      cases p with
      | lock p =>
          have hc : code (.deque (.lock p)) = dequeCode (.lock p) := rfl
          rw [dequeCode] at hc
          rcases Flag.spinLock_jump hc hj with ⟨q, rfl, hl⟩ | ⟨rfl, hw⟩
          · exact .dequeOn hl
          · exact .dequeLocks hw
      | popFront =>
          cases hj with
          | act hc =>
              cases hc
              simp only
              split
              · exact .findsNone ‹_›
              · exact .popFront ‹_›
          | _ hc => cases hc
      | fetchSub => cases hj with | _ hc => cases hc <;> exact .fetchSub
      | unlock => cases hj with | _ hc => cases hc <;> exact .dequeUnlock
  | size => cases hj with | _ hc => cases hc <;> exact .size
  | sizeLeave => cases hj with | _ hc => cases hc <;> exact .sizeLeave
  | empty => cases hj with | _ hc => cases hc <;> exact .empty
  | emptyLeave => cases hj with | _ hc => cases hc <;> exact .emptyLeave

theorem hold_of_jump (hj : Jump code now c x k y) : Hold flag.taken Ctl.owns c x k y := by
  cases goes_of_jump hj with
  | calls hk =>
      refine .keeps rfl ?_
      unfold Ctl.calls at hk
      split at hk <;> first | rfl | cases hk
  | enqueOn hl | dequeOn hl => exact .keeps (by rw [hl.taken, Bool.or_false]) rfl
  | enqueLocks hw | dequeLocks hw =>
      cases hw with
      | won hx hy =>
          refine .acquires hx ?_ rfl
          rw [hy, Flag.taken_set_one]
  | enqueUnlock | dequeUnlock => exact .releases rfl (Flag.taken_set_zero x) rfl
  | _ => exact .keeps rfl rfl

variable {T : Type} [DecidableEq T] {s s' : State T Empty Empty Data Ctl} {t : T}

theorem exclusive_reachable (h : (machine T).Reachable s) : Exclusive flag.taken Ctl.owns s := by
  refine Lib.Machine.Reach.invariant ?_ ?_ h
  · rintro s ⟨now, rfl⟩
    exact exclusive_start (fun _ => rfl) rfl
  · intro s e s' _ _ hs hi
    exact hi.step (fun t hj => hold_of_jump hj) (step_of_next hs)

/-! ## The queue in one piece -/

/-- The operations of `Tasks`. -/
inductive TasksOp where
  | enque (t : TaskId)
  | deque
  | size
  | empty
  deriving DecidableEq

/-- What they return. -/
inductive TasksRes where
  | done
  | task (t : Option TaskId)
  | size (n : BitVec 64)
  | empty (b : Bool)
  deriving DecidableEq

/-- What an operation returns, and what becomes of the queue; a `usize` is read off its length. -/
def perform (o : TasksOp) (q : Tasks) : TasksRes × Tasks :=
  match o with
  | .enque t => (.done, q.enque t)
  | .deque => (.task q.deque.1, q.deque.2)
  | .size => (.size (BitVec.ofNat 64 q.size), q)
  | .empty => (.empty (BitVec.ofNat 64 q.size == 0#64), q)

theorem sized_nil : (0 : Nat) = ([] : List TaskId).length := rfl

/-- The queue whose operations are one step each. -/
def tasks (T : Type) [DecidableEq T] : Object T TasksOp TasksRes Tasks :=
  .sequential T ⟨[], 0, sized_nil⟩ perform

/-- Where a worker is in an operation. -/
def status : Ctl → Status TasksOp TasksRes
  | .idle => .away
  | .enque _ .unlock => .leaving .done
  | .enque t _ => .calling (.enque t)
  | .deque (.unlock t) => .leaving (.task t)
  | .deque _ => .calling .deque
  | .size => .calling .size
  | .sizeLeave n => .leaving (.size n)
  | .empty => .calling .empty
  | .emptyLeave b => .leaving (.empty b)

/-- What the queue looks like to a worker, which may have changed `m_tasks` and not counted yet. -/
def Sees (c : Ctl) (x : Data) (q : Tasks) : Prop :=
  match c with
  | .enque t .fetchAdd => x.tasks = q.queue ++ [t]
  | .deque (.fetchSub t) => q.queue = t :: x.tasks
  | _ => x.tasks = q.queue

/-- The queue that the members of `Tasks` stand for. -/
structure Shows (ctl : T → Ctl) (x : Data) (q : Tasks) : Prop where
  /-- The counter is always right. -/
  size : x.size = BitVec.ofNat 64 q.size
  /-- So is `m_tasks` while nobody has the lock. -/
  free : (∀ t, (ctl t).owns = false) → x.tasks = q.queue
  /-- Whoever has the lock knows what is missing. -/
  held : ∀ t, (ctl t).owns = true → Sees (ctl t) x q

theorem Sees.same {x' : Data} {q : Tasks} (h : Sees c x q) (hx : x'.tasks = x.tasks) :
    Sees c x' q := by
  unfold Sees at h ⊢
  split at h <;> rw [hx] <;> exact h

theorem deque_none {q : Tasks} (h : q.queue = []) : q.deque = (none, q) := by
  rcases q.deque_cases with ⟨-, hd⟩ | ⟨t, rest, hq, -⟩
  · exact hd
  · rw [h] at hq
    cases hq

theorem deque_some {q : Tasks} {t : TaskId} {rest : List TaskId} (h : q.queue = t :: rest) :
    q.deque.1 = some t ∧ q.deque.2.queue = rest := by
  rcases q.deque_cases with ⟨hn, -⟩ | ⟨t', rest', hq, h1, h2⟩
  · rw [h] at hn
    cases hn
  · rw [h] at hq
    cases hq
    exact ⟨h1, h2⟩

/-- The counter follows the queue, however long it gets. -/
theorem size_enque {q : Tasks} {n : BitVec 64} (t : TaskId) (h : n = BitVec.ofNat 64 q.size) :
    n + 1#64 = BitVec.ofNat 64 (q.enque t).size := by
  rw [h, Tasks.enque, BitVec.ofNat_add]

theorem size_deque {q : Tasks} {n : BitVec 64} {t : TaskId} {rest : List TaskId}
    (h : n = BitVec.ofNat 64 q.size) (hq : q.queue = t :: rest) :
    n - 1#64 = BitVec.ofNat 64 q.deque.2.size := by
  obtain ⟨-, hrest⟩ := deque_some hq
  have hsize : q.size = q.deque.2.size + 1 := by
    rw [q.sized, q.deque.2.sized, hrest, hq, List.length_cons]
  rw [h, hsize, BitVec.ofNat_add, BitVec.add_sub_cancel]

section

variable {q q' : Tasks}

/-- Nothing becomes of `m_tasks` and the counter, and the worker goes on with or without the
lock. -/
theorem Shows.goes (h : Shows s.ctl s.data q) (hx : y.tasks = s.data.tasks)
    (hn : y.size = s.data.size) (hk : k.owns = (s.ctl t).owns)
    (hs : k.owns = true → Sees k y q) : Shows (Function.update s.ctl t k) y q := by
  have howns : ∀ u, (Function.update s.ctl t k u).owns = (s.ctl u).owns := fun u => by
    by_cases hu : u = t
    · rw [hu, Function.update_self, hk]
    · rw [Function.update_of_ne hu]
  refine ⟨hn.trans h.size, fun hf => ?_, fun u hu => ?_⟩
  · rw [hx]
    exact h.free fun u => (howns u).symm.trans (hf u)
  · by_cases hut : u = t
    · rw [hut, Function.update_self] at hu ⊢
      exact hs hu
    · rw [Function.update_of_ne hut] at hu ⊢
      exact (h.held u hu).same hx

/-- The worker that moves is the only one that has the lock. -/
theorem Shows.only (hn : y.size = BitVec.ofNat 64 q'.size)
    (ho : ∀ u, u ≠ t → (s.ctl u).owns = false) (hk : k.owns = true) (hs : Sees k y q') :
    Shows (Function.update s.ctl t k) y q' := by
  refine ⟨hn, fun hf => ?_, fun u hu => ?_⟩
  · have hown := hf t
    rw [Function.update_self, hk] at hown
    cases hown
  · by_cases hut : u = t
    · rw [hut, Function.update_self]
      exact hs
    · rw [Function.update_of_ne hut, ho u hut] at hu
      cases hu

/-- The worker that moves gives the lock back. -/
theorem Shows.back (hn : y.size = BitVec.ofNat 64 q.size) (hx : y.tasks = q.queue)
    (ho : ∀ u, u ≠ t → (s.ctl u).owns = false) (hk : k.owns = false) :
    Shows (Function.update s.ctl t k) y q := by
  refine ⟨hn, fun _ => hx, fun u hu => ?_⟩
  by_cases hut : u = t
  · rw [hut, Function.update_self, hk] at hu
    cases hu
  · rw [Function.update_of_ne hut, ho u hut] at hu
    cases hu

/-- **Every jump is a move of the queue.** -/
theorem moves_of_jump (he : Exclusive flag.taken Ctl.owns s) (h : Shows s.ctl s.data q)
    (hj : Jump code s.now (s.ctl t) s.data k y) :
    ∃ q', Shows (Function.update s.ctl t k) y q' ∧
      (tasks T).Moves (fun _ => .done) t q q' (status (s.ctl t)) (status k) := by
  have hsees := h.held t
  have hothers : (s.ctl t).owns = true → ∀ u, u ≠ t → (s.ctl u).owns = false := fun ht u hu => by
    by_contra hne
    exact hu (he.unique u t ((Bool.not_eq_false _).mp hne) ht)
  have hgoes := h.goes (t := t) (k := k) (y := y)
  generalize hc : s.ctl t = c at hj hsees hothers hgoes
  cases goes_of_jump hj with
  | calls hk =>
      have hout : k.owns = false ∧ ∃ o, status k = .calling o := by
        unfold Ctl.calls at hk
        split at hk
        case h_5 => cases hk
        all_goals exact ⟨rfl, _, rfl⟩
      obtain ⟨ho, o, hst⟩ := hout
      refine ⟨q, hgoes rfl rfl ho fun hx => ?_, ?_⟩
      · rw [ho] at hx
        cases hx
      · rw [hst]
        exact .call rfl
  | enqueOn hl | dequeOn hl =>
      exact ⟨q, hgoes (hl.same fun _ _ => rfl) (hl.same fun _ _ => rfl) rfl nofun, .stay rfl⟩
  | enqueLocks hw | dequeLocks hw =>
      -- nobody had the lock, so `m_tasks` was the queue
      have htasks := hw.same (g := Data.tasks) fun _ _ => rfl
      have hsize := hw.same (g := Data.size) fun _ _ => rfl
      cases hw with
      | won hx _ =>
          have hfree := h.free fun u => he.nobody hx u
          refine ⟨q, .only (hsize.trans h.size) (fun u _ => he.nobody hx u) rfl ?_, .stay rfl⟩
          exact htasks.trans hfree
  | @pushBack a =>
      refine ⟨q, .only h.size (hothers rfl) rfl ?_, .stay rfl⟩
      have hq : s.data.tasks = q.queue := hsees rfl
      simp only [Sees, hq]
  | @fetchAdd a =>
      refine ⟨q.enque a, .only (size_enque a h.size) (hothers rfl) rfl ?_, .effect ⟨rfl, rfl⟩⟩
      exact hsees rfl
  | enqueUnlock | dequeUnlock =>
      refine ⟨q, .back h.size ?_ (hothers rfl) rfl, .ret rfl⟩
      exact hsees rfl
  | findsNone hn =>
      have hq : s.data.tasks = q.queue := hsees rfl
      have hd := deque_none (hq.symm.trans hn)
      refine ⟨q, .only h.size (hothers rfl) rfl hq, .effect ⟨?_, ?_⟩⟩
      · simp only [perform, hd]
      · simp only [perform, hd]
  | @popFront a rest ht =>
      refine ⟨q, .only h.size (hothers rfl) rfl ?_, .stay rfl⟩
      have hq : s.data.tasks = q.queue := hsees rfl
      exact hq.symm.trans ht
  | @fetchSub a =>
      have hq : q.queue = a :: s.data.tasks := hsees rfl
      obtain ⟨htask, hrest⟩ := deque_some hq
      refine ⟨q.deque.2, .only (size_deque h.size hq) (hothers rfl) rfl hrest.symm,
        .effect ⟨?_, rfl⟩⟩
      simp only [perform, htask]
  | size => exact ⟨q, hgoes rfl rfl rfl nofun, .effect ⟨by rw [h.size]; rfl, rfl⟩⟩
  | empty => exact ⟨q, hgoes rfl rfl rfl nofun, .effect ⟨by rw [h.size]; rfl, rfl⟩⟩
  | sizeLeave | emptyLeave => exact ⟨q, hgoes rfl rfl rfl nofun, .ret rfl⟩

/-- A task is in the queue so often. -/
def amount (t : TaskId) (q : Tasks) : Int := q.queue.count t

/-- Whoever takes a task out takes one that was put in. -/
theorem tasks_spends (a : TaskId) :
    (tasks T).Spends (.task (some a)) (.enque a) (amount a) where
  eff t o q r q' he := by
    obtain ⟨rfl, rfl⟩ : r = some (perform o q).1 ∧ q' = (perform o q).2 := he
    cases o with
    | enque b =>
        simp only [perform, amount, Tasks.queue_enque, List.count_append, List.count_singleton]
        by_cases hb : b = a
        · simp [hb]
        · simp [hb]
    | deque =>
        rcases q.deque_cases with ⟨hn, hd⟩ | ⟨b, rest, hq, h1, h2⟩
        · simp [perform, hd, amount]
        · simp only [perform, h1, h2, amount, hq, List.count_cons]
          by_cases hb : b = a
          · simp [hb]
          · simp [hb]
    | size | empty => simp [perform]

end

/--
**The task queue is what it is taken for.** Whatever its callers and `Tasks` say to each other,
over any interleaving of the statements, a queue says whose operations are one step each: `enque`
puts a task at the back, `deque` takes the one at the front or finds none, and `size` and `empty`,
which do not take the lock, tell the length of the queue at some moment of the call. So no task is
taken out more often than `enque` has been called with it.
-/
theorem tasks_linearizable (T : Type) [DecidableEq T] [Fintype T] :
    Object.Linearizable (machine T) (sayings code status fun _ => .done) (tasks T) ∧
    ∀ s es s', (machine T).init s → (machine T).run s es = some s' → ∀ a,
      Object.balanceBy (.task (some a)) (.enque a)
        ((machine T).log (sayings code status fun _ => .done) s es) ≤ 0 := by
  have hlin : Object.Linearizable (machine T) (sayings code status fun _ => .done) (tasks T) := by
    refine linearizable_of_moves Shows ⟨{}, rfl, ?_⟩ (fun _ => rfl) ?_
    · exact ⟨rfl, fun _ => rfl, fun t ht => by cases ht⟩
    · intro s t k y q hr hs hj
      exact moves_of_jump (exclusive_reachable hr) hs hj
  refine ⟨hlin, fun s es s' hi hr a => ?_⟩
  refine hlin.spends (tasks_spends a) ?_ (fun q => ?_) hi hr
  · rintro q rfl
    rfl
  · exact Int.natCast_nonneg _

end Ums.TaskQueue
