import Mathlib.Data.Fintype.Basic
import Ums.Lib.Lifetime
import Ums.Task.Completion

/-!
# The life of a result

`invoke` constructs the result in `m_storage`, and `get` moves it out from there. The
storage is an array of bytes: its own destruction destroys nothing that lives in it, and no
class of the task declares a destructor that would. So a result that was returned lives on
until the storage is released, and only a trivial destructor is content with that.

A life of a task is a run of its program, which the last owner ends by destroying it.
-/

namespace Ums.Task

open Monitor

variable {R E T : Type}

/-- Where a worker is not inside the task: it has yet to begin, or is through. -/
def Ctl.outside : Ctl R E → Bool
  | .idle | .exec .invoke => true
  | _ => false

/-- What a statement does to the object in `m_storage`. -/
def Ctl.touch (moved : R → R) : Ctl R E → Lib.Storage R → Lib.Storage R
  | .exec (.store (.ok r)), m => m.construct r
  | .get .extract, m => m.move moved
  | _, m => m

/-- `~TaskBase`, which is defaulted. None of the members it destroys is in `m_storage`. -/
def destroyTaskBase (m : Lib.Storage R) : Lib.Storage R := m

/-- `~TaskResult`, which is implicit. It destroys the bytes of `m_storage` and calls no destructor
of the result, and then destroys the base. -/
def destroyTaskResult (m : Lib.Storage R) : Lib.Storage R := destroyTaskBase m

/-- `~TaskExec`, which is implicit. It destroys `m_args`, and then the base. -/
def destroyTaskExec (m : Lib.Storage R) : Lib.Storage R := destroyTaskResult m

/-- A task object in the course of its life. -/
structure Life (T R E : Type) where
  /-- The task and its workers. -/
  task : State T Unit Unit (Data R E) (Ctl R E)
  /-- `m_storage`. -/
  storage : Lib.Storage R := {}
  /-- The task has been destroyed. -/
  gone : Bool := false

/-- What happens in the life of a task. -/
inductive LifeEvent (T R E : Type) where
  /-- A step of its program. -/
  | task (e : Event T (Ctl R E))
  /-- The move out of the storage throws out of `get`, and leaves `r` behind. -/
  | throws (t : T) (r : R)
  /-- The last owner lets go of the task. -/
  | destroy

/-- The function of the task, which `w` executes, returns. -/
def LifeEvent.Returns (w : T) (e : LifeEvent T R E) : Prop :=
  ∃ r, e = .task (.choose w (.exec (.store (.ok r))))

section

variable [DecidableEq T]

/-- What a step of the program does to the object in `m_storage`. -/
def touched (moved : R → R) (s : State T Unit Unit (Data R E) (Ctl R E)) :
    Event T (Ctl R E) → Lib.Storage R → Lib.Storage R
  | .step t => (s.ctl t).touch moved
  | _ => id

/-- The move out of the storage throws out of `get`. -/
def Life.abandon (s : Life T R E) (t : T) (r : R) : Life T R E :=
  { s with
    task := { s.task with data.storage := s.task.data.storage.map fun _ => r }.goto t .idle
    storage := s.storage.move fun _ => r }

/-- One step in the life of a task. `moved` is what the move constructor leaves behind, and
`trivial` says whether the destructor is. -/
def Life.next [Fintype T] (moved : R → R) (trivial : Bool) (s : Life T R E) :
    LifeEvent T R E → Option (Life T R E)
  | .task e =>
    if s.gone then none
    else (Monitor.next (code moved) s.task e).map fun q =>
      { s with task := q, storage := touched moved s.task e s.storage }
  | .throws t r =>
    match s.gone, s.task.ctl t with
    | false, .get .extract => some (s.abandon t r)
    | _, _ => none
  | .destroy =>
    if s.gone = false ∧ ∀ t, (s.task.ctl t).outside = true then
      some { s with storage := (destroyTaskExec s.storage).release trivial, gone := true }
    else none

/-- The lives of a task that the worker `w` executes. -/
def lives [Fintype T] (R E : Type) (w : T) (moved : R → R) (trivial : Bool) :
    Lib.Machine (Life T R E) (LifeEvent T R E) where
  init s := (machine moved E w).init s.task ∧ s.storage = {} ∧ s.gone = false
  next := Life.next moved trivial

variable {moved : R → R} {trivial : Bool} {s s' : Life T R E} {e : LifeEvent T R E} {t u w : T}

@[simp] theorem Life.abandon_ctl (r : R) :
    (s.abandon t r).task.ctl = Function.update s.task.ctl t .idle := rfl

@[simp] theorem Life.abandon_storage (r : R) :
    (s.abandon t r).storage = s.storage.move fun _ => r := rfl

/-- The outcomes of a step. -/
inductive Life.Step (moved : R → R) (trivial : Bool) (s : Life T R E) :
    LifeEvent T R E → Life T R E → Prop
  | task {e q} (hg : s.gone = false) (hs : Monitor.next (code moved) s.task e = some q) :
      Life.Step moved trivial s (.task e)
        { s with task := q, storage := touched moved s.task e s.storage }
  | throws {t r} (hg : s.gone = false) (hc : s.task.ctl t = .get .extract) :
      Life.Step moved trivial s (.throws t r) (s.abandon t r)
  | destroy (hg : s.gone = false) (ho : ∀ t, (s.task.ctl t).outside = true) :
      Life.Step moved trivial s .destroy
        { s with storage := (destroyTaskExec s.storage).release trivial, gone := true }

theorem life_step [Fintype T] (h : (lives R E w moved trivial).next s e = some s') :
    Life.Step moved trivial s e s' := by
  have h : Life.next moved trivial s e = some s' := h
  cases e with
  | task e =>
      rw [Life.next] at h
      split at h
      · cases h
      · rename_i hg
        obtain ⟨q, hq, rfl⟩ := Option.map_eq_some_iff.mp h
        exact .task (by simpa using hg) hq
  | throws t r =>
      rw [Life.next] at h
      split at h
      · rename_i hg hc
        cases h
        exact .throws hg hc
      · cases h
  | destroy =>
      rw [Life.next] at h
      split at h
      · rename_i hc
        cases h
        exact .destroy hc.1 hc.2
      · cases h

/-! ## What a step does to the storage -/

/-- Where the result is still to be constructed. -/
def Ctl.unbuilt : Ctl R E → Bool
  | .exec .invoke | .exec (.store _) => true
  | _ => false

theorem executes_of_unbuilt {c : Ctl R E} (h : c.unbuilt = true) : c.executes = true := by
  unfold Ctl.unbuilt at h
  split at h <;> first | rfl | cases h

/-- Only the function of the task leads to the construction. -/
theorem unbuilt_of_jump {c k : Ctl R E} {x y : Data R E} {now : Time}
    (hj : Jump (code moved) now c x k y) (hk : k.unbuilt = true) :
    c = .exec .invoke ∧ ∃ o, k = .exec (.store o) := by
  cases goes_of_jump hj with
  | calls hcall => rcases hcall with rfl | rfl <;> cases hk
  | invokes => exact ⟨rfl, _, rfl⟩
  | _ => cases hk

variable {q q' : State T Unit Unit (Data R E) (Ctl R E)} {a : Event T (Ctl R E)}
  {m m' : Lib.Storage R}

/-- No step leads back before the construction. -/
theorem unbuilt_of_step (hs : Monitor.Step (code moved) q a q') (h : (q'.ctl t).unbuilt = true) :
    (q.ctl t).unbuilt = true := by
  cases hs.moves t with
  | stays hc | inside hc => rwa [← hc]
  | jumps hj =>
      rw [(unbuilt_of_jump hj h).1]
      rfl

/-- A worker at the construction has been there, or its function has just ended. -/
theorem store_of_next {o : Except E R} (hs : Monitor.next (code moved) q a = some q')
    (h : q'.ctl t = .exec (.store o)) :
    q.ctl t = .exec (.store o) ∨ a = .choose t (.exec (.store o)) := by
  by_cases ha : ∃ k, a = .choose t k
  · obtain ⟨k, rfl⟩ := ha
    cases step_of_next hs with
    | choose hc hk =>
        rw [State.goto_ctl_self] at h
        rw [h]
        exact Or.inr rfl
  · rcases jump_of_next hs fun k hk => ha ⟨k, hk⟩ with hsame | ⟨hno, hj⟩
    · exact Or.inl (hsame ▸ h)
    · obtain ⟨hc, _⟩ := unbuilt_of_jump hj (by rw [h]; rfl)
      exact absurd (by rw [hc]; rfl) (hno Ctl.invokes)

/-- A worker stays at the construction until it takes its step. -/
theorem store_stays {o : Except E R} (hs : Monitor.Step (code moved) q a q')
    (h : q.ctl t = .exec (.store o)) (ha : a ≠ .step t) : q'.ctl t = .exec (.store o) := by
  by_contra hn
  refine ha (hs.event_eq (by rwa [h]) fun ok hc => ?_)
  rw [h] at hc
  cases o <;> cases hc

/-- What a step of the program does to the storage. -/
inductive Touched (q : State T Unit Unit (Data R E) (Ctl R E)) (a : Event T (Ctl R E))
    (m m' : Lib.Storage R) : Prop
  /-- The object is moved from, or left as it is. -/
  | keeps (f : R → R) (hn : ∀ t r, a = .step t → q.ctl t ≠ .exec (.store (.ok r)))
      (hm : m' = m.move f)
  /-- The result is constructed. -/
  | builds (t : T) (r : R) (ha : a = .step t) (hc : q.ctl t = .exec (.store (.ok r)))
      (hm : m' = m.construct r)

omit [DecidableEq T] in
theorem touched_cases (moved : R → R) (q : State T Unit Unit (Data R E) (Ctl R E))
    (a : Event T (Ctl R E)) (m : Lib.Storage R) : Touched q a m (touched moved q a m) := by
  cases a with
  | step t =>
      have hstep : touched moved q (.step t) m = (q.ctl t).touch moved m := rfl
      rw [hstep]
      unfold Ctl.touch
      split
      · exact .builds t _ rfl ‹_› rfl
      · rename_i hc
        refine .keeps moved (fun u r hu => ?_) rfl
        cases hu
        rw [hc]
        exact fun h => by cases h
      · rename_i hc _
        refine .keeps id (fun u r hu => ?_) Lib.Storage.move_id.symm
        cases hu
        exact hc r
  | choose | tick => exact .keeps id (fun _ _ h => by cases h) Lib.Storage.move_id.symm

/-- A step of the program changes the storage as it changes the object that lives there. -/
theorem storage_of_next (hs : Monitor.next (code moved) q a = some q')
    (h : m.object.map Prod.snd = q.data.storage) :
    (touched moved q a m).object.map Prod.snd = q'.data.storage := by
  cases a with
  | step t =>
      have hstep : touched moved q (.step t) m = (q.ctl t).touch moved m := rfl
      rw [hstep]
      unfold Ctl.touch
      split
      · rename_i r hc
        have hcode : code moved (q.ctl t) =
            .act fun _ x => ({ x with storage := some r }, .exec .enter) := by
          rw [hc]
          rfl
        rw [next_act hcode rfl] at hs
        cases hs
        rfl
      · rename_i hc
        have hcode : code moved (q.ctl t) =
            .act fun _ x => { x with storage := x.storage.map moved }.ends (.result x.storage) := by
          rw [hc]
          rfl
        rw [next_act hcode rfl] at hs
        cases hs
        show (Option.map (Prod.map id moved) _).map Prod.snd = q.data.storage.map moved
        rw [← h, Option.map_map, Option.map_map]
        rfl
      · rename_i hstore hextract
        by_cases hd : q'.data = q.data
        · rw [hd]
          exact h
        · obtain ⟨u, f, he, -, hj, -⟩ := (step_of_next hs).jump_of_data hd
          cases he
          generalize q.ctl t = c at hj hstore hextract
          generalize q'.ctl t = k at hj
          generalize q'.data = y at hj
          cases goes_of_jump hj with
          | returns => exact absurd rfl (hstore _)
          | extracts => exact absurd rfl hextract
          | _ => exact h
  | choose | tick =>
      cases step_of_next hs
      exact h

/-! ## Over a whole life -/

/-- What is known of a task in the course of its life. -/
structure Lived (trivial : Bool) (w : T) (s : Life T R E) : Prop where
  /-- One worker executes it. -/
  executed : Executed w s.task
  /-- Nothing is constructed over a living object, and nothing destroyed that is not there. -/
  sound : s.storage.Sound
  /-- Nothing has been constructed before the result. -/
  fresh : ∀ t, (s.task.ctl t).unbuilt = true → s.storage.constructed = 0
  /-- The result lives as long as the task. -/
  kept : s.gone = false → s.storage.object = none → s.storage.constructed = 0
  /-- It ends with the storage if its destructor is trivial. -/
  ended : s.gone = true → (s.storage.object = none ↔ trivial = true ∨ s.storage.constructed = 0)
  /-- Nobody is inside a task that has been destroyed. -/
  left : s.gone = true → ∀ t, (s.task.ctl t).outside = true

theorem lived_init [Fintype T] (h : (lives R E w moved trivial).init s) : Lived trivial w s := by
  obtain ⟨hinit, hs, hg⟩ := h
  refine ⟨executed_reachable (.init hinit), ?_, fun _ _ => ?_, fun _ _ => ?_, fun h => ?_,
    fun h => ?_⟩
  · rw [hs]
    exact Lib.Storage.sound_empty
  · rw [hs]
  · rw [hs]
  · rw [hg] at h
    cases h
  · rw [hg] at h
    cases h

omit [DecidableEq T] in
/-- The worker that constructs the result is the one that executes the task. -/
theorem Lived.builder (h : Lived trivial w s) (hc : (s.task.ctl t).unbuilt = true) : t = w :=
  (h.executed.one t (executes_of_unbuilt hc)).1

/-- Nobody is before the construction any more when the result is constructed. -/
theorem built_of_next (hex : Executed w q) {r : R}
    (hs : Monitor.next (code moved) q (.step t) = some q')
    (hc : q.ctl t = .exec (.store (.ok r))) (u : T) :
    (q'.ctl u).unbuilt = false := by
  have hcode : code moved (q.ctl t) =
      .act fun _ x => ({ x with storage := some r }, .exec .enter) := by
    rw [hc]
    rfl
  by_cases hu : u = t
  · rw [next_act hcode rfl] at hs
    cases hs
    rw [hu, State.goto_ctl_self]
    rfl
  · by_contra hn
    have hn : (q'.ctl u).unbuilt = true := by simpa using hn
    have hone := fun v hv => (hex.one v (executes_of_unbuilt hv)).1
    have hw : u = w := hone u (unbuilt_of_step (step_of_next hs) hn)
    have ht : t = w := hone t (by rw [hc]; rfl)
    exact hu (hw.trans ht.symm)

/-- A worker that leaves `get` does not execute the task. -/
theorem Executed.abandon (h : Executed w s.task) (r : R) : Executed w (s.abandon t r).task := by
  refine ⟨fun u hu => ?_, fun u => ?_, h.done⟩
  · by_cases hut : u = t
    · rw [hut, Life.abandon_ctl, Function.update_self] at hu
      cases hu
    · rw [Life.abandon_ctl, Function.update_of_ne hut] at hu
      exact h.one u hu
  · by_cases hut : u = t
    · rw [hut, Life.abandon_ctl, Function.update_self]
      exact ready_of_call rfl
    · rw [Life.abandon_ctl, Function.update_of_ne hut]
      exact h.ready u

theorem Lived.step (hs : Life.Step moved trivial s e s') (h : Lived trivial w s) :
    Lived trivial w s' := by
  cases hs with
  | @task a q hg hs =>
      have hst := step_of_next hs
      have hex := h.executed.step hst
      have hnot : ¬s.gone = true := by rw [hg]; exact Bool.false_ne_true
      rcases touched_cases moved s.task a s.storage with ⟨f, hn, hm⟩ | ⟨t, r, ha, hc, hm⟩
      · refine ⟨hex, ?_, fun u hu => ?_, fun _ ho => ?_, fun hgone => absurd hgone hnot,
          fun hgone => absurd hgone hnot⟩
        · simp only [hm]
          exact h.sound.move f
        · simp only [hm]
          exact h.fresh u (unbuilt_of_step hst hu)
        · simp only [hm] at ho ⊢
          exact h.kept hg (Lib.Storage.move_object_eq_none f |>.mp ho)
      · -- the storage is empty as long as the result is to be constructed
        subst ha
        have hzero := h.fresh t (by rw [hc]; rfl)
        refine ⟨hex, ?_, fun u hu => ?_, fun _ ho => ?_, fun hgone => absurd hgone hnot,
          fun hgone => absurd hgone hnot⟩
        · simp only [hm]
          exact h.sound.construct (h.sound.object_eq_none hzero) r
        · have hbuilt := built_of_next h.executed hs hc u
          exact absurd (hbuilt.symm.trans hu) Bool.false_ne_true
        · simp only [hm] at ho
          exact absurd ho (Option.some_ne_none _)
  | @throws t r hg hc =>
      have hnot : ¬s.gone = true := by rw [hg]; exact Bool.false_ne_true
      refine ⟨h.executed.abandon r, h.sound.move _, fun u hu => ?_,
        fun _ ho => ?_, fun hgone => absurd hgone hnot, fun hgone => absurd hgone hnot⟩
      · by_cases hut : u = t
        · rw [hut, Life.abandon_ctl, Function.update_self] at hu
          cases hu
        · rw [Life.abandon_ctl, Function.update_of_ne hut] at hu
          exact h.fresh u hu
      · exact h.kept hg (Lib.Storage.move_object_eq_none _ |>.mp ho)
  | destroy hg ho =>
      refine ⟨h.executed, h.sound.release trivial, fun u hu => ?_, fun hgone => ?_, fun _ => ?_,
        fun _ => ho⟩
      · rw [Lib.Storage.release_constructed]
        exact h.fresh u hu
      · cases hgone
      · rw [Lib.Storage.release_object, Lib.Storage.release_constructed]
        refine or_congr_right ⟨h.kept hg, h.sound.object_eq_none⟩

/-- **What the program finds in the storage is the object that lives there.** -/
theorem object_reachable [Fintype T] (h : (lives R E w moved trivial).Reachable s)
    (hg : s.gone = false) : s.storage.object.map Prod.snd = s.task.data.storage := by
  refine Lib.Machine.Reach.invariant (I := fun s : Life T R E => s.gone = false →
    s.storage.object.map Prod.snd = s.task.data.storage) ?_ ?_ h hg
  · rintro s ⟨⟨now, htask⟩, hs, -⟩ -
    rw [htask, hs]
    rfl
  · intro s e s' _ _ hs hi hg'
    cases life_step hs with
    | task hg hq => exact storage_of_next hq (hi hg)
    | throws hg hc =>
        show (s.storage.object.map _).map Prod.snd = s.task.data.storage.map _
        rw [← hi hg, Option.map_map, Option.map_map]
        rfl
    | destroy => cases hg'

theorem lived_reachable [Fintype T] (h : (lives R E w moved trivial).Reachable s) :
    Lived trivial w s := by
  refine Lib.Machine.Reach.invariant ?_ ?_ h
  · intro s hs
    exact lived_init hs
  · intro s e s' _ _ hs hi
    exact hi.step (life_step hs)

/-! ## When there is a result -/

/-- The function of the task has returned. -/
def Life.Returned (w : T) (s : Life T R E) : Prop :=
  s.storage.constructed ≠ 0 ∨ ∃ r, s.task.ctl w = .exec (.store (.ok r))

theorem Life.Returned.step (hs : Life.Step moved trivial s e s') (h : Lived trivial w s) :
    s'.Returned w ↔ s.Returned w ∨ e.Returns w := by
  unfold Life.Returned
  cases hs with
  | @task a q hg hs =>
      rcases touched_cases moved s.task a s.storage with ⟨f, hn, hm⟩ | ⟨t, r, ha, hc, hm⟩
      · simp only [hm, Lib.Storage.move_constructed, or_assoc]
        refine or_congr_right ⟨?_, ?_⟩
        · intro ⟨r, hq⟩
          rcases store_of_next hs hq with hc | ha
          · exact Or.inl ⟨r, hc⟩
          · exact Or.inr ⟨r, by rw [ha]⟩
        · intro hc
          rcases hc with ⟨r, hc⟩ | ⟨r, ha⟩
          · exact ⟨r, store_stays (step_of_next hs) hc fun ha => hn w r ha hc⟩
          · cases ha
            cases step_of_next hs with
            | choose => exact ⟨r, State.goto_ctl_self ..⟩
      · obtain rfl := h.builder (by rw [hc]; rfl)
        simp only [hm]
        constructor
        · intro _
          exact Or.inl (Or.inr ⟨r, hc⟩)
        · intro _
          exact Or.inl (Nat.succ_ne_zero _)
  | @throws t r hg hc =>
      have hevent : ¬(LifeEvent.throws t r : LifeEvent T R E).Returns w := by
        rintro ⟨_, he⟩
        cases he
      have hctl : ∀ o : Except E R, (s.abandon t r).task.ctl w = .exec (.store o) ↔
          s.task.ctl w = .exec (.store o) := by
        intro o
        by_cases hw : w = t
        · rw [hw, Life.abandon_ctl, Function.update_self, hc]
          constructor <;> intro h <;> cases h
        · rw [Life.abandon_ctl, Function.update_of_ne hw]
      simp only [Life.abandon_storage, Lib.Storage.move_constructed, hctl, hevent, or_false]
  | destroy hg ho =>
      have hevent : ¬(LifeEvent.destroy : LifeEvent T R E).Returns w := by
        rintro ⟨_, he⟩
        cases he
      simp only [Lib.Storage.release_constructed, hevent, or_false]
      rfl

/--
**When a result is destroyed.** In every life of a task that ends with its destruction, every
result that was constructed is destroyed exactly once, and nothing else is, if and only if the
destructor is trivial or the function of the task has not returned.
-/
theorem result_destroyed_iff [Fintype T] (R E : Type) (w : T) (moved : R → R) (trivial : Bool)
    (s s' : Life T R E) (es : List (LifeEvent T R E)) (hs : (lives R E w moved trivial).init s)
    (hr : (lives R E w moved trivial).run s es = some s') (hg : s'.gone = true) :
    s'.storage.Balanced ↔
      trivial = true ∨ ∀ r, LifeEvent.task (.choose w (.exec (.store (.ok r)))) ∉ es := by
  have hinit : (lives R E w moved trivial).Reachable s := .init hs
  have hlived := lived_reachable (Lib.Machine.reachable_of_run hinit es hr)
  have hrun : s'.Returned w ↔ s.Returned w ∨ ∃ e ∈ es, e.Returns w :=
    Lib.Machine.run_iff (fun _ _ _ h hs => Life.Returned.step (life_step hs) (lived_reachable h))
      es hinit hr
  have hbefore : ¬s.Returned w := by
    obtain ⟨⟨now, htask⟩, hstorage, _⟩ := hs
    rintro (hc | ⟨r, hc⟩)
    · rw [hstorage] at hc
      exact hc rfl
    · simp [htask, State.start] at hc
  have hafter : s'.Returned w ↔ s'.storage.constructed ≠ 0 := by
    -- nobody is at the construction when the task is destroyed
    refine or_iff_left ?_
    rintro ⟨r, hc⟩
    have hout := hlived.left hg w
    rw [hc] at hout
    cases hout
  rw [hlived.sound.balanced_iff_object, hlived.ended hg]
  refine or_congr_right ?_
  rw [hafter, or_iff_right hbefore] at hrun
  constructor
  · intro hzero r hmem
    exact hrun.mpr ⟨_, hmem, r, rfl⟩ hzero
  · intro hno
    by_contra hne
    obtain ⟨e, hmem, r, rfl⟩ := hrun.mp hne
    exact hno r hmem

/-- The function throws, a call of `get` rethrows, and nothing is left over. -/
theorem result_destroyed_throws : ∃ s s' es,
    (lives String String (0 : Fin 1) (fun _ => "") false).init s ∧
    (lives String String (0 : Fin 1) (fun _ => "") false).run s es = some s' ∧ s'.gone = true ∧
    s'.task.data.outcomes = [.exception "error"] ∧ s'.storage.Balanced := by
  obtain ⟨s', hr, hp⟩ := Lib.Machine.exists_run
    (M := lives String String (0 : Fin 1) (fun _ => "") false)
    (fun s => decide (s.gone = true ∧ s.task.data.outcomes = [.exception "error"]))
    { task := .start (fun t => if t = 0 then .exec .invoke else .idle) {} 0 }
    (List.flatten [
      [.task (.choose 0 (.exec (.store (.error "error"))))], List.replicate 6 (.task (.step 0)),
      [.task (.choose 0 (.get .test))], List.replicate 6 (.task (.step 0)), [.destroy]])
    (by decide +kernel)
  obtain ⟨hg, ho⟩ := of_decide_eq_true hp
  refine ⟨_, s', _, ⟨⟨0, rfl⟩, rfl, rfl⟩, hr, hg, ho, ?_⟩
  refine (result_destroyed_iff _ _ _ _ _ _ _ _ ⟨⟨0, rfl⟩, rfl, rfl⟩ hr hg).mpr (Or.inr ?_)
  intro r hmem
  simp at hmem

/-- A string is returned, a call of `get` moves it out, and nobody destroys what is left of it. -/
theorem result_leaks : ¬∀ (moved : String → String) (trivial : Bool)
    (s s' : Life (Fin 1) String String) (es : List (LifeEvent (Fin 1) String String)),
    (lives String String 0 moved trivial).init s →
    (lives String String 0 moved trivial).run s es = some s' → s'.gone = true →
    s'.storage.Balanced := by
  intro hall
  obtain ⟨s', hr, hp⟩ := Lib.Machine.exists_run
    (M := lives String String (0 : Fin 1) (fun _ => "") false)
    (fun s => decide (s.gone = true ∧ s.storage.constructed = 1 ∧ s.storage.destroyed = []))
    { task := .start (fun t => if t = 0 then .exec .invoke else .idle) {} 0 }
    (List.flatten [
      [.task (.choose 0 (.exec (.store (.ok "result"))))], List.replicate 6 (.task (.step 0)),
      [.task (.choose 0 (.get .test))], List.replicate 7 (.task (.step 0)), [.destroy]])
    (by decide +kernel)
  obtain ⟨hg, hone, hnone⟩ := of_decide_eq_true hp
  have hb := hall (fun _ => "") false _ s' _ ⟨⟨0, rfl⟩, rfl, rfl⟩ hr hg
  have hcount := hb.1 0 (by rw [hone]; exact Nat.one_pos)
  rw [hnone] at hcount
  cases hcount

end

end Ums.Task
