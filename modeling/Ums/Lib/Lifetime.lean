import Mathlib.Data.List.Count

/-!
# Objects in a storage

At most one object at a time lives in a `Storage`. The objects are numbered in the order
of their construction, and every destruction is noted down with the number of the object
it ends. A destruction that finds nobody alive is counted apart.

The end of the storage itself ends the life of an object whose destructor is trivial, and
of no other. So a storage that nothing is constructed over is balanced exactly when nobody
is alive in it.
-/

namespace Ums.Lib

/-- A storage, and the lives of the objects in it. -/
structure Storage (α : Type) where
  /-- The living object, and its number. -/
  object : Option (Nat × α) := none
  /-- How many objects have been constructed. -/
  constructed : Nat := 0
  /-- The objects that have been destroyed, the latest first. -/
  destroyed : List Nat := []
  /-- How often a destruction has found no object. -/
  stray : Nat := 0

namespace Storage

variable {α : Type} {s : Storage α} {n : Nat} {a : α}

/-- An object is constructed, whoever lives there. -/
def construct (s : Storage α) (a : α) : Storage α :=
  { s with object := some (s.constructed, a), constructed := s.constructed + 1 }

/-- The object is moved from. It lives on, with another value. -/
def move (s : Storage α) (f : α → α) : Storage α :=
  { s with object := s.object.map (Prod.map id f) }

/-- The destructor is called. -/
def destruct (s : Storage α) : Storage α :=
  match s.object with
  | some (n, _) => { s with object := none, destroyed := n :: s.destroyed }
  | none => { s with stray := s.stray + 1 }

/-- The storage is released. -/
def release (s : Storage α) (trivial : Bool) : Storage α :=
  if trivial && s.object.isSome then s.destruct else s

/-- The number of the living object. -/
def living (s : Storage α) : Option Nat := s.object.map Prod.fst

/-- Every object has been destroyed exactly once, and nothing else has. -/
def Balanced (s : Storage α) : Prop :=
  (∀ n < s.constructed, s.destroyed.count n = 1) ∧ (∀ n ∈ s.destroyed, n < s.constructed) ∧
    s.stray = 0

instance : Decidable s.Balanced := inferInstanceAs (Decidable (_ ∧ _ ∧ _))

/-- Nothing has been constructed over a living object, and nothing destroyed that was not there. -/
structure Sound (s : Storage α) : Prop where
  /-- Only objects that were constructed are destroyed. -/
  known : ∀ n ∈ s.destroyed, n < s.constructed
  /-- The living object was constructed, and has not been destroyed. -/
  alive : ∀ n, s.living = some n → n < s.constructed ∧ s.destroyed.count n = 0
  /-- The others have been destroyed exactly once. -/
  dead : ∀ n < s.constructed, s.living ≠ some n → s.destroyed.count n = 1
  /-- Every destruction has found an object. -/
  stray : s.stray = 0

@[simp] theorem move_constructed (f : α → α) : (s.move f).constructed = s.constructed := rfl

@[simp] theorem move_destroyed (f : α → α) : (s.move f).destroyed = s.destroyed := rfl

@[simp] theorem living_move (f : α → α) : (s.move f).living = s.living := by
  unfold living move
  cases s.object <;> rfl

@[simp] theorem move_id : s.move id = s := by
  unfold move
  rw [Prod.map_id, Option.map_id]
  rfl

@[simp] theorem move_object_eq_none (f : α → α) : (s.move f).object = none ↔ s.object = none :=
  Option.map_eq_none_iff

@[simp] theorem living_construct : (s.construct a).living = some s.constructed := rfl

theorem living_eq_none : s.living = none ↔ s.object = none := Option.map_eq_none_iff

theorem destruct_of_some (h : s.object = some (n, a)) :
    s.destruct = { s with object := none, destroyed := n :: s.destroyed } := by
  rw [destruct, h]

@[simp] theorem destruct_constructed : s.destruct.constructed = s.constructed := by
  unfold destruct
  split <;> rfl

@[simp] theorem release_constructed (b : Bool) : (s.release b).constructed = s.constructed := by
  unfold release
  split
  · exact destruct_constructed
  · rfl

/-! ## What the operations keep -/

/-- Nobody lives where nothing was constructed. -/
theorem Sound.object_eq_none (h : s.Sound) (hs : s.constructed = 0) : s.object = none := by
  cases ho : s.object with
  | none => rfl
  | some p =>
      have hlt := (h.alive p.1 (by rw [living, ho]; rfl)).1
      omega

theorem sound_empty : ({} : Storage α).Sound where
  known _ h := absurd h List.not_mem_nil
  alive n h := by
    have h : none = some n := h
    simp at h
  dead _ h := absurd h (Nat.not_lt_zero _)
  stray := rfl

theorem Sound.construct (h : s.Sound) (hs : s.object = none) (a : α) : (s.construct a).Sound := by
  have hfresh : s.destroyed.count s.constructed = 0 :=
    List.count_eq_zero.mpr fun hn => Nat.lt_irrefl _ (h.known _ hn)
  have hold : ∀ n, s.living ≠ some n := by
    intro n
    rw [living_eq_none.mpr hs]
    exact fun hc => Option.some_ne_none n hc.symm
  refine ⟨fun n hn => Nat.lt_succ_of_lt (h.known n hn), fun n hn => ?_, fun n hn hne => ?_, h.stray⟩
  · rw [living_construct] at hn
    cases hn
    exact ⟨Nat.lt_succ_self _, hfresh⟩
  · -- the new object is the only one that the storage did not know
    have hne' : n ≠ s.constructed := fun he => hne (he ▸ rfl)
    exact h.dead n (by have : n < s.constructed + 1 := hn; omega) (hold n)

theorem Sound.move (h : s.Sound) (f : α → α) : (s.move f).Sound := by
  refine ⟨h.known, fun n hn => ?_, fun n hn hne => ?_, h.stray⟩
  · rw [living_move] at hn
    exact h.alive n hn
  · rw [living_move] at hne
    exact h.dead n hn hne

/-- The destructor ends the life of the object that is there. -/
theorem Sound.destruct (h : s.Sound) (hs : s.object = some (n, a)) : s.destruct.Sound := by
  have hn : s.living = some n := by rw [living, hs]; rfl
  obtain ⟨hlt, hzero⟩ := h.alive n hn
  rw [destruct_of_some hs]
  refine ⟨fun m hm => ?_, fun m hm => ?_, fun m hm _ => ?_, h.stray⟩
  · rcases List.mem_cons.mp hm with rfl | hm
    · exact hlt
    · exact h.known m hm
  · have hm : none = some m := hm
    simp at hm
  · show (n :: s.destroyed).count m = 1
    rw [List.count_cons]
    by_cases he : n = m
    · subst he
      simp [hzero]
    · have hne : s.living ≠ some m := by
        rw [hn]
        exact fun hc => he (Option.some.inj hc)
      simp [he, h.dead m hm hne]

theorem Sound.release (h : s.Sound) (b : Bool) : (s.release b).Sound := by
  unfold Storage.release
  cases hs : s.object with
  | none => simpa using h
  | some p =>
      cases b with
      | true => exact h.destruct hs
      | false => exact h

/-- Who is alive after the storage is released. -/
theorem release_object (b : Bool) :
    (s.release b).object = none ↔ b = true ∨ s.object = none := by
  unfold release
  cases hs : s.object with
  | none => simpa using hs
  | some p =>
      cases b with
      | true => simp [destruct_of_some hs]
      | false => simp [hs]

/-- **A sound storage is balanced exactly when nobody is alive in it.** -/
theorem Sound.balanced_iff_object (h : s.Sound) : s.Balanced ↔ s.object = none := by
  rw [← living_eq_none]
  constructor
  · rintro ⟨hall, _⟩
    cases hs : s.living with
    | none => rfl
    | some n =>
        obtain ⟨hlt, hzero⟩ := h.alive n hs
        have hone := hall n hlt
        omega
  · intro hs
    refine ⟨fun n hn => h.dead n hn ?_, h.known, h.stray⟩
    rw [hs]
    exact fun hc => Option.some_ne_none n hc.symm

end Storage

end Ums.Lib
