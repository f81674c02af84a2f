import Ums.Config
import Ums.Lib.Bits

/-!
# The CPUs of the schedulers

Three loops carry a set of CPUs from the operating system to the schedulers and back: one encodes
the affinity set of the process in a 64-bit mask, one creates a scheduler for each of the lowest
bits of the mask, and one decodes the mask of a scheduler when its workers bind themselves. The
first and the last shift `1U`, which has 32 bits.
-/

namespace Ums

/-- `Options::schedulers_count`, when the caller has asked for `value`. -/
def Options.schedulersCount (value : Nat) : Nat :=
  Options.option value minSchedulersCount maxSupportedCpus

namespace Placement

open Lib

/-! ## The masks -/

/-- `CFG_allowed_cpus_mask`. -/
def allowedCpusMask : BitVec 64 := BitVec.allOnes 64

/-- `1U << i`, a 32-bit value. The language leaves open what it is beyond the width: `beyond` says
what it is there. -/
def shiftOne (beyond : Nat → BitVec 32) (i : Nat) : BitVec 32 :=
  if i < 32 then 1#32 <<< i else beyond i

/-- `os::cpus_avail_mask`, when `cpus_count` CPUs are online. The affinity set is what
`sched_getaffinity` reports, if it succeeds. -/
def cpusAvailMask (beyond : Nat → BitVec 32) (cpusCount : Nat) :
    Option (Finset Nat) → BitVec 64
  | none => -1
  | some mask =>
    (List.range cpusCount).foldl (fun cpuMask i =>
      if i ∈ mask then cpuMask ||| (shiftOne beyond i).setWidth 64 else cpuMask) 0#64

/-- The set that `os::bind_thread` passes to `pthread_setaffinity_np`. -/
def bindThread (beyond : Nat → BitVec 32) (cpusCount : Nat) (cpuMask : BitVec 64) : Finset Nat :=
  (List.range cpusCount).foldl (fun mask i =>
    if cpuMask &&& (shiftOne beyond i).setWidth 64 ≠ 0#64 then insert i mask else mask) ∅

/-- `class CPU`. -/
structure CPU where
  /-- `m_id`. -/
  id : Nat
  /-- `m_mask`. -/
  mask : BitVec 64
  deriving DecidableEq

/-- The constructor of `CPU`. -/
def CPU.new (cpuId : Nat) : CPU := ⟨cpuId, 1#64 <<< cpuId⟩

/-- The loop of `Schedulers::Schedulers`, over the CPUs it has yet to look at: `m_cpu` of each
scheduler it creates. -/
def createSchedulers (availMask : BitVec 64) (schedulersCount : Nat) : Nat → List Nat → List CPU
  | _, [] => []
  | schCreated, cpuId :: rest =>
    if schCreated < schedulersCount then
      if availMask.getLsbD cpuId then
        .new cpuId :: createSchedulers availMask schedulersCount (schCreated + 1) rest
      else createSchedulers availMask schedulersCount schCreated rest
    else []

/-- `Schedulers::Schedulers`. -/
def schedulers (beyond : Nat → BitVec 32) (cpusCount : Nat) (affinity : Option (Finset Nat))
    (schedulersCount : Nat) : List CPU :=
  createSchedulers (cpusAvailMask beyond cpusCount affinity &&& allowedCpusMask) schedulersCount 0
    (List.range maxSupportedCpus)

/-! ## What the loops do -/

variable {beyond : Nat → BitVec 32} {cpusCount count i j cpuId : Nat} {affinity : Finset Nat}

/-- Whatever the shift yields, it has no bit from 32 on. -/
theorem lt_of_shiftOne (h : ((shiftOne beyond i).setWidth 64).getLsbD j = true) : j < 32 := by
  rw [BitVec.getLsbD_setWidth, Bool.and_eq_true] at h
  exact BitVec.lt_of_getLsbD h.2

/-- Within the width, the shift is exact. -/
theorem getLsbD_shiftOne (hi : i < 32) :
    ((shiftOne beyond i).setWidth 64).getLsbD j = true ↔ j = i := by
  rw [shiftOne, if_pos hi, BitVec.getLsbD_setWidth, Bool.and_eq_true, getLsbD_one_shiftLeft hi,
    decide_eq_true_eq]
  omega

theorem getLsbD_cpusAvailMask :
    (cpusAvailMask beyond cpusCount (some affinity)).getLsbD j = true ↔
      ∃ i ∈ affinity, i < cpusCount ∧ ((shiftOne beyond i).setWidth 64).getLsbD j = true := by
  rw [cpusAvailMask, getLsbD_foldl_or]
  simp only [BitVec.getLsbD_zero, Bool.false_eq_true, false_or, List.mem_range]
  constructor
  · rintro ⟨i, hi, hmem, hbit⟩
    exact ⟨i, hmem, hi, hbit⟩
  · rintro ⟨i, hmem, hi, hbit⟩
    exact ⟨i, hi, hmem, hbit⟩

theorem mem_bindThread (hid : cpuId < 64) :
    i ∈ bindThread beyond cpusCount (CPU.new cpuId).mask ↔
      i < cpusCount ∧ ((shiftOne beyond i).setWidth 64).getLsbD cpuId = true := by
  rw [bindThread, mem_foldl_insert]
  simp only [Finset.notMem_empty, false_or, List.mem_range, and_ne_zero_iff, CPU.new,
    getLsbD_one_shiftLeft hid, exists_eq_left]

/-- The schedulers are those of the lowest bits of the mask. -/
theorem createSchedulers_eq (availMask : BitVec 64) (count created : Nat) (cpuIds : List Nat) :
    createSchedulers availMask count created cpuIds =
      ((cpuIds.filter fun i => availMask.getLsbD i).take (count - created)).map .new := by
  induction cpuIds generalizing created with
  | nil => simp [createSchedulers]
  | cons cpuId rest ih =>
      rw [createSchedulers]
      by_cases hc : created < count
      · have hleft : count - created = (count - (created + 1)) + 1 := by omega
        by_cases hbit : availMask.getLsbD cpuId = true
        · rw [if_pos hc, if_pos hbit, ih, List.filter_cons_of_pos hbit, hleft, List.take_succ_cons,
            List.map_cons]
        · rw [if_pos hc, if_neg hbit, ih, List.filter_cons_of_neg hbit]
      · have hleft : count - created = 0 := by omega
        rw [if_neg hc, hleft, List.take_zero, List.map_nil]

theorem and_allowedCpusMask (x : BitVec 64) : x &&& allowedCpusMask = x :=
  BitVec.and_allOnes

theorem map_id_new (l : List Nat) : (l.map CPU.new).map CPU.id = l := by
  rw [List.map_map]
  exact List.map_id l

/-- **No scheduler is placed beyond CPU 31**, whatever the shifts yield. -/
theorem id_lt_of_mem {cpu : CPU}
    (h : cpu ∈ schedulers beyond cpusCount (some affinity) count) :
    cpu = .new cpu.id ∧ cpu.id < 32 := by
  rw [schedulers, createSchedulers_eq, and_allowedCpusMask] at h
  obtain ⟨i, hi, rfl⟩ := List.mem_map.mp h
  have hbit := (List.mem_filter.mp (List.mem_of_mem_take hi)).2
  obtain ⟨k, -, -, hk⟩ := getLsbD_cpusAvailMask.mp hbit
  exact ⟨rfl, lt_of_shiftOne hk⟩

/-! ## Placement -/

/-- **Every scheduler is placed on its own CPU**: as many of them as there may be, on the first CPUs
of the affinity set, and each of them binds its workers to its CPU only. The two functions say what
the shifts beyond the width yield in the two loops. -/
structure Placed (availBeyond bindBeyond : Nat → BitVec 32) (cpusCount : Nat)
    (affinity : Finset Nat) (count : Nat) : Prop where
  /-- So many are created. -/
  created : (schedulers availBeyond cpusCount (some affinity) count).length =
    min count affinity.card
  /-- Their CPUs. -/
  ids : (schedulers availBeyond cpusCount (some affinity) count).map CPU.id =
    affinity.sort.take (min count affinity.card)
  /-- What they ask for. -/
  bound : ∀ cpu ∈ schedulers availBeyond cpusCount (some affinity) count,
    bindThread bindBeyond cpusCount cpu.mask = {cpu.id}

variable {availBeyond bindBeyond : Nat → BitVec 32}

/-- **Up to 32 CPUs** everything is as it should be. -/
theorem placed_of_le (hn : cpusCount ≤ 32) (hsub : ∀ i ∈ affinity, i < cpusCount) :
    Placed availBeyond bindBeyond cpusCount affinity count := by
  have hmask : ∀ j, (cpusAvailMask availBeyond cpusCount (some affinity)).getLsbD j =
      decide (j ∈ affinity) := by
    intro j
    rw [Bool.eq_iff_iff, getLsbD_cpusAvailMask, decide_eq_true_eq]
    constructor
    · rintro ⟨i, hmem, hi, hbit⟩
      rwa [(getLsbD_shiftOne (by omega)).mp hbit]
    · intro hmem
      have hj := hsub j hmem
      exact ⟨j, hmem, hj, (getLsbD_shiftOne (by omega)).mpr rfl⟩
  have heq : schedulers availBeyond cpusCount (some affinity) count =
      (affinity.sort.take count).map .new := by
    rw [schedulers, createSchedulers_eq, and_allowedCpusMask]
    simp only [hmask, Nat.sub_zero]
    rw [filter_range_eq_sort fun i hi => ?_]
    have hlt := hsub i hi
    unfold maxSupportedCpus
    omega
  have htake : affinity.sort.take count = affinity.sort.take (min count affinity.card) := by
    rw [← Finset.length_sort (s := affinity) (· ≤ ·), List.take_eq_take_min]
  refine ⟨?_, ?_, fun cpu hcpu => ?_⟩
  · rw [heq, List.length_map, List.length_take, Finset.length_sort]
  · rw [heq, map_id_new, htake]
  · obtain ⟨hnew, hid⟩ := id_lt_of_mem hcpu
    rw [heq] at hcpu
    obtain ⟨k, hk, rfl⟩ := List.mem_map.mp hcpu
    have hmem : k < cpusCount :=
      hsub k ((Finset.mem_sort (s := affinity) (· ≤ ·)).mp (List.mem_of_mem_take hk))
    ext i
    rw [mem_bindThread (by omega), Finset.mem_singleton]
    constructor
    · rintro ⟨hi, hbit⟩
      exact ((getLsbD_shiftOne (by omega)).mp hbit).symm
    · rintro rfl
      exact ⟨hmem, (getLsbD_shiftOne (by omega)).mpr rfl⟩

/-- **With more CPUs than that** a shift may bind the first scheduler to CPU 32 as well. -/
theorem le_of_placed (hcount : 0 < count) (hne : affinity.Nonempty)
    (h : Placed availBeyond (fun _ => BitVec.allOnes 32) cpusCount affinity count) :
    cpusCount ≤ 32 := by
  have hpos : 0 < (schedulers availBeyond cpusCount (some affinity) count).length := by
    rw [h.created]
    exact Nat.lt_min.mpr ⟨hcount, hne.card_pos⟩
  obtain ⟨cpu, hcpu⟩ := List.exists_mem_of_length_pos hpos
  obtain ⟨hnew, hid⟩ := id_lt_of_mem hcpu
  have hbound := h.bound cpu hcpu
  by_contra hn
  have hmem : 32 ∈ bindThread (fun _ => BitVec.allOnes 32) cpusCount cpu.mask := by
    rw [hnew, mem_bindThread (by omega)]
    refine ⟨by omega, ?_⟩
    rw [shiftOne, if_neg (by omega), BitVec.getLsbD_setWidth, BitVec.getLsbD_allOnes]
    simp
    omega
  rw [hbound, Finset.mem_singleton] at hmem
  omega

/-- A CPU from 32 on that should have a scheduler has none, whatever the shifts yield. -/
theorem not_placed_of_mem (hi : 32 ≤ i)
    (hmem : i ∈ affinity.sort.take (min count affinity.card)) :
    ¬Placed availBeyond bindBeyond cpusCount affinity count := by
  intro h
  rw [← h.ids] at hmem
  obtain ⟨cpu, hcpu, hid⟩ := List.mem_map.mp hmem
  have hlt := (id_lt_of_mem hcpu).2
  omega

/--
**The schedulers are placed as they should be on machines with up to 32 CPUs, and only there**: the
count that is asked for and the affinity set may be any, and so may be what a shift beyond the width
yields.
-/
theorem placed_iff (requested : Nat) (hne : affinity.Nonempty)
    (hsub : ∀ i ∈ affinity, i < cpusCount) :
    (∀ availBeyond bindBeyond, Placed availBeyond bindBeyond cpusCount affinity
      (Options.schedulersCount requested)) ↔ cpusCount ≤ 32 := by
  constructor
  · intro h
    exact le_of_placed (Options.option_mem (by decide)).1 hne (h (fun _ => 0) _)
  · intro hn availBeyond bindBeyond
    exact placed_of_le hn hsub

theorem placed_iff_four : ({1, 3} : Finset Nat).Nonempty ∧ (∀ i ∈ ({1, 3} : Finset Nat), i < 4) ∧
    ∀ availBeyond bindBeyond, Placed availBeyond bindBeyond 4 {1, 3} (Options.schedulersCount 7) :=
  ⟨⟨1, by decide⟩, by decide, (placed_iff 7 ⟨1, by decide⟩ (by decide)).mpr (by decide)⟩

/-- A shift that takes its width modulo 32, as processors have it. -/
def shiftModulo (i : Nat) : BitVec 32 := 1#32 <<< (i % 32)

/-- **A process that may only run on CPU 32 gets a scheduler elsewhere**, and on a machine with 64
CPUs the scheduler of CPU 0 asks for CPU 32 as well. -/
theorem cpu_32_misplaced :
    ¬Placed shiftModulo shiftModulo 33 {32} (Options.schedulersCount 1) ∧
      schedulers shiftModulo 33 (some {32}) (Options.schedulersCount 1) = [.new 0] ∧
      bindThread shiftModulo 64 (CPU.new 0).mask = {0, 32} := by
  refine ⟨not_placed_of_mem (i := 32) (by decide) ?_, by decide +kernel, by decide +kernel⟩
  rw [Finset.sort_singleton]
  decide

end Placement

end Ums
