import FabricQueue.Proofs.Odometer
import Mathlib.Data.List.Nodup
import Mathlib.Data.List.Perm.Subperm
import Mathlib.Order.Bounds.Basic

set_option autoImplicit false

namespace FabricQueue

theorem Dim.reach_le (d : Dim) : d.reach ≤ 65534 * 65535 :=
  Nat.mul_le_mul (Nat.sub_le_sub_right d.repeats_le 1) (Nat.le_of_lt_succ d.stride.toNat_lt)

theorem range_flatMap_last {α : Type} {f : Nat → List α} {n : Nat} {last : α} (some : 0 < n)
    (ends : (f (n - 1)).getLast? = .some last) :
    ((List.range n).flatMap f).getLast? = .some last := by
  obtain ⟨n, rfl⟩ := Nat.exists_eq_succ_of_ne_zero some.ne'
  rw [List.range_succ, List.flatMap_append, List.flatMap_singleton, List.getLast?_append]
  simp only [Nat.succ_eq_add_one, Nat.add_sub_cancel] at ends
  rw [ends, Option.some_or]

namespace Transfer

def reach (t : Transfer) : Nat :=
  t.inner.reach + t.middle.reach + t.outer.reach

-- Two runs have no byte in common.
def Apart (a b : Nat × Nat) : Prop :=
  a.1 + a.2 ≤ b.1 ∨ b.1 + b.2 ≤ a.1

variable {t : Transfer} {item : Nat × Nat}

theorem extent_moves (moves : t.run ≠ 0) : t.extent = t.reach + t.run.toNat := by
  rw [extent, if_neg moves, reach]

theorem runs_pos (t : Transfer) : 0 < t.runs :=
  Nat.mul_pos (Nat.mul_pos t.inner.repeats_pos t.middle.repeats_pos) t.outer.repeats_pos

theorem totalBytes_eq_zero : t.totalBytes = 0 ↔ t.run = 0 := by
  rw [totalBytes, Nat.mul_eq_zero, or_iff_right t.runs_pos.ne']
  exact ⟨fun zero => UInt32.toNat_inj.mp zero, fun empty => congrArg UInt32.toNat empty⟩

theorem runList_eq_nil : t.runList = [] ↔ t.run = 0 := by
  refine ⟨fun none => ?_, fun empty => by rw [runList, if_pos empty]⟩
  have bytes := t.chunks_bytes
  rw [← runList_length, none, List.length_nil, Nat.zero_mul] at bytes
  exact totalBytes_eq_zero.mp bytes.symm

theorem runList_between (member : item ∈ t.runList) :
    ∃ o ≤ t.reach, item = (t.address.toNat + o, t.run.toNat) := by
  unfold runList at member
  split at member
  · cases member
  · simp only [List.mem_flatMap, List.mem_map, List.mem_range] at member
    obtain ⟨i, outer, j, middle, k, inner, rfl⟩ := member
    have first := Nat.mul_le_mul_right t.inner.stride.toNat (Nat.le_sub_one_of_lt inner)
    have second := Nat.mul_le_mul_right t.middle.stride.toNat (Nat.le_sub_one_of_lt middle)
    have third := Nat.mul_le_mul_right t.outer.stride.toNat (Nat.le_sub_one_of_lt outer)
    refine ⟨i * t.outer.stride.toNat + j * t.middle.stride.toNat + k * t.inner.stride.toNat, ?_, ?_⟩
    · simp only [reach, Dim.reach]
      omega
    · simp only [Prod.mk.injEq, and_true]
      omega

theorem runList_last (moves : t.run ≠ 0) :
    t.runList.getLast? = some (t.address.toNat + t.reach, t.run.toNat) := by
  rw [runList, if_neg moves]
  refine range_flatMap_last t.outer.repeats_pos ?_
  refine range_flatMap_last t.middle.repeats_pos ?_
  obtain ⟨n, inner⟩ := Nat.exists_eq_succ_of_ne_zero t.inner.repeats_pos.ne'
  rw [inner, List.range_succ, List.map_append, List.map_singleton, List.getLast?_concat]
  simp only [reach, Dim.reach, inner, Nat.succ_eq_add_one, Nat.add_sub_cancel, Option.some.injEq,
    Prod.mk.injEq, and_true]
  omega

theorem runList_bytes (t : Transfer) : (t.runList.map Prod.snd).sum = t.totalBytes := by
  have each : t.runList.map Prod.snd = List.replicate t.runList.length t.run.toNat := by
    rw [List.eq_replicate_iff, List.length_map]
    refine ⟨rfl, fun length member => ?_⟩
    obtain ⟨item, among, rfl⟩ := List.mem_map.mp member
    obtain ⟨o, _, rfl⟩ := runList_between among
    rfl
  rw [each, List.sum_replicate_nat, runList_length]
  exact t.chunks_bytes

theorem totalBytes_le_extent (apart : t.runList.Pairwise Apart) : t.totalBytes ≤ t.extent := by
  let bytes (item : Nat × Nat) : List Nat := List.range' item.1 item.2
  have single : (t.runList.flatMap bytes).Nodup := by
    refine List.nodup_flatMap.mpr ⟨fun item _ => List.nodup_range', ?_⟩
    refine apart.imp fun {a b} away => ?_
    intro i first second
    have here := List.mem_range'_1.mp first
    have there := List.mem_range'_1.mp second
    unfold Apart at away
    omega
  have inside : t.runList.flatMap bytes ⊆ List.range' t.address.toNat t.extent := by
    intro i member
    obtain ⟨item, among, here⟩ := List.mem_flatMap.mp member
    have moves : t.run ≠ 0 := fun empty => by simp [runList_eq_nil.mpr empty] at among
    obtain ⟨o, below, rfl⟩ := runList_between among
    have bounds := List.mem_range'_1.mp here
    rw [extent_moves moves, List.mem_range'_1]
    omega
  have few := (single.subperm inside).length_le
  have count : (t.runList.flatMap bytes).length = t.totalBytes := by
    rw [← runList_bytes, List.length_flatMap]
    simp only [bytes, List.length_range']
  rwa [count, List.length_range'] at few

theorem reach_run_lt (t : Transfer) : t.reach + t.run.toNat < UInt64.size := by
  have first := t.inner.reach_le
  have second := t.middle.reach_le
  have third := t.outer.reach_le
  have run := t.run.toNat_lt
  simp only [reach, UInt64.size]
  omega

theorem extent_lt (t : Transfer) : t.extent < UInt64.size := by
  unfold Transfer.extent
  split
  · decide
  · exact t.reach_run_lt

theorem extent_eq_zero : t.extent = 0 ↔ t.runList = [] := by
  rw [runList_eq_nil, Transfer.extent]
  split
  next empty => simp [empty]
  next moves =>
    have some : t.run.toNat ≠ 0 := fun zero => moves (UInt32.toNat_inj.mp zero)
    exact iff_of_false (by omega) moves

theorem extent_furthest (moves : t.run ≠ 0) : IsGreatest
    {far | ∃ o, (t.address.toNat + o, t.run.toNat) ∈ t.runList ∧ far = o + t.run.toNat} t.extent := by
  rw [extent_moves moves]
  refine ⟨⟨t.reach, List.mem_of_getLast? (runList_last moves), rfl⟩, ?_⟩
  rintro far ⟨o, member, rfl⟩
  obtain ⟨o', below, same⟩ := runList_between member
  obtain ⟨same, _⟩ := Prod.mk.inj same
  omega

theorem runList_ends (last : t.runList.getLast? = some item) :
    item.1 + item.2 = t.address.toNat + t.extent := by
  have moves : t.run ≠ 0 := fun empty => by simp [runList_eq_nil.mpr empty] at last
  rw [runList_last moves] at last
  cases last
  rw [extent_moves moves, Nat.add_assoc]

theorem byteCount_fits (fits : t.totalBytes < UInt64.size) : t.byteCount = .ok t.totalBytes :=
  if_pos fits

theorem byteCount_past (past : UInt64.size ≤ t.totalBytes) :
    t.byteCount = .error .multiplication :=
  if_neg (Nat.not_lt.mpr past)

theorem byteCount_error_iff :
    t.byteCount = .error .multiplication ↔ UInt64.size ≤ t.totalBytes := by
  refine ⟨fun failed => ?_, byteCount_past⟩
  by_contra fits
  cases (byteCount_fits (Nat.lt_of_not_le fits)).symm.trans failed

theorem byteCount_zero_iff : t.byteCount = .ok 0 ↔ t.totalBytes = 0 := by
  constructor
  · intro zero
    rcases Nat.lt_or_ge t.totalBytes UInt64.size with fits | past
    · exact Except.ok.inj ((byteCount_fits fits).symm.trans zero)
    · cases (byteCount_past past).symm.trans zero
  · intro zero
    rw [byteCount_fits (by rw [zero]; decide), zero]

-- The closed forms against the runs.
structure Measured (t : Transfer) : Prop where
  -- The runs are what the odometer gives, where their addresses have words.
  given : (∀ item ∈ t.runList, item.1 < UInt64.size) → ∀ n,
    (Chunks.called^[n] t.chunks).answer = .ok t.runList[n]?
  -- Nothing below zero and no sum or product past the last word comes up on the way.
  positive : ∀ d ∈ [t.inner, t.middle, t.outer], 1 ≤ d.repeats
  runs : t.runs < UInt64.size
  extent : t.inner.reach + t.middle.reach + t.outer.reach + t.run.toNat < UInt64.size
  nowhere : t.runList = [] → t.extent = 0
  furthest : t.runList ≠ [] → IsGreatest
    {far | ∃ o, (t.address.toNat + o, t.run.toNat) ∈ t.runList ∧ far = o + t.run.toNat} t.extent
  last : ∀ item, t.runList.getLast? = some item → item.1 + item.2 = t.address.toNat + t.extent
  bytes : (t.runList.map Prod.snd).sum < UInt64.size →
    t.byteCount = .ok (t.runList.map Prod.snd).sum
  overflow : t.byteCount = .error .multiplication ↔
    UInt64.size ≤ (t.runList.map Prod.snd).sum
  noBytes : t.byteCount = .ok 0 ↔ t.runList = []
  noExtent : t.extent = 0 ↔ t.runList = []
  apart : t.runList.Pairwise Apart → ∃ total, t.byteCount = .ok total ∧ total ≤ t.extent

theorem sizes_measured (t : Transfer) : t.Measured := by
  have wide := t.extent_lt
  constructor
  case given =>
    exact fun fits n => called_answer fun item before => fits item (List.mem_of_mem_take before)
  case positive =>
    intro d _
    exact d.repeats_pos
  case runs =>
    have few := t.runs_lt
    omega
  case extent => exact t.reach_run_lt
  case nowhere => exact extent_eq_zero.mpr
  case furthest => exact fun some => extent_furthest fun empty => some (runList_eq_nil.mpr empty)
  case last => exact fun item => runList_ends
  case bytes =>
    rw [runList_bytes]
    exact byteCount_fits
  case overflow =>
    rw [runList_bytes]
    exact byteCount_error_iff
  case noBytes => rw [runList_eq_nil, ← totalBytes_eq_zero, byteCount_zero_iff]
  case noExtent => exact extent_eq_zero
  case apart =>
    intro away
    have few := totalBytes_le_extent away
    exact ⟨t.totalBytes, byteCount_fits (Nat.lt_of_le_of_lt few wide), few⟩

-- With all counts at their highest a run may have this many bytes and no more.
example : let most : Dim := ⟨65535, 0⟩
    let widest (run : UInt32) :=
      { sampleTiles 0 with run, inner := most, middle := most, outer := most }
    (widest 65539).byteCount = .ok 18446744047940272125 ∧
      (widest 65540).byteCount = .error .multiplication := by
  decide

end Transfer

end FabricQueue
