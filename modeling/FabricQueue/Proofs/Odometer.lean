import FabricQueue.Proofs.Addresses
import Mathlib.Data.List.Basic

set_option autoImplicit false

namespace FabricQueue

theorem Dim.repeats_le (d : Dim) : d.repeats ≤ 65535 := by
  have word := d.count.toNat_lt
  unfold repeats
  split
  · decide
  · omega

namespace Chunks

-- A run of the nested loops, by its number.
def item (c : Chunks) (n : Nat) : Nat × Nat :=
  (c.base.toNat + c.offsetAt n, c.run.toNat)

-- The runs still to come, with exact addresses.
def items (c : Chunks) : List (Nat × Nat) :=
  (List.range' c.position c.remaining).map c.item

-- What a call gives.
def answer (c : Chunks) : Except Overflow (Option (Nat × Nat)) :=
  c.next.map (Option.map fun (run, _) => (run.address.toNat, run.length.toNat))

-- The position after a call, also after one that gives nothing or fails.
def called (c : Chunks) : Chunks :=
  match c.next with
  | .ok (some (_, rest)) => rest
  | _ => c

variable {c : Chunks}

theorem items_length (c : Chunks) : c.items.length = c.remaining := by
  rw [items, List.length_map, List.length_range']

theorem items_done (done : c.done = true) : c.items = [] := by
  simp [items, remaining, done]

theorem InRange.items_cons (inRange : c.InRange) (more : c.done = false) :
    c.items = (c.base.toNat + c.offset, c.run.toNat) :: c.turn.items := by
  obtain ⟨base, run, _⟩ := c.turn_fixed
  have same : c.turn.item = c.item := by
    funext n
    rw [item, item, base, run, offsetAt_turn]
  rw [items, inRange.remaining_turn more, List.range'_succ, List.map_cons, inRange.offset_eq]
  congr 1
  cases further : c.turn.done with
  | true => simp [items, remaining, further]
  | false => rw [items, inRange.position_turn more further, same]

theorem next_done (done : c.done = true) : c.next = .ok none := by
  rw [next, if_pos done]

theorem next_fits (more : c.done = false) (fits : c.base.toNat + c.offset < UInt64.size) :
    c.next = .ok (some (⟨UInt64.ofNat (c.base.toNat + c.offset), c.run⟩, c.turn)) := by
  rw [next, if_neg (by simp [more]), if_pos fits]

theorem next_past (more : c.done = false) (past : UInt64.size ≤ c.base.toNat + c.offset) :
    c.next = .error .addition := by
  rw [next, if_neg (by simp [more]), if_neg (by omega)]

theorem InRange.answer_head (inRange : c.InRange)
    (fits : ∀ item ∈ c.items.head?, item.1 < UInt64.size) : c.answer = .ok c.items.head? := by
  cases more : c.done with
  | true =>
    rw [answer, next_done more, items_done more]
    rfl
  | false =>
    rw [inRange.items_cons more] at fits ⊢
    have small : c.base.toNat + c.offset < UInt64.size := fits _ rfl
    rw [answer, next_fits more small]
    simp only [Except.map, Option.map, List.head?_cons, UInt64.toNat_ofNat_of_lt' small]

theorem InRange.next_head {item : Nat × Nat} (inRange : c.InRange)
    (first : c.items.head? = some item) (past : UInt64.size ≤ item.1) :
    c.next = .error .addition := by
  cases more : c.done with
  | true =>
    rw [items_done more] at first
    cases first
  | false =>
    rw [inRange.items_cons more] at first
    cases first
    exact next_past more past

theorem InRange.called_tail (inRange : c.InRange)
    (fits : ∀ item ∈ c.items.head?, item.1 < UInt64.size) :
    c.called.InRange ∧ c.called.items = c.items.tail := by
  cases more : c.done with
  | true =>
    rw [called, next_done more]
    exact ⟨inRange, by rw [items_done more]; rfl⟩
  | false =>
    rw [inRange.items_cons more] at fits ⊢
    rw [called, next_fits more (fits _ rfl)]
    exact ⟨inRange.turn, rfl⟩

theorem called_failed {cause : Overflow} (failed : c.next = .error cause) : c.called = c := by
  rw [called, failed]

theorem InRange.called_drop (inRange : c.InRange) (n : Nat)
    (fits : ∀ item ∈ c.items.take n, item.1 < UInt64.size) :
    (called^[n] c).InRange ∧ (called^[n] c).items = c.items.drop n := by
  induction n with
  | zero => exact ⟨inRange, rfl⟩
  | succ n ih =>
    obtain ⟨within, rest⟩ := ih fun item before =>
      fits item (List.take_subset_take_left c.items n.le_succ before)
    have next : ∀ item ∈ (called^[n] c).items.head?, item.1 < UInt64.size := by
      intro item first
      rw [rest, List.head?_drop] at first
      exact fits item (by
        rw [List.take_add_one]
        exact List.mem_append_right _ (Option.mem_toList.mpr first))
    obtain ⟨again, later⟩ := within.called_tail next
    rw [Function.iterate_succ_apply']
    exact ⟨again, by rw [later, rest, List.tail_drop]⟩

-- What is left, and the hint about it.
structure Counts (c : Chunks) (left : Nat) : Prop where
  remaining : c.remaining = left
  hint : c.sizeHint = (left, some left)

theorem called_stays {n : Nat} (stays : (called^[n] c).called = called^[n] c) {later : Nat}
    (after : n ≤ later) : called^[later] c = called^[n] c := by
  obtain ⟨more, rfl⟩ := Nat.exists_eq_add_of_le' after
  rw [Function.iterate_add_apply]
  exact Function.iterate_fixed stays more

end Chunks

theorem range_digits (low high : Nat) :
    List.range (low * high) =
      (List.range high).flatMap fun i => (List.range low).map fun j => j + low * i := by
  induction high with
  | zero => rfl
  | succ high ih =>
    rw [List.range_succ, List.flatMap_append, ← ih, Nat.mul_succ, List.range_add]
    simp [Nat.add_comm]

namespace Transfer

variable (t : Transfer)

theorem item_digits {i j k : Nat} (inner : k < t.inner.repeats) (middle : j < t.middle.repeats) :
    t.chunks.item (k + t.inner.repeats * (j + t.middle.repeats * i)) =
      (t.address.toNat + i * t.outer.stride.toNat + j * t.middle.stride.toNat +
        k * t.inner.stride.toNat, t.run.toNat) := by
  have first := t.inner.repeats_pos
  have second := t.middle.repeats_pos
  simp only [Chunks.item, Chunks.offsetAt, chunks, Nat.add_mul_div_left _ _ first,
    Nat.add_mul_div_left _ _ second, Nat.div_eq_of_lt inner, Nat.div_eq_of_lt middle, Nat.zero_add,
    Nat.add_mul_mod_self_left, Nat.mod_eq_of_lt inner, Nat.mod_eq_of_lt middle, Prod.mk.injEq,
    and_true]
  omega

theorem chunks_items : t.chunks.items = t.runList := by
  by_cases empty : t.run = 0
  · rw [runList, if_pos empty, Chunks.items_done (by simp [chunks, empty])]
  have start : t.chunks.position = 0 := by simp [Chunks.position, chunks]
  have count : t.chunks.remaining = t.inner.repeats * (t.middle.repeats * t.outer.repeats) := by
    simp [Chunks.remaining, chunks, empty, Nat.mul_assoc]
  rw [runList, if_neg empty, Chunks.items, start, count, ← List.range_eq_range',
    range_digits _ (_ * _), range_digits, List.map_flatMap, List.flatMap_assoc]
  refine List.flatMap_congr fun i _ => ?_
  rw [List.flatMap_map]
  refine List.flatMap_congr fun j middle => ?_
  rw [List.map_map]
  refine List.map_congr_left fun k inner => ?_
  exact t.item_digits (List.mem_range.mp inner) (List.mem_range.mp middle)

theorem runList_length : t.runList.length = t.chunks.remaining := by
  rw [← chunks_items, Chunks.items_length]

-- A count of repeats has sixteen bits, so three of them stay below the last word.
theorem runs_lt : t.runs < UInt64.size - 1 :=
  calc t.runs ≤ 65535 * 65535 * 65535 := Nat.mul_le_mul (Nat.mul_le_mul t.inner.repeats_le
        t.middle.repeats_le) t.outer.repeats_le
    _ < UInt64.size - 1 := by decide

theorem runList_length_lt : t.runList.length < UInt64.size - 1 := by
  refine Nat.lt_of_le_of_lt ?_ t.runs_lt
  rw [runList_length]
  unfold Chunks.remaining
  split
  · exact Nat.zero_le _
  · exact Nat.sub_le _ _

open Chunks

variable {t : Transfer}

-- As long as each run so far has its words, the odometer stands at the next one.
theorem called_counts {n : Nat} (fits : ∀ item ∈ t.runList.take n, item.1 < UInt64.size) :
    (called^[n] t.chunks).InRange ∧ (called^[n] t.chunks).items = t.runList.drop n ∧
      (called^[n] t.chunks).Counts (t.runList.length - n) := by
  rw [← chunks_items] at fits
  obtain ⟨inRange, rest⟩ := t.chunks_inRange.called_drop n fits
  rw [chunks_items] at rest
  have left : (called^[n] t.chunks).remaining = t.runList.length - n := by
    rw [← items_length, rest, List.length_drop]
  have small := t.runList_length_lt
  have bound : min (called^[n] t.chunks).remaining (UInt64.size - 1) = t.runList.length - n := by
    omega
  refine ⟨inRange, rest, left, ?_⟩
  rw [sizeHint, bound]

theorem called_answer {n : Nat} (fits : ∀ item ∈ t.runList.take (n + 1), item.1 < UInt64.size) :
    (called^[n] t.chunks).answer = .ok t.runList[n]? := by
  have earlier : ∀ item ∈ t.runList.take n, item.1 < UInt64.size := fun item before =>
    fits item (List.take_subset_take_left t.runList n.le_succ before)
  obtain ⟨inRange, rest, _⟩ := called_counts earlier
  rw [inRange.answer_head, rest, List.head?_drop]
  intro item first
  rw [rest, List.head?_drop] at first
  refine fits item ?_
  rw [List.take_add_one]
  exact List.mem_append_right _ (Option.mem_toList.mpr first)

-- The calls give the runs of the nested loops in order and then nothing for ever, with exact counts
-- at each moment. Where a run has no words for its address, all runs before it are given and every
-- later call fails at the position of that run.
theorem chunks_nested (t : Transfer) :
    ((∀ item ∈ t.runList, item.1 < UInt64.size) → ∀ n,
      (called^[n] t.chunks).answer = .ok t.runList[n]? ∧
        (called^[n] t.chunks).Counts (t.runList.length - n)) ∧
    ∀ k item, t.runList[k]? = some item → UInt64.size ≤ item.1 →
      (∀ earlier ∈ t.runList.take k, earlier.1 < UInt64.size) →
        (∀ n, n < k → (called^[n] t.chunks).answer = .ok t.runList[n]? ∧
          (called^[n] t.chunks).Counts (t.runList.length - n)) ∧
        ∀ n, k ≤ n → called^[n] t.chunks = called^[k] t.chunks ∧
          (called^[n] t.chunks).next = .error .addition ∧
          (called^[n] t.chunks).Counts (t.runList.length - k) := by
  refine ⟨fun fits n => ?_, fun k item reached past earlier => ⟨fun n before => ?_, ?_⟩⟩
  · have some (n : Nat) : ∀ item ∈ t.runList.take n, item.1 < UInt64.size := fun item before =>
      fits item (List.mem_of_mem_take before)
    exact ⟨called_answer (some (n + 1)), (called_counts (some n)).2.2⟩
  · have some {m : Nat} (within : m ≤ k) : ∀ item ∈ t.runList.take m, item.1 < UInt64.size :=
      fun item early => earlier item (List.take_subset_take_left t.runList within early)
    exact ⟨called_answer (some before), (called_counts (some before.le)).2.2⟩
  · obtain ⟨inRange, rest, counts⟩ := called_counts earlier
    have failed : (called^[k] t.chunks).next = .error .addition :=
      inRange.next_head (by rw [rest, List.head?_drop, reached]) past
    intro n after
    rw [called_stays (called_failed failed) after]
    exact ⟨rfl, failed, counts⟩

-- Two rows of two tiles each; from an address near the last one the fourth run has no words.
def sampleTiles (address : UInt64) : Transfer where
  herd := 0
  column := 0
  channel := 0
  direction := .hostToDevice
  address := address
  run := 8
  inner := ⟨2, 32⟩
  middle := ⟨2, 8⟩

theorem chunks_nested_sample :
    (∀ item ∈ (sampleTiles 0).runList, item.1 < UInt64.size) ∧
    (called^[3] (sampleTiles 0).chunks).answer = .ok (some (40, 8)) ∧
    (called^[3] (sampleTiles 0).chunks).Counts 1 ∧
    (called^[7] (sampleTiles 0).chunks).answer = .ok none ∧
    (∀ earlier ∈ (sampleTiles (-40)).runList.take 3, earlier.1 < UInt64.size) ∧
    (called^[2] (sampleTiles (-40)).chunks).answer = .ok (some (UInt64.size - 32, 8)) ∧
    (called^[6] (sampleTiles (-40)).chunks).next = .error .addition ∧
    (called^[6] (sampleTiles (-40)).chunks).Counts 1 := by
  have fits : ∀ item ∈ (sampleTiles 0).runList, item.1 < UInt64.size := by decide
  have earlier : ∀ earlier ∈ (sampleTiles (-40)).runList.take 3, earlier.1 < UInt64.size := by
    decide
  have whole := (chunks_nested (sampleTiles 0)).1 fits
  obtain ⟨given, stuck⟩ := (chunks_nested (sampleTiles (-40))).2 3 (UInt64.size, 8) (by decide)
    (by decide) earlier
  obtain ⟨_, failed, counts⟩ := stuck 6 (by decide)
  exact ⟨fits, (whole 3).1, (whole 3).2, (whole 7).1, earlier, (given 2 (by decide)).1, failed,
    counts⟩

end Transfer

end FabricQueue
