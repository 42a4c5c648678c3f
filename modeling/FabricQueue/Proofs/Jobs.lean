import FabricQueue.Fabric.Fabric
import Mathlib.Tactic.Ring
import Mathlib.Tactic.SplitIfs

set_option autoImplicit false

namespace FabricQueue

theorem Dim.repeats_pos (d : Dim) : 0 < d.repeats := by
  unfold repeats
  split
  · decide
  next nonzero =>
    have positive : d.count.toNat ≠ 0 := fun zero => nonzero (UInt16.toNat_inj.mp zero)
    omega

namespace Chunks

def position (c : Chunks) : Nat :=
  c.innerAt + c.middleAt * c.inner.repeats + c.outerAt * c.inner.repeats * c.middle.repeats

structure InRange (c : Chunks) : Prop where
  inner : c.innerAt < c.inner.repeats
  middle : c.middleAt < c.middle.repeats
  outer : c.outerAt < c.outer.repeats

theorem digits_lt {low high base limit : Nat} (small : low < base) (below : high < limit) :
    low + high * base < base * limit := by
  calc low + high * base < base + high * base := by omega
    _ = base * (high + 1) := by ring
    _ ≤ base * limit := Nat.mul_le_mul_left base below

variable {c : Chunks}

theorem InRange.position_lt (inRange : c.InRange) :
    c.position < c.inner.repeats * c.middle.repeats * c.outer.repeats := by
  have low := digits_lt inRange.inner inRange.middle
  have whole := digits_lt low inRange.outer
  rw [position, Nat.mul_assoc c.outerAt]
  exact whole

theorem turn_fixed (c : Chunks) : c.turn.base = c.base ∧ c.turn.run = c.run ∧
    c.turn.inner = c.inner ∧ c.turn.middle = c.middle ∧ c.turn.outer = c.outer := by
  unfold turn
  split_ifs <;> exact ⟨rfl, rfl, rfl, rfl, rfl⟩

theorem InRange.turn (inRange : c.InRange) : c.turn.InRange := by
  obtain ⟨inner, middle, outer⟩ := inRange
  have first := c.inner.repeats_pos
  have second := c.middle.repeats_pos
  have third := c.outer.repeats_pos
  unfold Chunks.turn
  split_ifs with more next last
  · exact ⟨more, middle, outer⟩
  · exact ⟨first, next, outer⟩
  · exact ⟨first, second, last⟩
  · exact ⟨first, second, third⟩

theorem InRange.remaining_turn (inRange : c.InRange) (more : c.done = false) :
    c.remaining = c.turn.remaining + 1 := by
  have below := inRange.position_lt
  obtain ⟨inner, middle, outer⟩ := inRange
  unfold position at below
  unfold Chunks.turn
  split_ifs with step next last
  · simp only [remaining, more, Bool.false_eq_true, if_false]; omega
  · have full : c.innerAt + 1 = c.inner.repeats := by omega
    have carried : (c.middleAt + 1) * c.inner.repeats =
        c.innerAt + 1 + c.middleAt * c.inner.repeats := by rw [full]; ring
    simp only [remaining, more, Bool.false_eq_true, if_false, carried]
    omega
  · have full : c.innerAt + 1 = c.inner.repeats := by omega
    have whole : c.middleAt + 1 = c.middle.repeats := by omega
    have carried : (c.outerAt + 1) * c.inner.repeats * c.middle.repeats =
        c.innerAt + 1 + c.middleAt * c.inner.repeats +
          c.outerAt * c.inner.repeats * c.middle.repeats := by
      rw [full, ← whole]; ring
    simp only [remaining, more, Bool.false_eq_true, if_false, carried]
    omega
  · have full : c.innerAt + 1 = c.inner.repeats := by omega
    have whole : c.middleAt + 1 = c.middle.repeats := by omega
    have final : c.outerAt + 1 = c.outer.repeats := by omega
    have ended : c.inner.repeats * c.middle.repeats * c.outer.repeats =
        c.innerAt + c.middleAt * c.inner.repeats +
          c.outerAt * c.inner.repeats * c.middle.repeats + 1 := by
      rw [← full, ← whole, ← final]; ring
    simp only [remaining, more, Bool.false_eq_true, if_false, if_true, ended]
    omega

end Chunks

namespace Transfer

theorem chunks_inRange (t : Transfer) : t.chunks.InRange :=
  ⟨t.inner.repeats_pos, t.middle.repeats_pos, t.outer.repeats_pos⟩

theorem chunks_bytes (t : Transfer) : t.chunks.remaining * t.chunks.run.toNat = t.totalBytes := by
  by_cases empty : t.run = 0
  · simp [chunks, Chunks.remaining, totalBytes, empty]
  · simp [chunks, Chunks.remaining, totalBytes, runs, empty]

end Transfer

namespace Job

theorem start_bytesLeft (index : UInt64) (t : Transfer) :
    bytesLeft { index, endpoint := t.endpoint, chunks := t.chunks } = t.totalBytes := by
  rw [bytesLeft, t.chunks_bytes]
  simp

structure Continues (job later : Job) : Prop where
  index : later.index = job.index
  endpoint : later.endpoint = job.endpoint
  inRange : job.chunks.InRange → later.chunks.InRange

variable {job : Job}

theorem Continues.refl (job : Job) : job.Continues job :=
  ⟨rfl, rfl, id⟩

theorem Continues.trans {later last : Job} (first : job.Continues later)
    (second : later.Continues last) : job.Continues last :=
  ⟨second.index.trans first.index, second.endpoint.trans first.endpoint,
    fun inRange => second.inRange (first.inRange inRange)⟩

theorem take_none (done : job.take = .ok none) : job.bytesLeft = 0 := by
  unfold take at done
  split at done
  · cases done
  next fresh =>
    unfold Chunks.next at done
    by_cases ended : job.chunks.done = true
    · simp [bytesLeft, fresh, Chunks.remaining, ended]
    · by_cases fits : job.chunks.base.toNat + job.chunks.offset < UInt64.size
      · rw [if_neg ended, if_pos fits] at done
        cases done
      · rw [if_neg ended, if_neg fits] at done
        cases done

theorem take_some {run : Run} {later : Job} (inRange : job.chunks.InRange)
    (taken : job.take = .ok (some (run, later))) :
    later.rest = none ∧ job.Continues later ∧
      run.length.toNat + later.bytesLeft = job.bytesLeft := by
  unfold take at taken
  cases begun : job.rest with
  | some rest =>
    rw [begun] at taken
    cases taken
    exact ⟨rfl, ⟨rfl, rfl, id⟩, by simp [bytesLeft, begun]⟩
  | none =>
    rw [begun] at taken
    unfold Chunks.next at taken
    by_cases ended : job.chunks.done = true
    · simp [ended] at taken
    by_cases fits : job.chunks.base.toNat + job.chunks.offset < UInt64.size
    · simp only [ended, fits, if_true, Bool.false_eq_true, if_false, Except.ok.injEq,
        Option.some.injEq, Prod.mk.injEq] at taken
      obtain ⟨rfl, rfl⟩ := taken
      have counted := inRange.remaining_turn (Bool.not_eq_true _ ▸ ended)
      refine ⟨rfl, ⟨rfl, rfl, fun _ => inRange.turn⟩, ?_⟩
      simp only [bytesLeft, begun, Option.map_none, Option.getD_none, counted,
        job.chunks.turn_fixed.2.1]
      ring
    · simp [ended, fits] at taken

end Job

end FabricQueue
