import FabricQueue.Fabric.HostMap
import FabricQueue.Proofs.Jobs

set_option autoImplicit false

namespace FabricQueue

namespace Run

def addresses (r : Run) : List Nat :=
  List.range' r.address.toNat r.length.toNat

theorem addresses_length (r : Run) : r.addresses.length = r.length.toNat :=
  List.length_range'

end Run

namespace Chunks

def runs (c : Chunks) : List Run :=
  (c.take c.remaining).1

-- One past the last byte of the whole sequence, counted from its base.
def extent (c : Chunks) : Nat :=
  c.inner.reach + c.middle.reach + c.outer.reach + c.run.toNat

structure Within (c : Chunks) (low high : Nat) : Prop where
  inRange : c.InRange
  moves : 0 < c.run.toNat
  low : low ≤ c.base.toNat
  high : c.base.toNat + c.extent ≤ high

variable {c : Chunks} {low high : Nat}

theorem InRange.offset_le (inRange : c.InRange) : c.offset + c.run.toNat ≤ c.extent := by
  obtain ⟨inner, middle, outer⟩ := inRange
  have first := Nat.mul_le_mul_right c.inner.stride.toNat (Nat.le_sub_one_of_lt inner)
  have second := Nat.mul_le_mul_right c.middle.stride.toNat (Nat.le_sub_one_of_lt middle)
  have third := Nat.mul_le_mul_right c.outer.stride.toNat (Nat.le_sub_one_of_lt outer)
  unfold offset extent Dim.reach
  omega

theorem Within.turn (within : c.Within low high) : c.turn.Within low high := by
  obtain ⟨base, run, inner, middle, outer⟩ := c.turn_fixed
  refine ⟨within.inRange.turn, by rw [run]; exact within.moves, by rw [base]; exact within.low, ?_⟩
  rw [extent, base, run, inner, middle, outer]
  exact within.high

theorem remaining_pos (inRange : c.InRange) : 0 < c.remaining ↔ c.done = false := by
  have below := inRange.position_lt
  unfold remaining
  cases c.done with
  | true => simp
  | false =>
    unfold position at below
    simp only [Bool.false_eq_true, if_false]
    exact iff_of_true (by omega) trivial

section Next

variable (within : c.Within low high) (addressable : high ≤ UInt64.size)

def current (c : Chunks) : Run :=
  ⟨UInt64.ofNat (c.base.toNat + c.offset), c.run⟩

include within addressable

theorem Within.current_toNat : c.current.address.toNat = c.base.toNat + c.offset := by
  have bound := within.inRange.offset_le
  have high := within.high
  have moves := within.moves
  exact UInt64.toNat_ofNat_of_lt' (by omega)

theorem Within.next_ok (more : c.done = false) : c.next = .ok (some (c.current, c.turn)) := by
  have bound := within.inRange.offset_le
  have high := within.high
  have moves := within.moves
  rw [next, if_neg (by simp [more]), if_pos (by omega)]
  rfl

theorem Within.runs_eq (more : c.done = false) : c.runs = c.current :: c.turn.runs := by
  rw [runs, within.inRange.remaining_turn more, take, within.next_ok addressable more]
  rfl

-- Induction over the runs still to come.
theorem Within.runs_induction {motive : Chunks → Prop}
    (ended : ∀ c, c.Within low high → c.done = true → c.runs = [] → motive c)
    (turned : ∀ c, c.Within low high → c.done = false → c.runs = c.current :: c.turn.runs →
      motive c.turn → motive c) : motive c := by
  induction left : c.remaining generalizing c with
  | zero =>
    have done : c.done = true := by
      have none := (remaining_pos within.inRange).not.mp (by omega)
      simpa using none
    exact ended c within done (by rw [runs, left]; rfl)
  | succ left ih =>
    have more : c.done = false := (remaining_pos within.inRange).mp (by omega)
    have counted := within.inRange.remaining_turn more
    exact turned c within more (within.runs_eq addressable more) (ih within.turn (by omega))

theorem Within.runs_within {run : Run} (member : run ∈ c.runs) : 0 < run.length.toNat ∧
    low ≤ run.address.toNat ∧ run.address.toNat + run.length.toNat ≤ high := by
  apply within.runs_induction addressable (motive := fun c => run ∈ c.runs → _) ?_ ?_ member
  · intro c _ _ none member
    rw [none] at member
    cases member
  · intro c within more runs ih member
    rw [runs] at member
    rcases List.mem_cons.mp member with rfl | later
    · have bound := within.inRange.offset_le
      have above := within.low
      have high := within.high
      rw [within.current_toNat addressable]
      refine ⟨within.moves, by omega, ?_⟩
      change c.base.toNat + c.offset + c.run.toNat ≤ _
      omega
    · exact ih later

theorem Within.runs_length :
    (c.runs.flatMap Run.addresses).length = c.remaining * c.run.toNat := by
  apply within.runs_induction addressable
    (motive := fun c => (c.runs.flatMap Run.addresses).length = c.remaining * c.run.toNat)
  · intro c within done none
    simp [none, remaining, done]
  · intro c within more runs ih
    rw [runs, List.flatMap_cons, List.length_append, ih, Run.addresses_length,
      within.inRange.remaining_turn more, c.turn_fixed.2.1]
    change c.run.toNat + _ = _
    ring

end Next

def offsetAt (c : Chunks) (n : Nat) : Nat :=
  n % c.inner.repeats * c.inner.stride.toNat +
    n / c.inner.repeats % c.middle.repeats * c.middle.stride.toNat +
      n / c.inner.repeats / c.middle.repeats * c.outer.stride.toNat

theorem InRange.offset_eq (inRange : c.InRange) : c.offset = c.offsetAt c.position := by
  have first := c.inner.repeats_pos
  have second := c.middle.repeats_pos
  have shape : c.position =
      c.innerAt + c.inner.repeats * (c.middleAt + c.middle.repeats * c.outerAt) := by
    rw [position]; ring
  have high : c.position / c.inner.repeats = c.middleAt + c.middle.repeats * c.outerAt := by
    rw [shape, Nat.add_mul_div_left _ _ first, Nat.div_eq_of_lt inRange.inner, Nat.zero_add]
  rw [offset, offsetAt, high, Nat.add_mul_mod_self_left, Nat.mod_eq_of_lt inRange.middle,
    Nat.add_mul_div_left _ _ second, Nat.div_eq_of_lt inRange.middle, Nat.zero_add, shape,
    Nat.add_mul_mod_self_left, Nat.mod_eq_of_lt inRange.inner]

theorem offsetAt_turn (c : Chunks) (n : Nat) : c.turn.offsetAt n = c.offsetAt n := by
  obtain ⟨_, _, inner, middle, outer⟩ := c.turn_fixed
  simp only [offsetAt, inner, middle, outer]

theorem InRange.position_turn (inRange : c.InRange) (more : c.done = false)
    (further : c.turn.done = false) : c.turn.position = c.position + 1 := by
  have counted := inRange.remaining_turn more
  have here := inRange.position_lt
  have there := inRange.turn.position_lt
  obtain ⟨_, _, inner, middle, outer⟩ := c.turn_fixed
  unfold position at here there ⊢
  unfold remaining at counted
  simp only [more, further, Bool.false_eq_true, if_false, inner, middle, outer] at counted there ⊢
  omega

theorem Within.runs_at (within : c.Within low high) (addressable : high ≤ UInt64.size)
    (more : c.done = false) : c.runs.flatMap Run.addresses =
      (List.range' c.position c.remaining).flatMap fun n =>
        List.range' (c.base.toNat + c.offsetAt n) c.run.toNat := by
  apply within.runs_induction addressable (motive := fun c => c.done = false →
    c.runs.flatMap Run.addresses = (List.range' c.position c.remaining).flatMap fun n =>
      List.range' (c.base.toNat + c.offsetAt n) c.run.toNat) ?_ ?_ more
  · intro c _ done _ more
    rw [done] at more
    cases more
  · intro c within more runs ih _
    obtain ⟨base, run, _⟩ := c.turn_fixed
    have first : c.current.addresses =
        List.range' (c.base.toNat + c.offsetAt c.position) c.run.toNat := by
      rw [Run.addresses, within.current_toNat addressable, within.inRange.offset_eq]
      rfl
    rw [runs, List.flatMap_cons, within.inRange.remaining_turn more, List.range'_succ,
      List.flatMap_cons, first]
    cases further : c.turn.done with
    | true =>
      have none : c.turn.remaining = 0 := by simp [remaining, further]
      simp [Chunks.runs, none, take]
    | false =>
      rw [ih further, within.inRange.position_turn more further, base, run]
      simp only [offsetAt_turn]

end Chunks

namespace Transfer

def addresses (t : Transfer) : List Nat :=
  t.chunks.runs.flatMap Run.addresses

theorem chunks_within {t : Transfer} {low high : Nat} (moves : t.totalBytes ≠ 0)
    (above : low ≤ t.address.toNat) (below : t.address.toNat + t.extent ≤ high) :
    t.chunks.Within low high := by
  have run : t.run ≠ 0 := fun empty => moves (by simp [totalBytes, empty])
  have positive : t.run.toNat ≠ 0 := fun zero => run (UInt32.toNat_inj.mp zero)
  rw [extent, if_neg run] at below
  exact ⟨t.chunks_inRange, Nat.pos_of_ne_zero positive, above, below⟩

theorem addresses_length {t : Transfer} {low high : Nat} (within : t.chunks.Within low high)
    (addressable : high ≤ UInt64.size) : t.addresses.length = t.totalBytes := by
  rw [addresses, within.runs_length addressable, t.chunks_bytes]

end Transfer

namespace Job

def runs (job : Job) : List Run :=
  job.rest.toList ++ job.chunks.runs

def addresses (job : Job) : List Nat :=
  job.runs.flatMap Run.addresses

structure Within (job : Job) (low high : Nat) : Prop where
  chunks : job.chunks.Within low high
  rest : ∀ run ∈ job.rest, 0 < run.length.toNat ∧ low ≤ run.address.toNat ∧
    run.address.toNat + run.length.toNat ≤ high

variable {job : Job} {low high : Nat}

theorem Within.addresses_length (within : job.Within low high)
    (addressable : high ≤ UInt64.size) : job.addresses.length = job.bytesLeft := by
  rw [addresses, runs, List.flatMap_append, List.length_append,
    within.chunks.runs_length addressable, bytesLeft]
  cases job.rest with
  | none => rfl
  | some run => simp [Run.addresses_length]

theorem Within.runs_within (within : job.Within low high) (addressable : high ≤ UInt64.size)
    {run : Run} (member : run ∈ job.runs) : 0 < run.length.toNat ∧ low ≤ run.address.toNat ∧
      run.address.toNat + run.length.toNat ≤ high := by
  rcases List.mem_append.mp member with begun | later
  · exact within.rest run (Option.mem_toList.mp begun)
  · exact within.chunks.runs_within addressable later

theorem Within.take_ok (within : job.Within low high) (addressable : high ≤ UInt64.size) :
    (job.runs = [] ∧ job.take = .ok none) ∨
      ∃ run later, job.take = .ok (some (run, later)) ∧ job.runs = run :: later.runs ∧
        later.rest = none ∧ later.index = job.index ∧ later.endpoint = job.endpoint ∧
          later.Within low high := by
  cases begun : job.rest with
  | some run =>
    refine .inr ⟨run, { job with rest := none }, ?_, ?_, rfl, rfl, rfl, within.chunks, nofun⟩
    · simp only [take, begun]
    · simp only [runs, begun]; rfl
  | none =>
    cases more : job.chunks.done with
    | true =>
      refine .inl ⟨?_, ?_⟩
      · simp [runs, begun, Chunks.runs, Chunks.remaining, more, Chunks.take]
      · simp [take, begun, Chunks.next, more]
    | false =>
      refine .inr ⟨job.chunks.current, { job with chunks := job.chunks.turn }, ?_, ?_, begun, rfl,
        rfl, within.chunks.turn, ?_⟩
      · simp only [take, begun, within.chunks.next_ok addressable more]
      · simp only [runs, begun, within.chunks.runs_eq addressable more]; rfl
      · simp [begun]

end Job

end FabricQueue
