import FabricQueue.Packet.Transfer

set_option autoImplicit false

namespace FabricQueue

-- Consecutive bytes of host memory.
structure Run where
  address : UInt64
  length : UInt32
  deriving DecidableEq, Repr

structure Chunks where
  base : UInt64
  run : UInt32
  inner : Dim
  middle : Dim
  outer : Dim
  innerAt : Nat := 0
  middleAt : Nat := 0
  outerAt : Nat := 0
  done : Bool := false
  deriving DecidableEq, Repr

def Transfer.chunks (t : Transfer) : Chunks where
  base := t.address
  run := t.run
  inner := t.inner
  middle := t.middle
  outer := t.outer
  done := t.run == 0

namespace Chunks

/-- Runs still to come. -/
def remaining (c : Chunks) : Nat :=
  if c.done then 0
  else
    c.inner.repeats * c.middle.repeats * c.outer.repeats -
      (c.innerAt + c.middleAt * c.inner.repeats + c.outerAt * c.inner.repeats * c.middle.repeats)

/-- How many runs are still to come, as a lower and an upper bound. A count past the last word would
be cut to that word. -/
def sizeHint (c : Chunks) : Nat × Option Nat :=
  let bound := min c.remaining (UInt64.size - 1)
  (bound, some bound)

def offset (c : Chunks) : Nat :=
  c.innerAt * c.inner.stride.toNat + c.middleAt * c.middle.stride.toNat +
    c.outerAt * c.outer.stride.toNat

def turn (c : Chunks) : Chunks :=
  if c.innerAt + 1 < c.inner.repeats then
    { c with innerAt := c.innerAt + 1 }
  else if c.middleAt + 1 < c.middle.repeats then
    { c with innerAt := 0, middleAt := c.middleAt + 1 }
  else if c.outerAt + 1 < c.outer.repeats then
    { c with innerAt := 0, middleAt := 0, outerAt := c.outerAt + 1 }
  else
    { c with innerAt := 0, middleAt := 0, outerAt := 0, done := true }

/-- The next run and the position behind it, or nothing at the end. An address past the last 64-bit
address is an overflow, and then the position stays. -/
def next (c : Chunks) : Except Overflow (Option (Run × Chunks)) :=
  if c.done then .ok none
  else if c.base.toNat + c.offset < UInt64.size then
    .ok (some (⟨UInt64.ofNat (c.base.toNat + c.offset), c.run⟩, c.turn))
  else .error .addition

-- How a batch of steps came to its end.
inductive Ending where
  | pausing
  | exhausted
  | overflow (cause : Overflow)
  deriving DecidableEq, Repr

/-- Up to `count` steps: the runs in order, how it ended, and the position then. -/
def take : Nat → Chunks → List Run × Ending × Chunks
  | 0, c => ([], .pausing, c)
  | count + 1, c =>
    match c.next with
    | .error cause => ([], .overflow cause, c)
    | .ok none => ([], .exhausted, c)
    | .ok (some (run, rest)) =>
      let (runs, ending, last) := take count rest
      (run :: runs, ending, last)

/-- Up to `count` steps without keeping the runs: how many there were. -/
def skip (count : Nat) (c : Chunks) : Except Overflow Nat × Chunks :=
  go count 0 c
where
  go : Nat → Nat → Chunks → Except Overflow Nat × Chunks
    | 0, passed, c => (.ok passed, c)
    | count + 1, passed, c =>
      match c.next with
      | .error cause => (.error cause, c)
      | .ok none => (.ok passed, c)
      | .ok (some (_, rest)) => go count (passed + 1) rest

end Chunks

/-- The runs of a transfer as nested loops over exact addresses, outer dimension first. -/
def Transfer.runList (t : Transfer) : List (Nat × Nat) :=
  if t.run = 0 then []
  else
    (List.range t.outer.repeats).flatMap fun i =>
      (List.range t.middle.repeats).flatMap fun j =>
        (List.range t.inner.repeats).map fun k =>
          (t.address.toNat + i * t.outer.stride.toNat + j * t.middle.stride.toNat +
            k * t.inner.stride.toNat, t.run.toNat)

end FabricQueue
