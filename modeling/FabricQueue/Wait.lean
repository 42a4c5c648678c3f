import FabricQueue.Error

set_option autoImplicit false

/-!
# Waits

A wait polls a condition: first in a tight loop, then with yields in between, then with sleeps that
double up to a limit. Time, cancellation and the work of others come from outside, as one tick after
each poll that did not end the wait.
-/

namespace FabricQueue

-- How long and how hard to poll. Times are in nanoseconds.
structure WaitPolicy where
  -- Give up after this long; without it the wait has no deadline.
  timeout : Option Nat := none
  -- Polls before the first yield.
  spinPolls : UInt32 := 64
  -- Polls between two yields.
  yieldInterval : UInt32 := 8
  -- The longest sleep.
  maxBackoff : Nat := 1000000
  -- The wait was cancelled before it began.
  cancelled : Bool := false
  deriving DecidableEq, Repr

-- What a wait does between two polls.
inductive Pause where
  | spin
  | yield
  | proceed
  | sleep (time : Nat)
  deriving DecidableEq, Repr

-- What is seen after a poll, and what others do during the pause that follows.
structure Tick (σ : Type) where
  elapsed : Nat := 0
  cancelled : Bool := false
  evolve : Pause → σ → σ := fun _ s => s

namespace WaitPolicy

/-- Wait until done, however long it takes. -/
def indefinite : WaitPolicy := {}

def bounded (timeout : Nat) : WaitPolicy :=
  { timeout := some timeout }

def interval (p : WaitPolicy) : Nat :=
  max p.yieldInterval.toNat 1

def sleepAfter (p : WaitPolicy) : Nat :=
  p.spinPolls.toNat + 16 * p.interval

/-- The pause after the given number of polls. -/
def pause (p : WaitPolicy) (polls backoff : Nat) : Pause :=
  if polls < p.spinPolls.toNat then .spin
  else if polls < p.sleepAfter then
    if (polls - p.spinPolls.toNat) % p.interval = 0 then .yield else .proceed
  else .sleep backoff

def nextBackoff (p : WaitPolicy) (polls backoff : Nat) : Nat :=
  if polls < p.sleepAfter then backoff else min (2 * backoff) p.maxBackoff

/-- Whole milliseconds of a time. A number past the last word is cut to that word. -/
def milliseconds (time : Nat) : Nat :=
  min (time / 1000000) (UInt64.size - 1)

def expired (p : WaitPolicy) (elapsed : Nat) : Option Error :=
  match p.timeout with
  | some timeout => if timeout ≤ elapsed then some (.timeout (milliseconds timeout)) else none
  | none => none

/-- Poll until the condition holds and give back how many polls that took. The condition is asked
before the wait may be cancelled, and a cancelled wait does not time out. The first sleep is a
microsecond. -/
def pollUntil {σ : Type} (p : WaitPolicy) (condition : EStateM Failure σ Bool)
    (ticks : List (Tick σ)) : EStateM Failure σ Nat :=
  go 1 1000 ticks
where
  go (polls backoff : Nat) : List (Tick σ) → EStateM Failure σ Nat
    | [] => do
      if ← condition then return polls
      throw .stillWaiting
    | tick :: rest => do
      if ← condition then return polls
      if p.cancelled || tick.cancelled then
        throw (.error .cancelled)
      if let some error := p.expired tick.elapsed then
        throw (.error error)
      modify (tick.evolve (p.pause polls backoff))
      go (polls + 1) (p.nextBackoff polls backoff) rest

end WaitPolicy

end FabricQueue
