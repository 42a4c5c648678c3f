import FabricQueue.Proofs.Ring

set_option autoImplicit false

namespace FabricQueue

inductive Call where
  | act (a : Act)
  | packet (index : UInt64)
  | hasRoom (index : UInt64)
  | isComplete (index : UInt64)
  | writeIndex
  | readIndex
  | published
  | header
  -- To the port.
  | portReadIndex
  | portPublished
  | attach
  deriving DecidableEq, Repr

inductive Answer where
  | reply (reply : Reply)
  | record (record : Record)
  | flag (value : Bool)
  | word (value : UInt64)
  | header (header : QueueHeader)
  | port (capacity : Nat)
  | failed (failure : Failure)
  deriving DecidableEq, Repr

namespace Answer

def failure? : Answer → Option Failure
  | .reply (.failed failure) => some failure
  | .failed failure => some failure
  | _ => none

-- The answer without the identifier, of which each queue has its own.
def nameless : Answer → Answer
  | .header seen => .header { seen with id := 0 }
  | answer => answer

end Answer

namespace Ring

def ask {α : Type} (s : Ring) (say : α → Answer) (use : Access α) : Answer × Ring :=
  match use s.memory with
  | .ok a memory => (say a, { s with memory })
  | .error failure memory => (.failed failure, { s with memory })

def takeUp (s : Ring) : Answer × Ring :=
  match Consumer.attach s.queue.region s.memory with
  | .ok port memory => (.port port.capacity, { s with port, memory })
  | .error failure memory => (.failed failure, { s with memory })

def call (s : Ring) : Call → Answer × Ring
  | .act a => (.reply (s.perform a).1, (s.perform a).2)
  | .packet index => s.ask .record (s.queue.packet index)
  | .hasRoom index => s.ask .flag (s.queue.hasRoom index)
  | .isComplete index => s.ask .flag (s.queue.isComplete index)
  | .writeIndex => s.ask .word s.queue.writeIndex
  | .readIndex => s.ask .word s.queue.readIndex
  | .published => s.ask .word s.queue.published
  | .header => s.ask .header (QueueHeader.read s.queue.region)
  | .portReadIndex => s.ask .word s.port.readIndex
  | .portPublished => s.ask .word s.port.published
  | .attach => s.takeUp

def answers : List Call → Ring → List Answer
  | [], _ => []
  | c :: rest, s => (s.call c).1 :: answers rest (s.call c).2

end Ring

end FabricQueue
