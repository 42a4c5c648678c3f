import FabricQueue.Queue.Producer
import FabricQueue.Wait

set_option autoImplicit false

namespace FabricQueue

structure QueueHandle (σ : Type) where
  use : {α : Type} → (Queue → Access (α × Queue)) → EStateM Failure σ α

-- The ticks that a wait under a policy sees.
abbrev Observation (σ : Type) := WaitPolicy → List (Tick σ)

namespace QueueHandle

variable {σ : Type}

/-- An operation that leaves the producers' own records as they are. -/
def ask {α : Type} (h : QueueHandle σ) (use : Queue → Access α) : EStateM Failure σ α :=
  h.use fun q => do return (← use q, q)

def dispatch (h : QueueHandle σ) (index : UInt64) : EStateM Failure σ Unit := do
  let _ ← h.use fun q => q.publish index

def wait (h : QueueHandle σ) (packet : PacketRef) (policy : WaitPolicy) (seen : Observation σ) :
    EStateM Failure σ Unit := do
  let _ ← policy.pollUntil (h.ask fun q => q.isComplete packet.index) (seen policy)

/-- Dispatch, then wait for a packet if it is not complete already. -/
def dispatchAndWait (h : QueueHandle σ) (index : UInt64) (packet : PacketRef) (policy : WaitPolicy)
    (seen : Observation σ) : EStateM Failure σ Unit := do
  h.dispatch index
  if ← h.ask fun q => q.isComplete packet.index then return ()
  h.wait packet policy seen

/-- Wait until a slot is free, reserve it and write a command into it. Only a wait for a slot that
another producer took first can fail with the slot reserved, and its error says so. -/
def enqueue (h : QueueHandle σ) (command : Command) (policy : WaitPolicy) (seen : Observation σ) :
    EStateM Failure σ PacketRef := do
  let next ← h.ask fun q => q.writeIndex
  if !(← h.ask fun q => q.hasRoom next) then
    let _ ← policy.pollUntil (h.ask fun q => do q.hasRoom (← q.writeIndex)) (seen policy)
  let index ← h.ask fun q => q.reserve 1
  if !(← h.ask fun q => q.hasRoom index) then
    unwritten index do
      let _ ← policy.pollUntil (h.ask fun q => q.hasRoom index) (seen policy)
  h.use fun q => q.writePacket index command
where
  unwritten (index : UInt64) (work : EStateM Failure σ Unit) : EStateM Failure σ Unit := fun s =>
    match work s with
    | .error (.error cause) s => .error (.error (.unwritten index cause)) s
    | result => result

def enqueueAll (h : QueueHandle σ) (policy : WaitPolicy) (seen : Observation σ) :
    List Command → EStateM Failure σ (List PacketRef)
  | [] => return []
  | command :: rest => do
    let packet ← h.enqueue command policy seen
    return packet :: (← h.enqueueAll policy seen rest)

end QueueHandle

end FabricQueue
