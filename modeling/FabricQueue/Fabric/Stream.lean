import FabricQueue.Fabric.Plant

set_option autoImplicit false

namespace FabricQueue

-- What one beat of a job came to.
inductive Beat where
  | finished
  | stalled (job : Job)
  | moved (count : Nat) (job : Job)
  deriving DecidableEq, Repr

namespace Plant

def beatLimit : Nat := 4096

/-- Move up to `want` bytes between host memory at `address` and the tiles. -/
def exchange (endpoint : Endpoint) (address : UInt64) (want : Nat) : Work Nat := do
  let hosts := (← get).fabric.hosts
  let (region, offset) ← liftError (hosts.resolve address want)
  match endpoint.direction with
  | .hostToDevice =>
    let bytes ← onMemory (region.readBytes offset want)
    onTiles fun t => t.fill endpoint bytes
  | .deviceToHost =>
    let bytes ← onTiles fun t => t.drain endpoint want
    onMemory (region.writeBytes offset bytes)
    return bytes.length

def beat (job : Job) : Work Beat := do
  match ← lift job.take with
  | none => return .finished
  | some (run, job) =>
    let moved ← exchange job.endpoint run.address (min run.length.toNat beatLimit)
    if moved = 0 then
      return .stalled { job with rest := some run }
    if moved < run.length.toNat then
      let address ← lift (addWord run.address moved)
      return .moved moved
        { job with rest := some ⟨address, UInt32.ofNat (run.length.toNat - moved)⟩ }
    return .moved moved job

/-- Stream a job until it stalls or is finished, in at most `beats` beats: the bytes moved, and the
job if it is not finished. -/
def stream (moved : Nat) : (beats : Nat) → Job → Work (Nat × Option Job)
  | 0, job => return (moved, some job)
  | beats + 1, job => do
    match ← beat job with
    | .finished => return (moved, none)
    | .stalled job => return (moved, some job)
    | .moved more job => stream (← count moved more) beats job

/-- Every beat but the last moves a byte, so this is as far as the locks allow. -/
def advance (job : Job) : Work (Nat × Option Job) :=
  stream 0 (job.bytesLeft + 1) job

-- What streaming brought about in one pass.
structure Tally where
  bytes : Nat := 0
  moved : Bool := false
  finished : List UInt64 := []
  failed : List (UInt64 × Error) := []
  deriving DecidableEq, Repr

/-- Stream the jobs of a FIFO in turn, up to the first that stalls. A job that fails is dropped, and
so are the bytes it moved in this pass. -/
def streamJobs : List Job → Tally → Work (List Job × Tally)
  | [], tally => return ([], tally)
  | job :: later, tally => do
    match ← attempt (advance job) with
    | .error e => streamJobs later { tally with failed := tally.failed ++ [(job.index, e)] }
    | .ok (moved, left) =>
      let bytes ← count tally.bytes moved
      let tally := { tally with bytes, moved := tally.moved || decide (0 < moved) }
      match left with
      | some job => return (job :: later, tally)
      | none => streamJobs later { tally with finished := tally.finished ++ [job.index] }

def streamFifos : List Fifo → Tally → Work (List Fifo × Tally)
  | [], tally => return ([], tally)
  | fifo :: rest, tally => do
    let (jobs, tally) ← streamJobs fifo.jobs tally
    let (rest, tally) ← streamFifos rest tally
    return ({ fifo with jobs } :: rest, tally)

end Plant

end FabricQueue
