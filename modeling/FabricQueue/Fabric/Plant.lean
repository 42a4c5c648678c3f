import FabricQueue.Fabric.Fabric

set_option autoImplicit false

namespace FabricQueue

-- A fabric together with the memory it works on.
structure Plant where
  fabric : Fabric
  memory : Memory

-- Steps of a fabric; what was done before a failure stays done.
abbrev Work := EStateM Failure Plant

namespace Plant

def onMemory {α : Type} (use : Access α) : Work α
  | ⟨fabric, memory⟩ =>
    match use memory with
    | .ok a memory => .ok a ⟨fabric, memory⟩
    | .error failure memory => .error failure ⟨fabric, memory⟩

def onFabric {α : Type} (use : Fabric → Except Failure (α × Fabric)) : Work α
  | ⟨fabric, memory⟩ =>
    match use fabric with
    | .ok (a, fabric) => .ok a ⟨fabric, memory⟩
    | .error failure => .error failure ⟨fabric, memory⟩

def onTiles {α : Type} (use : TileArray → Except StateFault (α × TileArray)) : Work α
  | ⟨fabric, memory⟩ =>
    match use fabric.tiles with
    | .ok (a, tiles) => .ok a ⟨{ fabric with tiles }, memory⟩
    | .error fault => .error (.error (.invalidState fault)) ⟨fabric, memory⟩

def update (change : Fabric → Fabric) : Work Unit :=
  modify fun p => { p with fabric := change p.fabric }

/-- Take an error as a result; the other failures stay failures. -/
def attempt {α : Type} (work : Work α) : Work (Except Error α) := fun p =>
  match work p with
  | .ok a p => .ok (.ok a) p
  | .error (.error e) p => .ok (.error e) p
  | .error failure p => .error failure p

def count (a b : Nat) : Work Nat :=
  if a + b < UInt64.size then pure (a + b) else throw (.overflow .addition)

end Plant

end FabricQueue
