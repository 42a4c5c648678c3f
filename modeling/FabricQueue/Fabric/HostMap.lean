import FabricQueue.Region

set_option autoImplicit false

namespace FabricQueue

-- The regions that transfers may address, in the order they are searched.
structure HostMap where
  regions : List Region := []
  deriving DecidableEq, Repr

namespace HostMap

/-- The first region that holds `[address, address + len)`, and the offset in it. -/
def resolve (h : HostMap) (address : UInt64) (len : Nat) : Except Error (Region × Nat) :=
  match h.regions.find? fun r => r.contains address len with
  | some r => .ok (r, address.toNat - r.base.toNat)
  | none => .error (.invalidAddress address (.outsideHost len))

end HostMap

end FabricQueue
