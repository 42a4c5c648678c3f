import FabricQueue.Proofs.Staging
import FabricQueue.Proofs.Waits

set_option autoImplicit false

namespace FabricQueue

namespace Machine

variable {α : Type}

def Unattended (m : Machine) : Prop :=
  ∀ call, m.between call = []

theorem Unattended.attend {m : Machine} (alone : m.Unattended) :
    m.attend = { m with calls := m.calls + 1 } := by
  simp only [Machine.attend, alone m.calls, List.foldl_nil]

abbrev KeepsAlone (use : Operation α) : Prop :=
  Leads Unattended (fun _ _ => True) use

theorem KeepsAlone.left {use : Operation α} (keeps : KeepsAlone use) {m m' : Machine} {a : α}
    (alone : m.Unattended) (done : use m = .ok a m') : m'.Unattended := by
  have after := keeps m alone
  rw [done] at after
  exact after.1

theorem KeepsAlone.call {use : Operation α} (keeps : KeepsAlone use) : KeepsAlone (call use) := by
  intro m alone
  refine keeps m.attend ?_
  rw [alone.attend]
  exact alone

end Machine

namespace Device

variable {d : Device} {m m' : Machine} {s : Site} {order : Order}

namespace Stands

end Stands

end Device

end FabricQueue
