import FabricQueue.Proofs.Configuration
import FabricQueue.Proofs.Handles

set_option autoImplicit false

namespace FabricQueue

namespace Region

-- A region that is still there: memory of its own, which the machine keeps, or a window of a file
-- that has all the bytes.
inductive Held : Region → Memory → Prop where
  | allocated {granted : Bool} {base : UInt64} {size : Nat} {r : Region} {earlier later m : Memory}
      (done : allocate granted base size earlier = .ok r later) (since : later.size ≤ m.size) : Held r m
  | mapped {path : String} {base : UInt64} {size : Nat} {r : Region} {earlier later : Machine}
      {m : Memory} (done : Machine.mapWindow path base size earlier = .ok r later)
      (whole : r.Backed m) : Held r m

variable {r : Region} {capacity : Nat} {m : Memory}

theorem Held.backed (held : r.Held m) : r.Backed m := by
  cases held with
  | allocated done since =>
    obtain ⟨rfl, size⟩ := allocate_ok done
    rw [Backed, ← size]
    exact since
  | mapped done whole => exact whole

-- What a region has to be for a queue to stand at its start.
structure Fits (r : Region) (capacity : Nat) : Prop where
  power : ∃ k, capacity = 2 ^ k
  least : 2 ≤ capacity
  most : capacity ≤ 65536
  aligned : r.base.toNat % 64 = 0
  large : 64 + 64 * capacity ≤ r.size

structure Opens (r : Region) (capacity : Nat) (kind : QueueKind) (id : UInt64) (m : Memory) :
    Prop where
  header : QueueHeader.read r m = .ok
    { kind := kind.code
      features := 2
      baseAddress := UInt64.ofNat (r.base.toNat + 64)
      doorbell := Layout.noDoorbell
      size := UInt32.ofNat capacity
      id
      readIndex := 0
      writeIndex := 0 } m
  published : r.published m = .ok 0 m
  attached : Consumer.attach r m = .ok ⟨r, capacity⟩ m
  idle : ∀ slot < capacity, r.readRecord slot m = .ok Queue.idle m
  inactive : ∀ index, Consumer.fetch ⟨r, capacity⟩ index m = .ok none m
  signals : ∀ slot < capacity, r.signalOf slot m = .ok 0 m

end Region

namespace Queue

variable {id : UInt64} {capacity : Nat} {kind : QueueKind} {r : Region} {m m' : Memory}

theorem opens (supported : Layout.supports capacity) (carries : r.Carries capacity m)
    (fresh : (r.cells m).Fresh id capacity kind r.base) : r.Opens capacity kind id m := by
  have bounds := Layout.supports_bounds supported
  have size : (UInt64.ofNat capacity).toNat = capacity :=
    UInt64.toNat_ofNat_of_lt' (by simp only [UInt64.size]; omega)
  constructor
  case header =>
    rw [carries.header_read, fresh.kind, fresh.baseAddress, fresh.doorbell, fresh.size, fresh.id,
      fresh.readIndex, fresh.writeIndex, size]
    cases kind <;> rfl
  case published => rw [carries.published_ok, fresh.doorbell]; rfl
  case attached => exact carries.attach_ok supported fresh.size
  case idle =>
    intro slot below
    rw [carries.readRecord_ok below, fresh.slots slot below]
  case inactive =>
    intro index
    have positive : 0 < capacity := by omega
    have fetched := fetch_cells (q := opened id capacity kind r) carries positive index
    rw [opened, fresh.slots _ (Nat.mod_lt _ positive)] at fetched
    exact fetched
  case signals =>
    intro slot below
    rw [carries.signalOf_ok below, fresh.slots slot below]
    rfl

end Queue

namespace Machine

variable {r : Region} {capacity : Nat} {kind : QueueKind} {m : Machine}

end Machine

end FabricQueue
