import FabricQueue.Proofs.Opening

set_option autoImplicit false

namespace FabricQueue

def Failure.Addressing : Failure → Prop
  | .error (.outOfBounds _ _ _) => True
  | .error (.invalidAddress _ _) => True
  | _ => False

def Satisfies {α : Type} (fails : Failure → Prop) (gives : α → Prop) (x : Access α) : Prop :=
  ∀ m, match x m with
    | .ok a _ => gives a
    | .error failure _ => fails failure

namespace Satisfies

variable {α β : Type} {fails : Failure → Prop} {gives : α → Prop} {gives' : β → Prop}

theorem bind {x : Access α} {next : α → Access β} (first : Satisfies fails gives x)
    (rest : ∀ a, gives a → Satisfies fails gives' (next a)) :
    Satisfies fails gives' (x >>= next) := by
  intro m
  have ended := first m
  cases ran : x m with
  | ok a m' =>
    rw [ran] at ended
    rw [bind_ok ran]
    exact rest a ended m'
  | error failure m' =>
    rw [ran] at ended
    rw [bind_error ran]
    exact ended

theorem pure {a : α} (given : gives a) : Satisfies fails gives (Pure.pure a : Access α) :=
  fun _ => given

theorem throw {failure : Failure} (allowed : fails failure) :
    Satisfies fails gives (MonadExcept.throw failure : Access α) :=
  fun _ => allowed

theorem lifted {x : Except Failure α} (allowed : ∀ failure, x = .error failure → fails failure) :
    Satisfies fails (fun _ => True) (lift x : Access α) := by
  intro m
  cases x with
  | ok a => trivial
  | error failure => exact allowed failure rfl

theorem guarded {refused : Prop} [Decidable refused] {failure : Failure} {next : Unit → Access α}
    (allowed : fails failure) (rest : Satisfies fails gives (next ())) :
    Satisfies fails gives (if refused then MonadExcept.throw failure >>= next else next ()) := by
  split
  · have refused : Satisfies fails (fun _ => False) (MonadExcept.throw failure : Access Unit) :=
      throw allowed
    exact refused.bind fun _ impossible => impossible.elim
  · exact rest

theorem mapped {x : Access α} {change : α → β} (satisfies : Satisfies fails gives x)
    (given : ∀ a, gives a → gives' (change a)) : Satisfies fails gives' (change <$> x) := by
  intro m
  have ended := satisfies m
  change match EStateM.map change x m with | .ok _ _ => _ | .error _ _ => _
  cases ran : x m <;> rw [ran] at ended <;> simp only [EStateM.map, ran]
  · exact given _ ended
  · exact ended

end Satisfies

-- An access that any memory answers without a failure of addressing.
abbrev Inside {α : Type} (x : Access α) : Prop :=
  Satisfies (fun failure => ¬failure.Addressing) (fun _ => True) x

theorem addWord_inside (a : UInt64) (n : Nat) : Inside (lift (addWord a n)) := by
  refine .lifted fun failure failed => ?_
  unfold addWord at failed
  split at failed <;> cases failed
  exact not_false

namespace Region

structure Houses (r : Region) (capacity : Nat) : Prop where
  some : 0 < capacity
  large : Layout.regionSize capacity ≤ r.size
  aligned : r.phase % 8 = 0

namespace Houses

variable {r : Region} {capacity : Nat} (houses : r.Houses capacity)
include houses

theorem access {α : Type} {offset : Nat} {use : Nat → Memory → α × Memory}
    (within : offset + 8 ≤ Layout.regionSize capacity) (grid : offset % 8 = 0) :
    Inside (r.access offset 8 8 use) := by
  intro m
  have large := houses.large
  have aligned := houses.aligned
  rw [Region.access, locate_ok (by omega) (by omega)]
  trivial

theorem read {offset : Nat} (known : offset + 8 ≤ 64 ∧ offset % 8 = 0) : Inside (r.read64 offset) :=
  houses.access (Layout.header_within capacity known.1) known.2

theorem write {offset : Nat} (w : UInt64) (known : offset + 8 ≤ 64 ∧ offset % 8 = 0) :
    Inside (r.write64 offset w) :=
  houses.access (Layout.header_within capacity known.1) known.2

theorem add {offset : Nat} (w : UInt64) (known : offset + 8 ≤ 64 ∧ offset % 8 = 0) :
    Inside (r.fetchAdd offset w) :=
  houses.access (Layout.header_within capacity known.1) known.2

theorem readIndex : Inside r.readIndex :=
  houses.read (by decide)

theorem writeIndex : Inside r.writeIndex :=
  houses.read (by decide)

theorem size : Inside (r.read32 Layout.sizeAt) := by
  intro m
  have large := houses.large
  have aligned := houses.aligned
  have within := Layout.header_within capacity (by decide : Layout.sizeAt + 8 ≤ 64)
  rw [read32, Region.access, locate_ok (by omega) (by simp only [Layout.sizeAt]; omega)]
  trivial

theorem published : Inside r.published :=
  (houses.read (by decide)).mapped fun _ _ => trivial

theorem queueHeader : Inside (QueueHeader.read r) := by
  refine (houses.read (by decide)).bind fun first _ => ?_
  refine (houses.read (by decide)).bind fun baseAddress _ => ?_
  refine (houses.read (by decide)).bind fun doorbell _ => ?_
  refine houses.size.bind fun size _ => ?_
  refine (houses.read (by decide)).bind fun id _ => ?_
  refine houses.readIndex.bind fun readIndex _ => ?_
  refine houses.writeIndex.bind fun writeIndex _ => ?_
  exact .pure trivial

variable {slot : Nat} (below : slot < capacity)
include below

theorem readSlot {i : Nat} (within : i < 8) :
    Inside (r.read64 (Layout.slotOffset slot + 8 * i)) := by
  have grid := Layout.slotOffset_grid slot
  exact houses.access (Layout.slot_within below within) (by omega)

theorem writeSlot {i : Nat} (within : i < 8) (w : UInt64) :
    Inside (r.write64 (Layout.slotOffset slot + 8 * i) w) := by
  have grid := Layout.slotOffset_grid slot
  exact houses.access (Layout.slot_within below within) (by omega)

theorem readRecord : Inside (r.readRecord slot) := by
  refine (houses.readSlot below (by decide : 0 < 8)).bind fun w₀ _ => ?_
  refine (houses.readSlot below (by decide : 1 < 8)).bind fun w₁ _ => ?_
  refine (houses.readSlot below (by decide : 2 < 8)).bind fun w₂ _ => ?_
  refine (houses.readSlot below (by decide : 3 < 8)).bind fun w₃ _ => ?_
  refine (houses.readSlot below (by decide : 4 < 8)).bind fun w₄ _ => ?_
  refine (houses.readSlot below (by decide : 5 < 8)).bind fun w₅ _ => ?_
  refine (houses.readSlot below (by decide : 6 < 8)).bind fun w₆ _ => ?_
  refine (houses.readSlot below (by decide : 7 < 8)).bind fun w₇ _ => ?_
  exact .pure trivial

theorem storeWords (words : List UInt64) (i : Nat) (fits : i + words.length ≤ 8) :
    Inside (r.storeWords (Layout.slotOffset slot + 8 * i) words) := by
  induction words generalizing i with
  | nil => exact .pure trivial
  | cons w rest ih =>
    simp only [List.length_cons] at fits
    exact (houses.writeSlot below (by omega) w).bind fun _ _ => ih (i + 1) (by omega)

theorem writeRecord (record : Record) : Inside (r.writeRecord slot record) :=
  (houses.storeWords below _ 1 (by simp)).bind fun _ _ =>
    houses.writeSlot below (by decide : 0 < 8) record.headerWord

theorem setHeader (header : UInt16) : Inside (r.setHeader slot header) :=
  (houses.readSlot below (by decide : 0 < 8)).bind fun word _ =>
    houses.writeSlot below (by decide : 0 < 8) (withHeader word header)

theorem setSignal (signal : UInt64) : Inside (r.setSignal slot signal) :=
  houses.writeSlot below (by decide : 7 < 8) signal

end Houses

end Region

namespace Queue

variable {q : Queue}

-- What stays of a handle whatever is done with it.
def Stands (q q' : Queue) : Prop :=
  q'.region = q.region ∧ q'.capacity = q.capacity

abbrev Acts {α : Type} (q : Queue) (x : Access (α × Queue)) : Prop :=
  Satisfies (fun failure => ¬failure.Addressing) (fun result => q.Stands result.2) x

variable (houses : q.region.Houses q.capacity)
include houses

theorem slot_below (index : UInt64) : q.slot index < q.capacity :=
  Nat.mod_lt _ houses.some

theorem reserve_acts (count : UInt64) : q.Acts (do return (← q.reserve count, q)) :=
  (houses.add count (by decide)).bind fun _ _ => .pure ⟨rfl, rfl⟩

theorem writeRecord_acts (index : UInt64) (record : Record) :
    q.Acts (q.writeRecord index record) := by
  refine houses.writeIndex.bind fun writeIndex _ => .guarded not_false ?_
  refine houses.readIndex.bind fun readIndex _ => ?_
  refine (addWord_inside _ _).bind fun limit _ => .guarded not_false (.guarded not_false ?_)
  exact (houses.writeRecord (slot_below houses index) _).bind fun _ _ => .pure ⟨rfl, rfl⟩

theorem hasRoom_inside (index : UInt64) : Inside (q.hasRoom index) :=
  houses.readIndex.bind fun _ _ => (addWord_inside _ _).bind fun _ _ => .pure trivial

theorem isComplete_inside (index : UInt64) : Inside (q.isComplete index) := by
  refine houses.readIndex.bind fun readIndex _ => ?_
  split
  · exact .pure trivial
  refine houses.published.bind fun published _ => ?_
  split
  · exact .pure trivial
  have signal := houses.readSlot (slot_below houses index) (by decide : 7 < 8)
  exact signal.bind fun _ _ => .pure trivial

omit houses in
theorem publishNext_acts (count : Nat) (p : Queue) (stands : q.Stands p)
    (houses : q.region.Houses q.capacity) :
    Satisfies (fun failure => ¬failure.Addressing) q.Stands (publishNext count p) := by
  induction count generalizing p with
  | zero => exact .pure stands
  | succ count ih =>
    have below : p.slot p.tail < q.capacity := by
      rw [slot, slotOf, stands.2]
      exact Nat.mod_lt _ houses.some
    unfold publishNext
    rw [stands.1]
    refine iteInduction (fun _ => ?_) fun _ => .pure stands
    exact (houses.setHeader below Header.dispatch).bind fun _ _ => ih _ ⟨rfl, stands.2⟩

theorem publish_acts (index : UInt64) : q.Acts (q.publish index) := by
  refine houses.writeIndex.bind fun writeIndex _ => .guarded not_false ?_
  refine (publishNext_acts _ q ⟨rfl, rfl⟩ houses).bind fun p stands => ?_
  split
  · exact (houses.write _ (by decide)).bind fun _ _ => .pure stands
  · exact .pure stands

end Queue

namespace Consumer

variable {c : Consumer} (houses : c.region.Houses c.capacity) (index : UInt64)
include houses

theorem slot_below : c.slot index < c.capacity :=
  Nat.mod_lt _ houses.some

theorem fetch_inside : Inside (c.fetch index) := by
  refine (houses.readSlot (slot_below houses index) (by decide : 0 < 8)).bind fun word _ => ?_
  split
  · exact (houses.readRecord (slot_below houses index)).bind fun _ _ => .pure trivial
  · exact .pure trivial

theorem retire_inside : Inside (c.retire index) := by
  refine houses.readIndex.bind fun readIndex _ => .guarded not_false ?_
  refine (houses.setHeader (slot_below houses index) _).bind fun _ _ => ?_
  refine (houses.setSignal (slot_below houses index) _).bind fun _ _ => ?_
  exact (addWord_inside _ _).bind fun next _ => houses.write next (by decide)

end Consumer

end FabricQueue
