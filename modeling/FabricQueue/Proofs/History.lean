import FabricQueue.Proofs.Log

set_option autoImplicit false

namespace FabricQueue

structure Entry where
  act : Act
  reply : Reply
  deriving DecidableEq, Repr

-- The latest entry of a history comes first.
abbrev History := List Entry

namespace History

-- Indices reserved, whether their packets were ever written or not.
def reserved : History → Nat
  | [] => 0
  | e :: earlier => e.act.reserves.toNat + reserved earlier

def retired (h : History) : Nat :=
  h.countP fun e => e.reply = .retired

theorem retired_cons (e : Entry) (h : History) :
    retired (e :: h) = retired h + if e.reply = .retired then 1 else 0 := by
  simp [retired, List.countP_cons]

end History

def Entry.stored? (e : Entry) : Option (UInt64 × Record) :=
  match e.reply with
  | .packet _ => e.act.stores?
  | _ => none

namespace History

-- The record that was last accepted for an index.
def written : History → Nat → Option Record
  | [], _ => none
  | e :: earlier, j =>
    match e.stored? with
    | some (index, record) => if j = index.toNat then some record else written earlier j
    | none => written earlier j

def log (capacity : Nat) : History → Log
  | [] => {}
  | e :: earlier => ((log capacity earlier).perform capacity e.act).2

-- A fetch of the index found a packet, less than one round of the ring ago. An older find in the
-- same slot was that of another packet.
def Fetched (h : History) (capacity : Nat) (index : UInt64) : Prop :=
  ∃ later record earlier, h = later ++ ⟨.fetch index, .found (some record)⟩ :: earlier ∧
    retired later < capacity

-- The same of any fetch, however long ago.
def Found (h : History) (index : UInt64) : Prop :=
  ∃ record, ⟨.fetch index, .found (some record)⟩ ∈ h

end History

theorem Entry.stores_of_stored {e : Entry} {stored : UInt64 × Record}
    (accepted : e.stored? = some stored) : e.act.stores? = some stored := by
  unfold stored? at accepted
  split at accepted
  · exact accepted
  · cases accepted

theorem Entry.fetch_stored (index : UInt64) (reply : Reply) :
    stored? ⟨.fetch index, reply⟩ = none := by
  cases reply <;> rfl

theorem Log.Step.written_eq {capacity : Nat} {l l' : Log} {a : Act} {reply : Reply}
    (step : Step capacity l a reply l') (j : Nat) :
    l'.written j =
      match Entry.stored? ⟨a, reply⟩ with
      | some (index, record) => if j = index.toNat then some record else l.written j
      | none => l.written j := by
  cases step with
  | stored stores accepts => simp [Entry.stored?, stores, store, Function.update_apply]
  | _ => rfl

theorem Log.Step.accepted {capacity : Nat} {l l' : Log} {a : Act} {reply : Reply} {index : UInt64}
    {record : Record} (step : Step capacity l a reply l')
    (stored : Entry.stored? ⟨a, reply⟩ = some (index, record)) :
    l.refusal capacity index = none := by
  cases step with
  | stored stores accepts =>
    rw [Entry.stored?, stores] at stored
    cases stored
    exact accepts
  | _ => cases stored

namespace History

variable {capacity : Nat} {h : History}

theorem log_writeIndex (few : h.reserved < UInt64.size) :
    (h.log capacity).writeIndex.toNat = h.reserved := by
  induction h with
  | nil => rfl
  | cons e h ih =>
    rw [reserved] at few ⊢
    rw [log, (Log.perform_step _ _).writeIndex_eq, UInt64.toNat_add, ih (by omega), Nat.add_comm]
    exact Nat.mod_eq_of_lt few

theorem log_written_lt (few : h.reserved < UInt64.size) {j : Nat}
    (written : ((h.log capacity).written j).isSome) :
    j < (h.log capacity).writeIndex.toNat := by
  induction h with
  | nil => simp [log] at written
  | cons e h ih =>
    have before : History.reserved h < UInt64.size := by rw [reserved] at few; omega
    have grown : (History.log capacity h).writeIndex.toNat ≤
        (History.log capacity (e :: h)).writeIndex.toNat := by
      rw [log_writeIndex before, log_writeIndex few, reserved]
      omega
    refine Nat.lt_of_lt_of_le ?_ grown
    rw [log, (Log.perform_step _ _).written_eq] at written
    split at written
    next index record stored =>
      by_cases same : j = index.toNat
      · rw [same]
        exact UInt64.lt_iff_toNat_lt.mp (Log.accepted ((Log.perform_step _ _).accepted stored)).1
      · rw [if_neg same] at written
        exact ih before written
    · exact ih before written

theorem log_published_le (later h : History) :
    (log capacity h).published ≤ (log capacity (later ++ h)).published := by
  induction later with
  | nil => exact Nat.le_refl _
  | cons e later ih => exact Nat.le_trans ih (Log.perform_step _ _).published_le

theorem log_settled (later h : History) {j : Nat} (published : j < (log capacity h).published) :
    (log capacity (later ++ h)).written j = (log capacity h).written j := by
  induction later with
  | nil => rfl
  | cons e later ih =>
    have still := Nat.lt_of_lt_of_le published (@log_published_le capacity later h)
    rw [List.cons_append, log, ← ih]
    exact (Log.perform_step _ _).settled still

theorem retired_append (later h : History) :
    retired (later ++ h) = retired later + retired h := by
  simp [retired]

theorem reserved_append (later h : History) :
    reserved (later ++ h) = reserved later + reserved h := by
  induction later with
  | nil => simp [reserved]
  | cons e later ih => simp only [List.cons_append, reserved, ih, Nat.add_assoc]

end History

end FabricQueue
