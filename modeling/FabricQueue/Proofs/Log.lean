import FabricQueue.Proofs.Records
import FabricQueue.Queue.Consumer
import FabricQueue.Queue.Producer
import Mathlib.Logic.Function.Basic
import Mathlib.Tactic.SplitIfs

set_option autoImplicit false

namespace FabricQueue

inductive Production where
  | reserve (count : UInt64)
  | write (index : UInt64) (record : Record)
  | writePacket (index : UInt64) (command : Command)
  | dispatch (index : UInt64)
  deriving DecidableEq, Repr

inductive Act where
  | produce (a : Production)
  | fetch (index : UInt64)
  | retire (index : UInt64)
  deriving DecidableEq, Repr

namespace Act

def reserves : Act → UInt64
  | produce (.reserve count) => count
  | _ => 0

def stores? : Act → Option (UInt64 × Record)
  | produce (.write index record) => some (index, record)
  | produce (.writePacket index command) => some (index, command.encode)
  | _ => none

theorem reserves_of_stores {a : Act} {stored : UInt64 × Record} (stores : a.stores? = some stored) :
    a.reserves = 0 := by
  cases a with
  | produce a =>
    cases a with
    | reserve count => cases stores
    | _ => rfl
  | _ => cases stores

end Act

inductive Reply where
  | index (first : UInt64)
  | packet (packet : PacketRef)
  | published (count : UInt64)
  | found (record : Option Record)
  | retired
  | failed (failure : Failure)
  deriving DecidableEq, Repr

theorem toNat_succ {index : UInt64} (below : index.toNat + 1 < UInt64.size) :
    (index + 1).toNat = index.toNat + 1 := by
  rw [UInt64.toNat_add]
  exact Nat.mod_eq_of_lt below

structure Log where
  writeIndex : UInt64 := 0
  written : Nat → Option Record := fun _ => none
  published : Nat := 0
  retired : Nat := 0

namespace Log

structure Sound (l : Log) (capacity : Nat) : Prop where
  ordered : l.retired ≤ l.published
  covered : ∀ j < l.published, (l.written j).isSome
  room : ∀ j, (l.written j).isSome → j < l.retired + capacity
  -- The write index is a word, and a written index is below it.
  word : ∀ j, (l.written j).isSome → j + 1 < UInt64.size

theorem Sound.published_le {l : Log} {capacity : Nat} (sound : l.Sound capacity) :
    l.published ≤ l.retired + capacity := by
  by_cases none : l.published = 0
  · omega
  · have last := sound.room (l.published - 1) (sound.covered _ (by omega))
    omega

theorem Sound.published_word {l : Log} {capacity : Nat} (sound : l.Sound capacity) :
    l.published < UInt64.size := by
  by_cases none : l.published = 0
  · rw [none]; decide
  · have last := sound.word (l.published - 1) (sound.covered _ (by omega))
    omega

theorem empty_sound (capacity : Nat) : Sound {} capacity where
  ordered := Nat.le_refl 0
  covered j below := absurd below (Nat.not_lt_zero j)
  room j written := by simp at written
  word j written := by simp at written

-- Why an index may not be written, in the order in which the queue asks.
def refusal (l : Log) (capacity : Nat) (index : UInt64) : Option Failure :=
  if l.writeIndex ≤ index then some (.error (.invalidState (.notReserved index l.writeIndex)))
  else if UInt64.size ≤ l.retired + capacity then some (.overflow .addition)
  else if l.retired + capacity ≤ index.toNat then
    some (.error (.slotInFlight index (UInt64.ofNat l.retired) capacity))
  else if index.toNat < l.published then
    some (.error (.invalidState (.alreadyDispatched index)))
  else none

theorem accepted {l : Log} {capacity : Nat} {index : UInt64}
    (accepts : l.refusal capacity index = none) :
    index < l.writeIndex ∧ l.published ≤ index.toNat ∧ index.toNat < l.retired + capacity := by
  unfold refusal at accepts
  split_ifs at accepts with beyond wide inFlight dispatched
  exact ⟨UInt64.not_le.mp beyond, Nat.not_lt.mp dispatched, Nat.not_le.mp inFlight⟩

def store (l : Log) (index : Nat) (record : Record) : Log :=
  { l with written := Function.update l.written index (some record) }

def write (capacity : Nat) (index : UInt64) (record : Record) (l : Log) : Reply × Log :=
  match l.refusal capacity index with
  | some failure => (.failed failure, l)
  | none => (.packet ⟨index, slotOf capacity index⟩, l.store index.toNat record)

def publishNext : Nat → Log → Log
  | 0, l => l
  | count + 1, l =>
    if (l.written l.published).isSome then
      publishNext count { l with published := l.published + 1 }
    else l

def publish (index : UInt64) (l : Log) : Reply × Log :=
  if l.writeIndex ≤ index then
    (.failed (.error (.invalidState (.dispatchBeyond index l.writeIndex))), l)
  else
    let p := l.publishNext (index.toNat + 1 - l.published)
    (.published (UInt64.ofNat p.published), p)

def produce (capacity : Nat) : Production → Log → Reply × Log
  | .reserve count, l => (.index l.writeIndex, { l with writeIndex := l.writeIndex + count })
  | .write index record, l => l.write capacity index record
  | .writePacket index command, l => l.write capacity index command.encode
  | .dispatch index, l => l.publish index

def Pending (l : Log) : Prop :=
  ∀ j record, l.retired ≤ j → j < l.published → l.written j = some record →
    record.signal ≠ signalDone

def Window (l : Log) (capacity j : Nat) : Prop :=
  l.retired ≤ j ∧ j < l.retired + capacity

def fetch (l : Log) (index : UInt64) : Option Record :=
  if index.toNat < l.published then (l.written index.toNat).map Record.activated else none

def retire (index : UInt64) (l : Log) : Reply × Log :=
  if index.toNat = l.retired then (.retired, { l with retired := l.retired + 1 })
  else
    (.failed (.error (.invalidState (.retireOutOfOrder index (UInt64.ofNat l.retired)))), l)

def perform (capacity : Nat) : Act → Log → Reply × Log
  | .produce a, l => l.produce capacity a
  | .fetch index, l => (.found (l.fetch index), l)
  | .retire index, l => l.retire index

def InReach (l : Log) (capacity : Nat) : Act → Prop
  | .fetch index => l.Window capacity index.toNat
  | _ => True

theorem publishNext_spec (count : Nat) (l : Log) :
    ∃ n, l.publishNext count = { l with published := n } ∧ l.published ≤ n ∧
      n ≤ l.published + count ∧ ∀ j, l.published ≤ j → j < n → (l.written j).isSome := by
  induction count generalizing l with
  | zero => exact ⟨l.published, rfl, Nat.le_refl _, Nat.le_refl _, fun j low high => by omega⟩
  | succ count ih =>
    by_cases written : (l.written l.published).isSome
    · obtain ⟨n, moved, low, high, covered⟩ := ih { l with published := l.published + 1 }
      simp only at moved low high covered
      refine ⟨n, ?_, by omega, by omega, fun j above below => ?_⟩
      · rw [publishNext, if_pos written, moved]
      · by_cases first : j = l.published
        · rw [first]; exact written
        · exact covered j (by omega) below
    · refine ⟨l.published, ?_, Nat.le_refl _, by omega, fun j low high => by omega⟩
      rw [publishNext, if_neg written]

variable {capacity : Nat}

theorem store_sound {l : Log} {index : UInt64} (record : Record) (sound : l.Sound capacity)
    (accepts : l.refusal capacity index = none) : (l.store index.toNat record).Sound capacity := by
  obtain ⟨reserved, _, inside⟩ := accepted accepts
  have bound := l.writeIndex.toNat_lt
  have below := UInt64.lt_iff_toNat_lt.mp reserved
  refine { ordered := sound.ordered, covered := ?covered, room := ?room, word := ?word } <;>
    intro j holds
  case covered =>
    by_cases same : j = index.toNat
    · simp [store, same]
    · simpa [store, Function.update_of_ne same] using sound.covered j holds
  case room =>
    by_cases same : j = index.toNat
    · rw [same]; exact inside
    · simp only [store, Function.update_of_ne same] at holds
      exact sound.room j holds
  case word =>
    by_cases same : j = index.toNat
    · rw [same]; simp only [UInt64.size]; omega
    · simp only [store, Function.update_of_ne same] at holds
      exact sound.word j holds

theorem publishNext_sound (count : Nat) {l : Log} (sound : l.Sound capacity) :
    (l.publishNext count).Sound capacity := by
  obtain ⟨n, moved, low, _, covered⟩ := l.publishNext_spec count
  rw [moved]
  refine { sound with ordered := Nat.le_trans sound.ordered low, covered := ?_ }
  intro j below
  by_cases old : j < l.published
  · exact sound.covered j old
  · exact covered j (by omega) below

theorem retire_sound (index : UInt64) {l : Log} (sound : l.Sound capacity)
    (published : l.retired < l.published) : (l.retire index).2.Sound capacity := by
  unfold retire
  split
  · refine { sound with ordered := published, room := ?_ }
    intro j written
    have room := sound.room j written
    simp only
    omega
  · exact sound

inductive Step (capacity : Nat) (l : Log) : Act → Reply → Log → Prop where
  | refused (a : Act) (failure : Failure) (quiet : a.reserves = 0) :
      Step capacity l a (.failed failure) l
  | reserved (count : UInt64) : Step capacity l (.produce (.reserve count)) (.index l.writeIndex)
      { l with writeIndex := l.writeIndex + count }
  | stored {a : Act} {index : UInt64} {record : Record} (stores : a.stores? = some (index, record))
      (accepts : l.refusal capacity index = none) :
      Step capacity l a (.packet ⟨index, slotOf capacity index⟩) (l.store index.toNat record)
  | published {index : UInt64} {n : Nat} (reserved : index < l.writeIndex) (low : l.published ≤ n)
      (high : n ≤ max l.published (index.toNat + 1))
      (covered : ∀ j, l.published ≤ j → j < n → (l.written j).isSome) :
      Step capacity l (.produce (.dispatch index)) (.published (UInt64.ofNat n))
        { l with published := n }
  | fetched (index : UInt64) : Step capacity l (.fetch index) (.found (l.fetch index)) l
  | retired {index : UInt64} (current : index.toNat = l.retired) :
      Step capacity l (.retire index) .retired { l with retired := l.retired + 1 }

theorem write_step {a : Act} {index : UInt64} {record : Record} (l : Log)
    (stores : a.stores? = some (index, record)) (quiet : a.reserves = 0) :
    Step capacity l a (l.write capacity index record).1 (l.write capacity index record).2 := by
  unfold write
  split
  · exact .refused a _ quiet
  next accepts => exact .stored stores accepts

theorem perform_step (a : Act) (l : Log) :
    Step capacity l a (l.perform capacity a).1 (l.perform capacity a).2 := by
  cases a with
  | produce a =>
    cases a with
    | reserve count => exact .reserved count
    | write index record => exact l.write_step rfl rfl
    | writePacket index command => exact l.write_step rfl rfl
    | dispatch index =>
      simp only [perform, produce, publish]
      split
      · exact .refused _ _ rfl
      next reserved =>
        obtain ⟨n, moved, low, high, covered⟩ :=
          l.publishNext_spec (index.toNat + 1 - l.published)
        rw [moved]
        exact .published (UInt64.not_le.mp reserved) low (by simp only; omega) covered
  | fetch index => exact .fetched index
  | retire index =>
    simp only [perform, retire]
    split
    next current => exact .retired current
    · exact .refused _ _ rfl

section Step

variable {l l' : Log} {a : Act} {reply : Reply}

theorem Step.published_le (step : Step capacity l a reply l') : l.published ≤ l'.published := by
  cases step with
  | published reserved low high covered => exact low
  | _ => exact Nat.le_refl _

theorem Step.retired_eq (step : Step capacity l a reply l') :
    l'.retired = l.retired + if reply = .retired then 1 else 0 := by
  cases step <;> rfl

theorem produce_retired (a : Production) (l : Log) :
    (l.perform capacity (.produce a)).2.retired = l.retired := by
  have step := @perform_step capacity (.produce a) l
  refine step.retired_eq.trans (congrArg _ (if_neg fun answered => ?_))
  rw [answered] at step
  cases step

theorem Step.retirement (step : Step capacity l a .retired l') :
    ∃ index, a = .retire index ∧ index.toNat = l.retired := by
  cases step with
  | retired current => exact ⟨_, rfl, current⟩

theorem Step.passed (step : Step capacity l a reply l') {j : Nat} (waiting : l.published ≤ j)
    (published : j < l'.published) :
    ∃ bound count, a = .produce (.dispatch bound) ∧ reply = .published count ∧
      j ≤ bound.toNat ∧ ∀ k, l.published ≤ k → k ≤ j → (l.written k).isSome := by
  cases step with
  | @published bound n reserved low high covered =>
    simp only at published
    exact ⟨bound, _, rfl, rfl, by omega, fun k above below => covered k above (by omega)⟩
  | stored stores accepts => exact absurd published (Nat.not_lt.mpr waiting)
  | _ => exact absurd published (Nat.not_lt.mpr waiting)

theorem Step.settled (step : Step capacity l a reply l') {j : Nat} (published : j < l.published) :
    l'.written j = l.written j := by
  cases step with
  | stored stores accepts =>
    have above := (accepted accepts).2.1
    exact Function.update_of_ne (by omega) _ _
  | _ => rfl

theorem Step.writeIndex_eq (step : Step capacity l a reply l') :
    l'.writeIndex = l.writeIndex + a.reserves := by
  cases step with
  | refused a failure quiet => rw [quiet, UInt64.add_zero]
  | reserved count => rfl
  | stored stores accepts => rw [Act.reserves_of_stores stores]; exact (UInt64.add_zero _).symm
  | published => exact (UInt64.add_zero _).symm
  | fetched => exact (UInt64.add_zero _).symm
  | retired => exact (UInt64.add_zero _).symm

end Step

end Log

end FabricQueue
