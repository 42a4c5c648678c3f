import FabricQueue.Proofs.Images
import FabricQueue.Proofs.Publishing
import FabricQueue.Proofs.Retirements

set_option autoImplicit false

namespace FabricQueue

theorem Record.toBytes_length (r : Record) : r.toBytes.length = Layout.packetSize := by
  simp [toBytes, List.length_flatMap, Layout.packetSize]

namespace Region

variable {r : Region} {m m' : Memory}

theorem write64_outside {offset i : Nat} {w : UInt64} (done : r.write64 offset w m = .ok () m')
    (apart : i < r.origin + offset ∨ r.origin + offset + 8 ≤ i) : m'.get i = m.get i := by
  unfold write64 access at done
  cases located : r.locate offset 8 8 with
  | error failure => rw [located] at done; cases done
  | ok start =>
    rw [located, locate_eq located] at done
    cases done
    exact ByteStore.get_write64_apart _ _ _ _ apart

theorem storeWords_outside {offset i : Nat} {words : List UInt64}
    (done : r.storeWords offset words m = .ok () m')
    (apart : i < r.origin + offset ∨ r.origin + offset + 8 * words.length ≤ i) :
    m'.get i = m.get i := by
  induction words generalizing offset m with
  | nil => cases done; rfl
  | cons w rest ih =>
    rw [List.length_cons] at apart
    obtain ⟨_, m₁, first, later⟩ := bind_cases done
    rw [ih later (by omega), write64_outside first (by omega)]

-- A record is written as its 64 bytes, in whatever order its words are stored.
theorem Carries.writeRecord_write {capacity slot : Nat} (carries : r.Carries capacity m)
    (below : slot < capacity) (record : Record) : r.writeRecord slot record m =
      .ok () (m.write (r.origin + Layout.slotOffset slot) record.toBytes) := by
  obtain ⟨m', done, changed, leaves⟩ := carries.writeRecord_ok below record
  have length := record.toBytes_length
  have backed := carries.backed
  have within := carries.slot_inside below (by decide : 7 < 8)
  have fits : r.origin + Layout.slotOffset slot + record.toBytes.length ≤ m.size := by
    rw [length, Layout.packetSize]
    unfold Backed at backed
    omega
  suffices same : m' = m.write (r.origin + Layout.slotOffset slot) record.toBytes from same ▸ done
  refine ByteStore.ext_get (by rw [leaves.size, ByteStore.size_write]) fun i => ?_
  by_cases inside : r.origin + Layout.slotOffset slot ≤ i ∧
      i < r.origin + Layout.slotOffset slot + record.toBytes.length
  · obtain ⟨j, rfl⟩ := Nat.exists_eq_add_of_le inside.1
    have image : r.image m' slot = record.toBytes := by
      rw [image_cells, changed, Cells.place_slot]
    rw [ByteStore.get_write _ _ _ _ (by omega) fits]
    simp only [← image, Region.image, ByteStore.read, List.getElem_map, List.getElem_range]
  · rw [length, Layout.packetSize] at inside
    obtain ⟨_, m₁, stored, turned⟩ := bind_cases done
    have words : (record.toWords.toList.drop 1).length = 7 := by simp
    rw [write64_outside turned (by omega), storeWords_outside stored (by omega),
      ByteStore.get_write_apart _ _ _ _ (by rw [length, Layout.packetSize]; omega)]

end Region

namespace Ring

-- The indices that take a record now.
def Accepts (s : Ring) (index : UInt64) : Prop :=
  s.published ≤ index.toNat ∧ index.toNat < min s.write (s.read + s.queue.capacity)

instance (s : Ring) (index : UInt64) : Decidable (s.Accepts index) :=
  inferInstanceAs (Decidable (_ ∧ _))

-- Why another one does not, the first reason that holds.
def refusal (s : Ring) (index : UInt64) : Error :=
  if s.write ≤ index.toNat then .invalidState (.notReserved index (UInt64.ofNat s.write))
  else if s.read + s.queue.capacity ≤ index.toNat then
    .slotInFlight index (UInt64.ofNat s.read) s.queue.capacity
  else .invalidState (.alreadyDispatched index)

def enter (s : Ring) (index : UInt64) (record : Record) : Reply × Ring :=
  s.perform (.produce (.write index record))

-- Where the slot of an index starts in memory.
def place (s : Ring) (index : UInt64) : Nat :=
  s.queue.region.origin + Layout.slotOffset (s.queue.slot index)

-- The slot of the index holds the record, all else is as before.
structure Enters (s : Ring) (index : UInt64) (record : Record) (s' : Ring) : Prop where
  queue : s'.queue = { s.queue with staged := s'.queue.staged }
  port : s'.port = s.port
  room : s'.queue.staged.size = s.queue.staged.size
  entry : s'.queue.stagedAt (s.queue.slot index) = some index
  entries : ∀ slot ≠ s.queue.slot index, s'.queue.staged[slot]? = s.queue.staged[slot]?
  size : s'.memory.size = s.memory.size
  image : s'.image (s.queue.slot index) = record.staged.toBytes
  bytes : ∀ i, i < s.place index ∨ s.place index + Layout.packetSize ≤ i →
    s'.memory.get i = s.memory.get i

-- The same ring with other entries and other bytes.
def store (s : Ring) (staged : Array (Option UInt64)) (memory : Memory) : Ring :=
  { s with queue := { s.queue with staged }, memory }

def entered (s : Ring) (index : UInt64) (record : Record) : Ring :=
  s.store (s.queue.staged.setIfInBounds (s.queue.slot index) (some index))
    (s.memory.write (s.place index) record.staged.toBytes)

variable {start s : Ring} {h : History} {index other : UInt64}

theorem entered_comm (apart : s.queue.slot other ≠ s.queue.slot index) (first second : Record) :
    (s.entered index first).entered other second = (s.entered other second).entered index first := by
  have separate : s.place index + first.staged.toBytes.length ≤ s.place other ∨
      s.place other + second.staged.toBytes.length ≤ s.place index := by
    rw [Record.toBytes_length, Record.toBytes_length, place, place]
    simp only [Layout.slotOffset, Layout.packetSize]
    omega
  have memory := ByteStore.write_comm s.memory _ _ separate
  exact congrArg₂ s.store (Array.setIfInBounds_comm _ _ apart.symm) memory

section Tracked

variable (tracks : s.Tracks h)
include tracks

theorem Tracks.slot_lt (index : UInt64) : s.queue.slot index < s.queue.capacity :=
  tracks.shows.slot_lt index.toNat

theorem Tracks.place_fits (index : UInt64) (record : Record) :
    s.place index + record.toBytes.length ≤ s.memory.size := by
  have backed := tracks.shows.carries.backed
  have within := tracks.shows.carries.slot_inside (tracks.slot_lt index) (by decide : 7 < 8)
  rw [record.toBytes_length, Layout.packetSize, place]
  unfold Region.Backed at backed
  omega

theorem Tracks.refusal_eq (index : UInt64) (fits : s.read + s.queue.capacity < UInt64.size) :
    (s.queue.counters s.memory).refusal s.queue.capacity index =
      if s.Accepts index then none else some (.error (s.refusal index)) := by
  have counters : s.queue.counters s.memory =
      { writeIndex := UInt64.ofNat s.write, published := s.published, retired := s.read } := by
    rw [Queue.counters, tracks.shows.tail, ← tracks.counters.2.1, write, UInt64.ofNat_toNat]
    rfl
  have writeIndex : UInt64.ofNat s.write ≤ index ↔ s.write ≤ index.toNat := by
    rw [write, UInt64.ofNat_toNat, UInt64.le_iff_toNat_le]
  rw [counters, Log.refusal, refusal]
  simp only [writeIndex, if_neg (Nat.not_le.mpr fits)]
  by_cases beyond : s.write ≤ index.toNat
  · rw [if_pos beyond, if_neg (by unfold Accepts; omega), if_pos beyond]
  rw [if_neg beyond, if_neg beyond]
  by_cases inFlight : s.read + s.queue.capacity ≤ index.toNat
  · rw [if_pos inFlight, if_neg (by unfold Accepts; omega), if_pos inFlight]
  rw [if_neg inFlight, if_neg inFlight]
  by_cases dispatched : index.toNat < s.published
  · rw [if_pos dispatched, if_neg (by unfold Accepts; omega)]
  · rw [if_neg dispatched, if_pos (by unfold Accepts; omega)]

theorem Tracks.enter_refused (fits : s.read + s.queue.capacity < UInt64.size)
    (refused : ¬s.Accepts index) (record : Record) :
    s.enter index record = (.failed (.error (s.refusal index)), s) := by
  have refusal := tracks.refusal_eq index fits
  rw [if_neg refused] at refusal
  have failed := Queue.writeRecord_refused tracks.shows.carries index record refusal
  have does : s.queue.produce (.write index record) =
      Queue.answer .packet (fun q => q.writeRecord index record) s.queue := rfl
  rw [enter, Ring.perform, does, Queue.answer_error failed]

theorem Tracks.enter_accepted (fits : s.read + s.queue.capacity < UInt64.size)
    (accepts : s.Accepts index) (record : Record) :
    s.enter index record = (.packet ⟨index, s.queue.slot index⟩, s.entered index record) := by
  have refusal := tracks.refusal_eq index fits
  rw [if_pos accepts] at refusal
  have carries := tracks.shows.carries
  have done := Queue.writeRecord_goes carries index record refusal
    (carries.writeRecord_write (tracks.slot_lt index) record.staged)
  have does : s.queue.produce (.write index record) =
      Queue.answer .packet (fun q => q.writeRecord index record) s.queue := rfl
  rw [enter, Ring.perform, does, Queue.answer_ok done]
  rfl

theorem Tracks.entered_enters (index : UInt64) (record : Record) :
    s.Enters index record (s.entered index record) := by
  have fits := tracks.place_fits index record.staged
  have length := record.staged.toBytes_length
  have inside : s.queue.slot index < s.queue.staged.size :=
    tracks.shows.room ▸ tracks.slot_lt index
  constructor
  case queue => rfl
  case port => rfl
  case room => exact Array.size_setIfInBounds
  case entry =>
    exact (s.queue.stagedAt_set (some index) s.queue.tail _ inside).trans (if_pos rfl)
  case entries => exact fun slot other => Array.getElem?_setIfInBounds_ne other.symm
  case size => exact ByteStore.size_write _ _ _
  case image =>
    have read := ByteStore.read_write s.memory (s.place index) record.staged.toBytes fits
    rw [length] at read
    exact read
  case bytes =>
    exact fun i apart => ByteStore.get_write_apart _ _ _ _ (by rwa [length])

-- The counters stand in the header, so no write of a slot moves them.
theorem Tracks.entered_counters (index : UInt64) (record : Record) :
    (s.entered index record).read = s.read ∧
      (s.entered index record).published = s.published ∧
      (s.entered index record).write = s.write := by
  have carries := tracks.shows.carries
  have below := tracks.slot_lt index
  obtain ⟨m, done, changed, _⟩ := carries.writeRecord_ok below record.staged
  cases done.symm.trans (carries.writeRecord_write below record.staged)
  have cells : (s.entered index record).queue.region.cells (s.entered index record).memory =
      (s.queue.region.cells s.memory).place (s.queue.slot index) record.staged := changed
  simp only [read, published, write, cells, Cells.place, and_self]

theorem Tracks.entered_accepts (record : Record) :
    (s.entered other record).Accepts index ↔ s.Accepts index := by
  obtain ⟨read, published, write⟩ := tracks.entered_counters other record
  unfold Accepts
  rw [read, published, write]
  rfl

theorem Tracks.entered_twice (index : UInt64) (first second : Record) :
    (s.entered index first).entered index second = s.entered index second := by
  have fits := tracks.place_fits index second.staged
  have memory := ByteStore.write_twice s.memory (s.place index)
    ((first.staged.toBytes_length).trans second.staged.toBytes_length.symm) fits
  exact congrArg₂ s.store (Array.setIfInBounds_setIfInBounds ..) memory

theorem Tracks.slots_apart (accepts : s.Accepts index) (accepts' : s.Accepts other)
    (different : other ≠ index) : s.queue.slot other ≠ s.queue.slot index := by
  obtain ⟨read, published, _⟩ := tracks.counters
  have ordered := tracks.shows.sound.ordered
  unfold Accepts at accepts accepts'
  intro same
  refine different (UInt64.toNat_inj.mp ?_)
  exact Log.window_unique (l := h.log s.queue.capacity) ⟨by omega, by omega⟩
    ⟨by omega, by omega⟩ same

end Tracked

theorem Run.entered (opened : start.Opened) (run : Run start h s)
    (fits : s.read + s.queue.capacity < UInt64.size) (accepts : s.Accepts index)
    (record : Record) : ∃ h', Run start h' (s.entered index record) := by
  obtain ⟨tracks, _⟩ := run.tracks opened
  have next := run.next (.produce (.write index record)) trivial
  have done : s.perform (.produce (.write index record)) = _ :=
    tracks.enter_accepted fits accepts record
  rw [done] at next
  exact ⟨_, next⟩

theorem Run.enter_after (opened : start.Opened) (run : Run start h s)
    (fits : s.read + s.queue.capacity < UInt64.size) (accepts : s.Accepts index)
    (accepts' : s.Accepts other) (first second : Record) :
    (s.entered index first).enter other second =
      (.packet ⟨other, s.queue.slot other⟩, (s.entered index first).entered other second) := by
  obtain ⟨tracks, _⟩ := run.tracks opened
  obtain ⟨_, later⟩ := run.entered opened fits accepts first
  obtain ⟨tracks', _⟩ := later.tracks opened
  have read := (tracks.entered_counters index first).1
  exact tracks'.enter_accepted (by rw [read]; exact fits)
    ((tracks.entered_accepts first).mpr accepts') second

-- Which index takes a record at a point of a run, what a write does there, and what becomes of two.
theorem run_enters (opened : start.Opened) (run : Run start h s)
    (fits : s.read + s.queue.capacity < UInt64.size) (index : UInt64) (record : Record) :
    (¬s.Accepts index → s.enter index record = (.failed (.error (s.refusal index)), s)) ∧
    (s.Accepts index →
      (s.enter index record).1 = .packet ⟨index, s.queue.slot index⟩ ∧
      s.Enters index record (s.enter index record).2 ∧
      (∀ second, (s.enter index record).2.enter index second = s.enter index second) ∧
      ∀ other second, s.Accepts other → other ≠ index →
        (s.enter index record).2.enter other second =
          ((s.enter other second).1, ((s.enter other second).2.enter index record).2) ∧
        ((s.enter other second).2.enter index record).1 = (s.enter index record).1) := by
  obtain ⟨tracks, _⟩ := run.tracks opened
  refine ⟨fun refused => tracks.enter_refused fits refused record, fun accepts => ?_⟩
  rw [tracks.enter_accepted fits accepts]
  refine ⟨rfl, tracks.entered_enters index record, fun second => ?_,
    fun other second accepts' different => ?_⟩
  · rw [tracks.enter_accepted fits accepts, run.enter_after opened fits accepts accepts,
      tracks.entered_twice]
  · have apart := tracks.slots_apart accepts accepts' different
    rw [tracks.enter_accepted fits accepts', run.enter_after opened fits accepts accepts',
      run.enter_after opened fits accepts' accepts, entered_comm apart]
    exact ⟨rfl, rfl⟩

-- Three indices are reserved and there are two slots: the first two take a record in either order.
theorem run_enters_sample : ∃ s h, sample.Opened ∧ Run sample h s ∧
    s.read + s.queue.capacity < UInt64.size ∧
    (s.enter 2 Queue.idle = (.failed (.error (.slotInFlight 2 0 2)), s) ∧
      s.enter 3 Queue.idle = (.failed (.error (.invalidState (.notReserved 3 3))), s)) ∧
    s.Enters 1 Queue.idle (s.enter 1 Queue.idle).2 ∧
    (s.enter 1 Queue.idle).2.enter 0 Queue.idle =
      (.packet ⟨0, 0⟩, ((s.enter 0 Queue.idle).2.enter 1 Queue.idle).2) := by
  obtain ⟨s, run⟩ := Run.start.produce sample_opened (.reserve 3) (.index 0)
    (by rw [sample_capacity]; decide)
  obtain ⟨tracks, capacity, _⟩ := run.tracks sample_opened
  have two : s.queue.capacity = 2 := capacity.trans sample_capacity
  obtain ⟨read, published, write⟩ := tracks.counters
  rw [two] at read published write
  replace read : s.read = 0 := read.trans (by decide)
  replace published : s.published = 0 := published.trans (by decide)
  replace write : s.write = 3 := write.trans (by decide)
  have fits : s.read + s.queue.capacity < UInt64.size := by rw [read, two]; decide
  have accepts (index : UInt64) : s.Accepts index ↔ index.toNat < 2 := by
    rw [Accepts, published, read, write, two]
    omega
  have refused (index : UInt64) (beyond : ¬index.toNat < 2) :=
    (run_enters sample_opened run fits index Queue.idle).1 (mt (accepts index).mp beyond)
  obtain ⟨_, enters, _, either⟩ := (run_enters sample_opened run fits 1 Queue.idle).2
    ((accepts 1).mpr (by decide))
  obtain ⟨first, _⟩ := (run_enters sample_opened run fits 0 Queue.idle).2
    ((accepts 0).mpr (by decide))
  have slot : s.queue.slot 0 = 0 := Nat.zero_mod _
  rw [slot] at first
  have both := (either 0 Queue.idle ((accepts 0).mpr (by decide)) (by decide)).1
  rw [first] at both
  refine ⟨s, _, sample_opened, run, fits, ⟨?_, ?_⟩, enters, both⟩
  · rw [refused 2 (by decide), refusal, write, read, two]
    rfl
  · rw [refused 3 (by decide), refusal, write]
    rfl

end Ring

end FabricQueue
