import FabricQueue.Proofs.Delivery

set_option autoImplicit false

namespace FabricQueue

namespace Ring

-- What a consumer may rely on.
structure Candid (s : Ring) (h : History) : Prop where
  ordered : s.read ≤ s.published
  -- For an index of the window the answer is about this index.
  live : ∀ index : UInt64, s.read ≤ index.toNat → index.toNat < s.published →
    ∃ original, h.written index.toNat = some original ∧
      s.perform (.fetch index) = (.found (some original.activated), s)
  coming : ∀ index : UInt64, s.published ≤ index.toNat →
    index.toNat < s.read + s.queue.capacity → s.perform (.fetch index) = (.found none, s)
  -- For any index it is about the packet that lives in its slot.
  shared : ∀ index : UInt64, ∃ found, s.perform (.fetch index) = (.found found, s) ∧
    ∀ record, found = some record ↔ ∃ j original, (s.read ≤ j ∧ j < s.published) ∧
      j % s.queue.capacity = index.toNat % s.queue.capacity ∧
        h.written j = some original ∧ record = original.activated
  retires : ∀ index : UInt64, (s.perform (.retire index)).1 = .retired ↔ index.toNat = s.read
  due : ∀ index : UInt64, s.Due (.retire index) →
    ((s.perform (.retire index)).1 = .retired ↔ index.toNat = s.read ∧ index.toNat < s.published)
  refuses : ∀ index : UInt64, index.toNat ≠ s.read → s.perform (.retire index) =
    (.failed (.error (.invalidState (.retireOutOfOrder index (UInt64.ofNat s.read)))), s)
  dispatched : ∀ j < s.published, h.Dispatched j
  complete : ∀ index : UInt64, s.queue.isComplete index s.memory = .ok true s.memory →
    h.Dispatched index.toNat
  waiting : ∀ j record, h.written j = some record → s.published ≤ j →
    s.queue.packet (UInt64.ofNat j) s.memory = .ok record.staged s.memory

variable {start s : Ring} {h : History}

theorem Tracks.retire_other (tracks : s.Tracks h) {index : UInt64} (other : index.toNat ≠ s.read) :
    s.perform (.retire index) =
      (.failed (.error (.invalidState (.retireOutOfOrder index (UInt64.ofNat s.read)))), s) := by
  obtain ⟨read, _⟩ := tracks.counters
  rw [read] at other ⊢
  have failed := tracks.shows.retire_refused other
  rw [← tracks.port] at failed
  rw [Ring.perform, consume_error failed]

theorem Tracks.waiting (tracks : s.Tracks h) {j : Nat} {record : Record}
    (written : h.written j = some record) (waiting : s.published ≤ j) :
    s.queue.packet (UInt64.ofNat j) s.memory = .ok record.staged s.memory := by
  have shows := tracks.shows
  obtain ⟨_, published, _⟩ := tracks.counters
  rw [published] at waiting
  rw [← tracks.written] at written
  have present : ((h.log s.queue.capacity).written j).isSome := by rw [written]; rfl
  have word := shows.sound.word j present
  have ordered := shows.sound.ordered
  have holds := shows.slots j ⟨by omega, shows.sound.room j present⟩
  simp only [Log.Holds, written, if_neg (Nat.not_lt.mpr waiting)] at holds
  rw [← holds, Queue.packet, Queue.slot, slotOf, UInt64.toNat_ofNat_of_lt' (by omega)]
  exact shows.carries.readRecord_ok (shows.slot_lt j)

theorem Tracks.fetch_shared (tracks : s.Tracks h) (index : UInt64) :
    ∃ found, s.perform (.fetch index) = (.found found, s) ∧
      ∀ record, found = some record ↔ ∃ j original, (s.read ≤ j ∧ j < s.published) ∧
        j % s.queue.capacity = index.toNat % s.queue.capacity ∧
          h.written j = some original ∧ record = original.activated := by
  obtain ⟨read, published, _⟩ := tracks.counters
  have room := tracks.shows.sound.published_le
  obtain ⟨j, window, same, done⟩ := tracks.fetch_slot index
  refine ⟨_, done, fun record => ⟨fun found => ?_, ?_⟩⟩
  · split at found
    next live =>
      obtain ⟨original, written, rfl⟩ := Option.map_eq_some_iff.mp found
      exact ⟨j, original, ⟨window.1, live⟩, same, written, rfl⟩
    · cases found
  · rintro ⟨k, original, ⟨above, live⟩, slot, written, rfl⟩
    have inside : (h.log s.queue.capacity).Window s.queue.capacity k := ⟨by omega, by omega⟩
    rw [read] at window
    have own := Log.window_unique inside window (slot.trans same.symm)
    subst own
    rw [if_pos live, written]
    rfl

theorem port_answers (opened : start.Opened) (orderly : Orderly start h s)
    (few : h.reserved + start.queue.capacity < UInt64.size) : s.Candid h := by
  obtain ⟨tracks, capacity, _⟩ := orderly.tracks opened
  obtain ⟨read, published, _⟩ := tracks.counters
  have ordered := tracks.ordered (by omega)
  have narrow : s.read + 1 < UInt64.size := by
    have reserved := @History.log_writeIndex s.queue.capacity h (by omega)
    obtain ⟨_, _, write⟩ := tracks.counters
    have positive := tracks.shows.capacity_pos
    have low := ordered.read_le
    have high := ordered.published_le
    omega
  have retires (index : UInt64) :
      (s.perform (.retire index)).1 = .retired ↔ index.toNat = s.read := by
    constructor
    · intro answered
      by_contra other
      rw [tracks.retire_other other] at answered
      cases answered
    · intro current
      obtain ⟨s', done, _⟩ := tracks.retire_current current narrow
      rw [done]
  have dispatched (j : Nat) (below : j < s.published) : h.Dispatched j := by
    rw [published, capacity] at below
    exact orderly.dispatched opened below
  constructor
  case ordered => exact ordered.read_le
  case live =>
    intro index above below
    obtain ⟨record, written, found⟩ := tracks.fetch_found above below
    exact ⟨record, written, found⟩
  case coming =>
    intro index above below
    have low := ordered.read_le
    have done : s.queue.port.fetch index s.memory = _ :=
      tracks.shows.fetch_ok ⟨by omega, by omega⟩
    rw [Log.fetch, if_neg (by omega), ← tracks.port] at done
    rw [perform]
    exact consume_ok done
  case shared => exact tracks.fetch_shared
  case retires => exact retires
  case due =>
    intro index due
    have legal := (tracks.due_iff _).mp due index rfl
    rw [← read, ← published] at legal
    rw [retires]
    exact ⟨fun current => ⟨current, current ▸ legal current⟩, And.left⟩
  case refuses => exact fun index => tracks.retire_other
  case dispatched => exact dispatched
  case complete =>
    intro index complete
    have low := ordered.read_le
    rw [tracks.shows.isComplete_ok] at complete
    simp only [EStateM.Result.ok.injEq, and_true, Bool.or_eq_true, Bool.and_eq_true,
      decide_eq_true_eq] at complete
    exact dispatched _ (by omega)
  case waiting => exact fun j record => tracks.waiting

-- The consumer retires a packet without a look at it, and the next one finds its slot taken.
theorem port_answers_sample : ∃ h s, sample.Opened ∧ Orderly sample h s ∧
    h.reserved + sample.queue.capacity < UInt64.size ∧ s.Candid h ∧ s.read = 1 ∧
    s.published = 3 ∧
    (s.perform (.fetch 2)).1 = .found (some (Command.encode (.deviceInit 3)).activated) := by
  obtain ⟨s, run⟩ := sample_run
  have orderly := run.orderly sample_opened
  obtain ⟨tracks, capacity, _⟩ := orderly.tracks sample_opened
  obtain ⟨read, published, _⟩ := tracks.counters
  rw [capacity, sample_capacity] at read published
  have few : History.reserved sampleHistory + sample.queue.capacity < UInt64.size := by
    rw [sample_capacity]
    decide
  have candid := port_answers sample_opened orderly few
  have one : s.read = 1 := by rw [read]; decide
  have three : s.published = 3 := by rw [published]; decide
  obtain ⟨original, written, done⟩ := candid.live 2 (by rw [one]; decide) (by rw [three]; decide)
  have same : original = Command.encode (.deviceInit 3) := (Option.some.inj written).symm
  subst same
  exact ⟨_, s, sample_opened, orderly, few, candid, one, three, congrArg Prod.fst done⟩

-- With one packet published in two slots the port finds it for the index after the next too, and
-- a ring on which nothing is published gives its first packet back.
theorem port_answers_beyond : ∃ h s, Orderly sample h s ∧
    h.reserved + sample.queue.capacity < UInt64.size ∧ s.read = 0 ∧ s.published = 1 ∧
    (s.perform (.fetch 2)).1 = .found (some (Command.encode (.deviceInit 1)).activated) ∧
    sample.published = 0 ∧ (sample.perform (.retire 0)).1 = .retired := by
  have two := sample_capacity
  obtain ⟨_, reserved⟩ := Run.start.produce sample_opened (.reserve 1) (.index 0)
    (by rw [two]; decide)
  obtain ⟨_, first⟩ := reserved.produce sample_opened (.writePacket 0 (.deviceInit 1))
    (.packet ⟨0, 0⟩) (by rw [two]; decide)
  obtain ⟨s, run⟩ := first.produce sample_opened (.dispatch 0) (.published 1)
    (by rw [two]; decide)
  obtain ⟨tracks, capacity, _⟩ := run.tracks sample_opened
  obtain ⟨read, published, _⟩ := tracks.counters
  rw [capacity, two] at read published
  have none : s.read = 0 := by rw [read]; decide
  have one : s.published = 1 := by rw [published]; decide
  obtain ⟨found, done, known⟩ := tracks.fetch_shared 2
  have shared : found = some (Command.encode (.deviceInit 1)).activated :=
    (known _).mpr ⟨0, Command.encode (.deviceInit 1), ⟨by omega, by omega⟩,
      by rw [capacity, two]; decide, by decide, rfl⟩
  obtain ⟨emptyRead, emptyPublished, _⟩ := sample_opened.tracks.counters
  obtain ⟨_, retired, _⟩ := sample_opened.tracks.retire_current
    (show UInt64.toNat 0 = _ from emptyRead.symm) (by rw [emptyRead]; decide)
  exact ⟨_, s, run.orderly sample_opened, by rw [two]; decide, none, one,
    by rw [done, shared], emptyPublished, congrArg Prod.fst retired⟩

end Ring

end FabricQueue
