import FabricQueue.Proofs.Codecs
import FabricQueue.Proofs.Counters

set_option autoImplicit false

namespace FabricQueue

theorem Record.finished_activated (r : Record) : r.activated.finished = r.finished := by
  simp only [finished, activated]

theorem Log.Step.unwritten {capacity : Nat} {l l' : Log} {a : Act} {reply : Reply}
    (step : Log.Step capacity l a reply l') {j : Nat} (free : l'.written j = none) :
    l.written j = none := by
  rw [step.written_eq j] at free
  split at free
  · split at free
    · cases free
    · exact free
  · exact free

theorem Log.Step.stored_published {capacity : Nat} {l l' : Log} {a : Act} {reply : Reply}
    {stored : UInt64 × Record} (step : Log.Step capacity l a reply l')
    (accepted : Entry.stored? ⟨a, reply⟩ = some stored) : l'.published = l.published := by
  cases step with
  | stored stores accepts => rfl
  | _ => cases accepted

namespace Queue

variable {q q' : Queue} {m m' : Memory} {l : Log}

theorem Shows.reserve_slots (shows : q.Shows m l) {count first : UInt64}
    (done : q.reserve count m = .ok first m') :
    (q.region.cells m').slots = (q.region.cells m).slots := by
  have carries := shows.carries
  have fits := carries.header_inside (by decide : Layout.writeIndexAt + 8 ≤ 64)
  have aligned := carries.aligned
  have added := Region.fetchAdd_word (m := m) count fits (by simp only [Layout.writeIndexAt]; omega)
  cases done.symm.trans added
  rw [carries.cells_header _ _ (by decide) (by decide)]
  rfl

theorem Shows.writeRecord_slots (shows : q.Shows m l) {index : UInt64} {record : Record}
    {packet : PacketRef} (done : q.writeRecord index record m = .ok (packet, q') m') :
    (q.region.cells m').slots =
      Function.update (q.region.cells m).slots (index.toNat % q.capacity) record.staged := by
  obtain ⟨writeIndex, m₁, read, done⟩ := bind_cases done
  cases read.symm.trans shows.carries.writeIndex_ok
  obtain ⟨_, done⟩ := guard_cases done
  obtain ⟨readIndex, m₂, read', done⟩ := bind_cases done
  cases read'.symm.trans shows.carries.readIndex_ok
  obtain ⟨limit, m₃, added, done⟩ := bind_cases done
  obtain ⟨_, rfl⟩ := lift_cases added
  obtain ⟨_, done⟩ := guard_cases done
  obtain ⟨_, done⟩ := guard_cases done
  obtain ⟨_, m₄, stored, done⟩ := bind_cases done
  cases done
  obtain ⟨m₅, written, changed, _⟩ :=
    shows.carries.writeRecord_ok (shows.slot_lt index.toNat) record.staged
  cases stored.symm.trans written
  rw [changed]
  rfl

theorem Shows.retire_slots (shows : q.Shows m l) {index : UInt64}
    (done : q.port.retire index m = .ok () m') :
    (q.region.cells m').slots = Function.update (q.region.cells m).slots (index.toNat % q.capacity)
      ((q.region.cells m).slots (index.toNat % q.capacity)).finished := by
  have below := shows.slot_lt index.toNat
  obtain ⟨readIndex, m₁, read, done⟩ := bind_cases done
  cases read.symm.trans shows.carries.readIndex_ok
  obtain ⟨_, done⟩ := guard_cases done
  obtain ⟨_, m₂, turned, done⟩ := bind_cases done
  obtain ⟨_, m₃, signalled, done⟩ := bind_cases done
  obtain ⟨next, m₄, added, moved⟩ := bind_cases done
  obtain ⟨_, rfl⟩ := lift_cases added
  obtain ⟨_, turned', changed₂, leaves₂⟩ := shows.carries.setHeader_ok below Header.pending
  cases turned.symm.trans turned'
  have carries₂ := shows.carries.of_leaves leaves₂
  obtain ⟨_, signalled', changed₃, leaves₃⟩ := carries₂.setSignal_ok below signalDone
  cases signalled.symm.trans signalled'
  obtain ⟨_, moved', changed₄, _⟩ := (carries₂.of_leaves leaves₃).write_header Layout.readIndexAt
    next (by decide) (by decide)
  cases moved.symm.trans moved'
  rw [changed₄, changed₃, changed₂, Cells.place_slot, Cells.place_place]
  rfl

theorem Stages.next_entry (stages : q.Stages m l) :
    q.stagedAt (q.slot q.tail) = some q.tail ↔ (l.written l.published).isSome := by
  have slot : q.slot q.tail = l.published % q.capacity := by rw [slot, slotOf, stages.tail]
  rw [slot]
  constructor
  · intro entry
    by_contra missing
    rw [stages.unstaged missing] at entry
    cases entry
  · intro written
    have window : l.Window q.capacity l.published :=
      ⟨stages.sound.ordered, stages.sound.room _ written⟩
    rw [stages.staged _ window, stages.tail_eq]
    simp [Log.stagedEntry, written]

-- Induction on the packets still asked for: each turns one slot.
theorem Stages.publishNext_spares (count : Nat) (stages : q.Stages m l)
    (done : publishNext count q m = .ok q' m') {slot : Nat}
    (spared : ∀ j, l.published ≤ j → j < (l.publishNext count).published →
      j % q.capacity ≠ slot) :
    (q.region.cells m').slots slot = (q.region.cells m).slots slot := by
  induction count generalizing q m l with
  | zero => cases done; rfl
  | succ count ih =>
    unfold publishNext at done
    unfold Log.publishNext at spared
    by_cases written : (l.written l.published).isSome
    · rw [if_pos (stages.next_entry.mpr written)] at done
      rw [if_pos written] at spared
      obtain ⟨n, final, low, _⟩ :=
        Log.publishNext_spec count { l with published := l.published + 1 }
      have reached : l.published <
          (Log.publishNext count { l with published := l.published + 1 }).published := by
        rw [final]
        exact low
      obtain ⟨_, m₁, turned, done⟩ := bind_cases done
      obtain ⟨m₂, turned', stages', _⟩ := stages.advance_ok written
      cases turned.symm.trans turned'
      obtain ⟨_, turned', changed, _⟩ :=
        stages.carries.setHeader_ok (stages.slot_lt q.tail.toNat) Header.dispatch
      cases turned.symm.trans turned'
      have later := ih stages' done fun j above below =>
        spared j (by simp only at above; omega) below
      have other : slot ≠ q.tail.toNat % q.capacity := by
        rw [stages.tail]
        exact (spared _ (Nat.le_refl _) reached).symm
      exact later.trans (by rw [changed, Cells.place_other _ _ other])
    · rw [if_neg (mt stages.next_entry.mp written)] at done
      cases done
      rfl

theorem Shows.publish_spares (shows : q.Shows m l) {index count : UInt64}
    (done : q.publish index m = .ok (count, q') m') {slot : Nat}
    (spared : ∀ j, l.published ≤ j →
      j < (l.publishNext (index.toNat + 1 - l.published)).published → j % q.capacity ≠ slot) :
    (q.region.cells m').slots slot = (q.region.cells m).slots slot := by
  obtain ⟨writeIndex, m₁, read, done⟩ := bind_cases done
  cases read.symm.trans shows.carries.writeIndex_ok
  obtain ⟨_, done⟩ := guard_cases done
  obtain ⟨p, m₂, moved, done⟩ := bind_cases done
  rw [shows.tail] at moved
  have turned := shows.publishNext_spares _ moved spared
  obtain ⟨_, _, moved', _, _, region, _, leaves⟩ :=
    shows.publishNext_ok (index.toNat + 1 - l.published)
  cases moved.symm.trans moved'
  split at done
  · obtain ⟨_, m₃, rung, done⟩ := bind_cases done
    cases done
    obtain ⟨_, rung', changed, _⟩ := (shows.carries.of_leaves leaves).write_header
      Layout.doorbellAt (q'.tail - 1) (by decide) (by decide)
    cases rung.symm.trans rung'
    rw [changed]
    exact turned
  · cases done
    exact turned

theorem Shows.produce_spares (shows : q.Shows m l) (a : Production) {slot : Nat}
    (written : ∀ index record,
      Entry.stored? ⟨.produce a, (l.produce q.capacity a).1⟩ = some (index, record) →
      index.toNat % q.capacity ≠ slot)
    (published : ∀ j, l.published ≤ j → j < (l.produce q.capacity a).2.published →
      j % q.capacity ≠ slot) :
    (q.region.cells (q.produce a m).2.2).slots slot = (q.region.cells m).slots slot := by
  have write (index : UInt64) (record : Record)
      (spared : l.refusal q.capacity index = none → index.toNat % q.capacity ≠ slot) :
      (q.region.cells (answer .packet (fun q => q.writeRecord index record) q m).2.2).slots slot =
        (q.region.cells m).slots slot := by
    cases refused : l.refusal q.capacity index with
    | some failure => rw [answer_error (shows.writeRecord_refused index record refused)]
    | none =>
      obtain ⟨q', m', done, _⟩ := shows.writeRecord_accepted index record refused
      rw [answer_ok done, shows.writeRecord_slots done,
        Function.update_of_ne (spared refused).symm]
  cases a with
  | reserve count =>
    obtain ⟨m', done, _⟩ := shows.reserve_ok count
    rw [produce, answer_ok (bind_ok done), shows.reserve_slots done]
  | write index record =>
    refine write index record fun accepts => written index record ?_
    simp only [Log.produce, Log.write, accepts]
    rfl
  | writePacket index command =>
    refine write index command.encode fun accepts => written index command.encode ?_
    simp only [Log.produce, Log.write, accepts]
    rfl
  | dispatch index =>
    rw [produce]
    simp only [Log.produce, Log.publish] at published
    by_cases beyond : l.writeIndex ≤ index
    · rw [answer_error (shows.publish_refused beyond)]
    · rw [if_neg beyond] at published
      obtain ⟨q', m', done, _⟩ := shows.publish_ok beyond
      rw [answer_ok done]
      exact shows.publish_spares done published

end Queue

namespace Ring

variable {start s : Ring} {h : History}

-- The bytes of a slot.
def image (s : Ring) (slot : Nat) : List UInt8 :=
  s.queue.region.image s.memory slot

def Handles (s : Ring) (a : Act) (j : Nat) : Prop :=
  (∃ index record, Entry.stored? ⟨a, (s.perform a).1⟩ = some (index, record) ∧ j = index.toNat) ∨
    (s.published ≤ j ∧ j < (s.perform a).2.published) ∨ (s.read ≤ j ∧ j < (s.perform a).2.read)

-- What the slots hold of the records that were last accepted.
structure Imaged (s : Ring) (h : History) : Prop where
  staged : ∀ j record, h.written j = some record → s.published ≤ j →
    s.image (j % s.queue.capacity) = record.staged.toBytes
  activated : ∀ j record, h.written j = some record → s.read ≤ j → j < s.published →
    s.image (j % s.queue.capacity) = record.activated.toBytes
  -- Until the next round of the ring writes the slot.
  finished : ∀ j record, h.written j = some record → j < s.read →
    h.written (j + s.queue.capacity) = none →
    s.image (j % s.queue.capacity) = record.finished.toBytes

-- What one operation does to the bytes of the slots.
structure Imprints (s : Ring) (h : History) (a : Act) : Prop where
  stores : ∀ index record, Entry.stored? ⟨a, (s.perform a).1⟩ = some (index, record) →
    (s.perform a).2.image (index.toNat % s.queue.capacity) = record.staged.toBytes
  publishes : ∀ j, s.published ≤ j → j < (s.perform a).2.published → ∃ record,
    h.written j = some record ∧ s.image (j % s.queue.capacity) = record.staged.toBytes ∧
      (s.perform a).2.image (j % s.queue.capacity) = record.activated.toBytes
  retires : ∀ j, s.read ≤ j → j < (s.perform a).2.read → ∃ record,
    h.written j = some record ∧ s.image (j % s.queue.capacity) = record.activated.toBytes ∧
      (s.perform a).2.image (j % s.queue.capacity) = record.finished.toBytes
  spares : ∀ slot, (∀ j, s.Handles a j → j % s.queue.capacity ≠ slot) →
    (s.perform a).2.image slot = s.image slot

-- What producers and the consumer read of the slot of an index.
structure Reads (s : Ring) (index : UInt64) : Prop where
  bytes : s.queue.region.readBytes (Layout.slotOffset (index.toNat % s.queue.capacity))
    Layout.packetSize s.memory = .ok (s.image (index.toNat % s.queue.capacity)) s.memory
  packet : s.queue.packet index s.memory =
    .ok (Record.ofBytes (s.image (index.toNat % s.queue.capacity))) s.memory
  fetch : s.port.fetch index s.memory =
    .ok (if (Record.ofBytes (s.image (index.toNat % s.queue.capacity))).isActive then
      some (Record.ofBytes (s.image (index.toNat % s.queue.capacity))) else none) s.memory

theorem Tracks.reads (tracks : s.Tracks h) (index : UInt64) : s.Reads index := by
  have shows := tracks.shows
  have below := shows.slot_lt index.toNat
  have cell := s.queue.region.cells_image s.memory (index.toNat % s.queue.capacity)
  constructor
  case bytes =>
    have large := shows.carries.large
    have within := Layout.slot_within below (by decide : 7 < 8)
    have located : s.queue.region.locate (Layout.slotOffset (index.toNat % s.queue.capacity))
        Layout.packetSize 1 = .ok _ :=
      Region.locate_ok (by simp only [Layout.packetSize]; omega) (Nat.mod_one _)
    simp [Region.readBytes, Region.access, located, image, Region.image]
  case packet =>
    rw [image, ← cell]
    exact shows.carries.readRecord_ok below
  case fetch =>
    rw [image, ← cell, tracks.port]
    exact shows.fetch_cell index

theorem Tracks.stored (tracks : s.Tracks h) {a : Act} (allowed : s.Allowed h a) {index : UInt64}
    {record : Record} (stored : Entry.stored? ⟨a, (s.perform a).1⟩ = some (index, record)) :
    (h.log s.queue.capacity).refusal s.queue.capacity index = none ∧
      ((h.log s.queue.capacity).perform s.queue.capacity a).2.written index.toNat = some record ∧
      ((h.log s.queue.capacity).perform s.queue.capacity a).2.published ≤ index.toNat := by
  have stores := Entry.stores_of_stored stored
  have inReach : (h.log s.queue.capacity).InReach s.queue.capacity a := by
    cases a with
    | fetch index => cases stores
    | _ => trivial
  rw [(tracks.perform_follows a allowed).reply inReach] at stored
  have step := @Log.perform_step s.queue.capacity a (h.log s.queue.capacity)
  refine ⟨step.accepted stored, ?_, ?_⟩
  · rw [step.written_eq, stored]
    exact if_pos rfl
  · rw [step.stored_published stored]
    exact (Log.accepted (step.accepted stored)).2.1

theorem Tracks.handled (tracks : s.Tracks h) {a : Act} (allowed : s.Allowed h a) {j : Nat}
    (handled : s.Handles a j) :
    (h.log s.queue.capacity).Window s.queue.capacity j ∧
      (((h.log s.queue.capacity).perform s.queue.capacity a).2.written j).isSome := by
  have follows := tracks.perform_follows a allowed
  have step := @Log.perform_step s.queue.capacity a (h.log s.queue.capacity)
  have sound := tracks.shows.sound
  have sound' := follows.shows.sound
  have positive := tracks.shows.capacity_pos
  have ordered := sound.ordered
  obtain ⟨read, published, _⟩ := tracks.counters
  have read' : (s.perform a).2.read = _ := follows.shows.readIndex
  have published' : (s.perform a).2.published = _ := follows.shows.doorbell
  unfold Handles at handled
  rw [read, published, read', published'] at handled
  obtain ⟨index, record, stored, rfl⟩ | ⟨low, high⟩ | ⟨low, high⟩ := handled
  · obtain ⟨accepts, written, _⟩ := tracks.stored allowed stored
    obtain ⟨_, above, below⟩ := Log.accepted accepts
    exact ⟨⟨by omega, below⟩, by rw [written]; rfl⟩
  · obtain ⟨_, _, _, _, _, covered⟩ := step.passed low high
    exact ⟨⟨by omega, sound.room j (covered j low (Nat.le_refl j))⟩, sound'.covered j high⟩
  · have moved := step.retired_eq
    have ordered' := sound'.ordered
    split at moved <;> exact ⟨⟨low, by omega⟩, sound'.covered j (by omega)⟩

theorem Tracks.spares (tracks : s.Tracks h) {a : Act} (allowed : s.Allowed h a) {slot : Nat}
    (spared : ∀ j, s.Handles a j → j % s.queue.capacity ≠ slot) :
    (s.perform a).2.image slot = s.image slot := by
  have shows := tracks.shows
  have follows := tracks.perform_follows a allowed
  obtain ⟨read, published, _⟩ := tracks.counters
  have published' : (s.perform a).2.published = _ := follows.shows.doorbell
  rw [image, image, follows.region, Region.image_cells, Region.image_cells]
  congr 1
  cases a with
  | produce a =>
    refine shows.produce_spares a (fun index record stored => ?_) fun j low high => ?_
    · refine spared _ (.inl ⟨index, record, ?_, rfl⟩)
      rw [follows.reply trivial]
      exact stored
    · refine spared j (.inr (.inl ⟨published ▸ low, ?_⟩))
      rw [published']
      exact high
  | fetch index =>
    have done := shows.fetch_cell index
    rw [← tracks.port] at done
    rw [Ring.perform, consume_ok done]
  | retire index =>
    rw [Ring.perform]
    by_cases current : index.toNat = (h.log s.queue.capacity).retired
    · obtain ⟨m, done, shows', _⟩ := shows.retire_ok current (tracks.legal allowed current)
      have other : index.toNat % s.queue.capacity ≠ slot := by
        refine spared _ (.inr (.inr ⟨by omega, ?_⟩))
        have read' : (s.perform (.retire index)).2.read = _ := follows.shows.readIndex
        rw [read', Log.perform, Log.retire, if_pos current]
        exact Nat.lt_succ_of_le (Nat.le_of_eq current)
      have turned := shows.retire_slots done
      rw [← tracks.port] at done
      rw [consume_ok done]
      simp only [turned, Function.update_of_ne other.symm]
    · have failed := shows.retire_refused current
      rw [← tracks.port] at failed
      rw [consume_error failed]

theorem Tracks.window_image (tracks : s.Tracks h) {j : Nat} {record : Record}
    (written : h.written j = some record) (above : s.read ≤ j) :
    s.image (j % s.queue.capacity) =
      (if j < s.published then record.activated else record.staged).toBytes := by
  have shows := tracks.shows
  obtain ⟨read, published, _⟩ := tracks.counters
  rw [← tracks.written] at written
  have window : (h.log s.queue.capacity).Window s.queue.capacity j :=
    ⟨read ▸ above, shows.sound.room j (by rw [written]; rfl)⟩
  have holds := shows.slots j window
  simp only [Log.Holds, written] at holds
  rw [image, Region.image_cells, holds, published]

theorem Tracks.retires (tracks : s.Tracks h) {a : Act} (allowed : s.Allowed h a) {j : Nat}
    (low : s.read ≤ j) (high : j < (s.perform a).2.read) : j < s.published ∧ ∃ record,
      h.written j = some record ∧ s.image (j % s.queue.capacity) = record.activated.toBytes ∧
        (s.perform a).2.image (j % s.queue.capacity) = record.finished.toBytes := by
  have shows := tracks.shows
  have follows := tracks.perform_follows a allowed
  have step := @Log.perform_step s.queue.capacity a (h.log s.queue.capacity)
  obtain ⟨read, published, _⟩ := tracks.counters
  have read' : (s.perform a).2.read = _ := follows.shows.readIndex
  have moved := step.retired_eq
  split at moved
  next answered =>
    rw [answered] at step
    obtain ⟨index, rfl, current⟩ := step.retirement
    have legal := tracks.legal allowed current
    have same : j = index.toNat := by omega
    subst same
    obtain ⟨record, written⟩ :=
      Option.isSome_iff_exists.mp (shows.sound.covered _ (current ▸ legal))
    rw [tracks.written] at written
    have before := tracks.window_image written low
    rw [if_pos (by omega)] at before
    obtain ⟨m, done, _⟩ := shows.retire_ok current legal
    have turned := shows.retire_slots done
    rw [← tracks.port] at done
    refine ⟨by omega, record, written, before, ?_⟩
    have cell := s.queue.region.cells_image s.memory (index.toNat % s.queue.capacity)
    rw [image] at before
    rw [before, Record.ofBytes_toBytes] at cell
    rw [image, follows.region, Region.image_cells, Ring.perform, consume_ok done]
    simp only [turned, Function.update_self, cell, Record.finished_activated]
  · omega

theorem Imaged.perform (imaged : s.Imaged h) (tracks : s.Tracks h) (a : Act)
    (allowed : s.Allowed h a) : (s.perform a).2.Imaged (⟨a, (s.perform a).1⟩ :: h) := by
  have follows := tracks.perform_follows a allowed
  have step := @Log.perform_step s.queue.capacity a (h.log s.queue.capacity)
  have tracks' := tracks.perform a allowed
  obtain ⟨read, published, _⟩ := tracks.counters
  have ordered := tracks.shows.sound.ordered
  constructor
  case staged =>
    intro j record written waiting
    have ordered' := tracks'.shows.sound.ordered
    obtain ⟨read', published', _⟩ := tracks'.counters
    rw [tracks'.window_image written (by omega), if_neg (by omega)]
  case activated =>
    intro j record written above below
    rw [tracks'.window_image written above, if_pos below]
  case finished =>
    intro j record written retired free
    rw [← tracks'.written] at written free
    rw [follows.capacity] at written free ⊢
    change ((h.log s.queue.capacity).perform s.queue.capacity a).2.written _ = none at free
    have settled : j < s.published → h.written j = some record := by
      intro below
      rw [← tracks.written, ← step.settled (published ▸ below)]
      exact written
    by_cases old : j < s.read
    · have free' : h.written (j + s.queue.capacity) = none := by
        rw [← tracks.written]
        exact step.unwritten free
      rw [tracks.spares allowed fun k handled same => ?_]
      · exact imaged.finished j record (settled (by omega)) old free'
      · obtain ⟨window, some⟩ := tracks.handled allowed handled
        have next : (h.log s.queue.capacity).Window s.queue.capacity (j + s.queue.capacity) := by
          refine ⟨?_, by omega⟩
          by_contra behind
          have covered := tracks.shows.sound.covered (j + s.queue.capacity) (by omega)
          rw [tracks.written, free'] at covered
          cases covered
        have equal := Log.window_unique window next (same.trans (Nat.add_mod_right _ _).symm)
        rw [equal] at some
        rw [free] at some
        cases some
    · obtain ⟨below, record', written', _, turned⟩ := tracks.retires allowed (by omega) retired
      cases written'.symm.trans (settled below)
      exact turned

theorem Run.imaged (opened : start.Opened) (run : Run start h s) : s.Imaged h := by
  induction run with
  | start =>
    constructor <;> intro j record written
    all_goals cases written
  | next a run allowed ih => exact ih.perform (run.tracks opened).1 a allowed

theorem Run.imprints (opened : start.Opened) (run : Run start h s) {a : Act}
    (allowed : s.Allowed h a) : s.Imprints h a := by
  obtain ⟨tracks, _⟩ := run.tracks opened
  have follows := tracks.perform_follows a allowed
  have tracks' := tracks.perform a allowed
  have imaged' := (run.imaged opened).perform tracks a allowed
  have step := @Log.perform_step s.queue.capacity a (h.log s.queue.capacity)
  obtain ⟨read, published, _⟩ := tracks.counters
  have read' : (s.perform a).2.read = _ := follows.shows.readIndex
  have published' : (s.perform a).2.published = _ := follows.shows.doorbell
  constructor
  case stores =>
    intro index record stored
    obtain ⟨_, written, waiting⟩ := tracks.stored allowed stored
    rw [← follows.capacity]
    refine imaged'.staged _ record ?_ (published' ▸ waiting)
    rw [← tracks'.written, follows.capacity]
    exact written
  case publishes =>
    intro j low high
    rw [published] at low
    rw [published'] at high
    obtain ⟨_, _, _, answered, _, covered⟩ := step.passed low high
    obtain ⟨record, written⟩ := Option.isSome_iff_exists.mp (covered j low (Nat.le_refl j))
    have ordered := tracks.shows.sound.ordered
    have still := step.retired_eq
    have kept := step.written_eq j
    simp only [answered, Entry.stored?] at kept
    rw [answered, if_neg Reply.noConfusion] at still
    have before := tracks.window_image (tracks.written ▸ written) (by omega)
    rw [if_neg (by omega)] at before
    refine ⟨record, tracks.written ▸ written, before, ?_⟩
    rw [← follows.capacity]
    refine imaged'.activated j record ?_ (by omega) (by omega)
    rw [← tracks'.written, follows.capacity]
    exact kept.trans written
  case retires => exact fun j low high => (tracks.retires allowed low high).2
  case spares => exact fun slot spared => tracks.spares allowed spared

-- What the slots hold at every point of a run.
theorem run_images (opened : start.Opened) (run : Run start h s) :
    Record.Lossless ∧ s.Imaged h ∧ (∀ a, s.Allowed h a → s.Imprints h a) ∧
      ∀ index, s.Reads index := by
  obtain ⟨tracks, _⟩ := run.tracks opened
  exact ⟨Record.lossless, run.imaged opened, fun a allowed => run.imprints opened allowed,
    tracks.reads⟩

-- One packet delivered and its slot still free, and one packet published.
theorem run_images_sample : ∃ s h, sample.Opened ∧ Run sample h s ∧
    (Record.Lossless ∧ s.Imaged h ∧ (∀ a, s.Allowed h a → s.Imprints h a) ∧
      ∀ index, s.Reads index) ∧
    s.image 0 = (Command.encode (.deviceInit 1)).finished.toBytes ∧
    s.image 1 = (Command.encode (.deviceInit 2)).activated.toBytes := by
  obtain ⟨s', run⟩ := sample_run
  replace run : Run sample (sampleHistory.take 2 ++ sampleHistory.drop 2) s' := run
  obtain ⟨s, earlier⟩ := run.earlier
  obtain ⟨tracks, capacity, _⟩ := earlier.tracks sample_opened
  have two : s.queue.capacity = 2 := capacity.trans sample_capacity
  have images := run_images sample_opened earlier
  have read : s.read = 1 := tracks.read_eq.trans (by decide)
  have published : s.published = 2 := by
    rw [tracks.counters.2.1, two]
    decide
  refine ⟨s, _, sample_opened, earlier, images, ?_, ?_⟩
  · have finished := images.2.1.finished 0 (Command.encode (.deviceInit 1)) (by decide)
      (by rw [read]; decide) (by rw [two]; decide)
    rwa [two] at finished
  · have activated := images.2.1.activated 1 (Command.encode (.deviceInit 2)) (by decide)
      (by rw [read]) (by rw [published]; decide)
    rwa [two] at activated

end Ring

end FabricQueue
