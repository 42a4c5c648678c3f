import FabricQueue.Proofs.Completion
import FabricQueue.Proofs.Publishing

set_option autoImplicit false

namespace FabricQueue

theorem Entry.stored_quiet {a : Act} (quiet : a.stores? = none) (reply : Reply) :
    stored? ⟨a, reply⟩ = none := by
  cases reply <;> first | rfl | exact quiet

theorem History.written_none {e : Entry} {h : History} (none : e.stored? = none) :
    History.written (e :: h) = h.written := by
  funext j
  rw [History.written, none]

theorem History.written_some {e : Entry} {h : History} {index : UInt64} {record : Record}
    (some : e.stored? = .some (index, record)) (j : Nat) :
    History.written (e :: h) j = if j = index.toNat then .some record else h.written j := by
  rw [History.written, some]

namespace Ring

-- The histories and states to which operations lead, whatever the consumer does.
inductive Led (start : Ring) : History → Ring → Prop where
  | start : Led start [] start
  | next {h : History} {s : Ring} (a : Act) : Led start h s →
      Led start (⟨a, (s.perform a).1⟩ :: h) (s.perform a).2

def cell (s : Ring) (slot : Nat) : Record :=
  (s.queue.region.cells s.memory).slots slot

structure Bears (s : Ring) (h : History) : Prop where
  laid : s.Laid
  room : s.queue.staged.size = s.queue.capacity
  entries : ∀ slot (j : UInt64), s.queue.stagedAt slot = some j →
    slot = j.toNat % s.queue.capacity ∧ s.queue.tail ≤ j ∧ j.toNat < s.read + s.queue.capacity ∧
      j.toNat + 1 < UInt64.size
  waiting : ∀ slot (j : UInt64), s.queue.stagedAt slot = some j → s.read ≤ j.toNat →
    ∃ record, h.written j.toNat = some record ∧ s.cell slot = record.staged
  packets : ∀ j, s.read ≤ j → j < s.queue.tail.toNat → j < s.read + s.queue.capacity ∧
    ∃ record, h.written j = some record ∧ s.cell (j % s.queue.capacity) = record.activated

structure Upholds (s : Ring) (h : History) : Prop extends Bears s h where
  doorbell : s.published = s.queue.tail.toNat
  port : s.port = s.queue.port

variable {start s : Ring} {h : History}

theorem slot_unique {read capacity i j : Nat} (first : read ≤ i ∧ i < read + capacity)
    (second : read ≤ j ∧ j < read + capacity) (same : i % capacity = j % capacity) : i = j :=
  Log.window_unique (l := { retired := read }) first second same

theorem Bears.advance (bears : s.Bears h)
    (staged : s.queue.stagedAt (s.queue.slot s.queue.tail) = some s.queue.tail) :
    s.advance.Bears h := by
  obtain ⟨slot, _, inside, narrow⟩ := bears.entries _ _ staged
  have changed := bears.laid.advance_cells
  have read : s.advance.read = s.read := by
    rw [Ring.read, Ring.read]
    exact congrArg (fun c => c.readIndex.toNat) changed
  have tail : s.advance.queue.tail.toNat = s.queue.tail.toNat + 1 := toNat_succ narrow
  have other (k : Nat) (different : k ≠ s.queue.slot s.queue.tail) :
      s.advance.cell k = s.cell k :=
    (congrArg (fun c => c.slots k) changed).trans (Cells.place_other _ _ different)
  have entry (k : Nat) (j : UInt64) (entered : s.advance.queue.stagedAt k = some j) :
      k ≠ s.queue.slot s.queue.tail ∧ s.queue.stagedAt k = some j := by
    unfold Ring.advance at entered
    rw [Queue.stagedAt_clear] at entered
    split at entered
    · cases entered
    next different => exact ⟨different, entered⟩
  constructor
  case laid => exact bears.laid.advance
  case room => exact Array.size_setIfInBounds.trans bears.room
  case entries =>
    intro k j entered
    obtain ⟨different, old⟩ := entry k j entered
    obtain ⟨place, above, below, word⟩ := bears.entries k j old
    refine ⟨place, ?_, by rw [read]; exact below, word⟩
    -- The entry of the tail itself is gone, so this one is of a later index.
    have later : j.toNat ≠ s.queue.tail.toNat := fun same => different (by rw [place, same]; rfl)
    rw [UInt64.le_iff_toNat_le] at above ⊢
    rw [tail]
    omega
  case waiting =>
    intro k j entered above
    obtain ⟨different, old⟩ := entry k j entered
    rw [read] at above
    rw [other k different]
    exact bears.waiting k j old above
  case packets =>
    intro j above below
    rw [read] at above ⊢
    rw [tail] at below
    by_cases last : j = s.queue.tail.toNat
    · subst last
      obtain ⟨record, written, held⟩ := bears.waiting _ _ staged above
      refine ⟨inside, record, written, ?_⟩
      have turned : s.advance.cell (s.queue.slot s.queue.tail) =
          { s.cell (s.queue.slot s.queue.tail) with header := Header.dispatch } :=
        (congrArg (fun c => Cells.slots c (s.queue.slot s.queue.tail)) changed).trans
          (Cells.place_slot _ _ _)
      rw [held] at turned
      exact turned
    · obtain ⟨below', record, written, held⟩ := bears.packets j above (by omega)
      refine ⟨below', record, written, ?_⟩
      rw [← held]
      refine other _ fun same => last ?_
      exact slot_unique ⟨above, below'⟩ ⟨by omega, inside⟩ same

theorem Bears.iterate (bears : s.Bears h) (count : Nat) :
    (Ring.advance^[ready count s] s).Bears h := by
  induction count generalizing s with
  | zero => exact bears
  | succ count ih =>
    unfold ready
    split
    next staged => exact ih (bears.advance staged)
    · exact bears

theorem Bears.kept {m : Memory} (bears : s.Bears h)
    (leaves : s.queue.footprint.Leaves s.memory m)
    (read : (s.queue.region.cells m).readIndex = (s.queue.region.cells s.memory).readIndex)
    (slots : (s.queue.region.cells m).slots = (s.queue.region.cells s.memory).slots) :
    Bears { s with memory := m } h := by
  have same : Ring.read { s with memory := m } = s.read := congrArg UInt64.toNat read
  have cell (slot : Nat) : Ring.cell { s with memory := m } slot = s.cell slot :=
    congrFun slots slot
  have laid : Laid { s with memory := m } :=
    ⟨bears.laid.positive, bears.laid.carries.of_leaves leaves⟩
  refine ⟨laid, bears.room, ?_, ?_, ?_⟩ <;> simp only [same, cell]
  · exact bears.entries
  · exact bears.waiting
  · exact bears.packets

theorem Bears.publish (bears : s.Bears h) (count : Nat) : (s.publish count).Bears h := by
  unfold Ring.publish
  split
  · exact bears
  · have after := bears.iterate count
    have changed := after.laid.carries.cells_header Layout.doorbellAt
      ((Ring.advance^[ready count s] s).queue.tail - 1) (by decide) (by decide)
    have leaves : (Ring.advance^[ready count s] s).queue.footprint.Leaves
        (Ring.advance^[ready count s] s).memory (Ring.advance^[ready count s] s).ring.memory :=
      Region.put_leaves _ (Layout.header_within _ (by decide : Layout.doorbellAt + 8 ≤ 64))
    exact after.kept leaves ((congrArg Cells.readIndex changed).trans rfl)
      ((congrArg Cells.slots changed).trans rfl)

theorem Bears.congr {h' : History} (bears : s.Bears h) (same : h'.written = h.written) :
    s.Bears h' := by
  refine ⟨bears.laid, bears.room, bears.entries, ?_, ?_⟩ <;> rw [same]
  · exact bears.waiting
  · exact bears.packets

theorem Upholds.congr {h' : History} (upholds : s.Upholds h) (same : h'.written = h.written) :
    s.Upholds h' :=
  ⟨upholds.toBears.congr same, upholds.doorbell, upholds.port⟩

theorem Upholds.reserve (upholds : s.Upholds h) (count : UInt64) :
    ∃ first m, s.perform (.produce (.reserve count)) = (.index first, { s with memory := m }) ∧
      Upholds { s with memory := m } h := by
  have carries := upholds.laid.carries
  have fits := carries.header_inside (by decide : Layout.writeIndexAt + 8 ≤ 64)
  have aligned := carries.aligned
  have added := Region.fetchAdd_word (m := s.memory) count fits
    (by simp only [Layout.writeIndexAt]; omega)
  have changed := carries.cells_header Layout.writeIndexAt
    (s.queue.region.word s.memory Layout.writeIndexAt + count) (by decide) (by decide)
  have leaves : s.queue.footprint.Leaves s.memory _ :=
    Region.put_leaves (s.queue.region.word s.memory Layout.writeIndexAt + count)
      (Layout.header_within s.queue.capacity (by decide : Layout.writeIndexAt + 8 ≤ 64))
  refine ⟨s.queue.region.word s.memory Layout.writeIndexAt, _, ?_,
    upholds.kept leaves ((congrArg Cells.readIndex changed).trans rfl)
      ((congrArg Cells.slots changed).trans rfl), ?_, upholds.port⟩
  · rw [perform, Queue.produce, Queue.answer_ok (bind_ok added)]
  · exact (congrArg (fun c => (Cells.doorbell c + 1).toNat) changed).trans upholds.doorbell

theorem Upholds.stored {e : Entry} {index : UInt64} {record : Record} {m : Memory}
    (upholds : s.Upholds h) (stored : e.stored? = some (index, record))
    (changed : s.queue.region.cells m =
      (s.queue.region.cells s.memory).place (s.queue.slot index) record.staged)
    (leaves : s.queue.footprint.Leaves s.memory m) (above : s.queue.tail ≤ index)
    (inside : index.toNat < s.read + s.queue.capacity) (narrow : index.toNat + 1 < UInt64.size) :
    Upholds { s with
      queue := { s.queue with
        staged := s.queue.staged.setIfInBounds (s.queue.slot index) (some index) }
      memory := m } (e :: h) := by
  have written (j : Nat) := History.written_some (h := h) stored j
  have within : s.queue.slot index < s.queue.staged.size := by
    rw [upholds.room]
    exact Nat.mod_lt _ upholds.laid.positive
  generalize after : ({ s.queue with
    staged := s.queue.staged.setIfInBounds (s.queue.slot index) (some index) } : Queue) = q
  have staged (k : Nat) : q.stagedAt k =
      if k = s.queue.slot index then some index else s.queue.stagedAt k := by
    rw [← after]
    exact s.queue.stagedAt_set _ s.queue.tail k within
  have region : q.region = s.queue.region := by rw [← after]
  have capacity : q.capacity = s.queue.capacity := by rw [← after]
  have tail : q.tail = s.queue.tail := by rw [← after]
  have read : Ring.read { s with queue := q, memory := m } = s.read := by
    rw [Ring.read, Ring.read, region]
    exact (congrArg (fun c => (Cells.readIndex c).toNat) changed).trans rfl
  have own : Ring.cell { s with queue := q, memory := m } (s.queue.slot index) = record.staged := by
    rw [cell, region, changed, Cells.place_slot]
  have other (k : Nat) (different : k ≠ s.queue.slot index) :
      Ring.cell { s with queue := q, memory := m } k = s.cell k := by
    rw [cell, cell, region, changed, Cells.place_other _ _ different]
  have laid : Laid { s with queue := q, memory := m } := by
    refine ⟨by rw [capacity]; exact upholds.laid.positive, ?_⟩
    rw [region, capacity]
    exact upholds.laid.carries.of_leaves leaves
  refine ⟨⟨laid, ?room, ?entries, ?waiting, ?packets⟩, ?doorbell, ?port⟩
  case room =>
    rw [capacity, ← after]
    exact Array.size_setIfInBounds.trans upholds.room
  case entries =>
    intro k j entered
    rw [staged] at entered
    rw [read, capacity, tail]
    split at entered
    next here =>
      cases entered
      exact ⟨here, above, inside, narrow⟩
    · exact upholds.entries k j entered
  case waiting =>
    intro k j entered low
    rw [staged] at entered
    rw [read] at low
    rw [written]
    split at entered
    next here =>
      cases entered
      exact ⟨record, if_pos rfl, here ▸ own⟩
    next different =>
      have place := (upholds.entries k j entered).1
      have elsewhere : j.toNat ≠ index.toNat := fun same => different (by rw [place, same]; rfl)
      rw [if_neg elsewhere, other k different]
      exact upholds.waiting k j entered low
  case packets =>
    intro j low high
    rw [read] at low ⊢
    rw [tail] at high
    rw [UInt64.le_iff_toNat_le] at above
    obtain ⟨below, held⟩ := upholds.packets j low high
    have different : j % s.queue.capacity ≠ s.queue.slot index := by
      intro same
      have equal := slot_unique ⟨low, below⟩ ⟨by omega, inside⟩ same
      omega
    rw [capacity, written, if_neg (by omega), other _ different]
    exact ⟨below, held⟩
  case doorbell =>
    rw [tail, ← upholds.doorbell, Ring.published, Ring.published, region]
    exact (congrArg (fun c => (Cells.doorbell c + 1).toNat) changed).trans rfl
  case port =>
    rw [Queue.port, region, capacity]
    exact upholds.port

theorem Upholds.write {a : Production} {index : UInt64} {record : Record} (upholds : s.Upholds h)
    (stores : Act.stores? (.produce a) = some (index, record))
    (does : s.queue.produce a s.memory =
      Queue.answer .packet (fun q => q.writeRecord index record) s.queue s.memory) :
    (s.perform (.produce a)).2.Upholds (⟨.produce a, (s.perform (.produce a)).1⟩ :: h) := by
  have carries := upholds.laid.carries
  cases refused : (s.queue.counters s.memory).refusal s.queue.capacity index with
  | some failure =>
    rw [perform, does, Queue.answer_error (Queue.writeRecord_refused carries index record refused)]
    exact upholds.congr (History.written_none rfl)
  | none =>
    obtain ⟨m, done, changed, leaves⟩ :=
      Queue.writeRecord_stores carries upholds.laid.positive index record refused
    obtain ⟨reserved, above, inside⟩ := Log.accepted refused
    rw [perform, does, Queue.answer_ok done]
    refine upholds.stored (stores : Entry.stored? ⟨.produce a, .packet _⟩ = _) changed leaves ?_
      inside ?_
    · exact UInt64.le_iff_toNat_le.mpr above
    · exact (reserved_narrow (s := s) (UInt64.lt_iff_toNat_lt.mp reserved)).1

theorem Upholds.dispatch (upholds : s.Upholds h) (index : UInt64) :
    (s.perform (.produce (.dispatch index))).2.Upholds
      (⟨.produce (.dispatch index), (s.perform (.produce (.dispatch index))).1⟩ :: h) := by
  have same := History.written_none (h := h) (Entry.stored_quiet
    (rfl : Act.stores? (.produce (.dispatch index)) = none)
    (s.perform (.produce (.dispatch index))).1)
  refine Upholds.congr ?_ same
  by_cases reserved : index.toNat < s.write
  · rw [upholds.laid.perform_dispatch reserved]
    have fits := (reserved_narrow reserved).2
    have bears := upholds.publish (index.toNat + 1 - s.queue.tail.toNat)
    have publishes := upholds.laid.publishes fits
    have region := congrArg (fun r => r.queue.region) publishes.rest
    have port : (s.publish (index.toNat + 1 - s.queue.tail.toNat)).port =
        (s.publish (index.toNat + 1 - s.queue.tail.toNat)).queue.port := by
      rw [publishes.rest]
      exact upholds.port
    refine ⟨bears, ?_, port⟩
    unfold Ring.publish
    split
    · exact upholds.doorbell
    -- The doorbell was written last, and is one less than the tail.
    · have after := (upholds.laid.iterate
        (ready (index.toNat + 1 - s.queue.tail.toNat) s)).carries.cells_header Layout.doorbellAt
        ((Ring.advance^[ready (index.toNat + 1 - s.queue.tail.toNat) s] s).queue.tail - 1)
        (by decide) (by decide)
      refine (congrArg (fun c => (Cells.doorbell c + 1).toNat) after).trans ?_
      exact congrArg UInt64.toNat (UInt64.sub_add_cancel _ _)
  · rw [upholds.laid.perform_refused (Nat.not_lt.mp reserved)]
    exact upholds

theorem Upholds.finished {m : Memory} {index : UInt64} (upholds : s.Upholds h)
    (current : index.toNat = s.read) (leaves : s.queue.footprint.Leaves s.memory m)
    (slots : (s.queue.region.cells m).slots = Function.update (s.queue.region.cells s.memory).slots
      (index.toNat % s.queue.capacity) (s.cell (index.toNat % s.queue.capacity)).finished)
    (doorbell : (s.queue.region.cells m).doorbell = (s.queue.region.cells s.memory).doorbell)
    (further : s.read ≤ (s.queue.region.cells m).readIndex.toNat)
    (passed : ∀ j, j + 1 < UInt64.size → (s.queue.region.cells m).readIndex.toNat ≤ j →
      s.read < j) : Upholds { s with memory := m } h := by
  have tail := s.queue.tail.toNat_lt
  have other (j : Nat) (above : s.read < j) (below : j < s.read + s.queue.capacity) :
      Ring.cell { s with memory := m } (j % s.queue.capacity) =
        s.cell (j % s.queue.capacity) := by
    refine (congrFun slots _).trans (Function.update_of_ne (fun same => ?_) _ _)
    have equal := slot_unique ⟨Nat.le_of_lt above, below⟩ ⟨Nat.le_of_eq current.symm, by omega⟩ same
    omega
  refine ⟨⟨⟨upholds.laid.positive, upholds.laid.carries.of_leaves leaves⟩, upholds.room, ?entries,
    ?waiting, ?packets⟩, ?doorbell, upholds.port⟩
  case entries =>
    intro k j entered
    obtain ⟨place, above, below, narrow⟩ := upholds.entries k j entered
    exact ⟨place, above, Nat.lt_of_lt_of_le below (Nat.add_le_add_right further _), narrow⟩
  case waiting =>
    intro k j entered low
    obtain ⟨place, _, below, narrow⟩ := upholds.entries k j entered
    have above := passed _ narrow low
    rw [place, other _ above below, ← place]
    exact upholds.waiting k j entered (Nat.le_of_lt above)
  case packets =>
    intro j low high
    have above := passed j (by simp only [UInt64.size]; simp only at high; omega) low
    obtain ⟨below, held⟩ := upholds.packets j (Nat.le_of_lt above) high
    rw [other j above below]
    exact ⟨Nat.lt_of_lt_of_le below (Nat.add_le_add_right further _), held⟩
  case doorbell =>
    exact (congrArg (fun w => UInt64.toNat (w + 1)) doorbell).trans upholds.doorbell

theorem Upholds.retire (upholds : s.Upholds h) (index : UInt64) :
    (s.perform (.retire index)).2.Upholds h := by
  have carries := upholds.laid.carries
  have positive := upholds.laid.positive
  by_cases current : (s.queue.region.cells s.memory).readIndex = index
  · have number : index.toNat = s.read := by rw [← current, Ring.read]
    by_cases narrow : index.toNat + 1 < UInt64.size
    · obtain ⟨m, done, changed, leaves⟩ := Queue.retire_moves carries positive current narrow
      have read : (s.queue.region.cells m).readIndex.toNat = s.read + 1 := by
        rw [changed, ← number]
        exact UInt64.toNat_ofNat_of_lt' narrow
      rw [← upholds.port] at done
      rw [perform, consume_ok done]
      exact upholds.finished number leaves ((congrArg Cells.slots changed).trans rfl)
        ((congrArg Cells.doorbell changed).trans rfl) (by omega) fun j _ low => by omega
    · obtain ⟨m, done, changed, leaves⟩ := Queue.retire_turns carries positive current
      have read : (s.queue.region.cells m).readIndex.toNat = s.read :=
        (congrArg (fun c => (Cells.readIndex c).toNat) changed).trans rfl
      rw [addWord_overflow (Nat.not_lt.mp narrow), ← upholds.port] at done
      rw [perform, consume_error (done.trans rfl)]
      exact upholds.finished number leaves ((congrArg Cells.slots changed).trans rfl)
        ((congrArg Cells.doorbell changed).trans rfl) (by omega) fun j word low => by omega
  · have failed : s.port.retire index s.memory = .error (.error (.invalidState
        (.retireOutOfOrder index (s.queue.region.cells s.memory).readIndex))) s.memory := by
      rw [upholds.port]
      apply (bind_ok carries.readIndex_ok).trans
      rw [if_pos current]
      rfl
    rw [perform, consume_error failed]
    exact upholds

theorem Upholds.perform (upholds : s.Upholds h) (a : Act) :
    (s.perform a).2.Upholds (⟨a, (s.perform a).1⟩ :: h) := by
  have quiet (none : a.stores? = none) :
      History.written (⟨a, (s.perform a).1⟩ :: h) = h.written :=
    History.written_none (Entry.stored_quiet none _)
  cases a with
  | produce a =>
    cases a with
    | reserve count =>
      obtain ⟨first, m, done, upholds'⟩ := upholds.reserve count
      refine Upholds.congr ?_ (quiet rfl)
      rw [done]
      exact upholds'
    | write index record => exact upholds.write rfl rfl
    | writePacket index command => exact upholds.write rfl rfl
    | dispatch index => exact upholds.dispatch index
  | fetch index =>
    refine Upholds.congr ?_ (quiet rfl)
    have done := Queue.fetch_cells upholds.laid.carries upholds.laid.positive index
    rw [← upholds.port] at done
    rw [Ring.perform, consume_ok done]
    exact upholds
  | retire index => exact (upholds.retire index).congr (quiet rfl)

theorem Opened.upholds (opened : start.Opened) : start.Upholds [] := by
  have tracks := opened.tracks
  have shows := tracks.shows
  refine ⟨⟨⟨shows.capacity_pos, shows.carries⟩, shows.room, ?entries, ?waiting, ?packets⟩,
    shows.doorbell.trans shows.tail.symm, tracks.port⟩
  case entries =>
    intro slot j entered
    cases (tracks.staged_entry entered).2.2.2
  case waiting =>
    intro slot j entered
    cases (tracks.staged_entry entered).2.2.2
  case packets =>
    intro j _ below
    rw [shows.tail] at below
    exact absurd below (Nat.not_lt_zero j)

theorem Led.upholds (opened : start.Opened) (led : Led start h s) : s.Upholds h := by
  induction led with
  | start => exact opened.upholds
  | next a _ ih => exact ih.perform a

theorem Orderly.led (orderly : Orderly start h s) : Led start h s := by
  induction orderly with
  | start => exact .start
  | next a _ _ ih => exact ih.next a

variable {index : UInt64} {last : Record}

theorem Upholds.isComplete (upholds : s.Upholds h) (written : h.written index.toNat = some last) :
    s.queue.isComplete index s.memory = .ok (decide (index.toNat < s.read) ||
      decide (index.toNat < s.published) && last.signal == signalDone) s.memory := by
  rw [Queue.isComplete_cells upholds.laid.carries upholds.laid.positive]
  simp only [UInt64.lt_iff_toNat_lt]
  change EStateM.Result.ok (decide (index.toNat < s.read) || decide (index.toNat < s.published) &&
    (s.cell (index.toNat % s.queue.capacity)).signal == signalDone) s.memory = _
  by_cases retired : index.toNat < s.read
  · simp only [retired, decide_true, Bool.true_or]
  by_cases published : index.toNat < s.published
  · obtain ⟨_, record, held, slot⟩ :=
      upholds.packets index.toNat (Nat.not_lt.mp retired) (upholds.doorbell ▸ published)
    obtain rfl := Option.some.inj (held.symm.trans written)
    simp only [slot, Record.activated]
  · simp only [published, decide_false, Bool.false_and]

def Pends (start : Ring) (h : History) (index : UInt64) (s : Ring) : Prop :=
  ∃ later last, Led start (later ++ h) s ∧
    History.written (later ++ h) index.toNat = some last ∧ last.signal ≠ signalDone

theorem Pends.perform (pends : Pends start h index s) {a : Act} (quiet : a.stores? = none) :
    Pends start h index (s.perform a).2 := by
  obtain ⟨later, last, led, written, pending⟩ := pends
  refine ⟨⟨a, _⟩ :: later, last, led.next a, ?_, pending⟩
  rw [List.cons_append, History.written_none (Entry.stored_quiet quiet _)]
  exact written

theorem Pends.isComplete (opened : start.Opened) (pends : Pends start h index s) :
    s.queue.isComplete index s.memory = .ok (decide (index.toNat < s.read)) s.memory := by
  obtain ⟨later, last, led, written, pending⟩ := pends
  rw [(led.upholds opened).isComplete written, beq_eq_false_iff_ne.mpr pending, Bool.and_false,
    Bool.or_false]

theorem Pends.ask (opened : start.Opened) (h : History) (index : UInt64) :
    Leads (Pends start h index) (fun held s => held = true → index.toNat < s.read)
      (handle.ask fun q => q.isComplete index) := by
  intro s pends
  rw [ask_ok (pends.isComplete opened)]
  exact ⟨pends, of_decide_eq_true⟩

theorem Pends.dispatch (start : Ring) (h : History) (index bound : UInt64) :
    Leads (Pends start h index) (fun _ _ => True) (handle.dispatch bound) := by
  have publishes : Leads (Pends start h index) (fun _ _ => True)
      (handle.use fun q => q.publish bound) :=
    use_produce (.dispatch bound) .published rfl fun _ pends => pends.perform rfl
  exact leads_bind publishes fun _ _ pends _ => ⟨pends, trivial⟩

-- What becomes of a packet after a write, by the last record that was accepted for it.
structure Signalling (start : Ring) (h : History) (s : Ring) (packet : PacketRef)
    (last : Record) : Prop where
  complete : s.queue.isComplete packet.index s.memory =
    .ok (decide (packet.index.toNat < s.read) ||
      decide (packet.index.toNat < s.published) && last.signal == signalDone) s.memory
  -- A signal that is done is taken for that of the consumer.
  early : last.signal = signalDone → packet.index.toNat < s.published → ∀ policy seen,
    handle.wait packet policy seen s = .ok () s
  -- Any other record keeps its packet open, and its waits.
  pending : last.signal ≠ signalDone → s.read ≤ packet.index.toNat →
    s.queue.isComplete packet.index s.memory = .ok false s.memory
  waits : last.signal ≠ signalDone → ∀ policy seen,
    (∀ tick ∈ seen policy, ∀ pause r, Pends start h packet.index r →
      Pends start h packet.index (tick.evolve pause r)) →
    (∀ r, handle.wait packet policy seen s = .ok () r → packet.index.toNat < r.read) ∧
    ∀ bound r, handle.dispatchAndWait bound packet policy seen s = .ok () r →
      packet.index.toNat < r.read
  -- No record is found before its publication.
  unseen : Orderly start h s → s.published ≤ packet.index.toNat →
    s.perform (.fetch packet.index) = (.found none, s)

theorem written_signalling {packet : PacketRef} (opened : start.Opened) (led : Led start h s)
    (written : h.written packet.index.toNat = some last) : start.Signalling h s packet last := by
  have complete := (led.upholds opened).isComplete written
  constructor
  case complete => exact complete
  case early =>
    intro done published policy seen
    rw [done, decide_eq_true published, beq_self_eq_true, Bool.and_true, Bool.or_true] at complete
    exact (bind_ok (policy.go_done 1 1000 (ask_ok complete))).trans rfl
  case pending =>
    intro pending low
    rw [complete, beq_eq_false_iff_ne.mpr pending, decide_eq_false (Nat.not_lt.mpr low),
      Bool.and_false, Bool.or_false]
  case waits =>
    intro pending policy seen others
    have pends : Pends start h packet.index s := ⟨[], last, led, written, pending⟩
    have asks := Pends.ask opened h packet.index
    refine ⟨fun r done => ?_, fun bound r done => ?_⟩
    · have ends := QueueHandle.wait_leads packet policy asks others s pends
      rw [done] at ends
      exact ends.2
    · have ends := QueueHandle.dispatchAndWait_leads bound packet policy
        (Pends.dispatch start h packet.index bound) asks others s pends
      rw [done] at ends
      exact ends.2
  case unseen =>
    intro orderly waiting
    obtain ⟨tracks, _⟩ := orderly.tracks opened
    obtain ⟨_, published, _⟩ := tracks.counters
    have ordered := tracks.shows.sound.ordered
    rw [published] at waiting
    have inside := tracks.shows.sound.room packet.index.toNat (by
      rw [tracks.written, written]
      rfl)
    have done : s.queue.port.fetch packet.index s.memory = _ :=
      tracks.shows.fetch_ok ⟨by omega, inside⟩
    rw [Log.fetch, if_neg (Nat.not_lt.mpr waiting), ← tracks.port] at done
    rw [Ring.perform]
    exact consume_ok done

theorem Pends.serve (pends : Pends start h index s) : Pends start h index s.serve := by
  have fetched := pends.perform
    (a := .fetch (s.queue.region.cells s.memory).readIndex) rfl
  simp only [Ring.serve]
  split
  next record after found =>
    rw [found] at fetched
    exact fetched.perform rfl
  next reply after _ found =>
    rw [found] at fetched
    exact fetched

-- Another producer publishes the packet, and the consumer serves it and the one before.
def publishedThenServed : Observation Ring := fun _ =>
  [{ evolve := fun _ s => (s.perform (.produce (.dispatch 2))).2 },
    { evolve := fun _ s => s.serve }, { evolve := fun _ s => s.serve }]

theorem publishedThenServed_pends (policy : WaitPolicy) : ∀ tick ∈ publishedThenServed policy,
    ∀ pause r, Pends start h index r → Pends start h index (tick.evolve pause r) := by
  intro tick member pause r pends
  simp only [publishedThenServed, List.mem_cons, List.not_mem_nil, or_false, or_self] at member
  obtain rfl | rfl := member
  · exact pends.perform rfl
  · exact pends.serve

-- A wait for a packet that is written, but neither published nor visible.
theorem written_signalling_sample : ∃ h s r, sample.Opened ∧ Led sample h s ∧
    h.written 2 = some (Command.deviceInit 3).encode ∧
    sample.Signalling h s ⟨2, 0⟩ (Command.deviceInit 3).encode ∧
    s.perform (.fetch 2) = (.found none, s) ∧
    handle.wait ⟨2, 0⟩ .indefinite publishedThenServed s = .ok () r ∧ 2 < r.read := by
  have two := sample_capacity
  have opened := sample_opened
  obtain ⟨_, run⟩ := sample_run
  obtain ⟨s, run0, _, _, rfl⟩ := run.last
  have second := serve_eq opened run 1 (Command.encode (.deviceInit 2)).activated
    (by rw [two]; decide) (by rw [two]; decide)
  have third := serve_eq opened second 2 (Command.encode (.deviceInit 3)).activated
    (by rw [two]; decide) (by rw [two]; decide)
  have written : History.written sampleHistory.tail (2 : UInt64).toNat =
      some (Command.deviceInit 3).encode := by decide
  have orderly := run0.orderly opened
  have signalling : sample.Signalling _ s ⟨2, 0⟩ _ :=
    written_signalling opened orderly.led written
  obtain ⟨tracks, capacity, _⟩ := orderly.tracks opened
  have published : s.published = 2 := by
    obtain ⟨_, published, _⟩ := tracks.counters
    rw [published, capacity, two]
    decide
  have waited : handle.wait ⟨2, 0⟩ .indefinite publishedThenServed s =
      .ok () (s.perform (.produce (.dispatch 2))).2.serve.serve := by
    refine (bind_ok (a := 4) ?_).trans rfl
    apply (WaitPolicy.go_again _ _ _ (run0.polled opened (by decide) 2)).trans
    apply (WaitPolicy.go_again _ _ _ (run.polled opened (by decide) 2)).trans
    apply (WaitPolicy.go_again _ _ _ (second.polled opened (by decide) 2)).trans
    exact WaitPolicy.go_done _ _ _ (third.polled opened (by decide) 2)
  exact ⟨_, s, _, opened, orderly.led, written, signalling,
    signalling.unseen orderly (by rw [published]; decide), waited,
    (signalling.waits (by decide) .indefinite _ (publishedThenServed_pends _)).1 _ waited⟩

-- A record that brings the signal of a finished packet: a wait ends before any consumer came.
theorem written_signalling_early : ∃ h s, Run sample h s ∧
    h.written 0 = some { kind := 0x7777 } ∧ s.read = 0 ∧ h.retired = 0 ∧
    s.queue.isComplete 0 s.memory = .ok true s.memory ∧
    handle.wait ⟨0, 0⟩ .indefinite (fun _ => []) s = .ok () s := by
  have two := sample_capacity
  have opened := sample_opened
  obtain ⟨_, reserved⟩ := Run.start.produce opened (.reserve 1) (.index 0) (by rw [two]; decide)
  obtain ⟨_, first⟩ := reserved.produce opened (.write 0 { kind := 0x7777 }) (.packet ⟨0, 0⟩)
    (by rw [two]; decide)
  obtain ⟨s, run⟩ := first.produce opened (.dispatch 0) (.published 1) (by rw [two]; decide)
  obtain ⟨tracks, capacity, _⟩ := run.tracks opened
  obtain ⟨read, published, _⟩ := tracks.counters
  rw [capacity, two] at read published
  have none : s.read = 0 := by rw [read]; decide
  have one : s.published = 1 := by rw [published]; decide
  have complete := ((run.orderly opened).led.upholds opened).isComplete
    (show History.written _ (0 : UInt64).toNat = some { kind := 0x7777 } by decide)
  rw [none, one] at complete
  exact ⟨_, s, run, by decide, none, by decide, complete,
    (bind_ok (WaitPolicy.go_done _ 1 1000 (ask_ok complete))).trans rfl⟩

end Ring

end FabricQueue
