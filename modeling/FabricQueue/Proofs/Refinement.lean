import FabricQueue.Proofs.Log
import FabricQueue.Proofs.Slots
import Mathlib.Data.Nat.ModEq

set_option autoImplicit false

namespace FabricQueue

theorem Layout.supports_bounds {capacity : Nat} (supported : supports capacity) :
    2 ≤ capacity ∧ capacity ≤ 65536 := by
  simp only [supports, Bool.and_eq_true, decide_eq_true_eq] at supported
  exact supported.1

namespace Log

def Holds (l : Log) (j : Nat) (record : Record) : Prop :=
  match l.written j with
  | some written => record = if j < l.published then written.activated else written.staged
  | none => record.header = Header.pending

def stagedEntry (l : Log) (j : Nat) : Option UInt64 :=
  if l.published ≤ j ∧ (l.written j).isSome then some (UInt64.ofNat j) else none

variable {l : Log} {capacity j : Nat} {record : Record}

-- The window is as long as the ring, so no two of its indices share a slot.
theorem window_unique {i : Nat} (first : l.Window capacity i) (second : l.Window capacity j)
    (same : i % capacity = j % capacity) : i = j := by
  obtain ⟨a, rfl⟩ := Nat.exists_eq_add_of_le first.1
  obtain ⟨b, rfl⟩ := Nat.exists_eq_add_of_le second.1
  have offsets : a % capacity = b % capacity := Nat.ModEq.add_left_cancel' l.retired same
  rw [Nat.mod_eq_of_lt (by have := first.2; omega), Nat.mod_eq_of_lt (by have := second.2; omega)]
    at offsets
  rw [offsets]

theorem window_slot (l : Log) {slot : Nat} (below : slot < capacity) :
    ∃ j, l.Window capacity j ∧ j % capacity = slot := by
  refine ⟨l.retired + (slot + (capacity - l.retired % capacity)) % capacity, ⟨by omega, ?_⟩, ?_⟩
  · have offset := Nat.mod_lt (slot + (capacity - l.retired % capacity)) (by omega : 0 < capacity)
    omega
  · have part := Nat.mod_lt l.retired (by omega : 0 < capacity)
    have whole : l.retired % capacity + (slot + (capacity - l.retired % capacity)) =
        slot + capacity := by omega
    rw [Nat.add_mod, Nat.mod_mod, ← Nat.add_mod, ← Nat.mod_add_mod, whole, Nat.add_mod_right,
      Nat.mod_eq_of_lt below]

theorem holds_congr {l' : Log} (written : l'.written j = l.written j)
    (bound : j < l'.published ↔ j < l.published) :
    (∀ r, l.Holds j r → l'.Holds j r) ∧ l'.stagedEntry j = l.stagedEntry j := by
  have above : l'.published ≤ j ↔ l.published ≤ j := by omega
  simp only [Holds, stagedEntry, written, bound, above]
  exact ⟨fun r holds => holds, trivial⟩

theorem holds_isActive (sound : l.Sound capacity) (holds : l.Holds j record) :
    record.isActive = decide (j < l.published) := by
  unfold Holds at holds
  by_cases published : j < l.published
  · obtain ⟨written, found⟩ := Option.isSome_iff_exists.mp (sound.covered j published)
    simp only [found, if_pos published] at holds
    simp [holds, published, Record.activated, Record.isActive]
  · split at holds
    · simp [holds, published, Record.staged, Record.isActive]
    · simp [holds, published, Record.isActive]

end Log

namespace Queue

def footprint (q : Queue) : Region :=
  q.region.footprint q.capacity

structure Stages (q : Queue) (m : Memory) (l : Log) : Prop where
  supported : Layout.supports q.capacity
  carries : q.region.Carries q.capacity m
  room : q.staged.size = q.capacity
  sound : l.Sound q.capacity
  size : (q.region.cells m).size = UInt64.ofNat q.capacity
  readIndex : (q.region.cells m).readIndex.toNat = l.retired
  writeIndex : (q.region.cells m).writeIndex = l.writeIndex
  tail : q.tail.toNat = l.published
  slots : ∀ j, l.Window q.capacity j → l.Holds j ((q.region.cells m).slots (j % q.capacity))
  staged : ∀ j, l.Window q.capacity j → q.stagedAt (j % q.capacity) = l.stagedEntry j

structure Shows (q : Queue) (m : Memory) (l : Log) : Prop extends Stages q m l where
  doorbell : ((q.region.cells m).doorbell + 1).toNat = l.published

variable {q : Queue} {m : Memory} {l : Log}

theorem Stages.capacity_pos (stages : q.Stages m l) : 0 < q.capacity := by
  have bounds := Layout.supports_bounds stages.supported
  omega

theorem Stages.slot_lt (stages : q.Stages m l) (j : Nat) : j % q.capacity < q.capacity :=
  Nat.mod_lt j stages.capacity_pos

theorem stagedAt_set (q : Queue) {slot : Nat} (entry : Option UInt64) (tail : UInt64) (other : Nat)
    (inside : slot < q.staged.size) :
    stagedAt { q with staged := q.staged.setIfInBounds slot entry, tail } other =
      if other = slot then entry else q.stagedAt other := by
  by_cases same : other = slot
  · subst same
    simp [stagedAt, inside]
  · have apart : slot ≠ other := fun eq => same eq.symm
    simp [stagedAt, same, apart]

theorem Stages.replace {m' : Memory} {l' : Log} {i : Nat} {record : Record}
    {entry : Option UInt64} (tail : UInt64) (stages : q.Stages m l) (window : l.Window q.capacity i)
    (changed : q.region.cells m' = (q.region.cells m).place (i % q.capacity) record)
    (leaves : q.footprint.Leaves m m') (sound : l'.Sound q.capacity)
    (retired : l'.retired = l.retired) (writeIndex : l'.writeIndex = l.writeIndex)
    (tailed : tail.toNat = l'.published) (holds : l'.Holds i record)
    (entered : l'.stagedEntry i = entry)
    (others : ∀ j ≠ i,
      (∀ r, l.Holds j r → l'.Holds j r) ∧ l'.stagedEntry j = l.stagedEntry j) :
    Stages { q with staged := q.staged.setIfInBounds (i % q.capacity) entry, tail } m' l' := by
  have inside : i % q.capacity < q.staged.size := stages.room ▸ stages.slot_lt i
  have apart (j : Nat) (other : l.Window q.capacity j) (different : j ≠ i) :
      j % q.capacity ≠ i % q.capacity :=
    fun same => different (Log.window_unique other window same)
  have windows (j : Nat) (other : l'.Window q.capacity j) : l.Window q.capacity j := by
    simpa only [Log.Window, retired] using other
  exact {
    supported := stages.supported
    carries := stages.carries.of_leaves leaves
    room := by simpa using stages.room
    sound := sound
    size := by simpa only [changed, Cells.place] using stages.size
    readIndex := by simpa only [changed, Cells.place, retired] using stages.readIndex
    writeIndex := by simpa only [changed, Cells.place, writeIndex] using stages.writeIndex
    tail := tailed
    slots j other := by
      simp only [changed, Cells.place]
      by_cases same : j = i
      · rw [same, Function.update_self]; exact holds
      · rw [Function.update_of_ne (apart j (windows j other) same)]
        exact (others j same).1 _ (stages.slots j (windows j other))
    staged j other := by
      simp only [stagedAt_set q entry tail _ inside]
      by_cases same : j = i
      · rw [same, if_pos rfl, entered]
      · rw [if_neg (apart j (windows j other) same), (others j same).2]
        exact stages.staged j (windows j other) }

theorem Shows.reserve_ok (shows : q.Shows m l) (count : UInt64) :
    ∃ m', q.reserve count m = .ok l.writeIndex m' ∧
      q.Shows m' { l with writeIndex := l.writeIndex + count } ∧ q.footprint.Leaves m m' := by
  have carries := shows.carries
  have fits := carries.header_inside (by decide : Layout.writeIndexAt + 8 ≤ 64)
  have aligned := carries.aligned
  have changed := carries.cells_header Layout.writeIndexAt
    ((q.region.cells m).writeIndex + count) (by decide) (by decide)
  have leaves : q.footprint.Leaves m _ := Region.put_leaves ((q.region.cells m).writeIndex + count)
    (Layout.header_within q.capacity (by decide : Layout.writeIndexAt + 8 ≤ 64))
  refine ⟨_, ?_, ⟨?_, ?_⟩, leaves⟩
  · rw [← shows.writeIndex]
    exact Region.fetchAdd_word count fits (by simp only [Layout.writeIndexAt]; omega)
  · exact { shows with
      carries := carries.of_leaves leaves
      sound := { shows.sound with }
      size := by rw [changed]; exact shows.size
      readIndex := by rw [changed]; exact shows.readIndex
      writeIndex := by rw [changed, shows.writeIndex]; rfl
      slots := by rw [changed]; exact shows.slots }
  · rw [changed]; exact shows.doorbell

theorem Stages.readIndex_eq (stages : q.Stages m l) :
    (q.region.cells m).readIndex = UInt64.ofNat l.retired := by
  rw [← stages.readIndex, UInt64.ofNat_toNat]

def counters (q : Queue) (m : Memory) : Log where
  writeIndex := (q.region.cells m).writeIndex
  published := q.tail.toNat
  retired := (q.region.cells m).readIndex.toNat

theorem writeRecord_refused (carries : q.region.Carries q.capacity m) (index : UInt64)
    (record : Record) {failure : Failure}
    (refused : (q.counters m).refusal q.capacity index = some failure) :
    q.writeRecord index record m = .error failure m := by
  unfold Log.refusal counters at refused
  unfold writeRecord Queue.writeIndex Queue.readIndex
  rw [bind_ok carries.writeIndex_ok]
  by_cases beyond : (q.region.cells m).writeIndex ≤ index
  · rw [if_pos beyond] at refused ⊢
    cases refused
    rfl
  rw [if_neg beyond] at refused ⊢
  apply (bind_ok carries.readIndex_ok).trans
  by_cases wide : UInt64.size ≤ (q.region.cells m).readIndex.toNat + q.capacity
  · rw [if_pos wide] at refused
    cases refused
    rw [addWord_overflow wide]
    rfl
  have fits := Nat.not_le.mp wide
  rw [if_neg wide] at refused
  rw [addWord_ok fits]
  apply (bind_ok rfl).trans
  have limit : UInt64.ofNat ((q.region.cells m).readIndex.toNat + q.capacity) ≤ index ↔
      (q.region.cells m).readIndex.toNat + q.capacity ≤ index.toNat := by
    rw [UInt64.le_iff_toNat_le, UInt64.toNat_ofNat_of_lt' fits]
  by_cases inFlight : (q.region.cells m).readIndex.toNat + q.capacity ≤ index.toNat
  · rw [if_pos inFlight, UInt64.ofNat_toNat] at refused
    cases refused
    rw [if_pos (limit.mpr inFlight)]
    rfl
  rw [if_neg inFlight] at refused
  rw [if_neg (mt limit.mp inFlight)]
  by_cases dispatched : index.toNat < q.tail.toNat
  · rw [if_pos dispatched] at refused
    cases refused
    apply (congrFun (if_pos (UInt64.lt_iff_toNat_lt.mpr dispatched)) m).trans
    rfl
  rw [if_neg dispatched] at refused
  cases refused

theorem writeRecord_goes {m' : Memory} (carries : q.region.Carries q.capacity m) (index : UInt64)
    (record : Record) (accepts : (q.counters m).refusal q.capacity index = none)
    (stored : q.region.writeRecord (q.slot index) record.staged m = .ok () m') :
    q.writeRecord index record m = .ok (⟨index, q.slot index⟩,
      { q with staged := q.staged.setIfInBounds (q.slot index) (some index) }) m' := by
  obtain ⟨reserved, unpublished, inside⟩ := Log.accepted accepts
  have fits : (q.region.cells m).readIndex.toNat + q.capacity < UInt64.size := by
    unfold Log.refusal at accepts
    split_ifs at accepts with _ wide
    exact Nat.not_le.mp wide
  unfold writeRecord Queue.writeIndex Queue.readIndex
  have below : ¬(q.region.cells m).writeIndex ≤ index := UInt64.not_le.mpr reserved
  rw [bind_ok carries.writeIndex_ok, if_neg below]
  apply (bind_ok carries.readIndex_ok).trans
  rw [addWord_ok fits]
  apply (bind_ok rfl).trans
  have limit : ¬UInt64.ofNat ((q.region.cells m).readIndex.toNat + q.capacity) ≤ index := by
    rw [UInt64.le_iff_toNat_le, UInt64.toNat_ofNat_of_lt' fits]
    exact Nat.not_le.mpr inside
  have fresh : ¬index < q.tail := by
    rw [UInt64.lt_iff_toNat_lt]
    exact Nat.not_lt.mpr unpublished
  rw [if_neg limit]
  apply (congrFun (if_neg fresh) m).trans
  exact bind_ok stored

theorem writeRecord_stores (carries : q.region.Carries q.capacity m) (positive : 0 < q.capacity)
    (index : UInt64) (record : Record)
    (accepts : (q.counters m).refusal q.capacity index = none) :
    ∃ m', q.writeRecord index record m = .ok (⟨index, slotOf q.capacity index⟩,
        { q with staged := q.staged.setIfInBounds (q.slot index) (some index) }) m' ∧
      q.region.cells m' = (q.region.cells m).place (index.toNat % q.capacity) record.staged ∧
      q.footprint.Leaves m m' := by
  obtain ⟨m', done, changed, leaves⟩ :=
    carries.writeRecord_ok (Nat.mod_lt index.toNat positive) record.staged
  exact ⟨m', writeRecord_goes carries index record accepts done, changed, leaves⟩

theorem Stages.refusal_eq (stages : q.Stages m l) (index : UInt64) :
    (q.counters m).refusal q.capacity index = l.refusal q.capacity index := by
  simp only [Log.refusal, counters, stages.writeIndex, stages.readIndex, stages.tail]

theorem Shows.writeRecord_refused (shows : q.Shows m l) (index : UInt64) (record : Record)
    {failure : Failure} (refused : l.refusal q.capacity index = some failure) :
    q.writeRecord index record m = .error failure m :=
  Queue.writeRecord_refused shows.carries index record ((shows.refusal_eq index).trans refused)

theorem Shows.writeRecord_accepted (shows : q.Shows m l) (index : UInt64) (record : Record)
    (accepts : l.refusal q.capacity index = none) :
    ∃ q' m', q.writeRecord index record m = .ok (⟨index, slotOf q.capacity index⟩, q') m' ∧
      q'.Shows m' (l.store index.toNat record) ∧ q'.region = q.region ∧
      q'.capacity = q.capacity ∧ q.footprint.Leaves m m' := by
  obtain ⟨_, unpublished, inside⟩ := Log.accepted accepts
  have sound := Log.store_sound record shows.sound accepts
  have ordered := shows.sound.ordered
  have window : l.Window q.capacity index.toNat := ⟨by omega, inside⟩
  obtain ⟨m', done, changed, leaves⟩ := writeRecord_stores shows.carries shows.capacity_pos index
    record ((shows.refusal_eq index).trans accepts)
  refine ⟨_, m', done, ⟨?_, ?_⟩, rfl, rfl, leaves⟩
  · refine shows.replace q.tail window changed leaves sound rfl rfl shows.tail ?_ ?_ ?_
    · simp [Log.Holds, Log.store, Nat.not_lt.mpr unpublished]
    · simp [Log.stagedEntry, Log.store, unpublished]
    · intro j different
      exact Log.holds_congr (Function.update_of_ne different _ _) Iff.rfl
  · rw [changed]; exact shows.doorbell

theorem Stages.tail_eq (stages : q.Stages m l) : q.tail = UInt64.ofNat l.published := by
  rw [← stages.tail, UInt64.ofNat_toNat]

theorem Stages.advance_ok (stages : q.Stages m l) (written : (l.written l.published).isSome) :
    ∃ m', q.region.setHeader (q.slot q.tail) Header.dispatch m = .ok () m' ∧
      Stages { q with staged := q.staged.setIfInBounds (q.slot q.tail) none, tail := q.tail + 1 } m'
        { l with published := l.published + 1 } ∧
      (q.region.cells m').doorbell = (q.region.cells m).doorbell ∧ q.footprint.Leaves m m' := by
  obtain ⟨record, found⟩ := Option.isSome_iff_exists.mp written
  have slot : q.slot q.tail = l.published % q.capacity := by rw [slot, slotOf, stages.tail]
  have window : l.Window q.capacity l.published :=
    ⟨stages.sound.ordered, stages.sound.room _ written⟩
  have waiting : (q.region.cells m).slots (l.published % q.capacity) = record.staged := by
    simpa [Log.Holds, found] using stages.slots _ window
  have sound : Log.Sound { l with published := l.published + 1 } q.capacity := by
    simpa [Log.publishNext, written] using Log.publishNext_sound 1 stages.sound
  obtain ⟨m', done, changed, leaves⟩ :=
    stages.carries.setHeader_ok (stages.slot_lt l.published) Header.dispatch
  rw [slot]
  refine ⟨m', done, ?_, by rw [changed, Cells.place], leaves⟩
  refine stages.replace _ window changed leaves sound rfl rfl ?_ ?_ ?_ ?_
  · have next := stages.sound.word _ written
    exact (toNat_succ (by rw [stages.tail]; exact next)).trans (congrArg (· + 1) stages.tail)
  · rw [waiting]
    simp [Log.Holds, found, Record.staged, Record.activated]
  · simp [Log.stagedEntry]
  · intro j different
    exact Log.holds_congr rfl (by simp only; omega)

theorem Stages.unstaged (stages : q.Stages m l) (missing : ¬(l.written l.published).isSome) :
    q.stagedAt (l.published % q.capacity) = none := by
  have ordered := stages.sound.ordered
  have limit := stages.sound.published_le
  by_cases full : l.published = l.retired + q.capacity
  · have positive := stages.capacity_pos
    rw [full, Nat.add_mod_right, stages.staged _ ⟨Nat.le_refl _, by omega⟩]
    exact if_neg fun entered => by omega
  · rw [stages.staged _ ⟨ordered, by omega⟩]
    exact if_neg fun entered => missing entered.2

theorem Stages.publishNext_ok (count : Nat) (stages : q.Stages m l) :
    ∃ q' m', publishNext count q m = .ok q' m' ∧ q'.Stages m' (l.publishNext count) ∧
      (q.region.cells m').doorbell = (q.region.cells m).doorbell ∧ q'.region = q.region ∧
      q'.capacity = q.capacity ∧ q.footprint.Leaves m m' := by
  induction count generalizing q m l with
  | zero => exact ⟨q, m, rfl, stages, rfl, rfl, rfl, Region.Leaves.refl _ _⟩
  | succ count ih =>
    have slot : q.slot q.tail = l.published % q.capacity := by rw [slot, slotOf, stages.tail]
    by_cases written : (l.written l.published).isSome
    · have window : l.Window q.capacity l.published :=
        ⟨stages.sound.ordered, stages.sound.room _ written⟩
      have entry : q.stagedAt (q.slot q.tail) = some q.tail := by
        rw [slot, stages.staged _ window, stages.tail_eq]
        simp [Log.stagedEntry, written]
      obtain ⟨m₁, turned, stages₁, kept, leaves⟩ := stages.advance_ok written
      obtain ⟨q', m', done, stages', kept', region, capacity, leaves'⟩ := ih stages₁
      refine ⟨q', m', ?_, ?_, kept'.trans kept, region, capacity, leaves.trans leaves'⟩
      · unfold publishNext
        rw [if_pos entry]
        exact (bind_ok turned).trans done
      · rw [Log.publishNext, if_pos written]; exact stages'
    · refine ⟨q, m, ?_, ?_, rfl, rfl, rfl, Region.Leaves.refl _ _⟩
      · have entry : q.stagedAt (q.slot q.tail) ≠ some q.tail := by
          rw [slot, stages.unstaged written]
          exact (Option.some_ne_none _).symm
        unfold publishNext
        rw [if_neg entry]
        rfl
      · rw [Log.publishNext, if_neg written]; exact stages

theorem Shows.publish_refused (shows : q.Shows m l) {index : UInt64}
    (beyond : l.writeIndex ≤ index) : q.publish index m =
      .error (.error (.invalidState (.dispatchBeyond index l.writeIndex))) m := by
  unfold publish Queue.writeIndex
  rw [bind_ok shows.carries.writeIndex_ok, shows.writeIndex, if_pos beyond]
  rfl

theorem Shows.publish_ok (shows : q.Shows m l) {index : UInt64}
    (reserved : ¬l.writeIndex ≤ index) :
    ∃ q' m', q.publish index m = .ok (UInt64.ofNat
        (l.publishNext (index.toNat + 1 - l.published)).published, q') m' ∧
      q'.Shows m' (l.publishNext (index.toNat + 1 - l.published)) ∧ q'.region = q.region ∧
      q'.capacity = q.capacity ∧ q.footprint.Leaves m m' := by
  obtain ⟨q', m₁, moved, stages, kept, region, capacity, leaves⟩ :=
    shows.publishNext_ok (index.toNat + 1 - l.published)
  by_cases same : q'.tail = q.tail
  · refine ⟨q', m₁, ?_, ⟨stages, ?_⟩, region, capacity, leaves⟩
    · unfold publish Queue.writeIndex
      rw [bind_ok shows.carries.writeIndex_ok, shows.writeIndex, if_neg reserved, shows.tail]
      apply (bind_ok moved).trans
      rw [if_neg (not_not.mpr same), stages.tail_eq]
      rfl
    · calc ((q'.region.cells m₁).doorbell + 1).toNat = l.published := by
            rw [region, kept, shows.doorbell]
        _ = q'.tail.toNat := by rw [same, shows.tail]
        _ = _ := stages.tail
  · have carries : q.region.Carries q.capacity m₁ := shows.carries.of_leaves leaves
    obtain ⟨m₂, rung, changed, leaves'⟩ :=
      carries.write_header Layout.doorbellAt (q'.tail - 1) (by decide) (by decide)
    refine ⟨q', m₂, ?_, ⟨?_, ?_⟩, region, capacity, leaves.trans leaves'⟩
    · unfold publish Queue.writeIndex
      rw [bind_ok shows.carries.writeIndex_ok, shows.writeIndex, if_neg reserved, shows.tail]
      apply (bind_ok moved).trans
      rw [if_pos same, stages.tail_eq]
      rw [stages.tail_eq] at rung
      exact bind_ok rung
    · rw [← region] at changed leaves'
      exact { stages with
        carries := stages.carries.of_leaves leaves'
        size := by rw [changed]; exact stages.size
        readIndex := by rw [changed]; exact stages.readIndex
        writeIndex := by rw [changed]; exact stages.writeIndex
        slots := by rw [changed]; exact stages.slots }
    · rw [region, changed, ← stages.tail]
      simp [Cells.setWord]

theorem Stages.hasRoom_ok (stages : q.Stages m l) (index : UInt64) :
    q.hasRoom index m = if l.retired + q.capacity < UInt64.size then
      .ok (decide (index.toNat < l.retired + q.capacity)) m
    else .error (.overflow .addition) m := by
  apply (bind_ok stages.carries.readIndex_ok).trans
  by_cases fits : l.retired + q.capacity < UInt64.size
  · rw [addWord_ok (stages.readIndex ▸ fits), if_pos fits, stages.readIndex]
    apply (bind_ok rfl).trans
    have limit : index < UInt64.ofNat (l.retired + q.capacity) ↔
        index.toNat < l.retired + q.capacity := by
      rw [UInt64.lt_iff_toNat_lt, UInt64.toNat_ofNat_of_lt' fits]
    simp only [limit]
    rfl
  · rw [addWord_overflow (stages.readIndex ▸ Nat.not_lt.mp fits), if_neg fits]
    rfl

def port (q : Queue) : Consumer :=
  ⟨q.region, q.capacity⟩

theorem fetch_cells (carries : q.region.Carries q.capacity m) (positive : 0 < q.capacity)
    (index : UInt64) :
    q.port.fetch index m =
      .ok (if ((q.region.cells m).slots (index.toNat % q.capacity)).isActive then
        some ((q.region.cells m).slots (index.toNat % q.capacity)) else none) m := by
  have below := Nat.mod_lt index.toNat positive
  apply (bind_ok (carries.headerWordOf_ok below)).trans
  by_cases active : ((q.region.cells m).slots (index.toNat % q.capacity)).isActive
  · rw [if_pos active]
    apply (congrFun (if_pos active) m).trans
    exact bind_ok (carries.readRecord_ok below)
  · rw [if_neg active]
    exact congrFun (if_neg active) m

theorem Stages.fetch_cell (stages : q.Stages m l) (index : UInt64) :
    q.port.fetch index m =
      .ok (if ((q.region.cells m).slots (index.toNat % q.capacity)).isActive then
        some ((q.region.cells m).slots (index.toNat % q.capacity)) else none) m :=
  fetch_cells stages.carries stages.capacity_pos index

theorem Stages.fetch_alias (stages : q.Stages m l) {index : UInt64} {j : Nat}
    (window : l.Window q.capacity j) (same : index.toNat % q.capacity = j % q.capacity) :
    q.port.fetch index m =
      .ok (if j < l.published then (l.written j).map Record.activated else none) m := by
  have holds := stages.slots _ window
  rw [stages.fetch_cell, same, Log.holds_isActive stages.sound holds]
  by_cases published : j < l.published
  · obtain ⟨record, found⟩ := Option.isSome_iff_exists.mp (stages.sound.covered _ published)
    simp only [Log.Holds, found, if_pos published] at holds
    simp [published, found, holds]
  · simp [published]

theorem Stages.fetch_ok (stages : q.Stages m l) {index : UInt64}
    (window : l.Window q.capacity index.toNat) :
    q.port.fetch index m = .ok (l.fetch index) m :=
  stages.fetch_alias window rfl

theorem Stages.retire_refused (stages : q.Stages m l) {index : UInt64}
    (other : index.toNat ≠ l.retired) : q.port.retire index m =
      .error (.error (.invalidState (.retireOutOfOrder index (UInt64.ofNat l.retired)))) m := by
  have different : (q.region.cells m).readIndex ≠ index := by
    rintro rfl
    exact other stages.readIndex
  apply (bind_ok stages.carries.readIndex_ok).trans
  rw [if_pos different, stages.readIndex_eq]
  rfl

theorem Shows.of_bytes {m' : Memory} (shows : q.Shows m l) (size : m'.size = m.size)
    (same : ∀ i, q.region.origin ≤ i → i < q.region.origin + Layout.regionSize q.capacity →
      m'.get i = m.get i) : q.Shows m' l := by
  obtain ⟨slots, header⟩ := Region.cells_congr same
  have backed := shows.carries.backed
  exact {
    supported := shows.supported
    carries := ⟨by rw [Region.Backed, size]; exact backed, shows.carries.large,
      shows.carries.aligned⟩
    room := shows.room
    sound := shows.sound
    size := (congrArg Cells.size header).trans shows.size
    readIndex := (congrArg (fun c => c.readIndex.toNat) header).trans shows.readIndex
    writeIndex := (congrArg Cells.writeIndex header).trans shows.writeIndex
    tail := shows.tail
    slots j window := by
      rw [slots _ (shows.slot_lt j)]
      exact shows.slots j window
    staged := shows.staged
    doorbell := (congrArg (fun c => (c.doorbell + 1).toNat) header).trans shows.doorbell }

theorem Shows.shifted {m' : Memory} {record : Record} (shows : q.Shows m l)
    (published : l.retired < l.published) (leaves : q.footprint.Leaves m m')
    (changed : q.region.cells m' =
      ((q.region.cells m).place (l.retired % q.capacity) record).setWord Layout.readIndexAt
        (UInt64.ofNat (l.retired + 1)))
    (pending : record.header = Header.pending) :
    q.Shows m' { l with retired := l.retired + 1 } := by
  have sound : Log.Sound { l with retired := l.retired + 1 } q.capacity := by
    have word := shows.sound.published_word
    have current : (UInt64.ofNat l.retired).toNat = l.retired :=
      UInt64.toNat_ofNat_of_lt' (by omega)
    have retired := Log.retire_sound (UInt64.ofNat l.retired) shows.sound published
    simpa [Log.retire, current] using retired
  have word := shows.sound.published_word
  have positive := shows.capacity_pos
  have oldest : l.Window q.capacity l.retired := ⟨Nat.le_refl _, by omega⟩
  -- Nothing was written beyond the window, so the slot it gains is empty.
  have newest : l.written (l.retired + q.capacity) = none := by
    by_contra written
    have room := shows.sound.room _ (Option.isSome_iff_ne_none.mpr written)
    omega
  have kept (j : Nat) (window : Log.Window { l with retired := l.retired + 1 } q.capacity j)
      (other : j ≠ l.retired + q.capacity) :
      l.Window q.capacity j ∧ j % q.capacity ≠ l.retired % q.capacity := by
    simp only [Log.Window] at window
    have old : l.Window q.capacity j := ⟨by omega, by omega⟩
    refine ⟨old, fun same => ?_⟩
    have equal := Log.window_unique old oldest same
    omega
  refine { shows with
    carries := shows.carries.of_leaves leaves, sound, size := ?size, readIndex := ?readIndex
    writeIndex := ?writeIndex, slots := ?slots, staged := ?staged, doorbell := ?doorbell }
  case size => rw [changed]; exact shows.size
  case readIndex => rw [changed]; exact UInt64.toNat_ofNat_of_lt' (by omega)
  case writeIndex => rw [changed]; exact shows.writeIndex
  case doorbell => rw [changed]; exact shows.doorbell
  case slots =>
    intro j window
    rw [changed]
    simp only [Cells.setWord, Cells.place]
    by_cases last : j = l.retired + q.capacity
    · rw [last, Nat.add_mod_right, Function.update_self]
      simp only [Log.Holds, newest, pending]
    · obtain ⟨old, apart⟩ := kept j window last
      rw [Function.update_of_ne apart]
      exact (Log.holds_congr rfl Iff.rfl).1 _ (shows.slots j old)
  case staged =>
    intro j window
    by_cases last : j = l.retired + q.capacity
    · rw [last, Nat.add_mod_right, shows.staged _ oldest]
      simp [Log.stagedEntry, newest, published]
    · exact shows.staged j (kept j window last).1

section Carried

variable (carries : q.region.Carries q.capacity m) (positive : 0 < q.capacity)
include carries positive

-- A retirement at the read index, whatever the region holds.
theorem retire_turns {index : UInt64} (current : (q.region.cells m).readIndex = index) :
    ∃ m', q.port.retire index m =
        (do
          let next ← lift (addWord index 1)
          q.region.write64 Layout.readIndexAt next) m' ∧
      q.region.cells m' = (q.region.cells m).place (index.toNat % q.capacity)
        { (q.region.cells m).slots (index.toNat % q.capacity) with
          header := Header.pending, signal := signalDone } ∧ q.footprint.Leaves m m' := by
  have below := Nat.mod_lt index.toNat positive
  obtain ⟨m₁, turned, changed₁, leaves₁⟩ := carries.setHeader_ok below Header.pending
  obtain ⟨m₂, signalled, changed₂, leaves₂⟩ :=
    (carries.of_leaves leaves₁).setSignal_ok below signalDone
  refine ⟨m₂, ?_, ?_, leaves₁.trans leaves₂⟩
  · apply (bind_ok carries.readIndex_ok).trans
    rw [if_neg (not_not.mpr current)]
    exact (bind_ok turned).trans (bind_ok signalled)
  · rw [changed₂, changed₁, Cells.place_place, Cells.place_slot]

theorem retire_moves {index : UInt64} (current : (q.region.cells m).readIndex = index)
    (narrow : index.toNat + 1 < UInt64.size) :
    ∃ m', q.port.retire index m = .ok () m' ∧
      q.region.cells m' = ((q.region.cells m).place (index.toNat % q.capacity)
        { (q.region.cells m).slots (index.toNat % q.capacity) with
          header := Header.pending, signal := signalDone }).setWord Layout.readIndexAt
            (UInt64.ofNat (index.toNat + 1)) ∧ q.footprint.Leaves m m' := by
  obtain ⟨m₁, turned, changed₁, leaves₁⟩ := retire_turns carries positive current
  obtain ⟨m₂, moved, changed₂, leaves₂⟩ := (carries.of_leaves leaves₁).write_header
    Layout.readIndexAt (UInt64.ofNat (index.toNat + 1)) (by decide) (by decide)
  refine ⟨m₂, ?_, changed₁ ▸ changed₂, leaves₁.trans leaves₂⟩
  rw [turned, addWord_ok narrow]
  exact (bind_ok rfl).trans moved

theorem isComplete_cells (index : UInt64) : q.isComplete index m =
    .ok (decide (index < (q.region.cells m).readIndex) ||
      decide (index < (q.region.cells m).doorbell + 1) &&
        ((q.region.cells m).slots (index.toNat % q.capacity)).signal == signalDone) m := by
  apply (bind_ok carries.readIndex_ok).trans
  by_cases retired : index < (q.region.cells m).readIndex
  · rw [if_pos retired]
    simp only [retired, decide_true, Bool.true_or]
    rfl
  rw [if_neg retired]
  apply (bind_ok carries.published_ok).trans
  by_cases published : index < (q.region.cells m).doorbell + 1
  · rw [if_neg (UInt64.not_le.mpr published)]
    apply (bind_ok (carries.signalOf_ok (Nat.mod_lt index.toNat positive))).trans
    simp only [retired, published, decide_true, decide_false, Bool.true_and, Bool.false_or]
    rfl
  · rw [if_pos (UInt64.not_lt.mp published)]
    simp only [retired, published, decide_false, Bool.false_and, Bool.false_or]
    rfl

end Carried

theorem Shows.retire_ok (shows : q.Shows m l) {index : UInt64} (current : index.toNat = l.retired)
    (published : l.retired < l.published) :
    ∃ m', q.port.retire index m = .ok () m' ∧ q.Shows m' { l with retired := l.retired + 1 } ∧
      q.footprint.Leaves m m' := by
  have word := shows.sound.published_word
  have read : (q.region.cells m).readIndex = index := by
    rw [shows.readIndex_eq, ← current, UInt64.ofNat_toNat]
  obtain ⟨m', done, changed, leaves⟩ :=
    retire_moves shows.carries shows.capacity_pos read (by omega)
  rw [current] at changed
  exact ⟨m', done, shows.shifted published leaves changed rfl, leaves⟩

theorem Shows.isComplete_ok (shows : q.Shows m l) (index : UInt64) :
    q.isComplete index m = .ok (decide (index.toNat < l.retired) ||
      decide (index.toNat < l.published) &&
        ((q.region.cells m).slots (index.toNat % q.capacity)).signal == signalDone) m := by
  rw [isComplete_cells shows.carries shows.capacity_pos]
  simp only [UInt64.lt_iff_toNat_lt, shows.readIndex, shows.doorbell]

theorem Shows.isComplete_pending (shows : q.Shows m l) (pending : l.Pending) (index : UInt64) :
    q.isComplete index m = .ok (decide (index.toNat < l.retired)) m := by
  have room := shows.sound.published_le
  rw [shows.isComplete_ok]
  by_cases retired : index.toNat < l.retired
  · simp [retired]
  by_cases published : index.toNat < l.published
  · obtain ⟨record, written⟩ :=
      Option.isSome_iff_exists.mp (shows.sound.covered index.toNat published)
    have holds := shows.slots index.toNat ⟨by omega, by omega⟩
    simp only [Log.Holds, written, if_pos published] at holds
    have signal := pending index.toNat record (by omega) published written
    simp [retired, holds, Record.activated, signal]
  · simp [retired, published]

theorem Shows.publish_again (shows : q.Shows m l) {index : UInt64}
    (reserved : ¬l.writeIndex ≤ index) (behind : index.toNat < l.published) :
    q.publish index m = .ok (q.tail, q) m := by
  unfold publish Queue.writeIndex
  rw [bind_ok shows.carries.writeIndex_ok, shows.writeIndex, if_neg reserved, shows.tail,
    Nat.sub_eq_zero_of_le behind]
  apply (bind_ok rfl).trans
  rw [if_neg (not_not.mpr rfl)]
  rfl

end Queue

end FabricQueue
