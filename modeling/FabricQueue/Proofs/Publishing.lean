import FabricQueue.Proofs.Counters
import FabricQueue.Proofs.Freshness
import FabricQueue.Proofs.Places
import Mathlib.Order.Bounds.Basic

set_option autoImplicit false

namespace FabricQueue

theorem ByteStore.write64_twice (s : ByteStore) (start : Nat) (first second : UInt64)
    (fits : start + 8 ≤ s.size) :
    (s.write64 start first).write64 start second = s.write64 start second :=
  write_twice s start (by simp only [bytesOf_length]) (by rwa [bytesOf_length])

theorem ByteStore.write64_comm (s : ByteStore) (start other : Nat) (first second : UInt64)
    (apart : start + 8 ≤ other ∨ other + 8 ≤ start) :
    (s.write64 start first).write64 other second =
      (s.write64 other second).write64 start first :=
  write_comm s _ _ (by simpa only [bytesOf_length] using apart)

theorem toNat_max (a b : UInt64) : (max a b).toNat = max a.toNat b.toNat := by
  change (if a ≤ b then b else a).toNat = _
  split
  next ordered => exact (max_eq_right (UInt64.le_iff_toNat_le.mp ordered)).symm
  next ordered =>
    exact (max_eq_left (Nat.le_of_lt (Nat.not_le.mp (mt UInt64.le_iff_toNat_le.mpr ordered)))).symm

namespace Region

variable {r : Region} {capacity : Nat} {m : Memory}

theorem Carries.setHeader_put (carries : r.Carries capacity m) {slot : Nat}
    (below : slot < capacity) (header : UInt16) :
    r.setHeader slot header m = .ok () (r.put m (Layout.slotOffset slot)
      (withHeader (r.word m (Layout.slotOffset slot)) header)) := by
  have fits := carries.slot_inside below (by decide : 0 < 8)
  have grid := Layout.slotOffset_grid slot
  have aligned := carries.aligned
  apply (bind_ok (read64_word (by omega) (by omega))).trans
  exact write64_word _ (by omega) (by omega)

theorem get_put_apart (w : UInt64) {offset i : Nat}
    (apart : i < r.origin + offset ∨ r.origin + offset + 8 ≤ i) :
    (r.put m offset w).get i = m.get i := by
  rw [put]
  exact ByteStore.get_write64_apart _ _ _ _ apart

theorem size_put (offset : Nat) (w : UInt64) : (r.put m offset w).size = m.size := by
  rw [put]
  exact ByteStore.size_write64 _ _ _

theorem put_doorbell_comm (slot : Nat) (first second : UInt64) :
    r.put (r.put m (Layout.slotOffset slot) first) Layout.doorbellAt second =
      r.put (r.put m Layout.doorbellAt second) (Layout.slotOffset slot) first := by
  simp only [put]
  refine ByteStore.write64_comm _ _ _ _ _ ?_
  simp only [Layout.slotOffset, Layout.headerSize, Layout.doorbellAt]
  omega

end Region

theorem Queue.stagedAt_clear (q : Queue) (slot other : Nat) (tail : UInt64) :
    stagedAt { q with staged := q.staged.setIfInBounds slot none, tail } other =
      if other = slot then none else q.stagedAt other := by
  by_cases inside : slot < q.staged.size
  · exact q.stagedAt_set none tail other inside
  · simp only [stagedAt, Array.setIfInBounds_eq_of_size_le (Nat.not_lt.mp inside)]
    split
    next same => subst same; simp [inside]
    · rfl

-- A dispatch of the index may publish up to this bound: all below it is staged.
def Queue.Publishable (q : Queue) (index : UInt64) (bound : Nat) : Prop :=
  q.tail.toNat ≤ bound ∧ bound ≤ max q.tail.toNat (index.toNat + 1) ∧
    ∀ j, q.tail.toNat ≤ j → j < bound → q.stagedAt (j % q.capacity) = some (UInt64.ofNat j)

def Queue.Turns (q : Queue) (bound offset : Nat) : Prop :=
  (∃ j, q.tail.toNat ≤ j ∧ j < bound ∧ offset = Layout.slotOffset (j % q.capacity)) ∨
    q.tail.toNat < bound ∧ offset = Layout.doorbellAt

namespace Ring

-- A ring and the ring after it published all below a bound.
structure Publishes (s : Ring) (bound : Nat) (s' : Ring) : Prop where
  rest : s' = { s with
    queue := { s.queue with staged := s'.queue.staged, tail := s'.queue.tail }
    memory := s'.memory }
  tail : s'.queue.tail.toNat = bound
  room : s'.queue.staged.size = s.queue.staged.size
  cleared : ∀ j, s.queue.tail.toNat ≤ j → j < bound →
    s'.queue.stagedAt (j % s.queue.capacity) = none
  kept : ∀ slot, (∀ j, s.queue.tail.toNat ≤ j → j < bound → j % s.queue.capacity ≠ slot) →
    s'.queue.stagedAt slot = s.queue.stagedAt slot
  slots : ∀ j, s.queue.tail.toNat ≤ j → j < bound →
    (s.queue.region.cells s'.memory).slots (j % s.queue.capacity) =
      { (s.queue.region.cells s.memory).slots (j % s.queue.capacity) with
        header := Header.dispatch }
  doorbell : s.queue.tail.toNat < bound →
    (s.queue.region.cells s'.memory).doorbell = UInt64.ofNat (bound - 1)
  size : s'.memory.size = s.memory.size
  bytes : ∀ i, (∀ offset, s.queue.Turns bound offset →
      i < s.queue.region.origin + offset ∨ s.queue.region.origin + offset + 8 ≤ i) →
    s'.memory.get i = s.memory.get i

-- The states to which calls lead, whatever the consumer does.
inductive Reached (start : Ring) : Ring → Prop where
  | start : Reached start start
  | call {s : Ring} (c : Call) : Reached start s → Reached start (s.call c).2

structure Laid (s : Ring) : Prop where
  positive : 0 < s.queue.capacity
  carries : s.queue.region.Carries s.queue.capacity s.memory

variable {start s : Ring}

theorem Opened.twins (opened : start.Opened) :
    Twins start.queue.region start.queue.region start.queue.capacity start start := by
  have tracks := opened.tracks
  have shows := tracks.shows
  have alike : Region.Alike start.queue.region start.queue.region start.queue.capacity
      start.memory start.memory :=
    ⟨shows.supported, shows.carries, shows.carries, shows.size, fun _ _ => rfl⟩
  exact ⟨⟨shows.capacity_pos, rfl, rfl, rfl, rfl, rfl, rfl⟩, tracks.port, tracks.port, alike⟩

-- Every call keeps two like rings alike, so also a ring and itself.
theorem Reached.laid (opened : start.Opened) (reached : Reached start s) : s.Laid := by
  have twins : Twins start.queue.region start.queue.region start.queue.capacity s s := by
    induction reached with
    | start => exact opened.twins
    | call c _ ih => exact (ih.call c).2
  refine ⟨?_, ?_⟩
  · rw [twins.queues.room]; exact twins.queues.some
  · rw [twins.queues.room, twins.queues.region]; exact twins.alike.carries

-- The packet at the tail is published.
def advance (s : Ring) : Ring :=
  let slot := s.queue.slot s.queue.tail
  { s with
    queue := { s.queue with
      staged := s.queue.staged.setIfInBounds slot none
      tail := s.queue.tail + 1 }
    memory := s.queue.region.put s.memory (Layout.slotOffset slot)
      (withHeader (s.queue.region.word s.memory (Layout.slotOffset slot)) Header.dispatch) }

def ring (s : Ring) : Ring :=
  { s with memory := s.queue.region.put s.memory Layout.doorbellAt (s.queue.tail - 1) }

def ready : Nat → Ring → Nat
  | 0, _ => 0
  | count + 1, s =>
    if s.queue.stagedAt (s.queue.slot s.queue.tail) = some s.queue.tail then
      ready count s.advance + 1
    else 0

theorem ready_le (count : Nat) (s : Ring) : ready count s ≤ count := by
  induction count generalizing s with
  | zero => exact Nat.le_refl 0
  | succ count ih =>
    unfold ready
    split
    · exact Nat.succ_le_succ (ih s.advance)
    · exact Nat.zero_le _

theorem Laid.tail_slot (laid : s.Laid) : s.queue.slot s.queue.tail < s.queue.capacity :=
  Nat.mod_lt _ laid.positive

theorem Laid.advance (laid : s.Laid) : s.advance.Laid := by
  have within := Layout.slot_within laid.tail_slot (by decide : 0 < 8)
  exact ⟨laid.positive, laid.carries.of_leaves (Region.put_leaves _ (by omega))⟩

theorem Laid.ring (laid : s.Laid) : s.ring.Laid :=
  ⟨laid.positive, laid.carries.of_leaves (Region.put_leaves _
    (Layout.header_within s.queue.capacity (by decide : Layout.doorbellAt + 8 ≤ 64)))⟩

theorem Laid.iterate (laid : s.Laid) (n : Nat) : (Ring.advance^[n] s).Laid := by
  induction n generalizing s with
  | zero => exact laid
  | succ n ih => exact ih laid.advance

theorem Laid.publishNext (laid : s.Laid) (count : Nat) :
    Queue.publishNext count s.queue s.memory =
      .ok (Ring.advance^[ready count s] s).queue (Ring.advance^[ready count s] s).memory := by
  induction count generalizing s with
  | zero => rfl
  | succ count ih =>
    unfold Queue.publishNext ready
    by_cases staged : s.queue.stagedAt (s.queue.slot s.queue.tail) = some s.queue.tail
    · rw [if_pos staged, if_pos staged,
        bind_ok (laid.carries.setHeader_put laid.tail_slot Header.dispatch)]
      exact ih laid.advance
    · rw [if_neg staged, if_neg staged]
      rfl

section Iterate

variable {n : Nat}

theorem advance_iterate_rest : advance^[n] s = { s with
    queue := { s.queue with
      staged := (advance^[n] s).queue.staged
      tail := (advance^[n] s).queue.tail }
    memory := (advance^[n] s).memory } := by
  induction n generalizing s with
  | zero => rfl
  | succ n ih => exact (@ih s.advance).trans rfl

theorem advance_iterate_tail (fits : s.queue.tail.toNat + n < UInt64.size) :
    (advance^[n] s).queue.tail.toNat = s.queue.tail.toNat + n := by
  induction n generalizing s with
  | zero => rfl
  | succ n ih =>
    have next : s.advance.queue.tail.toNat = s.queue.tail.toNat + 1 := toNat_succ (by omega)
    exact (ih (by omega)).trans (by omega)

theorem advance_iterate_room : (advance^[n] s).queue.staged.size = s.queue.staged.size := by
  induction n generalizing s with
  | zero => rfl
  | succ n ih => exact (@ih s.advance).trans Array.size_setIfInBounds

theorem advance_iterate_slot (fits : s.queue.tail.toNat + n < UInt64.size) :
    (advance^[n] s).queue.slot (advance^[n] s).queue.tail =
      (s.queue.tail.toNat + n) % s.queue.capacity := by
  rw [Queue.slot, slotOf, advance_iterate_tail fits, advance_iterate_rest]

theorem advance_iterate_entries (fits : s.queue.tail.toNat + n < UInt64.size) :
    (∀ j, s.queue.tail.toNat ≤ j → j < s.queue.tail.toNat + n →
      (advance^[n] s).queue.stagedAt (j % s.queue.capacity) = none) ∧
    ∀ slot, (∀ j, s.queue.tail.toNat ≤ j → j < s.queue.tail.toNat + n →
        j % s.queue.capacity ≠ slot) →
      (advance^[n] s).queue.stagedAt slot = s.queue.stagedAt slot := by
  induction n with
  | zero => exact ⟨fun j low high => by omega, fun _ _ => rfl⟩
  | succ n ih =>
    obtain ⟨cleared, kept⟩ := ih (by omega)
    have slot := advance_iterate_slot (s := s) (n := n) (by omega)
    have step (other : Nat) : (advance^[n + 1] s).queue.stagedAt other =
        if other = (s.queue.tail.toNat + n) % s.queue.capacity then none
        else (advance^[n] s).queue.stagedAt other := by
      rw [Function.iterate_succ_apply', ← slot]
      exact Queue.stagedAt_clear _ _ _ _
    refine ⟨fun j low high => ?_, fun other spared => ?_⟩
    · rw [step]
      split
      · rfl
      next different =>
        refine cleared j low (Nat.lt_of_le_of_ne (by omega) fun last => different ?_)
        rw [last]
    · rw [step, if_neg (spared _ (by omega) (by omega)).symm]
      exact kept other fun j low high => spared j low (by omega)

theorem Laid.advance_cells (laid : s.Laid) :
    s.queue.region.cells s.advance.memory =
      (s.queue.region.cells s.memory).place (s.queue.slot s.queue.tail)
        { (s.queue.region.cells s.memory).slots (s.queue.slot s.queue.tail) with
          header := Header.dispatch } := by
  have changed := laid.carries.cells_slot laid.tail_slot 0
    (withHeader (s.queue.region.wordsAt s.memory (s.queue.slot s.queue.tail))[0] Header.dispatch)
    (by decide)
  rw [Record.ofWords_withHeader] at changed
  have first : (s.queue.region.wordsAt s.memory (s.queue.slot s.queue.tail))[0] =
      s.queue.region.word s.memory (Layout.slotOffset (s.queue.slot s.queue.tail)) := by
    simp [Region.wordsAt]
  rw [first] at changed
  exact changed

theorem Laid.iterate_slots (laid : s.Laid) (fits : s.queue.tail.toNat + n < UInt64.size) :
    (∀ j, s.queue.tail.toNat ≤ j → j < s.queue.tail.toNat + n →
      (s.queue.region.cells (Ring.advance^[n] s).memory).slots (j % s.queue.capacity) =
        { (s.queue.region.cells s.memory).slots (j % s.queue.capacity) with
          header := Header.dispatch }) ∧
    ∀ slot, (∀ j, s.queue.tail.toNat ≤ j → j < s.queue.tail.toNat + n →
        j % s.queue.capacity ≠ slot) →
      (s.queue.region.cells (Ring.advance^[n] s).memory).slots slot =
        (s.queue.region.cells s.memory).slots slot := by
  induction n with
  | zero => exact ⟨fun j low high => by omega, fun _ _ => rfl⟩
  | succ n ih =>
    obtain ⟨turned, kept⟩ := ih (by omega)
    have step := (laid.iterate n).advance_cells
    rw [advance_iterate_slot (by omega), ← Function.iterate_succ_apply' Ring.advance] at step
    rw [show (Ring.advance^[n] s).queue.region = s.queue.region by rw [advance_iterate_rest]]
      at step
    refine ⟨fun j low high => ?_, fun slot spared => ?_⟩
    · rw [step]
      by_cases here : j % s.queue.capacity = (s.queue.tail.toNat + n) % s.queue.capacity
      · rw [here, Cells.place_slot]
        -- The slot may have been turned before: to turn it again changes nothing.
        by_cases before : ∃ k, s.queue.tail.toNat ≤ k ∧ k < s.queue.tail.toNat + n ∧
            k % s.queue.capacity = (s.queue.tail.toNat + n) % s.queue.capacity
        · obtain ⟨k, above, below, same⟩ := before
          rw [← same, turned k above below]
        · rw [kept _ fun k above below same => before ⟨k, above, below, same⟩]
      · rw [Cells.place_other _ _ here]
        refine turned j low (Nat.lt_of_le_of_ne (by omega) fun last => here ?_)
        rw [last]
    · have other := (spared _ (Nat.le_add_right _ n) (by omega)).symm
      rw [step, Cells.place_other _ _ other]
      exact kept slot fun j low high => spared j low (by omega)

theorem advance_iterate_bytes (fits : s.queue.tail.toNat + n < UInt64.size) {i : Nat}
    (apart : ∀ j, s.queue.tail.toNat ≤ j → j < s.queue.tail.toNat + n →
      i < s.queue.region.origin + Layout.slotOffset (j % s.queue.capacity) ∨
        s.queue.region.origin + Layout.slotOffset (j % s.queue.capacity) + 8 ≤ i) :
    (advance^[n] s).memory.get i = s.memory.get i := by
  induction n with
  | zero => rfl
  | succ n ih =>
    rw [Function.iterate_succ_apply', ← ih (by omega) fun j low high => apart j low (by omega)]
    refine Region.get_put_apart _ ?_
    rw [advance_iterate_slot (by omega), advance_iterate_rest]
    exact apart _ (by omega) (by omega)

theorem advance_iterate_size : (advance^[n] s).memory.size = s.memory.size := by
  induction n generalizing s with
  | zero => rfl
  | succ n ih => exact (@ih s.advance).trans (Region.size_put _ _)

end Iterate

theorem entry_unique {q : Queue} {j k : Nat} (narrow : j < UInt64.size) (narrow' : k < UInt64.size)
    (entry : q.stagedAt (j % q.capacity) = some (UInt64.ofNat j))
    (entry' : q.stagedAt (k % q.capacity) = some (UInt64.ofNat k))
    (same : j % q.capacity = k % q.capacity) : j = k := by
  rw [same, entry'] at entry
  have word := congrArg UInt64.toNat (Option.some.inj entry)
  rw [UInt64.toNat_ofNat_of_lt' narrow, UInt64.toNat_ofNat_of_lt' narrow'] at word
  exact word.symm

theorem ready_staged {count : Nat} (fits : s.queue.tail.toNat + count < UInt64.size) :
    ∀ j, s.queue.tail.toNat ≤ j → j < s.queue.tail.toNat + ready count s →
      s.queue.stagedAt (j % s.queue.capacity) = some (UInt64.ofNat j) := by
  induction count generalizing s with
  | zero => exact fun j low high => absurd high (Nat.not_lt.mpr low)
  | succ count ih =>
    intro j low high
    unfold ready at high
    split at high
    next staged =>
      by_cases first : j = s.queue.tail.toNat
      · rw [first, UInt64.ofNat_toNat]
        exact staged
      · have next : s.advance.queue.tail.toNat = s.queue.tail.toNat + 1 := toNat_succ (by omega)
        have entry := ih (s := s.advance) (by omega) j (by omega) (by omega)
        rw [advance, Queue.stagedAt_clear] at entry
        split at entry
        · cases entry
        · exact entry
    · omega

-- By induction on the packets asked for: to take the first leaves the entries of the others.
theorem ready_longest {count bound : Nat} (fits : s.queue.tail.toNat + count < UInt64.size)
    (high : bound ≤ s.queue.tail.toNat + count)
    (staged : ∀ j, s.queue.tail.toNat ≤ j → j < bound →
      s.queue.stagedAt (j % s.queue.capacity) = some (UInt64.ofNat j)) :
    bound ≤ s.queue.tail.toNat + ready count s := by
  induction count generalizing s with
  | zero => exact high
  | succ count ih =>
    by_cases some : bound ≤ s.queue.tail.toNat
    · omega
    have first := staged s.queue.tail.toNat (Nat.le_refl _) (by omega)
    have entry : s.queue.stagedAt (s.queue.slot s.queue.tail) = .some s.queue.tail := by
      rwa [UInt64.ofNat_toNat] at first
    have next : s.advance.queue.tail.toNat = s.queue.tail.toNat + 1 := toNat_succ (by omega)
    have later := ih (s := s.advance) (by omega) (by omega) fun j low below => by
      have own := staged j (by omega) below
      rw [advance, Queue.stagedAt_clear, if_neg fun same => ?_]
      · exact own
      · have equal := entry_unique (by omega) (by omega) own first same
        omega
    rw [ready, if_pos entry]
    omega

theorem ready_greatest {index : UInt64} (narrow : index.toNat + 1 < UInt64.size) :
    IsGreatest {bound | s.queue.Publishable index bound}
      (s.queue.tail.toNat + ready (index.toNat + 1 - s.queue.tail.toNat) s) := by
  have tail := s.queue.tail.toNat_lt
  have most := ready_le (index.toNat + 1 - s.queue.tail.toNat) s
  have fits : s.queue.tail.toNat + (index.toNat + 1 - s.queue.tail.toNat) < UInt64.size := by
    simp only [UInt64.size] at narrow ⊢
    omega
  refine ⟨⟨by omega, by omega, ready_staged fits⟩, fun bound publishable => ?_⟩
  obtain ⟨_, high, staged⟩ := publishable
  exact ready_longest fits (by omega) staged

theorem ready_add (count more : Nat) (s : Ring) :
    ready (count + more) s = ready count s + ready more (advance^[ready count s] s) := by
  induction count generalizing s with
  | zero => rw [Nat.zero_add]; exact (Nat.zero_add _).symm
  | succ count ih =>
    rw [Nat.add_right_comm, ready, ready]
    split
    · rw [ih, Function.iterate_succ_apply]
      omega
    next gap =>
      rw [Nat.zero_add]
      cases more with
      | zero => rfl
      | succ more => exact (if_neg gap).symm

theorem ready_gap {count : Nat} (stopped : ready count s < count) (more : Nat) :
    ready more (advance^[ready count s] s) = 0 := by
  induction count generalizing s with
  | zero => exact absurd stopped (Nat.not_lt_zero _)
  | succ count ih =>
    rw [ready] at stopped ⊢
    by_cases staged : s.queue.stagedAt (s.queue.slot s.queue.tail) = some s.queue.tail
    · rw [if_pos staged] at stopped ⊢
      exact ih (by omega)
    · rw [if_neg staged]
      cases more with
      | zero => rfl
      | succ more => exact if_neg staged

def publish (s : Ring) (count : Nat) : Ring :=
  if ready count s = 0 then s else (advance^[ready count s] s).ring

def dispatch (s : Ring) (index : UInt64) : Ring :=
  (s.perform (.produce (.dispatch index))).2

theorem publish_tail {count : Nat} (fits : s.queue.tail.toNat + count < UInt64.size) :
    (s.publish count).queue.tail.toNat = s.queue.tail.toNat + ready count s := by
  have most := ready_le count s
  unfold publish
  split
  next none => rw [none]; rfl
  · exact advance_iterate_tail (by omega)

theorem reserved_narrow {index : UInt64} (reserved : index.toNat < s.write) :
    index.toNat + 1 < UInt64.size ∧
      s.queue.tail.toNat + (index.toNat + 1 - s.queue.tail.toNat) < UInt64.size := by
  have word := (s.queue.region.cells s.memory).writeIndex.toNat_lt
  have tail := s.queue.tail.toNat_lt
  simp only [Ring.write, UInt64.size] at reserved ⊢
  omega

theorem Laid.perform_refused (laid : s.Laid) {index : UInt64} (beyond : s.write ≤ index.toNat) :
    s.perform (.produce (.dispatch index)) = (.failed (.error (.invalidState
      (.dispatchBeyond index (s.queue.region.cells s.memory).writeIndex))), s) := by
  have failed : s.queue.publish index s.memory = .error (.error (.invalidState
      (.dispatchBeyond index (s.queue.region.cells s.memory).writeIndex))) s.memory := by
    unfold Queue.publish Queue.writeIndex
    rw [bind_ok laid.carries.writeIndex_ok, if_pos (UInt64.le_iff_toNat_le.mpr beyond)]
    rfl
  rw [perform, Queue.produce, Queue.answer_error failed]

theorem Laid.perform_dispatch (laid : s.Laid) {index : UInt64} (reserved : index.toNat < s.write) :
    s.perform (.produce (.dispatch index)) =
      (.published (s.publish (index.toNat + 1 - s.queue.tail.toNat)).queue.tail,
        s.publish (index.toNat + 1 - s.queue.tail.toNat)) := by
  have narrow := (reserved_narrow reserved).2
  generalize asked : index.toNat + 1 - s.queue.tail.toNat = count at narrow ⊢
  have most := ready_le count s
  have moved := laid.publishNext count
  have done : s.queue.publish index s.memory =
      .ok ((s.publish count).queue.tail, (s.publish count).queue) (s.publish count).memory := by
    unfold Queue.publish Queue.writeIndex
    rw [bind_ok laid.carries.writeIndex_ok,
      if_neg (mt UInt64.le_iff_toNat_le.mp (Nat.not_le.mpr reserved)), asked]
    apply (bind_ok moved).trans
    unfold Ring.publish
    by_cases none : ready count s = 0
    · rw [if_pos none, none]
      exact congrFun (if_neg (not_not.mpr rfl)) _
    · have further : (Ring.advance^[ready count s] s).queue.tail ≠ s.queue.tail := by
        intro same
        have moved := advance_iterate_tail (s := s) (n := ready count s) (by omega)
        rw [same] at moved
        omega
      have after := laid.iterate (ready count s)
      have region : (Ring.advance^[ready count s] s).queue.region = s.queue.region := by
        rw [advance_iterate_rest]
      have aligned := after.carries.aligned
      have fits := after.carries.header_inside (by decide : Layout.doorbellAt + 8 ≤ 64)
      rw [if_neg none, if_pos further, ← region]
      exact bind_ok (Region.write64_word _ fits (by simp only [Layout.doorbellAt]; omega))
  have kept : (s.publish count).port = s.port := by
    have port : (Ring.advance^[ready count s] s).port = s.port := by rw [advance_iterate_rest]
    unfold Ring.publish
    split
    · rfl
    · exact port
  rw [perform, Queue.produce, Queue.answer_ok done]
  exact congrArg (fun port => (_, (⟨_, port, _⟩ : Ring))) kept.symm

theorem Laid.publishes (laid : s.Laid) {count : Nat}
    (fits : s.queue.tail.toNat + count < UInt64.size) :
    s.Publishes (s.queue.tail.toNat + ready count s) (s.publish count) := by
  have most := ready_le count s
  generalize number : ready count s = n at most
  have narrow : s.queue.tail.toNat + n < UInt64.size := by omega
  unfold Ring.publish
  rw [number]
  by_cases none : n = 0
  · subst none
    rw [if_pos rfl]
    exact ⟨rfl, rfl, rfl, fun j low high => by omega, fun _ _ => rfl, fun j low high => by omega,
      fun some => by omega, rfl, fun _ _ => rfl⟩
  rw [if_neg none]
  obtain ⟨cleared, kept⟩ := advance_iterate_entries narrow
  have after := laid.iterate n
  have rest := @advance_iterate_rest s n
  have region : (Ring.advance^[n] s).queue.region = s.queue.region := by rw [rest]
  have tail := advance_iterate_tail narrow
  have rung := after.carries.cells_header Layout.doorbellAt
    ((Ring.advance^[n] s).queue.tail - 1) (by decide) (by decide)
  rw [region] at rung
  constructor
  case rest =>
    have queue := congrArg Ring.queue rest
    have port := congrArg Ring.port rest
    unfold Ring.ring
    rw [port, queue]
  case tail => exact tail
  case room => exact advance_iterate_room
  case cleared => exact cleared
  case kept => exact kept
  case slots =>
    intro j low high
    unfold Ring.ring
    rw [region, rung]
    exact (laid.iterate_slots narrow).1 j low high
  case doorbell =>
    intro _
    have last : (Ring.advance^[n] s).queue.tail - 1 =
        UInt64.ofNat (s.queue.tail.toNat + n - 1) := by
      apply UInt64.toNat_inj.mp
      have one : (1 : UInt64) ≤ (Ring.advance^[n] s).queue.tail := by
        rw [UInt64.le_iff_toNat_le, tail]
        change 1 ≤ s.queue.tail.toNat + n
        omega
      rw [UInt64.toNat_sub_of_le _ _ one, tail, UInt64.toNat_ofNat_of_lt' (by omega)]
      rfl
    unfold Ring.ring
    rw [region, rung, last]
    rfl
  case size =>
    exact (Region.size_put _ _).trans advance_iterate_size
  case bytes =>
    intro i apart
    unfold Ring.ring
    rw [region]
    exact (Region.get_put_apart _ (apart _ (.inr ⟨by omega, rfl⟩))).trans
      (advance_iterate_bytes narrow fun j low high => apart _ (.inl ⟨j, low, high, rfl⟩))

theorem advance_iterate_doorbell (n : Nat) (w : UInt64) (laid : s.Laid) :
    advance^[n] { s with memory := s.queue.region.put s.memory Layout.doorbellAt w } =
      { advance^[n] s with
        memory := s.queue.region.put (advance^[n] s).memory Layout.doorbellAt w } := by
  induction n generalizing s with
  | zero => rfl
  | succ n ih =>
    have below := laid.tail_slot
    have word := laid.carries.word_header Layout.doorbellAt
      (Layout.slotOffset (s.queue.slot s.queue.tail)) w (by decide) (by decide)
      (Layout.slotOffset_grid _)
    rw [if_neg (by simp only [Layout.slotOffset, Layout.headerSize, Layout.doorbellAt]; omega)]
      at word
    have memory : s.queue.region.put (s.queue.region.put s.memory Layout.doorbellAt w)
        (Layout.slotOffset (s.queue.slot s.queue.tail)) (withHeader
          (s.queue.region.word (s.queue.region.put s.memory Layout.doorbellAt w)
            (Layout.slotOffset (s.queue.slot s.queue.tail))) Header.dispatch) =
        s.queue.region.put s.advance.memory Layout.doorbellAt w := by
      rw [word, ← Region.put_doorbell_comm]
      rfl
    have step : advance { s with memory := s.queue.region.put s.memory Layout.doorbellAt w } =
        { s.advance with memory := s.queue.region.put s.advance.memory Layout.doorbellAt w } :=
      congrArg (fun memory => ({ s.advance with memory } : Ring)) memory
    rw [Function.iterate_succ_apply, step]
    exact ih laid.advance

theorem ready_congr {s' : Ring} (count : Nat) (same : s'.queue = s.queue) :
    ready count s' = ready count s := by
  induction count generalizing s s' with
  | zero => rfl
  | succ count ih =>
    have next : s'.advance.queue = s.advance.queue := by simp only [advance, same]
    rw [ready, ready, same, ih next]

theorem Laid.publish_publish (laid : s.Laid) {first second whole : Nat}
    (number : ready whole s = ready first s + ready second (Ring.advance^[ready first s] s)) :
    (s.publish first).publish second = s.publish whole := by
  generalize same : Ring.advance^[ready first s] s = u at number
  have after : u.Laid := same ▸ laid.iterate _
  have further : Ring.advance^[ready whole s] s = Ring.advance^[ready second u] u := by
    rw [number, Nat.add_comm, Function.iterate_add_apply, same]
  unfold Ring.publish
  rw [further, number, same]
  by_cases none : ready first s = 0
  · have start : u = s := by rw [← same, none]; rfl
    rw [if_pos none, start, none, Nat.zero_add]
  rw [if_neg none, if_neg (fun all => by omega : ¬ready first s + ready second u = 0),
    @ready_congr u u.ring second rfl]
  by_cases stopped : ready second u = 0
  · rw [if_pos stopped, stopped]
    rfl
  -- The doorbell is rung twice, and only the second time tells.
  · rw [if_neg stopped]
    have behind := after.iterate (ready second u)
    have region : (Ring.advance^[ready second u] u).queue.region = u.queue.region := by
      rw [advance_iterate_rest]
    have twice := advance_iterate_doorbell (ready second u) (u.queue.tail - 1) after
    change Ring.advance^[ready second u] u.ring = _ at twice
    rw [twice]
    unfold Ring.ring
    rw [region]
    have backed := behind.carries.backed
    have fits := behind.carries.header_inside (by decide : Layout.doorbellAt + 8 ≤ 64)
    rw [region] at backed fits
    simp only [Region.put]
    rw [ByteStore.write64_twice _ _ _ _ (by simp only [Region.Backed] at backed; omega)]

theorem Laid.publish (laid : s.Laid) (count : Nat) : (s.publish count).Laid := by
  unfold Ring.publish
  split
  · exact laid
  · exact (laid.iterate _).ring

theorem Publishes.write {bound : Nat} {s' : Ring} (publishes : s.Publishes bound s') :
    s'.write = s.write := by
  have region : s'.queue.region = s.queue.region := by rw [publishes.rest]
  have word : s.queue.region.word s'.memory Layout.writeIndexAt =
      s.queue.region.word s.memory Layout.writeIndexAt := by
    rw [Region.word, Region.word]
    refine ByteStore.read64_congr _ _ _ fun i low high => publishes.bytes i ?_
    simp only [Layout.writeIndexAt] at low high
    rintro offset (⟨j, _, _, rfl⟩ | ⟨_, rfl⟩)
    · simp only [Layout.slotOffset, Layout.headerSize]
      omega
    · simp only [Layout.doorbellAt]
      omega
  rw [Ring.write, region]
  exact congrArg UInt64.toNat word

section Dispatch

variable {index : UInt64} (laid : s.Laid) (reserved : index.toNat < s.write)
include laid reserved

theorem Laid.dispatch_eq : s.dispatch index = s.publish (index.toNat + 1 - s.queue.tail.toNat) := by
  rw [Ring.dispatch, laid.perform_dispatch reserved]

theorem Laid.dispatch : (s.dispatch index).Laid ∧ (s.dispatch index).write = s.write := by
  rw [laid.dispatch_eq reserved]
  exact ⟨laid.publish _, (laid.publishes (reserved_narrow reserved).2).write⟩

theorem Laid.dispatch_dispatch {later : UInt64} (reserved' : later.toNat < s.write) :
    (s.dispatch index).dispatch later = s.dispatch (max index later) := by
  obtain ⟨after, write⟩ := laid.dispatch reserved
  have furthest := toNat_max index later
  have bound : (max index later).toNat < s.write := by rw [furthest]; exact max_lt reserved reserved'
  rw [after.dispatch_eq (write ▸ reserved'), laid.dispatch_eq bound, furthest,
    laid.dispatch_eq reserved, publish_tail (reserved_narrow reserved).2]
  generalize asked : index.toNat + 1 - s.queue.tail.toNat = first
  have most := ready_le first s
  refine laid.publish_publish ?_
  have split : max index.toNat later.toNat + 1 - s.queue.tail.toNat =
      first + (max index.toNat later.toNat + 1 - s.queue.tail.toNat - first) := by omega
  rw [split, ready_add]
  by_cases stopped : ready first s < first
  · rw [ready_gap stopped, ready_gap stopped]
  · congr 2
    omega

end Dispatch

-- By induction on the rearrangement, of which two dispatches that swap are the one case.
theorem Laid.dispatch_perm {first second : List UInt64} (laid : s.Laid)
    (same : first.Perm second) (reserved : ∀ index ∈ first, index.toNat < s.write) :
    first.foldl Ring.dispatch s = second.foldl Ring.dispatch s := by
  induction same generalizing s with
  | nil => rfl
  | cons index _ ih =>
    obtain ⟨after, write⟩ := laid.dispatch (reserved index List.mem_cons_self)
    exact ih after fun other member => write ▸ reserved other (List.mem_cons_of_mem _ member)
  | swap a b rest =>
    have reservedA := reserved a (List.mem_cons_of_mem _ List.mem_cons_self)
    have reservedB := reserved b List.mem_cons_self
    have swapped : (s.dispatch b).dispatch a = (s.dispatch a).dispatch b := by
      have furthest : max b a = max a b := by
        apply UInt64.toNat_inj.mp
        rw [toNat_max, toNat_max, max_comm]
      rw [laid.dispatch_dispatch reservedB reservedA, laid.dispatch_dispatch reservedA reservedB,
        furthest]
    exact congrArg (rest.foldl Ring.dispatch) swapped
  | trans firstSame _ ih ih' =>
    exact (ih laid reserved).trans
      (ih' laid fun index member => reserved index (firstSame.mem_iff.mpr member))

theorem dispatch_publishes_longest (opened : start.Opened) (reached : Reached start s) :
    (∀ index : UInt64, s.write ≤ index.toNat → s.perform (.produce (.dispatch index)) =
      (.failed (.error (.invalidState
        (.dispatchBeyond index (s.queue.region.cells s.memory).writeIndex))), s)) ∧
    (∀ index : UInt64, index.toNat < s.write → ∃ count s',
      s.perform (.produce (.dispatch index)) = (.published count, s') ∧
      IsGreatest {bound | s.queue.Publishable index bound} count.toNat ∧
      s.Publishes count.toNat s' ∧
      s'.perform (.produce (.dispatch index)) = (.published count, s')) ∧
    (∀ first later : UInt64, first.toNat < s.write → later.toNat < s.write →
      (s.dispatch first).dispatch later = s.dispatch (max first later)) ∧
    (∀ first second : List UInt64, (∀ index ∈ first, index.toNat < s.write) →
      first.Perm second → first.foldl dispatch s = second.foldl dispatch s) := by
  have laid := reached.laid opened
  refine ⟨fun index beyond => laid.perform_refused beyond, fun index reserved => ?_,
    fun first later reserved reserved' => laid.dispatch_dispatch reserved reserved',
    fun first second reserved same => laid.dispatch_perm same reserved⟩
  obtain ⟨narrow, fits⟩ := reserved_narrow reserved
  obtain ⟨after, write⟩ := laid.dispatch reserved
  have again := laid.dispatch_dispatch reserved reserved
  have furthest : max index index = index := by
    apply UInt64.toNat_inj.mp
    rw [toNat_max, max_self]
  have second := after.perform_dispatch (write ▸ reserved)
  rw [furthest, after.dispatch_eq (write ▸ reserved)] at again
  rw [again, laid.dispatch_eq reserved] at second
  refine ⟨_, _, laid.perform_dispatch reserved, ?_, ?_, second⟩
  · rw [publish_tail fits]
    exact ready_greatest narrow
  · rw [publish_tail fits]
    exact laid.publishes fits

theorem Run.reached {h : History} (run : Run start h s) : Reached start s := by
  induction run with
  | start => exact .start
  | next a _ _ ih => exact .call (.act a) ih

-- Of three indices two are written, in the wrong order, and the third is asked for.
theorem dispatch_publishes_longest_sample : ∃ s s', sample.Opened ∧ Reached sample s ∧
    s.perform (.produce (.dispatch 3)) =
      (.failed (.error (.invalidState (.dispatchBeyond 3 3))), s) ∧
    s.perform (.produce (.dispatch 2)) = (.published 2, s') ∧ s.Publishes 2 s' ∧
    s'.perform (.produce (.dispatch 2)) = (.published 2, s') ∧
    (s.dispatch 2).dispatch 0 = s' ∧ [1, 0, 2].foldl dispatch s = [0, 1, 2].foldl dispatch s := by
  obtain ⟨_, run⟩ := sample_run
  replace run : Run sample (sampleHistory.take 5 ++ sampleHistory.drop 5) _ := run
  obtain ⟨s, run⟩ := run.earlier
  obtain ⟨tracks, capacity, _⟩ := run.tracks sample_opened
  have writeIndex := tracks.shows.writeIndex
  have reply := run.reply sample_opened (.produce (.dispatch 2)) trivial trivial
  rw [sample_capacity] at capacity reply
  rw [capacity] at writeIndex
  have three : s.write = 3 := congrArg UInt64.toNat writeIndex
  obtain ⟨beyond, publishes, furthest, orders⟩ :=
    dispatch_publishes_longest sample_opened run.reached
  obtain ⟨count, s', done, _, turned, again⟩ := publishes 2 (by rw [three]; decide)
  have two : count = 2 := by
    have same := (congrArg Prod.fst done).symm.trans reply
    exact Reply.published.inj same
  subst two
  have refused := beyond 3 (by rw [three]; decide)
  rw [writeIndex] at refused
  have settled := furthest 2 0 (by rw [three]; decide) (by rw [three]; decide)
  have few : ∀ index ∈ ([1, 0, 2] : List UInt64), index.toNat < s.write := by
    rw [three]
    intro index member
    simp only [List.mem_cons, List.not_mem_nil, or_false] at member
    obtain rfl | rfl | rfl := member <;> decide
  exact ⟨s, s', sample_opened, run.reached, refused, done, turned, again,
    settled.trans (congrArg Prod.snd done), orders _ _ few (by decide)⟩

end Ring

end FabricQueue
