import FabricQueue.Proofs.Ring

set_option autoImplicit false

namespace FabricQueue

namespace Ring

-- The three counters, as the words of the region have them.
def read (s : Ring) : Nat :=
  (s.queue.region.cells s.memory).readIndex.toNat

def published (s : Ring) : Nat :=
  ((s.queue.region.cells s.memory).doorbell + 1).toNat

def write (s : Ring) : Nat :=
  (s.queue.region.cells s.memory).writeIndex.toNat

def header (s : Ring) (slot : Nat) : UInt16 :=
  ((s.queue.region.cells s.memory).slots slot).header

structure Ordered (s : Ring) : Prop where
  read_le : s.read ≤ s.published
  published_le : s.published ≤ s.write
  room : s.published ≤ s.read + s.queue.capacity
  tail : s.queue.tail.toNat = s.published
  headers : ∀ slot < s.queue.capacity, ∃ j,
    (s.read ≤ j ∧ j < s.read + s.queue.capacity ∧ j % s.queue.capacity = slot) ∧
    (∀ k, s.read ≤ k → k < s.read + s.queue.capacity → k % s.queue.capacity = slot → k = j) ∧
    (Header.kind (s.header slot) = Header.agentDispatch ↔ j < s.published)
  staged : ∀ slot j, s.queue.stagedAt slot = some j →
    slot = j.toNat % s.queue.capacity ∧ s.published ≤ j.toNat ∧
      j.toNat < min s.write (s.read + s.queue.capacity)

variable {start s s' : Ring} {h : History}

theorem Tracks.counters (tracks : s.Tracks h) :
    s.read = (h.log s.queue.capacity).retired ∧ s.published = (h.log s.queue.capacity).published ∧
      s.write = (h.log s.queue.capacity).writeIndex.toNat :=
  ⟨tracks.shows.readIndex, tracks.shows.doorbell, congrArg UInt64.toNat tracks.shows.writeIndex⟩

theorem Tracks.read_eq (tracks : s.Tracks h) : s.read = h.retired :=
  tracks.counters.1.trans tracks.retired

theorem Tracks.fetch_slot (tracks : s.Tracks h) (index : UInt64) :
    ∃ j, (s.read ≤ j ∧ j < s.read + s.queue.capacity) ∧
      j % s.queue.capacity = index.toNat % s.queue.capacity ∧
      s.perform (.fetch index) =
        (.found (if j < s.published then (h.written j).map Record.activated else none), s) := by
  obtain ⟨read, published, _⟩ := tracks.counters
  have shows := tracks.shows
  obtain ⟨j, window, same⟩ :=
    (h.log s.queue.capacity).window_slot (shows.slot_lt index.toNat)
  have done := shows.fetch_alias window same.symm
  rw [← tracks.port, tracks.written] at done
  refine ⟨j, by rw [read]; exact window, same, ?_⟩
  rw [published, Ring.perform]
  exact consume_ok done

theorem Tracks.retire_current (tracks : s.Tracks h) {index : UInt64}
    (current : index.toNat = s.read) (narrow : s.read + 1 < UInt64.size) :
    ∃ s', s.perform (.retire index) = (.retired, s') ∧ s'.read = s.read + 1 ∧
      s'.published = s.published := by
  have shows := tracks.shows
  have read : (s.queue.region.cells s.memory).readIndex = index :=
    UInt64.toNat_inj.mp current.symm
  rw [← current] at narrow ⊢
  obtain ⟨m, done, cells, _⟩ := Queue.retire_moves shows.carries shows.capacity_pos read narrow
  rw [← tracks.port] at done
  refine ⟨{ s with memory := m }, ?_, ?_, ?_⟩
  · rw [Ring.perform, consume_ok done]
  · rw [Ring.read, cells]
    exact UInt64.toNat_ofNat_of_lt' narrow
  · rw [Ring.published, Ring.published, cells]
    rfl

-- An entry stands in a slot below the capacity, so the window has an index for it.
theorem Tracks.staged_entry (tracks : s.Tracks h) {slot : Nat} {j : UInt64}
    (entry : s.queue.stagedAt slot = some j) :
    (h.log s.queue.capacity).Window s.queue.capacity j.toNat ∧ slot = j.toNat % s.queue.capacity ∧
      (h.log s.queue.capacity).published ≤ j.toNat ∧
      ((h.log s.queue.capacity).written j.toNat).isSome := by
  have shows := tracks.shows
  have below : slot < s.queue.capacity := by
    rw [← shows.room]
    by_contra outside
    rw [Queue.stagedAt, Array.getD_eq_getD_getElem?, Array.getElem?_eq_none (by omega)] at entry
    cases entry
  obtain ⟨k, window, same⟩ := (h.log s.queue.capacity).window_slot below
  subst same
  rw [shows.staged k window, Log.stagedEntry] at entry
  split at entry
  next waiting =>
    have word := shows.sound.word k waiting.2
    have number : j.toNat = k := by
      cases entry
      exact UInt64.toNat_ofNat_of_lt' (by omega)
    rw [number]
    exact ⟨window, rfl, waiting⟩
  · cases entry

theorem Tracks.ordered (tracks : s.Tracks h) (few : h.reserved < UInt64.size) : s.Ordered := by
  obtain ⟨read, published, write⟩ := tracks.counters
  have shows := tracks.shows
  have sound := shows.sound
  have reserved (j : Nat) (written : ((h.log s.queue.capacity).written j).isSome) :=
    History.log_written_lt few written
  constructor
  case read_le => rw [read, published]; exact sound.ordered
  case published_le =>
    rw [published, write]
    by_contra beyond
    have last := reserved _ (sound.covered ((h.log s.queue.capacity).published - 1) (by omega))
    omega
  case room => rw [read, published]; exact sound.published_le
  case tail => rw [published]; exact shows.tail
  case headers =>
    intro slot below
    obtain ⟨j, window, same⟩ := (h.log s.queue.capacity).window_slot below
    rw [read, published]
    refine ⟨j, ⟨window.1, window.2, same⟩, fun k low high other => ?_, ?_⟩
    · exact Log.window_unique ⟨low, high⟩ window (other.trans same.symm)
    · have active := Log.holds_isActive sound (shows.slots j window)
      rw [same] at active
      simpa [header, Record.isActive, Header.isActive] using congrArg (· = true) active
  case staged =>
    intro slot j entry
    obtain ⟨window, same, above, written⟩ := tracks.staged_entry entry
    rw [published, read, write]
    exact ⟨same, above, lt_min (reserved _ written) window.2⟩

-- A run and a run that goes on from it.
theorem run_ordered {later : History} (opened : start.Opened) (run : Run start h s)
    (longer : Run start (later ++ h) s')
    (few : (later ++ h).reserved + start.queue.capacity < UInt64.size) :
    s'.Ordered ∧ s.read ≤ s'.read ∧ s.published ≤ s'.published ∧ s.write ≤ s'.write := by
  obtain ⟨tracks, capacity, _⟩ := run.tracks opened
  obtain ⟨tracks', capacity', _⟩ := longer.tracks opened
  obtain ⟨_, published, write⟩ := tracks.counters
  obtain ⟨_, published', write'⟩ := tracks'.counters
  have total := History.reserved_append later h
  refine ⟨tracks'.ordered (by omega), ?_, ?_, ?_⟩
  · rw [tracks.read_eq, tracks'.read_eq, History.retired_append]
    omega
  · rw [published, published', capacity, capacity']
    exact History.log_published_le later h
  · rw [write, write', History.log_writeIndex (by omega), History.log_writeIndex (by omega), total]
    omega

theorem run_ordered_sample : ∃ s s' h later, sample.Opened ∧ Run sample h s ∧
    Run sample (later ++ h) s' ∧
    History.reserved (later ++ h) + sample.queue.capacity < UInt64.size ∧
    (s'.Ordered ∧ s.read ≤ s'.read ∧ s.published ≤ s'.published ∧ s.write ≤ s'.write) ∧
    s'.read = 1 ∧ s'.published = 3 ∧ s'.write = 3 := by
  obtain ⟨s', run⟩ := sample_run
  replace run : Run sample (sampleHistory.take 4 ++ sampleHistory.drop 4) s' := run
  obtain ⟨s, earlier⟩ := run.earlier
  obtain ⟨tracks, capacity, _⟩ := run.tracks sample_opened
  obtain ⟨read, published, write⟩ := tracks.counters
  rw [capacity, sample_capacity] at read published write
  have few : History.reserved (sampleHistory.take 4 ++ sampleHistory.drop 4) +
      sample.queue.capacity < UInt64.size := by
    rw [sample_capacity]
    decide
  refine ⟨s, s', sampleHistory.drop 4, sampleHistory.take 4, sample_opened, earlier, run, few,
    run_ordered sample_opened earlier run few, ?_, ?_, ?_⟩
  · rw [read]; decide
  · rw [published]; decide
  · rw [write]; decide

-- Runs whose consumer takes any find at its word. A fetch only looks at the slot of its index, and
-- there it may find a packet of another round.
def Trusted (h : History) (s : Ring) : Act → Prop
  | .retire index => s.port.readIndex s.memory = .ok index s.memory → h.Found index
  | _ => True

inductive Trusting (start : Ring) : History → Ring → Prop where
  | start : Trusting start [] start
  | next {h : History} {s : Ring} (a : Act) : Trusting start h s → s.Trusted h a →
      Trusting start (⟨a, (s.perform a).1⟩ :: h) (s.perform a).2

theorem Run.trusting (run : Run start h s) : Trusting start h s := by
  induction run with
  | start => exact .start
  | next a _ allowed ih =>
    refine ih.next a ?_
    cases a with
    | retire index =>
      intro current
      obtain ⟨later, record, earlier, rfl, _⟩ := allowed current
      exact ⟨record, List.mem_append_right _ List.mem_cons_self⟩
    | _ => trivial

theorem run_ordered_stale : ∃ h s, sample.Opened ∧ Trusting sample h s ∧
    h.reserved + sample.queue.capacity < UInt64.size ∧ s.published = 2 ∧ s.read = 3 ∧
    ¬ s.Ordered := by
  have two := sample_capacity
  obtain ⟨_, run⟩ := sample_run
  replace run : Run sample (sampleHistory.take 4 ++ sampleHistory.drop 4) _ := run
  obtain ⟨s₀, both⟩ := run.earlier
  -- What is found for index 2 is packet 0.
  obtain ⟨tracks₀, capacity₀, _⟩ := both.tracks sample_opened
  obtain ⟨j, window, same, found⟩ := tracks₀.fetch_slot 2
  obtain ⟨read₀, published₀, _⟩ := tracks₀.counters
  rw [capacity₀, two] at read₀ published₀
  have none : s₀.read = 0 := by rw [read₀]; decide
  have most : s₀.published = 2 := by rw [published₀]; decide
  rw [capacity₀, two, none] at window
  rw [capacity₀, two] at same
  obtain rfl : j = 0 := by
    have even : j % 2 = 0 := same
    omega
  have packet : (History.written (sampleHistory.drop 4) 0).map Record.activated =
      some (Command.encode (.deviceInit 1)).activated := rfl
  rw [most, if_pos (by decide), packet] at found
  have stale := both.next (.fetch 2) trivial
  simp only [found] at stale
  have ⟨_, first⟩ := stale.deliver sample_opened 0
    (Command.encode (.deviceInit 1)).activated (by rw [two]; decide) (by rw [two]; decide)
  have ⟨_, second⟩ := first.deliver sample_opened 1
    (Command.encode (.deviceInit 2)).activated (by rw [two]; decide) (by rw [two]; decide)
  obtain ⟨tracks, capacity, _⟩ := second.tracks sample_opened
  obtain ⟨read, published, _⟩ := tracks.counters
  rw [capacity, two] at read published
  obtain ⟨s, retired, moved, kept⟩ := tracks.retire_current
    (show UInt64.toNat 2 = _ by rw [read]; decide) (by rw [read]; decide)
  have trusting := second.trusting.next (.retire 2) fun _ =>
    ⟨_, .tail _ (.tail _ (.tail _ (.tail _ (.head _))))⟩
  simp only [retired] at trusting
  have behind : s.published = 2 := by rw [kept, published]; decide
  have ahead : s.read = 3 := by rw [moved, read]; decide
  refine ⟨_, s, sample_opened, trusting, by rw [two]; decide, behind, ahead, fun ordered => ?_⟩
  have low := ordered.read_le
  omega

end Ring

end FabricQueue
