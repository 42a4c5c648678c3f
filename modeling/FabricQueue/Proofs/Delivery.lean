import FabricQueue.Proofs.Counters

set_option autoImplicit false

namespace FabricQueue

namespace History

-- The retired indices, the latest first.
def delivered (h : History) : List Nat :=
  h.filterMap fun e =>
    match e.act, e.reply with
    | .retire index, .retired => some index.toNat
    | _, _ => none

-- An accepted dispatch reached the index when all indices up to it were written.
def Dispatched (h : History) (index : Nat) : Prop :=
  ∃ (later : History) (bound count : UInt64) (earlier : History),
    h = later ++ ⟨.produce (.dispatch bound), .published count⟩ :: earlier ∧
      index ≤ bound.toNat ∧ ∀ j ≤ index, (earlier.written j).isSome

def Obtained (h : History) (index : UInt64) (record : Record) : Prop :=
  ∃ (later earlier : History), h = later ++ ⟨.fetch index, .found (some record)⟩ :: earlier

end History

namespace Ring

-- The consumer asks only for packets that it may take.
def InTurn (s : Ring) : Act → Prop
  | .fetch index => s.read ≤ index.toNat ∧ index.toNat < s.published
  | _ => True

variable {start s s' : Ring} {h : History}

theorem History.Dispatched.extend {index : Nat} (e : Entry) (dispatched : h.Dispatched index) :
    History.Dispatched (e :: h) index := by
  obtain ⟨later, bound, count, earlier, whole, reaches, written⟩ := dispatched
  exact ⟨e :: later, bound, count, earlier, by rw [whole]; rfl, reaches, written⟩

theorem Orderly.answer {e : Entry} (opened : start.Opened) (orderly : Orderly start (e :: h) s)
    (inReach : (h.log start.queue.capacity).InReach start.queue.capacity e.act) :
    e.reply = ((h.log start.queue.capacity).perform start.queue.capacity e.act).1 := by
  obtain ⟨before, earlier, due, reply, _⟩ := orderly.last
  obtain ⟨tracks, capacity, _⟩ := earlier.tracks opened
  have follows := Ring.perform_follows tracks.shows tracks.port e.act ((tracks.due_iff _).mp due)
  rw [capacity] at follows
  rw [reply, follows.reply inReach]

theorem Run.answer {e : Entry} (opened : start.Opened) (run : Run start (e :: h) s)
    (inReach : (h.log start.queue.capacity).InReach start.queue.capacity e.act) :
    e.reply = ((h.log start.queue.capacity).perform start.queue.capacity e.act).1 :=
  (run.orderly opened).answer opened inReach

theorem Orderly.written (opened : start.Opened) (orderly : Orderly start h s) :
    (h.log start.queue.capacity).written = h.written := by
  obtain ⟨tracks, capacity, _⟩ := orderly.tracks opened
  rw [← capacity]
  exact tracks.written

theorem Run.written (opened : start.Opened) (run : Run start h s) :
    (h.log start.queue.capacity).written = h.written :=
  (run.orderly opened).written opened

theorem Orderly.covered (opened : start.Opened) (orderly : Orderly start h s) {index : Nat}
    (published : index < (h.log start.queue.capacity).published) : (h.written index).isSome := by
  obtain ⟨tracks, capacity, _⟩ := orderly.tracks opened
  rw [← orderly.written opened, ← capacity]
  rw [← capacity] at published
  exact tracks.shows.sound.covered index published

theorem Orderly.dispatched (opened : start.Opened) (orderly : Orderly start h s) {index : Nat}
    (published : index < (h.log start.queue.capacity).published) : h.Dispatched index := by
  induction h generalizing s with
  | nil => exact absurd published (Nat.not_lt_zero index)
  | cons e h ih =>
    obtain ⟨before, earlier, _⟩ := orderly.last
    by_cases already : index < (History.log start.queue.capacity h).published
    · exact History.Dispatched.extend e (ih earlier already)
    · obtain ⟨bound, count, act, reply, reaches, written⟩ :=
        (Log.perform_step e.act _).passed (Nat.not_lt.mp already) published
      have answer := (orderly.answer opened (by rw [act]; trivial)).trans reply
      refine ⟨[], bound, count, h, ?_, reaches, fun j below => ?_⟩
      · rw [← act, ← answer]; rfl
      · by_cases old : j < (History.log start.queue.capacity h).published
        · exact earlier.covered opened old
        · rw [← earlier.written opened]
          exact written j (Nat.not_lt.mp old) below

theorem Run.dispatched (opened : start.Opened) (run : Run start h s) {index : Nat}
    (published : index < (h.log start.queue.capacity).published) : h.Dispatched index :=
  (run.orderly opened).dispatched opened published

theorem Run.found (opened : start.Opened) {index : UInt64} {record : Record}
    (run : Run start (⟨.fetch index, .found (some record)⟩ :: h) s)
    (above : h.retired ≤ index.toNat)
    (below : index.toNat < h.retired + start.queue.capacity) :
    index.toNat < (h.log start.queue.capacity).published ∧
      ∃ original, h.written index.toNat = some original ∧ record = original.activated := by
  obtain ⟨before, earlier, _⟩ := run.last
  obtain ⟨tracks, capacity, _⟩ := earlier.tracks opened
  have window : (h.log start.queue.capacity).Window start.queue.capacity index.toNat := by
    rw [← capacity] at below ⊢
    rw [← tracks.retired] at above below
    exact ⟨above, below⟩
  have answer := run.answer opened window
  simp only [Log.perform, Reply.found.injEq, Log.fetch, earlier.written opened] at answer
  split at answer
  next published =>
    obtain ⟨original, written, same⟩ := Option.map_eq_some_iff.mp answer.symm
    exact ⟨published, original, written, same.symm⟩
  · cases answer

theorem Run.settled {later : History} (opened : start.Opened) (run : Run start h s)
    (longer : Run start (later ++ h) s') {index : Nat}
    (published : index < (h.log start.queue.capacity).published) :
    History.written (later ++ h) index = h.written index := by
  rw [← run.written opened, ← longer.written opened]
  exact History.log_settled later h published

theorem Run.retirement_act {a : Act} (opened : start.Opened)
    (run : Run start (⟨a, .retired⟩ :: h) s) : ∃ index, a = .retire index := by
  obtain ⟨before, _, _, reply, _⟩ := run.last
  have answer := run.answer opened
  cases a with
  | fetch index => exact absurd reply.symm (fetch_reply before index)
  | retire index => exact ⟨index, rfl⟩
  | produce a =>
    have step := @Log.perform_step start.queue.capacity (.produce a)
      (h.log start.queue.capacity)
    rw [← answer trivial] at step
    obtain ⟨index, same, _⟩ := step.retirement
    cases same

theorem Run.retirement {index : UInt64} (opened : start.Opened)
    (run : Run start (⟨.retire index, .retired⟩ :: h) s) :
    index.toNat = h.retired ∧ index.toNat < (h.log start.queue.capacity).published ∧
      ∃ record, h.written index.toNat = some record ∧ h.Obtained index record.activated := by
  obtain ⟨before, earlier, allowed, _⟩ := run.last
  obtain ⟨tracks, capacity, _⟩ := earlier.tracks opened
  have current : index.toNat = (h.log start.queue.capacity).retired := by
    have answer := run.answer opened trivial
    simp only [Log.perform, Log.retire] at answer
    split at answer
    next current => exact current
    · cases answer
  rw [← capacity] at current
  obtain ⟨later, record, old, whole, few⟩ := tracks.fetched allowed current
  rw [tracks.retired] at current
  have split : h.retired = History.retired later + History.retired old := by
    rw [whole]
    simp [History.retired]
  rw [whole] at earlier
  obtain ⟨_, fetched⟩ := Run.earlier earlier
  obtain ⟨published, original, written, same⟩ := fetched.found opened (by omega) (by omega)
  have settled := fetched.settled opened earlier published
  have still := @History.log_published_le start.queue.capacity
    (later ++ [⟨.fetch index, .found (some record)⟩]) old
  rw [List.append_assoc, List.singleton_append] at still
  refine ⟨current, ?_, original, ?_, later, old, by rw [whole, same]⟩
  · rw [whole]; exact Nat.lt_of_lt_of_le published still
  · rw [whole]; exact settled.trans written

theorem Run.delivered (opened : start.Opened) (run : Run start h s) :
    h.delivered = (List.range h.retired).reverse := by
  induction h generalizing s with
  | nil => rfl
  | cons e h ih =>
    obtain ⟨before, earlier, _⟩ := run.last
    have rest := ih earlier
    rw [History.retired_cons]
    by_cases retired : e.reply = .retired
    · obtain ⟨act, reply⟩ := e
      subst retired
      obtain ⟨index, rfl⟩ := run.retirement_act opened
      obtain ⟨current, _⟩ := run.retirement opened
      calc History.delivered (⟨.retire index, .retired⟩ :: h)
        _ = index.toNat :: History.delivered h := rfl
        _ = History.retired h :: (List.range (History.retired h)).reverse := by rw [current, rest]
        _ = _ := by rw [if_pos rfl, List.range_succ, List.reverse_append]; rfl
    · have kept : History.delivered (e :: h) = History.delivered h := by
        simp only [History.delivered, List.filterMap_cons]
        split
        · rfl
        next same => split at same <;> simp_all
      rw [if_neg retired, kept]
      exact rest

theorem Tracks.fetch_found (tracks : s.Tracks h) {index : UInt64}
    (above : s.read ≤ index.toNat) (below : index.toNat < s.published) :
    ∃ record, h.written index.toNat = some record ∧
      s.perform (.fetch index) = (.found (some record.activated), s) := by
  obtain ⟨read, published, _⟩ := tracks.counters
  have shows := tracks.shows
  have room := shows.sound.published_le
  rw [read] at above
  rw [published] at below
  obtain ⟨record, written⟩ :=
    Option.isSome_iff_exists.mp (shows.sound.covered index.toNat below)
  have window : (h.log s.queue.capacity).Window s.queue.capacity index.toNat :=
    ⟨above, by omega⟩
  have done := shows.fetch_ok window
  rw [Log.fetch, if_pos below, written, ← tracks.port] at done
  rw [tracks.written] at written
  refine ⟨record, written, ?_⟩
  rw [Ring.perform]
  exact consume_ok done

-- The ring against the log for all that is asked in turn, and each packet on its way.
theorem run_delivers {later : History} (opened : start.Opened) (run : Run start h s)
    (longer : Run start (later ++ h) s') :
    (∀ a, s.Allowed h a → s.InTurn a →
      (s.perform a).1 = ((h.log start.queue.capacity).perform start.queue.capacity a).1) ∧
    (∀ index : UInt64, s.read ≤ index.toNat → index.toNat < s.published →
      ∃ record, h.written index.toNat = some record ∧
        History.written (later ++ h) index.toNat = some record ∧ h.Dispatched index.toNat ∧
        s.perform (.fetch index) = (.found (some record.activated), s) ∧
        (s'.read ≤ index.toNat →
          s'.perform (.fetch index) = (.found (some record.activated), s'))) ∧
    h.delivered = (List.range s.read).reverse ∧
    (∀ (after before : History) (index : UInt64), h = after ++ ⟨.retire index, .retired⟩ :: before →
      index.toNat = before.retired ∧ ∃ record, h.written index.toNat = some record ∧
        before.Obtained index record.activated ∧ before.Dispatched index.toNat) := by
  obtain ⟨tracks, capacity, _⟩ := run.tracks opened
  obtain ⟨tracks', capacity', _⟩ := longer.tracks opened
  obtain ⟨read, published, _⟩ := tracks.counters
  obtain ⟨read', published', _⟩ := tracks'.counters
  rw [capacity] at read published
  rw [capacity'] at read' published'
  refine ⟨fun a allowed inTurn => run.reply opened a allowed ?_, fun index above below => ?_, ?_,
    fun after before index whole => ?_⟩
  · cases a with
    | fetch index =>
      have room := tracks.shows.sound.published_le
      rw [capacity] at room
      have above : s.read ≤ index.toNat := inTurn.1
      have below : index.toNat < s.published := inTurn.2
      exact ⟨by omega, by omega⟩
    | _ => trivial
  · obtain ⟨record, written, found⟩ := tracks.fetch_found above below
    rw [published] at below
    have settled := run.settled opened longer below
    refine ⟨record, written, settled.trans written, run.dispatched opened below, found, ?_⟩
    intro waiting
    have still := @History.log_published_le start.queue.capacity later h
    obtain ⟨_, written', found'⟩ := tracks'.fetch_found waiting (by omega)
    rw [settled, written] at written'
    cases written'
    exact found'
  · rw [read, ← capacity, tracks.retired]
    exact run.delivered opened
  · rw [whole] at run
    obtain ⟨_, retirement⟩ := Run.earlier run
    obtain ⟨_, earlier, _⟩ := retirement.last
    obtain ⟨current, published, record, written, obtained⟩ := retirement.retirement opened
    refine ⟨current, record, ?_, obtained, earlier.dispatched opened published⟩
    have still := Nat.lt_of_lt_of_le published
      (@Log.perform_step start.queue.capacity (.retire index) _).published_le
    rw [whole]
    exact (retirement.settled opened run still).trans written

-- The last packet stands in the slot of the first, and waits behind the second.
theorem run_delivers_sample : ∃ s s' h later, sample.Opened ∧ Run sample h s ∧
    Run sample (later ++ h) s' ∧ h.delivered = [0] ∧
    s.perform (.fetch 2) = (.found (some (Command.encode (.deviceInit 3)).activated), s) ∧
    s'.perform (.fetch 2) = (.found (some (Command.encode (.deviceInit 3)).activated), s') := by
  have two := sample_capacity
  obtain ⟨s, run⟩ := sample_run
  obtain ⟨_, longer⟩ := run.deliver sample_opened 1
    (Command.encode (.deviceInit 2)).activated (by rw [two]; decide)
    (by rw [two]; decide)
  obtain ⟨tracks, capacity, _⟩ := run.tracks sample_opened
  obtain ⟨tracks', capacity', _⟩ := longer.tracks sample_opened
  obtain ⟨read, published, _⟩ := tracks.counters
  obtain ⟨read', _⟩ := tracks'.counters
  rw [capacity, two] at read published
  rw [capacity', two] at read'
  replace longer : Run sample ([_, _] ++ sampleHistory) _ := longer
  obtain ⟨_, found, delivered, _⟩ := run_delivers sample_opened run longer
  obtain ⟨record, written, _, _, now, still⟩ :=
    found 2 (by rw [read]; decide) (by rw [published]; decide)
  have same : record = Command.encode (.deviceInit 3) := (Option.some.inj written).symm
  subst same
  refine ⟨s, _, _, [_, _], sample_opened, run, longer, ?_, now, still (by rw [read']; decide)⟩
  rw [delivered, read]
  decide

end Ring

end FabricQueue
