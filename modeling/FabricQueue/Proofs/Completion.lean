import FabricQueue.Proofs.Delivery
import FabricQueue.Proofs.Waits

set_option autoImplicit false

namespace FabricQueue

-- No record was stored that looks finished already.
def History.Signalled (h : History) : Prop :=
  ∀ e ∈ h, ∀ stored ∈ e.stored?, stored.2.signal ≠ signalDone

instance (h : History) : Decidable h.Signalled :=
  inferInstanceAs (Decidable (∀ e ∈ h, ∀ stored ∈ e.stored?, stored.2.signal ≠ signalDone))

theorem History.Signalled.written {h : History} (signalled : h.Signalled) {j : Nat}
    {record : Record} (written : h.written j = some record) : record.signal ≠ signalDone := by
  induction h with
  | nil => cases written
  | cons e h ih =>
    have rest := ih fun e member => signalled e (List.mem_cons_of_mem _ member)
    rw [History.written] at written
    split at written
    next index stored found =>
      split at written
      · cases written
        exact signalled e List.mem_cons_self _ found
      · exact rest written
    · exact rest written

theorem History.Signalled.quiet {h : History} {a : Act} {reply : Reply} (signalled : h.Signalled)
    (quiet : a.stores? = none) : History.Signalled (⟨a, reply⟩ :: h) := by
  intro e member stored accepted
  rcases List.mem_cons.mp member with rfl | old
  · have stores := Entry.stores_of_stored accepted
    rw [quiet] at stores
    cases stores
  · exact signalled e old stored accepted

namespace Ring

variable {start s s' : Ring} {h : History}

theorem Tracks.isComplete (tracks : s.Tracks h) (signalled : h.Signalled) (index : UInt64) :
    s.queue.isComplete index s.memory = .ok (decide (index.toNat < s.read)) s.memory := by
  obtain ⟨read, _, _⟩ := tracks.counters
  rw [read]
  refine tracks.shows.isComplete_pending (fun j record _ _ written => ?_) index
  rw [tracks.written] at written
  exact signalled.written written

def handle : QueueHandle Ring where
  use := fun use s =>
    match use s.queue s.memory with
    | .ok (a, queue) memory => .ok a { s with queue, memory }
    | .error failure memory => .error failure { s with memory }

-- The ring went on with a run, and with pending signals.
def GoesOn (start : Ring) (h : History) (s : Ring) : Prop :=
  ∃ later, Run start (later ++ h) s ∧ History.Signalled (later ++ h)

theorem use_ok {α : Type} {use : Queue → Access (α × Queue)} {a : α} {queue : Queue}
    {memory : Memory} (done : use s.queue s.memory = .ok (a, queue) memory) :
    handle.use use s = .ok a { s with queue, memory } := by
  simp only [handle, done]

theorem ask_ok {α : Type} {use : Queue → Access α} {a : α}
    (done : use s.queue s.memory = .ok a s.memory) : handle.ask use s = .ok a s := by
  simp only [QueueHandle.ask, handle, bind_ok done]
  rfl

theorem ask_error {α : Type} {use : Queue → Access α} {failure : Failure}
    (failed : use s.queue s.memory = .error failure s.memory) :
    handle.ask use s = .error failure s := by
  simp only [QueueHandle.ask, handle, bind_error failed]

theorem use_produce {α : Type} {use : Queue → Access (α × Queue)} (a : Production)
    (say : α → Reply) (same : Queue.produce a = Queue.answer say use) {P : Ring → Prop}
    (keeps : ∀ s, P s → P (s.perform (.produce a)).2) :
    Leads P (fun _ _ => True) (handle.use use) := by
  intro s holds
  have after := keeps s holds
  rw [perform, same, Queue.answer] at after
  simp only [handle]
  cases run : use s.queue s.memory with
  | ok result memory =>
    rw [run] at after
    exact ⟨after, trivial⟩
  | error failure memory =>
    rw [run] at after
    exact after

theorem GoesOn.produce (a : Production)
    (signalled : ∀ stored ∈ Act.stores? (.produce a), stored.2.signal ≠ signalDone)
    (goesOn : GoesOn start h s) :
    GoesOn start h (s.perform (.produce a)).2 := by
  obtain ⟨later, run, pending⟩ := goesOn
  refine ⟨⟨_, _⟩ :: later, run.next (.produce a) trivial, fun e member stored accepted => ?_⟩
  rcases List.mem_cons.mp member with rfl | old
  · exact signalled stored (Entry.stores_of_stored accepted)
  · exact pending e old stored accepted

theorem GoesOn.ask {α : Type} {use : Queue → Access α} {Q : α → Ring → Prop}
    (answers : ∀ s, GoesOn start h s → ∃ a, use s.queue s.memory = .ok a s.memory ∧ Q a s) :
    Leads (GoesOn start h) Q (handle.ask use) := by
  intro s goesOn
  obtain ⟨a, done, known⟩ := answers s goesOn
  rw [ask_ok done]
  exact ⟨goesOn, known⟩

-- Others do what a run allows.
def Others (start : Ring) (ticks : List (Tick Ring)) : Prop :=
  ∀ tick ∈ ticks, ∀ h pause s, GoesOn start h s → GoesOn start h (tick.evolve pause s)

-- Every index up to this one was retired.
def RetiredUpTo (start : Ring) (h : History) (index : Nat) (s : Ring) : Prop :=
  ∃ later, Run start (later ++ h) s ∧ ∀ j ≤ index, j ∈ History.delivered (later ++ h)

theorem Run.polled (opened : start.Opened) (run : Run start h s) (signalled : h.Signalled)
    (index : UInt64) : handle.ask (fun q => q.isComplete index) s =
      .ok (decide (index.toNat < h.retired)) s := by
  obtain ⟨tracks, _⟩ := run.tracks opened
  rw [← tracks.read_eq]
  exact ask_ok (tracks.isComplete signalled index)

theorem ask_isComplete (opened : start.Opened) (index : UInt64) :
    Leads (GoesOn start h) (fun held s => held = true → RetiredUpTo start h index.toNat s)
      (handle.ask fun q => q.isComplete index) := by
  intro s goesOn
  have ⟨later, run, signalled⟩ := goesOn
  rw [run.polled opened signalled index]
  refine ⟨goesOn, fun held => ⟨later, run, fun j below => ?_⟩⟩
  have retired := of_decide_eq_true held
  rw [run.delivered opened, List.mem_reverse, List.mem_range]
  omega

theorem ask_writeIndex (opened : start.Opened) :
    Leads (GoesOn start h) (fun _ _ => True) (handle.ask fun q => q.writeIndex) := by
  apply GoesOn.ask
  intro s goesOn
  obtain ⟨later, run, _⟩ := goesOn
  exact ⟨_, (run.tracks opened).1.shows.carries.writeIndex_ok, trivial⟩

theorem ask_hasRoom (opened : start.Opened) {use : Queue → Access Bool}
    (asks : ∀ (s : Ring) (h : History), s.Tracks h →
      ∃ index, use s.queue s.memory = s.queue.hasRoom index s.memory) :
    Leads (GoesOn start h) (fun _ _ => True) (handle.ask use) := by
  intro s goesOn
  have ⟨later, run, _⟩ := goesOn
  obtain ⟨tracks, _⟩ := run.tracks opened
  obtain ⟨index, same⟩ := asks s _ tracks
  rw [tracks.shows.hasRoom_ok] at same
  split at same
  · rw [ask_ok same]; exact ⟨goesOn, trivial⟩
  · rw [ask_error same]; exact goesOn

theorem enqueue_goesOn (opened : start.Opened) (command : Command) (policy : WaitPolicy)
    {seen : Observation Ring} (others : Others start (seen policy)) :
    Leads (GoesOn start h) (fun _ _ => True) (handle.enqueue command policy seen) := by
  refine QueueHandle.enqueue_leads policy (ask_writeIndex opened)
    (fun index => ask_hasRoom opened fun s h _ => ⟨index, rfl⟩)
    (ask_hasRoom opened fun s h tracks => ⟨_, bind_ok tracks.shows.carries.writeIndex_ok⟩)
    ?_ (fun index => ?_) (fun tick member pause s => others tick member h pause s)
  · refine use_produce (.reserve 1) .index rfl fun s => GoesOn.produce _ ?_
    intro stored stores
    cases stores
  · refine use_produce (.writePacket index command) .packet rfl fun s =>
      GoesOn.produce _ ?_
    intro stored stores
    cases stores
    rw [Command.encode_signal]
    decide

theorem dispatch_goesOn (bound : UInt64) :
    Leads (GoesOn start h) (fun _ _ => True) (handle.dispatch bound) := by
  have publishes : Leads (GoesOn start h) (fun _ _ => True)
      (handle.use fun q => q.publish bound) := by
    refine use_produce (.dispatch bound) .published rfl fun s => GoesOn.produce _ ?_
    intro stored stores
    cases stores
  exact leads_bind publishes fun _ _ goesOn _ => ⟨goesOn, trivial⟩

theorem complete_iff_retired {later : History} (opened : start.Opened) (run : Run start h s)
    (longer : Run start (later ++ h) s') (signalled : History.Signalled (later ++ h)) :
    (∀ index, s.queue.isComplete index s.memory =
      .ok (decide (index.toNat < s.read)) s.memory) ∧
    (∀ index, s.queue.isComplete index s.memory = .ok true s.memory →
      s'.queue.isComplete index s'.memory = .ok true s'.memory) ∧
    (∀ packet policy seen, Others start (seen policy) →
      (∀ r, handle.wait packet policy seen s = .ok () r →
        RetiredUpTo start h packet.index.toNat r) ∧
      ∀ bound r, handle.dispatchAndWait bound packet policy seen s = .ok () r →
        RetiredUpTo start h packet.index.toNat r) ∧
    (∀ command policy seen, Others start (seen policy) →
      Ends (GoesOn start h) (fun _ _ => True) (handle.enqueue command policy seen s)) := by
  obtain ⟨tracks, _⟩ := run.tracks opened
  obtain ⟨tracks', _⟩ := longer.tracks opened
  have now : h.Signalled := fun e member => signalled e (List.mem_append_right _ member)
  have goesOn : GoesOn start h s := ⟨[], run, now⟩
  refine ⟨tracks.isComplete now, fun index complete => ?_, fun packet policy seen others => ?_,
    fun command policy seen others => enqueue_goesOn opened command policy others s goesOn⟩
  · rw [tracks.isComplete now] at complete
    simp only [EStateM.Result.ok.injEq, and_true, decide_eq_true_eq] at complete
    have read := History.retired_append later h
    rw [tracks.read_eq] at complete
    rw [tracks'.isComplete signalled, tracks'.read_eq, decide_eq_true (by omega)]
  · have evolves : ∀ tick ∈ seen policy, ∀ pause r, GoesOn start h r →
        GoesOn start h (tick.evolve pause r) := fun tick member => others tick member h
    have asks := ask_isComplete (h := h) opened packet.index
    refine ⟨fun r done => ?_, fun bound r done => ?_⟩
    · have ends := QueueHandle.wait_leads packet policy asks evolves s goesOn
      rw [done] at ends
      exact ends.2
    · have ends := QueueHandle.dispatchAndWait_leads bound packet policy (dispatch_goesOn bound)
        asks evolves s goesOn
      rw [done] at ends
      exact ends.2

-- A consumer that takes the packet at the read index, if it is there.
def serve (s : Ring) : Ring :=
  let index := (s.queue.region.cells s.memory).readIndex
  match s.perform (.fetch index) with
  | (.found (some _), fetched) => (fetched.perform (.retire index)).2
  | (_, fetched) => fetched

def served : Observation Ring :=
  fun _ => [{ evolve := fun _ s => s.serve }, { evolve := fun _ s => s.serve }]

theorem serve_goesOn (opened : start.Opened) (goesOn : GoesOn start h s) :
    GoesOn start h s.serve := by
  obtain ⟨later, run, signalled⟩ := goesOn
  have fetched := run.next (.fetch (s.queue.region.cells s.memory).readIndex) trivial
  simp only [serve]
  split
  next record after found =>
    rw [found] at fetched
    have retired := fetched.next (.retire _) (fetched.allowed opened)
    exact ⟨⟨.retire _, _⟩ :: ⟨.fetch _, _⟩ :: later, retired, (signalled.quiet rfl).quiet rfl⟩
  next reply after _ found =>
    rw [found] at fetched
    exact ⟨⟨.fetch _, reply⟩ :: later, fetched, signalled.quiet rfl⟩

theorem serve_eq (opened : start.Opened) (run : Run start h s) (index : UInt64)
    (record : Record) (current : index.toNat = (h.log start.queue.capacity).retired)
    (found : (h.log start.queue.capacity).fetch index = some record) :
    Run start (⟨.retire index, .retired⟩ :: ⟨.fetch index, .found (some record)⟩ :: h) s.serve := by
  obtain ⟨tracks, capacity, _⟩ := run.tracks opened
  obtain ⟨reply, retired⟩ := run.deliver opened index record current found
  have read : (s.queue.region.cells s.memory).readIndex = index := by
    rw [tracks.shows.readIndex_eq, capacity, ← current, UInt64.ofNat_toNat]
  simp only [serve, read]
  split
  next after fetched => rw [fetched] at retired; exact retired
  next after other fetched =>
    rw [fetched] at reply
    exact absurd reply (other record)

-- A wait for the last of three packets, through which the consumer takes two of them.
theorem complete_iff_retired_sample : ∃ s s' h later, sample.Opened ∧ Run sample h s ∧
    Run sample (later ++ h) s' ∧ History.Signalled (later ++ h) ∧
    Others sample (served .indefinite) ∧ handle.wait ⟨2, 0⟩ .indefinite served s = .ok () s' ∧
    RetiredUpTo sample h 2 s' := by
  have two := sample_capacity
  have opened := sample_opened
  obtain ⟨s, run⟩ := sample_run
  have second := serve_eq opened run 1 (Command.encode (.deviceInit 2)).activated
    (by rw [two]; decide)
    (by rw [two]; decide)
  have third := serve_eq opened second 2 (Command.encode (.deviceInit 3)).activated
    (by rw [two]; decide)
    (by rw [two]; decide)
  have others : Others sample (served .indefinite) := by
    intro tick member h pause s goesOn
    simp only [served, List.mem_cons, List.not_mem_nil, or_false, or_self] at member
    subst member
    exact serve_goesOn opened goesOn
  have signalled : History.Signalled ([⟨.retire 2, .retired⟩,
      ⟨.fetch 2, .found (some (Command.encode (.deviceInit 3)).activated)⟩, ⟨.retire 1, .retired⟩,
      ⟨.fetch 1, .found (some (Command.encode (.deviceInit 2)).activated)⟩] ++ sampleHistory) := by
    decide
  have waited : handle.wait ⟨2, 0⟩ .indefinite served s = .ok () s.serve.serve := by
    refine (bind_ok (a := 3) ?_).trans rfl
    apply (WaitPolicy.go_again _ _ _ (run.polled opened (by decide) 2)).trans
    apply (WaitPolicy.go_again _ _ _ (second.polled opened (by decide) 2)).trans
    exact WaitPolicy.go_done _ _ _ (third.polled opened signalled 2)
  obtain ⟨_, _, waits, _⟩ := complete_iff_retired opened run third signalled
  exact ⟨s, _, _, _, opened, run, third, signalled, others, waited,
    (waits _ _ _ others).1 _ waited⟩

end Ring

end FabricQueue
