import FabricQueue.Proofs.Polling
import FabricQueue.Proofs.Signals

set_option autoImplicit false

namespace FabricQueue

theorem left_bind {σ α β : Type} {x : EStateM Failure σ α} {next : α → EStateM Failure σ β}
    (reads : ∀ a s, left (next a s) = s) (s : σ) : left ((x >>= next) s) = left (x s) := by
  cases run : x s with
  | ok a s' => rw [bind_ok run]; exact reads a s'
  | error failure s' => rw [bind_error run]; rfl

theorem Region.read64_left (r : Region) (offset : Nat) (m : Memory) :
    left (r.read64 offset m) = m := by
  rw [read64, access]
  cases r.locate offset 8 8 <;> rfl

theorem Queue.isComplete_left (q : Queue) (index : UInt64) (m : Memory) :
    left (q.isComplete index m) = m := by
  have published (m : Memory) : left (q.published m) = m := by
    rw [Queue.published, Region.published, map_eq_pure_bind]
    exact (left_bind (fun _ _ => rfl) m).trans (q.region.read64_left _ m)
  refine (left_bind (fun readIndex m => ?_) m).trans (q.region.read64_left _ m)
  split
  · rfl
  refine (left_bind (fun count m => ?_) m).trans (published m)
  split
  · rfl
  · exact (left_bind (fun _ _ => rfl) m).trans (q.region.read64_left _ m)

namespace WaitPolicy

variable {σ : Type}

def evolved (p : WaitPolicy) : (polls backoff : Nat) → List (Tick σ) → σ → σ
  | _, _, [], s => s
  | polls, backoff, tick :: rest, s =>
    p.evolved (polls + 1) (p.nextBackoff polls backoff) rest
      (tick.evolve (p.pause polls backoff) s)

theorem go_left (p : WaitPolicy) (condition : EStateM Failure σ Bool) (ticks : List (Tick σ))
    (polls backoff : Nat) (s : σ) :
    left (pollUntil.go p condition polls backoff ticks s) = left (condition s) ∨
      ∃ tick rest, ticks = tick :: rest ∧
        pollUntil.go p condition polls backoff ticks s =
          pollUntil.go p condition (polls + 1) (p.nextBackoff polls backoff) rest
            (tick.evolve (p.pause polls backoff) (left (condition s))) := by
  cases poll : condition s with
  | error failure s' => rw [p.go_failed _ _ poll]; exact .inl rfl
  | ok held s' =>
    cases held with
    | true => rw [p.go_done _ _ poll]; exact .inl rfl
    | false =>
      cases ticks with
      | nil => rw [p.go_gives_up _ _ poll]; exact .inl rfl
      | cons tick rest =>
        rw [p.go_again _ _ poll]
        cases p.cancelled || tick.cancelled with
        | true => exact .inl rfl
        | false =>
          cases p.expired tick.elapsed with
          | some cause => exact .inl rfl
          | none => exact .inr ⟨tick, rest, rfl, rfl⟩

theorem go_evolved (p : WaitPolicy) {condition : EStateM Failure σ Bool}
    (reads : ∀ s, left (condition s) = s) (ticks : List (Tick σ)) (polls backoff : Nat) (s : σ) :
    ∃ passed, passed <+: ticks ∧
      left (pollUntil.go p condition polls backoff ticks s) = p.evolved polls backoff passed s := by
  induction ticks generalizing polls backoff s with
  | nil =>
    obtain ended | ⟨_, _, more, _⟩ := p.go_left condition [] polls backoff s
    · exact ⟨[], List.nil_prefix, ended.trans (reads s)⟩
    · cases more
  | cons tick rest ih =>
    obtain ended | ⟨_, _, more, pauses⟩ := p.go_left condition (tick :: rest) polls backoff s
    · exact ⟨[], List.nil_prefix, ended.trans (reads s)⟩
    · cases more
      rw [reads] at pauses
      obtain ⟨passed, before, same⟩ := ih (polls + 1) (p.nextBackoff polls backoff)
        (tick.evolve (p.pause polls backoff) s)
      exact ⟨tick :: passed, List.cons_prefix_cons.mpr ⟨rfl, before⟩,
        (congrArg left pauses).trans same⟩

end WaitPolicy

namespace Ring

structure Retains (s s' : Ring) : Prop where
  capacity : s'.queue.capacity = s.queue.capacity
  read : s'.read = s.read
  signal : ∀ slot, (s'.cell slot).signal = (s.cell slot).signal

variable {start s s' : Ring} {h : History}

theorem Retains.trans {s'' : Ring} (first : s.Retains s') (second : s'.Retains s'') : s.Retains s'' :=
  ⟨second.capacity.trans first.capacity, second.read.trans first.read,
    fun slot => (second.signal slot).trans (first.signal slot)⟩

theorem Laid.advance_retains (laid : s.Laid) : s.Retains s.advance := by
  have changed := laid.advance_cells
  refine ⟨rfl, (congrArg (fun c => (Cells.readIndex c).toNat) changed).trans rfl, fun slot => ?_⟩
  refine (congrArg (fun c => (Cells.slots c slot).signal) changed).trans ?_
  by_cases here : slot = s.queue.slot s.queue.tail
  · rw [here, Cells.place_slot]
    rfl
  · rw [Cells.place_other _ _ here]
    rfl

theorem Laid.iterate_retains (laid : s.Laid) (n : Nat) : s.Retains (Ring.advance^[n] s) := by
  induction n generalizing s with
  | zero => exact ⟨rfl, rfl, fun _ => rfl⟩
  | succ n ih => exact laid.advance_retains.trans (ih laid.advance)

theorem Laid.ring_retains (laid : s.Laid) : s.Retains s.ring := by
  have changed := laid.carries.cells_header Layout.doorbellAt (s.queue.tail - 1) (by decide)
    (by decide)
  exact ⟨rfl, (congrArg (fun c => (Cells.readIndex c).toNat) changed).trans rfl,
    fun slot => (congrArg (fun c => (Cells.slots c slot).signal) changed).trans rfl⟩

theorem Laid.publish_retains (laid : s.Laid) (count : Nat) : s.Retains (s.publish count) := by
  unfold Ring.publish
  split
  · exact laid.iterate_retains 0
  · exact (laid.iterate_retains _).trans (laid.iterate _).ring_retains

theorem Laid.isComplete (laid : s.Laid) (index : UInt64) :
    s.queue.isComplete index s.memory = .ok (decide (index.toNat < s.read) ||
      decide (index.toNat < s.published) &&
        (s.cell (index.toNat % s.queue.capacity)).signal == signalDone) s.memory := by
  rw [Queue.isComplete_cells laid.carries laid.positive]
  simp only [UInt64.lt_iff_toNat_lt]
  rfl

theorem Upholds.stays_complete (upholds : s.Upholds h) {index bound : UInt64}
    (reserved : bound.toNat < s.write)
    (complete : s.queue.isComplete index s.memory = .ok true s.memory) :
    (s.dispatch bound).queue.isComplete index (s.dispatch bound).memory =
      .ok true (s.dispatch bound).memory := by
  have laid := upholds.laid
  have after : (s.dispatch bound).Laid := (laid.dispatch reserved).1
  have doorbell : (s.dispatch bound).published = (s.dispatch bound).queue.tail.toNat :=
    (upholds.dispatch bound).doorbell
  have retains : s.Retains (s.dispatch bound) := by
    rw [laid.dispatch_eq reserved]
    exact laid.publish_retains _
  have further : s.published ≤ (s.dispatch bound).published := by
    rw [doorbell, upholds.doorbell, laid.dispatch_eq reserved,
      publish_tail (reserved_narrow reserved).2]
    exact Nat.le_add_right _ _
  rw [laid.isComplete] at complete
  rw [after.isComplete, retains.read, retains.capacity, retains.signal]
  simp only [EStateM.Result.ok.injEq, and_true, Bool.or_eq_true, Bool.and_eq_true,
    decide_eq_true_eq] at complete ⊢
  exact complete.imp_right fun held => ⟨Nat.lt_of_lt_of_le held.1 further, held.2⟩

theorem ask_left (index : UInt64) (s : Ring) :
    left (handle.ask (fun q => q.isComplete index) s) = s := by
  have kept := s.queue.isComplete_left index s.memory
  cases run : s.queue.isComplete index s.memory with
  | ok held memory =>
    rw [run] at kept
    cases kept
    rw [ask_ok run]
    rfl
  | error failure memory =>
    rw [run] at kept
    cases kept
    rw [ask_error run]
    rfl

theorem use_dispatch (index : UInt64) :
    (∀ count, s.perform (.produce (.dispatch index)) = (.published count, s') →
      handle.dispatch index s = .ok () s') ∧
    ∀ failure, s.perform (.produce (.dispatch index)) = (.failed failure, s') →
      handle.dispatch index s = .error failure s' := by
  rw [perform, Queue.produce]
  cases run : s.queue.publish index s.memory with
  | ok result memory =>
    obtain ⟨count, queue⟩ := result
    rw [Queue.answer_ok run]
    refine ⟨fun _ done => ?_, fun _ failed => ?_⟩
    · cases done
      exact (bind_ok (use_ok run)).trans rfl
    · cases failed
  | error failure memory =>
    rw [Queue.answer_error run]
    refine ⟨fun _ done => ?_, fun _ failed => ?_⟩
    · cases done
    · cases failed
      exact (bind_error (by simp only [handle, run])).trans rfl

theorem Laid.use_dispatch (laid : s.Laid) {index : UInt64} (reserved : index.toNat < s.write) :
    handle.dispatch index s = .ok () (s.dispatch index) := by
  rw [laid.dispatch_eq reserved]
  exact (Ring.use_dispatch index).1 _ (laid.perform_dispatch reserved)

theorem Laid.dispatch_again (laid : s.Laid) {index : UInt64} (reserved : index.toNat < s.write) :
    (s.dispatch index).dispatch index = s.dispatch index := by
  have furthest : max index index = index := by
    apply UInt64.toNat_inj.mp
    rw [toNat_max, max_self]
  rw [laid.dispatch_dispatch reserved reserved, furthest]

theorem wait_complete {packet : PacketRef}
    (complete : s.queue.isComplete packet.index s.memory = .ok true s.memory)
    (policy : WaitPolicy) (seen : Observation Ring) : handle.wait packet policy seen s = .ok () s :=
  (bind_ok (policy.go_done 1 1000 (ask_ok complete))).trans rfl

theorem dispatchAndWait_complete {index : UInt64} {packet : PacketRef}
    (dispatched : handle.dispatch index s = .ok () s')
    (complete : s'.queue.isComplete packet.index s'.memory = .ok true s'.memory)
    (policy : WaitPolicy) (seen : Observation Ring) :
    handle.dispatchAndWait index packet policy seen s = .ok () s' :=
  (bind_ok dispatched).trans ((bind_ok (ask_ok complete)).trans rfl)

theorem wait_left (packet : PacketRef) (policy : WaitPolicy) (seen : Observation Ring) (s : Ring) :
    ∃ passed, passed <+: seen policy ∧
      left (handle.wait packet policy seen s) = policy.evolved 1 1000 passed s := by
  obtain ⟨passed, before, same⟩ :=
    policy.go_evolved (ask_left packet.index) (seen policy) 1 1000 s
  exact ⟨passed, before, (left_bind (fun _ _ => rfl) s).trans same⟩

-- What it comes to, to publish up to an index and wait for a packet.
structure Concludes (s : Ring) (index : UInt64) (packet : PacketRef) : Prop where
  dispatched : index.toNat < s.write → handle.dispatch index s = .ok () (s.dispatch index) ∧
    ∃ most, IsGreatest {bound | s.queue.Publishable index bound} most ∧
      s.Publishes most (s.dispatch index)
  refused : s.write ≤ index.toNat → ∀ policy seen,
    handle.dispatchAndWait index packet policy seen s = .error (.error (.invalidState
      (.dispatchBeyond index (s.queue.region.cells s.memory).writeIndex))) s
  -- A finished packet holds nobody up.
  waits : s.queue.isComplete packet.index s.memory = .ok true s.memory → ∀ policy seen,
    handle.wait packet policy seen s = .ok () s
  immediate : s.queue.isComplete packet.index s.memory = .ok true s.memory →
    index.toNat < s.write → ∀ policy seen,
      handle.dispatchAndWait index packet policy seen s = .ok () (s.dispatch index)
  again : s.queue.isComplete packet.index s.memory = .ok true s.memory →
    index.toNat < s.write → ∀ policy seen,
      handle.dispatchAndWait index packet policy seen (s.dispatch index) = .ok () (s.dispatch index)
  givenUp : ∀ policy seen failure s',
    handle.dispatchAndWait index packet policy seen s = .error failure s' →
    (failure = .error .cancelled ∨ ∃ time, failure = .error (.timeout time)) →
    index.toNat < s.write ∧ ∃ passed, passed <+: seen policy ∧
      s' = policy.evolved 1 1000 passed (s.dispatch index)

theorem dispatchAndWait_concludes (opened : start.Opened) (led : Led start h s) (index : UInt64)
    (packet : PacketRef) : s.Concludes index packet := by
  have upholds := led.upholds opened
  have laid := upholds.laid
  constructor
  case dispatched =>
    intro reserved
    obtain ⟨narrow, fits⟩ := reserved_narrow reserved
    refine ⟨laid.use_dispatch reserved, _, ready_greatest narrow, ?_⟩
    rw [laid.dispatch_eq reserved]
    exact laid.publishes fits
  case refused =>
    intro beyond policy seen
    exact bind_error ((use_dispatch index).2 _ (laid.perform_refused beyond))
  case waits => exact wait_complete
  case immediate =>
    intro complete reserved
    exact dispatchAndWait_complete (laid.use_dispatch reserved)
      (upholds.stays_complete reserved complete)
  case again =>
    intro complete reserved
    obtain ⟨after, write⟩ := laid.dispatch reserved
    have twice := after.use_dispatch (write ▸ reserved)
    rw [laid.dispatch_again reserved] at twice
    exact dispatchAndWait_complete twice (upholds.stays_complete reserved complete)
  case givenUp =>
    intro policy seen failure s' ended cause
    by_cases reserved : index.toNat < s.write
    · refine ⟨reserved, ?_⟩
      have after := (laid.dispatch reserved).1
      rw [QueueHandle.dispatchAndWait, bind_ok (laid.use_dispatch reserved),
        bind_ok (ask_ok (after.isComplete packet.index))] at ended
      split at ended
      · cases ended
      · have waited := wait_left packet policy seen (s.dispatch index)
        rw [ended] at waited
        exact waited
    · have refused := (use_dispatch index).2 _ (laid.perform_refused (Nat.not_lt.mp reserved))
      rw [QueueHandle.dispatchAndWait, bind_error refused] at ended
      cases ended
      obtain cancelled | ⟨_, late⟩ := cause
      · cases cancelled
      · cases late

-- The token is cancelled from the start. The packet that is retired holds nobody up, the one that is
-- not does, and the third packet is published both times.
theorem dispatchAndWait_concludes_sample : ∃ h s, sample.Opened ∧ Led sample h s ∧ s.write = 3 ∧
    s.queue.isComplete 0 s.memory = .ok true s.memory ∧
    s.published = 2 ∧ (s.dispatch 2).published = 3 ∧
    handle.dispatchAndWait 2 ⟨0, 0⟩ { cancelled := true } (fun _ => []) s = .ok () (s.dispatch 2) ∧
    handle.dispatchAndWait 2 ⟨0, 0⟩ { cancelled := true } (fun _ => []) (s.dispatch 2) =
      .ok () (s.dispatch 2) ∧
    handle.dispatchAndWait 3 ⟨0, 0⟩ { cancelled := true } (fun _ => []) s =
      .error (.error (.invalidState (.dispatchBeyond 3 3))) s ∧
    handle.dispatchAndWait 2 ⟨2, 0⟩ { cancelled := true } (fun _ => [{}]) s =
      .error (.error .cancelled) (s.dispatch 2) := by
  have two := sample_capacity
  have opened := sample_opened
  obtain ⟨_, after⟩ := sample_run
  obtain ⟨s, run, _, _, rfl⟩ := after.last
  obtain ⟨tracks, capacity, _⟩ := run.tracks opened
  obtain ⟨_, published, write⟩ := tracks.counters
  have writeIndex := tracks.shows.writeIndex
  obtain ⟨tracks', capacity', _⟩ := after.tracks opened
  obtain ⟨_, published', _⟩ := tracks'.counters
  rw [capacity, two] at published write writeIndex
  rw [capacity', two] at published'
  have complete := (tracks.isComplete (by decide) 0).trans
    (by rw [tracks.read_eq]; rfl : _ = .ok true s.memory)
  have concludes (index : UInt64) (packet : PacketRef) : s.Concludes index packet :=
    dispatchAndWait_concludes opened (run.orderly opened).led index packet
  have reserved : (2 : UInt64).toNat < s.write := by rw [write]; decide
  have refused := (concludes 3 ⟨0, 0⟩).refused (by rw [write]; decide) { cancelled := true }
    fun _ => []
  rw [writeIndex] at refused
  refine ⟨_, s, opened, (run.orderly opened).led, by rw [write]; decide, complete,
    by rw [published]; decide, published'.trans (by decide),
    (concludes 2 ⟨0, 0⟩).immediate complete reserved _ _,
    (concludes 2 ⟨0, 0⟩).again complete reserved _ _, refused, ?_⟩
  have polled := after.polled opened (by decide) 2
  refine (bind_ok ((concludes 2 ⟨2, 0⟩).dispatched reserved).1).trans ?_
  exact (bind_ok polled).trans (bind_error (WaitPolicy.go_again _ 1 1000 polled))

end Ring

end FabricQueue
