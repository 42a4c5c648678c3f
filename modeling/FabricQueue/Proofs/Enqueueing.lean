import FabricQueue.Proofs.Completion
import FabricQueue.Proofs.Images

set_option autoImplicit false

namespace FabricQueue

theorem Log.Step.own {capacity : Nat} {l l' : Log} {a : Act} {reply : Reply}
    (step : Log.Step capacity l a reply l') (own : ∀ p, a ≠ .produce p) :
    l'.writeIndex = l.writeIndex ∧ l'.published = l.published ∧ l.retired ≤ l'.retired := by
  cases step with
  | refused => exact ⟨rfl, rfl, Nat.le_refl _⟩
  | reserved count => exact absurd rfl (own _)
  | stored stores =>
    cases a with
    | produce p => exact absurd rfl (own p)
    | _ => cases stores
  | published => exact absurd rfl (own _)
  | fetched => exact ⟨rfl, rfl, Nat.le_refl _⟩
  | retired => exact ⟨rfl, rfl, Nat.le_succ _⟩

namespace Ring

variable {start s s' s'' : Ring} {h h' h'' : History}

inductive Consumes (h : History) (s : Ring) : History → Ring → Prop where
  | rest : Consumes h s h s
  | next {h' : History} {s' : Ring} (a : Act) (own : ∀ p, a ≠ .produce p) :
      Consumes h s h' s' → s'.Allowed h' a →
      Consumes h s (⟨a, (s'.perform a).1⟩ :: h') (s'.perform a).2

theorem Consumes.trans (first : Consumes h s h' s') (second : Consumes h' s' h'' s'') :
    Consumes h s h'' s'' := by
  induction second with
  | rest => exact first
  | next a own _ allowed ih => exact .next a own ih allowed

theorem Consumes.run (consumes : Consumes h s h' s') (run : Run start h s) : Run start h' s' := by
  induction consumes with
  | rest => exact run
  | next a _ _ allowed ih => exact ih.next a allowed

-- What a consumer by itself leaves as it was.
structure Spares (s s' : Ring) : Prop where
  queue : s'.queue = s.queue
  write : s'.write = s.write
  published : s'.published = s.published
  read_le : s.read ≤ s'.read
  slots : ∀ slot, (∀ j, s.read ≤ j → j < s'.read → j % s.queue.capacity ≠ slot) →
    s'.image slot = s.image slot

theorem Spares.refl (s : Ring) : s.Spares s :=
  ⟨rfl, rfl, rfl, Nat.le_refl _, fun _ _ => rfl⟩

theorem Spares.trans (first : s.Spares s') (second : s'.Spares s'') : s.Spares s'' := by
  have ordered := first.read_le
  have ordered' := second.read_le
  refine ⟨second.queue.trans first.queue, second.write.trans first.write,
    second.published.trans first.published, by omega, fun slot free => ?_⟩
  rw [second.slots slot fun j low high => ?_, first.slots slot fun j low high => ?_]
  · exact free j low (by omega)
  · rw [first.queue]
    exact free j (by omega) high

theorem perform_queue (s : Ring) {a : Act} (own : ∀ p, a ≠ .produce p) :
    (s.perform a).2.queue = s.queue := by
  cases a with
  | produce p => exact absurd rfl (own p)
  | fetch index => simp only [perform, consume]; split <;> rfl
  | retire index => simp only [perform, consume]; split <;> rfl

theorem Run.spares (opened : start.Opened) (run : Run start h s) {a : Act}
    (own : ∀ p, a ≠ .produce p) (allowed : s.Allowed h a) : s.Spares (s.perform a).2 := by
  obtain ⟨tracks, _⟩ := run.tracks opened
  have follows := tracks.perform_follows a allowed
  have step := @Log.perform_step s.queue.capacity a (h.log s.queue.capacity)
  obtain ⟨writeIndex, bound, retired⟩ := step.own own
  obtain ⟨read, published, write⟩ := tracks.counters
  have read' : (s.perform a).2.read = _ := follows.shows.readIndex
  have published' : (s.perform a).2.published = _ := follows.shows.doorbell
  have write' : (s.perform a).2.write = _ := congrArg UInt64.toNat follows.shows.writeIndex
  refine ⟨s.perform_queue own, by rw [write, write', writeIndex], by omega, by omega,
    fun slot free => tracks.spares allowed ?_⟩
  rintro j (⟨index, record, stored, _⟩ | ⟨low, high⟩ | ⟨low, high⟩)
  · have stores := Entry.stores_of_stored stored
    cases a with
    | produce p => exact absurd rfl (own p)
    | _ => cases stores
  · omega
  · exact free j low high

theorem Consumes.spares (opened : start.Opened) (run : Run start h s)
    (consumes : Consumes h s h' s') : s.Spares s' := by
  induction consumes with
  | rest => exact Spares.refl s
  | next a own earlier allowed ih => exact ih.trans ((earlier.run run).spares opened own allowed)

theorem Run.produced (run : Run start h s) {α : Type} {a : Production}
    {use : Queue → Access (α × Queue)} {say : α → Reply} {result : α} {queue : Queue}
    {memory : Memory} (same : Queue.produce a = Queue.answer say use)
    (done : use s.queue s.memory = .ok (result, queue) memory) :
    Run start (⟨.produce a, say result⟩ :: h) { s with queue, memory } := by
  have next := run.next (.produce a) trivial
  simp only [perform, same, Queue.answer_ok done] at next
  exact next

structure Reserved (s u : Ring) : Prop where
  queue : u.queue = s.queue
  write : u.write = s.write + 1
  read : u.read = s.read
  published : u.published = s.published
  image : u.image = s.image

theorem Run.reserves (opened : start.Opened) (run : Run start h s)
    (few : s.write + 1 < UInt64.size) : ∃ first u,
      handle.ask (fun q => q.reserve 1) s = .ok first u ∧ first.toNat = s.write ∧
      Run start (⟨.produce (.reserve 1), .index first⟩ :: h) u ∧ s.Reserved u := by
  obtain ⟨tracks, _⟩ := run.tracks opened
  obtain ⟨read, published, write⟩ := tracks.counters
  obtain ⟨memory, done, shows, _⟩ := tracks.shows.reserve_ok 1
  refine ⟨_, { s with memory }, use_ok (bind_ok done), write.symm,
    run.produced rfl (bind_ok done), rfl, ?_, ?_, ?_, ?_⟩
  · rw [write] at few ⊢
    exact (congrArg UInt64.toNat shows.writeIndex).trans (toNat_succ few)
  · exact shows.readIndex.trans read.symm
  · exact shows.doorbell.trans published.symm
  · funext slot
    simp only [image, Region.image_cells, tracks.shows.reserve_slots done]

theorem Run.read_le (opened : start.Opened) (run : Run start h s) : s.read ≤ s.published := by
  obtain ⟨tracks, _⟩ := run.tracks opened
  obtain ⟨read, published, _⟩ := tracks.counters
  rw [read, published]
  exact tracks.shows.sound.ordered

end Ring

theorem Queue.writeRecord_queue {q q' : Queue} {m m' : Memory} {index : UInt64} {record : Record}
    {packet : PacketRef} (done : q.writeRecord index record m = .ok (packet, q') m') :
    packet = ⟨index, q.slot index⟩ ∧
      q' = { q with staged := q.staged.setIfInBounds (q.slot index) (some index) } := by
  obtain ⟨_, _, _, done⟩ := bind_cases done
  obtain ⟨_, done⟩ := guard_cases done
  obtain ⟨_, _, _, done⟩ := bind_cases done
  obtain ⟨_, _, _, done⟩ := bind_cases done
  obtain ⟨_, done⟩ := guard_cases done
  obtain ⟨_, done⟩ := guard_cases done
  obtain ⟨_, _, _, done⟩ := bind_cases done
  cases done
  exact ⟨rfl, rfl⟩

theorem Command.encode_staged (c : Command) : c.encode.staged = c.encode := by
  cases c <;> rfl

namespace Ring

variable {start s s' s'' : Ring} {h h' h'' : History}

structure Stored (s : Ring) (index : UInt64) (command : Command) (s' : Ring) : Prop where
  queue : s'.queue = { s.queue with
    staged := s.queue.staged.setIfInBounds (s.queue.slot index) (some index) }
  write : s'.write = s.write
  read : s'.read = s.read
  published : s'.published = s.published
  slots : (s.queue.region.cells s'.memory).slots =
    Function.update (s.queue.region.cells s.memory).slots (s.queue.slot index) command.encode

theorem Run.writes (opened : start.Opened) (run : Run start h s) (command : Command)
    (index : UInt64) (reserved : index.toNat < s.write) (waiting : s.published ≤ index.toNat)
    (room : index.toNat < s.read + s.queue.capacity)
    (fits : s.read + s.queue.capacity < UInt64.size) : ∃ s',
      handle.use (fun q => q.writePacket index command) s = .ok ⟨index, s.queue.slot index⟩ s' ∧
      Run start (⟨.produce (.writePacket index command), .packet ⟨index, s.queue.slot index⟩⟩ :: h)
        s' ∧ s.Stored index command s' := by
  obtain ⟨tracks, _⟩ := run.tracks opened
  obtain ⟨read, published, write⟩ := tracks.counters
  rw [write] at reserved
  rw [published] at waiting
  rw [read] at room fits
  have accepts : (h.log s.queue.capacity).refusal s.queue.capacity index = none := by
    rw [Log.refusal, if_neg, if_neg, if_neg, if_neg]
    · omega
    · omega
    · omega
    · rw [UInt64.le_iff_toNat_le]
      omega
  obtain ⟨queue, memory, done, shows, _⟩ :=
    tracks.shows.writeRecord_accepted index command.encode accepts
  obtain ⟨_, same⟩ := Queue.writeRecord_queue done
  have turned := tracks.shows.writeRecord_slots done
  rw [command.encode_staged] at turned
  refine ⟨{ s with queue, memory }, use_ok done, run.produced rfl done, same, ?_, ?_, ?_, turned⟩
  · exact (congrArg UInt64.toNat shows.writeIndex).trans write.symm
  · exact shows.readIndex.trans read.symm
  · exact shows.doorbell.trans published.symm

-- The command stands at the write index, in the slot of a packet that is retired, and waits there
-- for a dispatch.
structure Entered (s : Ring) (command : Command) (packet : PacketRef) (s' : Ring) : Prop where
  index : packet.index.toNat = s.write
  slot : packet.slot = s.write % s.queue.capacity
  write : s'.write = s.write + 1
  content : s'.image packet.slot = command.encode.toBytes
  pending : s'.header packet.slot = Header.pending
  queue : s'.queue = { s.queue with
    staged := s.queue.staged.setIfInBounds packet.slot (some packet.index) }
  published : s'.published = s.published
  read_le : s.read ≤ s'.read
  vacated : ∀ j < s.write, j % s.queue.capacity = packet.slot → j < s'.read
  slots : ∀ slot ≠ packet.slot,
    (∀ j, s.read ≤ j → j < s'.read → j % s.queue.capacity ≠ slot) → s'.image slot = s.image slot

-- The consumer works on before each access of the producer to the queue.
def attended (between : Nat → Ring → Ring) : QueueHandle (Ring × Nat) where
  use := fun use t =>
    match handle.use use (between t.2 t.1) with
    | .ok a s => .ok a (s, t.2 + 1)
    | .error failure s => .error failure (s, t.2 + 1)

structure Attends (start : Ring) (between : Nat → Ring → Ring) (ticks : List (Tick (Ring × Nat))) :
    Prop where
  between : ∀ n h s, Run start h s → ∃ h', Consumes h s h' (between n s)
  ticks : ∀ tick ∈ ticks, ∀ pause h t, Run start h t.1 →
    ∃ h', Consumes h t.1 h' (tick.evolve pause t).1

def Since (h : History) (s : Ring) (t : Ring × Nat) : Prop :=
  ∃ h', Consumes h s h' t.1

section Attended

variable {between : Nat → Ring → Ring} {ticks : List (Tick (Ring × Nat))} {t : Ring × Nat}

theorem attended_use {α : Type} {use : Queue → Access (α × Queue)} {a : α} {s' : Ring}
    (done : handle.use use (between t.2 t.1) = .ok a s') :
    (attended between).use use t = .ok a (s', t.2 + 1) := by
  simp only [attended, done]

theorem Attends.since (attends : Attends start between ticks) (run : Run start h s)
    (since : Since h s t) : Since h s (between t.2 t.1, t.2 + 1) := by
  obtain ⟨h', consumes⟩ := since
  obtain ⟨h'', further⟩ := attends.between t.2 h' t.1 (consumes.run run)
  exact ⟨h'', consumes.trans further⟩

theorem Attends.asks_room (attends : Attends start between ticks) (opened : start.Opened)
    (run : Run start h s) (fits : s.published + s.queue.capacity < UInt64.size) (index : UInt64)
    (since : Since h s t) (use : Queue → Access Bool)
    (same : use (between t.2 t.1).queue (between t.2 t.1).memory =
      (between t.2 t.1).queue.hasRoom index (between t.2 t.1).memory) :
    (attended between).ask use t =
      .ok (decide (index.toNat < (between t.2 t.1).read + s.queue.capacity))
        (between t.2 t.1, t.2 + 1) := by
  obtain ⟨h', consumes⟩ : ∃ h', Consumes h s h' (between t.2 t.1) := attends.since run since
  obtain ⟨tracks, _⟩ := (consumes.run run).tracks opened
  have spares := consumes.spares opened run
  obtain ⟨read, published, _⟩ := tracks.counters
  have ordered := tracks.shows.sound.ordered
  have bound := spares.published
  apply attended_use
  apply ask_ok
  rw [same, tracks.shows.hasRoom_ok, if_pos (by rw [spares.queue] at *; omega), read, spares.queue]

theorem Attends.writeIndex_ok (attends : Attends start between ticks) (opened : start.Opened)
    (run : Run start h s) (since : Since h s t) :
    (between t.2 t.1).queue.writeIndex (between t.2 t.1).memory =
      .ok (s.queue.region.cells s.memory).writeIndex (between t.2 t.1).memory := by
  obtain ⟨h', consumes⟩ : ∃ h', Consumes h s h' (between t.2 t.1) := attends.since run since
  obtain ⟨tracks, _⟩ := (consumes.run run).tracks opened
  have same := UInt64.toNat_inj.mp (consumes.spares opened run).write
  rw [← same]
  exact tracks.shows.carries.writeIndex_ok

end Attended

end Ring

namespace QueueHandle

variable {σ : Type}

-- What an enqueue does once it found room.
def enter (h : QueueHandle σ) (command : Command) (policy : WaitPolicy) (seen : Observation σ) :
    EStateM Failure σ PacketRef := do
  let index ← h.ask fun q => q.reserve 1
  if !(← h.ask fun q => q.hasRoom index) then
    enqueue.unwritten index do
      let _ ← policy.pollUntil (h.ask fun q => q.hasRoom index) (seen policy)
  h.use fun q => q.writePacket index command

end QueueHandle

namespace Ring

variable {start s s' s'' : Ring} {h h' h'' : History} {between : Nat → Ring → Ring}
  {ticks : List (Tick (Ring × Nat))} {t : Ring × Nat}

theorem round_behind {capacity i j : Nat} (below : j < i) (same : j % capacity = i % capacity) :
    j + capacity ≤ i := by
  have multiple := Nat.sub_mod_eq_zero_of_mod_eq same.symm
  have round := Nat.le_of_dvd (Nat.sub_pos_of_lt below) (Nat.dvd_of_mod_eq_zero multiple)
  omega

theorem Stored.entered {u v w : Ring} {command : Command} {index : UInt64}
    (stored : w.Stored index command s') (before : s.Spares u) (reserved : u.Reserved v)
    (after : v.Spares w) (number : index.toNat = s.write)
    (room : s.write < w.read + s.queue.capacity) :
    s.Entered command ⟨index, w.queue.slot index⟩ s' := by
  have queue : w.queue = s.queue := (after.queue.trans reserved.queue).trans before.queue
  have slot : w.queue.slot index = s.write % s.queue.capacity := by
    rw [queue, Queue.slot, slotOf, number]
  have region : s'.queue.region = s.queue.region := by rw [stored.queue, queue]
  have cells : (s'.queue.region.cells s'.memory).slots =
      Function.update (w.queue.region.cells w.memory).slots (w.queue.slot index)
        command.encode := by
    rw [region, ← queue]
    exact stored.slots
  have grown := after.read_le
  rw [reserved.read] at grown
  refine {
    index := number, slot, write := ?write, content := ?content, pending := ?pending
    queue := by rw [stored.queue, queue], published := ?published, read_le := ?read
    vacated := fun j below same => ?vacated, slots := fun other apart free => ?slots }
  case write => rw [stored.write, after.write, reserved.write, before.write]
  case content => rw [image, Region.image_cells, cells, Function.update_self]
  case pending =>
    rw [header, cells, Function.update_self, ← command.encode_staged]
    rfl
  case published => rw [stored.published, after.published, reserved.published, before.published]
  case read =>
    rw [stored.read]
    exact Nat.le_trans before.read_le grown
  case vacated =>
    have behind := round_behind below (same.trans slot)
    rw [stored.read]
    omega
  case slots =>
    rw [stored.read] at free
    have still : s'.image other = w.image other := by
      rw [image, image, Region.image_cells, Region.image_cells, cells, Function.update_of_ne apart]
    rw [still, after.slots other fun j low high => ?_, reserved.image,
      before.slots other fun j low high => free j low (by omega)]
    rw [reserved.queue, before.queue]
    have first := before.read_le
    exact free j (by have := reserved.read; omega) high

theorem Attends.enters (attends : Attends start between ticks) (opened : start.Opened)
    (run : Run start h s) (waiting : s.published ≤ s.write)
    (few : s.write + s.queue.capacity < UInt64.size) (since : Since h s t)
    (room : s.write < t.1.read + s.queue.capacity) (command : Command) (policy : WaitPolicy)
    (seen : Observation (Ring × Nat)) :
    ∃ packet t', (attended between).enter command policy seen t = .ok packet t' ∧
      s.Entered command packet t'.1 ∧ ∃ h', Run start h' t'.1 := by
  obtain ⟨h₀, consumes₀⟩ := since
  have run₀ := consumes₀.run run
  -- The consumer comes three times: before the reservation, the question and the write.
  obtain ⟨h₁, consumes₁⟩ := attends.between t.2 h₀ t.1 run₀
  have run₁ := consumes₁.run run₀
  have first := consumes₁.spares opened run₀
  have before := (consumes₀.spares opened run).trans first
  have positive := (run.tracks opened).1.shows.capacity_pos
  obtain ⟨index, u, reserves, number, run₂, reserved⟩ :=
    run₁.reserves opened (by rw [before.write]; omega)
  rw [before.write] at number
  obtain ⟨h₃, consumes₃⟩ := attends.between (t.2 + 1) _ u run₂
  have run₃ := consumes₃.run run₂
  have second := consumes₃.spares opened run₂
  obtain ⟨h₄, consumes₄⟩ := attends.between (t.2 + 2) h₃ (between (t.2 + 1) u) run₃
  have run₄ := consumes₄.run run₃
  have after := second.trans (consumes₄.spares opened run₃)
  have queue : u.queue = s.queue := reserved.queue.trans before.queue
  have queue' := after.queue.trans queue
  have published := reserved.published.trans before.published
  have room₃ : s.write < (between (t.2 + 1) u).read + s.queue.capacity := by
    have grown := first.read_le
    have grown' := reserved.read ▸ second.read_le
    omega
  have room₄ : s.write < (between (t.2 + 2) (between (t.2 + 1) u)).read + s.queue.capacity := by
    have grown := (consumes₄.spares opened run₃).read_le
    omega
  have asked := attends.asks_room (t := (u, t.2 + 1)) opened run₂
    (by rw [published, queue]; omega) index ⟨_, .rest⟩ (·.hasRoom index) rfl
  rw [number, queue, decide_eq_true room₃] at asked
  have ordered := run₄.read_le opened
  rw [after.published, published] at ordered
  obtain ⟨s', writes, run₅, stored⟩ := run₄.writes opened command index
    (by rw [after.write, reserved.write, before.write, number]; omega)
    (by rw [after.published, published, number]; exact waiting)
    (by rw [number, queue']; exact room₄) (by rw [queue']; omega)
  refine ⟨⟨index, _⟩, (s', t.2 + 3), ?_, stored.entered before reserved after number room₄, _, run₅⟩
  unfold QueueHandle.enter
  refine (bind_ok (attended_use reserves)).trans ((bind_ok asked).trans ?_)
  exact attended_use writes

theorem Attends.enqueue_free (attends : Attends start between ticks) (opened : start.Opened)
    (run : Run start h s) (waiting : s.published ≤ s.write)
    (few : s.write + s.queue.capacity < UInt64.size) (command : Command) (policy : WaitPolicy)
    (seen : Observation (Ring × Nat)) (accesses : Nat)
    (room : s.write < (between (accesses + 1) (between accesses s)).read + s.queue.capacity) :
    ∃ packet t', (attended between).enqueue command policy seen (s, accesses) = .ok packet t' ∧
      s.Entered command packet t'.1 ∧ ∃ h', Run start h' t'.1 := by
  have start := attends.writeIndex_ok opened run (t := (s, accesses)) ⟨h, .rest⟩
  have first := attends.since run (t := (s, accesses)) ⟨h, .rest⟩
  have asked := attends.asks_room opened run (by omega) (s.queue.region.cells s.memory).writeIndex
    first (·.hasRoom (s.queue.region.cells s.memory).writeIndex) rfl
  have free : (s.queue.region.cells s.memory).writeIndex.toNat <
      (between (accesses + 1) (between accesses s)).read + s.queue.capacity := room
  rw [decide_eq_true free] at asked
  obtain ⟨packet, t', entered, result⟩ :=
    attends.enters opened run waiting few (attends.since run first) room command policy seen
  refine ⟨packet, t', ?_, result⟩
  unfold QueueHandle.enqueue
  exact (bind_ok (attended_use (ask_ok start))).trans ((bind_ok asked).trans entered)

theorem Attends.enqueue_full (attends : Attends start between ticks) (opened : start.Opened)
    (run : Run start h s) (fits : s.published + s.queue.capacity < UInt64.size)
    (command : Command) (policy : WaitPolicy) (seen : Observation (Ring × Nat)) (accesses : Nat)
    (full : ¬s.write < (between (accesses + 1) (between accesses s)).read + s.queue.capacity) :
    (attended between).enqueue command policy seen (s, accesses) =
      (do
        let _ ← policy.pollUntil ((attended between).ask fun q => do q.hasRoom (← q.writeIndex))
          (seen policy)
        (attended between).enter command policy seen :
          EStateM Failure (Ring × Nat) PacketRef)
        (between (accesses + 1) (between accesses s), accesses + 2) := by
  have start := attends.writeIndex_ok opened run (t := (s, accesses)) ⟨h, .rest⟩
  have first := attends.since run (t := (s, accesses)) ⟨h, .rest⟩
  have asked := attends.asks_room opened run fits (s.queue.region.cells s.memory).writeIndex
    first (·.hasRoom (s.queue.region.cells s.memory).writeIndex) rfl
  have none : ¬(s.queue.region.cells s.memory).writeIndex.toNat <
      (between (accesses + 1) (between accesses s)).read + s.queue.capacity := full
  rw [decide_eq_false none] at asked
  unfold QueueHandle.enqueue
  exact (bind_ok (attended_use (ask_ok start))).trans (bind_ok asked)

theorem Attends.polls_room (attends : Attends start between ticks) (opened : start.Opened)
    (run : Run start h s) (fits : s.published + s.queue.capacity < UInt64.size)
    (since : Since h s t) :
    (attended between).ask (fun q => do q.hasRoom (← q.writeIndex)) t =
      .ok (decide (s.write < (between t.2 t.1).read + s.queue.capacity))
        (between t.2 t.1, t.2 + 1) :=
  attends.asks_room opened run fits (s.queue.region.cells s.memory).writeIndex since
    (fun q => do q.hasRoom (← q.writeIndex)) (bind_ok (attends.writeIndex_ok opened run since))

theorem enqueue_all_or_nothing (opened : start.Opened) (run : Run start h s)
    (few : h.reserved + start.queue.capacity < UInt64.size) (command : Command)
    (policy : WaitPolicy) (seen : Observation (Ring × Nat))
    (attends : Attends start between (seen policy)) (accesses : Nat) :
    (∃ packet t', (attended between).enqueue command policy seen (s, accesses) = .ok packet t' ∧
      s.Entered command packet t'.1 ∧ ∃ h', Run start h' t'.1) ∨
    ∃ failure t', (attended between).enqueue command policy seen (s, accesses) =
      .error failure t' ∧ policy.GivesUp failure ∧ s.Spares t'.1 ∧ ∃ h', Consumes h s h' t'.1 := by
  obtain ⟨tracks, capacity, _⟩ := run.tracks opened
  have waiting := (tracks.ordered (by omega)).published_le
  have write : s.write = h.reserved :=
    tracks.counters.2.2.trans (History.log_writeIndex (by omega))
  rw [← capacity, ← write] at few
  by_cases room : s.write < (between (accesses + 1) (between accesses s)).read + s.queue.capacity
  · exact .inl (attends.enqueue_free opened run waiting few command policy seen accesses room)
  · rw [attends.enqueue_full opened run (by omega) command policy seen accesses room]
    have first := attends.since run (t := (s, accesses)) ⟨h, .rest⟩
    have waited := policy.go_concludes (P := Since h s)
      (Q := fun t => s.write < t.1.read + s.queue.capacity)
      (fun t since => ⟨_, _, attends.polls_room opened run (by omega) since,
        attends.since run since, of_decide_eq_true⟩)
      (fun tick member pause t ⟨h', consumes⟩ => by
        obtain ⟨h'', further⟩ := attends.ticks tick member pause h' t (consumes.run run)
        exact ⟨h'', consumes.trans further⟩) 1 1000 (attends.since run first)
    obtain ⟨count, t', waits, since, found⟩ | ⟨failure, t', waits, since, givesUp⟩ := waited
    · left
      obtain ⟨packet, t'', entered, result⟩ :=
        attends.enters opened run waiting few since found command policy seen
      exact ⟨packet, t'', (bind_ok waits).trans entered, result⟩
    · right
      obtain ⟨h', consumes⟩ := since
      exact ⟨failure, t', bind_error waits, givesUp, consumes.spares opened run, h', consumes⟩

theorem serve_consumes (opened : start.Opened) (run : Run start h s) :
    ∃ h', Consumes h s h' s.serve := by
  have fetched := run.next (.fetch (s.queue.region.cells s.memory).readIndex) trivial
  have first : Consumes h s _ _ := .next (.fetch (s.queue.region.cells s.memory).readIndex)
    (fun _ => Act.noConfusion) .rest trivial
  simp only [serve]
  split
  next record after found =>
    rw [found] at fetched first
    exact ⟨_, .next (.retire _) (fun _ => Act.noConfusion) first (fetched.allowed opened)⟩
  next reply after _ found =>
    rw [found] at first
    exact ⟨_, first⟩

theorem sample_full {s : Ring} (run : Run sample sampleHistory s) :
    s.write = 3 ∧ s.read = 1 ∧ s.published = 3 ∧ s.queue.capacity = 2 := by
  obtain ⟨tracks, capacity, _⟩ := run.tracks sample_opened
  rw [sample_capacity] at capacity
  obtain ⟨read, published, write⟩ := tracks.counters
  rw [capacity] at read published write
  exact ⟨write.trans (by decide), read.trans (by decide), published.trans (by decide), capacity⟩

-- Five milliseconds pass after the first poll.
def sampleSeen : Observation (Ring × Nat) :=
  fun _ => [{ elapsed := 5000000 }]

-- A full queue: with an idle consumer the wait times out, with a busy one a slot gets free.
theorem enqueue_all_or_nothing_sample : ∃ s, Run sample sampleHistory s ∧
    History.reserved sampleHistory + sample.queue.capacity < UInt64.size ∧
    (∃ t', (attended fun _ s => s).enqueue (.deviceInit 4) (.bounded 5000000) sampleSeen
        (s, 0) = .error (.error (.timeout 5)) t' ∧ s.Spares t'.1) ∧
    ∃ packet t', (attended fun _ s => s.serve).enqueue (.deviceInit 4) .indefinite sampleSeen
        (s, 0) = .ok packet t' ∧ s.Entered (.deviceInit 4) packet t'.1 := by
  obtain ⟨s, run⟩ := sample_run
  have opened := sample_opened
  obtain ⟨write, read, published, capacity⟩ := sample_full run
  have few : History.reserved sampleHistory + sample.queue.capacity < UInt64.size := by
    rw [sample_capacity]
    decide
  have idle : Attends sample (fun _ s => s) (sampleSeen (.bounded 5000000)) :=
    ⟨fun _ _ _ _ => ⟨_, .rest⟩, fun tick member pause h t run => by
      rw [List.mem_singleton.mp member]
      exact ⟨_, .rest⟩⟩
  have busy : Attends sample (fun _ s => s.serve) (sampleSeen .indefinite) :=
    ⟨fun _ _ _ run => serve_consumes opened run, fun tick member pause h t run => by
      rw [List.mem_singleton.mp member]
      exact ⟨_, .rest⟩⟩
  refine ⟨s, run, few, ?_, ?_⟩
  · have poll := idle.polls_room (t := (s, 2)) opened run (by rw [published, capacity]; decide)
      ⟨_, .rest⟩
    rw [decide_eq_false (by rw [write, read, capacity]; decide)] at poll
    have timedOut : (attended fun _ s => s).enqueue (.deviceInit 4) (.bounded 5000000) sampleSeen
        (s, 0) = .error (.error (.timeout 5)) (s, 3) := by
      rw [idle.enqueue_full opened run (by rw [published, capacity]; decide) (.deviceInit 4)
        (.bounded 5000000) sampleSeen 0 (by rw [write, read, capacity]; decide)]
      exact bind_error (WaitPolicy.go_again _ 1 1000 poll)
    obtain ⟨_, _, done, _⟩ | ⟨_, t', failed, _, spares, _⟩ :=
      enqueue_all_or_nothing opened run few (.deviceInit 4) (.bounded 5000000) sampleSeen idle 0
    · cases done.symm.trans timedOut
    · cases failed.symm.trans timedOut
      exact ⟨_, timedOut, spares⟩
  · have two := sample_capacity
    have second := serve_eq opened run 1 (Command.encode (.deviceInit 2)).activated
      (by rw [two]; decide) (by rw [two]; decide)
    have third := serve_eq opened second 2 (Command.encode (.deviceInit 3)).activated
      (by rw [two]; decide) (by rw [two]; decide)
    have drained : s.serve.serve.read = 3 := (third.tracks opened).1.read_eq.trans (by decide)
    obtain ⟨_, _, ran, _⟩ := busy.enqueue_free opened run (by rw [published, write])
      (by rw [write, capacity]; decide) (.deviceInit 4) .indefinite sampleSeen 0
      (by rw [write, drained, capacity]; decide)
    obtain ⟨packet, t', done, entered, _⟩ | ⟨_, _, failed, _⟩ :=
      enqueue_all_or_nothing opened run few (.deviceInit 4) .indefinite sampleSeen busy 0
    · exact ⟨packet, t', done, entered⟩
    · cases failed.symm.trans ran

end Ring

end FabricQueue
