import FabricQueue.Proofs.Dues
import FabricQueue.Proofs.Staging

set_option autoImplicit false

namespace FabricQueue

theorem QueueHandle.enqueueAll_fails {σ : Type} {h : QueueHandle σ} {policy : WaitPolicy}
    {seen : Observation σ} {commands others : List Command} {packets : List PacketRef}
    {failure : Failure} {t t₁ t' : σ} (first : h.enqueueAll policy seen commands t = .ok packets t₁)
    (fails : h.enqueueAll policy seen others t₁ = .error failure t') :
    h.enqueueAll policy seen (commands ++ others) t = .error failure t' := by
  induction commands generalizing t packets with
  | nil =>
    cases first
    exact fails
  | cons command rest ih =>
    obtain ⟨packet, t₂, later, enqueued, first, _⟩ := enqueueAll_cases first
    exact (bind_ok enqueued).trans (bind_error (ih first))

namespace Machine

structure Works (tick : Tick Machine) : Prop where
  going : tick.cancelled = false
  passes : ∀ pause m, ∃ count quiet, Passes count quiet m (tick.evolve pause m)

end Machine

namespace Site

variable {s : Site} {l : Log} {order : Order}

structure Full (s : Site) (l : Log) : Prop extends Drained s l where
  taken : l.writeIndex.toNat = l.retired + s.queue.capacity
  fits : l.retired + s.queue.capacity < UInt64.size

theorem Full.poll (full : s.Full l) (visits : ∀ fifos, (order fifos).Perm fifos) :
    (s.poll order).Full l := by
  rw [(full.toDrained.poll visits).1]
  exact { full.toDrained.rested visits with taken := full.taken, fits := full.fits }

theorem Full.hasRoom (full : s.Full l) :
    s.queue.hasRoom l.writeIndex s.plant.memory = .ok false s.plant.memory := by
  have taken := full.taken
  rw [full.shows.hasRoom_ok, if_pos full.fits, decide_eq_false (by omega)]

theorem Full.writeIndex (full : s.Full l) :
    s.queue.writeIndex s.plant.memory = .ok l.writeIndex s.plant.memory :=
  full.shows.writeIndex ▸ full.shows.carries.writeIndex_ok

theorem Full.roomNext (full : s.Full l) :
    (do s.queue.hasRoom (← s.queue.writeIndex) : Access Bool) s.plant.memory =
      .ok false s.plant.memory :=
  (bind_ok full.writeIndex).trans full.hasRoom

end Site

namespace Device

variable {d : Device} {m m' : Machine} {s : Site} {l : Log} {commands : List Command}
  {seen : Observation Machine}

section Full

variable (stands : d.Stands m s) (full : s.Full l)

include stands full

theorem Stands.full_passes {count : Nat} {quiet : Bool} (passes : Machine.Passes count quiet m m') :
    ∃ s', d.Stands m' s' ∧ s'.Full l := by
  induction passes generalizing s with
  | none => exact ⟨s, stands, full⟩
  | pass visits _ ih => exact ih (stands.pass _).1 (full.poll visits)

theorem Stands.full_ask {α : Type} (use : Queue → Access α) {a : α}
    (answers : ∀ {s : Site}, s.Full l → use s.queue s.plant.memory = .ok a s.plant.memory) :
    ∃ m' s', d.handle.ask use m = .ok a m' ∧ d.Stands m' s' ∧ s'.Full l := by
  obtain ⟨_, m', s', asked, stands', full', rfl⟩ := stands.ask (P := (Site.Full · l)) full
    (fun visits full => full.poll visits) use (Q := fun _ b => b = a)
    fun full => ⟨a, answers full, rfl⟩
  exact ⟨m', s', asked, stands', full'⟩

-- A wait for room on a full queue of which nothing is published. The fabric finds nothing to do, so
-- every poll answers as the first one did.
theorem Stands.full_waits {ticks : List (Tick Machine)}
    (works : ∀ tick ∈ ticks, Machine.Works tick) (polls backoff : Nat) :
    ∃ m' s', WaitPolicy.pollUntil.go .indefinite
        (d.handle.ask fun q => do q.hasRoom (← q.writeIndex)) polls backoff ticks m =
          .error .stillWaiting m' ∧ d.Stands m' s' ∧ s'.Full l := by
  induction ticks generalizing m s polls backoff with
  | nil =>
    obtain ⟨m₁, s₁, asked, after⟩ :=
      stands.full_ask full (fun q => do q.hasRoom (← q.writeIndex)) Site.Full.roomNext
    exact ⟨m₁, s₁, WaitPolicy.go_gives_up _ _ _ asked, after⟩
  | cons tick rest ih =>
    obtain ⟨m₁, s₁, asked, stands₁, full₁⟩ :=
      stands.full_ask full (fun q => do q.hasRoom (← q.writeIndex)) Site.Full.roomNext
    obtain ⟨going, passes⟩ := works tick List.mem_cons_self
    obtain ⟨count, quiet, passed⟩ := passes (WaitPolicy.indefinite.pause polls backoff) m₁
    obtain ⟨s₂, stands₂, full₂⟩ := stands₁.full_passes full₁ passed
    rw [WaitPolicy.go_again _ polls backoff asked, going]
    exact ih stands₂ full₂ (fun tick member => works tick (List.mem_cons_of_mem _ member)) _ _

theorem Stands.enqueue_stuck (command : Command)
    (works : ∀ tick ∈ seen .indefinite, Machine.Works tick) :
    ∃ m' s', d.handle.enqueue command .indefinite seen m = .error .stillWaiting m' ∧
      d.Stands m' s' ∧ s'.Full l := by
  obtain ⟨m₁, s₁, next, stands₁, full₁⟩ :=
    stands.full_ask full (fun q => q.writeIndex) Site.Full.writeIndex
  obtain ⟨m₂, s₂, asked, stands₂, full₂⟩ := stands₁.full_ask full₁
    (fun q => q.hasRoom l.writeIndex) Site.Full.hasRoom
  obtain ⟨m', s', waits, after⟩ := stands₂.full_waits full₂ works 1 1000
  refine ⟨m', s', ?_, after⟩
  unfold QueueHandle.enqueue
  exact (bind_ok next).trans ((bind_ok asked).trans (bind_error waits))

end Full

section Idle

variable (stands : d.Stands m s) (idle : s.Idle l)
  (narrow : l.retired + s.queue.capacity < UInt64.size)

include stands idle narrow

theorem Stands.runBatch_stuck (long : s.queue.capacity < commands.length) (policy : WaitPolicy)
    (works : ∀ tick ∈ seen .indefinite, Machine.Works tick) :
    ∃ m' s', d.runBatch commands policy seen m = .error .stillWaiting m' ∧ d.Stands m' s' ∧
      s'.ring.published = l.retired ∧ s'.ring.write = l.retired + s.queue.capacity := by
  have taken : (commands.take s.queue.capacity).length = s.queue.capacity := by
    rw [List.length_take]
    omega
  obtain ⟨packets, ring, l₁, enqueued, shows, batched, keeps, _⟩ := @Ring.enqueueAll_ok s.ring l
    .indefinite (fun _ => []) (commands.take s.queue.capacity) idle.shows
    (by rw [idle.unreserved, idle.retired]) (by rw [taken, idle.unreserved]; exact Nat.le_refl _)
    narrow
  obtain ⟨m₁, s₁, enqueued₁, idles, stands₁, _⟩ := Mirrors.enqueueAll .indefinite seen
    (commands.take s.queue.capacity) m s s.ring ring packets stands idle.still enqueued
  have idle₁ := idles.idle idle
  have same : s₁.queue = s.queue := congrArg Ring.queue idles.ring
  have capacity : (s₁.withRing ring).queue.capacity = s.queue.capacity := keeps.capacity
  have port : ring.queue.port = s₁.queue.port := by
    rw [same]
    exact congrArg₂ Consumer.mk keeps.region keeps.capacity
  have write : l₁.writeIndex.toNat = l.retired + s.queue.capacity := by
    rw [batched.writeIndex, taken, idle.unreserved]
  have full : (s₁.withRing ring).Full l₁ := { idle₁ with
    shows
    port := idle₁.port.trans port.symm
    retired := batched.published.trans (idle.retired.trans batched.retired.symm)
    fetched := idle₁.fetched.trans batched.retired.symm
    taken := by rw [write, batched.retired, capacity]
    fits := by rw [batched.retired, capacity]; exact narrow }
  obtain ⟨command, rest, later⟩ := List.exists_cons_of_ne_nil
    (show commands.drop s.queue.capacity ≠ [] from fun none => by
      rw [List.drop_eq_nil_iff] at none
      omega)
  obtain ⟨m', s', waits, stands', full'⟩ := stands₁.enqueue_stuck full command works
  have fails : d.handle.enqueueAll .indefinite seen commands m = .error .stillWaiting m' := by
    rw [← List.take_append_drop s.queue.capacity commands, later]
    exact QueueHandle.enqueueAll_fails enqueued₁ (bind_error waits)
  refine ⟨m', s', bind_error fails, stands', ?_, ?_⟩
  · exact full'.shows.doorbell.trans (full'.retired.trans batched.retired)
  · exact (congrArg UInt64.toNat full'.shows.writeIndex).trans write

theorem Stands.runBatch_declared (declares : ∀ c ∈ commands, c.Declares)
    (room : commands.length ≤ s.queue.capacity) {policy : WaitPolicy}
    (patient : Machine.Patient policy 1 (seen policy)) :
    ∃ packets m' s' l', d.runBatch commands policy seen m = .ok packets m' ∧ d.Stands m' s' ∧
      packets.map (·.index.toNat) = List.range' l.retired commands.length ∧ s.Retains s' ∧
      s'.Idle l' ∧ l'.retired = l.retired + commands.length := by
  obtain ⟨packets, ring, l', issues, issued, numbers⟩ := @Ring.issue_ok s.ring l .indefinite
    (fun _ => []) commands idle.shows (idle.unreserved.trans idle.retired.symm)
    (by rw [idle.retired]; exact Nat.add_le_add_left room _) narrow
  rw [idle.retired] at numbers
  obtain ⟨_, published⟩ := idle.published_next issued
  have length := congrArg List.length numbers
  rw [List.length_map, List.length_range'] at length
  by_cases none : commands = []
  · subst none
    obtain rfl := List.length_eq_zero_iff.mp length
    exact ⟨[], m, s, l, rfl, stands, rfl, ⟨⟨rfl, rfl, rfl, rfl, rfl⟩, rfl, Region.Leaves.refl _ _⟩,
      idle, rfl⟩
  have positive := List.length_pos_iff.mpr none
  have some : packets ≠ [] := List.ne_nil_of_length_pos (length ▸ positive)
  have newest := List.getLast?_eq_some_getLast some
  have last : (packets.getLast some).index.toNat + 1 = l'.published := by
    have entry := congrArg List.getLast? numbers
    rw [List.getLast?_map, newest, Option.map_some, List.getLast?_range',
      if_neg (Nat.ne_of_gt positive), Option.some.injEq] at entry
    omega
  have behind : (packets.getLast some).index.toNat < l'.published := by omega
  obtain ⟨ring₁, enqueued, rung⟩ := Ring.issue_cases issues newest
  obtain ⟨m₁, s₁, enqueued₁, idles₁, stands₁, still₁⟩ := Mirrors.enqueueAll .indefinite seen commands
    m s s.ring ring₁ packets stands idle.still enqueued
  obtain ⟨m₂, s₂, dispatched, idles₂, stands₂⟩ := stands₁.dispatch still₁ rung
  have idles := idles₁.trans idles₂
  have issued₂ : s₂.ring.Issued ring l l' commands := idles.ring.symm ▸ issued
  obtain ⟨m', s', waited, stands', declared⟩ :=
    ((idles.idle idle).awaits_declared declares issued₂ (I := fun _ => True) trivial
      (fun _ _ => trivial) behind
      (show l.retired ≤ (packets.getLast some).index.toNat by omega) behind).dispatchAndWait rfl
      patient stands₂ (.inr ⟨0, Nat.one_pos, rfl⟩)
  refine ⟨packets, m', s', _, ?_, stands', numbers, idles.retains.trans declared.toRetains,
    declared.idle, published⟩
  unfold Device.runBatch
  refine (bind_ok enqueued₁).trans ?_
  simp only [newest]
  exact bind_ok ((bind_ok dispatched).trans waited)

end Idle

-- What comes of a list of declarations.
structure Runs (d : Device) (m : Machine) (s : Site) (commands : List Command) : Prop where
  -- Those for which there are slots are run to their end, by a single pass.
  fits : commands.length ≤ s.queue.capacity → ∀ policy seen,
    Machine.Patient policy 1 (seen policy) →
    ∃ packets m' s', d.runBatch commands policy seen m = .ok packets m' ∧ d.Stands m' s' ∧
      packets.map (·.index.toNat) = List.range' s.ring.read commands.length ∧
      (∀ packet ∈ packets, s'.queue.isComplete packet.index s'.plant.memory =
        .ok true s'.plant.memory) ∧
      s'.ring.read = s.ring.read + commands.length ∧ s'.ring.published = s'.ring.read ∧
      s'.ring.write = s'.ring.read ∧ s'.status.faults = s.status.faults
  -- With more of them all slots are taken, nothing is published, and no wait ends.
  stuck : s.queue.capacity < commands.length → ∀ policy seen,
    (∀ tick ∈ seen .indefinite, Machine.Works tick) →
    ∃ m' s', d.runBatch commands policy seen m = .error .stillWaiting m' ∧ d.Stands m' s' ∧
      s'.ring.published = s.ring.read ∧ s'.ring.write = s.ring.read + s.queue.capacity

theorem Founded.lists (founded : d.Founded s) : s.Lists 0 [] := by
  obtain ⟨queue, fabric, memory⟩ := s
  obtain rfl : fabric = Fabric.started queue ⟨[d.staging]⟩ {} 0 := founded.fabric
  exact ⟨[], {}, founded.shows.spawn_serves {} founded.apart, .nil⟩

theorem opened_runs {c : Config} {selection : Selection} {m₀ m₁ : Machine} {start : Site}
    {admitted : List Admitted} {touches : Touches} (numbered : m₀.Numbered)
    (opened : ofConfig c selection m₀ = .ok d m₁) (software : d.backend = .software)
    (found : d.site? m₁ = some start) (life : Site.Life start admitted touches s)
    (stands : d.Stands m s) (running : s.plant.fabric.running = true)
    (retired : s.ring.published = s.ring.read) (unreserved : s.ring.write = s.ring.read)
    (narrow : s.ring.read + s.queue.capacity < UInt64.size)
    (declares : ∀ command ∈ commands, command.Declares) : d.Runs m s commands := by
  obtain ⟨start', found', founded, _⟩ := ofConfig_founded numbered opened software
  cases found.symm.trans found'
  obtain ⟨moved, l, serves, _⟩ := life.lists running founded.lists
  have idle := Site.idle_of_serves serves retired unreserved
  have read : s.ring.read = l.retired := serves.shows.readIndex
  rw [read] at narrow
  constructor <;> rw [read]
  case fits =>
    intro room policy seen patient
    obtain ⟨packets, m', s', l', ran, stands', numbers, retains, idle', count⟩ :=
      stands.runBatch_declared idle narrow declares room patient
    have read' : s'.ring.read = l'.retired := idle'.shows.readIndex
    have published : s'.ring.published = l'.published := idle'.shows.doorbell
    have write : s'.ring.write = l'.writeIndex.toNat := congrArg _ idle'.shows.writeIndex
    refine ⟨packets, m', s', ran, stands', numbers, fun packet member => ?_, read'.trans count,
      by rw [published, read', idle'.retired], by rw [write, read', idle'.unreserved],
      retains.faults⟩
    have among : packet.index.toNat ∈ packets.map (·.index.toNat) := List.mem_map_of_mem member
    rw [numbers, List.mem_range'_1] at among
    rw [idle'.isComplete, decide_eq_true (by omega)]
  case stuck =>
    intro long policy seen works
    exact stands.runBatch_stuck idle narrow long policy works

-- Two slots for a herd and a device, with a second for the fabric to make its pass.
theorem opened_runs_sample : ∃ d m s packets m',
    ofConfig Site.sampleConfig .software {} = .ok d m ∧ d.backend = .software ∧
    d.site? m = some s ∧ d.Stands m s ∧
    d.Runs m s [.herdInit ⟨7, 0, 4, 2, 2⟩, .deviceInit 8] ∧
    d.runBatch [.herdInit ⟨7, 0, 4, 2, 2⟩, .deviceInit 8] (.bounded 1000000000)
      (Machine.seen List.reverse) m = .ok packets m' ∧
    packets.map (·.index.toNat) = [0, 1] := by
  obtain ⟨d, m, opened, software⟩ :=
    ofConfig_ok (m := {}) (c := Site.sampleConfig) (by decide) rfl rfl (by decide)
  obtain ⟨numbered, s, found, stands, founded, config⟩ :=
    ofConfig_stands rfl (.of_none fun _ => rfl) opened software
  obtain ⟨l, idle, fresh⟩ := founded.rests.idle
  have read : s.ring.read = 0 := founded.rests.counters.1
  have capacity : s.queue.capacity = 2 := by
    rw [founded.capacity, config]
    rfl
  have runs : d.Runs m s [.herdInit ⟨7, 0, 4, 2, 2⟩, .deviceInit 8] := opened_runs numbered opened
    software found .start stands idle.running
    (idle.shows.doorbell.trans (idle.retired.trans (fresh.trans read.symm)))
    (founded.rests.counters.2.trans read.symm) (by rw [read, capacity]; decide)
    (by simp [Command.Declares])
  obtain ⟨packets, m', _, ran, _, numbers, _⟩ := runs.fits (by rw [capacity]; decide)
    (.bounded 1000000000) (Machine.seen List.reverse)
    (Machine.seen_patient (fun fifos => List.reverse_perm fifos) (by decide) rfl rfl)
  rw [read] at numbers
  exact ⟨d, m, s, packets, m', opened, software, found, stands, runs, ran, numbers⟩

-- Three declarations for two slots: whatever the policy and however long the fabric works on.
theorem opened_runs_longer : ∃ d m, ofConfig Site.sampleConfig .software {} = .ok d m ∧
    d.backend = .software ∧ ∀ policy count, ∃ m',
      d.runBatch [.deviceInit 1, .deviceInit 2, .deviceInit 3] policy
        (fun _ => List.replicate count { evolve := fun _ m => m.settle id }) m =
          .error .stillWaiting m' := by
  obtain ⟨d, m, opened, software⟩ :=
    ofConfig_ok (m := {}) (c := Site.sampleConfig) (by decide) rfl rfl (by decide)
  obtain ⟨_, s, _, stands, founded, config⟩ :=
    ofConfig_stands rfl (.of_none fun _ => rfl) opened software
  obtain ⟨l, idle, fresh⟩ := founded.rests.idle
  have capacity : s.queue.capacity = 2 := by
    rw [founded.capacity, config]
    rfl
  refine ⟨d, m, opened, software, fun policy count => ?_⟩
  obtain ⟨m', _, waits, _⟩ := @Stands.runBatch_stuck d m s l
    [.deviceInit 1, .deviceInit 2, .deviceInit 3]
    (fun _ => List.replicate count { evolve := fun _ m => m.settle id }) stands idle
    (by rw [fresh, capacity]; decide) (by rw [capacity]; decide) policy (by
      intro tick member
      rw [List.eq_of_mem_replicate member]
      refine ⟨rfl, fun _ m => ?_⟩
      obtain ⟨count, quiet, passes, _⟩ :=
        Machine.settleIn_passes (fun _ => List.Perm.refl _) m.rounds m
      exact ⟨count, quiet, passes⟩)
  exact ⟨m', waits⟩

end Device

end FabricQueue
