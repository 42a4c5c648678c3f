import FabricQueue.Proofs.Devices
import FabricQueue.Proofs.Idling
import FabricQueue.Proofs.Serving

set_option autoImplicit false

namespace FabricQueue

variable {d : Device} {s s' : Site} {m m' : Machine} {ring ring' : Ring}

namespace Queue

variable {α : Type} {use : Queue → Access (α × Queue)}

def Unnoticed (use : Queue → Access (α × Queue)) : Prop :=
  ∀ q q' m m' l a, q.Shows m l → use q m = .ok (a, q') m' →
    q'.port = q.port ∧ ∃ l', q'.Shows m' l' ∧ l'.published = l.published ∧ l'.retired = l.retired

theorem unnoticed_ask {use : Queue → Access α}
    (same : ∀ {q m m' l a}, q.Shows m l → use q m = .ok a m' → m' = m) :
    Unnoticed fun q => do return (← use q, q) := by
  intro q q' m m' l a shows used
  obtain ⟨b, m₁, asked, used⟩ := bind_cases used
  cases used
  obtain rfl := same shows asked
  exact ⟨rfl, l, shows, rfl, rfl⟩

theorem unnoticed_produce {say : α → Reply} (a : Production)
    (answers : produce a = answer say use)
    (published : ∀ (l : Log) capacity, (l.produce capacity a).2.published = l.published) :
    Unnoticed use := by
  intro q q' m m' l b shows used
  have follows := shows.produce_follows a
  rw [answers, answer, used] at follows
  exact ⟨congrArg₂ Consumer.mk follows.region follows.capacity, _, follows.shows, published l _,
    Log.produce_retired a l⟩

theorem unnoticed_reserve (count : UInt64) : Unnoticed fun q => do return (← q.reserve count, q) :=
  unnoticed_produce (.reserve count) rfl fun _ _ => rfl

theorem unnoticed_writePacket (index : UInt64) (command : Command) :
    Unnoticed fun q => q.writePacket index command := by
  refine unnoticed_produce (.writePacket index command) rfl fun l capacity => ?_
  simp only [Log.produce, Log.write]
  split <;> rfl

theorem unnoticed_hasRoom (index : UInt64) :
    Unnoticed fun q => do return (← q.hasRoom index, q) := by
  refine unnoticed_ask fun shows asked => ?_
  rw [shows.hasRoom_ok] at asked
  split_ifs at asked
  cases asked
  rfl

theorem unnoticed_writeIndex : Unnoticed fun q => do return (← q.writeIndex, q) := by
  refine unnoticed_ask fun shows asked => ?_
  cases shows.carries.writeIndex_ok.symm.trans asked
  rfl

theorem unnoticed_roomNext : Unnoticed fun q => do return (← (do q.hasRoom (← q.writeIndex)), q) := by
  refine unnoticed_ask fun shows asked => ?_
  replace asked := (bind_ok shows.carries.writeIndex_ok).symm.trans asked
  rw [shows.hasRoom_ok] at asked
  split_ifs at asked
  cases asked
  rfl

end Queue

-- The passes between the calls of the host visit FIFOs that are there, each once.
def Machine.Orderly (m : Machine) : Prop :=
  ∀ call, ∀ order ∈ m.between call, ∀ fifos, (order fifos).Perm fifos

theorem Machine.Orderly.of_none (none : ∀ call, m.between call = []) : m.Orderly := by
  intro call order member
  rw [none] at member
  cases member

-- The machine is the queue of the device, its fabric and their memory.
structure Device.Stands (d : Device) (m : Machine) (s : Site) : Prop where
  queue : m.queues[d.queue]? = some s.queue
  fabric : ∃ number, d.fabric = some number ∧ m.fabrics = [(number, s.plant.fabric)]
  memory : m.memory = s.plant.memory
  orderly : m.Orderly

namespace Device.Stands

theorem site (stands : d.Stands m s) : d.site? m = some s := by
  obtain ⟨number, software, only⟩ := stands.fabric
  have spawned : m.fabric? number = some s.plant.fabric := by
    simp [Machine.fabric?, only]
  rw [site?_eq software stands.queue spawned, stands.memory]

theorem of_site {number : Nat} {fabric : Fabric} (found : d.site? m = some s)
    (software : d.fabric = some number) (only : m.fabrics = [(number, fabric)])
    (orderly : m.Orderly) : d.Stands m s := by
  have spawned : m.fabric? number = some fabric := by
    simp [Machine.fabric?, only]
  simp only [site?, software, spawned, Option.bind_eq_bind, Option.bind_some] at found
  obtain ⟨queue, created, same⟩ := Option.bind_eq_some_iff.mp found
  cases same
  exact ⟨created, ⟨number, software, only⟩, rfl, orderly⟩

theorem pass (stands : d.Stands m s) (order : Order) :
    d.Stands (m.pass order).2 (s.poll order) ∧ (m.pass order).1 = (s.plant.poll order).1 := by
  obtain ⟨number, software, only⟩ := stands.fabric
  have polled : Machine.pollFabrics order m.fabrics m.memory =
      ((s.plant.poll order).1, [(number, (s.plant.poll order).2.fabric)],
        (s.plant.poll order).2.memory) := by
    rw [only, stands.memory]
    simp only [Machine.pollFabrics, Bool.or_false]
  simp only [Machine.pass, polled]
  exact ⟨⟨stands.queue, ⟨number, software, rfl⟩, rfl, stands.orderly⟩, trivial⟩

theorem attend {P : Site → Prop} (stands : d.Stands m s) (holds : P s)
    (keeps : ∀ {s : Site} {order : Order}, (∀ fifos, (order fifos).Perm fifos) → P s →
      P (s.poll order)) : ∃ s', d.Stands m.attend s' ∧ P s' := by
  have passed (orders : List Order) (visits : ∀ order ∈ orders, ∀ fifos, (order fifos).Perm fifos)
      {m : Machine} {s : Site} (stands : d.Stands m s) (holds : P s) :
      ∃ s', d.Stands (orders.foldl (fun m order => (m.pass order).2) m) s' ∧ P s' := by
    induction orders generalizing m s with
    | nil => exact ⟨s, stands, holds⟩
    | cons order rest ih =>
      exact ih (fun order member => visits order (List.mem_cons_of_mem _ member))
        (stands.pass order).1 (keeps (visits order List.mem_cons_self) holds)
  obtain ⟨s', stands', holds'⟩ := passed (m.between m.calls) (stands.orderly m.calls) stands holds
  exact ⟨s', ⟨stands'.queue, stands'.fabric, stands'.memory, stands'.orderly⟩, holds'⟩

theorem attend_still (stands : d.Stands m s) (still : s.Still) :
    ∃ s', d.Stands m.attend s' ∧ s.Idles s' ∧ s'.Still := by
  refine stands.attend (P := fun t => s.Idles t ∧ t.Still) ⟨.refl s, still⟩ ?_
  rintro t order visits ⟨idles, still⟩
  obtain ⟨same, still'⟩ := still.poll visits
  rw [same]
  exact ⟨idles.last visits, still'⟩

theorem onMemory {α : Type} (stands : d.Stands m s) {use : Access α} {a : α} {memory : Memory}
    (done : use s.plant.memory = .ok a memory) :
    ∃ m', Machine.onMemory use m = .ok a m' ∧
      d.Stands m' ⟨s.queue, ⟨s.plant.fabric, memory⟩⟩ := by
  rw [← stands.memory] at done
  exact ⟨_, Machine.onMemory_done done, stands.queue, stands.fabric, rfl, stands.orderly⟩

theorem queueHandle {α : Type} (stands : d.Stands m s) (use : Queue → Access (α × Queue)) {a : α}
    {queue : Queue} {memory : Memory} (done : use s.queue s.plant.memory = .ok (a, queue) memory) :
    ∃ m', (Machine.queueHandle d.queue).use use m = .ok a m' ∧
      d.Stands m' ⟨queue, ⟨s.plant.fabric, memory⟩⟩ := by
  have within : d.queue < m.queues.size := (Array.getElem?_eq_some_iff.mp stands.queue).1
  rw [← stands.memory] at done
  refine ⟨{ m with memory, queues := m.queues.setIfInBounds d.queue queue }, ?_, ?_, stands.fabric,
    rfl, stands.orderly⟩
  · simp only [Machine.queueHandle, stands.queue, done]
  · exact Array.getElem?_setIfInBounds_self_of_lt within

theorem onTiles {α : Type} {number : Nat} (stands : d.Stands m s) (software : d.fabric = some number)
    (use : TileArray → Except Failure (α × TileArray)) {a : α} {tiles : TileArray}
    (done : use s.plant.fabric.tiles = .ok (a, tiles)) :
    ∃ m', Machine.onTiles number use m = .ok (some a) m' ∧ d.Stands m' (s.retile tiles) := by
  obtain ⟨number', software', only⟩ := stands.fabric
  cases software.symm.trans software'
  have spawned : m.fabric? number = some s.plant.fabric := by
    simp [Machine.fabric?, only]
  refine ⟨{ m with fabrics := [(number, { s.plant.fabric with tiles })] }, ?_, stands.queue,
    ⟨number, software, rfl⟩, stands.memory, stands.orderly⟩
  simp only [Machine.onTiles, spawned, done, only]
  simp

theorem ask {α : Type} {P : Site → Prop} (stands : d.Stands m s) (holds : P s)
    (keeps : ∀ {s : Site} {order : Order}, (∀ fifos, (order fifos).Perm fifos) → P s →
      P (s.poll order)) (use : Queue → Access α) {Q : Site → α → Prop}
    (answers : ∀ {s : Site}, P s → ∃ a, use s.queue s.plant.memory = .ok a s.plant.memory ∧ Q s a) :
    ∃ a m' s', d.handle.ask use m = .ok a m' ∧ d.Stands m' s' ∧ P s' ∧ Q s' a := by
  obtain ⟨s', stands', holds'⟩ := stands.attend holds keeps
  obtain ⟨a, asked, known⟩ := answers holds'
  obtain ⟨m', done, stands''⟩ :=
    stands'.queueHandle (fun q => do return (← use q, q)) (bind_ok asked)
  exact ⟨a, m', s', done, stands'', holds', known⟩

theorem use {α : Type} (stands : d.Stands m (s.withRing ring)) (still : (s.withRing ring).Still)
    {use : Queue → Access (α × Queue)} {a : α} (done : Ring.handle.use use ring = .ok a ring') :
    ∃ m' s', d.handle.use use m = .ok a m' ∧ s.Idles s' ∧ d.Stands m' (s'.withRing ring') ∧
      (s'.withRing ring).Still := by
  obtain ⟨t, stands₁, idles, still₁⟩ := stands.attend_still still
  obtain ⟨s', rfl, idles'⟩ := idles.of_withRing
  simp only [Ring.handle] at done
  split at done <;> cases done
  next queue memory used =>
    obtain ⟨m', ran, stands'⟩ := stands₁.queueHandle _ used
    exact ⟨m', s', ran, idles', stands', still₁⟩

theorem dispatch (stands : d.Stands m (s.withRing ring)) (still : (s.withRing ring).Still)
    {index : UInt64} (rung : Ring.handle.dispatch index ring = .ok () ring') :
    ∃ m' s', d.dispatch index m = .ok () m' ∧ s.Idles s' ∧ d.Stands m' (s'.withRing ring') := by
  obtain ⟨_, ring₁, used, ended⟩ := bind_cases rung
  cases ended
  obtain ⟨m', s', ran, idles, stands', _⟩ := stands.use still used
  exact ⟨m', s', bind_ok ran, idles, stands'⟩

end Device.Stands

def Device.Mirrors {α : Type} (d : Device) (x : EStateM Failure Ring α) (y : Operation α) : Prop :=
  ∀ m (s : Site) ring ring' a, d.Stands m (s.withRing ring) → (s.withRing ring).Still →
    x ring = .ok a ring' → ∃ m' s', y m = .ok a m' ∧ s.Idles s' ∧
      d.Stands m' (s'.withRing ring') ∧ (s'.withRing ring').Still

namespace Device.Mirrors

variable {α β : Type}

theorem pure (a : α) : d.Mirrors (pure a) (pure a) := by
  rintro m s ring _ _ stands still ⟨⟩
  exact ⟨m, s, rfl, .refl s, stands, still⟩

theorem bind {x : EStateM Failure Ring α} {y : Operation α} {next : α → EStateM Failure Ring β}
    {next' : α → Operation β} (first : d.Mirrors x y) (rest : ∀ a, d.Mirrors (next a) (next' a)) :
    d.Mirrors (x >>= next) (y >>= next') := by
  intro m s ring ring' b stands still done
  obtain ⟨a, ring₁, began, ended⟩ := bind_cases done
  obtain ⟨m₁, s₁, began', idles, stands₁, still₁⟩ := first m s ring ring₁ a stands still began
  obtain ⟨m', s', ended', idles', after⟩ := rest a m₁ s₁ ring₁ ring' b stands₁ still₁ ended
  exact ⟨m', s', (bind_ok began').trans ended', idles.trans idles', after⟩

theorem use {use : Queue → Access (α × Queue)} (unnoticed : Queue.Unnoticed use) :
    d.Mirrors (Ring.handle.use use) (d.handle.use use) := by
  intro m s ring ring' a stands still done
  obtain ⟨m', s', ran, idles, stands', l, drained⟩ := stands.use still done
  refine ⟨m', s', ran, idles, stands', ?_⟩
  simp only [Ring.handle] at done
  split at done <;> cases done
  next queue memory used =>
    obtain ⟨port, l', shows, published, retired⟩ := unnoticed _ _ _ _ l a drained.shows used
    exact ⟨l', { drained with
      shows, port := drained.port.trans port.symm
      retired := by rw [published, retired, drained.retired]
      fetched := by rw [retired]; exact drained.fetched }⟩

theorem polled {condition : EStateM Failure Ring Bool} {condition' : Operation Bool}
    (asks : d.Mirrors condition condition') (policy : WaitPolicy) (ticks : List (Tick Machine)) :
    d.Mirrors (policy.pollUntil condition []) (policy.pollUntil condition' ticks) := by
  intro m s ring ring' count stands still done
  unfold WaitPolicy.pollUntil at done ⊢
  rw [WaitPolicy.pollUntil.go] at done
  obtain ⟨held, ring₁, asked, done⟩ := bind_cases done
  cases held with
  | false => cases done
  | true =>
    cases done
    obtain ⟨m', s', asked', after⟩ := asks m s ring ring' true stands still asked
    exact ⟨m', s', policy.go_done 1 1000 asked', after⟩

theorem unwritten {x : EStateM Failure Ring Unit} {y : Operation Unit} (mirrors : d.Mirrors x y)
    (index : UInt64) :
    d.Mirrors (QueueHandle.enqueue.unwritten index x) (QueueHandle.enqueue.unwritten index y) := by
  intro m s ring ring' _ stands still done
  simp only [QueueHandle.enqueue.unwritten] at done
  split at done
  · cases done
  · obtain ⟨m', s', ran, after⟩ := mirrors m s ring ring' _ stands still done
    exact ⟨m', s', by simp only [QueueHandle.enqueue.unwritten, ran], after⟩

variable (policy : WaitPolicy) (seen : Observation Machine)

theorem hasRoom (index : UInt64) : d.Mirrors (Ring.handle.ask fun q => q.hasRoom index)
    (d.handle.ask fun q => q.hasRoom index) :=
  Mirrors.use (Queue.unnoticed_hasRoom index)

theorem enqueue (command : Command) :
    d.Mirrors (Ring.handle.enqueue command policy fun _ => [])
      (d.handle.enqueue command policy seen) := by
  refine (Mirrors.use Queue.unnoticed_writeIndex).bind fun first => (hasRoom first).bind fun free => ?_
  have write (index : UInt64) : d.Mirrors (do
      if !(← Ring.handle.ask fun q => q.hasRoom index) then
        QueueHandle.enqueue.unwritten index do
          let _ ← policy.pollUntil (Ring.handle.ask fun q => q.hasRoom index) []
      Ring.handle.use fun q => q.writePacket index command) (do
      if !(← d.handle.ask fun q => q.hasRoom index) then
        QueueHandle.enqueue.unwritten index do
          let _ ← policy.pollUntil (d.handle.ask fun q => q.hasRoom index) (seen policy)
      d.handle.use fun q => q.writePacket index command) := by
    have store := Mirrors.use (d := d) (Queue.unnoticed_writePacket index command)
    refine (hasRoom index).bind fun free => ?_
    cases free with
    | true => exact store
    | false =>
      exact (unwritten ((polled (hasRoom index) policy (seen policy)).bind fun _ => Mirrors.pure ())
        index).bind fun _ => store
  have rest := (Mirrors.use (d := d) (Queue.unnoticed_reserve 1)).bind write
  cases free with
  | true => exact rest
  | false =>
    exact (polled (Mirrors.use Queue.unnoticed_roomNext) policy (seen policy)).bind fun _ => rest

theorem enqueueAll (commands : List Command) :
    d.Mirrors (Ring.handle.enqueueAll policy (fun _ => []) commands)
      (d.handle.enqueueAll policy seen commands) := by
  induction commands with
  | nil => exact Mirrors.pure _
  | cons command rest ih =>
    exact (enqueue policy seen command).bind fun packet => ih.bind fun packets => Mirrors.pure _

end Device.Mirrors

-- What leads a site to where the packet of an index is complete: stages with a number of passes that
-- are still to come, and what is so from then on. All up to a bound is published in each.
structure Site.Awaits (bound index : UInt64) (Stage : Nat → Site → Prop) (Final : Site → Prop) :
    Prop where
  asks : ∀ {toGo : Nat} {s : Site}, Stage toGo s → ∃ held,
    s.queue.isComplete index s.plant.memory = .ok held s.plant.memory ∧ (held = true → Final s)
  complete : ∀ {s : Site}, Final s →
    s.queue.isComplete index s.plant.memory = .ok true s.plant.memory
  again : ∀ {s : Site}, (Final s ∨ ∃ toGo, Stage toGo s) →
    s.queue.publish bound s.plant.memory = .ok (s.queue.tail, s.queue) s.plant.memory
  poll : ∀ {toGo : Nat} {s : Site} {order : Order}, (∀ fifos, (order fifos).Perm fifos) →
    Stage toGo s →
      Final (s.poll order) ∨ (s.plant.poll order).1 = true ∧ ∃ less < toGo, Stage less (s.poll order)
  rest : ∀ {s : Site} {order : Order}, (∀ fifos, (order fifos).Perm fifos) → Final s →
    Final (s.poll order)

namespace Site.Awaits

variable {bound index : UInt64} {Stage : Nat → Site → Prop} {Final : Site → Prop}
  {toGo needed count : Nat} {quiet : Bool} (awaits : Site.Awaits bound index Stage Final)

include awaits

theorem rested (stands : d.Stands m s) (final : Final s) (passes : Machine.Passes count quiet m m') :
    ∃ s', d.Stands m' s' ∧ Final s' := by
  induction passes generalizing s with
  | none => exact ⟨s, stands, final⟩
  | pass visits _ ih => exact ih (stands.pass _).1 (awaits.rest visits final)

theorem passed (stands : d.Stands m s) (stage : Stage toGo s)
    (passes : Machine.Passes count quiet m m') :
    ∃ s', d.Stands m' s' ∧
      (Final s' ∨ quiet = false ∧ ∃ less, less + count ≤ toGo ∧ Stage less s') := by
  induction passes generalizing s toGo with
  | none => exact ⟨s, stands, .inr ⟨rfl, toGo, Nat.le_refl _, stage⟩⟩
  | pass visits later ih =>
    obtain ⟨stands', same⟩ := stands.pass _
    rcases awaits.poll visits stage with final | ⟨moved, less, below, stage'⟩
    · obtain ⟨s', after, final'⟩ := awaits.rested stands' final later
      exact ⟨s', after, .inl final'⟩
    · obtain ⟨s', after, known⟩ := ih stands' stage'
      refine ⟨s', after, known.imp id ?_⟩
      rintro ⟨rfl, fewer, bound, stage''⟩
      exact ⟨by rw [same, moved]; rfl, fewer, by omega, stage''⟩

theorem due_poll {order : Order} (visits : ∀ fifos, (order fifos).Perm fifos)
    (due : Final s ∨ ∃ toGo < needed, Stage toGo s) :
    Final (s.poll order) ∨ ∃ toGo < needed, Stage toGo (s.poll order) := by
  rcases due with final | ⟨toGo, below, stage⟩
  · exact .inl (awaits.rest visits final)
  · exact (awaits.poll visits stage).imp id fun ⟨_, less, fewer, stage'⟩ =>
      ⟨less, Nat.lt_trans fewer below, stage'⟩

theorem asked (stands : d.Stands m s) (due : Final s ∨ ∃ toGo < needed, Stage toGo s) :
    ∃ held m' s', d.handle.ask (fun q => q.isComplete index) m = .ok held m' ∧ d.Stands m' s' ∧
      (Final s' ∨ ∃ toGo < needed, Stage toGo s') ∧ (held = true → Final s') ∧
      (Final s' → held = true) := by
  refine stands.ask (P := fun s => Final s ∨ ∃ toGo < needed, Stage toGo s) due
    (fun visits due => awaits.due_poll visits due) _ fun {s} due => ?_
  rcases due with final | ⟨toGo, _, stage⟩
  · exact ⟨true, awaits.complete final, fun _ => final, fun _ => rfl⟩
  · obtain ⟨held, asked, known⟩ := awaits.asks stage
    refine ⟨held, asked, known, fun final => ?_⟩
    cases (awaits.complete final).symm.trans asked
    rfl

theorem waits {policy : WaitPolicy} {ticks : List (Tick Machine)}
    (patient : Machine.Patient policy needed ticks)
    (stands : d.Stands m s) (due : Final s ∨ ∃ toGo < needed, Stage toGo s) (polls backoff : Nat) :
    ∃ count m' s', WaitPolicy.pollUntil.go policy (d.handle.ask fun q => q.isComplete index) polls
        backoff ticks m = .ok count m' ∧ d.Stands m' s' ∧ Final s' := by
  induction patient generalizing m s polls backoff with
  | enough ticks =>
    obtain ⟨held, m', s', asked, stands', due', _, known⟩ := awaits.asked stands due
    obtain final := due'.resolve_right (by omega)
    rw [known final] at asked
    exact ⟨polls, m', s', policy.go_done polls backoff asked, stands', final⟩
  | tick going early serves later ih =>
    obtain ⟨held, m₁, s₁, asked, stands₁, due₁, done, known⟩ := awaits.asked stands due
    cases held with
    | true => exact ⟨polls, m₁, s₁, policy.go_done polls backoff asked, stands₁, done rfl⟩
    | false =>
      obtain ⟨toGo, below, stage⟩ := due₁.resolve_left fun final => Bool.noConfusion (known final)
      rw [policy.go_again polls backoff asked, going, early]
      obtain ⟨count, quiet, passes, enough⟩ := serves (policy.pause polls backoff) m₁
      obtain ⟨s', stands', after⟩ := awaits.passed stands₁ stage passes
      refine ih stands' (after.imp id ?_) _ _
      rintro ⟨noisy, less, bound, stage'⟩
      have many := enough.resolve_left (by rw [noisy]; exact Bool.false_ne_true)
      exact ⟨less, by omega, stage'⟩

theorem dispatchAndWait {policy : WaitPolicy} {seen : Observation Machine} {packet : PacketRef}
    (same : packet.index = index) (patient : Machine.Patient policy needed (seen policy))
    (stands : d.Stands m s) (due : Final s ∨ ∃ toGo < needed, Stage toGo s) :
    ∃ m' s', d.handle.dispatchAndWait bound packet policy seen m = .ok () m' ∧ d.Stands m' s' ∧
      Final s' := by
  obtain ⟨s₁, stands₁, due₁⟩ := stands.attend (P := fun s => Final s ∨ ∃ toGo < needed, Stage toGo s)
    due fun visits due => awaits.due_poll visits due
  obtain ⟨m₂, rung, stands₂⟩ := stands₁.queueHandle (fun q => q.publish bound)
    (awaits.again (due₁.imp id fun ⟨toGo, _, stage⟩ => ⟨toGo, stage⟩))
  have dispatched : d.handle.dispatch bound m = .ok () m₂ := bind_ok rung
  subst same
  obtain ⟨held, m₃, s₃, asked, stands₃, due₃, done, _⟩ := awaits.asked stands₂ due₁
  cases held with
  | true => exact ⟨m₃, s₃, (bind_ok dispatched).trans (bind_ok asked), stands₃, done rfl⟩
  | false =>
    obtain ⟨count, m', s', waited, after⟩ := awaits.waits patient stands₃ due₃ 1 1000
    exact ⟨m', s', (bind_ok dispatched).trans ((bind_ok asked).trans (bind_ok waited)), after⟩

end Site.Awaits

end FabricQueue
