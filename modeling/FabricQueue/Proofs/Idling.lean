import FabricQueue.Proofs.Fields
import FabricQueue.Proofs.Journeys

set_option autoImplicit false

namespace FabricQueue

-- A command that the fabric acts on at once.
def Command.Declares : Command → Prop
  | .transfer _ => False
  | _ => True

theorem FabricStatus.enter_keeps (s : FabricStatus) (c : Command) :
    (s.enter c).retired = s.retired ∧ (s.enter c).bytesMoved = s.bytesMoved ∧
      (s.enter c).faults = s.faults := by
  cases c <;> exact ⟨rfl, rfl, rfl⟩

theorem FabricStatus.enters_keep (s : FabricStatus) (commands : List Command) :
    (commands.foldl enter s).bytesMoved = s.bytesMoved ∧
      (commands.foldl enter s).faults = s.faults := by
  induction commands generalizing s with
  | nil => exact ⟨rfl, rfl⟩
  | cons c rest ih =>
    obtain ⟨_, bytes, faults⟩ := s.enter_keeps c
    exact ⟨(ih _).1.trans bytes, (ih _).2.trans faults⟩

theorem Fabric.accept_declaration (f : Fabric) (index : UInt64) {c : Command} (declares : c.Declares) :
    f.accept index c.encode.activated = .ok (.done, { f with status := f.status.enter c }) := by
  have decoded := (Command.decode_activated c.encode).trans (Command.decode_encode c)
  unfold accept
  rw [decoded]
  cases c with
  | transfer t => exact declares.elim
  | _ => rfl

namespace Plant

variable {p : Plant} {order : Order}

theorem streamFifos_idle (fifos : List Fifo) (tally : Tally) (none : ∀ fifo ∈ fifos, fifo.jobs = []) :
    streamFifos fifos tally p = .ok (fifos, tally) p := by
  induction fifos with
  | nil => rfl
  | cons fifo rest ih =>
    obtain ⟨e, jobs⟩ := fifo
    obtain rfl : jobs = [] := none _ List.mem_cons_self
    rw [streamFifos]
    exact (bind_ok rfl).trans
      (bind_ok (ih fun fifo member => none fifo (List.mem_cons_of_mem _ member)))

theorem execute_idle (visits : ∀ fifos, (order fifos).Perm fifos) (none : p.fabric.jobs = []) :
    execute order p = .ok p.fabric.tiles.runKernels.1 ⟨{ p.fabric with
      fifos := order p.fabric.fifos, tiles := p.fabric.tiles.runKernels.2 }, p.memory⟩ := by
  have empty := List.flatMap_eq_nil_iff.mp none
  have streamed := streamFifos_idle (p := p) (order p.fabric.fifos) {}
    fun fifo member => empty fifo ((visits _).subset member)
  have ran := execute_ok streamed fun some => absurd some (Nat.lt_irrefl 0)
  simpa only [Tally.settle_nothing, List.map_nil, List.append_nil, Nat.add_zero,
    Bool.false_or] using ran

def doneFrom (first count : Nat) : List InFlight :=
  (List.range' first count).map fun j => ⟨UInt64.ofNat j, .done⟩

theorem doneFrom_succ (first count : Nat) :
    doneFrom first (count + 1) = ⟨UInt64.ofNat first, .done⟩ :: doneFrom (first + 1) count := by
  rw [doneFrom, List.range'_succ, List.map_cons]
  rfl

theorem fetchNext_declared {q : Queue} {l : Log} {commands : List Command}
    (shows : q.Shows p.memory l) (port : p.fabric.consumer = q.port)
    (declares : ∀ c ∈ commands, c.Declares) (behind : l.retired ≤ p.fabric.nextFetch.toNat)
    (published : p.fabric.nextFetch.toNat + commands.length ≤ l.published)
    (written : ∀ k c, commands[k]? = some c →
      l.written (p.fabric.nextFetch.toNat + k) = some c.encode) :
    ∃ fetched next, fetchNext commands.length p = .ok fetched ⟨{ p.fabric with
        status := commands.foldl FabricStatus.enter p.fabric.status
        inFlight := p.fabric.inFlight ++ doneFrom p.fabric.nextFetch.toNat commands.length
        nextFetch := next }, p.memory⟩ ∧
      next.toNat = p.fabric.nextFetch.toNat + commands.length := by
  induction commands generalizing p with
  | nil =>
    refine ⟨false, p.fabric.nextFetch, ?_, rfl⟩
    rw [doneFrom, List.length_nil, List.range'_zero, List.map_nil, List.append_nil]
    rfl
  | cons c rest ih =>
    rw [List.length_cons] at published
    have word := shows.sound.published_word
    have next : (p.fabric.nextFetch + 1).toNat = p.fabric.nextFetch.toNat + 1 :=
      toNat_succ (by omega)
    have found := onMemory_ok (fetch_found shows port behind (by omega) (written 0 c rfl))
    have accepted := Fabric.accept_declaration p.fabric p.fabric.nextFetch
      (declares c List.mem_cons_self)
    obtain ⟨fetched, last, done, further⟩ := @ih ⟨{ p.fabric with
        status := p.fabric.status.enter c
        inFlight := p.fabric.inFlight ++ [⟨p.fabric.nextFetch, .done⟩]
        nextFetch := p.fabric.nextFetch + 1 }, p.memory⟩ shows port
      (fun c member => declares c (List.mem_cons_of_mem _ member)) (by simp only [next]; omega)
      (by simp only [next]; omega) (by
        intro k c found
        simp only [next]
        rw [← written (k + 1) c found]
        congr 1
        omega)
    refine ⟨true, last, (fetchNext_some found accepted).trans ((bind_ok done).trans ?_), ?_⟩
    · rw [List.length_cons, doneFrom_succ, UInt64.ofNat_toNat]
      simp only [next, List.append_assoc, List.singleton_append, List.foldl_cons]
      rfl
    · simp only [next] at further
      rw [further, List.length_cons]
      omega

theorem retireFront_all {q : Queue} {l : Log} (count : Nat) (shows : q.Shows p.memory l)
    (port : p.fabric.consumer = q.port) (published : l.retired + count ≤ l.published)
    (flight : p.fabric.inFlight = doneFrom l.retired count) :
    ∃ some memory, retireFront p.fabric.inFlight p = .ok some ⟨{ p.fabric with
        status := { p.fabric.status with retired := p.fabric.status.retired + count }
        inFlight := [] }, memory⟩ ∧
      q.Shows memory { l with retired := l.retired + count } ∧
      q.footprint.Leaves p.memory memory := by
  induction count generalizing p l with
  | zero =>
    refine ⟨false, p.memory, ?_, shows, Region.Leaves.refl _ _⟩
    obtain ⟨fabric, memory⟩ := p
    simp only at flight
    rw [flight]
    exact congrArg (fun flight : List InFlight => (EStateM.Result.ok false
      ⟨{ fabric with inFlight := flight }, memory⟩ : EStateM.Result Failure Plant Bool)) flight
  | succ count ih =>
    have word := shows.sound.published_word
    have current : (UInt64.ofNat l.retired).toNat = l.retired :=
      UInt64.toNat_ofNat_of_lt' (by omega)
    obtain ⟨memory, gone, shows', leaves⟩ := shows.retire_ok current (by omega)
    rw [← port] at gone
    obtain ⟨some, memory', done, shows'', leaves'⟩ := @ih ⟨{ p.fabric with
        status := { p.fabric.status with retired := p.fabric.status.retired + 1 }
        inFlight := doneFrom (l.retired + 1) count }, memory⟩ { l with retired := l.retired + 1 }
      shows' port (by simp only; omega) rfl
    simp only [Nat.add_assoc, Nat.add_comm 1] at done shows''
    refine ⟨true, memory', ?_, shows'', leaves.trans leaves'⟩
    rw [flight, doneFrom_succ]
    exact retireFront_done gone done

end Plant

namespace Site

variable {s s' s'' : Site} {l l' : Log} {order : Order}

-- The same fabric on the same queue, and no packet that failed since.
structure Stays (s s' : Site) : Prop where
  hosts : s'.plant.fabric.hosts = s.plant.fabric.hosts
  region : s'.queue.region = s.queue.region
  capacity : s'.queue.capacity = s.queue.capacity
  faults : s'.status.faults = s.status.faults
  size : s'.plant.memory.size = s.plant.memory.size

theorem Stays.trans (first : s.Stays s') (second : s'.Stays s'') : s.Stays s'' :=
  ⟨second.hosts.trans first.hosts, second.region.trans first.region,
    second.capacity.trans first.capacity, second.faults.trans first.faults,
    second.size.trans first.size⟩

theorem Stays.footprint (stays : s.Stays s') : s'.queue.footprint = s.queue.footprint := by
  rw [Queue.footprint, Queue.footprint, stays.region, stays.capacity]

structure Retains (s s' : Site) : Prop extends Stays s s' where
  bytes : s'.status.bytesMoved = s.status.bytesMoved
  memory : s.queue.footprint.Leaves s.plant.memory s'.plant.memory

theorem Retains.trans (first : s.Retains s') (second : s'.Retains s'') : s.Retains s'' :=
  ⟨first.toStays.trans second.toStays, second.bytes.trans first.bytes,
    first.memory.trans (first.footprint ▸ second.memory)⟩

def rested (s : Site) (order : Order) : Site :=
  ⟨s.queue, ⟨{ s.plant.fabric with
    fifos := order s.plant.fabric.fifos, tiles := s.plant.fabric.tiles.runKernels.2 },
    s.plant.memory⟩⟩

theorem rested_retains (s : Site) (order : Order) : s.Retains (s.rested order) :=
  ⟨⟨rfl, rfl, rfl, rfl, rfl⟩, rfl, Region.Leaves.refl _ _⟩

-- All that was published is retired. Producers may have gone on.
structure Drained (s : Site) (l : Log) : Prop where
  shows : s.queue.Shows s.plant.memory l
  port : s.plant.fabric.consumer = s.queue.port
  running : s.plant.fabric.running = true
  retired : l.published = l.retired
  fetched : s.plant.fabric.nextFetch.toNat = l.retired
  flight : s.plant.fabric.inFlight = []
  endpoints : (s.plant.fabric.fifos.map (·.endpoint)).Nodup
  jobs : s.plant.fabric.jobs = []

theorem Idle.drained (idle : s.Idle l) : s.Drained l :=
  { idle with }

theorem Drained.rested (drained : s.Drained l) (visits : ∀ fifos, (order fifos).Perm fifos) :
    (s.rested order).Drained l :=
  { drained with
    endpoints := ((visits _).map _).nodup_iff.mpr drained.endpoints
    jobs := List.perm_nil.mp (((visits _).flatMap_right _).trans (.of_eq drained.jobs)) }

theorem Idle.rested (idle : s.Idle l) (visits : ∀ fifos, (order fifos).Perm fifos) :
    (s.rested order).Idle l :=
  { idle.drained.rested visits with unreserved := idle.unreserved }

theorem Drained.poll (drained : s.Drained l) (visits : ∀ fifos, (order fifos).Perm fifos) :
    s.poll order = s.rested order ∧ (s.plant.poll order).1 = s.plant.fabric.tiles.runKernels.1 := by
  have fetched : s.plant.fetch = .ok false s.plant := by
    rw [Plant.fetch_eq drained.shows drained.port, drained.fetched, drained.retired, Nat.sub_self]
    rfl
  have gone : Plant.retireFront s.plant.fabric.inFlight (s.rested order).plant =
      .ok false (s.rested order).plant := by
    rw [drained.flight]
    rfl
  have ran := Plant.pass_done fetched (Plant.execute_idle visits drained.jobs) gone
  rw [Bool.false_or, Bool.or_false] at ran
  exact ⟨poll_done drained.running ran, congrArg Prod.fst (Plant.poll_done drained.running ran)⟩

def Still (s : Site) : Prop :=
  ∃ l, s.Drained l

theorem Idle.still (idle : s.Idle l) : s.Still :=
  ⟨l, idle.drained⟩

theorem Still.poll (still : s.Still) (visits : ∀ fifos, (order fifos).Perm fifos) :
    s.poll order = s.rested order ∧ (s.rested order).Still := by
  obtain ⟨l, drained⟩ := still
  exact ⟨(drained.poll visits).1, l, drained.rested visits⟩

inductive Idles : Site → Site → Prop where
  | refl (s : Site) : Idles s s
  | pass {s s' : Site} {order : Order} (visits : ∀ fifos, (order fifos).Perm fifos)
      (later : Idles (s.rested order) s') : Idles s s'

namespace Idles

theorem trans (first : s.Idles s') (second : s'.Idles s'') : s.Idles s'' := by
  induction first with
  | refl s => exact second
  | pass visits _ ih => exact .pass visits (ih second)

theorem last (idles : s.Idles s') (visits : ∀ fifos, (order fifos).Perm fifos) :
    s.Idles (s'.rested order) :=
  idles.trans (.pass visits (.refl _))

theorem eq (idles : s.Idles s') : ∃ fifos tiles,
    s' = ⟨s.queue, ⟨{ s.plant.fabric with fifos, tiles }, s.plant.memory⟩⟩ := by
  induction idles with
  | refl s => exact ⟨_, _, rfl⟩
  | pass _ _ ih =>
    obtain ⟨fifos, tiles, rfl⟩ := ih
    exact ⟨fifos, tiles, rfl⟩

theorem tiles_eq (idles : s.Idles s')
    (waits : s.plant.fabric.tiles.runKernels = (false, s.plant.fabric.tiles)) :
    s'.plant.fabric.tiles = s.plant.fabric.tiles := by
  induction idles with
  | refl s => rfl
  | @pass s _ order _ _ ih =>
    have same : (s.rested order).plant.fabric.tiles = s.plant.fabric.tiles :=
      congrArg Prod.snd waits
    exact (ih (by rw [same]; exact waits)).trans same

theorem eq_waiting (idles : s.Idles s')
    (waits : s.plant.fabric.tiles.runKernels = (false, s.plant.fabric.tiles)) :
    ∃ fifos, s' = ⟨s.queue, ⟨{ s.plant.fabric with fifos }, s.plant.memory⟩⟩ := by
  have same := idles.tiles_eq waits
  obtain ⟨fifos, tiles, rfl⟩ := idles.eq
  obtain rfl : tiles = s.plant.fabric.tiles := same
  exact ⟨fifos, rfl⟩

theorem ring (idles : s.Idles s') : s'.ring = s.ring := by
  obtain ⟨_, _, rfl⟩ := idles.eq
  rfl

theorem retains (idles : s.Idles s') : s.Retains s' := by
  obtain ⟨_, _, rfl⟩ := idles.eq
  exact ⟨⟨rfl, rfl, rfl, rfl, rfl⟩, rfl, Region.Leaves.refl _ _⟩

theorem idle (idles : s.Idles s') (idle : s.Idle l) : s'.Idle l := by
  induction idles with
  | refl s => exact idle
  | pass visits _ ih => exact ih (idle.rested visits)

theorem still (idles : s.Idles s') (still : s.Still) : s'.Still := by
  induction idles with
  | refl s => exact still
  | pass visits _ ih => exact ih (still.poll visits).2

theorem of_withRing {ring : Ring} {t : Site} (idles : (s.withRing ring).Idles t) :
    ∃ s', t = s'.withRing ring ∧ s.Idles s' := by
  generalize begun : s.withRing ring = start at idles
  induction idles generalizing s with
  | refl t => exact ⟨s, begun.symm, .refl s⟩
  | @pass _ _ order visits _ ih =>
    obtain ⟨s', same, later⟩ := @ih (s.rested order) (by rw [← begun]; rfl)
    exact ⟨s', same, .pass visits later⟩

end Idles

-- Nothing that is published waits, so only what is retired is complete.
theorem Idle.isComplete (idle : s.Idle l) (index : UInt64) :
    s.queue.isComplete index s.plant.memory =
      .ok (decide (index.toNat < l.retired)) s.plant.memory := by
  refine idle.shows.isComplete_pending (fun j record low high => ?_) index
  exact absurd high (Nat.not_lt.mpr (idle.retired ▸ low))

-- All packets have arrived, so nothing is under way.
theorem Arrived.idle {T : Traffic} {I : Counts → Nat → TileArray → Prop} {base : FabricStatus}
    (arrived : s.Arrived T I l base) (level : l.writeIndex.toNat = l.published) :
    s.Idle { l with retired := l.published } := by
  obtain ⟨moved, steps, conveys, ended⟩ := arrived
  have shows := conveys.shows
  rw [← conveys.published] at shows
  refine ⟨shows, conveys.port, conveys.running, rfl, level, conveys.fetched, ?_, conveys.endpoints,
    conveys.jobs_ended ended⟩
  rw [conveys.flight, List.drop_length]
  rfl

section Declarations

variable {ring : Ring} {commands : List Command} (idle : s.Idle l)
  (declares : ∀ c ∈ commands, c.Declares) (issued : s.ring.Issued ring l l' commands)

include idle issued

theorem Idle.published_next :
    l'.retired = l.retired ∧ l'.published = l.retired + commands.length :=
  ⟨issued.retired, issued.published.trans (congrArg (· + _) idle.retired)⟩

include declares

theorem Idle.declared (visits : ∀ fifos, (order fifos).Perm fifos) :
    ((s.withRing ring).poll order).Idle { l' with retired := l'.published } ∧
      s.Retains ((s.withRing ring).poll order) ∧
      ((s.withRing ring).poll order).plant.fabric.tiles = s.plant.fabric.tiles.runKernels.2 := by
  obtain ⟨retired, published⟩ := idle.published_next issued
  have port : ring.queue.port = s.queue.port :=
    congrArg₂ Consumer.mk issued.keeps.region issued.keeps.capacity
  have consumer : s.plant.fabric.consumer = ring.queue.port := idle.port.trans port.symm
  have behind : l'.retired ≤ s.plant.fabric.nextFetch.toNat := by rw [idle.fetched, retired]
  obtain ⟨fetched, next, fetches, further⟩ := @Plant.fetchNext_declared
    ⟨s.plant.fabric, ring.memory⟩ ring.queue l' commands issued.shows consumer declares behind
    (by simp only [idle.fetched, published, Nat.le_refl])
    (by simpa only [idle.fetched, idle.retired] using issued.written)
  simp only [idle.fetched] at further
  have taken : Plant.fetch ⟨s.plant.fabric, ring.memory⟩ = _ := Plant.fetch_eq issued.shows consumer
  have count : l'.published - s.plant.fabric.nextFetch.toNat = commands.length := by
    rw [idle.fetched, published, Nat.add_sub_cancel_left]
  rw [count, fetches, idle.flight, List.nil_append, idle.fetched, ← retired] at taken
  have executed := Plant.execute_idle (p := ⟨{ s.plant.fabric with
    status := commands.foldl FabricStatus.enter s.plant.fabric.status
    inFlight := Plant.doneFrom l'.retired commands.length, nextFetch := next }, ring.memory⟩)
    visits idle.jobs
  obtain ⟨some, memory, gone, shows, leaves⟩ := @Plant.retireFront_all ⟨{ s.plant.fabric with
    status := commands.foldl FabricStatus.enter s.plant.fabric.status
    inFlight := Plant.doneFrom l'.retired commands.length, nextFetch := next
    fifos := order s.plant.fabric.fifos, tiles := s.plant.fabric.tiles.runKernels.2 }, ring.memory⟩
    ring.queue l' commands.length issued.shows consumer (by omega) rfl
  have last : l'.retired + commands.length = l'.published := by omega
  rw [last] at shows
  obtain ⟨bytes, faults⟩ := FabricStatus.enters_keep s.plant.fabric.status commands
  rw [poll_done (s := s.withRing ring) idle.running (Plant.pass_done taken executed gone)]
  have outside := issued.keeps.leaves.trans (issued.keeps.footprint ▸ leaves)
  refine ⟨⟨shows, consumer, idle.running, rfl, issued.level, ?_, rfl, ?_, ?_⟩,
    ⟨⟨rfl, issued.keeps.region, issued.keeps.capacity, faults, outside.size⟩, bytes, outside⟩, rfl⟩
  · exact further.trans published.symm
  · exact ((visits _).map _).nodup_iff.mpr idle.endpoints
  · exact List.perm_nil.mp (((visits _).flatMap_right _).trans (.of_eq idle.jobs))

end Declarations

end Site

end FabricQueue
