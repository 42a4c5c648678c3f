import FabricQueue.Proofs.Retirements

set_option autoImplicit false

namespace FabricQueue

namespace Plant

variable {p p' : Plant} {q : Queue} {first : Nat} {moved : Moves} {l : Log}

structure Aligned (written : Nat → Option Record) (p : Plant) : Prop where
  attended : p.Attended
  queued : ∀ fifo ∈ p.fabric.fifos, fifo.Queued
  named : ∀ job ∈ p.fabric.jobs,
    ∃ t, commandAt written job.index.toNat = some (.transfer t) ∧ job.endpoint = t.endpoint

theorem Serves.job_bounds (serves : p.Serves q first moved l) {job : Job}
    (member : job ∈ p.fabric.jobs) :
    l.retired ≤ job.index.toNat ∧ job.index.toNat < p.fabric.nextFetch.toNat :=
  serves.flight_bounds (serves.owes job member).1

theorem Aligned.accepted {record : Record} {progress : Progress} {f' : Fabric}
    (serves : p.Serves q first moved l)
    (command : commandAt l.written p.fabric.nextFetch.toNat = (Command.decode record).toOption)
    (accepted : p.fabric.Accepted p.fabric.nextFetch record progress f')
    (aligned : p.Aligned l.written) :
    Aligned l.written ⟨{ f' with
      inFlight := p.fabric.inFlight ++ [⟨p.fabric.nextFetch, progress⟩]
      nextFetch := p.fabric.nextFetch + 1 }, p.memory⟩ := by
  have attended :=
    aligned.attended.accepted (p.fabric.nextFetch + 1) p.memory serves.endpoints accepted
  cases accepted with
  | faulted cause undeclared => exact ⟨attended, aligned.queued, aligned.named⟩
  | entered decoded empty => exact ⟨attended, aligned.queued, aligned.named⟩
  | @began t decoded =>
    refine ⟨attended, Fabric.push_queued _ aligned.queued fun other member => ?_, ?_⟩
    · exact UInt64.lt_iff_toNat_lt.mpr (serves.job_bounds member).2
    obtain ⟨fifos, pushed, jobs, _⟩ := Fabric.push_spec
      { index := p.fabric.nextFetch, endpoint := t.endpoint, chunks := t.chunks } serves.endpoints
    rw [pushed]
    intro job member
    rcases List.mem_cons.mp (jobs.subset member) with rfl | old
    · exact ⟨t, by rw [command, decoded]; rfl, rfl⟩
    · exact aligned.named job old

-- Jobs leave at the front only, and the one that stalls keeps its index and its endpoint.
theorem streamJobs_queued {e : Endpoint} {jobs left : List Job} {tally after : Tally}
    (inRange : ∀ job ∈ jobs, job.chunks.InRange) (queued : Fifo.Queued ⟨e, jobs⟩)
    (streamed : streamJobs jobs tally p = .ok (left, after) p') : Fifo.Queued ⟨e, left⟩ := by
  refine streamJobs_induction (R := fun jobs _ _ left _ _ =>
    (∀ job ∈ jobs, job.chunks.InRange) → Fifo.Queued ⟨e, jobs⟩ → Fifo.Queued ⟨e, left⟩)
    ?none ?stall ?finish ?fail streamed inRange queued
  case none => exact fun _ _ _ queued => queued
  case stall =>
    intro job last later tally moved p p' advanced inRange queued
    have known := advance_yields (p := p) (inRange job List.mem_cons_self)
    rw [advanced] at known
    exact queued.resumed known.2.1.index known.2.1.endpoint
  case finish =>
    intro job later left tally after moved p p₁ p' _ rest inRange queued
    exact rest (fun job member => inRange job (List.mem_cons_of_mem _ member)) queued.rest
  case fail =>
    intro job later left tally after e p p₁ p' _ rest inRange queued
    exact rest (fun job member => inRange job (List.mem_cons_of_mem _ member)) queued.rest

theorem streamFifos_queued {fifos left : List Fifo} {tally after : Tally}
    (inRange : ∀ job ∈ fifos.flatMap (·.jobs), job.chunks.InRange)
    (queued : ∀ fifo ∈ fifos, fifo.Queued)
    (streamed : streamFifos fifos tally p = .ok (left, after) p') : ∀ fifo ∈ left, fifo.Queued := by
  refine streamFifos_induction (R := fun fifos _ _ left _ _ =>
    (∀ job ∈ fifos.flatMap (·.jobs), job.chunks.InRange) → (∀ fifo ∈ fifos, fifo.Queued) →
    ∀ fifo ∈ left, fifo.Queued) ?none ?cons streamed inRange queued
  case none => exact fun _ _ _ _ => nofun
  case cons =>
    intro fifo rest left jobs tally tally₁ after p p₁ p' first others inRange queued
    rw [List.flatMap_cons] at inRange
    have front := streamJobs_queued (fun job member => inRange job (List.mem_append_left _ member))
      (queued fifo List.mem_cons_self) first
    exact List.forall_mem_cons.mpr ⟨front,
      others (fun job member => inRange job (List.mem_append_right _ member))
        fun other member => queued other (List.mem_cons_of_mem _ member)⟩

theorem Aligned.settled {order : Order} (visits : ∀ fifos, (order fifos).Perm fifos)
    {fifos : List Fifo} {tally : Tally} (tiles : TileArray) (serves : p.Serves q first moved l)
    (ended : p.Ended order fifos tally p') (aligned : p.Aligned l.written) :
    (p.settledBy tally fifos tiles p'.memory).Aligned l.written := by
  have same : ((order p.fabric.fifos).flatMap (·.jobs)).Perm p.fabric.jobs :=
    (visits p.fabric.fifos).flatMap_right _
  have streams := streamFifos_queued
    (fun job member => (serves.owes job (same.subset member)).2.1)
    (fun fifo member => aligned.queued fifo ((visits _).subset member)) ended.streamed
  refine ⟨aligned.attended.settled same ended.outcome tiles p'.memory, streams, ?_⟩
  intro later member
  obtain ⟨job, among, continues, _⟩ := ended.outcome.owed later member
  rw [continues.index, continues.endpoint]
  exact aligned.named job (same.subset among)

theorem Aligned.retired {e : InFlight} {rest : List InFlight} {written : Nat → Option Record}
    (memory : Memory) (flight : p.fabric.inFlight = e :: rest) (aligned : p.Aligned written) :
    Aligned written ⟨{ p.fabric with
      status := { p.fabric.status with retired := p.fabric.status.retired + 1 }
      inFlight := rest }, memory⟩ :=
  ⟨aligned.attended.retired flight memory, aligned.queued, aligned.named⟩

theorem Aligned.carried {order : Order} (visits : ∀ fifos, (order fifos).Perm fifos) :
    Carried (Aligned l.written) q first l order where
  accepts := Aligned.accepted
  settles := Aligned.settled visits
  retires := Aligned.retired

-- Producers leave the published packets, and so those in flight, as they are.
theorem Aligned.produced {l' : Log} {memory : Memory} (serves : p.Serves q first moved l)
    (settled : ∀ j < l.published, l'.written j = l.written j) (aligned : p.Aligned l.written) :
    Aligned l'.written ⟨p.fabric, memory⟩ := by
  refine ⟨aligned.attended.of_memory memory, aligned.queued, fun job member => ?_⟩
  have bounds := serves.job_bounds member
  rw [commandAt_congr (settled _ (Nat.lt_of_lt_of_le bounds.2 serves.published))]
  exact aligned.named job member

theorem Aligned.retiled {written : Nat → Option Record} (aligned : p.Aligned written)
    (tiles : TileArray) : Aligned written ⟨{ p.fabric with tiles }, p.memory⟩ :=
  ⟨aligned.attended.retiled tiles p.memory, aligned.queued, aligned.named⟩

-- The packets that a fetch puts behind those in flight.
def intake (p : Plant) : List UInt64 :=
  match fetch p with
  | .ok _ p' => (p'.fabric.inFlight.drop p.fabric.inFlight.length).map (·.index)
  | .error _ _ => []

-- The indices in flight are consecutive before and after, so the new ones are too.
theorem Serves.intake_eq {some : Bool} (serves : p.Serves q first moved l)
    (ran : fetch p = .ok some p') :
    p.intake.map (·.toNat) = List.range' p.fabric.nextFetch.toNat
      (l.published - p.fabric.nextFetch.toNat) := by
  have kept := fetch_keeps serves
  rw [ran] at kept
  obtain ⟨⟨after, _⟩, all⟩ := kept
  have behind := serves.behind
  have count := congrArg List.length serves.flight
  rw [List.length_map, List.length_range'] at count
  calc p.intake.map (·.toNat)
      = (p'.fabric.inFlight.map (·.index.toNat)).drop p.fabric.inFlight.length := by
        rw [intake, ran]
        simp only [List.map_map, List.map_drop, Function.comp_def]
    _ = List.range' p.fabric.nextFetch.toNat
        (l.published - p.fabric.nextFetch.toNat) := by
        rw [after.flight, all, count, List.drop_range', Nat.mul_one]
        congr 1 <;> omega

end Plant

namespace Fabric

variable {f : Fabric} {job : Job}

-- The transfers of an index that are under way, in whatever FIFO.
def jobsOf (f : Fabric) (index : UInt64) : List Job :=
  f.jobs.filter (·.index = index)

theorem jobsOf_single (distinct : (f.jobs.map (·.index)).Nodup) (member : job ∈ f.jobs) :
    f.jobsOf job.index = [job] := by
  unfold jobsOf
  generalize f.jobs = jobs at distinct member
  induction jobs with
  | nil => cases member
  | cons other rest ih =>
    rw [List.map_cons, List.nodup_cons] at distinct
    rcases List.mem_cons.mp member with rfl | behind
    · have alone : rest.filter (·.index = job.index) = [] := by
        refine List.filter_eq_nil_iff.mpr fun later among same => distinct.1 ?_
        rw [← of_decide_eq_true same]
        exact List.mem_map_of_mem among
      simp [alone]
    · have apart : other.index ≠ job.index := fun same =>
        distinct.1 (same ▸ List.mem_map_of_mem behind)
      simpa [apart] using ih distinct.2 behind

end Fabric

namespace Site

variable {start s s' : Site} {first : Nat} {h : History} {events : List Event}
  {accepted : List UInt64} {l : Log}

-- The packets that are accepted in a step. Only a pass of a running fabric accepts any.
def intake (s : Site) : Event → List UInt64
  | .produced _ => []
  | .retiled => []
  | .polled _ => if s.plant.fabric.running then s.plant.intake else []

-- A run, with the packets it accepted in this order.
inductive Trail (start : Site) : List Event → List UInt64 → Site → Prop where
  | start : Trail start [] [] start
  | next {events : List Event} {accepted : List UInt64} {event : Event} {s s' : Site} :
      Trail start events accepted s → Step s event s' →
        Trail start (event :: events) (accepted ++ s.intake event) s'

theorem Run.trail (run : Run start events s) : ∃ accepted, Trail start events accepted s := by
  induction run with
  | start => exact ⟨[], .start⟩
  | next _ step ih =>
    obtain ⟨accepted, trail⟩ := ih
    exact ⟨_, trail.next step⟩

def Assigned (s : Site) (written : Nat → Option Record) (index : UInt64) : Prop :=
  ∃ job fifo record t, s.plant.fabric.jobsOf index = [job] ∧ fifo ∈ s.plant.fabric.fifos ∧
    job ∈ fifo.jobs ∧ fifo.endpoint = t.endpoint ∧ written index.toNat = some record ∧
    Command.decode record = .ok (.transfer t)

-- The packets in flight, against the queue, the FIFOs and what was accepted since `first`.
structure Scheduled (s : Site) (first : Nat) (written : Nat → Option Record)
    (accepted : List UInt64) : Prop where
  flight : s.plant.fabric.inFlight.map (·.index.toNat) =
    List.range' s.ring.read (s.plant.fabric.nextFetch.toNat - s.ring.read)
  behind : s.ring.read ≤ s.plant.fabric.nextFetch.toNat
  published : s.plant.fabric.nextFetch.toNat ≤ s.ring.published
  running : ∀ e ∈ s.plant.fabric.inFlight, e.progress = .running ↔ s.Assigned written e.index
  idle : ∀ e ∈ s.plant.fabric.inFlight, e.progress ≠ .running →
    s.plant.fabric.jobsOf e.index = []
  known : ∀ job ∈ s.plant.fabric.jobs, job.index ∈ s.plant.fabric.inFlight.map (·.index)
  endpoints : (s.plant.fabric.fifos.map (·.endpoint)).Nodup
  rising : ∀ fifo ∈ s.plant.fabric.fifos, fifo.jobs.Pairwise (·.index < ·.index)
  once : accepted.map (·.toNat) = List.range' first (s.plant.fabric.nextFetch.toNat - first)
  alive : s.plant.fabric.running = true

-- What a pass meets: no error, every published packet, and in flight whatever streaming ends.
structure Smooth (s : Site) (order : Order) : Prop where
  -- The host's arithmetic is all that can break a pass off, and retirement does not come to that.
  sound : ∀ failure p, s.plant.pass order = .error failure p →
    ∃ cause, failure = .overflow cause
  fetched : ∀ moved p, s.plant.pass order = .ok moved p →
    p.fabric.nextFetch.toNat = s.ring.published
  found : ∀ some p fifos tally p', s.plant.fetch = .ok some p →
    Plant.streamFifos (order p.fabric.fifos) {} p = .ok (fifos, tally) p' →
    (tally.finished ++ tally.failed.map Prod.fst).Nodup ∧
      ∀ index ∈ tally.finished ++ tally.failed.map Prod.fst,
        ⟨index, .running⟩ ∈ p'.fabric.inFlight
  retires : ∀ some p stepped p', s.plant.fetch = .ok some p → p.execute order = .ok stepped p' →
    ∃ retired p'', Plant.retireFront p'.fabric.inFlight p' = .ok retired p''

structure Follows (s : Site) (first : Nat) (h : History) (events : List Event)
    (accepted : List UInt64) (l : Log) : Prop where
  tracks : s.Tracks first h events l
  aligned : s.plant.Aligned l.written
  once : accepted.map (·.toNat) = List.range' first (s.plant.fabric.nextFetch.toNat - first)

theorem Spawned.eq {ring : Ring} {hosts : HostMap} {tiles : TileArray}
    (spawned : s.Spawned ring hosts tiles) (tracked : ring.Tracks h) :
    s = Site.spawned ring hosts tiles := by
  obtain ⟨queue, ⟨fabric, memory⟩⟩ := s
  obtain ⟨rfl, started⟩ := spawned
  cases started.symm.trans (spawned_ok tracked hosts tiles).2
  rfl

theorem Spawned.follows {ring : Ring} {hosts : HostMap} {tiles : TileArray}
    (spawned : s.Spawned ring hosts tiles) (tracked : ring.Tracks h)
    (apart : hosts.Apart ring.queue) :
    s.Follows ring.read h [] [] (h.log ring.queue.capacity) := by
  have tracks := spawned.tracks tracked apart
  obtain rfl := spawned.eq tracked
  refine ⟨tracks, ⟨⟨nofun, nofun⟩, nofun, nofun⟩, ?_⟩
  -- Nothing is in flight, so the next packet to fetch is the one at the read index.
  have flight := congrArg List.length tracks.serves.flight
  have number : ring.read = (h.log ring.queue.capacity).retired := tracked.counters.1
  rw [← number, List.length_range'] at flight
  rw [← flight]
  rfl

theorem Step.follows {event : Event} (follows : s.Follows first h events accepted l)
    (step : Step s event s') :
    ∃ l', s'.Follows first h (event :: events) (accepted ++ s.intake event) l' := by
  obtain ⟨tracks, aligned, once⟩ := follows
  have serves := tracks.serves
  cases step with
  | produce a =>
    rw [intake, List.append_nil]
    exact ⟨_, tracks.produced a, aligned.produced serves fun j below =>
      (Log.perform_step _ _).settled below, once⟩
  | retile tiles =>
    rw [intake, List.append_nil]
    exact ⟨l, tracks.retiled tiles, aligned.retiled tiles, once⟩
  | poll order visits calm =>
    have kept := Plant.pass_carries (Plant.Aligned.carried visits) visits serves aligned
    obtain ⟨moved, p, ran, ⟨n, low, after, _⟩, aligned', all⟩ := kept.calm calm
    obtain ⟨fetched, p₁, taken, _⟩ := bind_cases ran
    have moves : s.moves order = s.plant.passMoves order := if_pos serves.running
    rw [poll_done serves.running ran, moves]
    refine ⟨_, ⟨after, tracks.written⟩, aligned', ?_⟩
    have started := serves.started
    have behind := serves.behind
    have published := serves.published
    have count : l.published - first = s.plant.fabric.nextFetch.toNat - first +
        (l.published - s.plant.fabric.nextFetch.toNat) := by omega
    rw [intake, if_pos serves.running, List.map_append, once, serves.intake_eq taken, all, count,
      ← List.range'_append_1, Nat.add_sub_cancel' (Nat.le_trans started behind)]

theorem Trail.follows {l₀ : Log} (follows : start.Follows first h [] [] l₀)
    (trail : Trail start events accepted s) : ∃ l, s.Follows first h events accepted l := by
  induction trail with
  | start => exact ⟨l₀, follows⟩
  | next _ step ih =>
    obtain ⟨l, follows⟩ := ih
    exact step.follows follows

theorem Follows.assigned (follows : s.Follows first h events accepted l) {index : UInt64} :
    ⟨index, .running⟩ ∈ s.plant.fabric.inFlight ↔
      s.Assigned (History.written (Event.entries events ++ h)) index := by
  have serves := follows.tracks.serves
  constructor
  · intro running
    obtain ⟨job, member, rfl⟩ := List.mem_map.mp (follows.aligned.attended.running index running)
    obtain ⟨fifo, known, among⟩ := List.mem_flatMap.mp member
    obtain ⟨t, command, endpoint⟩ := follows.aligned.named job member
    obtain ⟨record, found, decoded⟩ := commandAt_eq command
    refine ⟨job, fifo, record, t, Fabric.jobsOf_single serves.distinct member, known, among, ?_,
      follows.tracks.written ▸ found, decoded⟩
    rw [← endpoint, (follows.aligned.queued fifo known).placed job among]
  · rintro ⟨job, fifo, record, t, single, _⟩
    have member : job ∈ s.plant.fabric.jobsOf index := by rw [single]; exact List.mem_cons_self
    obtain ⟨among, same⟩ := List.mem_filter.mp member
    rw [← of_decide_eq_true same]
    exact (serves.owes job among).1

theorem Follows.scheduled (follows : s.Follows first h events accepted l) :
    s.Scheduled first (History.written (Event.entries events ++ h)) accepted := by
  have serves := follows.tracks.serves
  have published : s.ring.published = l.published := serves.shows.doorbell
  refine {
    flight := ?flight, behind := ?behind, published := ?published, running := ?running
    idle := ?idle, known := ?known, endpoints := serves.endpoints
    rising := fun fifo member => (follows.aligned.queued fifo member).sorted
    once := follows.once, alive := serves.running }
  case flight => rw [follows.tracks.read_eq]; exact serves.flight
  case behind => rw [follows.tracks.read_eq]; exact serves.behind
  case published => rw [published]; exact serves.published
  case running =>
    rintro ⟨index, progress⟩ member
    rw [← follows.assigned]
    refine ⟨fun same => ?_, fun running => ?_⟩
    · simp only at same
      exact same ▸ member
    · exact congrArg (·.progress) (serves.flight_unique member running rfl)
  case idle =>
    intro e member still
    refine List.filter_eq_nil_iff.mpr fun job among same => still ?_
    have running := (serves.owes job among).1
    exact congrArg (·.progress)
      (serves.flight_unique member running (of_decide_eq_true same).symm)
  case known =>
    intro job member
    exact List.mem_map.mpr ⟨_, (serves.owes job member).1, rfl⟩

theorem Follows.smooth (follows : s.Follows first h events accepted l) {order : Order}
    (visits : ∀ fifos, (order fifos).Perm fifos) : s.Smooth order := by
  have serves := follows.tracks.serves
  have passes := Plant.pass_carries (.nothing order) visits serves trivial
  have fetches := Plant.fetch_keeps serves
  refine { sound := ?sound, fetched := ?fetched, found := ?found, retires := ?retires }
  case sound =>
    intro failure p ran
    rw [ran] at passes
    match failure with
    | .overflow cause => exact ⟨cause, rfl⟩
  case fetched =>
    intro moved p ran
    rw [ran] at passes
    exact passes.2.2.trans serves.shows.doorbell.symm
  case found =>
    intro some p fifos tally p' taken streamed
    rw [taken] at fetches
    have serves₁ := fetches.1.1
    have ended := serves₁.streamed visits
    rw [streamed] at ended
    have same : ((order p.fabric.fifos).flatMap (·.jobs)).Perm p.fabric.jobs :=
      (visits p.fabric.fifos).flatMap_right _
    have sorted := ended.outcome.sorted
    have distinct := sorted.nodup_iff.mpr ((same.map (·.index)).nodup_iff.mpr serves₁.distinct)
    refine ⟨(List.nodup_append.mp distinct).1, fun index among => ?_⟩
    rw [ended.beside.fabric]
    exact serves₁.under_way same (sorted.subset (List.mem_append_left _ among))
  case retires =>
    intro some p stepped p' taken executed
    rw [taken] at fetches
    have executes := Plant.execute_keeps visits fetches.1.1
    rw [executed] at executes
    obtain ⟨retired, p'', _, gone, _⟩ := Plant.retireFront_settles _ executes.1 rfl
      (Outside.refl _ _ : Outside s.queue (s.queue.settled p'.memory l.retired 0) p'.memory) rfl
    exact ⟨retired, p'', gone⟩

theorem run_scheduled {root ring : Ring} {hosts : HostMap} {tiles : TileArray}
    (opened : root.Opened) (led : Ring.Run root h ring) (spawned : start.Spawned ring hosts tiles)
    (apart : hosts.Apart ring.queue) (trail : Trail start events accepted s) :
    s.Scheduled ring.read (History.written (Event.entries events ++ h)) accepted ∧
      ∀ order, (∀ fifos, (order fifos).Perm fifos) → s.Smooth order := by
  obtain ⟨l, follows⟩ := trail.follows (spawned.follows (led.tracks opened).1 apart)
  exact ⟨follows.scheduled, fun order visits => follows.smooth visits⟩

def sampleWaiting : Site :=
  sampleStart.offer [.reserve 2,
    .writePacket 0 (.transfer (sampleTransfer .hostToDevice 4096)), .write 1 { kind := 255 },
    .dispatch 1]

theorem sampleWaiting_pass : sampleWaiting.Calm id ∧
    (sampleWaiting.poll id).plant.fabric.inFlight = [⟨0, .running⟩, ⟨1, .faulted⟩] := by
  rw [sampleWaiting, sampleStart_offer]
  decide +kernel

theorem run_scheduled_sample : ∃ s events accepted, sampleRing.Opened ∧
    Ring.Run sampleRing [] sampleRing ∧
    sampleStart.Spawned sampleRing ⟨[⟨192, 4096, 64, false⟩]⟩ (sampleTiles .hostToDevice true) ∧
    HostMap.Apart ⟨[⟨192, 4096, 64, false⟩]⟩ sampleRing.queue ∧
    Trail sampleStart events accepted s ∧
    (s.Scheduled sampleRing.read (History.written (Event.entries events ++ [])) accepted ∧
      ∀ order, (∀ fifos, (order fifos).Perm fifos) → s.Smooth order) ∧
    s.plant.fabric.inFlight = [⟨0, .running⟩, ⟨1, .faulted⟩] := by
  obtain ⟨calm, flight⟩ := sampleWaiting_pass
  obtain ⟨events, offered⟩ : ∃ events, Run sampleStart events sampleWaiting := offer_run .start _
  obtain ⟨accepted, trail⟩ := (offered.next (.poll id (fun _ => List.Perm.refl _) calm)).trail
  exact ⟨_, _, _, sampleRing_opened, .start, sampleStart_spawned, sampleRing_apart, trail,
    run_scheduled sampleRing_opened .start sampleStart_spawned sampleRing_apart trail, flight⟩

theorem sampleOverlap_halts : (sampleOverlap.poll id).plant.fabric.running = false := by
  rw [sampleOverlap_eq]
  decide +kernel

theorem overlap_breaks_schedule : ¬ ∀ (root ring : Ring) (h : History) (hosts : HostMap)
    (tiles : TileArray) (start s : Site) (events : List Event) (accepted : List UInt64),
    root.Opened → Ring.Run root h ring → start.Spawned ring hosts tiles →
    Trail start events accepted s →
    s.Scheduled ring.read (History.written (Event.entries events ++ h)) accepted ∧
      ∀ order, (∀ fifos, (order fifos).Perm fifos) → s.Smooth order := by
  intro always
  have calm := sampleOverlap_pass.1
  have spawned := spawned_ok sampleRing_opened.tracks ⟨[⟨0, 0, 192, false⟩]⟩
    (sampleTiles .deviceToHost true)
  obtain ⟨events, published⟩ : ∃ events, Run _ events sampleOverlap := offer_run .start _
  obtain ⟨accepted, trail⟩ := (published.next (.poll id (fun _ => List.Perm.refl _) calm)).trail
  obtain ⟨scheduled, _⟩ := always _ _ _ _ _ _ _ _ _ sampleRing_opened .start spawned trail
  exact absurd (scheduled.alive.symm.trans sampleOverlap_halts) (by decide)

end Site

end FabricQueue
