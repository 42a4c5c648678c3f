import FabricQueue.Proofs.Service

set_option autoImplicit false

namespace FabricQueue

namespace Plant

variable {p : Plant} {q : Queue} {first : Nat} {moved : Moves} {l : Log}

def Keeps (p : Plant) (q : Queue) (first : Nat) (moved : Moves) (l : Log) (p' : Plant) : Prop :=
  p'.Serves q first moved l ∧ p.fabric.status.faults ⊆ p'.fabric.status.faults

theorem Keeps.trans {moved' : Moves} {l' : Log} {p' p'' : Plant}
    (before : p.Keeps q first moved l p') (after : p'.Keeps q first moved' l' p'') :
    p.Keeps q first moved' l' p'' :=
  ⟨after.1, List.Subset.trans before.2 after.2⟩

theorem onFabric_yields {α : Type} {use : Fabric → Except Failure (α × Fabric)}
    {good : α → Plant → Prop} {bad : Plant → Prop} (overflows : OnlyOverflows (use p.fabric))
    (known : ∀ a f, use p.fabric = .ok (a, f) → good a ⟨f, p.memory⟩) :
    Yields good bad (onFabric use p) := by
  obtain ⟨fabric, memory⟩ := p
  simp only [onFabric] at overflows known ⊢
  cases run : use fabric with
  | ok result => exact known _ _ run
  | error failure =>
    obtain ⟨cause, rfl⟩ := overflows failure run
    trivial

theorem onMemory_ok {α : Type} {use : Access α} {a : α} {memory : Memory}
    (done : use p.memory = .ok a memory) : onMemory use p = .ok a ⟨p.fabric, memory⟩ := by
  obtain ⟨fabric, before⟩ := p
  simp only [onMemory, done]

section Consumer

variable (shows : q.Shows p.memory l) (port : p.fabric.consumer = q.port)

include shows port

theorem published_ok : p.fabric.consumer.published p.memory =
    .ok ((q.region.cells p.memory).doorbell + 1) p.memory := by
  rw [port]
  exact shows.carries.published_ok

theorem fetch_found {written : Record} (behind : l.retired ≤ p.fabric.nextFetch.toNat)
    (below : p.fabric.nextFetch.toNat < l.published)
    (known : l.written p.fabric.nextFetch.toNat = some written) :
    p.fabric.consumer.fetch p.fabric.nextFetch p.memory = .ok (some written.activated) p.memory := by
  rw [port, shows.fetch_ok ⟨behind, Nat.lt_of_lt_of_le below shows.sound.published_le⟩, Log.fetch,
    if_pos below, known]
  rfl

-- A fetch takes what was published since the last one.
theorem fetch_eq : fetch p = fetchNext (l.published - p.fabric.nextFetch.toNat) p := by
  unfold fetch
  refine (bind_ok rfl).trans ((bind_ok (onMemory_ok (published_ok shows port))).trans ?_)
  rw [shows.doorbell]

end Consumer

-- Where streaming leaves a packet in flight.
def Tally.settle (tally : Tally) (e : InFlight) : InFlight :=
  if e.index ∈ tally.failed.map Prod.fst then { e with progress := .faulted }
  else if e.index ∈ tally.finished then { e with progress := .done }
  else e

theorem Tally.settle_index (tally : Tally) (e : InFlight) : (tally.settle e).index = e.index := by
  unfold settle
  split_ifs <;> rfl

theorem Tally.settle_failed {tally : Tally} {e : InFlight}
    (failed : e.index ∈ tally.failed.map Prod.fst) : tally.settle e = ⟨e.index, .faulted⟩ :=
  if_pos failed

theorem Tally.settle_other {tally : Tally} {e : InFlight}
    (unfailed : e.index ∉ tally.failed.map Prod.fst) (unfinished : e.index ∉ tally.finished) :
    tally.settle e = e :=
  (if_neg unfailed).trans (if_neg unfinished)

theorem Tally.settle_cases {tally : Tally} {e e' : InFlight} (settled : tally.settle e = e') :
    (e.index ∈ tally.failed.map Prod.fst ∧ e' = ⟨e.index, .faulted⟩) ∨
    (e.index ∈ tally.finished ∧ e' = ⟨e.index, .done⟩) ∨
    (e.index ∉ tally.failed.map Prod.fst ∧ e.index ∉ tally.finished ∧ e' = e) := by
  unfold settle at settled
  split_ifs at settled with failed finished
  · exact .inl ⟨failed, settled.symm⟩
  · exact .inr (.inl ⟨finished, settled.symm⟩)
  · exact .inr (.inr ⟨failed, finished, settled.symm⟩)

theorem Tally.settle_nothing (flight : List InFlight) : flight.map (Tally.settle {}) = flight :=
  List.map_id _

theorem markAll (progress : Progress) (indices : List UInt64) (f : Fabric) :
    indices.foldl (fun f index => f.mark index progress) f = { f with
      inFlight := f.inFlight.map fun e =>
        if e.index ∈ indices then { e with progress } else e } := by
  induction indices generalizing f with
  | nil => simp
  | cons index indices ih =>
    rw [List.foldl_cons, ih, Fabric.mark]
    simp only [List.map_map]
    congr 2
    funext e
    by_cases here : e.index = index <;> by_cases later : e.index ∈ indices <;>
      simp [here, later]

theorem failAll (failed : List (UInt64 × Error)) (f : Fabric) :
    failed.foldl (fun f entry => (f.fault entry.1 entry.2).2.mark entry.1 .faulted) f = { f with
      status := { f.status with
        faults := f.status.faults ++ failed.map fun entry => ⟨entry.1, entry.2⟩ }
      inFlight := f.inFlight.map fun e =>
        if e.index ∈ failed.map Prod.fst then { e with progress := .faulted } else e } := by
  induction failed generalizing f with
  | nil => simp
  | cons entry failed ih =>
    rw [List.foldl_cons, ih, Fabric.mark, Fabric.fault]
    simp only [List.map_map, FabricStatus.fault, List.append_assoc]
    congr 2
    funext e
    by_cases here : e.index = entry.1 <;> by_cases later : e.index ∈ failed.map Prod.fst <;>
      simp [here, later]

theorem settle_marks (tally : Tally) (p : Plant) :
    (do
      update fun f => tally.finished.foldl (fun f index => f.mark index .done) f
      update fun f => tally.failed.foldl (fun f entry =>
        let (progress, f) := f.fault entry.1 entry.2
        f.mark entry.1 progress) f : Work Unit) p = .ok () ⟨{ p.fabric with
      status := { p.fabric.status with
        faults := p.fabric.status.faults ++ tally.failed.map fun entry => ⟨entry.1, entry.2⟩ }
      inFlight := p.fabric.inFlight.map tally.settle }, p.memory⟩ := by
  have after (f f' : Fabric) (same : f = f') :
      (EStateM.Result.ok () ⟨f, p.memory⟩ : EStateM.Result Failure Plant Unit) =
        .ok () ⟨f', p.memory⟩ := by rw [same]
  refine (bind_ok rfl).trans (after _ _ ((failAll tally.failed _).trans ?_))
  simp only [markAll, List.map_map]
  congr 2
  funext e
  by_cases failed : e.index ∈ tally.failed.map Prod.fst <;>
    by_cases finished : e.index ∈ tally.finished <;> simp [Tally.settle, failed, finished]

def settledBy (p : Plant) (tally : Tally) (fifos : List Fifo) (tiles : TileArray)
    (memory : Memory) : Plant :=
  ⟨{ p.fabric with
    tiles, fifos
    status := { p.fabric.status with
      bytesMoved := p.fabric.status.bytesMoved + tally.bytes
      faults := p.fabric.status.faults ++ tally.failed.map fun entry => ⟨entry.1, entry.2⟩ }
    inFlight := p.fabric.inFlight.map tally.settle }, memory⟩

theorem settleTally_yields (tally : Tally) {bad : Plant → Prop} :
    Yields (fun _ p' => p' = p.settledBy tally p.fabric.fifos p.fabric.tiles p.memory)
      bad (settleTally tally p) := by
  unfold settleTally
  split
  · refine Yields.after rfl ((count_yields _ _ _).bind ?_)
    rintro _ _ ⟨rfl, rfl⟩
    exact Yields.after rfl ((congrArg (Yields _ _) (settle_marks tally _)).mpr rfl)
  next still =>
    have none : tally.bytes = 0 := by omega
    simp only [settledBy, none, Nat.add_zero]
    exact (congrArg (Yields _ _) (settle_marks tally p)).mpr rfl

structure Ended (p : Plant) (order : Order) (fifos : List Fifo) (tally : Tally) (p' : Plant) :
    Prop where
  streamed : streamFifos (order p.fabric.fifos) {} p = .ok (fifos, tally) p'
  beside : p.Beside p'
  endpoints : fifos.map (·.endpoint) = (order p.fabric.fifos).map (·.endpoint)
  bytes : tally.bytes = (fifosMoves (order p.fabric.fifos) {} p).total
  outcome : Outcome ((order p.fabric.fifos).flatMap (·.jobs))
    (fifosMoves (order p.fabric.fifos) {} p) tally.finished (tally.failed.map Prod.fst)
    (fifos.flatMap (·.jobs))

structure Carried (I : Plant → Prop) (q : Queue) (first : Nat) (l : Log) (order : Order) :
    Prop where
  accepts : ∀ {p : Plant} {moved : Moves} {record : Record} {progress : Progress} {f' : Fabric},
    p.Serves q first moved l →
    commandAt l.written p.fabric.nextFetch.toNat = (Command.decode record).toOption →
    p.fabric.Accepted p.fabric.nextFetch record progress f' → I p →
    I ⟨{ f' with
      inFlight := p.fabric.inFlight ++ [⟨p.fabric.nextFetch, progress⟩]
      nextFetch := p.fabric.nextFetch + 1 }, p.memory⟩
  settles : ∀ {p : Plant} {moved : Moves} {fifos : List Fifo} {tally : Tally} {p' : Plant}
    (tiles : TileArray), p.Serves q first moved l → p.Ended order fifos tally p' → I p →
    I (p.settledBy tally fifos tiles p'.memory)
  retires : ∀ {p : Plant} {e : InFlight} {rest : List InFlight} (memory : Memory),
    p.fabric.inFlight = e :: rest → I p →
    I ⟨{ p.fabric with
      status := { p.fabric.status with retired := p.fabric.status.retired + 1 }
      inFlight := rest }, memory⟩

theorem Carried.nothing (order : Order) : Carried (fun _ => True) q first l order :=
  ⟨fun _ _ _ => id, fun _ _ _ => id, fun _ _ => id⟩

theorem fetchNext_carries {I : Plant → Prop} {order : Order} (carried : Carried I q first l order)
    (count : Nat) (serves : p.Serves q first moved l) (holds : I p)
    (room : p.fabric.nextFetch.toNat + count ≤ l.published) :
    Yields (fun _ p' => p.Keeps q first moved l p' ∧ I p' ∧
        p'.fabric.nextFetch.toNat = p.fabric.nextFetch.toNat + count)
      (fun _ => False) (fetchNext count p) := by
  induction count generalizing p with
  | zero => exact ⟨⟨serves, List.Subset.refl _⟩, holds, rfl⟩
  | succ count ih =>
    have below : p.fabric.nextFetch.toNat < l.published := by omega
    obtain ⟨written, found⟩ :=
      Option.isSome_iff_exists.mp (serves.shows.sound.covered _ below)
    unfold fetchNext
    refine Yields.after rfl (Yields.after
      (onMemory_ok (fetch_found serves.shows serves.port serves.behind below found)) ?_)
    refine Yields.bind (R := fun progress p' => p'.memory = p.memory ∧
      p.fabric.Accepted p.fabric.nextFetch written.activated progress p'.fabric)
      (onFabric_yields (Fabric.accept_overflows _ _ _) fun progress f accepted =>
        ⟨rfl, Fabric.accept_cases accepted⟩) ?_
    rintro progress ⟨f', memory⟩ ⟨rfl, accepted⟩
    have same := Command.decode_activated written
    obtain ⟨after, faults, flight⟩ := serves.accepted below found same accepted
    have command : commandAt l.written p.fabric.nextFetch.toNat =
        (Command.decode written.activated).toOption := by
      rw [commandAt, found, same]
      rfl
    have next := serves.next_toNat below
    have further := ih after (carried.accepts serves command accepted holds)
      (by simp only [next]; omega)
    rw [← flight] at further
    refine Yields.after rfl (further.bind ?_)
    rintro _ p'' ⟨keeps, carries, fetched⟩
    simp only [next] at fetched
    exact ⟨⟨keeps.1, List.Subset.trans faults keeps.2⟩, carries, by omega⟩

theorem fetch_carries {I : Plant → Prop} {order : Order} (carried : Carried I q first l order)
    (serves : p.Serves q first moved l) (holds : I p) :
    Yields (fun _ p' => p.Keeps q first moved l p' ∧ I p' ∧
        p'.fabric.nextFetch.toNat = l.published)
      (fun _ => False) (fetch p) := by
  have bound := serves.published
  rw [fetch_eq serves.shows serves.port]
  refine (fetchNext_carries carried _ serves holds (by omega)).mono (fun _ p' => ?_) fun _ => id
  rintro ⟨keeps, carries, fetched⟩
  exact ⟨keeps, carries, by omega⟩

theorem fetch_keeps (serves : p.Serves q first moved l) :
    Yields (fun _ p' => p.Keeps q first moved l p' ∧ p'.fabric.nextFetch.toNat = l.published)
      (fun _ => False) (fetch p) :=
  (fetch_carries (.nothing id) serves trivial).mono (fun _ _ after => ⟨after.1, after.2.2⟩)
    fun _ => id

namespace Serves

variable {tally : Tally} {jobs : List Job} {moves : Moves} {fifos : List Fifo}

theorem under_way (serves : p.Serves q first moved l) (same : jobs.Perm p.fabric.jobs)
    {index : UInt64} (own : index ∈ jobs.map (·.index)) :
    ⟨index, .running⟩ ∈ p.fabric.inFlight := by
  obtain ⟨job, member, rfl⟩ := List.mem_map.mp own
  exact (serves.owes job (same.subset member)).1

theorem settled {memory : Memory} {tiles : TileArray} (serves : p.Serves q first moved l)
    (same : jobs.Perm p.fabric.jobs)
    (outcome : Outcome jobs moves tally.finished (tally.failed.map Prod.fst)
      (fifos.flatMap (·.jobs))) (bytes : tally.bytes = moves.total)
    (endpoints : (fifos.map (·.endpoint)).Nodup) (shows : q.Shows memory l) :
    (p.settledBy tally fifos tiles memory).Serves q first (moved ++ moves) l := by
  unfold settledBy
  have sorted := outcome.sorted
  have distinct : (tally.finished ++ tally.failed.map Prod.fst ++
      (fifos.flatMap (·.jobs)).map (·.index)).Nodup :=
    sorted.nodup_iff.mpr ((same.map _).nodup_iff.mpr serves.distinct)
  have apart := List.nodup_append.mp distinct
  have own {index : UInt64} (among : index ∈ tally.finished ++ tally.failed.map Prod.fst ++
      (fifos.flatMap (·.jobs)).map (·.index)) : ⟨index, .running⟩ ∈ p.fabric.inFlight :=
    serves.under_way same (sorted.subset among)
  -- A packet that is not running has no job, so it is not settled.
  have idle {e : InFlight} (member : e ∈ p.fabric.inFlight) (still : e.progress ≠ .running) :
      tally.settle e = e := by
    have other : e.index ∉ jobs.map (·.index) := fun among => still
      (congrArg (·.progress) (serves.flight_unique member (serves.under_way same among) rfl))
    exact Tally.settle_other
      (fun failed => other (sorted.subset (List.mem_append_left _ (List.mem_append_right _ failed))))
      (fun finished => other
        (sorted.subset (List.mem_append_left _ (List.mem_append_left _ finished))))
  have outside {index : UInt64} (gone : ⟨index, .running⟩ ∉ p.fabric.inFlight) :
      Moves.of (moved ++ moves) index = moved.of index := by
    have quiet := outcome.quiet fun among => gone (serves.under_way same among)
    rw [Moves.of_append, quiet, Nat.add_zero]
  refine { serves with
    shows, bytes := ?bytes, flight := ?flight, endpoints, distinct := apart.2.1, owes := ?owes
    done := ?done, once := ?once, stuck := ?stuck, fresh := ?fresh, executed := ?executed
    declares := ⟨serves.declares.herds, serves.declares.deviceColumns⟩ }
  case bytes => simp only [Moves.total_append, serves.bytes, bytes]
  case flight =>
    refine (List.map_map ..).trans ((List.map_congr_left fun e _ => ?_).trans serves.flight)
    exact congrArg UInt64.toNat (tally.settle_index e)
  case owes =>
    intro later member
    have left : later.index ∈ (fifos.flatMap (·.jobs)).map (·.index) := List.mem_map_of_mem member
    have unsettled : later.index ∉ tally.finished ++ tally.failed.map Prod.fst :=
      fun settled => apart.2.2 _ settled _ left rfl
    obtain ⟨job, among, continues, moved'⟩ := outcome.owed later member
    obtain ⟨_, inRange, decoded, owed⟩ := serves.owes job (same.subset among)
    rw [continues.index]
    refine ⟨List.mem_map.mpr ⟨_, serves.under_way same (List.mem_map_of_mem among), ?_⟩,
      continues.inRange inRange, decoded, by rw [Moves.of_append]; omega⟩
    rw [← continues.index]
    exact Tally.settle_other (fun failed => unsettled (List.mem_append_right _ failed))
      (fun finished => unsettled (List.mem_append_left _ finished))
  case done =>
    intro index member
    obtain ⟨e, among, settled⟩ := List.mem_map.mp member
    -- Its job finished in this pass, or it was done before.
    rcases Tally.settle_cases settled with ⟨_, same'⟩ | ⟨finished, same'⟩ | ⟨_, _, rfl⟩
    · cases same'
    · cases same'
      obtain ⟨job, old, index⟩ := List.mem_map.mp (outcome.done_own finished)
      obtain ⟨_, _, decoded, owed⟩ := serves.owes job (same.subset old)
      rw [← index] at finished ⊢
      exact ⟨decoded, by rw [Moves.of_append, outcome.paid job old finished]; exact owed⟩
    · apply (serves.done index among).congr rfl
      apply outside
      intro other
      cases serves.flight_unique among other rfl
  case once =>
    simp only [List.map_append, List.map_map]
    refine List.nodup_append.mpr ⟨serves.once, (List.nodup_append.mp apart.1).2.1, ?_⟩
    intro index old other new equal
    obtain ⟨fault, among, rfl⟩ := List.mem_map.mp old
    have failed : fault.index ∈ tally.failed.map Prod.fst := by rw [equal]; exact new
    have clash := serves.flight_unique (serves.stuck fault among)
      (own (List.mem_append_left _ (List.mem_append_right _ failed))) rfl
    cases clash
  case stuck =>
    intro fault member
    rcases List.mem_append.mp member with old | new
    · have stuck := serves.stuck fault old
      exact List.mem_map.mpr ⟨_, stuck, idle stuck (by simp)⟩
    · obtain ⟨entry, among, rfl⟩ := List.mem_map.mp new
      have failed : entry.1 ∈ tally.failed.map Prod.fst := List.mem_map_of_mem among
      exact List.mem_map.mpr ⟨_, own (List.mem_append_left _ (List.mem_append_right _ failed)),
        Tally.settle_failed failed⟩
  case fresh =>
    intro index beyond
    have landed : ⟨index, .running⟩ ∉ p.fabric.inFlight := by
      intro flying
      have bounds := serves.flight_bounds flying
      have above := UInt64.le_iff_toNat_le.mp beyond
      simp only at above bounds
      omega
    rw [outside landed, serves.fresh index beyond]
  case executed =>
    intro index low high
    apply (serves.executed index low high).congr rfl
    apply outside
    intro flying
    have bounds := serves.flight_bounds flying
    simp only at bounds
    omega

theorem front {e : InFlight} {rest : List InFlight} (serves : p.Serves q first moved l)
    (flight : p.fabric.inFlight = e :: rest) :
    e.index.toNat = l.retired ∧ l.retired < p.fabric.nextFetch.toNat ∧
      rest.map (·.index.toNat) =
        List.range' (l.retired + 1) (p.fabric.nextFetch.toNat - (l.retired + 1)) := by
  have numbers := serves.flight
  rw [flight, List.map_cons] at numbers
  by_cases none : p.fabric.nextFetch.toNat - l.retired = 0
  · rw [none] at numbers; cases numbers
  · have more : p.fabric.nextFetch.toNat - l.retired =
        p.fabric.nextFetch.toNat - (l.retired + 1) + 1 := by omega
    rw [more, List.range'_succ, List.cons.injEq] at numbers
    exact ⟨numbers.1, by omega, numbers.2⟩

theorem retired {index : UInt64} {rest : List InFlight} {memory : Memory}
    (serves : p.Serves q first moved l) (flight : p.fabric.inFlight = ⟨index, .done⟩ :: rest)
    (shows : q.Shows memory { l with retired := l.retired + 1 }) :
    Plant.Serves ⟨{ p.fabric with
      status := { p.fabric.status with retired := p.fabric.status.retired + 1 }
      inFlight := rest }, memory⟩ q first moved { l with retired := l.retired + 1 } := by
  obtain ⟨current, behind, numbers⟩ := serves.front flight
  simp only at current
  have started := serves.started
  have counted := serves.counted
  -- A job still runs, and a fault stands, behind the packet that leaves.
  have kept {e : InFlight} (member : e ∈ p.fabric.inFlight) (other : e.progress ≠ .done) :
      e ∈ rest := by
    rw [flight] at member
    exact List.mem_of_ne_of_mem (fun same => other (same ▸ rfl)) member
  have later {e : InFlight} (member : e ∈ rest) : e ∈ p.fabric.inFlight := by
    rw [flight]
    exact List.mem_cons_of_mem _ member
  refine { serves with
    shows, started := ?started, counted := ?counted, behind, flight := numbers, owes := ?owes
    done := ?done, stuck := ?stuck, executed := ?executed
    declares := ⟨serves.declares.herds, serves.declares.deviceColumns⟩ }
  case started => simp only; omega
  case counted => simp only; omega
  case owes =>
    intro job member
    obtain ⟨among, rest⟩ := serves.owes job member
    exact ⟨kept among (by simp), rest⟩
  case done =>
    intro other member
    exact serves.done other (later member)
  case stuck =>
    intro fault member
    exact kept (serves.stuck fault member) (by simp)
  case executed =>
    intro other low high
    by_cases last : other.toNat = l.retired
    · have same : other = index := UInt64.toNat_inj.mp (last.trans current.symm)
      rw [same]
      exact serves.done index (by rw [flight]; exact List.mem_cons_self)
    · exact serves.executed other low (by simp only at high; omega)

end Serves

theorem Beside.shows {p' : Plant} (beside : p.Beside p') (apart : p.fabric.hosts.Apart q)
    (shows : q.Shows p.memory l) : q.Shows p'.memory l := by
  refine shows.of_bytes beside.size fun i low high => beside.outside i fun r member => ?_
  have away := apart r member
  omega

theorem runKernels_ok (p : Plant) :
    ∃ stepped tiles, onTiles (fun t => .ok t.runKernels) p =
      .ok stepped ⟨{ p.fabric with tiles }, p.memory⟩ :=
  ⟨_, _, rfl⟩

theorem Serves.streamed {order : Order} (visits : ∀ fifos, (order fifos).Perm fifos)
    (serves : p.Serves q first moved l) :
    Yields (fun result p' => p.Ended order result.1 result.2 p') (fun _ => False)
      (streamFifos (order p.fabric.fifos) {} p) := by
  have same : ((order p.fabric.fifos).flatMap (·.jobs)).Perm p.fabric.jobs :=
    (visits p.fabric.fifos).flatMap_right _
  refine (streamFifos_yields (order p.fabric.fifos) {}
    (fun job member => (serves.owes job (same.subset member)).2.1)
    ((same.map _).nodup_iff.mpr serves.distinct)).known.mono ?_ fun _ => id
  rintro ⟨fifos, tally⟩ p' ⟨ran, beside, endpoints, finished, failed, done, errors, bytes, outcome⟩
  simp only [List.nil_append, Nat.zero_add] at done errors bytes
  subst done errors
  exact ⟨ran, beside, endpoints, bytes, outcome⟩

theorem execute_carries {I : Plant → Prop} {order : Order} (carried : Carried I q first l order)
    (visits : ∀ fifos, (order fifos).Perm fifos) (serves : p.Serves q first moved l) (holds : I p) :
    Yields (fun _ p' => p.Keeps q first (moved ++ fifosMoves (order p.fabric.fifos) {} p) l p' ∧
        I p' ∧ p'.fabric.nextFetch = p.fabric.nextFetch)
      (fun _ => False) (execute order p) := by
  unfold execute
  refine Yields.after rfl ((serves.streamed visits).bind ?_)
  rintro ⟨fifos, tally⟩ p₁ ended
  obtain ⟨stepped, tiles, stepping⟩ := runKernels_ok ⟨{ p₁.fabric with fifos }, p₁.memory⟩
  refine Yields.after rfl (Yields.after stepping ((settleTally_yields tally).bind ?_))
  rintro _ _ rfl
  have kept : p.Keeps q first (moved ++ fifosMoves (order p.fabric.fifos) {} p) l
      (p.settledBy tally fifos tiles p₁.memory) :=
    ⟨serves.settled ((visits p.fabric.fifos).flatMap_right _) ended.outcome ended.bytes
      (by rw [ended.endpoints]; exact ((visits _).map _).nodup_iff.mpr serves.endpoints)
      (ended.beside.shows serves.apart serves.shows), List.subset_append_left _ _⟩
  have carries := carried.settles tiles serves ended holds
  rw [ended.beside.fabric]
  exact ⟨kept, carries, rfl⟩

theorem execute_keeps {order : Order} (visits : ∀ fifos, (order fifos).Perm fifos)
    (serves : p.Serves q first moved l) :
    Yields (fun _ => p.Keeps q first (moved ++ fifosMoves (order p.fabric.fifos) {} p) l)
      (fun _ => False) (execute order p) :=
  (execute_carries (.nothing order) visits serves trivial).mono (fun _ _ after => after.1)
    fun _ => id

theorem retireFront_carries {I : Plant → Prop} {order : Order} {l₀ : Log}
    (carried : Carried I q first l₀ order) (flight : List InFlight)
    (serves : p.Serves q first moved l) (holds : I p) (same : p.fabric.inFlight = flight) :
    Yields (fun _ p' => (∃ n, l.retired ≤ n ∧ p.Keeps q first moved { l with retired := n } p') ∧
        I p' ∧ p'.fabric.nextFetch = p.fabric.nextFetch)
      (fun _ => False) (retireFront flight p) := by
  have still : (∃ n, l.retired ≤ n ∧ p.Keeps q first moved { l with retired := n } p) ∧ I p ∧
      p.fabric.nextFetch = p.fabric.nextFetch :=
    ⟨⟨l.retired, Nat.le_refl _, serves, List.Subset.refl _⟩, holds, rfl⟩
  induction flight generalizing p l with
  | nil => exact still
  | cons e rest ih =>
    obtain ⟨index, progress⟩ := e
    cases progress with
    | running => exact still
    | faulted => exact still
    | done =>
      obtain ⟨current, behind, _⟩ := serves.front same
      have published := serves.published
      obtain ⟨memory, done, shows, _⟩ := serves.shows.retire_ok current (by omega)
      rw [← serves.port] at done
      have after := serves.retired same shows
      have carries := carried.retires memory same holds
      have further := ih after carries rfl
        ⟨⟨_, Nat.le_refl _, after, List.Subset.refl _⟩, carries, rfl⟩
      unfold retireFront
      refine Yields.after rfl (Yields.after rfl (Yields.after (onMemory_ok done) ?_))
      refine Yields.after rfl (further.bind ?_)
      rintro _ p' ⟨⟨n, low, after, faults⟩, carries, fetched⟩
      exact ⟨⟨n, Nat.le_of_succ_le low, after, faults⟩, carries, fetched⟩

section Done

variable {order : Order} {fetched stepped retired : Bool} {p₁ p₂ p₃ : Plant}

theorem retireFront_done {index : UInt64} {rest : List InFlight} {memory : Memory}
    (done : p.fabric.consumer.retire index p.memory = .ok () memory)
    (ran : retireFront rest ⟨{ p.fabric with
      status := { p.fabric.status with retired := p.fabric.status.retired + 1 }
      inFlight := rest }, memory⟩ = .ok retired p₁) :
    retireFront (⟨index, .done⟩ :: rest) p = .ok true p₁ := by
  let counted : Plant := ⟨{ p.fabric with
    status := { p.fabric.status with retired := p.fabric.status.retired + 1 } }, p.memory⟩
  have gone : onMemory (p.fabric.consumer.retire index) counted = .ok () ⟨counted.fabric, memory⟩ :=
    onMemory_ok done
  unfold retireFront
  exact (bind_ok rfl).trans ((bind_ok rfl).trans ((bind_ok gone).trans
    ((bind_ok rfl).trans (bind_ok ran))))

theorem pass_done (taken : fetch p = .ok fetched p₁) (executed : execute order p₁ = .ok stepped p₂)
    (gone : retireFront p₂.fabric.inFlight p₂ = .ok retired p₃) :
    pass order p = .ok (fetched || stepped || retired) p₃ := by
  unfold pass
  exact (bind_ok taken).trans ((bind_ok executed).trans ((bind_ok rfl).trans (bind_ok gone)))

theorem poll_done {moved : Bool} (running : p.fabric.running = true)
    (ran : pass order p = .ok moved p₁) : poll order p = (moved, p₁) := by
  simp only [poll, running, ran, if_true]

end Done

-- Bytes that a pass moves. Fetching moves none.
def passMoves (order : Order) (p : Plant) : Moves :=
  match fetch p with
  | .ok _ p' => fifosMoves (order p'.fabric.fifos) {} p'
  | .error _ _ => []

theorem pass_carries {I : Plant → Prop} {order : Order} (carried : Carried I q first l order)
    (visits : ∀ fifos, (order fifos).Perm fifos) (serves : p.Serves q first moved l) (holds : I p) :
    Yields (fun _ p' => (∃ n, l.retired ≤ n ∧
        p.Keeps q first (moved ++ passMoves order p) { l with retired := n } p') ∧
        I p' ∧ p'.fabric.nextFetch.toNat = l.published)
      (fun _ => False) (pass order p) := by
  unfold pass
  apply (fetch_carries carried serves holds).known.bind
  rintro fetched p₁ ⟨ran, taken, holds₁, all⟩
  apply (execute_carries carried visits taken.1 holds₁).bind
  rintro stepped p₂ ⟨executed, holds₂, next⟩
  refine Yields.after rfl ((retireFront_carries carried _ executed.1 holds₂ rfl).bind ?_)
  rintro retired p₃ ⟨⟨n, low, after⟩, holds₃, next'⟩
  simp only [passMoves, ran]
  exact ⟨⟨n, low, (taken.trans executed).trans after⟩, holds₃, by rw [next', next, all]⟩

theorem pass_keeps {order : Order} (visits : ∀ fifos, (order fifos).Perm fifos)
    (serves : p.Serves q first moved l) :
    Yields (fun _ p' => ∃ n, l.retired ≤ n ∧
        p.Keeps q first (moved ++ passMoves order p) { l with retired := n } p')
      (fun _ => False) (pass order p) :=
  (pass_carries (.nothing order) visits serves trivial).mono (fun _ _ after => after.1) fun _ => id

end Plant

end FabricQueue
