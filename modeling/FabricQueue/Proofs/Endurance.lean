import FabricQueue.Proofs.Devices
import FabricQueue.Proofs.Integrity
import FabricQueue.Proofs.Quiet

set_option autoImplicit false

namespace FabricQueue

namespace TileArray

variable {t : TileArray}

theorem stepAll_still (kernels : List AddKernel) (s : TileBuffers)
    (still : (AddKernel.stepAll kernels s).1 = false) :
    (AddKernel.stepAll kernels s).2 = (kernels, s) := by
  induction kernels with
  | nil => rfl
  | cons k rest ih =>
    unfold AddKernel.stepAll at still ⊢
    cases stepped : k.step s with
    | some next => simp only [stepped] at still; cases still
    | none =>
      simp only [stepped] at still ⊢
      exact congrArg (fun after => (k :: after.1, after.2)) (ih still)

theorem runKernels_still (still : t.runKernels.1 = false) : t.runKernels.2 = t := by
  have same := stepAll_still t.kernels t.buffers still
  simp only [runKernels, same]

end TileArray

namespace Plant

-- What is said of a packet in flight is so.
structure Attended (p : Plant) : Prop where
  running : ∀ index, ⟨index, .running⟩ ∈ p.fabric.inFlight → index ∈ p.fabric.jobs.map (·.index)
  faulted : ∀ index, ⟨index, .faulted⟩ ∈ p.fabric.inFlight →
    index ∈ p.fabric.status.faults.map (·.index)

structure Lives (p : Plant) (q : Queue) (first : Nat) (moved : Moves) (l : Log)
    (admitted : List Admitted) (touches : Touches) : Prop where
  serves : p.Serves q first moved l
  journaled : p.Journaled admitted touches
  attended : p.Attended
  sound : p.fabric.tiles.Sound

variable {p p' : Plant} {q : Queue} {first : Nat} {moved : Moves} {l : Log}
  {admitted : List Admitted} {touches : Touches}

theorem Attended.of_memory (attended : p.Attended) (memory : Memory) :
    Attended ⟨p.fabric, memory⟩ :=
  ⟨attended.running, attended.faulted⟩

theorem Attended.retiled (attended : p.Attended) (tiles : TileArray) (memory : Memory) :
    Attended ⟨{ p.fabric with tiles }, memory⟩ :=
  ⟨attended.running, attended.faulted⟩

theorem Attended.accepted (attended : p.Attended) {record : Record} {progress : Progress}
    {f' : Fabric} (next : UInt64) (memory : Memory)
    (endpoints : (p.fabric.fifos.map (·.endpoint)).Nodup)
    (accepted : p.fabric.Accepted p.fabric.nextFetch record progress f') :
    Attended ⟨{ f' with
      inFlight := p.fabric.inFlight ++ [⟨p.fabric.nextFetch, progress⟩]
      nextFetch := next }, memory⟩ := by
  have either {index : UInt64} {other : Progress}
      (member : ⟨index, other⟩ ∈ p.fabric.inFlight ++ [⟨p.fabric.nextFetch, progress⟩]) :
      ⟨index, other⟩ ∈ p.fabric.inFlight ∨ index = p.fabric.nextFetch ∧ other = progress := by
    rcases List.mem_append.mp member with old | new
    · exact .inl old
    · exact .inr (by simpa using new)
  cases accepted with
  | faulted cause undeclared =>
    refine ⟨fun index member => ?_, fun index member => ?_⟩
    · rcases either member with old | ⟨_, other⟩
      · exact attended.running index old
      · cases other
    · rw [show (p.fabric.status.fault p.fabric.nextFetch cause).faults =
        p.fabric.status.faults ++ [⟨p.fabric.nextFetch, cause⟩] from rfl, List.map_append]
      rcases either member with old | ⟨rfl, _⟩
      · exact List.mem_append_left _ (attended.faulted index old)
      · exact List.mem_append_right _ List.mem_cons_self
  | @entered command decoded empty =>
    have same : (p.fabric.status.enter command).faults = p.fabric.status.faults := by
      cases command <;> rfl
    refine ⟨fun index member => ?_, fun index member => ?_⟩
    · rcases either member with old | ⟨_, other⟩
      · exact attended.running index old
      · cases other
    · rcases either member with old | ⟨_, other⟩
      · exact same ▸ attended.faulted index old
      · cases other
  | @began t decoded =>
    obtain ⟨fifos, pushed, jobs, _⟩ := Fabric.push_spec
      { index := p.fabric.nextFetch, endpoint := t.endpoint, chunks := t.chunks } endpoints
    rw [pushed]
    have indices := jobs.map (·.index)
    refine ⟨fun index member => indices.symm.subset ?_, fun index member => ?_⟩
    · rcases either member with old | ⟨rfl, _⟩
      · exact List.mem_cons_of_mem _ (attended.running index old)
      · exact List.mem_cons_self
    · rcases either member with old | ⟨_, other⟩
      · exact attended.faulted index old
      · cases other

theorem Attended.settled {tally : Tally} {jobs : List Job} {moves : Moves} {fifos : List Fifo}
    (attended : p.Attended) (same : jobs.Perm p.fabric.jobs)
    (outcome : Outcome jobs moves tally.finished (tally.failed.map Prod.fst)
      (fifos.flatMap (·.jobs))) (tiles : TileArray) (memory : Memory) :
    (p.settledBy tally fifos tiles memory).Attended := by
  refine ⟨fun index member => ?_, fun index member => ?_⟩
  · obtain ⟨e, among, settled⟩ := List.mem_map.mp member
    rcases Tally.settle_cases settled with ⟨_, other⟩ | ⟨_, other⟩ | ⟨late, complete, rfl⟩
    · cases other
    · cases other
    · have job := (same.map (·.index)).symm.subset (attended.running index among)
      have place := outcome.sorted.symm.subset job
      simp only [List.mem_append] at place
      rcases place with (complete' | late') | left
      · exact absurd complete' complete
      · exact absurd late' late
      · exact left
  · simp only [settledBy, List.map_append, List.map_map]
    obtain ⟨e, among, settled⟩ := List.mem_map.mp member
    rcases Tally.settle_cases settled with ⟨late, here⟩ | ⟨_, other⟩ | ⟨_, _, rfl⟩
    · cases here
      exact List.mem_append_right _ late
    · cases other
    · exact List.mem_append_left _ (attended.faulted index among)

theorem Attended.retired {e : InFlight} {rest : List InFlight} (attended : p.Attended)
    (flight : p.fabric.inFlight = e :: rest) (memory : Memory) :
    Attended ⟨{ p.fabric with
      status := { p.fabric.status with retired := p.fabric.status.retired + 1 }
      inFlight := rest }, memory⟩ := by
  have later {e : InFlight} (member : e ∈ rest) : e ∈ p.fabric.inFlight := by
    rw [flight]
    exact List.mem_cons_of_mem _ member
  exact ⟨fun index member => attended.running index (later member),
    fun index member => attended.faulted index (later member)⟩

theorem fetchNext_lives (count : Nat) (lives : p.Lives q first moved l admitted touches)
    (room : p.fabric.nextFetch.toNat + count ≤ l.published)
    (narrow : Admitted.bytes (arrivals count p) < UInt64.size) :
    ∃ some p', fetchNext count p = .ok some p' ∧
      p'.Lives q first moved l (admitted ++ arrivals count p) touches ∧
      p'.fabric.nextFetch.toNat = p.fabric.nextFetch.toNat + count := by
  induction count generalizing p admitted with
  | zero =>
    refine ⟨false, p, rfl, ?_, rfl⟩
    rw [arrivals, List.append_nil]
    exact lives
  | succ count ih =>
    obtain ⟨serves, journaled, attended, sound⟩ := lives
    have below : p.fabric.nextFetch.toNat < l.published := by omega
    obtain ⟨written, known⟩ := Option.isSome_iff_exists.mp (serves.shows.sound.covered _ below)
    have found := onMemory_ok (fetch_found serves.shows serves.port serves.behind below known)
    have step := serves.next_toNat below
    have next : p.fabric.nextFetch < p.fabric.nextFetch + 1 := by
      rw [UInt64.lt_iff_toNat_lt, step]
      omega
    have arrived : arrivals (count + 1) p =
        (p.fabric.admits written.activated).toList.map (p.fabric.nextFetch, ·) ++
          arrivals count ⟨{ p.fabric with nextFetch := p.fabric.nextFetch + 1 }, p.memory⟩ := by
      rw [arrivals, found]
    rw [arrived, Admitted.bytes_append] at narrow
    obtain ⟨progress, f', accepted, same, _, further⟩ :=
      journaled.accepted next written.activated (by omega)
    have cases := Fabric.accept_cases accepted
    obtain ⟨after, _, flight⟩ :=
      serves.accepted below known (Command.decode_activated written) cases
    have again : arrivals count ⟨{ f' with
          inFlight := f'.inFlight ++ [⟨p.fabric.nextFetch, progress⟩]
          nextFetch := p.fabric.nextFetch + 1 }, p.memory⟩ =
        arrivals count ⟨{ p.fabric with nextFetch := p.fabric.nextFetch + 1 }, p.memory⟩ :=
      arrivals_congr count rfl rfl same
    have later := attended.accepted (p.fabric.nextFetch + 1) p.memory serves.endpoints cases
    rw [← flight] at after later
    obtain ⟨some, p', done, lives, fetched⟩ := ih
      ⟨after, further (f'.inFlight ++ [⟨p.fabric.nextFetch, progress⟩]) p.memory, later,
        by simp only [same.2.2]; exact sound⟩
      (by simp only [step]; omega) (by rw [again]; omega)
    rw [again, List.append_assoc, ← arrived] at lives
    refine ⟨true, p', (fetchNext_some found accepted).trans (bind_ok done), lives, ?_⟩
    simp only [step] at fetched
    omega

theorem Serves.passArrivals_eq (serves : p.Serves q first moved l) :
    passArrivals p = arrivals (l.published - p.fabric.nextFetch.toNat) p := by
  rw [passArrivals, onMemory_ok (published_ok serves.shows serves.port), ← serves.shows.doorbell]

theorem fetch_lives (lives : p.Lives q first moved l admitted touches)
    (narrow : Admitted.bytes (passArrivals p) < UInt64.size) :
    ∃ some p', fetch p = .ok some p' ∧
      p'.Lives q first moved l (admitted ++ passArrivals p) touches ∧
      p'.fabric.nextFetch.toNat = l.published := by
  have bound := lives.serves.published
  rw [lives.serves.passArrivals_eq] at narrow ⊢
  obtain ⟨some, p', done, after, fetched⟩ := fetchNext_lives (l.published - p.fabric.nextFetch.toNat)
    lives (by omega) narrow
  exact ⟨some, p', (fetch_eq lives.serves.shows lives.serves.port).trans done, after, by omega⟩

theorem execute_lives {order : Order} (visits : ∀ fifos, (order fifos).Perm fifos)
    (lives : p.Lives q first moved l admitted touches)
    (narrow : Admitted.bytes admitted < UInt64.size) :
    ∃ some p', execute order p = .ok some p' ∧
      p'.Lives q first (moved ++ fifosMoves (order p.fabric.fifos) {} p) l admitted
        (touches ++ fifosTouches (order p.fabric.fifos) {} p) ∧
      p'.fabric.nextFetch = p.fabric.nextFetch ∧
      (some = false → ∀ fifo ∈ p'.fabric.fifos, Waits p'.fabric.tiles fifo.jobs) := by
  obtain ⟨serves, journaled, attended, sound⟩ := lives
  obtain ⟨left, tally, p₁, finished, failed, streamed, beside, _, _, _, _, fits⟩ :=
    journaled.streamFifos_ok visits narrow
  have ran := execute_ok streamed fun _ => fits
  -- The three accounts of what streaming did are about the same result.
  have kept := execute_keeps visits serves
  rw [ran] at kept
  obtain ⟨some', p', ran', journaled', _⟩ := execute_journaled visits journaled narrow
  cases ran'.symm.trans ran
  have ended := serves.streamed visits
  rw [streamed] at ended
  obtain ⟨sound₁, quiet⟩ := streamFifos_quiet (order p.fabric.fifos)
    (journaled.visited_hosted visits) (journaled.visited_queued visits)
    (journaled.visited_narrow visits narrow) sound streamed
  refine ⟨_, _, ran, ⟨kept.1, journaled', ?attended, sound₁.runKernels⟩, ?next, ?waits⟩
  case next => rw [beside.fabric]
  case waits =>
    intro still
    rw [Bool.or_eq_false_iff] at still
    obtain ⟨_, same, waits⟩ := quiet still.1
    rw [TileArray.runKernels_still still.2, same]
    exact waits
  case attended =>
    rw [beside.fabric]
    exact attended.settled ((visits p.fabric.fifos).flatMap_right _) ended.outcome _ _

theorem retireFront_lives (flight : List InFlight)
    (lives : p.Lives q first moved l admitted touches) (same : p.fabric.inFlight = flight) :
    ∃ some p' n, retireFront flight p = .ok some p' ∧ l.retired ≤ n ∧
      p'.Lives q first moved { l with retired := n } admitted touches ∧
      p'.fabric.tiles = p.fabric.tiles ∧ p'.fabric.fifos = p.fabric.fifos ∧
      p'.fabric.nextFetch = p.fabric.nextFetch ∧
      ∀ e ∈ p'.fabric.inFlight.head?, e.progress ≠ .done := by
  induction flight generalizing p l with
  | nil =>
    refine ⟨false, p, l.retired, rfl, Nat.le_refl _, lives, rfl, rfl, rfl, ?_⟩
    rw [same]
    exact nofun
  | cons e rest ih =>
    obtain ⟨index, progress⟩ := e
    have stays (other : progress ≠ .done) : ∀ e ∈ p.fabric.inFlight.head?, e.progress ≠ .done := by
      rw [same]
      rintro _ ⟨⟩
      exact other
    cases progress with
    | running =>
      exact ⟨false, p, l.retired, rfl, Nat.le_refl _, lives, rfl, rfl, rfl, stays (by simp)⟩
    | faulted =>
      exact ⟨false, p, l.retired, rfl, Nat.le_refl _, lives, rfl, rfl, rfl, stays (by simp)⟩
    | done =>
      obtain ⟨serves, journaled, attended, sound⟩ := lives
      obtain ⟨current, behind, _⟩ := serves.front same
      have published := serves.published
      obtain ⟨memory, done, shows, _⟩ := serves.shows.retire_ok current (by omega)
      rw [← serves.port] at done
      obtain ⟨some, p', n, ran, low, further, tiles, fifos, next, front⟩ := ih
        ⟨serves.retired same shows, journaled.of_alike ⟨rfl, rfl, rfl, rfl, rfl⟩,
          attended.retired same memory, sound⟩ rfl
      exact ⟨true, p', n, retireFront_done done ran, Nat.le_of_succ_le low, further, tiles, fifos,
        next, front⟩

theorem pass_lives {order : Order} (visits : ∀ fifos, (order fifos).Perm fifos)
    (lives : p.Lives q first moved l admitted touches)
    (narrow : Admitted.bytes (admitted ++ passArrivals p) < UInt64.size) :
    ∃ some p' n, pass order p = .ok some p' ∧ l.retired ≤ n ∧
      p'.Lives q first (moved ++ passMoves order p) { l with retired := n }
        (admitted ++ passArrivals p) (touches ++ passTouches order p) ∧
      p'.fabric.nextFetch.toNat = l.published ∧
      (∀ e ∈ p'.fabric.inFlight.head?, e.progress ≠ .done) ∧
      (some = false → ∀ fifo ∈ p'.fabric.fifos, Waits p'.fabric.tiles fifo.jobs) := by
  obtain ⟨fetched, p₁, taken, lives₁, all⟩ :=
    fetch_lives lives (by rw [Admitted.bytes_append] at narrow; omega)
  obtain ⟨stepped, p₂, executed, lives₂, next, waits⟩ := execute_lives visits lives₁ narrow
  obtain ⟨retired, p₃, n, gone, low, lives₃, tiles, fifos, next', front⟩ :=
    retireFront_lives _ lives₂ rfl
  refine ⟨fetched || stepped || retired, p₃, n, ?_, low, ?_, by rw [next', next, all], front, ?_⟩
  · exact pass_done taken executed gone
  · simp only [passMoves, passTouches, taken]
    exact lives₃
  · intro still
    simp only [Bool.or_eq_false_iff] at still
    rw [tiles, fifos]
    exact waits still.1.2

theorem pass_overflows {record : Record} {t : Transfer} (order : Order)
    (shows : q.Shows p.memory l) (port : p.fabric.consumer = q.port)
    (behind : l.retired ≤ p.fabric.nextFetch.toNat)
    (below : p.fabric.nextFetch.toNat < l.published)
    (written : l.written p.fabric.nextFetch.toNat = some record)
    (admitted : p.fabric.admits record.activated = some t) (wide : UInt64.size ≤ t.totalBytes) :
    pass order p = .error (.overflow .multiplication) p := by
  have found := onMemory_ok (fetch_found shows port behind below written)
  have refused : onFabric (fun f => f.accept p.fabric.nextFetch record.activated) p =
      .error (.overflow .multiplication) p := by
    have accepted := Fabric.accept_admitted p.fabric.nextFetch admitted
    rw [if_neg (by simp only [UInt64.size] at wide; omega), if_neg (Nat.not_lt.mpr wide)] at accepted
    simp only [onFabric, accepted]
  obtain ⟨count, more⟩ : ∃ count, l.published - p.fabric.nextFetch.toNat = count + 1 :=
    ⟨l.published - p.fabric.nextFetch.toNat - 1, by omega⟩
  have failed : fetchNext (l.published - p.fabric.nextFetch.toNat) p =
      .error (.overflow .multiplication) p := by
    rw [more, fetchNext]
    exact (bind_ok rfl).trans ((bind_ok found).trans (bind_error refused))
  unfold pass
  exact bind_error ((fetch_eq shows port).trans failed)

theorem fresh_lives {hosts : HostMap} {tiles : TileArray} {m : Memory} (shows : q.Shows m l)
    (apart : hosts.Apart q)
    (addressable : ∀ r ∈ hosts.regions, r.base.toNat + r.size ≤ UInt64.size)
    (sound : tiles.Sound) :
    Lives ⟨Fabric.started q hosts tiles l.retired, m⟩ q l.retired [] l [] [] where
  serves := shows.spawn_serves tiles apart
  journaled := Journaled.start addressable ⟨rfl, rfl⟩
  attended := ⟨nofun, nofun⟩
  sound := sound

theorem started_lives {hosts : HostMap} {m : Memory} (shows : q.Shows m {}) (apart : hosts.Apart q)
    (addressable : ∀ r ∈ hosts.regions, r.base.toNat + r.size ≤ UInt64.size) :
    Lives ⟨Fabric.started q hosts {} 0, m⟩ q 0 [] {} [] [] :=
  fresh_lives shows apart addressable TileArray.empty_sound

end Plant

namespace Site

-- Every byte of the queue is as it was.
structure Outside (q : Queue) (m m' : Memory) : Prop where
  size : m'.size = m.size
  kept : ∀ i, q.region.origin ≤ i → i < q.region.origin + Layout.regionSize q.capacity →
    m'.get i = m.get i

-- What happens to a site: producers, changes of the tiles, others in the memory, passes. With it
-- come the packets that are admitted and the bytes that move.
inductive Shift (s : Site) : List Admitted → Touches → Site → Prop where
  | produce (a : Production) : Shift s [] [] (s.produce a).2
  | configure {tiles : TileArray} (change : s.plant.fabric.tiles.Change tiles) :
      Shift s [] [] (s.retile tiles)
  | store {memory : Memory} (outside : Outside s.queue s.plant.memory memory) :
      Shift s [] [] ⟨s.queue, ⟨s.plant.fabric, memory⟩⟩
  | poll (order : Order) (visits : ∀ fifos, (order fifos).Perm fifos) :
      Shift s s.plant.passArrivals (s.plant.passTouches order) (s.poll order)

inductive Life (start : Site) : List Admitted → Touches → Site → Prop where
  | start : Life start [] [] start
  | next {admitted arrived : List Admitted} {touches new : Touches} {s s' : Site} :
      Life start admitted touches s → Shift s arrived new s' →
        Life start (admitted ++ arrived) (touches ++ new) s'

def Lives (s : Site) (admitted : List Admitted) (touches : Touches) : Prop :=
  ∃ first moved l, s.plant.Lives s.queue first moved l admitted touches

variable {start s s' : Site} {admitted arrived : List Admitted} {touches new : Touches}

theorem Shift.lives (shift : Shift s arrived new s') (lives : s.Lives admitted touches)
    (narrow : Admitted.bytes (admitted ++ arrived) < UInt64.size) :
    s'.Lives (admitted ++ arrived) (touches ++ new) := by
  obtain ⟨first, moved, l, lives⟩ := lives
  obtain ⟨serves, journaled, attended, sound⟩ := lives
  cases shift with
  | produce a =>
    rw [List.append_nil, List.append_nil]
    exact ⟨first, moved, _, (produce_serves serves a).1,
      journaled.of_alike ⟨rfl, rfl, rfl, rfl, rfl⟩, attended.of_memory _, sound⟩
  | configure change =>
    rw [List.append_nil, List.append_nil]
    exact ⟨first, moved, l, serves.retiled _, journaled.of_alike ⟨rfl, rfl, rfl, rfl, rfl⟩,
      attended.retiled _ _, change.sound sound⟩
  | store outside =>
    rw [List.append_nil, List.append_nil]
    have shows := serves.shows.of_bytes outside.size outside.kept
    exact ⟨first, moved, l, { serves with shows }, journaled.of_alike ⟨rfl, rfl, rfl, rfl, rfl⟩,
      attended.of_memory _, sound⟩
  | poll order visits =>
    obtain ⟨some, p, n, ran, _, after, _⟩ := Plant.pass_lives visits
      ⟨serves, journaled, attended, sound⟩ narrow
    rw [poll_done serves.running ran]
    exact ⟨_, _, _, after⟩

theorem Life.lives (life : Life start arrived new s) (lives : start.Lives admitted touches)
    (narrow : Admitted.bytes (admitted ++ arrived) < UInt64.size) :
    s.Lives (admitted ++ arrived) (touches ++ new) := by
  induction life with
  | start => rw [List.append_nil, List.append_nil]; exact lives
  | next _ shift ih =>
    rw [← List.append_assoc] at narrow ⊢
    rw [← List.append_assoc]
    exact shift.lives (ih (by rw [Admitted.bytes_append] at narrow; omega)) narrow

theorem Shift.hosts (shift : Shift s arrived new s') :
    s'.plant.fabric.hosts = s.plant.fabric.hosts := by
  cases shift with
  | produce a => rfl
  | configure change => rfl
  | store outside => rfl
  | poll order visits => exact congrArg (·.2.1) (s.plant.poll_premises order)

theorem Life.hosts (life : Life start arrived new s) :
    s.plant.fabric.hosts = start.plant.fabric.hosts := by
  induction life with
  | start => rfl
  | next _ shift ih => exact shift.hosts.trans ih

theorem Shift.premises (shift : Shift s arrived new s') (lives : s.Lives admitted touches) :
    s'.plant.premises = s.plant.premises := by
  obtain ⟨_, _, _, lives⟩ := lives
  cases shift with
  | produce a =>
    have follows :=
      Ring.perform_follows (s := s.ring) lives.serves.shows lives.serves.port (.produce a) nofun
    have size : (s.produce a).2.plant.memory.size = s.plant.memory.size := follows.leaves.size
    rw [Plant.premises, size]
    rfl
  | configure change => rfl
  | store outside => exact congrArg (fun size => (_, _, size)) outside.size
  | poll order visits => exact s.plant.poll_premises order

theorem Life.premises (life : Life start arrived new s) (lives : start.Lives admitted touches)
    (narrow : Admitted.bytes (admitted ++ arrived) < UInt64.size) :
    s.plant.premises = start.plant.premises := by
  induction life with
  | start => rfl
  | next life shift ih =>
    rw [← List.append_assoc, Admitted.bytes_append] at narrow
    have before := life.lives lives (by omega)
    exact (shift.premises before).trans (ih (by omega))

-- What a pass comes to for the packets that were published before it.
structure Serviced (s : Site) (moved : Bool) (p : Plant) : Prop where
  running : p.fabric.running = true
  fetched : p.fabric.nextFetch.toNat = s.ring.published
  placed : ∀ index : UInt64, index.toNat < s.ring.published →
    index.toNat < (Site.ring ⟨s.queue, p⟩).read ∨ ⟨index, .done⟩ ∈ p.fabric.inFlight ∨
      index ∈ p.fabric.status.faults.map (·.index) ∨
        ∃ fifo ∈ p.fabric.fifos, ∃ job ∈ fifo.jobs, job.index = index
  front : ∀ e ∈ p.fabric.inFlight.head?, e.progress ≠ .done
  waits : moved = false → ∀ fifo ∈ p.fabric.fifos, Plant.Waits p.fabric.tiles fifo.jobs

theorem Lives.serviced {order : Order} (visits : ∀ fifos, (order fifos).Perm fifos)
    (lives : s.Lives admitted touches)
    (narrow : Admitted.bytes (admitted ++ s.plant.passArrivals) < UInt64.size) :
    ∃ moved p, s.plant.pass order = .ok moved p ∧ s.poll order = ⟨s.queue, p⟩ ∧
      s.Serviced moved p := by
  obtain ⟨first, moved, l, lives⟩ := lives
  obtain ⟨some, p, n, ran, low, after, fetched, front, waits⟩ :=
    Plant.pass_lives visits lives narrow
  have published : s.ring.published = l.published := lives.serves.shows.doorbell
  refine ⟨some, p, ran, poll_done lives.serves.running ran, after.serves.running,
    by rw [published]; exact fetched, ?_, front, waits⟩
  · intro index below
    have read : (Site.ring ⟨s.queue, p⟩).read = n := after.serves.shows.readIndex
    by_cases retired : index.toNat < n
    · exact .inl (by rw [read]; exact retired)
    -- What is not retired is in flight.
    have flying : index.toNat ∈ p.fabric.inFlight.map (·.index.toNat) := by
      rw [after.serves.flight, List.mem_range'_1]
      simp only
      omega
    obtain ⟨⟨index', progress⟩, member, same⟩ := List.mem_map.mp flying
    obtain rfl : index' = index := UInt64.toNat_inj.mp same
    right
    cases progress with
    | done => exact .inl member
    | faulted => exact .inr (.inl (after.attended.faulted _ member))
    | running =>
      obtain ⟨job, among, index⟩ := List.mem_map.mp (after.attended.running _ member)
      obtain ⟨fifo, known, holds⟩ := List.mem_flatMap.mp among
      exact .inr (.inr ⟨fifo, known, job, holds, index⟩)

-- Whatever is published, and whatever tiles stand behind the device, no pass fails, as long as the
-- admitted transfers do not ask for more bytes than a 64-bit counter holds.
theorem opened_serviced {c : Config} {selection : Selection} {m m' : Machine} {d : Device}
    (numbered : m.Numbered) (opened : Device.ofConfig c selection m = .ok d m')
    (software : d.backend = .software) :
    ∃ start, d.site? m' = some start ∧ ∀ admitted touches s order, Life start admitted touches s →
      (∀ fifos, (order fifos).Perm fifos) →
      Admitted.bytes (admitted ++ s.plant.passArrivals) < UInt64.size →
      ∃ moved p, s.plant.pass order = .ok moved p ∧ s.poll order = ⟨s.queue, p⟩ ∧
        s.Serviced moved p := by
  obtain ⟨start, found, founded, _⟩ := Device.ofConfig_founded numbered opened software
  refine ⟨start, found, fun admitted touches s order life visits narrow => ?_⟩
  obtain ⟨queue, fabric, memory⟩ := start
  obtain rfl : fabric = Fabric.started queue ⟨[d.staging]⟩ {} 0 := founded.fabric
  have lives := Plant.started_lives founded.shows founded.apart fun r member => by
    rw [List.mem_singleton.mp member]
    exact Nat.le_of_lt founded.addressable
  have now : s.Lives admitted touches :=
    life.lives ⟨_, _, _, lives⟩ (by rw [Admitted.bytes_append] at narrow; rw [List.nil_append]; omega)
  exact now.serviced visits narrow

theorem Life.offer (life : Life start admitted touches s) (work : List Production) :
    Life start admitted touches (s.offer work) := by
  induction work generalizing s with
  | nil => exact life
  | cons a work ih =>
    have further := life.next (.produce a)
    rw [List.append_nil, List.append_nil] at further
    exact ih further

theorem Life.configure (life : Life start admitted touches s) {tiles : TileArray}
    (change : s.plant.fabric.tiles.Change tiles) : Life start admitted touches (s.retile tiles) := by
  have further := life.next (.configure change)
  rwa [List.append_nil, List.append_nil] at further

theorem offer_shows {l : Log} (shows : s.queue.Shows s.plant.memory l)
    (port : s.plant.fabric.consumer = s.queue.port) (work : List Production) :
    (s.offer work).queue.Shows (s.offer work).plant.memory
        (work.foldl (fun l a => (l.produce s.queue.capacity a).2) l) ∧
      (s.offer work).plant.fabric = s.plant.fabric ∧ (s.offer work).queue.port = s.queue.port := by
  induction work generalizing s l with
  | nil => exact ⟨shows, rfl, rfl⟩
  | cons a work ih =>
    have follows := Ring.perform_follows (s := s.ring) shows port (.produce a) nofun
    have same : (s.produce a).2.queue.port = s.queue.port :=
      congrArg₂ Consumer.mk follows.region follows.capacity
    obtain ⟨shows', fabric, port'⟩ := ih (s := (s.produce a).2) follows.shows (port.trans same.symm)
    have capacity : (s.produce a).2.queue.capacity = s.queue.capacity := follows.capacity
    rw [capacity] at shows'
    exact ⟨shows', fabric, port'.trans same⟩

def sampleBuffer : TileArray :=
  { buffers := ⟨#[TileBuffer.zeroed "a" 1]⟩ }

theorem sampleBuffer_added : TileArray.addBuffer {} "a" 1 = .ok sampleBuffer := by
  simp [TileArray.addBuffer, TileBuffers.position?, sampleBuffer]

theorem sampleNarrow_routed : sampleBuffer.route (sampleTransfer .hostToDevice 0).endpoint ["a"] =
    .ok Plant.sampleNarrow := by
  simp [TileArray.route, TileArray.position, TileBuffers.position?, TileArray.setRoute,
    sampleBuffer, Plant.sampleNarrow, TileBuffer.zeroed, pure, Except.pure, bind, Except.bind]

theorem Life.narrow (life : Life start admitted touches s) (fresh : s.plant.fabric.tiles = {}) :
    Life start admitted touches ((s.retile sampleBuffer).retile Plant.sampleNarrow) :=
  (life.configure (by rw [fresh]; exact .addBuffer sampleBuffer_added)).configure
    (.route sampleNarrow_routed)

def ended? {ε σ α : Type} : EStateM.Result ε σ α → Option (α × σ)
  | .ok a s => some (a, s)
  | .error _ _ => none

theorem ended?_get {ε σ α : Type} (result : EStateM.Result ε σ α) (well : (ended? result).isSome) :
    result = .ok ((ended? result).get well).1 ((ended? result).get well).2 := by
  cases result with
  | ok a s => rfl
  | error failure s => cases well

-- Two slots, and two words of staging buffer.
def sampleConfig : Config :=
  { queueCapacity := 2, stagingSize := 8 }

def sampleDevice : Device × Machine :=
  (ended? (Device.ofConfig sampleConfig .software {})).get (by decide +kernel)

theorem sampleDevice_opened :
    Device.ofConfig sampleConfig .software {} = .ok sampleDevice.1 sampleDevice.2 :=
  ended?_get _ _

theorem sampleDevice_software : sampleDevice.1.backend = .software :=
  Device.openSoftware_backend
    ((Device.ofConfig_software {} (by decide)).symm.trans sampleDevice_opened)

def sampleHome : Site :=
  (sampleDevice.1.site? sampleDevice.2).get (by decide +kernel)

def sampleFilled : Site :=
  ((sampleHome.retile sampleBuffer).retile Plant.sampleNarrow).offer [.reserve 2,
    .writePacket 0 (.transfer (sampleTransfer .hostToDevice sampleConfig.stagingBase)),
    .write 1 { kind := 255 }, .dispatch 1]

theorem sampleFilled_pass : Admitted.bytes sampleFilled.plant.passArrivals = 8 ∧
    (sampleFilled.poll id).status.bytesMoved = 4 ∧
    (sampleFilled.poll id).status.faults.map (·.index) = [1] := by
  decide +kernel

theorem opened_serviced_sample : ∃ start s moved p, Machine.Numbered {} ∧
    Device.ofConfig sampleConfig .software {} = .ok sampleDevice.1 sampleDevice.2 ∧
    sampleDevice.1.backend = .software ∧ sampleDevice.1.site? sampleDevice.2 = some start ∧
    Life start [] [] s ∧ (∀ fifos, (id fifos : List Fifo).Perm fifos) ∧
    Admitted.bytes ([] ++ s.plant.passArrivals) < UInt64.size ∧
    (s.plant.pass id = .ok moved p ∧ s.poll id = ⟨s.queue, p⟩ ∧ s.Serviced moved p) ∧
    p.fabric.status.bytesMoved = 4 ∧ p.fabric.status.faults.map (·.index) = [1] := by
  have software := sampleDevice_software
  have home : sampleDevice.1.site? sampleDevice.2 = some sampleHome := (Option.some_get _).symm
  have numbered : Machine.Numbered {} := nofun
  have fresh : sampleHome.plant.fabric.tiles = {} := by
    obtain ⟨s, found, founded, _⟩ :=
      Device.ofConfig_founded numbered sampleDevice_opened software
    obtain rfl := Option.some.inj (home.symm.trans found)
    rw [founded.fabric]
    rfl
  obtain ⟨bytes, moved, faults⟩ := sampleFilled_pass
  have life : Life sampleHome [] [] sampleFilled := (Life.start.narrow fresh).offer _
  obtain ⟨start, found, serves⟩ := opened_serviced numbered sampleDevice_opened software
  obtain rfl := Option.some.inj (home.symm.trans found)
  have narrow : Admitted.bytes ([] ++ sampleFilled.plant.passArrivals) < UInt64.size := by
    rw [List.nil_append, bytes]
    decide
  obtain ⟨some, p, ran, polled, serviced⟩ :=
    serves [] [] sampleFilled id life (fun _ => List.Perm.refl _) narrow
  refine ⟨sampleHome, sampleFilled, some, p, numbered, sampleDevice_opened, software, home, life,
    fun _ => List.Perm.refl _, narrow, ⟨ran, polled, serviced⟩, ?_⟩
  rw [polled] at moved faults
  exact ⟨moved, faults⟩

def sampleEndless (address : UInt64) : Transfer :=
  { sampleTransfer .hostToDevice address with
    run := 65540, inner := ⟨65535, 0⟩, middle := ⟨65535, 0⟩, outer := ⟨65535, 0⟩ }

def sampleWide : Config :=
  { queueCapacity := 2, stagingSize := 0x20000 }

def endlessWork : List Production :=
  [.reserve 1, .writePacket 0 (.transfer (sampleEndless sampleWide.stagingBase)), .dispatch 0]

theorem endlessWork_log : ∃ l, endlessWork.foldl (fun l a => (Log.produce 2 a l).2) {} = l ∧
    l.retired = 0 ∧ l.published = 1 ∧
    l.written 0 = some (Command.encode (.transfer (sampleEndless sampleWide.stagingBase))) := by
  exact ⟨_, rfl, rfl, rfl, rfl⟩

theorem endless_admitted {f : Fabric} {r : Region} (tiles : f.tiles = Plant.sampleNarrow)
    (hosts : f.hosts = ⟨[r]⟩) (base : r.base = sampleWide.stagingBase) (size : r.size = 0x20000) :
    f.admits (Command.encode (.transfer (sampleEndless sampleWide.stagingBase))).activated =
      some (sampleEndless sampleWide.stagingBase) := by
  have decoded : Command.decode
      (Command.encode (.transfer (sampleEndless sampleWide.stagingBase))).activated =
      .ok (.transfer (sampleEndless sampleWide.stagingBase)) := rfl
  have routed : f.tiles.hasRoute (sampleEndless sampleWide.stagingBase).endpoint = true := by
    rw [tiles]
    rfl
  have inside : r.contains (sampleEndless sampleWide.stagingBase).address
      (sampleEndless sampleWide.stagingBase).extent = true := by
    rw [Region.contains, base, size]
    rfl
  have found : (f.hosts.resolve (sampleEndless sampleWide.stagingBase).address
      (sampleEndless sampleWide.stagingBase).extent).isOk = true := by
    rw [hosts, HostMap.resolve, List.find?_cons, inside]
    rfl
  rw [Fabric.admits, decoded]
  simp only [routed, found, Bool.and_self, if_true]

theorem endless_overflows : ¬ ∀ (c : Config) (selection : Selection) (m m' : Machine) (d : Device),
    m.Numbered → Device.ofConfig c selection m = .ok d m' → d.backend = .software →
    ∃ start, d.site? m' = some start ∧ ∀ admitted touches s order, Life start admitted touches s →
      (∀ fifos, (order fifos).Perm fifos) → ∃ moved p, s.plant.pass order = .ok moved p := by
  intro always
  obtain ⟨d, m', opened, software⟩ :=
    Device.ofConfig_ok (m := {}) (c := sampleWide) (by decide) rfl rfl (by decide)
  have numbered : Machine.Numbered {} := nofun
  obtain ⟨start, found, passes⟩ := always sampleWide .software {} m' d numbered opened software
  obtain ⟨start', found', founded, config⟩ := Device.ofConfig_founded numbered opened software
  cases found.symm.trans found'
  obtain ⟨queue, fabric, memory⟩ := start
  obtain rfl : fabric = Fabric.started queue ⟨[d.staging]⟩ {} 0 := founded.fabric
  have two : queue.capacity = 2 := by
    rw [founded.capacity, config]
    rfl
  obtain ⟨base, size⟩ := founded.staging
  rw [config] at base size
  let home : Site := ⟨queue, ⟨Fabric.started queue ⟨[d.staging]⟩ {} 0, memory⟩⟩
  let narrow : Site := (home.retile sampleBuffer).retile Plant.sampleNarrow
  have life : Life home [] [] narrow := Life.start.narrow rfl
  obtain ⟨moved, p, ran⟩ := passes _ _ (narrow.offer endlessWork) id (life.offer endlessWork)
    fun _ => List.Perm.refl _
  obtain ⟨shows, same, port⟩ := offer_shows (s := narrow) founded.shows rfl endlessWork
  obtain ⟨l, log, retired, published, written⟩ := endlessWork_log
  have capacity : narrow.queue.capacity = 2 := two
  rw [capacity, log] at shows
  have consumer : (narrow.offer endlessWork).plant.fabric.consumer =
      (narrow.offer endlessWork).queue.port := by
    rw [same, port]
    rfl
  have first : (narrow.offer endlessWork).plant.fabric.nextFetch = 0 := by
    rw [same]
    rfl
  have overflows := Plant.pass_overflows id shows consumer (by rw [retired]; exact Nat.zero_le _)
    (by rw [first, published]; decide) (by rw [first]; exact written)
    (endless_admitted (by rw [same]; rfl) (by rw [same]; rfl) base size) (by decide)
  cases overflows.symm.trans ran

end Site

end FabricQueue
