import FabricQueue.Proofs.Interleaving
import FabricQueue.Proofs.Retirements
import FabricQueue.Proofs.Settling

set_option autoImplicit false

namespace FabricQueue

theorem TileArray.runKernels_none {t : TileArray} (none : t.kernels = []) :
    t.runKernels = (false, t) := by
  have still : t.runKernels.1 = false := by
    simp only [runKernels, none, AddKernel.stepAll]
  exact Prod.ext still (runKernels_still still)

namespace Scene

structure Tells (s : Scene) (fifos : List Fifo) : Prop where
  owed : ∀ fifo ∈ fifos, s.left fifo.endpoint = Job.owed fifo.jobs
  idle : ∀ e ∉ fifos.map (·.endpoint), s.left e = []

variable {s : Scene} {fifos : List Fifo} {e : Endpoint} {touch : Touch}

theorem Tells.fifo (tells : s.Tells fifos) (some : s.left e ≠ []) :
    ∃ fifo ∈ fifos, fifo.endpoint = e ∧ s.left e = Job.owed fifo.jobs := by
  have served : e ∈ fifos.map (·.endpoint) := by
    by_contra outside
    exact some (tells.idle e outside)
  obtain ⟨fifo, member, rfl⟩ := List.mem_map.mp served
  exact ⟨fifo, member, rfl, tells.owed fifo member⟩

theorem Tells.job (tells : s.Tells fifos) (left : touch ∈ s.left e) :
    ∃ fifo ∈ fifos, fifo.endpoint = e ∧ ∃ job ∈ fifo.jobs, job.index = touch.index ∧
      touch.address ∈ job.addresses := by
  obtain ⟨fifo, member, placed, owed⟩ := tells.fifo (List.ne_nil_of_mem left)
  rw [owed] at left
  obtain ⟨job, among, moves⟩ := List.mem_flatMap.mp left
  obtain ⟨address, within, rfl⟩ := List.mem_map.mp moves
  exact ⟨fifo, member, placed, job, among, rfl, within⟩

theorem Of.congr {p p' : Plant} {q : Queue} (of : s.Of q p)
    (tiles : p'.fabric.tiles = p.fabric.tiles) (hosts : p'.fabric.hosts = p.fabric.hosts)
    (leaves : q.footprint.Leaves p.memory p'.memory) : s.Of q p' := by
  obtain ⟨buffers, routes, memory, sound, kernels, routed, separate, apart, parted⟩ := of
  rw [← tiles] at buffers routes sound kernels routed
  rw [← hosts] at separate apart parted
  exact ⟨buffers, routes, memory.trans leaves, sound, kernels, routed, separate, apart, parted⟩

end Scene

namespace Plant

open Site (Outside)

variable {p p' p₀ : Plant} {q : Queue} {first : Nat} {admitted : List Admitted} {s s' : Scene}

theorem Beside.outside_queue (beside : p.Beside p') (apart : p.fabric.hosts.Apart q) :
    Outside q p.memory p'.memory :=
  ⟨beside.size, fun i low high => beside.outside i fun r member => by
    have away := apart r member
    omega⟩

-- Plants with the same tiles, the same memory and the same status.
structure Agrees (p p' : Plant) : Prop where
  buffers : p'.fabric.tiles.buffers = p.fabric.tiles.buffers
  routes : ∀ e, p'.fabric.tiles.routeOf e = p.fabric.tiles.routeOf e
  memory : p'.memory = p.memory
  status : p'.fabric.status = p.fabric.status

structure Ahead (p₀ : Plant) (q : Queue) (first : Nat) (admitted : List Admitted) (s : Scene)
    (p : Plant) : Prop where
  lives : ∃ moved l touches, p.Lives q first moved l admitted touches ∧
    p.fabric.nextFetch.toNat = l.published
  of : s.Of q p
  tells : s.Tells p.fabric.fifos
  hosts : p.fabric.hosts = p₀.fabric.hosts
  next : p.fabric.nextFetch = p₀.fabric.nextFetch
  status : ∃ n, p.fabric.status = { p₀.fabric.status with
      retired := p₀.fabric.status.retired + n
      bytesMoved := p₀.fabric.status.bytesMoved + s.moved } ∧
    Outside q (q.settled p₀.memory (p₀.fabric.status.retired + first) n) p.memory

namespace Ahead

variable {order : Order} (visits : ∀ fifos, (order fifos).Perm fifos)
  (ahead : p₀.Ahead q first admitted s p)

include ahead

theorem fetch_none : fetch p = .ok false p := by
  obtain ⟨moved, l, touches, lives, all⟩ := ahead.lives
  rw [fetch_eq lives.serves.shows lives.serves.port, all, Nat.sub_self]
  rfl

include visits in
theorem execute_ok (narrow : Admitted.bytes admitted < UInt64.size) :
    ∃ some s' p', execute order p = .ok some p' ∧ s.Run p₀.fabric.hosts.place s' ∧
      p₀.Ahead q first admitted s' p' := by
  obtain ⟨moved, l, touches, lives, all⟩ := ahead.lives
  have journaled := lives.journaled
  have perm : ((order p.fabric.fifos).flatMap (·.jobs)).Perm p.fabric.jobs :=
    (visits p.fabric.fifos).flatMap_right _
  have names : ((order p.fabric.fifos).map (·.endpoint)).Perm (p.fabric.fifos.map (·.endpoint)) :=
    (visits _).map _
  have counts := (perm.flatMap_right Job.addresses).length_eq
  have budget := journaled.budget
  have total := journaled.bytes
  obtain ⟨left, tally, p₁, s', streamed, onward, endpoints, owed, kept⟩ :=
    ahead.of.streamFifos_ok (order p.fabric.fifos) {} (names.nodup_iff.mpr journaled.endpoints)
      (journaled.visited_queued visits)
      (fun fifo member => ahead.tells.owed fifo ((visits _).subset member))
      (journaled.visited_hosted visits) (journaled.visited_narrow visits narrow)
  have most := onward.bytes
  have same : p₁.fabric.status = p.fabric.status := by rw [onward.beside.fabric]
  have ran := Plant.execute_ok streamed fun _ => by rw [same]; simp only at most; omega
  obtain ⟨_, p', executed, lives', next, _⟩ := execute_lives visits lives narrow
  cases executed.symm.trans ran
  refine ⟨_, s', _, ran, ahead.hosts ▸ onward.run, ⟨_, l, _, lives', ?_⟩, ?of, ⟨owed, ?idle⟩, ?hosts,
    ?next, ?status⟩
  · rw [next, all]
  case of =>
    exact onward.of.congr (congrArg Prod.snd (TileArray.runKernels_none onward.of.kernels)) rfl
      (.refl _ _)
  case idle =>
    intro e outside
    have away : e ∉ (order p.fabric.fifos).map (·.endpoint) := by
      rw [← endpoints]
      exact outside
    rw [kept e away]
    exact ahead.tells.idle e fun member => away (names.symm.subset member)
  case hosts => exact onward.beside.hosts.trans ahead.hosts
  case next => rw [next, ahead.next]
  case status =>
    obtain ⟨n, status, outside⟩ := ahead.status
    have moves := onward.moved
    have failed := onward.failed
    refine ⟨n, ?_, outside.trans (onward.beside.outside_queue lives.serves.apart)⟩
    simp only at moves failed
    simp only [same, status, failed, List.map_nil, List.append_nil, FabricStatus.mk.injEq, true_and,
      and_true]
    omega

theorem retire_ok : ∃ some p', retireFront p.fabric.inFlight p = .ok some p' ∧
    p₀.Ahead q first admitted s p' := by
  obtain ⟨moved, l, touches, lives, all⟩ := ahead.lives
  obtain ⟨n, status, outside⟩ := ahead.status
  have counted := lives.serves.counted
  obtain ⟨some, p', more, ran, ⟨rest, fabric⟩, settled, leaves⟩ :=
    retireFront_settles _ lives.serves rfl outside (by
      rw [status] at counted
      simp only at counted
      omega)
  obtain ⟨_, _, gone, ran', _, lives', tiles, fifos, next, _⟩ := retireFront_lives _ lives rfl
  cases ran'.symm.trans ran
  refine ⟨some, p', ran, ⟨moved, _, touches, lives', next ▸ all⟩, ?_, fifos ▸ ahead.tells, ?_,
    next.trans ahead.next, n + more, ?_, settled⟩
  · exact ahead.of.congr tiles (by rw [fabric]) leaves
  · rw [fabric]
    exact ahead.hosts
  · rw [fabric, status]
    simp only [Nat.add_assoc]

include visits in
theorem pass_ok {p₁ : Plant} {fetched : Bool} (fetches : fetch p₁ = .ok fetched p)
    (narrow : Admitted.bytes admitted < UInt64.size) :
    ∃ some s' p', pass order p₁ = .ok some p' ∧ s.Run p₀.fabric.hosts.place s' ∧
      p₀.Ahead q first admitted s' p' := by
  obtain ⟨stepped, s', p', executed, run, ahead'⟩ := ahead.execute_ok visits narrow
  obtain ⟨retired, p'', gone, ahead''⟩ := ahead'.retire_ok
  exact ⟨fetched || stepped || retired, s', p'', pass_done fetches executed gone, run, ahead''⟩

theorem still (rests : p.Rests) : s.Still := by
  intro e touch left r b ready
  obtain ⟨moved, l, touches, lives, _⟩ := ahead.lives
  obtain ⟨fifo, member, rfl, owed⟩ :=
    ahead.tells.fifo (fun none => List.cons_ne_nil _ _ (ready.left.symm.trans none))
  rw [ready.left] at owed
  have placed := (lives.journaled.queued fifo member).placed
  have stuck := rests.stuck fifo member
  cases jobs : fifo.jobs with
  | nil =>
    rw [jobs] at owed
    cases owed
  | cons job later =>
    rw [jobs] at stuck placed
    obtain ⟨_, r', b', known, found, closed⟩ := stuck job rfl
    rw [placed job List.mem_cons_self, ← ahead.of.routes, ready.route] at known
    cases known
    rw [← ahead.of.buffers, ready.buffer] at found
    cases found
    rw [placed job List.mem_cons_self, ready.lock] at closed
    cases closed

theorem flying {e : Endpoint} {touch : Touch} (left : touch ∈ s.left e) :
    ∃ flight ∈ p.fabric.inFlight, flight.index = touch.index := by
  obtain ⟨moved, l, touches, lives, _⟩ := ahead.lives
  obtain ⟨fifo, known, _, job, holds, index, _⟩ := ahead.tells.job left
  exact ⟨_, (lives.serves.owes job (List.mem_flatMap.mpr ⟨fifo, known, holds⟩)).1, index⟩

theorem front_left (rests : p.Rests) {index : UInt64} {rest : List InFlight}
    (flight : p.fabric.inFlight = ⟨index, .running⟩ :: rest) :
    ∃ e, ∃ touch ∈ s.left e, touch.index = index := by
  obtain ⟨moved, l, touches, lives, _⟩ := ahead.lives
  obtain ⟨number, _, _⟩ := lives.serves.front flight
  simp only at number
  have member : ⟨index, .running⟩ ∈ p.fabric.inFlight := by
    rw [flight]
    exact List.mem_cons_self
  obtain ⟨job, among, rfl⟩ := List.mem_map.mp (lives.attended.running index member)
  obtain ⟨fifo, known, holds⟩ := List.mem_flatMap.mp among
  have sorted := (lives.journaled.queued fifo known).sorted
  have stuck := rests.stuck fifo known
  cases jobs : fifo.jobs with
  | nil =>
    rw [jobs] at holds
    cases holds
  | cons head later =>
    rw [jobs] at holds sorted stuck
    have inside : head ∈ p.fabric.jobs :=
      List.mem_flatMap.mpr ⟨fifo, known, jobs ▸ List.mem_cons_self⟩
    have oldest := lives.serves.flight_bounds (lives.serves.owes head inside).1
    -- No job of the FIFO is older than the one in front, and no packet in flight.
    have same : head.index = job.index := by
      rcases List.mem_cons.mp holds with rfl | behind
      · rfl
      · have less := UInt64.lt_iff_toNat_lt.mp ((List.pairwise_cons.mp sorted).1 job behind)
        simp only at oldest
        omega
    obtain ⟨address, addresses, left⟩ := List.exists_cons_of_ne_nil (stuck head rfl).1
    refine ⟨fifo.endpoint, ⟨head.endpoint, head.index, address⟩, ?_, same⟩
    rw [ahead.tells.owed fifo known, jobs]
    exact List.mem_flatMap.mpr ⟨head, List.mem_cons_self,
      List.mem_map.mpr ⟨address, left ▸ List.mem_cons_self, rfl⟩⟩

theorem retired_le (rests : p.Rests) (ahead' : p₀.Ahead q first admitted s p') :
    p'.fabric.status.retired ≤ p.fabric.status.retired := by
  obtain ⟨moved, l, touches, lives, all⟩ := ahead.lives
  obtain ⟨moved', l', touches', lives', all'⟩ := ahead'.lives
  have counted := lives.serves.counted
  have counted' := lives'.serves.counted
  have behind := lives'.serves.behind
  have numbers := lives.serves.flight
  have front := rests.front
  have same : p'.fabric.nextFetch = p.fabric.nextFetch := ahead'.next.trans ahead.next.symm
  suffices l'.retired ≤ l.retired by omega
  cases flight : p.fabric.inFlight with
  | nil =>
    rw [flight, List.map_nil, eq_comm, List.range'_eq_nil_iff] at numbers
    rw [same] at behind
    omega
  | cons e rest =>
    obtain ⟨index, progress⟩ := e
    obtain ⟨number, _, _⟩ := lives.serves.front flight
    simp only at number
    suffices inside : ∃ flight ∈ p'.fabric.inFlight, flight.index = index by
      obtain ⟨e, among, rfl⟩ := inside
      have bounds := lives'.serves.flight_bounds among
      omega
    cases progress with
    | done =>
      rw [flight] at front
      exact absurd rfl (front _ rfl)
    | faulted =>
      have member : ⟨index, .faulted⟩ ∈ p.fabric.inFlight := by
        rw [flight]
        exact List.mem_cons_self
      obtain ⟨fault, among, rfl⟩ := List.mem_map.mp (lives.attended.faulted index member)
      have faults : p'.fabric.status.faults = p.fabric.status.faults := by
        obtain ⟨n, status, _⟩ := ahead.status
        obtain ⟨n', status', _⟩ := ahead'.status
        rw [status, status']
      exact ⟨_, lives'.serves.stuck fault (faults ▸ among), rfl⟩
    | running =>
      obtain ⟨e, touch, left, rfl⟩ := ahead.front_left rests flight
      exact ahead'.flying left

theorem agrees (rests : p.Rests) (ahead' : p₀.Ahead q first admitted s p') (rests' : p'.Rests) :
    p.Agrees p' := by
  obtain ⟨n, status, settled⟩ := ahead.status
  obtain ⟨n', status', settled'⟩ := ahead'.status
  have less := ahead.retired_le rests ahead'
  have more := ahead'.retired_le rests' ahead
  have same : n' = n := by
    rw [status, status'] at less more
    simp only at less more
    omega
  subst same
  refine ⟨ahead'.of.buffers.symm.trans ahead.of.buffers,
    fun e => congrFun (ahead'.of.routes.symm.trans ahead.of.routes) e, ?_, status'.trans status.symm⟩
  exact (settled.symm.trans settled').ext (ahead.of.memory.symm.trans ahead'.of.memory)

end Ahead

end Plant

end FabricQueue
