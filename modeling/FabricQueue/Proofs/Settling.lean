import FabricQueue.Proofs.Carriage
import FabricQueue.Proofs.Locks
import FabricQueue.Proofs.Routing

set_option autoImplicit false

namespace FabricQueue

namespace Fabric

variable {f f' : Fabric} {index : UInt64} {record : Record} {progress : Progress}

theorem bytesLeft_eq (f : Fabric) : f.bytesLeft = (f.jobs.map Job.bytesLeft).sum := by
  unfold bytesLeft jobs
  induction f.fifos with
  | nil => rfl
  | cons q fifos ih =>
    have own : q.bytesLeft = (q.jobs.map Job.bytesLeft).sum := by
      unfold Fifo.bytesLeft
      induction q.jobs with
      | nil => rfl
      | cons job jobs ih => rw [List.foldr_cons, ih, List.map_cons, List.sum_cons]
    rw [List.foldr_cons, ih, own, List.flatMap_cons, List.map_append, List.sum_append]

theorem push_bytesLeft (job : Job) (endpoints : (f.fifos.map (·.endpoint)).Nodup) :
    (f.push job).bytesLeft = f.bytesLeft + job.bytesLeft := by
  obtain ⟨fifos, pushed, jobs, _⟩ := push_spec job endpoints
  have sums := (jobs.map Job.bytesLeft).sum_nat
  rw [List.map_cons, List.sum_cons] at sums
  rw [bytesLeft_eq, bytesLeft_eq f, pushed, Nat.add_comm]
  exact sums

theorem accept_bytesLeft (endpoints : (f.fifos.map (·.endpoint)).Nodup)
    (accepted : f.accept index record = .ok (progress, f')) :
    f'.bytesLeft < f.bytesLeft + UInt64.size ∧ f'.tiles = f.tiles ∧
      (f'.fifos.map (·.endpoint)).Nodup := by
  cases known : f.admits record with
  | none =>
    obtain ⟨_, _, done, notes⟩ := accept_other index known
    cases accepted.symm.trans done
    rw [notes.rest]
    exact ⟨Nat.lt_add_of_pos_right (by decide), rfl, endpoints⟩
  | some t =>
    rw [accept_admitted index known] at accepted
    split_ifs at accepted with none fits
    · cases accepted
      exact ⟨Nat.lt_add_of_pos_right (by decide), rfl, endpoints⟩
    · cases accepted
      obtain ⟨fifos, pushed, _, distinct⟩ := push_spec (freshJob index t) endpoints
      have left : (freshJob index t).bytesLeft = t.totalBytes := Job.start_bytesLeft index t
      refine ⟨?_, by rw [pushed], by rw [pushed]; exact distinct⟩
      rw [push_bytesLeft _ endpoints, left]
      omega

end Fabric

namespace Plant

variable {p p' : Plant} {q : Queue} {first : Nat} {moved : Moves} {l : Log}
  {admitted : List Admitted} {touches : Touches}

theorem Journaled.bytesLeft_eq (journaled : p.Journaled admitted touches) :
    p.fabric.bytesLeft = (p.fabric.jobs.flatMap Job.addresses).length := by
  rw [Fabric.bytesLeft_eq, List.length_flatMap]
  congr 1
  apply List.map_congr_left
  intro job member
  obtain ⟨⟨low, high, addressable, within, _⟩, _⟩ := journaled.jobs job member
  exact (within.addresses_length addressable).symm

theorem fetchNext_bytesLeft (count : Nat) {some : Bool}
    (endpoints : (p.fabric.fifos.map (·.endpoint)).Nodup)
    (taken : fetchNext count p = .ok some p') :
    p'.fabric.bytesLeft ≤ p.fabric.bytesLeft + count * UInt64.size ∧
      p'.fabric.tiles = p.fabric.tiles ∧
      (some = false → p'.fabric = p.fabric) := by
  induction count generalizing p some with
  | zero =>
    cases taken
    exact ⟨Nat.le_add_right _ _, rfl, fun _ => rfl⟩
  | succ count ih =>
    obtain ⟨failure, m, found⟩ | ⟨record, m, found⟩ :=
      onMemory_cases (p.fabric.consumer.fetch p.fabric.nextFetch) p
    · rw [fetchNext_failed found] at taken
      cases taken
    · cases record with
      | none =>
        rw [fetchNext_none found] at taken
        cases taken
        exact ⟨Nat.le_add_right _ _, rfl, fun _ => rfl⟩
      | some record =>
        cases accepted : p.fabric.accept p.fabric.nextFetch record with
        | error failure => cases (fetchNext_refused found accepted).symm.trans taken
        | ok result =>
          obtain ⟨progress, f'⟩ := result
          obtain ⟨bytes, tiles, distinct⟩ := Fabric.accept_bytesLeft endpoints accepted
          rw [fetchNext_some found accepted] at taken
          obtain ⟨others, p₂, rest, done⟩ := bind_cases taken
          cases done
          obtain ⟨more, tiles', _⟩ := ih (by exact distinct) rest
          refine ⟨?_, tiles'.trans tiles, Bool.noConfusion⟩
          change p'.fabric.bytesLeft ≤ f'.bytesLeft + count * UInt64.size at more
          rw [Nat.succ_mul]
          omega

theorem Lives.workLeft_eq (lives : p.Lives q first moved l admitted touches) :
    p.workLeft = (l.published - p.fabric.nextFetch.toNat) * (2 * UInt64.size + 2) +
      2 * p.fabric.bytesLeft + p.fabric.inFlight.length + p.fullCount + 1 := by
  rw [workLeft, published_ok lives.serves.shows lives.serves.port, ← lives.serves.shows.doorbell]
  rfl

theorem fetch_work {moved' : Moves} {admitted' : List Admitted} {touches' : Touches} {some : Bool}
    (lives : p.Lives q first moved l admitted touches) (taken : fetch p = .ok some p')
    (lives' : p'.Lives q first moved' l admitted' touches')
    (all : p'.fabric.nextFetch.toNat = l.published) :
    p'.workLeft + some.toNat ≤ p.workLeft ∧ p'.fabric.tiles = p.fabric.tiles ∧
      (some = false → p' = p) := by
  rw [fetch_eq lives.serves.shows lives.serves.port] at taken
  obtain ⟨bytes, tiles, still⟩ :=
    fetchNext_bytesLeft _ lives.journaled.endpoints taken
  have bound := lives.serves.published
  have flight := congrArg List.length lives.serves.flight
  have flight' := congrArg List.length lives'.serves.flight
  rw [List.length_map, List.length_range'] at flight flight'
  have behind := lives.serves.behind
  generalize more : l.published - p.fabric.nextFetch.toNat = count at bytes taken
  refine ⟨?_, tiles, fun none => ?_⟩
  · have some_count : some.toNat ≤ count := by
      cases count with
      | zero => cases taken; exact Nat.le_refl _
      | succ count => exact Nat.le_trans (Bool.toNat_le some) (Nat.succ_pos count)
    have locks : p'.fullCount = p.fullCount := by rw [fullCount, tiles]
    have none : l.published - p'.fabric.nextFetch.toNat = 0 := by omega
    have product : count * (2 * UInt64.size + 2) = 2 * (count * UInt64.size) + 2 * count := by ring
    rw [lives.workLeft_eq, lives'.workLeft_eq, none, more, locks, product, Nat.zero_mul]
    omega
  · rw [still none] at all
    have zero : count = 0 := by omega
    rw [zero] at taken
    cases taken
    rfl

theorem execute_work {order : Order} {moved' : Moves} {touches' : Touches} {some : Bool}
    (visits : ∀ fifos, (order fifos).Perm fifos)
    (lives : p.Lives q first moved l admitted touches)
    (narrow : Admitted.bytes admitted < UInt64.size)
    (distinct : ∀ k ∈ p.fabric.tiles.kernels, k.Distinct) (executed : execute order p = .ok some p')
    (lives' : p'.Lives q first moved' l admitted touches') :
    p'.workLeft + some.toNat ≤ p.workLeft ∧ (∀ k ∈ p'.fabric.tiles.kernels, k.Distinct) ∧
      (∀ fifo ∈ p'.fabric.fifos, ∀ job ∈ fifo.jobs.head?, job.addresses ≠ []) ∧
      (some = false → p'.memory = p.memory ∧ p'.fabric.tiles = p.fabric.tiles ∧
        p.fabric.tiles.runKernels.1 = false) := by
  have perm : ((order p.fabric.fifos).flatMap (·.jobs)).Perm p.fabric.jobs :=
    (visits p.fabric.fifos).flatMap_right _
  have counts := (perm.flatMap_right Job.addresses).length_eq
  have journaled := lives.journaled
  have hosted := journaled.visited_hosted visits
  have queued := journaled.visited_queued visits
  have few := journaled.visited_narrow visits narrow
  obtain ⟨left, tally, p₁, finished, failed, streamed, beside, _, _, streams, tallies, fits⟩ :=
    journaled.streamFifos_ok visits narrow
  obtain ⟨_, quiet⟩ := streamFifos_quiet (order p.fabric.fifos) hosted queued few lives.sound streamed
  obtain ⟨pays, fronts⟩ :=
    streamFifos_pays (order p.fabric.fifos) hosted queued few lives.sound streamed
  have size := streams.size
  have bytes := tallies.bytes
  cases executed.symm.trans (execute_ok streamed fun _ => fits)
  have before := journaled.bytesLeft_eq
  have after := lives'.journaled.bytesLeft_eq
  obtain ⟨kept, locks⟩ := TileArray.runKernels_fullCount (t := p₁.fabric.tiles)
    (pays.kernels ▸ distinct)
  refine ⟨?_, kept, fronts, fun still => ?_⟩
  · have paid := pays.locks
    have some_bytes : (tally.moved || p₁.fabric.tiles.runKernels.1).toNat ≤
        tally.bytes + p₁.fabric.tiles.runKernels.1.toNat := by
      cases moved : tally.moved with
      | true =>
        have grown := (pays.moved moved).resolve_left Bool.false_ne_true
        exact Nat.le_trans (Bool.toNat_le _) (Nat.le_add_right_of_le grown)
      | false => exact Nat.le_add_left _ _
    rw [lives.workLeft_eq, lives'.workLeft_eq, before, after]
    have flight : p₁.fabric.inFlight = p.fabric.inFlight := by rw [beside.fabric]
    have next : p₁.fabric.nextFetch = p.fabric.nextFetch := by rw [beside.fabric]
    simp only [fullCount, Fabric.jobs, List.length_map, flight, next] at locks paid counts bytes ⊢
    omega
  · rw [Bool.or_eq_false_iff] at still
    obtain ⟨_, same, _⟩ := quiet still.1
    subst same
    exact ⟨rfl, TileArray.runKernels_still still.2, still.2⟩

theorem retireFront_work (flight : List InFlight) {some : Bool}
    (gone : retireFront flight p = .ok some p') (same : p.fabric.inFlight = flight) :
    p'.fabric.inFlight.length + some.toNat ≤ flight.length ∧ (some = false → p' = p) := by
  induction flight generalizing p some with
  | nil =>
    cases gone
    rw [same]
    exact ⟨Nat.le_refl _, fun _ => rfl⟩
  | cons e rest ih =>
    obtain ⟨index, progress⟩ := e
    cases progress with
    | done =>
      unfold retireFront at gone
      obtain ⟨_, p₁, _, gone⟩ := bind_cases gone
      obtain ⟨_, p₂, _, gone⟩ := bind_cases gone
      obtain ⟨_, p₃, _, gone⟩ := bind_cases gone
      obtain ⟨_, p₄, updated, gone⟩ := bind_cases gone
      cases updated
      obtain ⟨others, p₅, further, ended⟩ := bind_cases gone
      cases ended
      obtain ⟨fewer, _⟩ := ih further rfl
      refine ⟨?_, Bool.noConfusion⟩
      simp only [Bool.toNat_true, List.length_cons]
      omega
    | running =>
      cases gone
      rw [same]
      exact ⟨Nat.le_refl _, fun _ => rfl⟩
    | faulted =>
      cases gone
      rw [same]
      exact ⟨Nat.le_refl _, fun _ => rfl⟩

structure Rests (p : Plant) : Prop where
  kernels : p.fabric.tiles.runKernels.1 = false
  stuck : ∀ fifo ∈ p.fabric.fifos, Stuck p.fabric.tiles fifo.jobs
  front : ∀ e ∈ p.fabric.inFlight.head?, e.progress ≠ .done

theorem pass_settles {order : Order} (visits : ∀ fifos, (order fifos).Perm fifos)
    (lives : p.Lives q first moved l admitted touches)
    (narrow : Admitted.bytes (admitted ++ passArrivals p) < UInt64.size)
    (distinct : ∀ k ∈ p.fabric.tiles.kernels, k.Distinct) :
    ∃ some p' moved' n touches', pass order p = .ok some p' ∧
      p'.Lives q first moved' { l with retired := n } (admitted ++ passArrivals p) touches' ∧
      p'.fabric.nextFetch.toNat = l.published ∧
      (∀ k ∈ p'.fabric.tiles.kernels, k.Distinct) ∧ p'.workLeft + some.toNat ≤ p.workLeft ∧
      (some = false → p'.memory = p.memory ∧ p'.fabric.tiles = p.fabric.tiles ∧ p'.Rests) := by
  obtain ⟨fetched, p₁, taken, lives₁, all⟩ :=
    fetch_lives lives (by rw [Admitted.bytes_append] at narrow; omega)
  obtain ⟨less, tiles, none⟩ := fetch_work lives taken lives₁ all
  obtain ⟨stepped, p₂, executed, lives₂, next, waits⟩ := execute_lives visits lives₁ narrow
  obtain ⟨less', kept, fronts, still⟩ :=
    execute_work visits lives₁ narrow (tiles ▸ distinct) executed lives₂
  obtain ⟨retired, p₃, n, gone, low, lives₃, tiles', fifos, next', front⟩ :=
    retireFront_lives _ lives₂ rfl
  obtain ⟨fewer, last⟩ := retireFront_work _ gone rfl
  refine ⟨fetched || stepped || retired, p₃, _, n, _, ?_, lives₃, by rw [next', next, all],
    tiles' ▸ kept, ?_, fun quiet => ?_⟩
  · exact pass_done taken executed gone
  · have later : p₃.workLeft + retired.toNat ≤ p₂.workLeft := by
      have left : p₃.fabric.bytesLeft = p₂.fabric.bytesLeft := by
        rw [Fabric.bytesLeft, fifos, ← Fabric.bytesLeft]
      rw [lives₂.workLeft_eq, lives₃.workLeft_eq, next', left, fullCount, tiles']
      simp only [fullCount]
      omega
    have sum : (fetched || stepped || retired).toNat ≤
        fetched.toNat + stepped.toNat + retired.toNat := by
      cases fetched <;> cases stepped <;> cases retired <;> decide
    omega
  · simp only [Bool.or_eq_false_iff] at quiet
    obtain ⟨⟨unfetched, idle⟩, kept⟩ := quiet
    obtain ⟨memory, same, kernels⟩ := still idle
    obtain rfl := none unfetched
    obtain rfl := last kept
    refine ⟨memory, same, same ▸ kernels, fun fifo member job head => ?_, front⟩
    exact ⟨fronts fifo member job head, waits idle fifo member job head⟩

theorem pass_routed {order : Order} {some : Bool} (visits : ∀ fifos, (order fifos).Perm fifos)
    (lives : p.Lives q first moved l admitted touches)
    (narrow : Admitted.bytes (admitted ++ passArrivals p) < UInt64.size) (routed : p.fabric.Routed)
    (ran : pass order p = .ok some p') :
    p'.fabric.Routed ∧ (some = false → p'.fabric.status = p.fabric.status) := by
  obtain ⟨fetched, p₁, taken, lives₁, all⟩ :=
    fetch_lives lives (by rw [Admitted.bytes_append] at narrow; omega)
  obtain ⟨_, _, none⟩ := fetch_work lives taken lives₁ all
  obtain ⟨stepped, p₂, executed, lives₂, _⟩ := execute_lives visits lives₁ narrow
  obtain ⟨routed₂, still⟩ := execute_routed visits lives₁.journaled narrow
    (fetch_routed lives.journaled.endpoints routed taken) executed
  obtain ⟨retired, p₃, n, gone, _, _, tiles, fifos, _⟩ := retireFront_lives _ lives₂ rfl
  obtain ⟨_, last⟩ := retireFront_work _ gone rfl
  cases ran.symm.trans (pass_done taken executed gone)
  refine ⟨?_, fun quiet => ?_⟩
  · rw [Fabric.Routed, Fabric.jobs, tiles, fifos]
    exact routed₂
  · simp only [Bool.or_eq_false_iff] at quiet
    obtain ⟨⟨unfetched, idle⟩, kept⟩ := quiet
    obtain rfl := none unfetched
    obtain rfl := last kept
    exact still idle

-- A fabric at rest stays so, and everything but its FIFOs is as it was.
theorem Rests.pass_still {order : Order} (visits : ∀ fifos, (order fifos).Perm fifos)
    (lives : p.Lives q first moved l admitted touches)
    (narrow : Admitted.bytes admitted < UInt64.size)
    (all : p.fabric.nextFetch.toNat = l.published) (rests : p.Rests) :
    ∃ fifos, pass order p = .ok false ⟨{ p.fabric with fifos }, p.memory⟩ ∧
      Rests ⟨{ p.fabric with fifos }, p.memory⟩ := by
  obtain ⟨kernels, stuck, front⟩ := rests
  obtain ⟨left, streamed, stays⟩ := streamFifos_stuck (order p.fabric.fifos) {}
    (lives.journaled.visited_hosted visits) (lives.journaled.visited_narrow visits narrow)
    fun fifo member => stuck fifo ((visits _).subset member)
  have fetched : fetch p = .ok false p := by
    rw [fetch_eq lives.serves.shows lives.serves.port, all, Nat.sub_self]
    rfl
  have executed : execute order p = .ok false ⟨{ p.fabric with fifos := left }, p.memory⟩ := by
    have ran := execute_ok streamed fun some => absurd some (Nat.lt_irrefl 0)
    simpa only [kernels, TileArray.runKernels_still kernels, Tally.settle_nothing, List.map_nil,
      List.append_nil, Nat.add_zero, Bool.or_self] using ran
  have retired : retireFront p.fabric.inFlight ⟨{ p.fabric with fifos := left }, p.memory⟩ =
      .ok false ⟨{ p.fabric with fifos := left }, p.memory⟩ := by
    cases flight : p.fabric.inFlight with
    | nil => rfl
    | cons e rest =>
      obtain ⟨index, progress⟩ := e
      rw [flight] at front
      cases progress with
      | done => exact absurd rfl (front _ rfl)
      | running => rfl
      | faulted => rfl
  exact ⟨left, pass_done fetched executed retired, kernels, stays, front⟩

end Plant

namespace Site

def Tended (s : Site) : Prop :=
  ∃ admitted touches, s.Lives admitted touches ∧
    Admitted.bytes (admitted ++ s.plant.passArrivals) < UInt64.size ∧
    ∀ k ∈ s.plant.fabric.tiles.kernels, k.Distinct

-- All that was published is fetched, nothing that is done stays in front, and the transfer in front
-- of each FIFO waits for the lock of its buffer.
structure AtRest (s : Site) : Prop where
  running : s.plant.fabric.running = true
  fetched : s.plant.fabric.nextFetch.toNat = s.ring.published
  front : ∀ e ∈ s.plant.fabric.inFlight.head?, e.progress ≠ .done
  waits : ∀ fifo ∈ s.plant.fabric.fifos, Plant.Waits s.plant.fabric.tiles fifo.jobs

variable {start s : Site} {order : Order} {admitted : List Admitted} {touches : Touches}

theorem Tended.poll (visits : ∀ fifos, (order fifos).Perm fifos) (tended : s.Tended) :
    (s.poll order).Tended ∧
      (s.poll order).plant.workLeft + (s.plant.poll order).1.toNat ≤ s.plant.workLeft ∧
      ((s.plant.poll order).1 = false →
        (s.poll order).plant.memory = s.plant.memory ∧
        (s.poll order).plant.fabric.tiles = s.plant.fabric.tiles ∧
        (s.poll order).plant.Rests ∧
        (s.poll order).plant.fabric.nextFetch.toNat = (s.poll order).ring.published) := by
  obtain ⟨admitted, touches, ⟨first, moved, l, lives⟩, narrow, distinct⟩ := tended
  obtain ⟨some, p, moved', n, touches', ran, after, all, kept, less, quiet⟩ :=
    Plant.pass_settles visits lives narrow distinct
  have polled := Plant.poll_done lives.serves.running ran
  have none : p.passArrivals = [] := by
    rw [after.serves.passArrivals_eq, all, Nat.sub_self]
    rfl
  rw [Site.poll, polled]
  refine ⟨⟨_, _, ⟨first, moved', _, after⟩, ?_, kept⟩, less, fun still => ?_⟩
  · rw [none, List.append_nil]
    exact narrow
  · obtain ⟨memory, tiles, rests⟩ := quiet still
    exact ⟨memory, tiles, rests, all.trans after.serves.shows.doorbell.symm⟩

theorem Tended.poll_routed (visits : ∀ fifos, (order fifos).Perm fifos) (tended : s.Tended)
    (routed : s.plant.fabric.Routed) : (s.poll order).plant.fabric.Routed ∧
      ((s.plant.poll order).1 = false → (s.poll order).status = s.status) := by
  obtain ⟨admitted, touches, ⟨_, _, _, lives⟩, narrow, _⟩ := tended
  obtain ⟨some, p, _, ran, _⟩ := Plant.pass_lives visits lives narrow
  rw [Site.poll, Plant.poll_done lives.serves.running ran]
  exact Plant.pass_routed visits lives narrow routed ran

theorem Tended.atRest (tended : s.Tended) (rests : s.plant.Rests)
    (fetched : s.plant.fabric.nextFetch.toNat = s.ring.published) : s.AtRest := by
  obtain ⟨_, _, ⟨_, _, _, lives⟩, _, _⟩ := tended
  exact ⟨lives.serves.running, fetched, rests.front,
    fun fifo member job head => (rests.stuck fifo member job head).2⟩

theorem Tended.poll_still (visits : ∀ fifos, (order fifos).Perm fifos) (tended : s.Tended)
    (rests : s.plant.Rests) (fetched : s.plant.fabric.nextFetch.toNat = s.ring.published) :
    (s.plant.poll order).1 = false ∧ ∃ fifos,
      s.poll order = ⟨s.queue, ⟨{ s.plant.fabric with fifos }, s.plant.memory⟩⟩ := by
  obtain ⟨admitted, touches, ⟨first, moved, l, lives⟩, narrow, _⟩ := tended
  obtain ⟨fifos, ran, _⟩ := rests.pass_still visits lives
    (by rw [Admitted.bytes_append] at narrow; omega)
    (fetched.trans lives.serves.shows.doorbell)
  have polled := Plant.poll_done lives.serves.running ran
  exact ⟨by rw [polled], fifos, by rw [Site.poll, polled]⟩

section Polls

variable {orders : Nat → Order} (visits : ∀ pass fifos, (orders pass fifos).Perm fifos)

include visits

theorem Tended.polls (tended : s.Tended) (passes : Nat) : (s.polls orders passes).Tended := by
  induction passes with
  | zero => exact tended
  | succ passes ih => exact (ih.poll (visits passes)).1

theorem Tended.polls_routed (tended : s.Tended) (routed : s.plant.fabric.Routed) (passes : Nat) :
    (s.polls orders passes).plant.fabric.Routed := by
  induction passes with
  | zero => exact routed
  | succ passes ih => exact ((tended.polls visits passes).poll_routed (visits passes) ih).1

theorem Tended.quiet_pass (tended : s.Tended) :
    ∃ n < s.plant.workLeft, ((s.polls orders n).plant.poll (orders n)).1 = false := by
  by_contra always
  have moved (n : Nat) (below : n < s.plant.workLeft) :
      ((s.polls orders n).plant.poll (orders n)).1 = true := by
    rw [← Bool.not_eq_false]
    exact fun still => always ⟨n, below, still⟩
  have spent : ∀ n ≤ s.plant.workLeft, (s.polls orders n).plant.workLeft + n ≤ s.plant.workLeft := by
    intro n
    induction n with
    | zero => exact fun _ => Nat.le_refl _
    | succ n ih =>
      intro below
      obtain ⟨_, less, _⟩ := (tended.polls visits n).poll (visits n)
      rw [moved n below, Bool.toNat_true] at less
      have before := ih (by omega)
      change (s.polls orders (n + 1)).plant.workLeft + 1 ≤ _ at less
      omega
  -- Even an idle fabric counts one pass.
  have last := spent _ (Nat.le_refl _)
  have positive : 0 < (s.polls orders s.plant.workLeft).plant.workLeft := Nat.succ_pos _
  omega

theorem Tended.later_pass (tended : s.Tended) {n : Nat}
    (still : ((s.polls orders n).plant.poll (orders n)).1 = false) (later : Nat) :
    (s.polls orders (n + 1 + later)).plant.Rests ∧
      (s.polls orders (n + 1 + later)).plant.fabric.nextFetch.toNat =
        (s.polls orders (n + 1 + later)).ring.published ∧
      (s.polls orders (n + 1 + later)).plant.memory = (s.polls orders (n + 1)).plant.memory ∧
      (s.polls orders (n + 1 + later)).plant.fabric.tiles =
        (s.polls orders (n + 1)).plant.fabric.tiles ∧
      (s.polls orders (n + 1 + later)).status = (s.polls orders (n + 1)).status := by
  induction later with
  | zero =>
    obtain ⟨_, _, rest⟩ := (tended.polls visits n).poll (visits n)
    obtain ⟨_, _, rests, fetched⟩ := rest still
    exact ⟨rests, fetched, rfl, rfl, rfl⟩
  | succ later ih =>
    obtain ⟨rests, fetched, memory, tiles, status⟩ := ih
    have now := tended.polls visits (n + 1 + later)
    obtain ⟨quiet, fifos, same⟩ := now.poll_still (visits (n + 1 + later)) rests fetched
    obtain ⟨_, _, rest⟩ := now.poll (visits (n + 1 + later))
    obtain ⟨_, _, rests', fetched'⟩ := rest quiet
    refine ⟨rests', fetched', ?_⟩
    have next : s.polls orders (n + 1 + (later + 1)) = _ := same
    rw [next]
    exact ⟨memory, tiles, status⟩

end Polls

theorem Spawned.lives {ring : Ring} {h : History} {hosts : HostMap} {tiles : TileArray}
    (spawned : s.Spawned ring hosts tiles) (tracked : ring.Tracks h) (apart : hosts.Apart ring.queue)
    (addressable : ∀ r ∈ hosts.regions, r.base.toNat + r.size ≤ UInt64.size)
    (sound : tiles.Sound) : s.Lives [] [] := by
  obtain ⟨queue, fabric, memory⟩ := s
  obtain ⟨same, started⟩ := spawned
  simp only at same started
  subst same
  rw [tracked.shows.spawn_ok] at started
  cases started
  exact ⟨_, _, _, Plant.fresh_lives tracked.shows apart addressable sound⟩

theorem Spawned.routed {ring : Ring} {hosts : HostMap} {tiles : TileArray}
    (spawned : s.Spawned ring hosts tiles) : s.plant.fabric.Routed := by
  obtain ⟨_, fifos, _⟩ := Plant.spawn_fresh spawned.2
  intro job member
  rw [Fabric.jobs, fifos] at member
  cases member

-- A life in which nobody else changes the tiles.
inductive Steady (start : Site) : List Admitted → Touches → Site → Prop where
  | start : Steady start [] [] start
  | produce {admitted : List Admitted} {touches : Touches} {s : Site}
      (steady : Steady start admitted touches s) (a : Production) :
      Steady start admitted touches (s.produce a).2
  | store {admitted : List Admitted} {touches : Touches} {s : Site} {memory : Memory}
      (steady : Steady start admitted touches s) (outside : Outside s.queue s.plant.memory memory) :
      Steady start admitted touches ⟨s.queue, ⟨s.plant.fabric, memory⟩⟩
  | poll {admitted : List Admitted} {touches : Touches} {s : Site}
      (steady : Steady start admitted touches s) (order : Order)
      (visits : ∀ fifos, (order fifos).Perm fifos) :
      Steady start (admitted ++ s.plant.passArrivals) (touches ++ s.plant.passTouches order)
        (s.poll order)

theorem Steady.life (steady : Steady start admitted touches s) : Life start admitted touches s := by
  induction steady with
  | start => exact .start
  | produce _ a ih => simpa only [List.append_nil] using ih.next (.produce a)
  | store _ outside ih => simpa only [List.append_nil] using ih.next (.store outside)
  | poll _ order visits ih => exact ih.next (.poll order visits)

theorem Steady.offer (steady : Steady start admitted touches s) (work : List Production) :
    Steady start admitted touches (s.offer work) := by
  induction work generalizing s with
  | nil => exact steady
  | cons a work ih => exact ih (steady.produce a)

theorem Steady.routed (steady : Steady start admitted touches s) (lives : start.Lives [] [])
    (routed : start.plant.fabric.Routed) (narrow : Admitted.bytes admitted < UInt64.size) :
    s.plant.fabric.Routed := by
  induction steady with
  | start => exact routed
  | produce _ _ ih => exact ih narrow
  | store _ _ ih => exact ih narrow
  | @poll admitted touches s steady order visits ih =>
    have before : Admitted.bytes admitted < UInt64.size := by
      rw [Admitted.bytes_append] at narrow
      omega
    obtain ⟨_, _, _, now⟩ := steady.life.lives lives before
    obtain ⟨some, p, _, ran, _⟩ := Plant.pass_lives visits now narrow
    rw [Site.poll, Plant.poll_done now.serves.running ran]
    exact (Plant.pass_routed visits now narrow (ih before) ran).1

-- From any state of any run, passes in any order move nothing after finitely many, and then they
-- never move anything again.
theorem polls_settle {root ring : Ring} {h : History} {hosts : HostMap} {tiles : TileArray}
    (opened : root.Opened) (led : Ring.Run root h ring) (spawned : start.Spawned ring hosts tiles)
    (apart : hosts.Apart ring.queue)
    (addressable : ∀ r ∈ hosts.regions, r.base.toNat + r.size ≤ UInt64.size)
    (sound : tiles.Sound) (life : Life start admitted touches s)
    (narrow : Admitted.bytes (admitted ++ s.plant.passArrivals) < UInt64.size)
    (distinct : ∀ k ∈ s.plant.fabric.tiles.kernels, k.Distinct) (orders : Nat → Order)
    (visits : ∀ pass fifos, (orders pass fifos).Perm fifos) :
    (∃ n < s.plant.workLeft, ((s.polls orders n).plant.poll (orders n)).1 = false) ∧
    ∀ n, ((s.polls orders n).plant.poll (orders n)).1 = false →
      (s.polls orders (n + 1)).plant.memory = (s.polls orders n).plant.memory ∧
      (s.polls orders (n + 1)).plant.fabric.tiles = (s.polls orders n).plant.fabric.tiles ∧
      (Steady start admitted touches s →
        (s.polls orders (n + 1)).status = (s.polls orders n).status) ∧
      (s.polls orders (n + 1)).AtRest ∧ ∀ later > n,
        ((s.polls orders later).plant.poll (orders later)).1 = false ∧
        (s.polls orders later).plant.memory = (s.polls orders (n + 1)).plant.memory ∧
        (s.polls orders later).plant.fabric.tiles =
          (s.polls orders (n + 1)).plant.fabric.tiles ∧
        (s.polls orders later).status = (s.polls orders (n + 1)).status := by
  have fresh := spawned.lives (led.tracks opened).1 apart addressable sound
  have lives : s.Lives admitted touches := by
    have after := life.lives fresh (by rw [Admitted.bytes_append] at narrow; rw [List.nil_append]; omega)
    rwa [List.nil_append, List.nil_append] at after
  have tended : s.Tended := ⟨admitted, touches, lives, narrow, distinct⟩
  refine ⟨tended.quiet_pass visits, fun n still => ?_⟩
  obtain ⟨_, _, rest⟩ := (tended.polls visits n).poll (visits n)
  obtain ⟨memory, tiles, _⟩ := rest still
  refine ⟨memory, tiles, fun steady => ?_, ?_, fun later behind => ?_⟩
  · have routed := steady.routed fresh spawned.routed
      (by rw [Admitted.bytes_append] at narrow; omega)
    exact ((tended.polls visits n).poll_routed (visits n) (tended.polls_routed visits routed n)).2 still
  · obtain ⟨rests, fetched, _⟩ := tended.later_pass visits still 0
    exact (tended.polls visits (n + 1)).atRest rests fetched
  · obtain ⟨more, rfl⟩ := Nat.exists_eq_add_of_le behind
    obtain ⟨rests, fetched, same⟩ := tended.later_pass visits still more
    exact ⟨((tended.polls visits _).poll_still (visits _) rests fetched).1, same⟩

theorem sampleTiles_sound (direction : Direction) (full : Bool) :
    (sampleTiles direction full).Sound := by
  have empty := (TileBuffer.Sound.zeroed "a" (by decide : 2 ≠ 0)).setWord 0 5
  have inside : ({ (TileBuffer.zeroed "a" 2).setWord 0 5 with full } : TileBuffer).Sound :=
    ⟨empty.nonempty, empty.cursor⟩
  refine ⟨fun i b found => ?_, fun entry member => ?_⟩
  · match i, found with
    | 0, rfl => exact inside
  · rw [List.mem_singleton.mp member]
    exact ⟨Nat.zero_lt_one, by simp [sampleTiles, TileBuffers.size]⟩

def sampleAdder : AddKernel where
  ping := ⟨"a", "b", "c"⟩
  pong := ⟨"a", "b", "c"⟩

def sampleTended : TileArray :=
  (sampleTiles .hostToDevice true).addKernel sampleAdder

-- A transfer for a buffer that is full.
def sampleBlocked : Site :=
  (sampleStart.retile sampleTended).offer [.reserve 1,
    .writePacket 0 (.transfer (sampleTransfer .hostToDevice 4096)), .dispatch 0]

theorem sampleBlocked_eq : sampleBlocked = sampleHolding 1
    ((Command.transfer (sampleTransfer .hostToDevice 4096)).encode.activated.toBytes ++
      Queue.idle.toBytes) ⟨[⟨192, 4096, 64, false⟩]⟩ sampleTended := by
  rw [sampleBlocked, sampleStart, spawned_retile]
  exact sampleRing_offer (by decide +kernel)

theorem sampleBlocked_pass : Admitted.bytes sampleBlocked.plant.passArrivals = 8 ∧
    sampleBlocked.plant.fabric.tiles.kernels = [sampleAdder] ∧
    (sampleBlocked.plant.poll id).1 = true ∧
    ((sampleBlocked.polls (fun _ => id) 1).plant.poll id).1 = false ∧
    (sampleBlocked.polls (fun _ => id) 2).plant.fabric.jobs.map (·.index) = [0] := by
  rw [sampleBlocked_eq]
  decide +kernel

theorem polls_settle_sample : sampleRing.Opened ∧ Ring.Run sampleRing [] sampleRing ∧
    (sampleStart.retile sampleTended).Spawned sampleRing ⟨[⟨192, 4096, 64, false⟩]⟩ sampleTended ∧
    HostMap.Apart ⟨[⟨192, 4096, 64, false⟩]⟩ sampleRing.queue ∧
    (∀ r ∈ HostMap.regions ⟨[⟨192, 4096, 64, false⟩]⟩, r.base.toNat + r.size ≤ UInt64.size) ∧
    sampleTended.Sound ∧ Life (sampleStart.retile sampleTended) [] [] sampleBlocked ∧
    Admitted.bytes ([] ++ sampleBlocked.plant.passArrivals) < UInt64.size ∧
    (∀ k ∈ sampleBlocked.plant.fabric.tiles.kernels, k.Distinct) ∧
    (∀ (_ : Nat) (fifos : List Fifo), (id fifos).Perm fifos) ∧
    (∃ n < sampleBlocked.plant.workLeft,
      ((sampleBlocked.polls (fun _ => id) n).plant.poll id).1 = false) ∧
    (sampleBlocked.plant.poll id).1 = true ∧
    (sampleBlocked.polls (fun _ => id) 2).status = (sampleBlocked.polls (fun _ => id) 1).status ∧
    (sampleBlocked.polls (fun _ => id) 2).AtRest ∧
    (sampleBlocked.polls (fun _ => id) 2).plant.fabric.jobs.map (·.index) = [0] := by
  obtain ⟨bytes, kernels, first, second, left⟩ := sampleBlocked_pass
  have addressable : ∀ r ∈ HostMap.regions ⟨[⟨192, 4096, 64, false⟩]⟩,
      r.base.toNat + r.size ≤ UInt64.size := by decide
  have spawned : (sampleStart.retile sampleTended).Spawned sampleRing ⟨[⟨192, 4096, 64, false⟩]⟩
      sampleTended := spawned_ok sampleRing_opened.tracks _ _
  have sound : sampleTended.Sound := (sampleTiles_sound .hostToDevice true).addKernel sampleAdder
  have steady : Steady (sampleStart.retile sampleTended) [] [] sampleBlocked := Steady.start.offer _
  have narrow : Admitted.bytes ([] ++ sampleBlocked.plant.passArrivals) < UInt64.size := by
    rw [List.nil_append, bytes]
    decide
  have distinct : ∀ k ∈ sampleBlocked.plant.fabric.tiles.kernels, k.Distinct := by
    rw [kernels]
    intro k member
    rw [List.mem_singleton.mp member]
    exact ⟨by decide, by decide⟩
  have visits : ∀ (_ : Nat) (fifos : List Fifo), (id fifos).Perm fifos :=
    fun _ _ => List.Perm.refl _
  obtain ⟨quiet, rest⟩ := polls_settle sampleRing_opened .start spawned sampleRing_apart addressable
    sound steady.life narrow distinct (fun _ => id) visits
  obtain ⟨_, _, status, still, _⟩ := rest 1 second
  exact ⟨sampleRing_opened, .start, spawned, sampleRing_apart, addressable, sound, steady.life,
    narrow, distinct, visits, quiet, first, status steady, still, left⟩

theorem sampleOverlap_stops : Admitted.bytes sampleOverlap.plant.passArrivals = 8 ∧
    sampleOverlap.plant.fabric.tiles.kernels = [] ∧
    (sampleOverlap.polls (fun _ => id) 1).plant.fabric.running = false := by
  rw [sampleOverlap_eq]
  decide +kernel

theorem overlap_breaks_settling : ¬ ∀ (root ring : Ring) (h : History) (hosts : HostMap)
    (tiles : TileArray) (start s : Site) (admitted : List Admitted) (touches : Touches)
    (orders : Nat → Order), root.Opened → Ring.Run root h ring → start.Spawned ring hosts tiles →
    (∀ r ∈ hosts.regions, r.base.toNat + r.size ≤ UInt64.size) → tiles.Sound →
    Life start admitted touches s →
    Admitted.bytes (admitted ++ s.plant.passArrivals) < UInt64.size →
    (∀ k ∈ s.plant.fabric.tiles.kernels, k.Distinct) →
    (∀ pass fifos, (orders pass fifos).Perm fifos) →
    ∃ n, ((s.polls orders n).plant.poll (orders n)).1 = false ∧ (s.polls orders (n + 1)).AtRest := by
  intro always
  obtain ⟨bytes, kernels, stopped⟩ := sampleOverlap_stops
  have spawned := spawned_ok sampleRing_opened.tracks ⟨[⟨0, 0, 192, false⟩]⟩
    (sampleTiles .deviceToHost true)
  have life : Life _ [] [] sampleOverlap := Life.start.offer [.reserve 1,
    .writePacket 0 (.transfer (sampleTransfer .deviceToHost 0x28)), .dispatch 0]
  obtain ⟨n, _, rest⟩ := always _ _ _ _ _ _ _ _ _ (fun _ => id) sampleRing_opened .start spawned
    (by decide) (sampleTiles_sound _ _) life (by rw [List.nil_append, bytes]; decide)
    (by rw [kernels]; exact nofun) fun _ _ => List.Perm.refl _
  have later := polls_stopped stopped n
  rw [Nat.add_comm n 1, later] at rest
  exact absurd (rest.running.symm.trans stopped) (by decide)

end Site

end FabricQueue
