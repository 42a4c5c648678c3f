import FabricQueue.Proofs.Channels
import FabricQueue.Proofs.Locks
import FabricQueue.Proofs.Scenes
import FabricQueue.Proofs.Traffic

set_option autoImplicit false

namespace FabricQueue

theorem Asks.append {addresses : List Nat} {low high : Nat} {address : UInt64} {want : Nat}
    (asks : Asks addresses low high address want) (more : List Nat) :
    Asks (addresses ++ more) low high address want :=
  ⟨asks.some, asks.low, asks.high, by
    rw [List.take_append_of_le_length asks.want_le, asks.first]⟩

def Job.owed (jobs : List Job) : Touches :=
  jobs.flatMap fun job => job.touches job.addresses

namespace Scene

open Plant

structure Of (s : Scene) (q : Queue) (p : Plant) : Prop where
  buffers : s.buffers = p.fabric.tiles.buffers
  routes : s.routes = p.fabric.tiles.routeOf
  memory : q.footprint.Leaves s.memory p.memory
  sound : p.fabric.tiles.Sound
  kernels : p.fabric.tiles.kernels = []
  routed : ∀ e, s.left e ≠ [] → p.fabric.tiles.hasRoute e = true
  separate : p.fabric.hosts.Separate
  apart : p.fabric.hosts.Apart q
  parted : s.Parted p.fabric.hosts.place

variable {s : Scene} {q : Queue} {p : Plant} {e : Endpoint}

theorem Of.turn (of : s.Of q p) {r : Route} {b : TileBuffer}
    (known : p.fabric.tiles.routeOf e = some r)
    (found : p.fabric.tiles.buffers.items[r.current]? = some b) (ended : Bool)
    {change : TileBuffer → TileBuffer} {m m' : Memory} (leaves : q.footprint.Leaves m m')
    (sound : (p.fabric.tiles.pass e r ended change).Sound) (count more : Nat) :
    (s.turn e r (change b) ended m ((s.left e).drop count) more).Of q
      ⟨{ p.fabric with tiles := p.fabric.tiles.pass e r ended change }, m'⟩ := by
  have routes := TileArray.pass_routeOf known ended change
  refine ⟨?_, ?_, leaves, sound, (TileArray.pass_kernels _ _ _ _ _).trans of.kernels,
    fun other some => ?_, of.separate, of.apart,
    of.parted.turn (of.routes ▸ known) (List.drop_subset _ _)⟩
  · rw [TileArray.pass_buffers, TileBuffers.modify_eq _ found, ← of.buffers]
    rfl
  · rw [routes, ← of.routes]
    rfl
  · rw [TileArray.hasRoute, routes]
    by_cases same : other = e
    · rw [same, Function.update_self]
      rfl
    · rw [Function.update_of_ne same]
      rw [turn_left_other same] at some
      exact of.routed other some

section Exchange

variable (of : s.Of q p) {low high : Nat} {address : UInt64} {want : Nat}
  (asks : Asks ((s.left e).map (·.address)) low high address want) {r : Region}
  (among : r ∈ p.fabric.hosts.regions) (inside : r.contains address want = true) {count : Nat}
  (bound : count ≤ want)

include of asks among inside bound

theorem Of.places : ((s.left e).take count).map (fun touch => p.fabric.hosts.place touch.address) =
    List.range' (r.origin + (address.toNat - r.base.toNat)) count := by
  rw [← of.separate.places_range among inside bound, ← asks.take_eq bound, ← List.map_take,
    List.map_map]
  rfl

theorem Of.reads :
    ((s.left e).take count).map (fun touch => s.memory.get (p.fabric.hosts.place touch.address)) =
      (p.memory.read (r.origin + (address.toNat - r.base.toNat)) want).take count := by
  have places := congrArg (List.map s.memory.get) (of.places asks among inside bound)
  have bounds := Region.contains_iff.mp inside
  have away := of.apart r among
  rw [List.map_map] at places
  refine places.trans ?_
  rw [ByteStore.read, ← List.map_take, List.take_range, Nat.min_eq_left bound,
    List.range'_eq_map_range, List.map_map]
  apply List.map_congr_left
  intro i member
  have below := List.mem_range.mp member
  refine (of.memory.outside _ ?_).symm
  change r.origin + (address.toNat - r.base.toNat) + i < q.region.origin ∨
    q.region.origin + Layout.regionSize q.capacity ≤ r.origin + (address.toNat - r.base.toNat) + i
  omega

end Exchange

theorem Of.exchange_ok (of : s.Of q p) {low high : Nat} {address : UInt64} {want : Nat}
    (asks : Asks ((s.left e).map (·.address)) low high address want)
    (holds : p.fabric.hosts.Holds address want) :
    ∃ more p' s', exchange e address want p = .ok more p' ∧ more ≤ want ∧ p.Beside p' ∧
      Run p.fabric.hosts.place s s' ∧ s'.Of q p' ∧
      s'.left = Function.update s.left e ((s.left e).drop more) ∧ s'.moved = s.moved + more := by
  have some_left : s.left e ≠ [] := fun none => by
    have available := asks.want_le
    have positive := asks.some
    rw [none] at available
    exact Nat.not_lt.mpr available positive
  have routed := of.routed e some_left
  obtain ⟨route, known⟩ := Option.isSome_iff_exists.mp routed
  obtain ⟨b, found, whole⟩ := of.sound.current known
  rcases exchange_cases of.sound holds routed asks.some with
    ⟨_, still⟩ | ⟨more, p', done, positive, bound, beside, _, sound⟩
  · exact ⟨0, p, s, still, Nat.zero_le _, Beside.refl p, .refl, of,
      (Function.update_eq_self _ _).symm, rfl⟩
  have lock : TileArray.ready e.direction b = true := by
    by_contra closed
    have still := exchange_barred holds ⟨route, b, known, found, Bool.not_eq_true _ ▸ closed⟩
    cases done.symm.trans still
    exact Nat.lt_irrefl 0 positive
  have some_room : 0 < min want b.room := Nat.lt_min.mpr ⟨asks.some, whole.room⟩
  have available := asks.want_le
  rw [List.length_map] at available
  obtain ⟨r, among, inside, resolved⟩ := holds.resolve_ok
  obtain ⟨fabric, memory⟩ := p
  have taken : ((s.left e).take (min want b.room)).length = min want b.room := by
    rw [List.length_take]
    omega
  have split : s.left e = (s.left e).take (min want b.room) ++ (s.left e).drop (min want b.room) :=
    (List.take_append_drop _ _).symm
  have nonempty : (s.left e).take (min want b.room) ≠ [] :=
    List.length_pos_iff.mp (by rw [taken]; exact some_room)
  have less := Nat.min_le_left want b.room
  cases direction : e.direction with
  | hostToDevice =>
    have step := exchange_fill resolved inside direction
    have length : (memory.read (r.origin + (address.toNat - r.base.toNat)) want).length = want :=
      ByteStore.read_length _ _ _
    have filled := TileArray.fill_ready known found lock (by rwa [length])
    rw [length] at filled
    simp only [onTiles, filled] at step
    cases done.symm.trans step
    have unlocked : b.full = false := by simpa [TileArray.ready, direction] using lock
    have run := of.parted.fill_run (of.routes ▸ known) (of.buffers ▸ found) nonempty split
      (by rw [taken]; exact Nat.min_le_right _ _) direction unlocked
    rw [of.reads asks among inside less, taken] at run
    exact ⟨_, _, _, done, bound, beside, run,
      of.turn known found _ of.memory sound _ _, rfl, rfl⟩
  | deviceToHost =>
    have step := exchange_drain resolved inside direction
    simp only [TileArray.drain_ready known found lock some_room] at step
    have length : (b.front (min want b.room)).length = min want b.room := ByteStore.read_length _ _ _
    rw [length] at step
    cases done.symm.trans step
    have unlocked : b.full = true := by simpa [TileArray.ready, direction] using lock
    have run := of.parted.drain_run (of.routes ▸ known) (of.buffers ▸ found) nonempty split
      (by rw [taken]; exact Nat.min_le_right _ _) direction unlocked
    have wrote := ByteStore.write_eq_scatter s.memory (r.origin + (address.toNat - r.base.toNat))
      (b.front (min want b.room))
    rw [of.places asks among inside less, taken] at run
    rw [length] at wrote
    rw [← wrote] at run
    exact ⟨_, _, _, done, less, beside, run, of.turn known found _ (of.memory.write _ _) sound _ _,
      rfl, rfl⟩

structure Onward (s s' : Scene) (q : Queue) (p p' : Plant) (tally after : Tally) (most : Nat) :
    Prop where
  beside : p.Beside p'
  run : Run p.fabric.hosts.place s s'
  of : s'.Of q p'
  moved : s'.moved + tally.bytes = s.moved + after.bytes
  failed : after.failed = tally.failed
  bytes : after.bytes ≤ tally.bytes + most

theorem Onward.refl (of : s.Of q p) (tally : Tally) : s.Onward s q p p tally tally 0 :=
  ⟨Beside.refl p, .refl, of, rfl, rfl, Nat.le_refl _⟩

theorem Onward.trans {s₁ s' : Scene} {p₁ p' : Plant} {tally tally₁ after : Tally} {most most₁ : Nat}
    (first : s.Onward s₁ q p p₁ tally tally₁ most)
    (second : s₁.Onward s' q p₁ p' tally₁ after most₁) :
    s.Onward s' q p p' tally after (most + most₁) := by
  have run := second.run
  rw [first.beside.hosts] at run
  have moved := first.moved
  have moved' := second.moved
  have bytes := first.bytes
  have bytes' := second.bytes
  exact ⟨first.beside.trans second.beside, first.run.trans run, second.of, by omega,
    second.failed.trans first.failed, by omega⟩

theorem Of.advance_ok (of : s.Of q p) {job : Job} {rest : Touches}
    (left : s.left job.endpoint = job.touches job.addresses ++ rest)
    (hosted : job.Hosted p.fabric.hosts) (narrow : job.addresses.length < UInt64.size) :
    ∃ moved later p' s', advance job p = .ok (moved, later) p' ∧
      moved ≤ job.addresses.length ∧ p.Beside p' ∧ Run p.fabric.hosts.place s s' ∧ s'.Of q p' ∧
      s'.moved = s.moved + moved ∧
      s'.left = Function.update s.left job.endpoint (Job.owed later.toList ++ rest) := by
  obtain ⟨low, high, addressable, within, holds⟩ := hosted
  obtain ⟨moved, later, p', advanced, bound, ⟨s', beside, run, of', count, rest'⟩, _, stops⟩ :=
    advance_steps
      (I := fun bytes p' => ∃ s', p.Beside p' ∧ Run p.fabric.hosts.place s s' ∧ s'.Of q p' ∧
        s'.moved = s.moved + bytes ∧ s'.left = Function.update s.left job.endpoint
          (job.touches (job.addresses.drop bytes) ++ rest))
      (S := fun _ => True) within addressable narrow
      ⟨s, Beside.refl p, .refl, of, rfl, by
        rw [List.drop_zero, ← left, Function.update_eq_self]⟩ (by
        rintro bytes p₁ address want ⟨s₁, beside, run, of₁, count, left₁⟩ asks
        have here : s₁.left job.endpoint = job.touches (job.addresses.drop bytes) ++ rest := by
          rw [left₁, Function.update_self]
        have available := asks.want_le
        obtain ⟨more, p₂, s₂, done, bound, further, run', of₂, left₂, count'⟩ := of₁.exchange_ok
          (e := job.endpoint) (by
            rw [here, List.map_append, Job.touches, List.map_map]
            simpa only [Function.comp_def, List.map_id'] using asks.append _)
          (beside.hosts ▸ holds address want asks.low asks.high)
        rw [beside.hosts] at run'
        refine ⟨more, p₂, done, bound, ⟨s₂, beside.trans further, run.trans run', of₂, by omega, ?_⟩,
          fun _ => trivial⟩
        rw [left₂, here, left₁, Function.update_idem, List.drop_append_of_le_length (by
          rw [Job.touches, List.length_map]; omega), Job.touches, ← List.map_drop, List.drop_drop]
        rfl)
  refine ⟨moved, later, p', s', advanced, bound, beside, run, of', count, ?_⟩
  rw [rest']
  cases later with
  | none =>
    rw [show moved = job.addresses.length from stops, List.drop_length]
    rfl
  | some last =>
    obtain ⟨resumes, _, _⟩ := stops
    simp only [Option.toList_some, Job.owed, List.flatMap_cons, List.flatMap_nil, List.append_nil,
      Job.touches, resumes.addresses, resumes.index, resumes.endpoint]

theorem Of.streamJobs_ok (jobs : List Job) (tally : Tally) (of : s.Of q p)
    (placed : ∀ job ∈ jobs, job.endpoint = e) (left : s.left e = Job.owed jobs)
    (hosted : ∀ job ∈ jobs, job.Hosted p.fabric.hosts)
    (narrow : tally.bytes + (jobs.flatMap Job.addresses).length < UInt64.size) :
    ∃ later after p' s', streamJobs jobs tally p = .ok (later, after) p' ∧
      s.Onward s' q p p' tally after (jobs.flatMap Job.addresses).length ∧
      s'.left = Function.update s.left e (Job.owed later) := by
  induction jobs generalizing tally p s with
  | nil =>
    exact ⟨[], tally, p, s, rfl, .refl of tally, by rw [← left, Function.update_eq_self]⟩
  | cons job jobs ih =>
    rw [List.flatMap_cons, List.length_append] at narrow ⊢
    obtain rfl := placed job List.mem_cons_self
    obtain ⟨moved, last, p₁, s₁, advanced, bound, beside, run, of₁, count, left₁⟩ :=
      of.advance_ok (show _ = _ ++ Job.owed jobs from left) (hosted job List.mem_cons_self) (by omega)
    cases last with
    | some last =>
      refine ⟨_, _, p₁, s₁, streamJobs_stall advanced (by omega),
        ⟨beside, run, of₁, ?_, rfl, ?_⟩, ?_⟩
      · simp only [Tally.add]
        omega
      · simp only [Tally.add]
        omega
      · rw [left₁]
        simp only [Job.owed, Option.toList_some, List.flatMap_cons, List.flatMap_nil, List.append_nil]
    | none =>
      have here : s₁.left job.endpoint = Job.owed jobs := by
        rw [left₁, Function.update_self]
        rfl
      obtain ⟨later, after, p₂, s₂, streamed, onward, left₂⟩ :=
        ih { tally.add moved with finished := tally.finished ++ [job.index] } of₁
          (fun other member => placed other (List.mem_cons_of_mem _ member)) here
          (fun other member => beside.hosts ▸ hosted other (List.mem_cons_of_mem _ member))
          (by simp only [Tally.add]; omega)
      refine ⟨later, after, p₂, s₂, (streamJobs_finish advanced (by omega)).trans streamed,
        ?_, ?_⟩
      · have first : s.Onward s₁ q p p₁ tally
            { tally.add moved with finished := tally.finished ++ [job.index] }
            job.addresses.length := by
          refine ⟨beside, run, of₁, ?_, rfl, ?_⟩ <;> simp only [Tally.add] <;> omega
        exact first.trans onward
      · rw [left₂, left₁, Function.update_idem]

theorem Of.streamFifos_ok (fifos : List Fifo) (tally : Tally) (of : s.Of q p)
    (endpoints : (fifos.map (·.endpoint)).Nodup) (queued : ∀ fifo ∈ fifos, fifo.Queued)
    (left : ∀ fifo ∈ fifos, s.left fifo.endpoint = Job.owed fifo.jobs)
    (hosted : ∀ job ∈ fifos.flatMap (·.jobs), job.Hosted p.fabric.hosts)
    (narrow : tally.bytes + ((fifos.flatMap (·.jobs)).flatMap Job.addresses).length <
      UInt64.size) :
    ∃ later after p' s', streamFifos fifos tally p = .ok (later, after) p' ∧
      s.Onward s' q p p' tally after ((fifos.flatMap (·.jobs)).flatMap Job.addresses).length ∧
      later.map (·.endpoint) = fifos.map (·.endpoint) ∧
      (∀ fifo ∈ later, s'.left fifo.endpoint = Job.owed fifo.jobs) ∧
      ∀ e ∉ fifos.map (·.endpoint), s'.left e = s.left e := by
  induction fifos generalizing tally p s with
  | nil => exact ⟨[], tally, p, s, rfl, .refl of tally, rfl, nofun, fun _ _ => rfl⟩
  | cons fifo fifos ih =>
    rw [List.flatMap_cons] at hosted narrow ⊢
    rw [List.flatMap_append, List.length_append] at narrow ⊢
    obtain ⟨single, distinct⟩ := List.nodup_cons.mp endpoints
    obtain ⟨jobs, tally₁, p₁, s₁, streamed, first, left₁⟩ := of.streamJobs_ok fifo.jobs tally
      (queued fifo List.mem_cons_self).placed (left fifo List.mem_cons_self)
      (fun job member => hosted job (List.mem_append_left _ member)) (by omega)
    have bytes := first.bytes
    have others (other : Fifo) (member : other ∈ fifos) :
        s₁.left other.endpoint = Job.owed other.jobs := by
      have apart : other.endpoint ≠ fifo.endpoint := by
        intro same
        exact single (List.mem_map.mpr ⟨other, member, same⟩)
      rw [left₁, Function.update_of_ne apart]
      exact left other (List.mem_cons_of_mem _ member)
    obtain ⟨later, after, p₂, s₂, further, second, same, left₂, kept⟩ := ih tally₁
      first.of distinct
      (fun other member => queued other (List.mem_cons_of_mem _ member)) others
      (fun job member => first.beside.hosts ▸ hosted job (List.mem_append_right _ member))
      (by omega)
    refine ⟨{ fifo with jobs } :: later, after, p₂, s₂, ?_, first.trans second, ?_, ?_, ?_⟩
    · rw [streamFifos]
      exact (bind_ok streamed).trans (bind_ok further)
    · rw [List.map_cons, List.map_cons, same]
    · refine List.forall_mem_cons.mpr ⟨?_, left₂⟩
      rw [kept _ single, left₁, Function.update_self]
    · intro e outside
      rw [List.map_cons, List.mem_cons, not_or] at outside
      rw [kept e outside.2, left₁, Function.update_of_ne outside.1]

end Scene

end FabricQueue
