import FabricQueue.Proofs.Containment
import FabricQueue.Proofs.Integrity

set_option autoImplicit false

namespace FabricQueue

namespace Job

variable {first job later : Job} {hosts : HostMap}

theorem Streams.trans (before : first.Streams job) (after : job.Streams later) :
    first.Streams later := by
  induction after with
  | start => exact before
  | beat _ ran left ih => exact ih.beat ran left

theorem Streams.continues (inRange : first.chunks.InRange) (streams : first.Streams job) :
    first.Continues job := by
  induction streams with
  | start => exact Continues.refl first
  | @beat job later p p' outcome _ ran left ih =>
    have accounts := Plant.beat_yields (p := p) (ih.inRange inRange)
    rw [ran] at accounts
    cases outcome with
    | finished => cases left
    | stalled after => cases left; exact ih.trans accounts.2.1
    | moved count after => cases left; exact ih.trans accounts.2.1

def Begun (hosts : HostMap) (job : Job) : Prop :=
  ∃ (f f' : Fabric) (t : Transfer), f.hosts = hosts ∧
    f.acceptTransfer job.index t = .ok (.running, f') ∧ (Fabric.freshJob job.index t).Streams job

theorem Begun.streams (begun : job.Begun hosts) (streams : job.Streams later) :
    later.Begun hosts := by
  obtain ⟨f, f', t, same, accepted, before⟩ := begun
  have inRange := (before.continues t.chunks_inRange).inRange t.chunks_inRange
  rw [← (streams.continues inRange).index] at accepted before
  exact ⟨f, f', t, same, accepted, before.trans streams⟩

end Job

namespace Plant

section Left

variable {p p' : Plant}

theorem stream_left {beats moved total : Nat} {job later : Job}
    (ran : stream moved beats job p = .ok (total, some later) p') : job.Streams later := by
  induction beats generalizing moved job p with
  | zero => cases ran; exact .start
  | succ beats ih =>
    obtain ⟨outcome, p₁, beaten, ran⟩ := bind_cases ran
    cases outcome with
    | finished => cases ran
    | stalled after => cases ran; exact Job.Streams.start.beat beaten rfl
    | moved more after =>
      obtain ⟨_, _, _, ran⟩ := bind_cases ran
      exact (Job.Streams.start.beat beaten rfl).trans (ih ran)

theorem streamJobs_left {jobs left : List Job} {tally tally' : Tally}
    (ran : streamJobs jobs tally p = .ok (left, tally') p') :
    ∀ later ∈ left, ∃ job ∈ jobs, job.Streams later := by
  have behind {job : Job} {jobs left : List Job}
      (known : ∀ later ∈ left, ∃ job ∈ jobs, job.Streams later) :
      ∀ later ∈ left, ∃ first ∈ job :: jobs, first.Streams later := fun later member =>
    (known later member).imp fun _ found => ⟨List.mem_cons_of_mem _ found.1, found.2⟩
  refine streamJobs_induction (R := fun jobs _ _ left _ _ =>
    ∀ later ∈ left, ∃ job ∈ jobs, job.Streams later) ?none ?stall ?finish ?fail ran
  case none => exact fun _ _ => nofun
  case stall =>
    intro job last waiting tally moved p p' advanced later member
    rcases List.mem_cons.mp member with rfl | here
    · exact ⟨job, List.mem_cons_self, stream_left advanced⟩
    · exact ⟨later, List.mem_cons_of_mem _ here, .start⟩
  case finish => exact fun _ known => behind known
  case fail => exact fun _ known => behind known

theorem streamFifos_left {fifos left : List Fifo} {tally tally' : Tally}
    (ran : streamFifos fifos tally p = .ok (left, tally') p') :
    ∀ later ∈ left.flatMap (·.jobs), ∃ job ∈ fifos.flatMap (·.jobs), job.Streams later := by
  refine streamFifos_induction (R := fun fifos _ _ left _ _ =>
    ∀ later ∈ left.flatMap (·.jobs), ∃ job ∈ fifos.flatMap (·.jobs), job.Streams later)
    ?none ?cons ran
  case none => exact fun _ _ => nofun
  case cons =>
    intro fifo rest left jobs tally tally₁ after p p₁ p' first second later member
    rw [List.flatMap_cons] at member ⊢
    rcases List.mem_append.mp member with here | there
    · obtain ⟨job, among, streams⟩ := streamJobs_left first later here
      exact ⟨job, List.mem_append_left _ among, streams⟩
    · obtain ⟨job, among, streams⟩ := second later there
      exact ⟨job, List.mem_append_right _ among, streams⟩

end Left

section After

variable {α β γ : Type} {I : Plant → Prop} {p : Plant}

theorem after_bind {x : Work α} {next : α → Work β}
    (failed : ∀ failure p', x p = .error failure p' → I p')
    (done : ∀ a p', x p = .ok a p' → I (after (next a p'))) : I (after ((x >>= next) p)) := by
  cases ran : x p with
  | error failure p' => rw [bind_error ran]; exact failed failure p' ran
  | ok a p' => rw [bind_ok ran]; exact done a p' ran

theorem fixed_bind {part : Plant → γ} {x : Work α} {next : α → Work β} (first : Fixes part x)
    (rest : ∀ a p', x p = .ok a p' → part p' = part p → part (after (next a p')) = part p) :
    part (after ((x >>= next) p)) = part p := by
  have same := first p
  refine after_bind (I := fun p' => part p' = part p) (fun _ _ failed => ?_) fun a p' done => ?_
  · rw [failed] at same; exact same
  · rw [done] at same; exact rest a p' done same

end After

def Upholds {α : Type} (I : Plant → Prop) (x : Work α) : Prop :=
  ∀ p, I p → I (after (x p))

theorem Upholds.bind {α β : Type} {I : Plant → Prop} {x : Work α} {next : α → Work β}
    (first : Upholds I x) (rest : ∀ a, Upholds I (next a)) : Upholds I (x >>= next) := by
  intro p holds
  have before := first p holds
  refine after_bind (fun failure p' failed => ?_) fun a p' done => rest a p' ?_
  · rw [failed] at before; exact before
  · rw [done] at before; exact before

def roster (p : Plant) : HostMap × List Fifo :=
  (p.fabric.hosts, p.fabric.fifos)

-- Every job began with a transfer that was accepted for these host regions.
structure Rooted (hosts : HostMap) (p : Plant) : Prop where
  addresses : p.fabric.hosts = hosts
  begun : ∀ job ∈ p.fabric.jobs, job.Begun hosts

end Plant

theorem Fabric.push_jobs {f : Fabric} {job other : Job} (member : other ∈ (f.push job).jobs) :
    other = job ∨ other ∈ f.jobs := by
  obtain ⟨q, among, inside⟩ := List.mem_flatMap.mp member
  unfold push at among
  split at among
  · obtain ⟨old, known, rfl⟩ := List.mem_map.mp among
    have kept (here : other ∈ old.jobs) : other ∈ f.jobs := List.mem_flatMap.mpr ⟨old, known, here⟩
    split at inside
    · rcases List.mem_append.mp inside with here | new
      · exact .inr (kept here)
      · exact .inl (List.mem_singleton.mp new)
    · exact .inr (kept inside)
  · rcases List.mem_append.mp among with known | new
    · exact .inr (List.mem_flatMap.mpr ⟨q, known, inside⟩)
    · cases List.mem_singleton.mp new
      exact .inl (List.mem_singleton.mp inside)

namespace Plant

namespace Rooted

variable {hosts : HostMap} {p p' : Plant}

theorem of_roster (same : p'.roster = p.roster) (rooted : p.Rooted hosts) : p'.Rooted hosts := by
  obtain ⟨regions, fifos⟩ := Prod.mk.inj same
  refine ⟨regions.trans rooted.addresses, ?_⟩
  rw [Fabric.jobs, fifos]
  exact rooted.begun

theorem spared {α : Type} {x : Work α} (fixes : Fixes roster x) : Upholds (Rooted hosts) x :=
  fun p rooted => rooted.of_roster (fixes_iff.mp fixes p)

theorem accept (index : UInt64) (record : Record) :
    Upholds (Rooted hosts) (onFabric fun f => f.accept index record) := by
  rintro ⟨f, memory⟩ rooted
  simp only [onFabric]
  cases accepted : f.accept index record with
  | error failure => exact rooted
  | ok result =>
    obtain ⟨progress, f'⟩ := result
    refine ⟨(Fabric.accept_premises accepted).2.1.trans rooted.addresses, ?_⟩
    cases Fabric.accept_cases accepted with
    | faulted => exact rooted.begun
    | entered => exact rooted.begun
    | @began t decoded =>
      intro job member
      rcases Fabric.push_jobs member with rfl | old
      · refine ⟨f, f.push (Fabric.freshJob index t), t, rooted.addresses, ?_, .start⟩
        rw [Fabric.accept, decoded] at accepted
        exact accepted
      · exact rooted.begun job old

theorem fetchNext (count : Nat) : Upholds (Rooted hosts) (fetchNext count) := by
  induction count with
  | zero => exact spared (Fixes.pure _)
  | succ count ih =>
    refine Upholds.bind (spared Fixes.get) fun p =>
      Upholds.bind (spared (onMemory_spares _ fun _ _ _ => rfl)) fun record => ?_
    cases record with
    | none => exact spared (Fixes.pure _)
    | some record =>
      exact (accept _ record).bind fun progress => Upholds.bind
        (spared (update_fixes fun _ _ => rfl)) fun _ => ih.bind fun _ => spared (Fixes.pure _)

theorem fetch : Upholds (Rooted hosts) fetch :=
  Upholds.bind (spared Fixes.get) fun _ =>
    Upholds.bind (spared (onMemory_spares _ fun _ _ _ => rfl)) fun _ => fetchNext _

theorem exchange_roster (e : Endpoint) (address : UInt64) (want : Nat) :
    Fixes roster (exchange e address want) :=
  exchange_fixes (fun _ => onMemory_spares _ fun _ _ _ => rfl)
    (fun _ => onTiles_fixes _ fun _ _ _ => rfl) e address want

theorem execute {order : Order} (visits : ∀ fifos, (order fifos).Perm fifos) :
    Upholds (Rooted hosts) (execute order) := by
  intro p rooted
  have same := streamFifos_fixes exchange_roster (order p.fabric.fifos) {} p
  refine after_bind (fun _ _ failed => nomatch failed) fun _ _ got => ?_
  cases got
  refine after_bind (fun failure p₁ failed => ?_) fun ⟨left, tally⟩ p₁ streamed => ?_
  · rw [failed] at same
    exact rooted.of_roster same
  rw [streamed] at same
  have settled : Rooted hosts ⟨{ p₁.fabric with fifos := left }, p₁.memory⟩ := by
    refine ⟨(congrArg Prod.fst same).trans rooted.addresses, fun later member => ?_⟩
    obtain ⟨job, among, streams⟩ := streamFifos_left streamed later member
    have known : job ∈ p.fabric.jobs := ((visits _).flatMap_right _).subset among
    exact (rooted.begun job known).streams streams
  refine after_bind (fun _ _ failed => nomatch failed) fun _ _ updated => ?_
  cases updated
  refine spared ?_ _ settled
  exact (onTiles_fixes _ fun _ _ _ => rfl).bind fun _ =>
    (settleTally_fixes _ fun _ _ _ _ _ => rfl).bind fun _ => Fixes.pure _

theorem pass {order : Order} (visits : ∀ fifos, (order fifos).Perm fifos) :
    Upholds (Rooted hosts) (pass order) := by
  refine fetch.bind fun _ => (execute visits).bind fun _ => Upholds.bind (spared Fixes.get)
    fun p => Upholds.bind (fun q rooted => ?_) fun _ => spared (Fixes.pure _)
  have alike := retireFront_alike p.fabric.inFlight q
  exact rooted.of_roster (Prod.ext alike.hosts alike.fifos)

theorem poll {order : Order} (visits : ∀ fifos, (order fifos).Perm fifos)
    (rooted : p.Rooted hosts) : (p.poll order).2.Rooted hosts := by
  have passed := pass visits p rooted
  unfold Plant.poll
  split
  · cases ran : Plant.pass order p with
    | ok moved p' => rw [ran] at passed; exact passed
    | error failure p' => rw [ran] at passed; exact ⟨passed.addresses, passed.begun⟩
  · exact rooted

end Rooted

theorem Course.rooted {hosts : HostMap} {start p : Plant} {admitted : List Admitted}
    {touches : Touches} (course : Course start admitted touches p) (rooted : start.Rooted hosts) :
    p.Rooted hosts := by
  induction course with
  | start => exact rooted
  | next _ shift ih =>
    cases shift with
    | disturb memory tiles => exact ⟨ih.addresses, ih.begun⟩
    | poll order visits => exact ih.poll visits

theorem spawned_rooted {r : Region} {hosts : HostMap} {tiles : TileArray} {m m' : Memory}
    {f : Fabric} (spawned : Fabric.spawn r hosts tiles m = .ok f m') : Rooted hosts ⟨f, m'⟩ := by
  obtain ⟨same, none, _⟩ := spawn_fresh spawned
  refine ⟨same, fun job member => ?_⟩
  rw [Fabric.jobs, none] at member
  cases member

def beyond (p : Plant) : HostMap × Nat × (Nat → Option UInt8) :=
  (p.fabric.hosts, p.memory.size, fun i =>
    if ∀ r ∈ p.fabric.hosts.regions, i < r.origin ∨ r.origin + r.size ≤ i then
      some (p.memory.get i)
    else none)

theorem beyond_iff {p p' : Plant} : p'.beyond = p.beyond ↔
    p'.fabric.hosts = p.fabric.hosts ∧ p'.memory.size = p.memory.size ∧
      ∀ i, (∀ r ∈ p.fabric.hosts.regions, i < r.origin ∨ r.origin + r.size ≤ i) →
        p'.memory.get i = p.memory.get i := by
  simp only [beyond, Prod.mk.injEq]
  refine and_congr_right fun hosts => and_congr_right fun _ => ?_
  rw [hosts, funext_iff]
  refine forall_congr' fun i => ?_
  by_cases apart : ∀ r ∈ p.fabric.hosts.regions, i < r.origin ∨ r.origin + r.size ≤ i
  · rw [if_pos apart, if_pos apart, Option.some.injEq, forall_prop_of_true apart]
  · rw [if_neg apart, if_neg apart, forall_prop_of_false apart]
    exact iff_of_true rfl trivial

theorem writeBytes_beyond {p : Plant} {r : Region} (member : r ∈ p.fabric.hosts.regions)
    (offset : Nat) (bytes : List UInt8) :
    (after (onMemory (r.writeBytes offset bytes) p)).beyond = p.beyond := by
  obtain ⟨fabric, memory⟩ := p
  unfold onMemory Region.writeBytes Region.access
  cases located : r.locate offset bytes.length 1 with
  | error failure => rfl
  | ok start =>
    have bounds : offset + bytes.length ≤ r.size ∧ start = r.origin + offset := by
      unfold Region.locate at located
      split_ifs at located with short misaligned
      · exact absurd (Nat.mod_one _) misaligned
      · exact ⟨Nat.not_lt.mp short, (Except.ok.inj located).symm⟩
    refine beyond_iff.mpr ⟨rfl, ByteStore.size_write _ _ _, fun i apart => ?_⟩
    have away := apart r member
    exact ByteStore.get_write_apart _ _ _ _ (by omega)

theorem readBytes_beyond (r : Region) (offset want : Nat) :
    Fixes beyond (onMemory (r.readBytes offset want)) := by
  rintro ⟨fabric, memory⟩
  unfold onMemory Region.readBytes Region.access
  cases r.locate offset want 1 <;> rfl

theorem exchange_beyond (e : Endpoint) (address : UInt64) (want : Nat) :
    Fixes beyond (exchange e address want) := by
  refine fixes_iff.mpr fun p => ?_
  refine fixed_bind Fixes.get fun _ _ got _ => ?_
  cases got
  refine fixed_bind (Fixes.liftedError _) fun place q looked _ => ?_
  have found := resolve_yields (p := p) address want
  rw [looked] at found
  obtain ⟨rfl, member⟩ := found
  cases e.direction with
  | hostToDevice =>
    exact fixes_iff.mp
      ((readBytes_beyond _ _ _).bind fun _ => onTiles_fixes _ fun _ _ _ => rfl) q
  | deviceToHost =>
    refine fixed_bind (onTiles_fixes _ fun _ _ _ => rfl) fun bytes p' _ same => ?_
    rw [after_bind_pure]
    refine (writeBytes_beyond ?_ _ _).trans same
    rw [(beyond_iff.mp same).1]
    exact member

theorem advance_beyond (job : Job) : Fixes beyond (advance job) :=
  stream_fixes exchange_beyond _ _ _

theorem execute_beyond (order : Order) : Fixes beyond (execute order) :=
  execute_spares exchange_beyond order (fun _ _ _ => rfl) (fun _ _ _ => rfl) fun _ _ _ _ _ => rfl

theorem outside_of_beyond {p p' : Plant} {q : Queue} (apart : p.fabric.hosts.Apart q)
    (same : p'.beyond = p.beyond) : Site.Outside q p.memory p'.memory := by
  obtain ⟨_, size, kept⟩ := beyond_iff.mp same
  refine ⟨size, fun i low high => kept i fun r member => ?_⟩
  have away := apart r member
  omega

end Plant

theorem Device.streaming_outside {c : Config} {selection : Selection} {m m' : Machine} {d : Device}
    (numbered : m.Numbered) (opened : ofConfig c selection m = .ok d m')
    (software : d.backend = .software) : ∃ home, d.site? m' = some home ∧
      ∀ admitted touches s, Site.Life home admitted touches s →
        (∀ job, Site.Outside home.queue s.plant.memory
          (Plant.after (Plant.advance job s.plant)).memory) ∧
        ∀ order, Site.Outside home.queue s.plant.memory
          (Plant.after (Plant.execute order s.plant)).memory := by
  obtain ⟨home, found, founded, _⟩ := ofConfig_founded numbered opened software
  refine ⟨home, found, fun admitted touches s life => ?_⟩
  have apart : s.plant.fabric.hosts.Apart home.queue := by
    rw [life.hosts, founded.fabric]
    exact founded.apart
  exact ⟨fun job => Plant.outside_of_beyond apart (Plant.fixes_iff.mp (Plant.advance_beyond job) _),
    fun order =>
      Plant.outside_of_beyond apart (Plant.fixes_iff.mp (Plant.execute_beyond order) _)⟩

-- The one check of the extent covers the whole transfer. The jobs that a fabric has at any time are
-- such transfers under way, and the queue of a device is out of their reach.
theorem transfers_contained :
    (∀ (f f' : Fabric) (index : UInt64) (t : Transfer), f.hosts.Disjoint →
      f.acceptTransfer index t = .ok (.running, f') →
        (∀ a, t.Covers a → t.Spans a) ∧ ∃ r ∈ f.hosts.regions,
          f.hosts.resolve t.address t.extent = .ok (r, t.address.toNat - r.base.toNat) ∧
            ∀ job, (Fabric.freshJob index t).Streams job → job.Inside t f.hosts r) ∧
    (∀ (region : Region) (hosts : HostMap) (tiles : TileArray) (m m' : Memory) (f : Fabric)
      (p : Plant) (admitted : List Admitted) (touches : Touches),
      Fabric.spawn region hosts tiles m = .ok f m' → Plant.Course ⟨f, m'⟩ admitted touches p →
        p.Rooted hosts) ∧
    ∀ (c : Config) (selection : Selection) (m m' : Machine) (d : Device), m.Numbered →
      Device.ofConfig c selection m = .ok d m' → d.backend = .software →
        ∃ home, d.site? m' = some home ∧ ∀ admitted touches s, Site.Life home admitted touches s →
          (∀ job, Site.Outside home.queue s.plant.memory
            (Plant.after (Plant.advance job s.plant)).memory) ∧
          ∀ order, Site.Outside home.queue s.plant.memory
            (Plant.after (Plant.execute order s.plant)).memory := by
  refine ⟨fun f f' index t disjoint accepted => ?_, ?_, ?_⟩
  · exact ⟨fun a => Transfer.Covers.spans, Fabric.accepted_inside disjoint accepted⟩
  · intro region hosts tiles m m' f p admitted touches spawned course
    exact course.rooted (Plant.spawned_rooted spawned)
  · intro c selection m m' d numbered opened software
    exact Device.streaming_outside numbered opened software

def sampleFabric (tiles : TileArray) : Fabric :=
  Fabric.started (Queue.opened 0 2 .multi ⟨0, 0, 192, false⟩) ⟨[⟨192, 4096, 64, false⟩]⟩ tiles 0

theorem sampleFabric_spawned : Fabric.spawn ⟨0, 0, 192, false⟩ ⟨[⟨192, 4096, 64, false⟩]⟩ {}
    Site.sampleRing.memory = .ok (sampleFabric {}) Site.sampleRing.memory := by
  have started :=
    Site.sampleRing_opened.tracks.shows.spawn_ok ⟨[⟨192, 4096, 64, false⟩]⟩ {}
  rw [Site.sampleRing_queue] at started
  exact started

-- A packet in the first slot. In this memory the doorbell is zero, so one packet is published.
def samplePublished : Memory :=
  ⟨⟨(List.replicate 64 0 ++
    (Command.transfer (Site.sampleTransfer .hostToDevice 4096)).encode.activated.toBytes ++
      List.replicate 128 0).toArray⟩⟩

-- The fabric with a buffer of one word and that memory.
def samplePacket : Plant :=
  ⟨sampleFabric Plant.sampleNarrow, samplePublished⟩

theorem samplePacket_half : samplePacket.fabric.running = true ∧
    (samplePacket.poll id).2.fabric.jobs.map (·.rest) = [some ⟨4100, 4⟩] := by
  decide +kernel

theorem transfers_contained_sample : ∃ job admitted touches,
    HostMap.Disjoint ⟨[⟨192, 4096, 64, false⟩]⟩ ∧
    Fabric.spawn ⟨0, 0, 192, false⟩ ⟨[⟨192, 4096, 64, false⟩]⟩ {} Site.sampleRing.memory =
      .ok (sampleFabric {}) Site.sampleRing.memory ∧
    Plant.Course ⟨sampleFabric {}, Site.sampleRing.memory⟩ admitted touches
      (samplePacket.poll id).2 ∧
    (samplePacket.poll id).2.fabric.jobs = [job] ∧ job.rest = some ⟨4100, 4⟩ ∧
    (∃ t r, job.Inside t ⟨[⟨192, 4096, 64, false⟩]⟩ r) ∧
    Machine.Numbered {} ∧
    Device.ofConfig Site.sampleConfig .software {} =
      .ok Site.sampleDevice.1 Site.sampleDevice.2 ∧
    Site.sampleDevice.1.backend = .software ∧
    ∃ home, Site.sampleDevice.1.site? Site.sampleDevice.2 = some home ∧
      ∀ job, Site.Outside home.queue home.plant.memory
        (Plant.after (Plant.advance job home.plant)).memory := by
  obtain ⟨accepts, courses, devices⟩ := transfers_contained
  have disjoint : HostMap.Disjoint ⟨[⟨192, 4096, 64, false⟩]⟩ :=
    ⟨List.pairwise_singleton _ _, by decide⟩
  obtain ⟨running, one⟩ := samplePacket_half
  obtain ⟨job, jobs, rest⟩ := List.map_eq_singleton_iff.mp one
  have ready : Plant.Course ⟨sampleFabric {}, Site.sampleRing.memory⟩ [] [] samplePacket :=
    Plant.Course.start.disturb samplePublished Plant.sampleNarrow
  have course := ready.pass running id fun _ => List.Perm.refl _
  obtain ⟨f, f', t, hosts, accepted, streams⟩ :=
    (courses _ _ _ _ _ _ _ _ _ sampleFabric_spawned course).begun job
      (jobs ▸ List.mem_cons_self)
  obtain ⟨_, r, _, _, inside⟩ := accepts f f' job.index t (hosts ▸ disjoint) accepted
  have numbered : Machine.Numbered {} := nofun
  have software := Site.sampleDevice_software
  obtain ⟨home, found, spares⟩ := devices _ _ _ _ _ numbered Site.sampleDevice_opened software
  exact ⟨job, _, _, disjoint, sampleFabric_spawned, course, jobs, rest,
    ⟨t, r, hosts ▸ inside job streams⟩, numbered, Site.sampleDevice_opened, software, home, found,
    (spares _ _ _ .start).1⟩

end FabricQueue
