import FabricQueue.Proofs.Channels
import FabricQueue.Proofs.Endurance

set_option autoImplicit false

namespace FabricQueue

namespace TileArray

variable {t t' : TileArray} {e : Endpoint} {r : Route}

theorem pass_routes (known : t.routeOf e = some r) (ended : Bool)
    (change : TileBuffer → TileBuffer) : (t.pass e r ended change).hasRoute = t.hasRoute := by
  funext other
  unfold hasRoute
  rw [pass_routeOf known ended change]
  by_cases same : other = e
  · rw [same, Function.update_self, known]
    rfl
  · rw [Function.update_of_ne same]

theorem fill_routes {bytes : List UInt8} {count : Nat} (filled : t.fill e bytes = .ok (count, t')) :
    t'.hasRoute = t.hasRoute := by
  unfold fill at filled
  split at filled
  · cases filled
  next r known =>
    split at filled
    · cases filled; rfl
    · cases filled
      exact pass_routes known _ _

theorem drain_routes {bytes : List UInt8} {limit : Nat} (drained : t.drain e limit = .ok (bytes, t')) :
    t'.hasRoute = t.hasRoute := by
  unfold drain at drained
  split at drained
  · cases drained
  next r known =>
    split at drained
    · cases drained; rfl
    · cases drained
      exact pass_routes known _ _

end TileArray

def Fabric.Routed (f : Fabric) : Prop :=
  ∀ job ∈ f.jobs, f.tiles.hasRoute job.endpoint = true

theorem Fabric.accept_routed {f f' : Fabric} {index : UInt64} {record : Record} {progress : Progress}
    (endpoints : (f.fifos.map (·.endpoint)).Nodup) (routed : f.Routed)
    (accepted : f.accept index record = .ok (progress, f')) :
    f'.Routed ∧ (f'.fifos.map (·.endpoint)).Nodup := by
  cases known : f.admits record with
  | none =>
    obtain ⟨_, _, done, notes⟩ := accept_other index known
    cases accepted.symm.trans done
    rw [notes.rest]
    exact ⟨routed, endpoints⟩
  | some t =>
    obtain ⟨_, here, _⟩ := admits_cases known
    rw [accept_admitted index known] at accepted
    split_ifs at accepted with none fits
    · cases accepted
      exact ⟨routed, endpoints⟩
    · cases accepted
      obtain ⟨fifos, pushed, jobs, distinct⟩ := push_spec (freshJob index t) endpoints
      rw [pushed]
      refine ⟨fun job member => ?_, distinct⟩
      rcases List.mem_cons.mp (jobs.subset member) with rfl | old
      · exact here
      · exact routed job old

namespace Plant

variable {p p' : Plant} {q : Queue} {first : Nat} {moved : Moves} {l : Log}
  {admitted : List Admitted} {touches : Touches} {α : Type}

def routes (p : Plant) : Endpoint → Bool :=
  p.fabric.tiles.hasRoute

theorem onTiles_routes {use : TileArray → Except StateFault (α × TileArray)}
    (keeps : ∀ t a t', use t = .ok (a, t') → t'.hasRoute = t.hasRoute) :
    Fixes routes (onTiles use) := by
  rintro ⟨fabric, memory⟩
  simp only [onTiles]
  cases used : use fabric.tiles with
  | ok result => exact keeps _ _ _ used
  | error fault => rfl

theorem exchange_routes (e : Endpoint) (address : UInt64) (want : Nat) :
    Fixes routes (exchange e address want) := by
  refine Fixes.get.bind fun p => (Fixes.liftedError _).bind fun place => ?_
  cases e.direction with
  | hostToDevice =>
    exact (onMemory_spares _ fun _ _ _ => rfl).bind fun _ => onTiles_routes fun _ _ _ => TileArray.fill_routes
  | deviceToHost =>
    exact (onTiles_routes fun _ _ _ => TileArray.drain_routes).bind fun _ =>
      (onMemory_spares _ fun _ _ _ => rfl).bind fun _ => Fixes.pure _

theorem streamJobs_calm (jobs : List Job) {tally after : Tally} {left : List Job}
    (hosted : ∀ job ∈ jobs, job.Hosted p.fabric.hosts)
    (narrow : tally.bytes + (jobs.flatMap Job.addresses).length < UInt64.size)
    (routed : ∀ job ∈ jobs, p.routes job.endpoint = true)
    (streamed : streamJobs jobs tally p = .ok (left, after) p') :
    after.failed = tally.failed ∧
      (after.moved = false → tally.moved = false ∧ after.bytes = tally.bytes) := by
  refine streamJobs_advances (R := fun jobs tally p _ after _ =>
    (∀ job ∈ jobs, p.routes job.endpoint = true) → after.failed = tally.failed ∧
      (after.moved = false → tally.moved = false ∧ after.bytes = tally.bytes))
    ?none ?stall ?finish ?fail hosted narrow streamed routed
  case none => exact fun _ _ _ => ⟨rfl, fun quiet => ⟨quiet, rfl⟩⟩
  case stall =>
    intro job last later tally p p' _ _
    refine ⟨rfl, fun quiet => ?_⟩
    obtain ⟨before, none⟩ := Tally.add_moved quiet
    exact ⟨before, by rw [Tally.add, none, Nat.add_zero]⟩
  case finish =>
    intro job later left tally after p p₁ p' advances rest routed
    have same := (stream_fixes exchange_routes _ _ _).ok advances.ran
    obtain ⟨failed, quiet'⟩ :=
      rest fun job member => same ▸ routed job (List.mem_cons_of_mem _ member)
    refine ⟨failed, fun quiet => ?_⟩
    obtain ⟨still, counted⟩ := quiet' quiet
    obtain ⟨before, none⟩ := Tally.add_moved still
    exact ⟨before, counted.trans (by simp only [Tally.add, none, Nat.add_zero])⟩
  case fail =>
    intro job later left tally after p p' _ _ unrouted _ routed
    exact absurd (routed job List.mem_cons_self) (Bool.not_eq_true _ ▸ unrouted)

theorem streamFifos_calm (fifos : List Fifo) {tally after : Tally} {left : List Fifo}
    (hosted : ∀ job ∈ fifos.flatMap (·.jobs), job.Hosted p.fabric.hosts)
    (queued : ∀ q ∈ fifos, q.Queued)
    (narrow : tally.bytes + ((fifos.flatMap (·.jobs)).flatMap Job.addresses).length < UInt64.size)
    (routed : ∀ job ∈ fifos.flatMap (·.jobs), p.routes job.endpoint = true)
    (streamed : streamFifos fifos tally p = .ok (left, after) p') :
    after.failed = tally.failed ∧
      (after.moved = false → tally.moved = false ∧ after.bytes = tally.bytes) := by
  refine streamFifos_advances (R := fun fifos tally p _ after _ =>
    (∀ job ∈ fifos.flatMap (·.jobs), p.routes job.endpoint = true) → after.failed = tally.failed ∧
      (after.moved = false → tally.moved = false ∧ after.bytes = tally.bytes))
    ?none ?cons hosted queued narrow streamed routed
  case none => exact fun _ _ _ => ⟨rfl, fun quiet => ⟨quiet, rfl⟩⟩
  case cons =>
    intro fifo rest left jobs tally tally₁ after p p₁ p' mine fits ran _ others routed
    rw [List.flatMap_cons] at routed
    obtain ⟨failed₁, quiet₁⟩ := streamJobs_calm fifo.jobs mine fits
      (fun job member => routed job (List.mem_append_left _ member)) ran
    have same := (streamJobs_fixes exchange_routes _ _).ok ran
    obtain ⟨failed₂, quiet₂⟩ :=
      others fun job member => same ▸ routed job (List.mem_append_right _ member)
    refine ⟨failed₂.trans failed₁, fun quiet => ?_⟩
    obtain ⟨still, counted⟩ := quiet₂ quiet
    obtain ⟨before, same⟩ := quiet₁ still
    exact ⟨before, counted.trans same⟩

theorem execute_routed {order : Order} {some : Bool} (visits : ∀ fifos, (order fifos).Perm fifos)
    (journaled : p.Journaled admitted touches) (narrow : Admitted.bytes admitted < UInt64.size)
    (routed : p.fabric.Routed) (executed : execute order p = .ok some p') :
    p'.fabric.Routed ∧ (some = false → p'.fabric.status = p.fabric.status) := by
  have hosted := journaled.visited_hosted visits
  have here : ∀ job ∈ (order p.fabric.fifos).flatMap (·.jobs), p.routes job.endpoint = true :=
    fun job member => routed job (((visits _).flatMap_right _).subset member)
  obtain ⟨left, tally, p₁, _, _, streamed, beside, _, _, streams, _, fits⟩ :=
    journaled.streamFifos_ok visits narrow
  obtain ⟨failed, quiet⟩ := streamFifos_calm (order p.fabric.fifos) hosted
    (journaled.visited_queued visits) (journaled.visited_narrow visits narrow) here streamed
  have same := (streamFifos_fixes exchange_routes _ _).ok streamed
  cases executed.symm.trans (execute_ok streamed fun _ => fits)
  refine ⟨fun later member => ?_, fun still => ?_⟩
  · obtain ⟨job, among, _, endpoint, _⟩ := streams.kept later member
    change p₁.routes later.endpoint = true
    rw [same, endpoint]
    exact here job among
  · obtain ⟨_, bytes⟩ := quiet (Bool.or_eq_false_iff.mp still).1
    simp only [failed, bytes, List.map_nil, List.append_nil, Nat.add_zero]
    rw [beside.fabric]

theorem fetchNext_routed (count : Nat) {some : Bool}
    (endpoints : (p.fabric.fifos.map (·.endpoint)).Nodup) (routed : p.fabric.Routed)
    (taken : fetchNext count p = .ok some p') : p'.fabric.Routed := by
  induction count generalizing p some with
  | zero =>
    cases taken
    exact routed
  | succ count ih =>
    obtain ⟨failure, m, found⟩ | ⟨record, m, found⟩ :=
      onMemory_cases (p.fabric.consumer.fetch p.fabric.nextFetch) p
    · cases (fetchNext_failed found).symm.trans taken
    cases record with
    | none =>
      cases (fetchNext_none found).symm.trans taken
      exact routed
    | some record =>
      cases accepted : p.fabric.accept p.fabric.nextFetch record with
      | error failure => cases (fetchNext_refused found accepted).symm.trans taken
      | ok result =>
        obtain ⟨routed', distinct⟩ := Fabric.accept_routed endpoints routed accepted
        rw [fetchNext_some found accepted] at taken
        obtain ⟨others, p₂, rest, done⟩ := bind_cases taken
        cases done
        exact ih (by exact distinct) (by exact routed') rest

theorem fetch_routed {some : Bool} (endpoints : (p.fabric.fifos.map (·.endpoint)).Nodup)
    (routed : p.fabric.Routed) (taken : fetch p = .ok some p') : p'.fabric.Routed := by
  obtain ⟨failure, m, read⟩ | ⟨word, m, read⟩ := onMemory_cases p.fabric.consumer.published p
  · cases (fetch_failed read).symm.trans taken
  · rw [fetch_read read] at taken
    exact fetchNext_routed _ (by exact endpoints) (by exact routed) taken

end Plant

end FabricQueue
