import FabricQueue.Proofs.Exchanges

set_option autoImplicit false

namespace FabricQueue

structure Touch where
  endpoint : Endpoint
  index : UInt64
  address : Nat
  deriving DecidableEq, Repr

abbrev Touches := List Touch

namespace Touches

-- Addresses moved for a packet.
def of (touches : Touches) (index : UInt64) : List Nat :=
  (touches.filter (·.index = index)).map (·.address)

def via (touches : Touches) (e : Endpoint) : Touches :=
  touches.filter (·.endpoint = e)

variable {touches : Touches} {index : UInt64} {e : Endpoint}

@[simp]
theorem of_append (first second : Touches) (index : UInt64) :
    of (first ++ second) index = of first index ++ of second index := by
  simp [of]

@[simp]
theorem via_append (first second : Touches) (e : Endpoint) :
    via (first ++ second) e = via first e ++ via second e := by
  simp [via]

theorem of_other (other : ∀ touch ∈ touches, touch.index ≠ index) : of touches index = [] := by
  simpa [of, List.filter_eq_nil_iff] using other

end Touches

namespace Job

def touches (job : Job) (addresses : List Nat) : Touches :=
  addresses.map fun address => ⟨job.endpoint, job.index, address⟩

theorem touches_own {job : Job} {addresses : List Nat} {touch : Touch}
    (member : touch ∈ job.touches addresses) :
    touch.endpoint = job.endpoint ∧ touch.index = job.index := by
  obtain ⟨address, _, rfl⟩ := List.mem_map.mp member
  exact ⟨rfl, rfl⟩

theorem touches_of (job : Job) (addresses : List Nat) :
    Touches.of (job.touches addresses) job.index = addresses := by
  simp [touches, Touches.of, List.filter_map, Function.comp_def]

end Job

inductive Streamed (hosts : HostMap) :
    List Job → Touches → List UInt64 → List UInt64 → List Job → Prop where
  | empty : Streamed hosts [] [] [] [] []
  | finish {job : Job} {later left : List Job} {touches : Touches} {finished failed : List UInt64}
      (rest : Streamed hosts later touches finished failed left) :
      Streamed hosts (job :: later) (job.touches job.addresses ++ touches) (job.index :: finished)
        failed left
  | fail {job : Job} {later left : List Job} {touches : Touches} {finished failed : List UInt64}
      (rest : Streamed hosts later touches finished failed left) :
      Streamed hosts (job :: later) touches finished (job.index :: failed) left
  | stall {job last : Job} {later : List Job} {moved : List Nat} (index : last.index = job.index)
      (endpoint : last.endpoint = job.endpoint) (hosted : last.Hosted hosts)
      (moves : job.addresses = moved ++ last.addresses) :
      Streamed hosts (job :: later) (job.touches moved) [] [] (last :: later)

-- What streaming does to jobs of any number of FIFOs.
structure Streams (hosts : HostMap) (jobs : List Job) (touches : Touches) (failed : List UInt64)
    (left : List Job) : Prop where
  own : ∀ touch ∈ touches, ∃ job ∈ jobs, job.index = touch.index ∧ job.endpoint = touch.endpoint
  fewer : (left.map (·.index)).Sublist (jobs.map (·.index))
  kept : ∀ later ∈ left, ∃ job ∈ jobs, later.index = job.index ∧ later.endpoint = job.endpoint ∧
    later.Hosted hosts ∧ job.addresses = touches.of job.index ++ later.addresses
  ended : ∀ job ∈ jobs, job.index ∉ left.map (·.index) →
    touches.of job.index = job.addresses ∨ job.index ∈ failed
  failed_own : ∀ index ∈ failed, index ∈ jobs.map (·.index) ∧ index ∉ left.map (·.index) ∧
    touches.of index = []
  rising : ∀ e, (touches.via e).Pairwise (·.index ≤ ·.index)
  before : ∀ touch ∈ touches, ∀ later ∈ left, later.endpoint = touch.endpoint →
    touch.index ≤ later.index
  size : touches.length + (left.flatMap Job.addresses).length ≤
    (jobs.flatMap Job.addresses).length

section OneFifo

variable {hosts : HostMap} {jobs left : List Job} {touches : Touches}
  {finished failed : List UInt64}

structure Fifo.Queued (q : Fifo) : Prop where
  sorted : q.jobs.Pairwise (·.index < ·.index)
  placed : ∀ job ∈ q.jobs, job.endpoint = q.endpoint

section Queued

variable {e : Endpoint} {job : Job} {later : List Job}

theorem Fifo.Queued.rest (queued : Fifo.Queued ⟨e, job :: later⟩) : Fifo.Queued ⟨e, later⟩ :=
  ⟨(List.pairwise_cons.mp queued.sorted).2,
    fun other member => queued.placed other (List.mem_cons_of_mem _ member)⟩

theorem Fifo.Queued.resumed {last : Job} (queued : Fifo.Queued ⟨e, job :: later⟩)
    (index : last.index = job.index) (endpoint : last.endpoint = job.endpoint) :
    Fifo.Queued ⟨e, last :: later⟩ := by
  have parts := List.pairwise_cons.mp queued.sorted
  refine ⟨List.pairwise_cons.mpr ⟨fun other member => ?_, parts.2⟩, fun other member => ?_⟩
  · rw [index]
    exact parts.1 other member
  · rcases List.mem_cons.mp member with rfl | behind
    · rw [endpoint]
      exact queued.placed _ List.mem_cons_self
    · exact queued.placed other (List.mem_cons_of_mem _ behind)

end Queued

theorem Streamed.queued {e : Endpoint} (queued : Fifo.Queued ⟨e, jobs⟩)
    (streamed : Streamed hosts jobs touches finished failed left) : Fifo.Queued ⟨e, left⟩ := by
  induction streamed with
  | empty => exact queued
  | finish rest ih => exact ih queued.rest
  | fail rest ih => exact ih queued.rest
  | stall index endpoint _ _ => exact queued.resumed index endpoint

theorem Streams.untouched (hosted : ∀ job ∈ jobs, job.Hosted hosts) :
    Streams hosts jobs [] [] jobs where
  own _ member := absurd member List.not_mem_nil
  fewer := List.Sublist.refl _
  kept job member := ⟨job, member, rfl, rfl, hosted job member, rfl⟩
  ended _ member gone := absurd (List.mem_map_of_mem member) gone
  failed_own _ member := absurd member List.not_mem_nil
  rising _ := List.Pairwise.nil
  before _ member := absurd member List.not_mem_nil
  size := Nat.le_of_eq (Nat.zero_add _)

theorem Streams.other_index (streams : Streams hosts jobs touches failed left)
    {index : UInt64} (other : ∀ job ∈ jobs, job.index ≠ index) : touches.of index = [] := by
  apply Touches.of_other
  intro touch member same
  obtain ⟨job, among, own, _⟩ := streams.own touch member
  exact other job among (own.trans same)

theorem Streams.left_own (streams : Streams hosts jobs touches failed left)
    {later : Job} (member : later ∈ left) : later.index ∈ jobs.map (·.index) :=
  streams.fewer.subset (List.mem_map_of_mem member)

theorem Streams.follow {job : Job} {moved : List Nat} (fails : List UInt64)
    (streams : Streams hosts jobs touches failed left)
    (first : ∀ other ∈ jobs, job.index < other.index)
    (outcome : moved = job.addresses ∨ moved = [] ∧ job.index ∈ fails)
    (mine : ∀ index ∈ fails, index = job.index ∧ moved = []) :
    Streams hosts (job :: jobs) (job.touches moved ++ touches) (fails ++ failed) left := by
  have fresh {other : Job} (member : other ∈ jobs) : other.index ≠ job.index :=
    fun same => UInt64.lt_irrefl _ (same ▸ first other member)
  have ahead : Touches.of touches job.index = [] :=
    streams.other_index fun other member => fresh member
  have behind {index : UInt64} (other : index ≠ job.index) :
      Touches.of (job.touches moved) index = [] := by
    apply Touches.of_other
    intro touch member same
    exact other (same.symm.trans (Job.touches_own member).2)
  have later_index {index : UInt64} (member : index ∈ jobs.map (·.index)) :
      job.index < index := by
    obtain ⟨other, among, rfl⟩ := List.mem_map.mp member
    exact first other among
  constructor
  case own =>
    intro touch member
    rcases List.mem_append.mp member with now | rest
    · obtain ⟨endpoint, index⟩ := Job.touches_own now
      exact ⟨job, List.mem_cons_self, index.symm, endpoint.symm⟩
    · obtain ⟨other, among, own⟩ := streams.own touch rest
      exact ⟨other, List.mem_cons_of_mem _ among, own⟩
  case fewer => exact streams.fewer.cons _
  case kept =>
    intro later member
    obtain ⟨other, among, index, endpoint, hosted, moves⟩ := streams.kept later member
    refine ⟨other, List.mem_cons_of_mem _ among, index, endpoint, hosted, ?_⟩
    rw [Touches.of_append, behind (fresh among), List.nil_append, moves]
  case ended =>
    intro other member gone
    rcases List.mem_cons.mp member with rfl | among
    · rw [Touches.of_append, Job.touches_of, ahead, List.append_nil]
      exact outcome.imp id fun failing => List.mem_append_left _ failing.2
    · rw [Touches.of_append, behind (fresh among), List.nil_append]
      exact (streams.ended other among gone).imp id fun late => List.mem_append_right _ late
  case failed_own =>
    intro index member
    rcases List.mem_append.mp member with now | rest
    · obtain ⟨rfl, none⟩ := mine index now
      refine ⟨List.mem_cons_self, fun late => ?_, ?_⟩
      · obtain ⟨later, among, same⟩ := List.mem_map.mp late
        exact UInt64.lt_irrefl _ (same ▸ later_index (streams.left_own among))
      · rw [Touches.of_append, ahead, none]
        rfl
    · obtain ⟨own, gone, still⟩ := streams.failed_own index rest
      have other : index ≠ job.index := fun same => UInt64.lt_irrefl _ (same ▸ later_index own)
      exact ⟨List.mem_cons_of_mem _ own, gone, by rw [Touches.of_append, behind other, still]; rfl⟩
  case rising =>
    intro e
    rw [Touches.via_append]
    refine List.pairwise_append.mpr ⟨?_, streams.rising e, ?_⟩
    · refine List.Pairwise.filter _ (List.pairwise_map.mpr ?_)
      exact List.pairwise_of_forall fun _ _ => UInt64.le_refl _
    · intro touch now other rest
      obtain ⟨among, member, own, _⟩ := streams.own other (List.mem_of_mem_filter rest)
      rw [(Job.touches_own (List.mem_of_mem_filter now)).2, ← own]
      exact UInt64.le_of_lt (first among member)
  case before =>
    intro touch member later among endpoint
    rcases List.mem_append.mp member with now | rest
    · rw [(Job.touches_own now).2]
      exact UInt64.le_of_lt (later_index (streams.left_own among))
    · exact streams.before touch rest later among endpoint
  case size =>
    have counted := streams.size
    have mine : moved.length ≤ job.addresses.length := by
      rcases outcome with whole | ⟨none, _⟩
      · rw [whole]
      · rw [none]; exact Nat.zero_le _
    rw [List.length_append, Job.touches, List.length_map, List.flatMap_cons, List.length_append]
    omega

theorem Streams.halt {job last : Job} {moved : List Nat} (hosted : ∀ other ∈ jobs, other.Hosted hosts)
    (first : ∀ other ∈ jobs, job.index < other.index) (index : last.index = job.index)
    (endpoint : last.endpoint = job.endpoint) (left : last.Hosted hosts)
    (moves : job.addresses = moved ++ last.addresses) :
    Streams hosts (job :: jobs) (job.touches moved) [] (last :: jobs) := by
  constructor
  case own =>
    intro touch member
    obtain ⟨endpoint, index⟩ := Job.touches_own member
    exact ⟨job, List.mem_cons_self, index.symm, endpoint.symm⟩
  case fewer => rw [List.map_cons, List.map_cons, index]
  case kept =>
    intro later member
    rcases List.mem_cons.mp member with rfl | among
    · exact ⟨job, List.mem_cons_self, index, endpoint, left, by rw [Job.touches_of, moves]⟩
    · refine ⟨later, List.mem_cons_of_mem _ among, rfl, rfl, hosted later among, ?_⟩
      rw [Touches.of_other, List.nil_append]
      intro touch now same
      rw [(Job.touches_own now).2] at same
      exact UInt64.lt_irrefl _ (same ▸ first later among)
  case ended =>
    intro other member gone
    refine absurd ?_ gone
    rcases List.mem_cons.mp member with rfl | among
    · exact index ▸ List.mem_cons_self
    · exact List.mem_cons_of_mem _ (List.mem_map_of_mem among)
  case failed_own => exact fun _ member => absurd member List.not_mem_nil
  case rising =>
    intro e
    refine List.Pairwise.filter _ (List.pairwise_map.mpr ?_)
    exact List.pairwise_of_forall fun _ _ => UInt64.le_refl _
  case before =>
    intro touch member later among _
    rw [(Job.touches_own member).2]
    rcases List.mem_cons.mp among with rfl | behind
    · exact UInt64.le_of_eq index.symm
    · exact UInt64.le_of_lt (first later behind)
  case size =>
    have counted := congrArg List.length moves
    rw [List.length_append] at counted
    simp only [Job.touches, List.length_map, List.flatMap_cons, List.length_append]
    omega

theorem Streamed.streams (streamed : Streamed hosts jobs touches finished failed left)
    (hosted : ∀ job ∈ jobs, job.Hosted hosts) (sorted : jobs.Pairwise (·.index < ·.index)) :
    Streams hosts jobs touches failed left := by
  induction streamed with
  | empty => exact Streams.untouched nofun
  | @finish job later left touches finished failed rest ih =>
    have parts := List.pairwise_cons.mp sorted
    have after := ih (fun other member => hosted other (List.mem_cons_of_mem _ member)) parts.2
    exact after.follow [] parts.1 (.inl rfl) nofun
  | @fail job later left touches finished failed rest ih =>
    have parts := List.pairwise_cons.mp sorted
    have after := ih (fun other member => hosted other (List.mem_cons_of_mem _ member)) parts.2
    have none : ([] : List Nat) = job.addresses ∨ ([] : List Nat) = [] ∧ job.index ∈ [job.index] :=
      .inr ⟨rfl, List.mem_singleton_self _⟩
    exact after.follow [job.index] parts.1 none
      fun _ member => ⟨List.mem_singleton.mp member, rfl⟩
  | stall index endpoint left moves =>
    have parts := List.pairwise_cons.mp sorted
    exact Streams.halt (fun other member => hosted other (List.mem_cons_of_mem _ member)) parts.1
      index endpoint left moves

theorem Streams.append {jobs' left' : List Job} {touches' : Touches} {failed' : List UInt64}
    (first : Streams hosts jobs touches failed left)
    (second : Streams hosts jobs' touches' failed' left')
    (distinct : ((jobs ++ jobs').map (·.index)).Nodup)
    (apart : ∀ job ∈ jobs, ∀ job' ∈ jobs', job.endpoint ≠ job'.endpoint) :
    Streams hosts (jobs ++ jobs') (touches ++ touches') (failed ++ failed') (left ++ left') := by
  rw [List.map_append] at distinct
  have disjoint := List.disjoint_of_nodup_append distinct
  have mine {index : UInt64} (own : index ∈ jobs.map (·.index)) : touches'.of index = [] :=
    second.other_index fun job member same => disjoint own (same ▸ List.mem_map_of_mem member)
  have yours {index : UInt64} (own : index ∈ jobs'.map (·.index)) : touches.of index = [] :=
    first.other_index fun job member same => disjoint (same ▸ List.mem_map_of_mem member) own
  constructor
  case own =>
    intro touch member
    rcases List.mem_append.mp member with old | new
    · obtain ⟨job, among, own⟩ := first.own touch old
      exact ⟨job, List.mem_append_left _ among, own⟩
    · obtain ⟨job, among, own⟩ := second.own touch new
      exact ⟨job, List.mem_append_right _ among, own⟩
  case fewer => rw [List.map_append, List.map_append]; exact first.fewer.append second.fewer
  case kept =>
    intro later member
    rcases List.mem_append.mp member with old | new
    · obtain ⟨job, among, index, endpoint, hosted, moves⟩ := first.kept later old
      refine ⟨job, List.mem_append_left _ among, index, endpoint, hosted, ?_⟩
      rw [Touches.of_append, mine (List.mem_map_of_mem among), List.append_nil, moves]
    · obtain ⟨job, among, index, endpoint, hosted, moves⟩ := second.kept later new
      refine ⟨job, List.mem_append_right _ among, index, endpoint, hosted, ?_⟩
      rw [Touches.of_append, yours (List.mem_map_of_mem among), List.nil_append, moves]
  case ended =>
    intro job member gone
    rw [List.map_append, List.mem_append, not_or] at gone
    rw [Touches.of_append]
    rcases List.mem_append.mp member with old | new
    · rw [mine (List.mem_map_of_mem old), List.append_nil]
      exact (first.ended job old gone.1).imp id fun late => List.mem_append_left _ late
    · rw [yours (List.mem_map_of_mem new), List.nil_append]
      exact (second.ended job new gone.2).imp id fun late => List.mem_append_right _ late
  case failed_own =>
    intro index member
    rw [List.map_append, List.map_append, List.mem_append, List.mem_append, not_or,
      Touches.of_append]
    rcases List.mem_append.mp member with old | new
    · obtain ⟨own, gone, still⟩ := first.failed_own index old
      refine ⟨.inl own, ⟨gone, fun late => ?_⟩, by rw [still, mine own]; rfl⟩
      obtain ⟨later, among, rfl⟩ := List.mem_map.mp late
      exact disjoint own (second.left_own among)
    · obtain ⟨own, gone, still⟩ := second.failed_own index new
      refine ⟨.inr own, ⟨fun late => ?_, gone⟩, by rw [still, yours own]; rfl⟩
      obtain ⟨later, among, rfl⟩ := List.mem_map.mp late
      exact disjoint (first.left_own among) own
  case rising =>
    intro e
    rw [Touches.via_append]
    refine List.pairwise_append.mpr ⟨first.rising e, second.rising e, ?_⟩
    intro touch old other new
    obtain ⟨job, among, _, here⟩ := first.own touch (List.mem_of_mem_filter old)
    obtain ⟨job', among', _, there⟩ := second.own other (List.mem_of_mem_filter new)
    have same := (List.mem_filter.mp old).2
    have same' := (List.mem_filter.mp new).2
    simp only [decide_eq_true_eq] at same same'
    exact absurd (by rw [here, there, same, same']) (apart job among job' among')
  case before =>
    intro touch member later among endpoint
    rcases List.mem_append.mp member with old | new <;>
      rcases List.mem_append.mp among with left | left
    · exact first.before touch old later left endpoint
    · obtain ⟨job, own, _, here⟩ := first.own touch old
      obtain ⟨job', own', _, there, _⟩ := second.kept later left
      exact absurd (by rw [here, ← there, endpoint]) (apart job own job' own')
    · obtain ⟨job', own', _, here⟩ := second.own touch new
      obtain ⟨job, own, _, there, _⟩ := first.kept later left
      exact absurd (by rw [here, ← there, endpoint]) (apart job own job' own')
    · exact second.before touch new later left endpoint
  case size =>
    have low := first.size
    have high := second.size
    simp only [List.flatMap_append, List.length_append]
    omega

end OneFifo

namespace Plant

variable {p : Plant}

def jobsTouches : List Job → Plant → Touches
  | [], _ => []
  | job :: later, p =>
    job.touches (advanceTouches job p) ++
      match advance job p with
      | .ok (_, none) p' => jobsTouches later p'
      | .error (.error _) p' => jobsTouches later p'
      | _ => []

def fifosTouches : List Fifo → Tally → Plant → Touches
  | [], _, _ => []
  | fifo :: rest, tally, p =>
    jobsTouches fifo.jobs p ++
      match streamJobs fifo.jobs tally p with
      | .ok (_, tally) p' => fifosTouches rest tally p'
      | .error _ _ => []

def Tally.add (tally : Tally) (moved : Nat) : Tally :=
  { tally with bytes := tally.bytes + moved, moved := tally.moved || decide (0 < moved) }

theorem Tally.add_moved {tally : Tally} {moved : Nat} (still : (tally.add moved).moved = false) :
    tally.moved = false ∧ moved = 0 := by
  simp only [Tally.add, Bool.or_eq_false_iff, decide_eq_false_iff_not, Nat.not_lt,
    Nat.le_zero] at still
  exact still

theorem count_cases {a b n : Nat} {p' : Plant} (counted : count a b p = .ok n p') :
    n = a + b ∧ p' = p := by
  have known := count_yields (p := p) a b fun _ => False
  rwa [counted] at known

theorem count_ok {a b : Nat} (fits : a + b < UInt64.size) : count a b p = .ok (a + b) p := by
  rw [count, if_pos fits]
  rfl

section Cases

variable {p' : Plant} {job : Job} {later : List Job} {tally : Tally} {moved : Nat}

theorem streamJobs_stall {last : Job} (advanced : advance job p = .ok (moved, some last) p')
    (fits : tally.bytes + moved < UInt64.size) :
    streamJobs (job :: later) tally p = .ok (last :: later, tally.add moved) p' := by
  unfold streamJobs
  exact (bind_ok (attempt_ok advanced)).trans (bind_ok (count_ok fits))

theorem streamJobs_finish (advanced : advance job p = .ok (moved, none) p')
    (fits : tally.bytes + moved < UInt64.size) :
    streamJobs (job :: later) tally p = streamJobs later
      { tally.add moved with finished := tally.finished ++ [job.index] } p' := by
  rw [streamJobs]
  exact (bind_ok (attempt_ok advanced)).trans (bind_ok (count_ok fits))

theorem streamJobs_fail {e : Error} (refused : advance job p = .error (.error e) p') :
    streamJobs (job :: later) tally p =
      streamJobs later { tally with failed := tally.failed ++ [(job.index, e)] } p' := by
  rw [streamJobs]
  exact bind_ok (attempt_error refused)

end Cases

structure Tallies (tally after : Tally) (touches : Touches) (finished failed : List UInt64) :
    Prop where
  finished : after.finished = tally.finished ++ finished
  failed : after.failed.map Prod.fst = tally.failed.map Prod.fst ++ failed
  bytes : after.bytes = tally.bytes + touches.length

theorem streamJobs_streamed (jobs : List Job) (tally : Tally)
    (hosted : ∀ job ∈ jobs, job.Hosted p.fabric.hosts)
    (narrow : tally.bytes + (jobs.flatMap Job.addresses).length < UInt64.size) :
    ∃ left after p' finished failed, streamJobs jobs tally p = .ok (left, after) p' ∧
      p.Beside p' ∧ Streamed p.fabric.hosts jobs (jobsTouches jobs p) finished failed left ∧
      Tallies tally after (jobsTouches jobs p) finished failed := by
  induction jobs generalizing tally p with
  | nil => exact ⟨[], tally, p, [], [], rfl, Beside.refl p, .empty, by simp, by simp, rfl⟩
  | cons job later ih =>
    rw [List.flatMap_cons, List.length_append] at narrow
    have mine := hosted job List.mem_cons_self
    have others {q : Plant} (beside : p.Beside q) : ∀ job ∈ later, job.Hosted q.fabric.hosts :=
      fun job member => beside.hosts ▸ hosted job (List.mem_cons_of_mem _ member)
    by_cases routed : job.addresses ≠ [] → p.fabric.tiles.hasRoute job.endpoint = true
    · obtain ⟨left, p₁, advanced, beside, moves⟩ := advance_routed mine (by omega) routed
      have fits : tally.bytes + (advanceTouches job p).length < UInt64.size := by
        have size : (advanceTouches job p).length ≤ job.addresses.length := by
          cases left with
          | none => exact Nat.le_of_eq (congrArg List.length moves)
          | some last => simp [moves.2.2.2]
        omega
      cases left with
      | some last =>
        obtain ⟨index, endpoint, left, moves⟩ := moves
        have touches : jobsTouches (job :: later) p = job.touches (advanceTouches job p) := by
          simp only [jobsTouches, advanced, List.append_nil]
        refine ⟨_, _, p₁, [], [], streamJobs_stall advanced fits, beside, ?_,
          (List.append_nil _).symm, (List.append_nil _).symm, ?_⟩
        · rw [touches]; exact .stall index endpoint left moves
        · rw [touches, Job.touches, List.length_map]
          rfl
      | none =>
        simp only at moves
        obtain ⟨left, after, p₂, finished, failed, streamed, further, trace, tallies⟩ :=
          ih (p := p₁) { tally.add (advanceTouches job p).length with
            finished := tally.finished ++ [job.index] } (others beside)
            (by simp only [Tally.add, moves]; omega)
        have touches : jobsTouches (job :: later) p =
            job.touches job.addresses ++ jobsTouches later p₁ := by
          simp only [jobsTouches, advanced, moves]
        refine ⟨left, after, p₂, job.index :: finished, failed,
          (streamJobs_finish advanced fits).trans streamed, beside.trans further, ?_, ?_, ?_, ?_⟩
        · rw [touches]
          rw [beside.hosts] at trace
          exact trace.finish
        · rw [tallies.finished]; simp
        · exact tallies.failed
        · rw [tallies.bytes, touches, List.length_append, Job.touches, List.length_map, moves]
          exact Nat.add_assoc _ _ _
    · obtain ⟨more, unrouted⟩ := Classical.not_imp.mp routed
      obtain ⟨refused, still⟩ := advance_unrouted mine more (Bool.not_eq_true _ ▸ unrouted)
      obtain ⟨left, after, p', finished, failed, streamed, beside, trace, tallies⟩ :=
        ih { tally with failed := tally.failed ++ [(job.index, _)] } (others (Beside.refl p))
          (by simp only; omega)
      have touches : jobsTouches (job :: later) p = jobsTouches later p := by
        simp only [jobsTouches, still, refused]
        rfl
      refine ⟨left, after, p', finished, job.index :: failed, ?_, beside, ?_, tallies.finished, ?_,
        ?_⟩
      · exact (streamJobs_fail refused).trans streamed
      · rw [touches]; exact trace.fail
      · rw [tallies.failed]; simp
      · rw [touches]; exact tallies.bytes

theorem streamFifos_streams (fifos : List Fifo) (tally : Tally)
    (hosted : ∀ job ∈ fifos.flatMap (·.jobs), job.Hosted p.fabric.hosts)
    (queued : ∀ q ∈ fifos, q.Queued) (endpoints : (fifos.map (·.endpoint)).Nodup)
    (distinct : ((fifos.flatMap (·.jobs)).map (·.index)).Nodup)
    (narrow : tally.bytes + ((fifos.flatMap (·.jobs)).flatMap Job.addresses).length <
      UInt64.size) :
    ∃ left after p' finished failed, streamFifos fifos tally p = .ok (left, after) p' ∧
      p.Beside p' ∧ left.map (·.endpoint) = fifos.map (·.endpoint) ∧ (∀ q ∈ left, q.Queued) ∧
      Streams p.fabric.hosts (fifos.flatMap (·.jobs)) (fifosTouches fifos tally p) failed
        (left.flatMap (·.jobs)) ∧
      Tallies tally after (fifosTouches fifos tally p) finished failed := by
  induction fifos generalizing tally p with
  | nil =>
    exact ⟨[], tally, p, [], [], rfl, Beside.refl p, rfl, nofun, Streams.untouched nofun, by simp,
      by simp, rfl⟩
  | cons fifo rest ih =>
    rw [List.flatMap_cons] at hosted distinct narrow ⊢
    rw [List.flatMap_append, List.length_append] at narrow
    rw [List.map_cons, List.nodup_cons] at endpoints
    have parts := List.nodup_append.mp (List.map_append ▸ distinct)
    have mine := queued fifo List.mem_cons_self
    obtain ⟨jobs, tally₁, p₁, finished, failed, streamed, beside, trace, tallies⟩ :=
      streamJobs_streamed fifo.jobs tally
        (fun job member => hosted job (List.mem_append_left _ member)) (by omega)
    have first := trace.streams (fun job member => hosted job (List.mem_append_left _ member))
      mine.sorted
    have size := first.size
    obtain ⟨left, after, p₂, finished', failed', ran, further, kept, still, second, tallies'⟩ :=
      ih (p := p₁) tally₁
        (fun job member => beside.hosts ▸ hosted job (List.mem_append_right _ member))
        (fun q member => queued q (List.mem_cons_of_mem _ member)) endpoints.2 parts.2.1
        (by rw [tallies.bytes]; omega)
    have touches : fifosTouches (fifo :: rest) tally p =
        jobsTouches fifo.jobs p ++ fifosTouches rest tally₁ p₁ := by
      simp only [fifosTouches, streamed]
    refine ⟨{ fifo with jobs } :: left, after, p₂, finished ++ finished', failed ++ failed', ?_,
      beside.trans further, ?_, ?_, ?_, ?_, ?_, ?_⟩
    · rw [streamFifos]
      exact (bind_ok streamed).trans (bind_ok ran)
    · rw [List.map_cons, List.map_cons, kept]
    · intro q member
      rcases List.mem_cons.mp member with rfl | later
      · exact trace.queued mine
      · exact still q later
    · rw [touches]
      rw [beside.hosts] at second
      refine first.append second distinct fun job member job' member' same => ?_
      obtain ⟨q, among, holds⟩ := List.mem_flatMap.mp member'
      rw [mine.placed job member, (queued q (List.mem_cons_of_mem _ among)).placed job' holds]
        at same
      exact endpoints.1 (same ▸ List.mem_map_of_mem among)
    · rw [tallies'.finished, tallies.finished, List.append_assoc]
    · rw [tallies'.failed, tallies.failed, List.append_assoc]
    · rw [tallies'.bytes, tallies.bytes, touches, List.length_append, Nat.add_assoc]

section Walks

variable {p p' : Plant} {tally after : Tally}

-- What relates a line of jobs to how it ends, if each of the three ways a job can go keeps it.
theorem streamJobs_induction {R : List Job → Tally → Plant → List Job → Tally → Plant → Prop}
    (none : ∀ tally p, R [] tally p [] tally p)
    (stall : ∀ {job last : Job} {later : List Job} {tally : Tally} {moved : Nat} {p p'},
      advance job p = .ok (moved, some last) p' →
      R (job :: later) tally p (last :: later) (tally.add moved) p')
    (finish : ∀ {job : Job} {later left : List Job} {tally after : Tally} {moved : Nat} {p p₁ p'},
      advance job p = .ok (moved, .none) p₁ →
      R later { tally.add moved with finished := tally.finished ++ [job.index] } p₁ left after p' →
      R (job :: later) tally p left after p')
    (fail : ∀ {job : Job} {later left : List Job} {tally after : Tally} {e : Error} {p p₁ p'},
      advance job p = .error (.error e) p₁ →
      R later { tally with failed := tally.failed ++ [(job.index, e)] } p₁ left after p' →
      R (job :: later) tally p left after p')
    {jobs left : List Job} (streamed : streamJobs jobs tally p = .ok (left, after) p') :
    R jobs tally p left after p' := by
  induction jobs generalizing tally p with
  | nil =>
    cases streamed
    exact none _ _
  | cons job later ih =>
    obtain ⟨result, p₁, attempted, further⟩ := bind_cases streamed
    rcases attempt_cases attempted with ⟨e, rfl, refused⟩ | ⟨⟨moved, rest⟩, rfl, advanced⟩
    · exact fail refused (ih further)
    obtain ⟨bytes, p₂, counted, ended⟩ := bind_cases further
    obtain ⟨rfl, rfl⟩ := count_cases counted
    cases rest with
    | none => exact finish advanced (ih ended)
    | some last =>
      cases ended
      exact stall advanced

theorem streamFifos_induction {R : List Fifo → Tally → Plant → List Fifo → Tally → Plant → Prop}
    (none : ∀ tally p, R [] tally p [] tally p)
    (cons : ∀ {fifo : Fifo} {rest left : List Fifo} {jobs : List Job} {tally tally₁ after : Tally}
      {p p₁ p'}, streamJobs fifo.jobs tally p = .ok (jobs, tally₁) p₁ →
      R rest tally₁ p₁ left after p' →
      R (fifo :: rest) tally p ({ fifo with jobs } :: left) after p')
    {fifos left : List Fifo} (streamed : streamFifos fifos tally p = .ok (left, after) p') :
    R fifos tally p left after p' := by
  induction fifos generalizing tally p left with
  | nil =>
    cases streamed
    exact none _ _
  | cons fifo rest ih =>
    rw [streamFifos] at streamed
    obtain ⟨⟨jobs, tally₁⟩, p₁, first, streamed⟩ := bind_cases streamed
    obtain ⟨⟨others, tally₂⟩, p₂, second, streamed⟩ := bind_cases streamed
    cases streamed
    exact cons first (ih second)

structure Advances (job : Job) (left : Option Job) (p p' : Plant) : Prop where
  hosted : job.Hosted p.fabric.hosts
  narrow : job.addresses.length < UInt64.size
  routed : job.addresses ≠ [] → p.fabric.tiles.hasRoute job.endpoint = true
  ran : advance job p = .ok ((advanceTouches job p).length, left) p'
  beside : p.Beside p'
  size : (advanceTouches job p).length ≤ job.addresses.length

theorem hosted_advances {job : Job} (hosted : job.Hosted p.fabric.hosts)
    (narrow : job.addresses.length < UInt64.size) :
    (∃ left p', Advances job left p p') ∨
      job.addresses ≠ [] ∧ p.fabric.tiles.hasRoute job.endpoint = false := by
  by_cases routed : job.addresses ≠ [] → p.fabric.tiles.hasRoute job.endpoint = true
  · obtain ⟨left, p', advanced, beside, moves⟩ := advance_routed hosted narrow routed
    refine .inl ⟨left, p', hosted, narrow, routed, advanced, beside, ?_⟩
    cases left with
    | none => exact Nat.le_of_eq (congrArg List.length moves)
    | some last => simp [moves.2.2.2]
  · obtain ⟨more, unrouted⟩ := Classical.not_imp.mp routed
    exact .inr ⟨more, Bool.not_eq_true _ ▸ unrouted⟩

-- The same for jobs in shared memory, of which none fails but for want of a route.
theorem streamJobs_advances {R : List Job → Tally → Plant → List Job → Tally → Plant → Prop}
    (none : ∀ tally p, R [] tally p [] tally p)
    (stall : ∀ {job last : Job} {later : List Job} {tally p p'}, Advances job (some last) p p' →
      R (job :: later) tally p (last :: later) (tally.add (advanceTouches job p).length) p')
    (finish : ∀ {job : Job} {later left : List Job} {tally after : Tally} {p p₁ p'},
      Advances job .none p p₁ →
      R later { tally.add (advanceTouches job p).length with
        finished := tally.finished ++ [job.index] } p₁ left after p' →
      R (job :: later) tally p left after p')
    (fail : ∀ {job : Job} {later left : List Job} {tally after : Tally} {p p'},
      job.Hosted p.fabric.hosts → job.addresses ≠ [] →
      p.fabric.tiles.hasRoute job.endpoint = false →
      R later { tally with
        failed := tally.failed ++ [(job.index, .invalidState (.noRoute job.endpoint))] } p left after
        p' → R (job :: later) tally p left after p')
    {jobs left : List Job} (hosted : ∀ job ∈ jobs, job.Hosted p.fabric.hosts)
    (narrow : tally.bytes + (jobs.flatMap Job.addresses).length < UInt64.size)
    (streamed : streamJobs jobs tally p = .ok (left, after) p') : R jobs tally p left after p' := by
  refine streamJobs_induction (R := fun jobs tally p left after p' =>
    (∀ job ∈ jobs, job.Hosted p.fabric.hosts) →
    tally.bytes + (jobs.flatMap Job.addresses).length < UInt64.size → R jobs tally p left after p')
    ?none ?stall ?finish ?fail streamed hosted narrow
  case none => exact fun tally p _ _ => none tally p
  case stall =>
    intro job last later tally moved p p' advanced hosted narrow
    rw [List.flatMap_cons, List.length_append] at narrow
    have mine := hosted job List.mem_cons_self
    obtain ⟨rest, p₁, advances⟩ | ⟨more, unrouted⟩ := hosted_advances mine (by omega)
    · cases advanced.symm.trans advances.ran
      exact stall advances
    · cases advanced.symm.trans (advance_unrouted mine more unrouted).1
  case finish =>
    intro job later left tally after moved p p₁ p' advanced rest hosted narrow
    rw [List.flatMap_cons, List.length_append] at narrow
    have mine := hosted job List.mem_cons_self
    obtain ⟨_, p₂, advances⟩ | ⟨more, unrouted⟩ := hosted_advances mine (by omega)
    · cases advanced.symm.trans advances.ran
      have size := advances.size
      exact finish advances (rest
        (fun job member => advances.beside.hosts ▸ hosted job (List.mem_cons_of_mem _ member))
        (by simp only [Tally.add]; omega))
    · cases advanced.symm.trans (advance_unrouted mine more unrouted).1
  case fail =>
    intro job later left tally after e p p₁ p' refused rest hosted narrow
    rw [List.flatMap_cons, List.length_append] at narrow
    have mine := hosted job List.mem_cons_self
    obtain ⟨_, p₂, advances⟩ | ⟨more, unrouted⟩ := hosted_advances mine (by omega)
    · cases refused.symm.trans advances.ran
    · cases refused.symm.trans (advance_unrouted mine more unrouted).1
      exact fail mine more unrouted (rest
        (fun job member => hosted job (List.mem_cons_of_mem _ member)) (by simp only; omega))

theorem streamFifos_advances {R : List Fifo → Tally → Plant → List Fifo → Tally → Plant → Prop}
    (none : ∀ tally p, R [] tally p [] tally p)
    (cons : ∀ {fifo : Fifo} {rest left : List Fifo} {jobs : List Job} {tally tally₁ after : Tally}
      {p p₁ p'}, (∀ job ∈ fifo.jobs, job.Hosted p.fabric.hosts) →
      tally.bytes + (fifo.jobs.flatMap Job.addresses).length < UInt64.size →
      streamJobs fifo.jobs tally p = .ok (jobs, tally₁) p₁ → p.Beside p₁ →
      R rest tally₁ p₁ left after p' →
      R (fifo :: rest) tally p ({ fifo with jobs } :: left) after p')
    {fifos left : List Fifo} (hosted : ∀ job ∈ fifos.flatMap (·.jobs), job.Hosted p.fabric.hosts)
    (queued : ∀ q ∈ fifos, q.Queued)
    (narrow : tally.bytes + ((fifos.flatMap (·.jobs)).flatMap Job.addresses).length < UInt64.size)
    (streamed : streamFifos fifos tally p = .ok (left, after) p') :
    R fifos tally p left after p' := by
  refine streamFifos_induction (R := fun fifos tally p left after p' =>
    (∀ job ∈ fifos.flatMap (·.jobs), job.Hosted p.fabric.hosts) → (∀ q ∈ fifos, q.Queued) →
    tally.bytes + ((fifos.flatMap (·.jobs)).flatMap Job.addresses).length < UInt64.size →
    R fifos tally p left after p') ?none ?cons streamed hosted queued narrow
  case none => exact fun tally p _ _ _ => none tally p
  case cons =>
    intro fifo rest left jobs tally tally₁ after p p₁ p' first others hosted queued narrow
    rw [List.flatMap_cons] at hosted narrow
    rw [List.flatMap_append, List.length_append] at narrow
    have mine := fun job member => hosted job (List.mem_append_left _ member)
    obtain ⟨_, _, _, _, _, ran, beside, trace, tallies⟩ :=
      streamJobs_streamed fifo.jobs tally mine (by omega)
    cases first.symm.trans ran
    have size := (trace.streams mine (queued fifo List.mem_cons_self).sorted).size
    exact cons mine (by omega) ran beside (others
      (fun job member => beside.hosts ▸ hosted job (List.mem_append_right _ member))
      (fun q member => queued q (List.mem_cons_of_mem _ member))
      (by rw [tallies.bytes]; omega))

end Walks

end Plant

end FabricQueue
