import FabricQueue.Proofs.Admission
import FabricQueue.Proofs.Passes

set_option autoImplicit false

namespace FabricQueue

namespace Plant

-- Where a plant is left by a step that ended well or failed.
def after {α : Type} : EStateM.Result Failure Plant α → Plant
  | .ok _ p => p
  | .error _ p => p

structure Journaled (p : Plant) (admitted : List Admitted) (touches : Touches) : Prop where
  addressable : p.fabric.Addressable
  endpoints : (p.fabric.fifos.map (·.endpoint)).Nodup
  queued : ∀ q ∈ p.fabric.fifos, q.Queued
  distinct : (p.fabric.jobs.map (·.index)).Nodup
  numbered : admitted.Pairwise (·.1 < ·.1)
  fetched : ∀ packet ∈ admitted, packet.1 < p.fabric.nextFetch
  sized : ∀ packet ∈ admitted, packet.2.addresses.length = packet.2.totalBytes
  jobs : ∀ job ∈ p.fabric.jobs, job.Hosted p.fabric.hosts ∧ ∃ t, (job.index, t) ∈ admitted ∧
    t.endpoint = job.endpoint ∧ t.addresses = touches.of job.index ++ job.addresses
  ended : ∀ packet ∈ admitted, packet.1 ∉ p.fabric.jobs.map (·.index) →
    touches.of packet.1 = packet.2.addresses ∨
      packet.1 ∈ p.fabric.status.faults.map (·.index) ∧
        touches.of packet.1 <+: packet.2.addresses
  alive : ∀ job ∈ p.fabric.jobs, job.index ∉ p.fabric.status.faults.map (·.index)
  faulted : ∀ fault ∈ p.fabric.status.faults, fault.index < p.fabric.nextFetch
  own : ∀ touch ∈ touches, ∃ t, (touch.index, t) ∈ admitted ∧ t.endpoint = touch.endpoint
  rising : ∀ e, (touches.via e).Pairwise (·.index ≤ ·.index)
  before : ∀ touch ∈ touches, ∀ job ∈ p.fabric.jobs, job.endpoint = touch.endpoint →
    touch.index ≤ job.index
  bytes : p.fabric.status.bytesMoved = touches.length
  budget : touches.length + (p.fabric.jobs.flatMap Job.addresses).length ≤
    Admitted.bytes admitted

structure Alike (p p' : Plant) : Prop where
  hosts : p'.fabric.hosts = p.fabric.hosts
  fifos : p'.fabric.fifos = p.fabric.fifos
  next : p'.fabric.nextFetch = p.fabric.nextFetch
  faults : p'.fabric.status.faults = p.fabric.status.faults
  moved : p'.fabric.status.bytesMoved = p.fabric.status.bytesMoved

namespace Journaled

variable {p p' : Plant} {admitted : List Admitted} {touches : Touches}

theorem of_alike (journaled : p.Journaled admitted touches) (alike : p.Alike p') :
    p'.Journaled admitted touches := by
  obtain ⟨hosts, fifos, next, faults, moved⟩ := alike
  have jobs : p'.fabric.jobs = p.fabric.jobs := by rw [Fabric.jobs, fifos, Fabric.jobs]
  obtain ⟨addressable, endpoints, queued, distinct, numbered, fetched, sized, owed, ended, alive,
    faulted, own, rising, before, bytes, budget⟩ := journaled
  rw [Fabric.Addressable, ← hosts] at addressable
  rw [← fifos] at endpoints queued
  rw [← jobs] at distinct owed ended alive before budget
  rw [← hosts] at owed
  rw [← next] at fetched faulted
  rw [← faults] at ended alive faulted
  rw [← moved] at bytes
  exact ⟨addressable, endpoints, queued, distinct, numbered, fetched, sized, owed, ended, alive,
    faulted, own, rising, before, bytes, budget⟩

theorem other_index (journaled : p.Journaled admitted touches) {index : UInt64}
    (beyond : p.fabric.nextFetch ≤ index) : touches.of index = [] := by
  apply Touches.of_other
  rintro touch member rfl
  obtain ⟨t, among, _⟩ := journaled.own touch member
  exact absurd (UInt64.lt_of_lt_of_le (journaled.fetched _ among) beyond) (UInt64.lt_irrefl _)

theorem job_fetched (journaled : p.Journaled admitted touches) {job : Job}
    (member : job ∈ p.fabric.jobs) : job.index < p.fabric.nextFetch := by
  obtain ⟨_, t, among, _⟩ := journaled.jobs job member
  exact journaled.fetched _ among

theorem one_packet (journaled : p.Journaled admitted touches) {packet other : Admitted}
    (member : packet ∈ admitted) (among : other ∈ admitted) (same : packet.1 = other.1) :
    packet = other := by
  have distinct : (admitted.map Prod.fst).Nodup :=
    List.pairwise_map.mpr (journaled.numbered.imp fun less => UInt64.ne_of_lt less)
  exact List.inj_on_of_nodup_map distinct member among same

section Next

variable {f' : Fabric} {flight : List InFlight} {memory : Memory}
  (next : p.fabric.nextFetch < p.fabric.nextFetch + 1)

include next

theorem noted (journaled : p.Journaled admitted touches) {arrived : List Admitted}
    (notes : p.fabric.Notes f' p.fabric.nextFetch)
    (empty : ∀ packet ∈ arrived, packet.1 = p.fabric.nextFetch ∧ packet.2.addresses = [] ∧
      packet.2.totalBytes = 0)
    (one : arrived.Pairwise (·.1 < ·.1)) :
    Journaled ⟨{ f' with inFlight := flight, nextFetch := p.fabric.nextFetch + 1 }, memory⟩
      (admitted ++ arrived) touches := by
  have kept := List.map_subset (·.index) notes.kept
  obtain ⟨rest, bytes, faults⟩ := notes
  have older {fault : Fault} (member : fault ∈ f'.status.faults) :
      fault ∈ p.fabric.status.faults ∨ fault.index = p.fabric.nextFetch := by
    rcases faults with same | ⟨cause, more⟩
    · exact .inl (same ▸ member)
    · rw [more] at member
      exact (List.mem_append.mp member).imp id fun new => by rw [List.mem_singleton.mp new]
  rw [rest]
  refine { journaled with
    numbered := ?numbered, fetched := ?fetched, sized := ?sized, jobs := ?jobs, ended := ?ended
    alive := ?alive, faulted := ?faulted, own := ?own, bytes := bytes.trans journaled.bytes
    budget := ?budget }
  case numbered =>
    refine List.pairwise_append.mpr ⟨journaled.numbered, one, fun packet old other new => ?_⟩
    rw [(empty other new).1]
    exact journaled.fetched packet old
  case fetched =>
    intro packet member
    rcases List.mem_append.mp member with old | new
    · exact UInt64.lt_trans (journaled.fetched packet old) next
    · rw [(empty packet new).1]
      exact next
  case sized =>
    intro packet member
    rcases List.mem_append.mp member with old | new
    · exact journaled.sized packet old
    · obtain ⟨_, none, zero⟩ := empty packet new
      rw [none, zero]
      rfl
  case jobs =>
    intro job member
    obtain ⟨hosted, t, among, owed⟩ := journaled.jobs job member
    exact ⟨hosted, t, List.mem_append_left _ among, owed⟩
  case ended =>
    intro packet member gone
    rcases List.mem_append.mp member with old | new
    · exact (journaled.ended packet old gone).imp id fun late => ⟨kept late.1, late.2⟩
    · obtain ⟨index, none, _⟩ := empty packet new
      rw [none, index]
      exact .inl (journaled.other_index (UInt64.le_refl _))
  case alive =>
    intro job member late
    obtain ⟨fault, among, same⟩ := List.mem_map.mp late
    rcases older among with old | new
    · exact journaled.alive job member (same ▸ List.mem_map_of_mem old)
    · have fetched := journaled.job_fetched member
      rw [← same, new] at fetched
      exact UInt64.lt_irrefl _ fetched
  case faulted =>
    intro fault member
    rcases older member with old | new
    · exact UInt64.lt_trans (journaled.faulted fault old) next
    · rw [new]
      exact next
  case own =>
    intro touch member
    obtain ⟨t, among, endpoint⟩ := journaled.own touch member
    exact ⟨t, List.mem_append_left _ among, endpoint⟩
  case budget =>
    rw [Admitted.bytes_append]
    exact Nat.le_trans journaled.budget (Nat.le_add_right _ _)

theorem begun (journaled : p.Journaled admitted touches) {t : Transfer}
    (hosted : (Fabric.freshJob p.fabric.nextFetch t).Hosted p.fabric.hosts)
    (counted : t.addresses.length = t.totalBytes) :
    Journaled ⟨{ p.fabric.push (Fabric.freshJob p.fabric.nextFetch t) with
      inFlight := flight, nextFetch := p.fabric.nextFetch + 1 }, memory⟩
      (admitted ++ [(p.fabric.nextFetch, t)]) touches := by
  have newest (other : Job) (member : other ∈ p.fabric.jobs) :
      other.index < p.fabric.nextFetch := journaled.job_fetched member
  have still := journaled.other_index (UInt64.le_refl _)
  have queued :=
    Fabric.push_queued (Fabric.freshJob p.fabric.nextFetch t) journaled.queued newest
  obtain ⟨fifos, pushed, perm, endpoints⟩ :=
    Fabric.push_spec (Fabric.freshJob p.fabric.nextFetch t) journaled.endpoints
  rw [pushed] at queued ⊢
  have either {job : Job} (member : job ∈ fifos.flatMap (·.jobs)) :
      job = Fabric.freshJob p.fabric.nextFetch t ∨ job ∈ p.fabric.jobs :=
    List.mem_cons.mp (perm.subset member)
  have fresh {packet : Admitted} (member : packet ∈ [(p.fabric.nextFetch, t)]) :
      packet = (p.fabric.nextFetch, t) := List.mem_singleton.mp member
  refine { journaled with
    endpoints, queued, distinct := ?distinct, numbered := ?numbered, fetched := ?fetched
    sized := ?sized, jobs := ?jobs, ended := ?ended, alive := ?alive, faulted := ?faulted, own := ?own
    before := ?before, budget := ?budget }
  case distinct =>
    refine (perm.map _).nodup_iff.mpr (List.nodup_cons.mpr ⟨fun old => ?_, journaled.distinct⟩)
    obtain ⟨other, among, same⟩ := List.mem_map.mp old
    exact UInt64.lt_irrefl _ (same ▸ newest other among)
  case numbered =>
    refine List.pairwise_append.mpr
      ⟨journaled.numbered, List.pairwise_singleton _ _, fun packet old other new => ?_⟩
    rw [fresh new]
    exact journaled.fetched packet old
  case fetched =>
    intro packet member
    rcases List.mem_append.mp member with old | new
    · exact UInt64.lt_trans (journaled.fetched packet old) next
    · rw [fresh new]
      exact next
  case sized =>
    intro packet member
    rcases List.mem_append.mp member with old | new
    · exact journaled.sized packet old
    · rw [fresh new]
      exact counted
  case jobs =>
    intro job member
    rcases either member with rfl | old
    · refine ⟨hosted, t, List.mem_append_right _ List.mem_cons_self, rfl, ?_⟩
      change t.addresses = touches.of p.fabric.nextFetch ++ t.addresses
      rw [still, List.nil_append]
    · obtain ⟨hosted, t, among, owed⟩ := journaled.jobs job old
      exact ⟨hosted, t, List.mem_append_left _ among, owed⟩
  case ended =>
    intro packet member gone
    have others : (fifos.flatMap (·.jobs)).map (·.index) ⊇ p.fabric.jobs.map (·.index) :=
      List.map_subset _ fun job old => perm.symm.subset (List.mem_cons_of_mem _ old)
    rcases List.mem_append.mp member with old | new
    · exact journaled.ended packet old fun present => gone (others present)
    · rw [fresh new] at gone
      exact absurd (List.mem_map_of_mem (perm.symm.subset List.mem_cons_self)) gone
  case alive =>
    intro job member late
    rcases either member with rfl | old
    · obtain ⟨fault, among, same⟩ := List.mem_map.mp late
      have fetched := journaled.faulted fault among
      rw [same] at fetched
      exact UInt64.lt_irrefl _ fetched
    · exact journaled.alive job old late
  case faulted =>
    exact fun fault member => UInt64.lt_trans (journaled.faulted fault member) next
  case own =>
    intro touch member
    obtain ⟨t, among, endpoint⟩ := journaled.own touch member
    exact ⟨t, List.mem_append_left _ among, endpoint⟩
  case before =>
    intro touch member job among endpoint
    rcases either among with rfl | old
    · obtain ⟨t, fetched, _⟩ := journaled.own touch member
      exact UInt64.le_of_lt (journaled.fetched _ fetched)
    · exact journaled.before touch member job old endpoint
  case budget =>
    have counts := (perm.flatMap_right Job.addresses).length_eq
    have budget := journaled.budget
    rw [List.flatMap_cons, List.length_append] at counts
    rw [Admitted.bytes_append, Admitted.bytes_single, ← counted]
    change touches.length + ((fifos.flatMap (·.jobs)).flatMap Job.addresses).length ≤ _
    rw [counts]
    change touches.length + (t.addresses.length + _) ≤ _
    omega

theorem accepted (journaled : p.Journaled admitted touches) (record : Record)
    (narrow : Admitted.bytes ((p.fabric.admits record).toList.map (p.fabric.nextFetch, ·)) <
      UInt64.size) :
    ∃ progress f', p.fabric.accept p.fabric.nextFetch record = .ok (progress, f') ∧
      (f'.consumer = p.fabric.consumer ∧ f'.hosts = p.fabric.hosts ∧ f'.tiles = p.fabric.tiles) ∧
      p.fabric.status.faults ⊆ f'.status.faults ∧ ∀ flight memory, Journaled
        ⟨{ f' with inFlight := flight, nextFetch := p.fabric.nextFetch + 1 }, memory⟩
        (admitted ++ (p.fabric.admits record).toList.map (p.fabric.nextFetch, ·)) touches := by
  cases known : p.fabric.admits record with
  | none =>
    obtain ⟨progress, f', accepted, notes⟩ := Fabric.accept_other p.fabric.nextFetch known
    refine ⟨progress, f', accepted, by rw [notes.rest]; exact ⟨rfl, rfl, rfl⟩, notes.kept, ?_⟩
    exact fun _ _ => journaled.noted next notes nofun .nil
  | some t =>
    rw [known] at narrow
    have accepted := Fabric.accept_admitted p.fabric.nextFetch known
    simp only [Option.toList_some, List.map_cons, List.map_nil, Admitted.bytes_single] at narrow ⊢
    by_cases none : t.totalBytes = 0
    · rw [if_pos none] at accepted
      refine ⟨_, _, accepted, ⟨rfl, rfl, rfl⟩, List.Subset.refl _, fun _ _ => ?_⟩
      refine journaled.noted next (Fabric.Notes.refl _ _) (fun packet member => ?_)
        (List.pairwise_singleton _ _)
      rw [List.mem_singleton.mp member]
      exact ⟨rfl, Fabric.admitted_empty none, none⟩
    · rw [if_neg none, if_pos narrow] at accepted
      obtain ⟨hosted, counted⟩ := Fabric.admitted_hosted p.fabric.nextFetch
        journaled.addressable known none
      refine ⟨_, _, accepted, ?_, ?_, fun _ _ => journaled.begun next hosted counted⟩ <;>
        unfold Fabric.push <;> split
      · exact ⟨rfl, rfl, rfl⟩
      · exact ⟨rfl, rfl, rfl⟩
      · exact List.Subset.refl _
      · exact List.Subset.refl _

end Next

theorem streamed {order : Order} (visits : ∀ fifos, (order fifos).Perm fifos)
    (journaled : p.Journaled admitted touches) {fifos : List Fifo} {failed : List (UInt64 × Error)}
    {new : Touches} (endpoints : (fifos.map (·.endpoint)).Nodup) (queued : ∀ q ∈ fifos, q.Queued)
    (streams : Streams p.fabric.hosts ((order p.fabric.fifos).flatMap (·.jobs)) new
      (failed.map Prod.fst) (fifos.flatMap (·.jobs)))
    (rest : p'.fabric.hosts = p.fabric.hosts ∧ p'.fabric.nextFetch = p.fabric.nextFetch)
    (left : p'.fabric.fifos = fifos)
    (faults : p'.fabric.status.faults =
      p.fabric.status.faults ++ failed.map fun entry => ⟨entry.1, entry.2⟩)
    (bytes : p'.fabric.status.bytesMoved = p.fabric.status.bytesMoved + new.length) :
    p'.Journaled admitted (touches ++ new) := by
  have perm : ((order p.fabric.fifos).flatMap (·.jobs)).Perm p.fabric.jobs :=
    (visits p.fabric.fifos).flatMap_right _
  have old {job : Job} (member : job ∈ (order p.fabric.fifos).flatMap (·.jobs)) :
      job ∈ p.fabric.jobs := perm.subset member
  have jobs : p'.fabric.jobs = fifos.flatMap (·.jobs) := by rw [Fabric.jobs, left]
  have marked : p'.fabric.status.faults.map (·.index) =
      p.fabric.status.faults.map (·.index) ++ failed.map Prod.fst := by
    rw [faults, List.map_append, List.map_map]
    rfl
  have failed_job {index : UInt64} (late : index ∈ failed.map Prod.fst) :
      ∃ job ∈ p.fabric.jobs, job.index = index := by
    obtain ⟨job, among, same⟩ := List.mem_map.mp (streams.failed_own index late).1
    exact ⟨job, old among, same⟩
  constructor
  case addressable => rw [Fabric.Addressable, rest.1]; exact journaled.addressable
  case endpoints => rw [left]; exact endpoints
  case queued => rw [left]; exact queued
  case distinct =>
    rw [jobs]
    exact ((perm.map _).nodup_iff.mpr journaled.distinct).sublist streams.fewer
  case numbered => exact journaled.numbered
  case fetched => rw [rest.2]; exact journaled.fetched
  case sized => exact journaled.sized
  case jobs =>
    intro later member
    rw [jobs] at member
    obtain ⟨job, among, index, endpoint, hosted, moves⟩ := streams.kept later member
    obtain ⟨_, t, fetched, placed, owed⟩ := journaled.jobs job (old among)
    rw [rest.1, index, endpoint]
    refine ⟨hosted, t, fetched, placed, ?_⟩
    rw [Touches.of_append, List.append_assoc, ← moves, owed]
  case ended =>
    intro packet member gone
    rw [jobs] at gone
    rw [Touches.of_append, marked]
    by_cases under : packet.1 ∈ p.fabric.jobs.map (·.index)
    · obtain ⟨job, among, same⟩ := List.mem_map.mp under
      obtain ⟨_, t, fetched, _, owed⟩ := journaled.jobs job among
      obtain rfl := journaled.one_packet member fetched same.symm
      simp only at gone ⊢
      rcases streams.ended job (perm.symm.subset among) gone with all | late
      · exact .inl (by rw [all, owed])
      · refine .inr ⟨List.mem_append_right _ late, ?_⟩
        rw [(streams.failed_own _ late).2.2, List.append_nil, owed]
        exact List.prefix_append _ _
    · have quiet : new.of packet.1 = [] := streams.other_index fun job among same =>
        under (same ▸ List.mem_map_of_mem (old among))
      rw [quiet, List.append_nil]
      exact (journaled.ended packet member under).imp id fun late =>
        ⟨List.mem_append_left _ late.1, late.2⟩
  case alive =>
    intro later member late
    rw [jobs] at member
    rw [marked] at late
    obtain ⟨job, among, index, _⟩ := streams.kept later member
    rcases List.mem_append.mp late with before | now
    · exact journaled.alive job (old among) (index ▸ before)
    · exact (streams.failed_own _ now).2.1 (List.mem_map_of_mem member)
  case faulted =>
    intro fault member
    rw [faults] at member
    rw [rest.2]
    rcases List.mem_append.mp member with before | now
    · exact journaled.faulted fault before
    · obtain ⟨entry, among, rfl⟩ := List.mem_map.mp now
      obtain ⟨job, under, same⟩ := failed_job (List.mem_map_of_mem among)
      exact same ▸ journaled.job_fetched under
  case own =>
    intro touch member
    rcases List.mem_append.mp member with before | now
    · exact journaled.own touch before
    · obtain ⟨job, among, index, endpoint⟩ := streams.own touch now
      obtain ⟨_, t, fetched, placed, _⟩ := journaled.jobs job (old among)
      exact ⟨t, index ▸ fetched, endpoint ▸ placed⟩
  case rising =>
    intro e
    rw [Touches.via_append]
    refine List.pairwise_append.mpr ⟨journaled.rising e, streams.rising e, ?_⟩
    intro touch before other now
    obtain ⟨job, among, index, endpoint⟩ := streams.own other (List.mem_of_mem_filter now)
    have here := (List.mem_filter.mp before).2
    have there := (List.mem_filter.mp now).2
    simp only [decide_eq_true_eq] at here there
    rw [← index]
    exact journaled.before touch (List.mem_of_mem_filter before) job (old among)
      (by rw [endpoint, there, here])
  case before =>
    intro touch member later among placed
    rw [jobs] at among
    rcases List.mem_append.mp member with before | now
    · obtain ⟨job, under, index, endpoint, _⟩ := streams.kept later among
      rw [index]
      exact journaled.before touch before job (old under) (endpoint ▸ placed)
    · exact streams.before touch now later among placed
  case bytes => rw [bytes, journaled.bytes, List.length_append]
  case budget =>
    have size := streams.size
    have before := (perm.flatMap_right Job.addresses).length_eq
    have budget := journaled.budget
    rw [jobs, List.length_append]
    omega

end Journaled

section Steps

variable {p p' : Plant} {admitted : List Admitted} {touches : Touches}

theorem arrivals_congr (count : Nat) (memory : p'.memory = p.memory)
    (next : p'.fabric.nextFetch = p.fabric.nextFetch)
    (same : p'.fabric.consumer = p.fabric.consumer ∧ p'.fabric.hosts = p.fabric.hosts ∧
      p'.fabric.tiles = p.fabric.tiles) : arrivals count p' = arrivals count p := by
  induction count generalizing p p' with
  | zero => rfl
  | succ count ih =>
    obtain ⟨consumer, hosts, tiles⟩ := same
    have fetched (use : Access (Option Record)) : onMemory use p' =
        match onMemory use p with
        | .ok found q => .ok found ⟨p'.fabric, q.memory⟩
        | .error failure q => .error failure ⟨p'.fabric, q.memory⟩ := by
      simp only [onMemory, memory]
      cases use p.memory <;> rfl
    have admits (record : Record) : p'.fabric.admits record = p.fabric.admits record := by
      simp only [Fabric.admits, hosts, tiles]
    rw [arrivals, arrivals, fetched, consumer, next]
    cases onMemory (p.fabric.consumer.fetch p.fabric.nextFetch) p with
    | error failure q => rfl
    | ok found q =>
      cases found with
      | none => rfl
      | some record =>
        simp only [admits]
        exact congrArg _ (ih rfl rfl ⟨consumer, hosts, tiles⟩)

theorem onMemory_after {α : Type} (use : Access α) (p : Plant) :
    (after (onMemory use p)).fabric = p.fabric := by
  obtain ⟨fabric, memory⟩ := p
  simp only [onMemory]
  cases use memory <;> rfl

theorem onMemory_cases {α : Type} (use : Access α) (p : Plant) :
    (∃ failure m, onMemory use p = .error failure ⟨p.fabric, m⟩) ∨
      ∃ a m, onMemory use p = .ok a ⟨p.fabric, m⟩ := by
  obtain ⟨fabric, memory⟩ := p
  simp only [onMemory]
  cases use memory with
  | error failure m => exact .inl ⟨failure, m, rfl⟩
  | ok a m => exact .inr ⟨a, m, rfl⟩

section Fetching

variable {count : Nat} {m : Memory}

theorem fetch_failed {failure : Failure}
    (failed : onMemory p.fabric.consumer.published p = .error failure p') :
    fetch p = .error failure p' :=
  (bind_ok rfl).trans (bind_error failed)

theorem fetch_read {word : UInt64} (read : onMemory p.fabric.consumer.published p = .ok word p') :
    fetch p = fetchNext (word.toNat - p.fabric.nextFetch.toNat) p' :=
  (bind_ok rfl).trans (bind_ok read)

theorem fetchNext_failed {failure : Failure}
    (failed : onMemory (p.fabric.consumer.fetch p.fabric.nextFetch) p = .error failure p') :
    fetchNext (count + 1) p = .error failure p' := by
  rw [fetchNext]
  exact (bind_ok rfl).trans (bind_error failed)

theorem fetchNext_none
    (found : onMemory (p.fabric.consumer.fetch p.fabric.nextFetch) p = .ok none p') :
    fetchNext (count + 1) p = .ok false p' := by
  rw [fetchNext]
  exact (bind_ok rfl).trans (bind_ok found)

theorem fetchNext_refused {record : Record} {failure : Failure}
    (found : onMemory (p.fabric.consumer.fetch p.fabric.nextFetch) p =
      .ok (some record) ⟨p.fabric, m⟩)
    (failed : p.fabric.accept p.fabric.nextFetch record = .error failure) :
    fetchNext (count + 1) p = .error failure ⟨p.fabric, m⟩ := by
  have taken : onFabric (fun f => f.accept p.fabric.nextFetch record) ⟨p.fabric, m⟩ =
      .error failure ⟨p.fabric, m⟩ := by simp only [onFabric, failed]
  rw [fetchNext]
  exact (bind_ok rfl).trans ((bind_ok found).trans (bind_error taken))

theorem fetchNext_some {record : Record} {progress : Progress} {f' : Fabric}
    (found : onMemory (p.fabric.consumer.fetch p.fabric.nextFetch) p =
      .ok (some record) ⟨p.fabric, m⟩)
    (accepted : p.fabric.accept p.fabric.nextFetch record = .ok (progress, f')) :
    fetchNext (count + 1) p = (fetchNext count >>= fun _ => pure true) ⟨{ f' with
      inFlight := f'.inFlight ++ [⟨p.fabric.nextFetch, progress⟩]
      nextFetch := p.fabric.nextFetch + 1 }, m⟩ := by
  have taken : onFabric (fun f => f.accept p.fabric.nextFetch record) ⟨p.fabric, m⟩ =
      .ok progress ⟨f', m⟩ := by simp only [onFabric, accepted]
  rw [fetchNext]
  exact (bind_ok rfl).trans ((bind_ok found).trans ((bind_ok taken).trans (bind_ok rfl)))

end Fetching

theorem after_bind_pure {α β : Type} (x : Work α) (next : α → β) :
    after ((x >>= fun a => pure (next a)) p) = after (x p) := by
  cases ran : x p with
  | ok a p' => rw [bind_ok ran]; rfl
  | error failure p' => rw [bind_error ran]; rfl

theorem fetchNext_journaled (count : Nat) (journaled : p.Journaled admitted touches)
    (room : p.fabric.nextFetch.toNat + count < UInt64.size)
    (narrow : Admitted.bytes (arrivals count p) < UInt64.size) :
    (after (fetchNext count p)).Journaled (admitted ++ arrivals count p) touches ∧
      p.fabric.status.faults ⊆ (after (fetchNext count p)).fabric.status.faults := by
  induction count generalizing p admitted with
  | zero =>
    rw [arrivals, List.append_nil]
    exact ⟨journaled, List.Subset.refl _⟩
  | succ count ih =>
    have kept (m : Memory) : Journaled ⟨p.fabric, m⟩ admitted touches :=
      journaled.of_alike ⟨rfl, rfl, rfl, rfl, rfl⟩
    have step : (p.fabric.nextFetch + 1).toNat = p.fabric.nextFetch.toNat + 1 :=
      toNat_succ (by omega)
    have next : p.fabric.nextFetch < p.fabric.nextFetch + 1 := by
      rw [UInt64.lt_iff_toNat_lt, step]
      omega
    obtain ⟨failure, m, found⟩ | ⟨record, m, found⟩ :=
      onMemory_cases (p.fabric.consumer.fetch p.fabric.nextFetch) p
    · rw [fetchNext_failed found, arrivals, found, List.append_nil]
      exact ⟨kept m, List.Subset.refl _⟩
    · cases record with
      | none =>
        rw [fetchNext_none found, arrivals, found, List.append_nil]
        exact ⟨kept m, List.Subset.refl _⟩
      | some record =>
        have arrived : arrivals (count + 1) p =
            (p.fabric.admits record).toList.map (p.fabric.nextFetch, ·) ++
              arrivals count ⟨{ p.fabric with nextFetch := p.fabric.nextFetch + 1 }, m⟩ := by
          rw [arrivals, found]
        rw [arrived, Admitted.bytes_append] at narrow
        obtain ⟨progress, f', accepted, same, faults, further⟩ :=
          journaled.accepted next record (by omega)
        have again : arrivals count ⟨{ f' with
              inFlight := f'.inFlight ++ [⟨p.fabric.nextFetch, progress⟩]
              nextFetch := p.fabric.nextFetch + 1 }, m⟩ =
            arrivals count ⟨{ p.fabric with nextFetch := p.fabric.nextFetch + 1 }, m⟩ :=
          arrivals_congr count rfl rfl same
        have rest := ih (further (f'.inFlight ++ [⟨p.fabric.nextFetch, progress⟩]) m)
          (by simp only [step]; omega) (by rw [again]; omega)
        rw [again, List.append_assoc, ← arrived] at rest
        rw [fetchNext_some found accepted, after_bind_pure]
        exact ⟨rest.1, List.Subset.trans faults rest.2⟩

theorem fetch_journaled (journaled : p.Journaled admitted touches)
    (narrow : Admitted.bytes (passArrivals p) < UInt64.size) :
    (after (fetch p)).Journaled (admitted ++ passArrivals p) touches ∧
      p.fabric.status.faults ⊆ (after (fetch p)).fabric.status.faults := by
  obtain ⟨failure, m, published⟩ | ⟨word, m, published⟩ :=
    onMemory_cases p.fabric.consumer.published p
  · rw [fetch_failed published, passArrivals, published, List.append_nil]
    exact ⟨journaled.of_alike ⟨rfl, rfl, rfl, rfl, rfl⟩, List.Subset.refl _⟩
  · rw [passArrivals, published] at narrow
    rw [fetch_read published, passArrivals, published]
    have bound := word.toNat_lt
    have least := p.fabric.nextFetch.toNat_lt
    exact fetchNext_journaled _ (journaled.of_alike ⟨rfl, rfl, rfl, rfl, rfl⟩)
      (by simp only [UInt64.size]; omega) narrow

theorem settleTally_ok (tally : Tally)
    (fits : 0 < tally.bytes → p.fabric.status.bytesMoved + tally.bytes < UInt64.size) :
    settleTally tally p = .ok () ⟨{ p.fabric with
      status := { p.fabric.status with
        bytesMoved := p.fabric.status.bytesMoved + tally.bytes
        faults := p.fabric.status.faults ++ tally.failed.map fun entry => ⟨entry.1, entry.2⟩ }
      inFlight := p.fabric.inFlight.map tally.settle }, p.memory⟩ := by
  unfold settleTally
  split
  next some =>
    exact (bind_ok rfl).trans ((bind_ok (count_ok (fits some))).trans
      ((bind_ok rfl).trans (settle_marks tally _)))
  next still =>
    have none : tally.bytes = 0 := by omega
    simp only [none, Nat.add_zero]
    exact settle_marks tally p

theorem execute_ok {order : Order} {left : List Fifo} {tally : Tally}
    (streamed : streamFifos (order p.fabric.fifos) {} p = .ok (left, tally) p')
    (fits : 0 < tally.bytes → p'.fabric.status.bytesMoved + tally.bytes < UInt64.size) :
    execute order p = .ok (tally.moved || p'.fabric.tiles.runKernels.1) ⟨{ p'.fabric with
      fifos := left
      tiles := p'.fabric.tiles.runKernels.2
      status := { p'.fabric.status with
        bytesMoved := p'.fabric.status.bytesMoved + tally.bytes
        faults := p'.fabric.status.faults ++ tally.failed.map fun entry => ⟨entry.1, entry.2⟩ }
      inFlight := p'.fabric.inFlight.map tally.settle }, p'.memory⟩ := by
  have settled := settleTally_ok (p := ⟨{ p'.fabric with
    fifos := left, tiles := p'.fabric.tiles.runKernels.2 }, p'.memory⟩) tally fits
  unfold execute
  exact (bind_ok rfl).trans ((bind_ok streamed).trans ((bind_ok rfl).trans
    ((bind_ok rfl).trans (bind_ok settled))))

section Visits

variable {order : Order} (visits : ∀ fifos, (order fifos).Perm fifos)
  (journaled : p.Journaled admitted touches)

include visits journaled

theorem Journaled.visited_hosted :
    ∀ job ∈ (order p.fabric.fifos).flatMap (·.jobs), job.Hosted p.fabric.hosts :=
  fun job member => (journaled.jobs job (((visits _).flatMap_right _).subset member)).1

theorem Journaled.visited_queued : ∀ q ∈ order p.fabric.fifos, q.Queued :=
  fun q member => journaled.queued q ((visits _).subset member)

theorem Journaled.visited_narrow (narrow : Admitted.bytes admitted < UInt64.size) :
    ({} : Tally).bytes + (((order p.fabric.fifos).flatMap (·.jobs)).flatMap Job.addresses).length <
      UInt64.size := by
  have perm : ((order p.fabric.fifos).flatMap (·.jobs)).Perm p.fabric.jobs :=
    (visits p.fabric.fifos).flatMap_right _
  have counts := (perm.flatMap_right Job.addresses).length_eq
  have budget := journaled.budget
  simp only
  omega

-- Streaming comes to its end whichever order the FIFOs are visited in, and its bytes can be counted.
theorem Journaled.streamFifos_ok (narrow : Admitted.bytes admitted < UInt64.size) :
    ∃ left tally p₁ finished failed,
      streamFifos (order p.fabric.fifos) {} p = .ok (left, tally) p₁ ∧ p.Beside p₁ ∧
      left.map (·.endpoint) = (order p.fabric.fifos).map (·.endpoint) ∧ (∀ q ∈ left, q.Queued) ∧
      Streams p.fabric.hosts ((order p.fabric.fifos).flatMap (·.jobs))
        (fifosTouches (order p.fabric.fifos) {} p) failed (left.flatMap (·.jobs)) ∧
      Tallies {} tally (fifosTouches (order p.fabric.fifos) {} p) finished failed ∧
      p₁.fabric.status.bytesMoved + tally.bytes < UInt64.size := by
  have few := journaled.visited_narrow visits narrow
  have perm : ((order p.fabric.fifos).flatMap (·.jobs)).Perm p.fabric.jobs :=
    (visits p.fabric.fifos).flatMap_right _
  obtain ⟨left, tally, p₁, finished, failed, streamed, beside, endpoints, queued, streams, tallies⟩ :=
    streamFifos_streams (p := p) (order p.fabric.fifos) {} (journaled.visited_hosted visits)
      (journaled.visited_queued visits) (((visits _).map _).nodup_iff.mpr journaled.endpoints)
      ((perm.map _).nodup_iff.mpr journaled.distinct) few
  refine ⟨left, tally, p₁, finished, failed, streamed, beside, endpoints, queued, streams, tallies, ?_⟩
  have size := streams.size
  have counts := (perm.flatMap_right Job.addresses).length_eq
  have budget := journaled.budget
  rw [beside.fabric, tallies.bytes, journaled.bytes]
  simp only
  omega

theorem execute_journaled (narrow : Admitted.bytes admitted < UInt64.size) :
    ∃ moved p', execute order p = .ok moved p' ∧
      p'.Journaled admitted (touches ++ fifosTouches (order p.fabric.fifos) {} p) ∧
      p.fabric.status.faults ⊆ p'.fabric.status.faults ∧
      ∀ touch ∈ fifosTouches (order p.fabric.fifos) {} p,
        touch.index ∉ p.fabric.status.faults.map (·.index) := by
  obtain ⟨left, tally, p₁, finished, failed, streamed, beside, endpoints, queued, streams, tallies,
    fits⟩ := journaled.streamFifos_ok visits narrow
  have counted : tally.bytes = (fifosTouches (order p.fabric.fifos) {} p).length := by
    rw [tallies.bytes]
    exact Nat.zero_add _
  have failures : failed = tally.failed.map Prod.fst := tallies.failed.symm
  subst failures
  refine ⟨_, _, execute_ok streamed fun _ => fits, ?_⟩
  rw [beside.fabric]
  refine ⟨journaled.streamed visits ?_ queued streams ⟨rfl, rfl⟩ rfl rfl ?_,
    List.subset_append_left _ _, fun touch member => ?_⟩
  · rw [endpoints]
    exact ((visits _).map _).nodup_iff.mpr journaled.endpoints
  · simp only [counted]
  · obtain ⟨job, among, index, _⟩ := streams.own touch member
    exact index ▸ journaled.alive job (((visits p.fabric.fifos).flatMap_right _).subset among)

end Visits

theorem retireFront_alike (flight : List InFlight) (p : Plant) :
    p.Alike (after (retireFront flight p)) := by
  induction flight generalizing p with
  | nil => exact ⟨rfl, rfl, rfl, rfl, rfl⟩
  | cons e rest ih =>
    obtain ⟨index, progress⟩ := e
    cases progress with
    | running => exact ⟨rfl, rfl, rfl, rfl, rfl⟩
    | faulted => exact ⟨rfl, rfl, rfl, rfl, rfl⟩
    | done =>
      let q : Plant := ⟨{ p.fabric with
        status := { p.fabric.status with retired := p.fabric.status.retired + 1 } }, p.memory⟩
      obtain ⟨failure, m, retired⟩ | ⟨_, m, retired⟩ :=
        onMemory_cases (q.fabric.consumer.retire index) q
      · have failed : retireFront (⟨index, .done⟩ :: rest) p = .error failure ⟨q.fabric, m⟩ := by
          rw [retireFront]
          exact (bind_ok rfl).trans ((bind_ok rfl).trans (bind_error retired))
        rw [failed]
        exact ⟨rfl, rfl, rfl, rfl, rfl⟩
      · have done : retireFront (⟨index, .done⟩ :: rest) p =
            (retireFront rest >>= fun _ => pure true) ⟨{ q.fabric with inFlight := rest }, m⟩ := by
          rw [retireFront]
          exact (bind_ok rfl).trans ((bind_ok rfl).trans ((bind_ok retired).trans (bind_ok rfl)))
        rw [done, after_bind_pure]
        have further := ih ⟨{ q.fabric with inFlight := rest }, m⟩
        exact ⟨further.hosts, further.fifos, further.next, further.faults, further.moved⟩

-- What a pass touches. Fetching and retiring touch nothing.
def passTouches (order : Order) (p : Plant) : Touches :=
  match fetch p with
  | .ok _ p' => fifosTouches (order p'.fabric.fifos) {} p'
  | .error _ _ => []

theorem pass_journaled {order : Order} (visits : ∀ fifos, (order fifos).Perm fifos)
    (journaled : p.Journaled admitted touches)
    (narrow : Admitted.bytes (admitted ++ passArrivals p) < UInt64.size) :
    (after (pass order p)).Journaled (admitted ++ passArrivals p)
        (touches ++ passTouches order p) ∧
      p.fabric.status.faults ⊆ (after (pass order p)).fabric.status.faults ∧
      ∀ touch ∈ passTouches order p, touch.index ∉ p.fabric.status.faults.map (·.index) := by
  obtain ⟨first, grown⟩ :=
    fetch_journaled journaled (by rw [Admitted.bytes_append] at narrow; omega)
  cases fetched : fetch p with
  | error failure p₁ =>
    have failed : pass order p = .error failure p₁ := bind_error fetched
    rw [fetched] at first grown
    rw [failed, passTouches, fetched, List.append_nil]
    exact ⟨first, grown, nofun⟩
  | ok some p₁ =>
    rw [fetched] at first grown
    obtain ⟨moved, p₂, executed, second, more, alive⟩ := execute_journaled visits first narrow
    have rest : after (pass order p) = after (retireFront p₂.fabric.inFlight p₂) := by
      have ran : pass order p = (retireFront p₂.fabric.inFlight >>= fun retired =>
          pure (some || moved || retired)) p₂ :=
        (bind_ok fetched).trans ((bind_ok executed).trans (bind_ok rfl))
      rw [ran, after_bind_pure]
    have alike := retireFront_alike p₂.fabric.inFlight p₂
    rw [rest, passTouches, fetched, alike.faults]
    exact ⟨second.of_alike alike, List.Subset.trans grown more,
      fun touch member late => alive touch member (List.map_subset _ grown late)⟩

end Steps

end Plant

end FabricQueue
