import FabricQueue.Proofs.Barrier
import FabricQueue.Proofs.Traffic

set_option autoImplicit false

namespace FabricQueue

def unmoved (fifos : List Fifo) : Nat :=
  ((fifos.flatMap (·.jobs)).flatMap Job.addresses).length

theorem unmoved_cons (fifo : Fifo) (rest : List Fifo) :
    unmoved (fifo :: rest) = unmoved [fifo] + unmoved rest := by
  simp [unmoved]

theorem unmoved_one (e : Endpoint) (job : Job) : unmoved [⟨e, [job]⟩] = job.addresses.length := by
  simp [unmoved]

inductive Traffic.Follows (T : Traffic) (moved : Counts) (e : Endpoint) : List Job → Prop where
  | idle (ended : ∀ packet ∈ T.packets, packet.2.endpoint = e → Ended moved packet) :
      Follows T moved e []
  | busy {packet : Admitted} {job : Job} (member : packet ∈ T.packets)
      (here : packet.2.endpoint = e) (underway : T.Underway moved packet job) :
      Follows T moved e [job]

namespace Traffic

def total (T : Traffic) : Nat :=
  (T.packets.flatMap (·.2.addresses)).length

instance (moved : Counts) (packet : Admitted) : Decidable (Ended moved packet) :=
  inferInstanceAs (Decidable (_ = _))

-- What has ended stays so.
theorem Within.later {T : Traffic} {moved moved' : Counts} (within : T.Within moved')
    (grows : ∀ e, moved e ≤ moved' e) {packet : Admitted} (member : packet ∈ T.packets)
    (ended : Ended moved packet) : Ended moved' packet :=
  Nat.le_antisymm (within packet member) (ended ▸ grows packet.2.endpoint)

theorem Sound.newly_ended {T : Traffic} {q : Queue} {moved : Counts} {packet other : Admitted}
    {count : Nat} (sound : T.Sound q) (member : packet ∈ T.packets) (among : other ∈ T.packets)
    (before : ¬Ended moved other)
    (now : Ended (Function.update moved packet.2.endpoint (moved packet.2.endpoint + count)) other) :
    other = packet := by
  by_contra different
  have away : other.2.endpoint ≠ packet.2.endpoint :=
    fun equal => different (sound.one_packet among member equal)
  rw [Ended, Function.update_of_ne away] at now
  exact before now

def entry (moved : Counts) (packet : Admitted) : InFlight :=
  ⟨packet.1, if Ended moved packet then .done else .running⟩

end Traffic

theorem Traffic.Follows.congr {T : Traffic} {moved moved' : Counts} {e : Endpoint}
    {jobs : List Job} (follows : T.Follows moved e jobs) (same : moved' e = moved e) :
    T.Follows moved' e jobs := by
  cases follows with
  | idle ended =>
    refine .idle fun packet member here => ?_
    rw [Ended, here, same, ← here]
    exact ended packet member here
  | busy member here underway =>
    obtain ⟨index, endpoint, hosted, addresses, unfinished⟩ := underway
    rw [here, ← same] at addresses unfinished
    exact .busy member here ⟨index, endpoint, hosted, here ▸ addresses, here ▸ unfinished⟩

namespace Plant

variable {T : Traffic} {I : Counts → Nat → TileArray → Prop} {q : Queue} {last steps : Nat}
  {moved moved₁ moved' : Counts} {p p₁ p' : Plant}

structure Carries (T : Traffic) (I : Counts → Nat → TileArray → Prop) (q : Queue) (steps : Nat)
    (fifos : List Fifo) (moved : Counts) (tally : Tally) (p : Plant) (left : List Fifo)
    (moved' : Counts) (tally' : Tally) (p' : Plant) : Prop where
  flows : p'.Flows T I q moved' steps
  beside : p.Beside p'
  endpoints : left.map (·.endpoint) = fifos.map (·.endpoint)
  follows : ∀ fifo ∈ left, T.Follows moved' fifo.endpoint fifo.jobs
  others : ∀ e ∉ fifos.map (·.endpoint), moved' e = moved e
  grows : ∀ e, moved e ≤ moved' e
  bytes : tally'.bytes + unmoved left = tally.bytes + unmoved fifos
  fewer : unmoved left ≤ unmoved fifos
  failed : tally'.failed = tally.failed
  kept : tally.finished ⊆ tally'.finished
  ended : ∀ index ∈ tally'.finished, index ∈ tally.finished ∨
    ∃ packet ∈ T.packets, packet.1 = index ∧ Traffic.Ended moved' packet
  ends : ∀ packet ∈ T.packets, ¬Traffic.Ended moved packet → Traffic.Ended moved' packet →
    packet.1 ∈ tally'.finished
  still : tally'.moved = false → tally.moved = false ∧ p' = p ∧ moved' = moved ∧
    ∀ fifo ∈ left, Waits p.fabric.tiles fifo.jobs
  less : tally'.moved = true → tally.moved = true ∨ unmoved left < unmoved fifos

theorem Carries.refl (flows : p.Flows T I q moved steps) {fifos : List Fifo} (tally : Tally)
    (follows : ∀ fifo ∈ fifos, T.Follows moved fifo.endpoint fifo.jobs)
    (waits : ∀ fifo ∈ fifos, Waits p.fabric.tiles fifo.jobs) :
    Carries T I q steps fifos moved tally p fifos moved tally p where
  flows := flows
  beside := Beside.refl p
  endpoints := rfl
  follows := follows
  others _ _ := rfl
  grows _ := Nat.le_refl _
  bytes := rfl
  fewer := Nat.le_refl _
  failed := rfl
  kept := List.Subset.refl _
  ended _ := .inl
  ends _ _ before after := absurd after before
  still quiet := ⟨quiet, rfl, rfl, waits⟩
  less := .inl

section Front

variable {e : Endpoint} {packet : Admitted} {job later : Job} {count : Nat} {tally : Tally}
  (sound : T.Sound q) (member : packet ∈ T.packets) (here : packet.2.endpoint = e)
  (flows' : p'.Flows T I q
    (Function.update moved packet.2.endpoint (moved packet.2.endpoint + count)) steps)
  (beside : p.Beside p') (underway : T.Underway moved packet job)

include here in
theorem update_others : ∀ e' ∉ [e],
    Function.update moved packet.2.endpoint (moved packet.2.endpoint + count) e' = moved e' := by
  intro e' outside
  exact Function.update_of_ne (fun equal => outside (by simp [equal, here])) _ _

theorem update_grows (e e' : Endpoint) :
    moved e' ≤ Function.update moved e (moved e + count) e' := by
  by_cases equal : e' = e
  · rw [equal, Function.update_self]
    exact Nat.le_add_right _ _
  · rw [Function.update_of_ne equal]

include sound member here flows' beside underway

theorem Carries.stalled (same : count = 0 → p' = p)
    (onward : T.Underway (Function.update moved packet.2.endpoint
      (moved packet.2.endpoint + count)) packet later)
    (barred : p'.fabric.tiles.Barred packet.2.endpoint) :
    Carries T I q steps [⟨e, [job]⟩] moved tally p [⟨e, [later]⟩]
      (Function.update moved packet.2.endpoint (moved packet.2.endpoint + count))
      (tally.add count) p' := by
  have length := congrArg List.length underway.addresses
  have length' := congrArg List.length onward.addresses
  have unfinished' := onward.unfinished
  rw [List.length_drop] at length
  rw [List.length_drop, Function.update_self] at length'
  rw [Function.update_self] at unfinished'
  refine {
    flows := flows', beside, endpoints := rfl, others := update_others here
    grows := update_grows _, failed := rfl, kept := List.Subset.refl _, ended := fun _ => .inl
    follows := ?follows, bytes := ?bytes, fewer := ?fewer, ends := ?ends, still := ?still
    less := ?less }
  case follows =>
    intro fifo only
    rw [List.mem_singleton.mp only]
    exact .busy member here onward
  case bytes =>
    rw [unmoved_one, unmoved_one, Tally.add]
    simp only
    omega
  case fewer =>
    rw [unmoved_one, unmoved_one]
    omega
  case ends =>
    intro other among before now
    obtain rfl := sound.newly_ended member among before now
    rw [Traffic.Ended, Function.update_self] at now
    omega
  case still =>
    intro quiet
    simp only [Tally.add, Bool.or_eq_false_iff, decide_eq_false_iff_not, Nat.not_lt,
      Nat.le_zero] at quiet
    obtain ⟨before, none⟩ := quiet
    have unchanged := same none
    refine ⟨before, unchanged, by rw [none, Nat.add_zero, Function.update_eq_self], ?_⟩
    intro fifo only
    rw [List.mem_singleton.mp only]
    rintro _ ⟨⟩
    rw [onward.endpoint, ← unchanged]
    exact barred
  case less =>
    intro some
    simp only [Tally.add, Bool.or_eq_true, decide_eq_true_eq] at some
    refine some.imp id fun more => ?_
    rw [unmoved_one, unmoved_one]
    omega

theorem Carries.finished (rest : moved packet.2.endpoint + count = packet.2.addresses.length) :
    Carries T I q steps [⟨e, [job]⟩] moved tally p [⟨e, []⟩]
      (Function.update moved packet.2.endpoint (moved packet.2.endpoint + count))
      { tally.add count with finished := tally.finished ++ [job.index] } p' := by
  have length := congrArg List.length underway.addresses
  have unfinished := underway.unfinished
  rw [List.length_drop] at length
  have empty : unmoved [⟨e, []⟩] = 0 := rfl
  have whole : Traffic.Ended (Function.update moved packet.2.endpoint
      (moved packet.2.endpoint + count)) packet := by
    rw [Traffic.Ended, Function.update_self, rest]
  refine {
    flows := flows', beside, endpoints := rfl, others := update_others here
    grows := update_grows _, failed := rfl, kept := List.subset_append_left _ _
    fewer := Nat.zero_le _, follows := ?follows, bytes := ?bytes, ended := ?ended, ends := ?ends
    still := ?still, less := fun _ => .inr ?less }
  case follows =>
    intro fifo only
    rw [List.mem_singleton.mp only]
    refine .idle fun other among equal => ?_
    rw [sound.one_packet among member (equal.trans here.symm)]
    exact whole
  case bytes =>
    rw [unmoved_one, empty, Tally.add]
    simp only
    omega
  case ended =>
    intro index entered
    rcases List.mem_append.mp entered with old | new
    · exact .inl old
    · rw [List.mem_singleton.mp new, underway.index]
      exact .inr ⟨packet, member, rfl, whole⟩
  case ends =>
    intro other among before now
    rw [sound.newly_ended member among before now, ← underway.index]
    exact List.mem_append_right _ List.mem_cons_self
  case still =>
    intro quiet
    simp only [Tally.add, Bool.or_eq_false_iff, decide_eq_false_iff_not] at quiet
    omega
  case less =>
    rw [unmoved_one, empty]
    omega

end Front

theorem streamJobs_carries (conducts : T.Conducts last I) (sound : T.Sound q)
    (flows : p.Flows T I q moved steps) (fifo : Fifo) (tally : Tally)
    (follows : T.Follows moved fifo.endpoint fifo.jobs)
    (narrow : tally.bytes + unmoved [fifo] < UInt64.size) :
    ∃ jobs moved' tally' p', streamJobs fifo.jobs tally p = .ok (jobs, tally') p' ∧
      Carries T I q steps [fifo] moved tally p [{ fifo with jobs }] moved' tally' p' := by
  obtain ⟨e, jobs⟩ := fifo
  simp only at follows
  cases follows with
  | idle ended =>
    refine ⟨[], moved, tally, p, rfl, Carries.refl flows tally ?_ ?_⟩ <;>
      intro fifo single <;> rw [List.mem_singleton.mp single]
    · exact .idle ended
    · exact nofun
  | @busy packet job member here underway =>
    have length := congrArg List.length underway.addresses
    have unfinished := underway.unfinished
    rw [unmoved_one] at narrow
    rw [List.length_drop] at length
    obtain ⟨count, left, p', advanced, after, beside, same, rest⟩ :=
      flows.advance_ok conducts sound member underway (by omega)
    have within := after.within packet member
    rw [Function.update_self] at within
    have fits : tally.bytes + count < UInt64.size := by omega
    cases left with
    | some later =>
      exact ⟨[later], _, _, p', streamJobs_stall advanced fits,
        .stalled sound member here after beside underway same rest.1 rest.2⟩
    | none =>
      exact ⟨[], _, _, p', streamJobs_finish advanced fits,
        .finished sound member here after beside underway rest⟩

theorem Carries.cons {fifo fifo' : Fifo} {rest left : List Fifo} {tally tally₁ tally' : Tally}
    (first : Carries T I q steps [fifo] moved tally p [fifo'] moved₁ tally₁ p₁)
    (second : Carries T I q steps rest moved₁ tally₁ p₁ left moved' tally' p')
    (fresh : fifo.endpoint ∉ rest.map (·.endpoint)) :
    Carries T I q steps (fifo :: rest) moved tally p (fifo' :: left) moved' tally' p' := by
  have here : fifo'.endpoint = fifo.endpoint := by simpa using first.endpoints
  have bytes := first.bytes
  have bytes' := second.bytes
  constructor
  case flows => exact second.flows
  case beside => exact first.beside.trans second.beside
  case endpoints => rw [List.map_cons, List.map_cons, here, second.endpoints]
  case follows =>
    intro fifo'' member
    rcases List.mem_cons.mp member with rfl | later
    · exact (first.follows _ List.mem_cons_self).congr (second.others _ (here ▸ fresh))
    · exact second.follows fifo'' later
  case others =>
    intro e outside
    rw [List.map_cons, List.mem_cons, not_or] at outside
    rw [second.others e outside.2, first.others e (by simpa using outside.1)]
  case grows => exact fun e => Nat.le_trans (first.grows e) (second.grows e)
  case bytes =>
    rw [unmoved_cons fifo', unmoved_cons fifo]
    omega
  case failed => rw [second.failed, first.failed]
  case kept => exact List.Subset.trans first.kept second.kept
  case ended =>
    intro index member
    rcases second.ended index member with old | now
    · refine (first.ended index old).imp id ?_
      rintro ⟨packet, among, same, ended⟩
      exact ⟨packet, among, same, second.flows.within.later second.grows among ended⟩
    · exact .inr now
  case ends =>
    intro packet member before after
    by_cases between : Traffic.Ended moved₁ packet
    · exact second.kept (first.ends packet member before between)
    · exact second.ends packet member between after
  case still =>
    intro quiet
    obtain ⟨between, same', counts', waits'⟩ := second.still quiet
    obtain ⟨before, same, counts, waits⟩ := first.still between
    refine ⟨before, same'.trans same, counts'.trans counts, fun fifo'' member => ?_⟩
    rcases List.mem_cons.mp member with rfl | later
    · exact waits _ List.mem_cons_self
    · exact same ▸ waits' fifo'' later
  case fewer =>
    rw [unmoved_cons fifo', unmoved_cons fifo]
    exact Nat.add_le_add first.fewer second.fewer
  case less =>
    intro some
    have fewer := first.fewer
    have fewer' := second.fewer
    rw [unmoved_cons fifo', unmoved_cons fifo]
    rcases second.less some with between | less
    · exact (first.less between).imp id fun less => by omega
    · exact .inr (by omega)

theorem streamFifos_carries (conducts : T.Conducts last I) (sound : T.Sound q) (fifos : List Fifo)
    (tally : Tally) (flows : p.Flows T I q moved steps)
    (endpoints : (fifos.map (·.endpoint)).Nodup)
    (follows : ∀ fifo ∈ fifos, T.Follows moved fifo.endpoint fifo.jobs)
    (narrow : tally.bytes + unmoved fifos < UInt64.size) :
    ∃ left moved' tally' p', streamFifos fifos tally p = .ok (left, tally') p' ∧
      Carries T I q steps fifos moved tally p left moved' tally' p' := by
  induction fifos generalizing tally p moved with
  | nil =>
    exact ⟨[], moved, tally, p, rfl, .refl flows tally nofun nofun⟩
  | cons fifo rest ih =>
    rw [List.map_cons, List.nodup_cons] at endpoints
    have whole := unmoved_cons fifo rest
    obtain ⟨jobs, moved₁, tally₁, p₁, ran, first⟩ := streamJobs_carries conducts sound flows fifo
      tally (follows fifo List.mem_cons_self) (by omega)
    have bytes := first.bytes
    have apart {fifo' : Fifo} (member : fifo' ∈ rest) :
        fifo'.endpoint ∉ [fifo].map (·.endpoint) := by
      intro single
      have same : fifo'.endpoint = fifo.endpoint := by simpa using single
      exact endpoints.1 (same ▸ List.mem_map_of_mem member)
    obtain ⟨left, moved', tally', p', further, second⟩ := ih tally₁ first.flows endpoints.2
      (fun fifo' member => (follows fifo' (List.mem_cons_of_mem _ member)).congr
        (first.others _ (apart member)))
      (by omega)
    refine ⟨_, moved', tally', p', ?_, first.cons second endpoints.1⟩
    rw [streamFifos]
    exact (bind_ok ran).trans (bind_ok further)

theorem ended_or_waits (sound : T.Sound q) {fifos : List Fifo} {tiles : TileArray}
    (follows : ∀ fifo ∈ fifos, T.Follows moved fifo.endpoint fifo.jobs)
    (served : ∀ packet ∈ T.packets, packet.2.endpoint ∈ fifos.map (·.endpoint))
    (waits : ∀ fifo ∈ fifos, Waits tiles fifo.jobs) :
    ∀ packet ∈ T.packets, Traffic.Ended moved packet ∨ tiles.Barred packet.2.endpoint := by
  intro packet member
  obtain ⟨⟨e, jobs⟩, among, here⟩ := List.mem_map.mp (served packet member)
  have waits := waits _ among
  have follows := follows _ among
  simp only at here waits follows
  cases follows with
  | idle ended => exact .inl (ended packet member here.symm)
  | @busy other job member' here' underway =>
    have same := sound.one_packet member' member (here'.trans here)
    refine .inr ?_
    rw [← same, ← underway.endpoint]
    exact waits job rfl

theorem Carries.settle_entry {fifos left : List Fifo} {tally : Tally} (sound : T.Sound q)
    (carries : Carries T I q steps fifos moved {} p left moved' tally p') {packet : Admitted}
    (member : packet ∈ T.packets) :
    tally.settle (Traffic.entry moved packet) = Traffic.entry moved' packet := by
  have none : packet.1 ∉ tally.failed.map Prod.fst := by
    rw [carries.failed]
    exact List.not_mem_nil
  by_cases finished : packet.1 ∈ tally.finished
  · obtain ⟨other, among, same, ended⟩ :=
      (carries.ended packet.1 finished).resolve_left List.not_mem_nil
    obtain rfl := sound.one_index among member same
    simp only [Tally.settle, Traffic.entry, none, finished, ended, if_true, if_false]
  · simp only [Tally.settle, Traffic.entry, none, finished, if_false]
    congr 1
    by_cases ended : Traffic.Ended moved packet
    · rw [if_pos ended, if_pos (carries.flows.within.later carries.grows member ended)]
    · have still : ¬Traffic.Ended moved' packet :=
        fun now => finished (carries.ends packet member ended now)
      rw [if_neg ended, if_neg still]

structure Conveys (p : Plant) (T : Traffic) (I : Counts → Nat → TileArray → Prop) (q : Queue)
    (l : Log) (base : FabricStatus) (moved : Counts) (steps gone : Nat) : Prop where
  flows : p.Flows T I q moved steps
  shows : q.Shows p.memory { l with retired := l.retired + gone }
  port : p.fabric.consumer = q.port
  running : p.fabric.running = true
  fetched : p.fabric.nextFetch.toNat = l.published
  numbers : T.packets.map (·.1.toNat) = List.range' l.retired T.packets.length
  published : l.published = l.retired + T.packets.length
  endpoints : (p.fabric.fifos.map (·.endpoint)).Nodup
  follows : ∀ fifo ∈ p.fabric.fifos, T.Follows moved fifo.endpoint fifo.jobs
  served : ∀ packet ∈ T.packets, packet.2.endpoint ∈ p.fabric.fifos.map (·.endpoint)
  flight : p.fabric.inFlight = (T.packets.drop gone).map (Traffic.entry moved)
  bound : gone ≤ T.packets.length
  through : ∀ packet ∈ T.packets.take gone, Traffic.Ended moved packet
  retired : p.fabric.status.retired = base.retired + gone
  faults : p.fabric.status.faults = base.faults
  bytes : p.fabric.status.bytesMoved + unmoved p.fabric.fifos = base.bytesMoved + T.total
  narrow : base.bytesMoved + T.total < UInt64.size

def toGo (p : Plant) (last steps : Nat) : Nat :=
  unmoved p.fabric.fifos + (last - steps)

namespace Conveys

variable {l : Log} {base : FabricStatus} {gone : Nat}

theorem fetch_none (conveys : p.Conveys T I q l base moved steps gone) :
    fetch p = .ok false p := by
  rw [fetch_eq conveys.shows conveys.port, conveys.fetched, Nat.sub_self]
  rfl

theorem jobs_ended (conveys : p.Conveys T I q l base moved steps gone)
    (ended : ∀ packet ∈ T.packets, Traffic.Ended moved packet) : p.fabric.jobs = [] := by
  refine List.flatMap_eq_nil_iff.mpr fun fifo member => ?_
  have follows := conveys.follows fifo member
  revert follows
  generalize fifo.jobs = jobs
  intro follows
  cases follows with
  | idle _ => rfl
  | @busy packet job among here underway =>
    have unfinished := underway.unfinished
    rw [ended packet among] at unfinished
    exact absurd unfinished (Nat.lt_irrefl _)

theorem unmoved_ended (conveys : p.Conveys T I q l base moved steps gone)
    (ended : ∀ packet ∈ T.packets, Traffic.Ended moved packet) : unmoved p.fabric.fifos = 0 := by
  rw [unmoved, show p.fabric.fifos.flatMap (·.jobs) = [] from conveys.jobs_ended ended]
  rfl

-- Streaming carries every FIFO, whichever order they are visited in.
theorem streams {order : Order} (conducts : T.Conducts last I) (sound : T.Sound q)
    (visits : ∀ fifos, (order fifos).Perm fifos)
    (conveys : p.Conveys T I q l base moved steps gone) :
    unmoved (order p.fabric.fifos) = unmoved p.fabric.fifos ∧
      ∃ left moved' tally p₁, streamFifos (order p.fabric.fifos) {} p = .ok (left, tally) p₁ ∧
        (left.map (·.endpoint)).Perm (p.fabric.fifos.map (·.endpoint)) ∧
        Carries T I q steps (order p.fabric.fifos) moved {} p left moved' tally p₁ := by
  have perm : ((order p.fabric.fifos).map (·.endpoint)).Perm (p.fabric.fifos.map (·.endpoint)) :=
    (visits _).map _
  have counts : unmoved (order p.fabric.fifos) = unmoved p.fabric.fifos :=
    (((visits _).flatMap_right _).flatMap_right _).length_eq
  have bytes := conveys.bytes
  have narrow := conveys.narrow
  obtain ⟨left, moved', tally, p₁, streamed, carries⟩ := streamFifos_carries conducts sound
    (order p.fabric.fifos) {} conveys.flows (perm.nodup_iff.mpr conveys.endpoints)
    (fun fifo member => conveys.follows fifo ((visits _).subset member))
    (by simp only; omega)
  exact ⟨counts, left, moved', tally, p₁, streamed, carries.endpoints ▸ perm, carries⟩

theorem settled {fifos left : List Fifo} {tally : Tally} {tiles : TileArray} {p₁ : Plant}
    {steps' : Nat} (sound : T.Sound q) (conveys : p.Conveys T I q l base moved steps gone)
    (counts : unmoved fifos = unmoved p.fabric.fifos)
    (names : (left.map (·.endpoint)).Perm (p.fabric.fifos.map (·.endpoint)))
    (carries : Carries T I q steps fifos moved {} p left moved' tally p₁)
    (stepped : I moved' steps' tiles) :
    (p.settledBy tally left tiles p₁.memory).Conveys T I q l base moved' steps' gone where
  flows := ⟨conveys.flows.hosts, stepped, carries.flows.within, carries.flows.memory⟩
  shows := carries.beside.shows (conveys.flows.hosts ▸ sound.apart) conveys.shows
  port := conveys.port
  running := conveys.running
  fetched := conveys.fetched
  numbers := conveys.numbers
  published := conveys.published
  endpoints := names.nodup_iff.mpr conveys.endpoints
  follows := carries.follows
  served packet member := names.symm.subset (conveys.served packet member)
  flight := by
    simp only [settledBy, conveys.flight, List.map_map]
    exact List.map_congr_left fun packet member =>
      carries.settle_entry sound (List.mem_of_mem_drop member)
  bound := conveys.bound
  through packet member := carries.flows.within.later carries.grows
    (List.mem_of_mem_take member) (conveys.through packet member)
  retired := conveys.retired
  faults := by
    simp only [settledBy, carries.failed, List.map_nil, List.append_nil]
    exact conveys.faults
  bytes := by
    have bytes := conveys.bytes
    have narrow := conveys.narrow
    have moves := carries.bytes
    have fewer := carries.fewer
    simp only [settledBy]
    simp only at moves
    omega
  narrow := conveys.narrow

theorem execute_ok {order : Order} (conducts : T.Conducts last I) (sound : T.Sound q)
    (visits : ∀ fifos, (order fifos).Perm fifos)
    (conveys : p.Conveys T I q l base moved steps gone) :
    ∃ some moved' steps' p', execute order p = .ok some p' ∧
      p'.Conveys T I q l base moved' steps' gone ∧ steps ≤ steps' ∧ steps' ≤ last ∧
      unmoved p'.fabric.fifos ≤ unmoved p.fabric.fifos ∧
      (unmoved p'.fabric.fifos < unmoved p.fabric.fifos ∨ steps < steps' ∨
        ∀ packet ∈ T.packets, Traffic.Ended moved' packet) ∧
      (some = false → ∀ packet ∈ T.packets, Traffic.Ended moved' packet) ∧
      ((∀ packet ∈ T.packets, Traffic.Ended moved packet) →
        some = p.fabric.tiles.runKernels.1 ∧ moved' = moved) := by
  have bytes := conveys.bytes
  have narrow := conveys.narrow
  obtain ⟨counts, left, moved', tally, p₁, streamed, names, carries⟩ :=
    conveys.streams conducts sound visits
  have moves := carries.bytes
  have fewer := carries.fewer
  simp only [Nat.zero_add] at moves
  have status : p₁.fabric.status = p.fabric.status := by rw [carries.beside.fabric]
  have ran := Plant.execute_ok streamed fun _ => by rw [status]; omega
  obtain ⟨steps', low, high, stepped, quiet, stuck⟩ :=
    conducts.kernels carries.flows.tiles carries.flows.within
  have waiting (still : tally.moved = false) :
      ∀ packet ∈ T.packets,
        Traffic.Ended moved' packet ∨ p₁.fabric.tiles.Barred packet.2.endpoint := by
    obtain ⟨_, same, _, waits⟩ := carries.still still
    rw [same]
    exact ended_or_waits sound carries.follows
      (fun packet member => names.symm.subset (conveys.served packet member)) waits
  have settled := conveys.settled sound counts names carries stepped
  refine ⟨_, moved', steps', _, ran, ?_, low, high, ?_, ?_, fun idle => ?_, fun ended => ?_⟩
  · rw [carries.beside.fabric] at settled ⊢
    exact settled
  · simp only
    omega
  · simp only
    cases some : tally.moved with
    | true =>
      have less := (carries.less some).resolve_left Bool.false_ne_true
      exact .inl (by omega)
    | false => exact .inr (stuck (waiting some))
  · rw [Bool.or_eq_false_iff] at idle
    have same := quiet idle.2
    exact (stuck (waiting idle.1)).resolve_left (by omega)
  · have none := conveys.unmoved_ended ended
    cases some : tally.moved with
    | true =>
      have less := (carries.less some).resolve_left Bool.false_ne_true
      omega
    | false =>
      obtain ⟨_, same, counts, _⟩ := carries.still some
      rw [same]
      exact ⟨rfl, counts⟩

theorem retireFront_ok (conveys : p.Conveys T I q l base moved steps gone) :
    ∃ some gone' p', retireFront p.fabric.inFlight p = .ok some p' ∧
      p'.Conveys T I q l base moved steps gone' ∧ p'.fabric.tiles = p.fabric.tiles ∧
      p'.fabric.fifos = p.fabric.fifos ∧
      ((∀ packet ∈ T.packets, Traffic.Ended moved packet) → gone' = T.packets.length) ∧
      (gone = T.packets.length → some = false) := by
  rw [conveys.flight]
  generalize left : T.packets.drop gone = rest
  induction rest generalizing p gone with
  | nil =>
    have beyond := List.drop_eq_nil_iff.mp left
    exact ⟨false, gone, p, rfl, conveys, rfl, rfl,
      fun _ => Nat.le_antisymm conveys.bound beyond, fun _ => rfl⟩
  | cons packet rest ih =>
    have below : gone < T.packets.length := by
      by_contra beyond
      rw [List.drop_eq_nil_iff.mpr (Nat.not_lt.mp beyond)] at left
      cases left
    rw [List.drop_eq_getElem_cons below, List.cons.injEq] at left
    obtain ⟨rfl, left⟩ := left
    by_cases ended : Traffic.Ended moved T.packets[gone]
    · have number : T.packets[gone].1.toNat = l.retired + gone := by
        have entry := congrArg (fun list : List Nat => list[gone]?) conveys.numbers
        simpa [below] using entry
      have published := conveys.published
      obtain ⟨memory, done, shows, leaves⟩ := conveys.shows.retire_ok number
        (by simp only; omega)
      rw [← conveys.port] at done
      obtain ⟨some, gone', p', ran, after, tiles, fifos, all, _⟩ :=
        ih (p := ⟨{ p.fabric with
          status := { p.fabric.status with retired := p.fabric.status.retired + 1 }
          inFlight := (T.packets.drop (gone + 1)).map (Traffic.entry moved) }, memory⟩)
        { conveys with
          flows := ⟨conveys.flows.hosts, conveys.flows.tiles, conveys.flows.within,
            conveys.flows.memory.trans leaves⟩
          shows := shows
          flight := rfl
          bound := below
          through := by
            intro packet member
            rw [List.take_add_one, List.getElem?_eq_getElem below] at member
            rcases List.mem_append.mp member with old | new
            · exact conveys.through packet old
            · rw [List.mem_singleton.mp new]
              exact ended
          retired := by simp only [conveys.retired]; omega } left
      refine ⟨true, gone', p', ?_, after, tiles, fifos, all, fun whole => by omega⟩
      have entry : Traffic.entry moved T.packets[gone] = ⟨T.packets[gone].1, .done⟩ := by
        rw [Traffic.entry, if_pos ended]
      rw [left] at ran
      rw [List.map_cons, entry]
      exact retireFront_done done ran
    · refine ⟨false, gone, p, ?_, conveys, rfl, rfl,
        fun all => absurd (all _ (List.getElem_mem below)) ended, fun _ => rfl⟩
      rw [List.map_cons, Traffic.entry, if_neg ended]
      rfl

theorem pass_ok {order : Order} {fetched : Bool} (conducts : T.Conducts last I)
    (sound : T.Sound q) (visits : ∀ fifos, (order fifos).Perm fifos)
    (fetches : fetch p₁ = .ok fetched p) (conveys : p.Conveys T I q l base moved steps gone) :
    ∃ some moved' steps' gone' p', pass order p₁ = .ok some p' ∧
      p'.Conveys T I q l base moved' steps' gone' ∧
      ((∀ packet ∈ T.packets, Traffic.Ended moved' packet) ∧ gone' = T.packets.length ∨
        p'.toGo last steps' < p.toGo last steps) ∧
      ((∀ packet ∈ T.packets, Traffic.Ended moved' packet) → gone' = T.packets.length) ∧
      (some = false →
        (∀ packet ∈ T.packets, Traffic.Ended moved' packet) ∧ gone' = T.packets.length) ∧
      ((∀ packet ∈ T.packets, Traffic.Ended moved packet) →
        moved' = moved ∧ gone' = T.packets.length ∧
          (gone = T.packets.length → some = (fetched || p.fabric.tiles.runKernels.1))) := by
  obtain ⟨stepped, moved', steps', p₂, executed, conveys₂, low, high, fewer, closer, idle, whole⟩ :=
    conveys.execute_ok conducts sound visits
  obtain ⟨retired, gone', p₃, gone_ok, conveys₃, tiles, fifos, all, none⟩ := conveys₂.retireFront_ok
  refine ⟨fetched || stepped || retired, moved', steps', gone', p₃, ?_, conveys₃, ?_, all, ?_, ?_⟩
  · exact pass_done fetches executed gone_ok
  · rw [toGo, toGo, fifos]
    rcases closer with less | more | ended
    · exact .inr (by omega)
    · exact .inr (by omega)
    · exact .inl ⟨ended, all ended⟩
  · intro still
    simp only [Bool.or_eq_false_iff] at still
    have ended := idle still.1.2
    exact ⟨ended, all ended⟩
  · intro ended
    obtain ⟨same, rfl⟩ := whole ended
    refine ⟨rfl, all ended, fun whole => ?_⟩
    rw [none whole, same, Bool.or_false]

end Conveys

end Plant

namespace Site

variable {T : Traffic} {I : Counts → Nat → TileArray → Prop} {last steps gone : Nat}
  {moved : Counts} {l : Log} {base : FabricStatus} {s : Site} {p : Plant}

-- Passes one after the other, each with an order of its own.
def polls (s : Site) (orders : Nat → Order) : Nat → Site
  | 0 => s
  | passes + 1 => (s.polls orders passes).poll (orders passes)

def Arrived (s : Site) (T : Traffic) (I : Counts → Nat → TileArray → Prop) (l : Log)
    (base : FabricStatus) : Prop :=
  ∃ moved steps, s.plant.Conveys T I s.queue l base moved steps T.packets.length ∧
    ∀ packet ∈ T.packets, Traffic.Ended moved packet

-- A pass fetches the packets, if that is still to be done, and has so much of them left to move.
def Nears (s : Site) (T : Traffic) (I : Counts → Nat → TileArray → Prop) (l : Log)
    (base : FabricStatus) (last toGo : Nat) : Prop :=
  s.plant.fabric.running = true ∧ ∃ fetched p moved steps gone, s.plant.fetch = .ok fetched p ∧
    p.memory = s.plant.memory ∧ (0 < gone → p = s.plant) ∧
    p.Conveys T I s.queue l base moved steps gone ∧
    ((∀ packet ∈ T.packets, Traffic.Ended moved packet) → gone = T.packets.length) ∧
    p.toGo last steps ≤ toGo

theorem polls_queue (s : Site) (orders : Nat → Order) (passes : Nat) :
    (s.polls orders passes).queue = s.queue := by
  induction passes with
  | zero => rfl
  | succ passes ih => exact ih

theorem polls_stopped {orders : Nat → Order} {passes : Nat}
    (stopped : (s.polls orders passes).plant.fabric.running = false) (later : Nat) :
    s.polls orders (passes + later) = s.polls orders passes := by
  induction later with
  | zero => rfl
  | succ later ih =>
    rw [← Nat.add_assoc, polls, ih, Site.poll, Plant.poll, stopped]
    rfl

theorem polls_halted (orders : Nat → Order)
    (stopped : (s.poll (orders 0)).plant.fabric.running = false) (later : Nat) :
    s.polls orders (later + 1) = s.poll (orders 0) := by
  have first : (s.polls orders 1).plant.fabric.running = false := stopped
  rw [Nat.add_comm, polls_stopped first]
  rfl

section Poll

variable {order : Order} {toGo : Nat} (conducts : T.Conducts last I) (sound : T.Sound s.queue)
  (visits : ∀ fifos, (order fifos).Perm fifos)

include conducts sound visits

theorem Nears.poll (nears : s.Nears T I l base last toGo) :
    (s.poll order).Arrived T I l base ∨ (s.plant.poll order).1 = true ∧
      ∃ less < toGo, (s.poll order).Nears T I l base last less := by
  obtain ⟨running, fetched, p, moved, steps, gone, fetches, _, _, conveys, _, bound⟩ := nears
  obtain ⟨some, moved', steps', gone', p', ran, after, closer, all, idle, _⟩ :=
    conveys.pass_ok conducts sound visits fetches
  rw [poll_done running ran, Plant.poll_done running ran]
  rcases closer with ⟨ended, rfl⟩ | less
  · exact .inl ⟨moved', steps', after, ended⟩
  cases some with
  | true =>
    exact .inr ⟨rfl, p'.toGo last steps', by omega, after.running, false, p', moved', steps', gone',
      after.fetch_none, rfl, fun _ => rfl, after, all, Nat.le_refl _⟩
  | false =>
    obtain ⟨ended, rfl⟩ := idle rfl
    exact .inl ⟨moved', steps', after, ended⟩

theorem Arrived.poll (arrived : s.Arrived T I l base) :
    (s.poll order).Arrived T I l base ∧
      (s.plant.poll order).1 = s.plant.fabric.tiles.runKernels.1 := by
  obtain ⟨moved, steps, conveys, ended⟩ := arrived
  obtain ⟨some, moved', steps', gone', p', ran, after, _, _, _, whole⟩ :=
    conveys.pass_ok conducts sound visits conveys.fetch_none
  obtain ⟨rfl, rfl, same⟩ := whole ended
  rw [poll_done conveys.running ran, Plant.poll_done conveys.running ran]
  exact ⟨⟨moved', steps', after, ended⟩, (same rfl).trans (Bool.false_or _)⟩

end Poll

section Polls

variable {orders : Nat → Order} {toGo : Nat} (conducts : T.Conducts last I)
  (sound : T.Sound s.queue) (visits : ∀ pass fifos, (orders pass fifos).Perm fifos)
  (nears : s.Nears T I l base last toGo)

include conducts sound visits nears

theorem Nears.polls (passes : Nat) : (s.polls orders passes).Arrived T I l base ∨
    ∃ less, less + passes ≤ toGo ∧ (s.polls orders passes).Nears T I l base last less := by
  induction passes with
  | zero => exact .inr ⟨toGo, Nat.le_refl _, nears⟩
  | succ passes ih =>
    have sound' : T.Sound (s.polls orders passes).queue := by rw [polls_queue]; exact sound
    rcases ih with arrived | ⟨less, bound, nears⟩
    · exact .inl (arrived.poll conducts sound' (visits passes)).1
    · refine (nears.poll conducts sound' (visits passes)).imp id ?_
      rintro ⟨_, lesser, below, nears⟩
      exact ⟨lesser, by omega, nears⟩

theorem Nears.arrives {passes : Nat} (many : toGo < passes) :
    (s.polls orders passes).Arrived T I l base := by
  rcases nears.polls conducts sound visits passes with arrived | ⟨less, bound, _⟩
  · exact arrived
  · omega

theorem Nears.quiet (passes : Nat)
    (still : ((s.polls orders passes).plant.poll (orders passes)).1 = false) :
    (s.polls orders (passes + 1)).Arrived T I l base := by
  have sound' : T.Sound (s.polls orders passes).queue := by rw [polls_queue]; exact sound
  rcases nears.polls conducts sound visits passes with arrived | ⟨less, _, nears⟩
  · exact (arrived.poll conducts sound' (visits passes)).1
  · rcases nears.poll conducts sound' (visits passes) with arrived | ⟨more, _⟩
    · exact arrived
    · rw [still] at more
      cases more

end Polls

end Site

end FabricQueue
