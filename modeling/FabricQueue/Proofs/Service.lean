import FabricQueue.Fabric.Pass
import FabricQueue.Proofs.Refinement
import FabricQueue.Proofs.Streaming

set_option autoImplicit false

namespace FabricQueue

-- No host region shares a byte with the header or the slots of the queue.
def HostMap.Apart (hosts : HostMap) (q : Queue) : Prop :=
  ∀ r ∈ hosts.regions, r.origin + r.size ≤ q.region.origin ∨
    q.region.origin + Layout.regionSize q.capacity ≤ r.origin

section Written

-- The record of each index, as it was written last.
variable (written : Nat → Option Record)

def commandAt (j : Nat) : Option Command :=
  (written j).bind fun record => (Command.decode record).toOption

def dueAt (j : Nat) : Nat :=
  match commandAt written j with
  | some (.transfer t) => t.totalBytes
  | _ => 0

structure Executed (moved : UInt64 → Nat) (index : UInt64) : Prop where
  decoded : (commandAt written index.toNat).isSome
  paid : moved index = dueAt written index.toNat

namespace FabricStatus

-- What a packet enters in the status when it is fetched.
def enter (s : FabricStatus) : Command → FabricStatus
  | .herdInit h => s.declare h
  | .deviceInit columns => { s with deviceColumns := some columns }
  | .transfer _ => s

def entered (first : Nat) : (count : Nat) → FabricStatus
  | 0 => {}
  | count + 1 =>
    match commandAt written (first + count) with
    | some command => (entered first count).enter command
    | none => entered first count

theorem entered_next {first j : Nat} (started : first ≤ j) :
    entered written first (j - first + 1) =
      match commandAt written j with
      | some command => (entered written first (j - first)).enter command
      | none => entered written first (j - first) := by
  rw [entered, Nat.add_sub_cancel' started]

-- The part of the status that packets enter.
structure Declares (s entered : FabricStatus) : Prop where
  herds : s.herds = entered.herds
  deviceColumns : s.deviceColumns = entered.deviceColumns

theorem Declares.enter {s entered : FabricStatus} (declares : s.Declares entered)
    (command : Command) : (s.enter command).Declares (entered.enter command) := by
  cases command with
  | herdInit h =>
    exact ⟨by simp only [FabricStatus.enter, declare, declares.herds], declares.deviceColumns⟩
  | deviceInit columns => exact ⟨declares.herds, rfl⟩
  | transfer t => exact declares

end FabricStatus

variable {written} {written' : Nat → Option Record}

theorem commandAt_eq {j : Nat} {command : Command} (known : commandAt written j = some command) :
    ∃ record, written j = some record ∧ Command.decode record = .ok command := by
  obtain ⟨record, found, taken⟩ := Option.bind_eq_some_iff.mp known
  refine ⟨record, found, ?_⟩
  cases decoded : Command.decode record with
  | error cause => rw [decoded] at taken; cases taken
  | ok other => rw [decoded] at taken; exact congrArg Except.ok (Option.some.inj taken)

theorem commandAt_congr {j : Nat} (same : written' j = written j) :
    commandAt written' j = commandAt written j := by
  rw [commandAt, commandAt, same]

theorem dueAt_congr {j : Nat} (same : written' j = written j) :
    dueAt written' j = dueAt written j := by
  rw [dueAt, dueAt, commandAt_congr same]

theorem Executed.congr {moved moved' : UInt64 → Nat} {index : UInt64}
    (executed : Executed written moved index)
    (same : written' index.toNat = written index.toNat) (quiet : moved' index = moved index) :
    Executed written' moved' index :=
  ⟨by rw [commandAt_congr same]; exact executed.decoded,
    by rw [quiet, dueAt_congr same]; exact executed.paid⟩

theorem FabricStatus.entered_congr {first count : Nat}
    (same : ∀ j, first ≤ j → j < first + count → written' j = written j) :
    entered written' first count = entered written first count := by
  induction count with
  | zero => rfl
  | succ count ih =>
    rw [entered, entered, commandAt_congr (same (first + count) (by omega) (by omega)),
      ih fun j low high => same j low (by omega)]

end Written

namespace Fabric

variable {f : Fabric} {index : UInt64} {record : Record}

def jobs (f : Fabric) : List Job :=
  f.fifos.flatMap (·.jobs)

inductive Accepted (f : Fabric) (index : UInt64) (record : Record) : Progress → Fabric → Prop where
  | faulted (cause : Error)
      (undeclared : ∀ command, Command.decode record = .ok command → ∃ t, command = .transfer t) :
      Accepted f index record .faulted { f with status := f.status.fault index cause }
  | entered {command : Command} (decoded : Command.decode record = .ok command)
      (empty : ∀ t, command = .transfer t → t.totalBytes = 0) :
      Accepted f index record .done { f with status := f.status.enter command }
  | began {t : Transfer} (decoded : Command.decode record = .ok (.transfer t)) :
      Accepted f index record .running
        (f.push { index, endpoint := t.endpoint, chunks := t.chunks })

theorem byteCount_ok {t : Transfer} {count : Nat} (counted : t.byteCount = .ok count) :
    t.totalBytes = count := by
  unfold Transfer.byteCount at counted
  split at counted
  · exact Except.ok.inj counted
  · cases counted

theorem accept_cases {progress : Progress} {f' : Fabric}
    (accepted : f.accept index record = .ok (progress, f')) :
    f.Accepted index record progress f' := by
  unfold accept at accepted
  split at accepted
  next cause undecoded =>
    cases accepted
    exact .faulted _ fun command decoded => by rw [undecoded] at decoded; cases decoded
  next h decoded =>
    cases accepted
    exact .entered decoded fun t other => by cases other
  next columns decoded =>
    cases accepted
    exact .entered decoded fun t other => by cases other
  next t decoded =>
    have undeclared (command : Command) (other : Command.decode record = .ok command) :
        ∃ t, command = .transfer t := ⟨t, Except.ok.inj (other.symm.trans decoded)⟩
    unfold acceptTransfer at accepted
    split at accepted
    · cases accepted; exact .faulted _ undeclared
    split at accepted
    · cases accepted; exact .faulted _ undeclared
    split at accepted
    · cases accepted
    next counted =>
      cases accepted
      refine .entered (f := f) decoded fun t' same => ?_
      cases same
      exact byteCount_ok counted
    · cases accepted; exact .began decoded

theorem accept_overflows (f : Fabric) (index : UInt64) (record : Record) :
    Plant.OnlyOverflows (f.accept index record) := by
  intro failure failed
  unfold accept at failed
  split at failed
  · cases failed
  · cases failed
  · cases failed
  · unfold acceptTransfer at failed
    split at failed
    · cases failed
    split at failed
    · cases failed
    split at failed <;> cases failed
    exact ⟨_, rfl⟩

theorem push_fifos {fifos : List Fifo} (job : Job) (distinct : (fifos.map (·.endpoint)).Nodup)
    (known : job.endpoint ∈ fifos.map (·.endpoint)) :
    ((fifos.map fun q => if q.endpoint = job.endpoint then { q with jobs := q.jobs ++ [job] }
      else q).flatMap (·.jobs)).Perm (job :: fifos.flatMap (·.jobs)) := by
  induction fifos with
  | nil => cases known
  | cons q fifos ih =>
    rw [List.map_cons, List.nodup_cons] at distinct
    simp only [List.map_cons, List.flatMap_cons]
    by_cases here : q.endpoint = job.endpoint
    · have rest : (fifos.map fun q => if q.endpoint = job.endpoint
          then { q with jobs := q.jobs ++ [job] } else q) = fifos := by
        refine (List.map_congr_left fun other member => if_neg fun same => ?_).trans
          (List.map_id _)
        exact distinct.1 (here.trans same.symm ▸ List.mem_map_of_mem member)
      rw [if_pos here, rest]
      simp
    · rw [if_neg here]
      have further := ih distinct.2 (List.mem_of_ne_of_mem (Ne.symm here) known)
      exact (further.append_left q.jobs).trans List.perm_middle

theorem push_endpoints (fifos : List Fifo) (job : Job) :
    (fifos.map fun q => if q.endpoint = job.endpoint then { q with jobs := q.jobs ++ [job] }
      else q).map (·.endpoint) = fifos.map (·.endpoint) := by
  rw [List.map_map]
  apply List.map_congr_left
  intro q _
  simp only [Function.comp_apply]
  split <;> rfl

theorem push_spec (job : Job) (distinct : (f.fifos.map (·.endpoint)).Nodup) :
    ∃ fifos, f.push job = { f with fifos } ∧
      (fifos.flatMap (·.jobs)).Perm (job :: f.jobs) ∧ (fifos.map (·.endpoint)).Nodup := by
  unfold push
  by_cases known : job.endpoint ∈ f.fifos.map (·.endpoint)
  · rw [if_pos (by simpa using known)]
    exact ⟨_, rfl, push_fifos job distinct known, by rw [push_endpoints]; exact distinct⟩
  · rw [if_neg (by simpa using known)]
    refine ⟨_, rfl, ?_, ?_⟩
    · simp [jobs]
    · rw [List.map_append, List.nodup_append]
      refine ⟨distinct, List.nodup_singleton _, fun endpoint old other new same => known ?_⟩
      simp only [List.map_cons, List.map_nil, List.mem_singleton] at new
      rw [← new, ← same]
      exact old

end Fabric

namespace Plant

-- A fabric that took up the queue at `first` and has moved these bytes since.
structure Serves (p : Plant) (q : Queue) (first : Nat) (moved : Moves) (l : Log) : Prop where
  shows : q.Shows p.memory l
  port : p.fabric.consumer = q.port
  apart : p.fabric.hosts.Apart q
  running : p.fabric.running = true
  started : first ≤ l.retired
  counted : p.fabric.status.retired + first = l.retired
  bytes : p.fabric.status.bytesMoved = moved.total
  behind : l.retired ≤ p.fabric.nextFetch.toNat
  published : p.fabric.nextFetch.toNat ≤ l.published
  flight : p.fabric.inFlight.map (·.index.toNat) =
    List.range' l.retired (p.fabric.nextFetch.toNat - l.retired)
  endpoints : (p.fabric.fifos.map (·.endpoint)).Nodup
  distinct : (p.fabric.jobs.map (·.index)).Nodup
  owes : ∀ job ∈ p.fabric.jobs, ⟨job.index, .running⟩ ∈ p.fabric.inFlight ∧
    job.chunks.InRange ∧ (commandAt l.written job.index.toNat).isSome ∧
      moved.of job.index + job.bytesLeft = dueAt l.written job.index.toNat
  done : ∀ index, ⟨index, .done⟩ ∈ p.fabric.inFlight → Executed l.written moved.of index
  once : (p.fabric.status.faults.map (·.index)).Nodup
  -- A faulted packet never leaves, so nothing behind it is retired.
  stuck : ∀ fault ∈ p.fabric.status.faults, ⟨fault.index, .faulted⟩ ∈ p.fabric.inFlight
  fresh : ∀ index, p.fabric.nextFetch ≤ index → moved.of index = 0
  executed : ∀ index, first ≤ index.toNat → index.toNat < l.retired →
    Executed l.written moved.of index
  declares : p.fabric.status.Declares (.entered l.written first (p.fabric.nextFetch.toNat - first))

namespace Serves

variable {p : Plant} {q : Queue} {first : Nat} {moved : Moves} {l : Log}

theorem flight_bounds (serves : p.Serves q first moved l) {e : InFlight}
    (member : e ∈ p.fabric.inFlight) :
    l.retired ≤ e.index.toNat ∧ e.index.toNat < p.fabric.nextFetch.toNat := by
  have among : e.index.toNat ∈ p.fabric.inFlight.map (·.index.toNat) :=
    List.mem_map_of_mem member
  rw [serves.flight, List.mem_range'_1] at among
  omega

theorem flight_unique (serves : p.Serves q first moved l) {e e' : InFlight}
    (member : e ∈ p.fabric.inFlight) (member' : e' ∈ p.fabric.inFlight)
    (same : e.index = e'.index) : e = e' := by
  have distinct : (p.fabric.inFlight.map (·.index.toNat)).Nodup := by
    rw [serves.flight]
    exact List.nodup_range'
  exact List.inj_on_of_nodup_map distinct member member' (congrArg UInt64.toNat same)

theorem next_toNat (serves : p.Serves q first moved l)
    (below : p.fabric.nextFetch.toNat < l.published) :
    (p.fabric.nextFetch + 1).toNat = p.fabric.nextFetch.toNat + 1 := by
  have word := serves.shows.sound.published_word
  exact toNat_succ (by omega)

theorem extend {f' : Fabric} {progress : Progress} (serves : p.Serves q first moved l)
    (began : Option Job) (cause : Option Error) (below : p.fabric.nextFetch.toNat < l.published)
    (same : f' = { p.fabric with status := f'.status, fifos := f'.fifos })
    (counts : f'.status.retired = p.fabric.status.retired ∧
      f'.status.bytesMoved = p.fabric.status.bytesMoved)
    (endpoints : (f'.fifos.map (·.endpoint)).Nodup)
    (jobs : f'.jobs.Perm (began.toList ++ p.fabric.jobs))
    (begins : ∀ job ∈ began, job.index = p.fabric.nextFetch ∧ progress = .running ∧
      job.chunks.InRange ∧ (commandAt l.written job.index.toNat).isSome ∧
        job.bytesLeft = dueAt l.written job.index.toNat)
    (faults : f'.status.faults =
      p.fabric.status.faults ++ (cause.map fun e => ⟨p.fabric.nextFetch, e⟩).toList)
    (fails : cause.isSome → progress = .faulted)
    (ends : progress = .done → (commandAt l.written p.fabric.nextFetch.toNat).isSome ∧
      dueAt l.written p.fabric.nextFetch.toNat = 0)
    (declares : f'.status.Declares
      (.entered l.written first (p.fabric.nextFetch.toNat - first + 1))) :
    Plant.Serves ⟨{ f' with
      inFlight := p.fabric.inFlight ++ [⟨p.fabric.nextFetch, progress⟩]
      nextFetch := p.fabric.nextFetch + 1 }, p.memory⟩ q first moved l := by
  have next := serves.next_toNat below
  have started := serves.started
  have behind := serves.behind
  have newest : moved.of p.fabric.nextFetch = 0 := serves.fresh _ (UInt64.le_refl _)
  -- What is known about the packets in flight says nothing about the new index.
  have older {e : InFlight} (member : e ∈ p.fabric.inFlight) : e.index ≠ p.fabric.nextFetch := by
    intro equal
    have bounds := serves.flight_bounds member
    rw [equal] at bounds
    omega
  rw [same]
  refine { serves with
    counted := ?counted, bytes := ?bytes, behind := ?behind, published := ?published
    flight := ?flight, endpoints, distinct := ?distinct, owes := ?owes, done := ?done
    once := ?once, stuck := ?stuck, fresh := ?fresh, declares := ?declares }
  case counted => simp only [counts.1]; exact serves.counted
  case bytes => simp only [counts.2]; exact serves.bytes
  case behind => simp only [next]; omega
  case published => simp only [next]; omega
  case flight =>
    have count : (p.fabric.nextFetch + 1).toNat - l.retired =
        p.fabric.nextFetch.toNat - l.retired + 1 := by omega
    simp only [List.map_append, serves.flight, List.map_cons, List.map_nil, count,
      List.range'_concat, Nat.one_mul]
    congr 2
    omega
  case distinct =>
    apply (jobs.map _).nodup_iff.mpr
    cases began with
    | none => exact serves.distinct
    | some job =>
      refine List.nodup_cons.mpr ⟨fun old => ?_, serves.distinct⟩
      obtain ⟨other, among, equal⟩ := List.mem_map.mp old
      exact older (serves.owes other among).1 (equal.trans (begins job rfl).1)
  case owes =>
    intro job member
    rcases List.mem_append.mp (jobs.subset member) with new | old
    · obtain ⟨index, running, inRange, decoded, owed⟩ := begins job (Option.mem_toList.mp new)
      refine ⟨?_, inRange, decoded, ?_⟩
      · rw [index, ← running]; exact List.mem_append_right _ List.mem_cons_self
      · rw [index] at owed ⊢; rw [newest, Nat.zero_add, owed]
    · obtain ⟨among, rest⟩ := serves.owes job old
      exact ⟨List.mem_append_left _ among, rest⟩
  case done =>
    intro index member
    rcases List.mem_append.mp member with old | new
    · exact serves.done index old
    · simp only [List.mem_singleton, InFlight.mk.injEq] at new
      obtain ⟨rfl, finished⟩ := new
      obtain ⟨decoded, empty⟩ := ends finished.symm
      exact ⟨decoded, newest.trans empty.symm⟩
  case once =>
    simp only [faults, List.map_append]
    cases cause with
    | none => simpa using serves.once
    | some e =>
      refine List.nodup_append.mpr ⟨serves.once, List.nodup_singleton _, ?_⟩
      intro index old other new equal
      obtain ⟨fault, among, rfl⟩ := List.mem_map.mp old
      simp only [Option.map_some, Option.toList_some, List.map_cons, List.map_nil,
        List.mem_singleton] at new
      exact older (serves.stuck fault among) (equal.trans new)
  case stuck =>
    intro fault member
    simp only [faults] at member
    rcases List.mem_append.mp member with old | new
    · exact List.mem_append_left _ (serves.stuck fault old)
    · cases cause with
      | none => cases new
      | some e =>
        simp only [Option.map_some, Option.toList_some, List.mem_singleton] at new
        rw [new, fails rfl]
        exact List.mem_append_right _ List.mem_cons_self
  case fresh =>
    intro index beyond
    apply serves.fresh index
    rw [UInt64.le_iff_toNat_le] at beyond ⊢
    rw [next] at beyond
    omega
  case declares =>
    have count : (p.fabric.nextFetch + 1).toNat - first =
        p.fabric.nextFetch.toNat - first + 1 := by omega
    simp only [count]
    exact declares

theorem accepted (serves : p.Serves q first moved l) {record written : Record}
    {progress : Progress} {f' : Fabric} (below : p.fabric.nextFetch.toNat < l.published)
    (found : l.written p.fabric.nextFetch.toNat = some written)
    (same : Command.decode record = Command.decode written)
    (accepted : p.fabric.Accepted p.fabric.nextFetch record progress f') :
    Plant.Serves ⟨{ f' with
      inFlight := p.fabric.inFlight ++ [⟨p.fabric.nextFetch, progress⟩]
      nextFetch := p.fabric.nextFetch + 1 }, p.memory⟩ q first moved l ∧
    p.fabric.status.faults ⊆ f'.status.faults ∧ f'.inFlight = p.fabric.inFlight := by
  have command : commandAt l.written p.fabric.nextFetch.toNat =
      (Command.decode record).toOption := by
    rw [commandAt, found, same]
    rfl
  have entered := FabricStatus.entered_next l.written (Nat.le_trans serves.started serves.behind)
  rw [command] at entered
  cases accepted with
  | faulted cause undeclared =>
    refine ⟨serves.extend none (some cause) below rfl ⟨rfl, rfl⟩ serves.endpoints
      (List.Perm.refl _) nofun rfl (fun _ => rfl) nofun ?_, List.subset_append_left _ _, rfl⟩
    rw [entered]
    cases decoded : Command.decode record with
    | error e => exact ⟨serves.declares.herds, serves.declares.deviceColumns⟩
    | ok command =>
      obtain ⟨t, rfl⟩ := undeclared command decoded
      exact ⟨serves.declares.herds, serves.declares.deviceColumns⟩
  | @entered declared decoded empty =>
    have due : dueAt l.written p.fabric.nextFetch.toNat = 0 := by
      rw [dueAt, command, decoded]
      cases declared with
      | transfer t => exact empty t rfl
      | _ => rfl
    have kept : ((p.fabric.status.enter declared).retired = p.fabric.status.retired ∧
          (p.fabric.status.enter declared).bytesMoved = p.fabric.status.bytesMoved) ∧
        (p.fabric.status.enter declared).faults = p.fabric.status.faults := by
      cases declared <;> exact ⟨⟨rfl, rfl⟩, rfl⟩
    refine ⟨serves.extend none none below rfl kept.1 serves.endpoints
      (List.Perm.refl _) nofun ?_ nofun (fun _ => ⟨?_, due⟩) ?_, ?_, rfl⟩
    · simpa using kept.2
    · rw [command, decoded]; rfl
    · rw [entered, decoded]
      exact serves.declares.enter declared
    · simp only [kept.2]; exact List.Subset.refl _
  | @began t decoded =>
    obtain ⟨fifos, pushed, jobs, endpoints⟩ := Fabric.push_spec
      { index := p.fabric.nextFetch, endpoint := t.endpoint, chunks := t.chunks } serves.endpoints
    rw [pushed]
    refine ⟨serves.extend (some _) none below rfl ⟨rfl, rfl⟩ endpoints jobs ?_
      (List.append_nil _).symm nofun nofun ?_, List.Subset.refl _, rfl⟩
    · rintro job ⟨⟩
      refine ⟨rfl, rfl, t.chunks_inRange, ?_, ?_⟩
      · rw [command, decoded]; rfl
      · rw [Job.start_bytesLeft, dueAt, command, decoded]
        rfl
    · rw [entered, decoded]
      exact serves.declares

end Serves

end Plant

end FabricQueue
