import FabricQueue.Proofs.Integrity
import Mathlib.Data.List.Induction

set_option autoImplicit false

namespace FabricQueue

namespace Record

def herd? (record : Record) : Option Herd :=
  match Command.decode record with
  | .ok (.herdInit h) => some h
  | _ => none

def columns? (record : Record) : Option UInt8 :=
  match Command.decode record with
  | .ok (.deviceInit columns) => some columns
  | _ => none

def herdAt (records : List Record) (i : Nat) : Option Herd :=
  records[i]?.bind herd?

def Latest (records : List Record) (i : Nat) (h : Herd) : Prop :=
  herdAt records i = some h ∧ ∀ j h', i < j → herdAt records j = some h' → h'.id ≠ h.id

variable {records : List Record} {record : Record} {i : Nat} {h new : Herd}

theorem herdAt_lt (known : herdAt records i = some h) : i < records.length := by
  obtain ⟨_, found, _⟩ := Option.bind_eq_some_iff.mp known
  exact (List.getElem?_eq_some_iff.mp found).1

theorem herdAt_last (records : List Record) (record : Record) :
    herdAt (records ++ [record]) records.length = record.herd? := by
  rw [herdAt, List.getElem?_concat_length]
  rfl

theorem herdAt_other (records : List Record) (record : Record) (other : i ≠ records.length) :
    herdAt (records ++ [record]) i = herdAt records i := by
  rw [herdAt, herdAt]
  rcases Nat.lt_or_gt_of_ne other with before | behind
  · rw [List.getElem?_append_left before]
  · have past : (records ++ [record]).length ≤ i := by
      rw [List.length_append]
      exact behind
    rw [List.getElem?_eq_none past, List.getElem?_eq_none (Nat.le_of_lt behind)]

theorem latest_other (none : record.herd? = none) :
    Latest (records ++ [record]) i h ↔ Latest records i h := by
  have same (j : Nat) : herdAt (records ++ [record]) j = herdAt records j := by
    by_cases last : j = records.length
    · rw [last, herdAt_last, none, herdAt, List.getElem?_eq_none (Nat.le_refl _)]
      rfl
    · exact herdAt_other records record last
  simp only [Latest, same]

theorem latest_new (declared : record.herd? = some new) : Latest (records ++ [record]) i h ↔
    i = records.length ∧ h = new ∨ Latest records i h ∧ h.id ≠ new.id := by
  have last := (herdAt_last records record).trans declared
  constructor
  · rintro ⟨here, final⟩
    by_cases newest : i = records.length
    · subst newest
      exact .inl ⟨rfl, Option.some.inj (here.symm.trans last)⟩
    · rw [herdAt_other records record newest] at here
      refine .inr ⟨⟨here, fun j h' later known => final j h' later ?_⟩,
        (final _ _ (herdAt_lt here) last).symm⟩
      rwa [herdAt_other records record (Nat.ne_of_lt (herdAt_lt known))]
  · rintro (⟨rfl, rfl⟩ | ⟨⟨here, final⟩, apart⟩)
    · refine ⟨last, fun j h' later known => ?_⟩
      rw [herdAt_other records record (Nat.ne_of_gt later)] at known
      exact absurd (herdAt_lt known) (Nat.not_lt.mpr (Nat.le_of_lt later))
    · refine ⟨(herdAt_other records record (Nat.ne_of_lt (herdAt_lt here))).trans here,
        fun j h' later known => ?_⟩
      by_cases newest : j = records.length
      · rw [newest, last] at known
        cases known
        exact apart.symm
      · exact final j h' later ((herdAt_other records record newest).symm.trans known)

end Record

namespace FabricStatus

open Record (Latest latest_other latest_new)

variable {s s' s'' : FabricStatus}

theorem Declares.refl (s : FabricStatus) : s.Declares s :=
  ⟨rfl, rfl⟩

theorem Declares.trans (first : s''.Declares s') (second : s'.Declares s) : s''.Declares s :=
  ⟨first.herds.trans second.herds, first.deviceColumns.trans second.deviceColumns⟩

/-- Enter what a record declares. -/
def note (s : FabricStatus) (record : Record) : FabricStatus :=
  match Command.decode record with
  | .ok command => s.enter command
  | .error _ => s

theorem Declares.note (declares : s.Declares s') (record : Record) :
    (s.note record).Declares (s'.note record) := by
  unfold FabricStatus.note
  cases Command.decode record with
  | ok command => exact declares.enter command
  | error cause => exact declares

theorem Declares.notes (declares : s.Declares s') (records : List Record) :
    (records.foldl FabricStatus.note s).Declares (records.foldl FabricStatus.note s') := by
  induction records generalizing s s' with
  | nil => exact declares
  | cons record rest ih => exact ih (declares.note record)

theorem note_herds (s : FabricStatus) (record : Record) : (s.note record).herds =
    match record.herd? with
    | some h => (s.declare h).herds
    | none => s.herds := by
  unfold note Record.herd?
  cases Command.decode record with
  | error cause => rfl
  | ok command => cases command <;> rfl

theorem note_columns (s : FabricStatus) (record : Record) :
    (s.note record).deviceColumns = record.columns?.or s.deviceColumns := by
  unfold note Record.columns?
  cases Command.decode record with
  | error cause => rfl
  | ok command => cases command <;> rfl

theorem notes_herds (records : List Record) (s : FabricStatus) :
    (records.foldl note s).herds = ((records.filterMap Record.herd?).foldl declare s).herds := by
  have congruent (herds : List Herd) {s s' : FabricStatus} (same : s.herds = s'.herds) :
      (herds.foldl declare s).herds = (herds.foldl declare s').herds := by
    induction herds generalizing s s' with
    | nil => exact same
    | cons h rest ih => exact ih (by simp only [declare, same])
  induction records generalizing s with
  | nil => rfl
  | cons record rest ih =>
    have here := s.note_herds record
    rw [List.foldl_cons, ih, List.filterMap_cons]
    cases declared : record.herd? with
    | none =>
      rw [declared] at here
      exact congruent _ here
    | some h =>
      rw [declared] at here
      exact congruent _ here

theorem notes_columns (records : List Record) :
    (records.foldl note {}).deviceColumns = (records.filterMap Record.columns?).getLast? := by
  induction records using List.reverseRecOn with
  | nil => rfl
  | append_singleton records record ih =>
    rw [List.foldl_append, List.foldl_cons, List.foldl_nil, note_columns, ih, List.filterMap_append,
      List.getLast?_append]
    cases declared : record.columns? with
    | none => simp [declared]
    | some columns => simp [declared]

-- The herds of records: the last one of each number, in the order of their positions.
structure Lists (records : List Record) (herds : List Herd) : Prop where
  ids : ∀ id, id ∈ herds.map (·.id) ↔ ∃ record ∈ records, ∃ h, record.herd? = some h ∧ h.id = id
  once : (herds.map (·.id)).Nodup
  order : ∃ entries : List (Nat × Herd), herds = entries.map Prod.snd ∧
    entries.Pairwise (·.1 < ·.1) ∧ ∀ i h, (i, h) ∈ entries ↔ Latest records i h

theorem mem_declare {id : UInt16} (s : FabricStatus) (new : Herd) :
    id ∈ (s.declare new).herds.map (·.id) ↔ id ∈ s.herds.map (·.id) ∨ id = new.id := by
  simp only [declare, List.map_append, List.mem_append, List.map_singleton, List.mem_singleton]
  by_cases same : id = new.id
  · simp only [same, or_true]
  · simp only [same, or_false, List.mem_map, List.mem_filter]
    refine exists_congr fun h => and_congr_left fun here => and_iff_left ?_
    simpa [here] using same

theorem notes_ids (records : List Record) (id : UInt16) :
    id ∈ (records.foldl note {}).herds.map (·.id) ↔
      ∃ record ∈ records, ∃ h, record.herd? = some h ∧ h.id = id := by
  induction records using List.reverseRecOn with
  | nil => simp
  | append_singleton records record ih =>
    simp only [List.foldl_append, List.foldl_cons, List.foldl_nil, note_herds, List.mem_append,
      List.mem_singleton, or_and_right, exists_or, exists_eq_left]
    cases declared : record.herd? with
    | none => simpa using ih
    | some new => simp only [mem_declare, ih, Option.some.injEq, exists_eq_left', eq_comm]

theorem notes_entries (records : List Record) :
    ∃ entries : List (Nat × Herd), (records.foldl note {}).herds = entries.map Prod.snd ∧
      entries.Pairwise (·.1 < ·.1) ∧ ∀ i h, (i, h) ∈ entries ↔ Latest records i h := by
  induction records using List.reverseRecOn with
  | nil => exact ⟨[], rfl, .nil, fun i h => by simp [Latest, Record.herdAt]⟩
  | append_singleton records record ih =>
    obtain ⟨entries, herds, sorted, latest⟩ := ih
    rw [List.foldl_append, List.foldl_cons, List.foldl_nil, note_herds]
    cases declared : record.herd? with
    | none => exact ⟨entries, herds, sorted, fun i h => (latest i h).trans (latest_other declared).symm⟩
    | some new =>
      refine ⟨entries.filter (fun entry => entry.2.id ≠ new.id) ++ [(records.length, new)], ?_, ?_,
        fun i h => ?_⟩
      · simp only [declare, herds, List.filter_map, List.map_append]
        rfl
      · refine List.pairwise_append.mpr ⟨sorted.filter _, List.pairwise_singleton _ _, ?_⟩
        rintro ⟨i, h⟩ old last newest
        rw [List.mem_singleton.mp newest]
        exact Record.herdAt_lt ((latest i h).mp (List.mem_of_mem_filter old)).1
      · rw [latest_new declared, List.mem_append, List.mem_filter, List.mem_singleton, latest,
          Prod.mk.injEq, decide_eq_true_eq, or_comm]

theorem notes_list (records : List Record) : Lists records (records.foldl note {}).herds := by
  obtain ⟨entries, herds, sorted, latest⟩ := notes_entries records
  refine ⟨notes_ids records, ?_, entries, herds, sorted, latest⟩
  rw [herds, List.map_map]
  refine List.pairwise_map.mpr (sorted.imp_of_mem fun {first second} member member' before => ?_)
  exact (((latest _ _).mp member).2 _ _ before ((latest _ _).mp member').1).symm

end FabricStatus

namespace Fabric

variable {f f' : Fabric} {index : UInt64} {record : Record} {progress : Progress}

theorem accept_notes (accepted : f.accept index record = .ok (progress, f')) :
    f'.status.Declares (f.status.note record) := by
  unfold FabricStatus.note
  cases accept_cases accepted with
  | faulted cause undeclared =>
    cases decoded : Command.decode record with
    | error _ => exact ⟨rfl, rfl⟩
    | ok command =>
      obtain ⟨t, rfl⟩ := undeclared command decoded
      exact ⟨rfl, rfl⟩
  | entered decoded _ =>
    rw [decoded]
    exact .refl _
  | began decoded =>
    rw [decoded]
    unfold push
    split <;> exact ⟨rfl, rfl⟩

theorem accept_failed {failure : Failure} (failed : f.accept index record = .error failure) :
    f.status.Declares (f.status.note record) := by
  unfold FabricStatus.note
  unfold accept at failed
  split at failed <;> try cases failed
  next t decoded =>
    rw [decoded]
    exact .refl _

end Fabric

namespace Plant

def declared (p : Plant) : List Herd × Option UInt8 :=
  (p.fabric.status.herds, p.fabric.status.deviceColumns)

theorem declares_of_same {p p' : Plant} (same : p'.declared = p.declared) :
    p'.fabric.status.Declares p.fabric.status :=
  ⟨congrArg Prod.fst same, congrArg Prod.snd same⟩

theorem execute_declared (order : Order) : Fixes declared (execute order) :=
  execute_spares (exchange_fixes (fun _ => onMemory_spares _ fun _ _ _ => rfl)
      fun _ => onTiles_fixes _ fun _ _ _ => rfl) order
    (fun _ _ _ => rfl) (fun _ _ _ => rfl) fun _ _ _ _ _ => rfl

theorem retireFront_declared (flight : List InFlight) : Fixes declared (retireFront flight) :=
  retireFront_spares flight (fun _ => onMemory_spares _ fun _ _ _ => rfl) fun _ _ _ _ => rfl

section Fetching

/-- The records among the next `count` fetches. -/
def takings : (count : Nat) → Plant → List Record
  | 0, _ => []
  | count + 1, p =>
    match onMemory (p.fabric.consumer.fetch p.fabric.nextFetch) p with
    | .ok (some record) p' =>
      record :: match p.fabric.accept p.fabric.nextFetch record with
        | .ok (progress, f) => takings count ⟨{ f with
            inFlight := f.inFlight ++ [⟨p.fabric.nextFetch, progress⟩]
            nextFetch := p.fabric.nextFetch + 1 }, p'.memory⟩
        | .error _ => []
    | _ => []

theorem fetchNext_notes (count : Nat) (p : Plant) : (after (fetchNext count p)).fabric.status.Declares
    ((takings count p).foldl FabricStatus.note p.fabric.status) := by
  induction count generalizing p with
  | zero => exact .refl _
  | succ count ih =>
    rw [takings]
    obtain ⟨failure, m, found⟩ | ⟨fetched, m, found⟩ :=
      onMemory_cases (p.fabric.consumer.fetch p.fabric.nextFetch) p
    · rw [fetchNext_failed found, found]
      exact .refl _
    · rw [found]
      cases fetched with
      | none =>
        rw [fetchNext_none found]
        exact .refl _
      | some record =>
        simp only [List.foldl_cons]
        cases accepted : p.fabric.accept p.fabric.nextFetch record with
        | error failure =>
          rw [fetchNext_refused found accepted]
          exact Fabric.accept_failed accepted
        | ok result =>
          obtain ⟨progress, f'⟩ := result
          rw [fetchNext_some found accepted, after_bind_pure]
          exact (ih _).trans ((Fabric.accept_notes accepted).notes _)

end Fetching

-- The life of a fabric with the records that it fetches. Others may change its memory and its tiles at
-- any time, also between the parts of a pass.
inductive Intake (start : Plant) : List Record → Plant → Prop where
  | start : Intake start [] start
  | disturb {records : List Record} {p : Plant} (intake : Intake start records p) (memory : Memory)
      (tiles : TileArray) : Intake start records ⟨{ p.fabric with tiles }, memory⟩
  | fetch {records : List Record} {p : Plant} (intake : Intake start records p) (count : Nat) :
      Intake start (records ++ takings count p) (after (fetchNext count p))
  | execute {records : List Record} {p : Plant} (intake : Intake start records p) (order : Order) :
      Intake start records (after (execute order p))
  | retire {records : List Record} {p : Plant} (intake : Intake start records p) :
      Intake start records (after (retireFront p.fabric.inFlight p))
  | stop {records : List Record} {p : Plant} (intake : Intake start records p) :
      Intake start records ⟨{ p.fabric with running := false }, p.memory⟩

/-- The records that a pass fetches. -/
def passTakings (p : Plant) : List Record :=
  match onMemory p.fabric.consumer.published p with
  | .ok published p' => takings (published.toNat - p.fabric.nextFetch.toNat) p'
  | .error _ _ => []

section Life

variable {start p : Plant} {records : List Record}

theorem Intake.notes (intake : Intake start records p) :
    p.fabric.status.Declares (records.foldl FabricStatus.note start.fabric.status) := by
  induction intake with
  | start => exact .refl _
  | disturb _ memory tiles ih => exact ⟨ih.herds, ih.deviceColumns⟩
  | fetch _ count ih =>
    rw [List.foldl_append]
    exact (fetchNext_notes count _).trans (ih.notes _)
  | execute _ order ih =>
    exact (declares_of_same (fixes_iff.mp (execute_declared order) _)).trans ih
  | retire _ ih => exact (declares_of_same (fixes_iff.mp (retireFront_declared _) _)).trans ih
  | stop _ ih => exact ⟨ih.herds, ih.deviceColumns⟩

theorem Intake.fetchAll (intake : Intake start records p) :
    Intake start (records ++ passTakings p) (after (Plant.fetch p)) := by
  rw [passTakings]
  obtain ⟨failure, m, published⟩ | ⟨word, m, published⟩ :=
    onMemory_cases p.fabric.consumer.published p
  · rw [fetch_failed published, published, List.append_nil]
    exact intake.disturb m p.fabric.tiles
  · rw [fetch_read published, published]
    exact (intake.disturb m p.fabric.tiles).fetch _

theorem Intake.poll (intake : Intake start records p) (running : p.fabric.running = true)
    (order : Order) : Intake start (records ++ passTakings p) (p.poll order).2 := by
  have fetched := intake.fetchAll
  rw [Plant.poll, if_pos running]
  cases first : Plant.fetch p with
  | error failure p₁ =>
    have failed : pass order p = .error failure p₁ := bind_error first
    rw [first] at fetched
    rw [failed]
    exact fetched.stop
  | ok some p₁ =>
    rw [first] at fetched
    have executed : Intake start (records ++ passTakings p) (after (Plant.execute order p₁)) :=
      fetched.execute order
    cases second : Plant.execute order p₁ with
    | error failure p₂ =>
      have failed : pass order p = .error failure p₂ := (bind_ok first).trans (bind_error second)
      rw [second] at executed
      rw [failed]
      exact executed.stop
    | ok moved p₂ =>
      rw [second] at executed
      have retired : Intake start (records ++ passTakings p)
          (after (retireFront p₂.fabric.inFlight p₂)) := executed.retire
      have rest : pass order p = (retireFront p₂.fabric.inFlight >>= fun retired =>
          pure (some || moved || retired)) p₂ :=
        (bind_ok first).trans ((bind_ok second).trans (bind_ok rfl))
      rw [rest]
      cases third : retireFront p₂.fabric.inFlight p₂ with
      | error failure p₃ =>
        rw [third] at retired
        rw [bind_error third]
        exact retired.stop
      | ok gone p₃ =>
        rw [third] at retired
        rw [bind_ok third]
        exact retired

end Life

-- The status of a fabric is made of what it fetched: the herds that were declared last, and the last
-- column count. Another fabric that was told the same of herds, or of columns, says the same, whatever
-- its transfers, its tiles and its orders.
theorem intake_status {r : Region} {hosts : HostMap} {tiles : TileArray} {m m' : Memory} {f : Fabric}
    {p : Plant} {records : List Record} (spawned : Fabric.spawn r hosts tiles m = .ok f m')
    (intake : Intake ⟨f, m'⟩ records p) :
    FabricStatus.Lists records p.fabric.status.herds ∧
    p.fabric.status.deviceColumns = (records.filterMap Record.columns?).getLast? ∧
    ∀ {r₂ : Region} {hosts₂ : HostMap} {tiles₂ : TileArray} {m₂ m₂' : Memory} {f₂ : Fabric} {p₂ : Plant}
      {records₂ : List Record}, Fabric.spawn r₂ hosts₂ tiles₂ m₂ = .ok f₂ m₂' →
      Intake ⟨f₂, m₂'⟩ records₂ p₂ →
      (records₂.filterMap Record.herd? = records.filterMap Record.herd? →
        p₂.fabric.status.herds = p.fabric.status.herds) ∧
      (records₂.filterMap Record.columns? = records.filterMap Record.columns? →
        p₂.fabric.status.deviceColumns = p.fabric.status.deviceColumns) := by
  have told {r : Region} {hosts : HostMap} {tiles : TileArray} {m m' : Memory} {f : Fabric}
      {p : Plant} {records : List Record} (spawned : Fabric.spawn r hosts tiles m = .ok f m')
      (intake : Intake ⟨f, m'⟩ records p) :
      p.fabric.status.Declares (records.foldl FabricStatus.note {}) := by
    rw [← (spawn_fresh spawned).2.2]
    exact intake.notes
  have first := told spawned intake
  refine ⟨first.herds ▸ FabricStatus.notes_list records,
    first.deviceColumns.trans (FabricStatus.notes_columns records), fun spawned₂ intake₂ => ?_⟩
  have second := told spawned₂ intake₂
  refine ⟨fun same => ?_, fun same => ?_⟩
  · rw [second.herds, first.herds, FabricStatus.notes_herds, FabricStatus.notes_herds, same]
  · rw [second.deviceColumns, first.deviceColumns, FabricStatus.notes_columns,
      FabricStatus.notes_columns, same]

def sampleHerds (count : UInt64) (commands : List Command) : Memory :=
  Site.sampleMemory count (commands.flatMap fun command => command.encode.activated.toBytes)

def sampleFirst : Plant :=
  ⟨Site.sampleStart.plant.fabric,
    sampleHerds 2 [.herdInit ⟨7, 0, 1, 2, 1⟩, .herdInit ⟨8, 1, 1, 2, 1⟩]⟩

def sampleSecond : Plant :=
  ⟨{ (sampleFirst.poll id).2.fabric with tiles := {} },
    sampleHerds 4 [.herdInit ⟨7, 0, 2, 2, 2⟩, .deviceInit 4]⟩

theorem sampleFirst_fabric : Site.sampleStart.plant.fabric = (Site.sampleHolding 0
    (Queue.idle.toBytes ++ Queue.idle.toBytes) ⟨[⟨192, 4096, 64, false⟩]⟩
      (Site.sampleTiles .hostToDevice true)).plant.fabric := by
  rw [Site.sampleStart, Site.sampleRing_spawned]

theorem sampleSecond_poll : sampleFirst.fabric.running = true ∧ sampleSecond.fabric.running = true ∧
    (passTakings sampleFirst ++ passTakings sampleSecond).filterMap Record.columns? = [4] ∧
    (sampleSecond.poll id).2.fabric.status.herds = [⟨8, 1, 1, 2, 1⟩, ⟨7, 0, 2, 2, 2⟩] := by
  rw [sampleSecond, sampleFirst, sampleFirst_fabric]
  decide +kernel

theorem intake_status_sample : ∃ p records,
    Fabric.spawn Site.sampleRing.queue.region ⟨[⟨192, 4096, 64, false⟩]⟩
      (Site.sampleTiles .hostToDevice true) Site.sampleRing.memory =
        .ok Site.sampleStart.plant.fabric Site.sampleStart.plant.memory ∧
    Intake Site.sampleStart.plant records p ∧
    p.fabric.status.herds = [⟨8, 1, 1, 2, 1⟩, ⟨7, 0, 2, 2, 2⟩] ∧
    FabricStatus.Lists records p.fabric.status.herds ∧
    p.fabric.status.deviceColumns = some 4 := by
  obtain ⟨running, running', columns, herds⟩ := sampleSecond_poll
  have spawned : Fabric.spawn Site.sampleRing.queue.region ⟨[⟨192, 4096, 64, false⟩]⟩
      (Site.sampleTiles .hostToDevice true) Site.sampleRing.memory =
        .ok Site.sampleStart.plant.fabric Site.sampleStart.plant.memory :=
    (Site.spawned_ok Site.sampleRing_opened.tracks _ _).2
  have first : Intake Site.sampleStart.plant [] sampleFirst :=
    Intake.start.disturb _ Site.sampleStart.plant.fabric.tiles
  have second : Intake Site.sampleStart.plant (passTakings sampleFirst) sampleSecond :=
    (first.poll running id).disturb _ {}
  have intake := second.poll running' id
  generalize Site.sampleStart.plant = start at spawned intake ⊢
  obtain ⟨f, m⟩ := start
  obtain ⟨lists, last, _⟩ := intake_status spawned intake
  exact ⟨_, _, spawned, intake, herds, lists, last.trans (by rw [columns]; rfl)⟩

end Plant

end FabricQueue
