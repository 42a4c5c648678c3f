import FabricQueue.Proofs.Counters
import FabricQueue.Proofs.Passes

set_option autoImplicit false

namespace FabricQueue

-- A queue and the fabric that consumes it.
structure Site where
  queue : Queue
  plant : Plant

-- What producers were answered, and what passes moved.
inductive Event where
  | produced (e : Entry)
  | retiled
  | polled (moves : Moves)

namespace Event

-- The latest event comes first.
def entries : List Event → History
  | [] => []
  | .produced e :: earlier => e :: entries earlier
  | _ :: earlier => entries earlier

def streamed : List Event → Moves
  | [] => []
  | .polled moves :: earlier => streamed earlier ++ moves
  | _ :: earlier => streamed earlier

end Event

namespace Site

def status (s : Site) : FabricStatus :=
  s.plant.fabric.status

def ring (s : Site) : Ring :=
  ⟨s.queue, s.plant.fabric.consumer, s.plant.memory⟩

-- A fabric was started on the queue of a ring.
def Spawned (s : Site) (ring : Ring) (hosts : HostMap) (tiles : TileArray) : Prop :=
  s.queue = ring.queue ∧
    Fabric.spawn ring.queue.region hosts tiles ring.memory = .ok s.plant.fabric s.plant.memory

def produce (s : Site) (a : Production) : Reply × Site :=
  match s.ring.perform (.produce a) with
  | (reply, ring) => (reply, ⟨ring.queue, ⟨s.plant.fabric, ring.memory⟩⟩)

def retile (s : Site) (tiles : TileArray) : Site :=
  ⟨s.queue, ⟨{ s.plant.fabric with tiles }, s.plant.memory⟩⟩

def poll (s : Site) (order : Order) : Site :=
  ⟨s.queue, (s.plant.poll order).2⟩

theorem poll_done {s : Site} {order : Order} {moved : Bool} {p : Plant}
    (running : s.plant.fabric.running = true) (ran : s.plant.pass order = .ok moved p) :
    s.poll order = ⟨s.queue, p⟩ := by
  rw [poll, Plant.poll_done running ran]

def moves (s : Site) (order : Order) : Moves :=
  if s.plant.fabric.running then s.plant.passMoves order else []

def Calm (s : Site) (order : Order) : Prop :=
  ∀ cause p, s.plant.pass order ≠ .error (.overflow cause) p

inductive Step (s : Site) : Event → Site → Prop where
  | produce (a : Production) :
      Step s (.produced ⟨.produce a, (s.produce a).1⟩) (s.produce a).2
  | retile (tiles : TileArray) : Step s .retiled (s.retile tiles)
  | poll (order : Order) (visits : ∀ fifos, (order fifos).Perm fifos) (calm : s.Calm order) :
      Step s (.polled (s.moves order)) (s.poll order)

inductive Run (start : Site) : List Event → Site → Prop where
  | start : Run start [] start
  | next {events : List Event} {event : Event} {s s' : Site} :
      Run start events s → Step s event s' → Run start (event :: events) s'

end Site

namespace Plant.Serves

variable {p : Plant} {q q' : Queue} {first : Nat} {moved : Moves} {l l' : Log}

theorem produced {memory : Memory} (serves : p.Serves q first moved l)
    (shows : q'.Shows memory l') (port : q'.port = q.port) (retired : l'.retired = l.retired)
    (published : l.published ≤ l'.published)
    (settled : ∀ j < l.published, l'.written j = l.written j) :
    Plant.Serves ⟨p.fabric, memory⟩ q' first moved l' := by
  have fetched := serves.published
  have ordered := serves.shows.sound.ordered
  -- Only published packets are in flight, and these are not written again.
  have flying {e : InFlight} (member : e ∈ p.fabric.inFlight) :
      l'.written e.index.toNat = l.written e.index.toNat :=
    settled _ (Nat.lt_of_lt_of_le (serves.flight_bounds member).2 fetched)
  have apart : p.fabric.hosts.Apart q' := by
    have region := congrArg Consumer.region port
    have capacity := congrArg Consumer.capacity port
    simp only [Queue.port] at region capacity
    rw [HostMap.Apart, region, capacity]
    exact serves.apart
  refine { serves with
    shows, port := serves.port.trans port.symm, apart, started := ?started, counted := ?counted
    behind := ?behind, published := Nat.le_trans fetched published, flight := ?flight
    owes := ?owes, done := ?done, executed := ?executed, declares := ?declares }
  case started => rw [retired]; exact serves.started
  case counted => rw [retired]; exact serves.counted
  case behind => rw [retired]; exact serves.behind
  case flight => rw [retired]; exact serves.flight
  case owes =>
    intro job member
    obtain ⟨among, inRange, decoded, owed⟩ := serves.owes job member
    rw [commandAt_congr (flying among), dueAt_congr (flying among)]
    exact ⟨among, inRange, decoded, owed⟩
  case done =>
    intro index member
    exact (serves.done index member).congr (flying member) rfl
  case executed =>
    intro index low high
    rw [retired] at high
    exact (serves.executed index low high).congr (settled _ (by omega)) rfl
  case declares =>
    have started := serves.started
    have behind := serves.behind
    have same : FabricStatus.entered l'.written first (p.fabric.nextFetch.toNat - first) =
        .entered l.written first (p.fabric.nextFetch.toNat - first) :=
      FabricStatus.entered_congr fun j low high => settled j (by omega)
    exact same ▸ serves.declares

theorem retiled (serves : p.Serves q first moved l) (tiles : TileArray) :
    Plant.Serves ⟨{ p.fabric with tiles }, p.memory⟩ q first moved l :=
  { serves with }

end Plant.Serves

def Fabric.started (q : Queue) (hosts : HostMap) (tiles : TileArray) (read : Nat) : Fabric :=
  { consumer := q.port, hosts, tiles, nextFetch := UInt64.ofNat read }

namespace Queue.Shows

variable {q : Queue} {m : Memory} {l : Log}

theorem spawn_ok (shows : q.Shows m l) (hosts : HostMap) (tiles : TileArray) :
    Fabric.spawn q.region hosts tiles m = .ok (Fabric.started q hosts tiles l.retired) m := by
  unfold Fabric.spawn
  refine (bind_ok shows.attach_ok).trans ((bind_ok shows.carries.readIndex_ok).trans ?_)
  rw [shows.readIndex_eq]
  rfl

theorem spawn_serves {hosts : HostMap} (shows : q.Shows m l) (tiles : TileArray)
    (apart : hosts.Apart q) :
    Plant.Serves ⟨Fabric.started q hosts tiles l.retired, m⟩ q l.retired [] l := by
  have ordered := shows.sound.ordered
  have word := shows.sound.published_word
  have next : (UInt64.ofNat l.retired).toNat = l.retired :=
    UInt64.toNat_ofNat_of_lt' (by omega)
  exact {
    shows, apart
    port := rfl
    running := rfl
    started := Nat.le_refl _
    counted := Nat.zero_add _
    bytes := rfl
    behind := Nat.le_of_eq next.symm
    published := Nat.le_trans (Nat.le_of_eq next) ordered
    flight := by simp [Fabric.started, next]
    endpoints := List.nodup_nil
    distinct := List.nodup_nil
    owes := nofun
    done := nofun
    once := List.nodup_nil
    stuck := nofun
    fresh _ _ := rfl
    executed _ low high := absurd high (Nat.not_lt.mpr low)
    declares := by simpa [Fabric.started, next] using ⟨rfl, rfl⟩ }

end Queue.Shows

namespace Site

variable {start s s' : Site} {first : Nat} {h : History} {events later : List Event} {l : Log}

-- A site against the history of the ring it came from and the events since.
structure Tracks (s : Site) (first : Nat) (h : History) (events : List Event) (l : Log) : Prop where
  serves : s.plant.Serves s.queue first (Event.streamed events) l
  written : l.written = History.written (Event.entries events ++ h)

theorem Tracks.read_eq (tracks : s.Tracks first h events l) : s.ring.read = l.retired :=
  tracks.serves.shows.readIndex

theorem Spawned.tracks {ring : Ring} {hosts : HostMap} {tiles : TileArray}
    (spawned : s.Spawned ring hosts tiles) (tracked : ring.Tracks h)
    (apart : hosts.Apart ring.queue) :
    s.Tracks ring.read h [] (h.log ring.queue.capacity) := by
  obtain ⟨queue, ⟨fabric, memory⟩⟩ := s
  obtain ⟨same, started⟩ := spawned
  simp only at same started
  rw [tracked.shows.spawn_ok] at started
  cases started
  rw [tracked.counters.1]
  exact ⟨same ▸ tracked.shows.spawn_serves tiles apart, tracked.written⟩

theorem produce_serves {moved : Moves} (serves : s.plant.Serves s.queue first moved l)
    (a : Production) :
    (s.produce a).2.plant.Serves (s.produce a).2.queue first moved
        (l.perform s.queue.capacity (.produce a)).2 ∧
      (s.produce a).1 = (l.perform s.queue.capacity (.produce a)).1 := by
  have follows := Ring.perform_follows (s := s.ring) serves.shows serves.port (.produce a) nofun
  have step := @Log.perform_step s.queue.capacity (.produce a) l
  have port := congrArg₂ Consumer.mk follows.region follows.capacity
  exact ⟨serves.produced follows.shows port (Log.produce_retired a l) step.published_le
    fun j below => step.settled below, follows.reply trivial⟩

theorem Tracks.produced (tracks : s.Tracks first h events l) (a : Production) :
    (s.produce a).2.Tracks first h (.produced ⟨.produce a, (s.produce a).1⟩ :: events)
      (l.perform s.queue.capacity (.produce a)).2 := by
  obtain ⟨after, reply⟩ := produce_serves tracks.serves a
  refine ⟨after, ?_⟩
  funext j
  apply ((Log.perform_step _ _).written_eq j).trans
  rw [tracks.written, ← reply]
  rfl

theorem Tracks.retiled (tracks : s.Tracks first h events l) (tiles : TileArray) :
    (s.retile tiles).Tracks first h (.retiled :: events) l :=
  ⟨tracks.serves.retiled tiles, tracks.written⟩

theorem Step.tracks {event : Event} (tracks : s.Tracks first h events l)
    (step : Step s event s') : ∃ l', s'.Tracks first h (event :: events) l' ∧
      l.retired ≤ l'.retired ∧ s.status.faults ⊆ s'.status.faults := by
  have serves := tracks.serves
  cases step with
  | produce a =>
    have kept := @Log.produce_retired s.queue.capacity a l
    exact ⟨_, tracks.produced a, Nat.le_of_eq kept.symm, List.Subset.refl _⟩
  | retile tiles => exact ⟨l, tracks.retiled tiles, Nat.le_refl _, List.Subset.refl _⟩
  | poll order visits calm =>
    have kept := Plant.pass_keeps visits serves
    have moves : s.moves order = s.plant.passMoves order := if_pos serves.running
    obtain ⟨moved, p, ran, n, low, after, faults⟩ := kept.calm calm
    rw [poll_done serves.running ran, moves]
    exact ⟨_, ⟨after, tracks.written⟩, low, faults⟩

theorem Run.tracks (tracks : s.Tracks first h events l) (run : Run s later s') :
    ∃ l', s'.Tracks first h (later ++ events) l' ∧ l.retired ≤ l'.retired ∧
      s.status.faults ⊆ s'.status.faults := by
  induction run with
  | start => exact ⟨l, tracks, Nat.le_refl _, List.Subset.refl _⟩
  | next _ step ih =>
    obtain ⟨l', tracks', low, faults⟩ := ih
    obtain ⟨l'', tracks'', low', faults'⟩ := step.tracks tracks'
    exact ⟨l'', tracks'', Nat.le_trans low low', List.Subset.trans faults faults'⟩

-- What the read index says of the packets since `first`.
structure Barrier (s : Site) (first : Nat) (h : History) (events : List Event) : Prop where
  counted : s.status.retired + first = s.ring.read
  executed : ∀ index : UInt64, first ≤ index.toNat → index.toNat < s.ring.read →
    ∃ record command, History.written (Event.entries events ++ h) index.toNat = some record ∧
      Command.decode record = .ok command ∧
        ∀ t, command = .transfer t → (Event.streamed events).of index = t.totalBytes
  -- Packets are entered when they are fetched, which is before they retire.
  entered : ∃ last, s.ring.read ≤ last ∧ last ≤ s.ring.published ∧
    s.status.Declares
      (.entered (History.written (Event.entries events ++ h)) first (last - first))
  once : (s.status.faults.map (·.index)).Nodup
  -- What the events count is what the fabric counts.
  bytes : s.status.bytesMoved = (Event.streamed events).total

theorem Tracks.barrier (tracks : s.Tracks first h events l) : s.Barrier first h events := by
  have serves := tracks.serves
  have written := tracks.written
  refine {
    counted := ?counted, executed := ?executed, entered := ?entered, once := serves.once
    bytes := serves.bytes }
  case counted => rw [tracks.read_eq]; exact serves.counted
  case executed =>
    intro index low high
    rw [tracks.read_eq] at high
    obtain ⟨decoded, paid⟩ := serves.executed index low high
    rw [written] at decoded paid
    obtain ⟨command, known⟩ := Option.isSome_iff_exists.mp decoded
    obtain ⟨record, found, taken⟩ := commandAt_eq known
    refine ⟨record, command, found, taken, fun t same => ?_⟩
    rw [paid, dueAt, known, same]
  case entered =>
    have published : s.ring.published = l.published := serves.shows.doorbell
    rw [tracks.read_eq, published]
    exact ⟨_, serves.behind, serves.published, written ▸ serves.declares⟩

def spawned (ring : Ring) (hosts : HostMap) (tiles : TileArray) : Site :=
  ⟨ring.queue, ⟨Fabric.started ring.queue hosts tiles ring.read, ring.memory⟩⟩

theorem spawned_retile (ring : Ring) (hosts : HostMap) (tiles tiles' : TileArray) :
    (spawned ring hosts tiles).retile tiles' = spawned ring hosts tiles' :=
  rfl

theorem spawned_ok {ring : Ring} (tracked : ring.Tracks h) (hosts : HostMap)
    (tiles : TileArray) : (spawned ring hosts tiles).Spawned ring hosts tiles := by
  refine ⟨rfl, (tracked.shows.spawn_ok hosts tiles).trans ?_⟩
  rw [← tracked.counters.1]
  rfl

theorem run_barrier {root ring : Ring} {hosts : HostMap} {tiles : TileArray}
    (opened : root.Opened) (led : Ring.Run root h ring) (spawned : start.Spawned ring hosts tiles)
    (apart : hosts.Apart ring.queue) (run : Run start events s) (longer : Run s later s') :
    s.Barrier ring.read h events ∧ s.ring.read ≤ s'.ring.read ∧
      ∀ fault ∈ s.status.faults,
        fault ∈ s'.status.faults ∧ s'.ring.read ≤ fault.index.toNat := by
  obtain ⟨l, tracks, _, _⟩ := run.tracks (spawned.tracks (led.tracks opened).1 apart)
  obtain ⟨l', tracks', low, faults⟩ := longer.tracks tracks
  rw [List.append_nil] at tracks
  refine ⟨tracks.barrier, ?_, fun fault member => ⟨faults member, ?_⟩⟩
  · rw [tracks.read_eq, tracks'.read_eq]; exact low
  · rw [tracks'.read_eq]
    exact (tracks'.serves.flight_bounds (tracks'.serves.stuck fault (faults member))).1

instance (s : Site) (order : Order) : Decidable (s.Calm order) :=
  match ran : s.plant.pass order with
  | .error (.overflow cause) p => isFalse fun calm => calm cause p ran
  | .ok _ _ => isTrue fun _ _ other => by rw [ran] at other; cases other
  | .error (.error _) _ => isTrue fun _ _ other => by rw [ran] at other; cases other
  | .error .stillWaiting _ => isTrue fun _ _ other => by rw [ran] at other; cases other

def offer (s : Site) (work : List Production) : Site :=
  work.foldl (fun s a => (s.produce a).2) s

theorem offer_run (run : Run start events s) (work : List Production) :
    ∃ events', Run start events' (s.offer work) := by
  induction work generalizing s events with
  | nil => exact ⟨events, run⟩
  | cons a work ih => exact ih (run.next (.produce a))

theorem offer_fabric (s : Site) (work : List Production) :
    (s.offer work).plant.fabric = s.plant.fabric := by
  induction work generalizing s with
  | nil => rfl
  | cons a work ih => exact ih (s.produce a).2

-- Two slots in fresh memory, and eight words behind them.
def sampleRing : Ring :=
  (Ring.lay ⟨0, 0, 192, false⟩ 2 (ByteStore.zeros 256)).get (by decide +kernel)

theorem sampleRing_backed : Region.Backed ⟨0, 0, 192, false⟩ (ByteStore.zeros 256) := by
  rw [Region.Backed, ByteStore.size_zeros]
  decide

theorem sampleRing_opened : sampleRing.Opened :=
  Ring.lay_opened sampleRing_backed (Option.some_get _).symm

theorem sampleRing_queue : sampleRing.queue = Queue.opened 0 2 .multi ⟨0, 0, 192, false⟩ :=
  Ring.lay_queue sampleRing_backed (Option.some_get _).symm

def sampleMemory (count : UInt64) (slots : List UInt8) : Memory :=
  ⟨⟨(wordBytes [0, 2, 64, 0] ++ bytesOf 8 (count - 1).toNat ++ wordBytes [2, 0, 0, 0, 0, 0] ++
    bytesOf 8 count.toNat ++ wordBytes [0, 0] ++ slots ++ List.replicate 64 0).toArray⟩⟩

theorem sampleRing_memory :
    sampleRing.memory = sampleMemory 0 (Queue.idle.toBytes ++ Queue.idle.toBytes) :=
  ByteStore.ext_data (by decide +kernel)

def sampleHolding (count : UInt64) (slots : List UInt8) (hosts : HostMap) (tiles : TileArray) :
    Site :=
  ⟨{ Queue.opened 0 2 .multi ⟨0, 0, 192, false⟩ with tail := count },
    ⟨Fabric.started (Queue.opened 0 2 .multi ⟨0, 0, 192, false⟩) hosts tiles 0,
      sampleMemory count slots⟩⟩

theorem sampleRing_spawned (hosts : HostMap) (tiles : TileArray) :
    spawned sampleRing hosts tiles =
      sampleHolding 0 (Queue.idle.toBytes ++ Queue.idle.toBytes) hosts tiles := by
  rw [spawned, sampleRing_opened.tracks.read_eq, sampleRing_queue, sampleRing_memory]
  rfl

theorem sampleRing_offer {hosts : HostMap} {tiles : TileArray} {work : List Production}
    {count : UInt64} {slots : List UInt8} (offers :
      let s := (sampleHolding 0 (Queue.idle.toBytes ++ Queue.idle.toBytes) hosts tiles).offer work
      s.queue = (sampleHolding count slots hosts tiles).queue ∧
        s.plant.memory.bytes.data.toList = (sampleMemory count slots).bytes.data.toList) :
    (spawned sampleRing hosts tiles).offer work = sampleHolding count slots hosts tiles := by
  obtain ⟨queue, memory⟩ := offers
  have fabric := offer_fabric
    (sampleHolding 0 (Queue.idle.toBytes ++ Queue.idle.toBytes) hosts tiles) work
  rw [sampleRing_spawned]
  exact congrArg₂ Site.mk queue (congrArg₂ Plant.mk fabric (ByteStore.ext_data memory))

-- Eight bytes between a host address and the first channel.
def sampleTransfer (direction : Direction) (address : UInt64) : Transfer :=
  { herd := 0, column := 0, channel := 0, direction, address, run := 8 }

-- One buffer of two words, the first of them 5, behind that channel.
def sampleTiles (direction : Direction) (full : Bool) : TileArray where
  buffers := ⟨#[{ (TileBuffer.zeroed "a" 2).setWord 0 5 with full }]⟩
  routes := [((sampleTransfer direction 0).endpoint, ⟨[0], 0⟩)]

def sampleStart : Site :=
  spawned sampleRing ⟨[⟨192, 4096, 64, false⟩]⟩ (sampleTiles .hostToDevice true)

theorem sampleStart_spawned :
    sampleStart.Spawned sampleRing ⟨[⟨192, 4096, 64, false⟩]⟩ (sampleTiles .hostToDevice true) :=
  spawned_ok sampleRing_opened.tracks _ _

theorem sampleRing_apart : HostMap.Apart ⟨[⟨192, 4096, 64, false⟩]⟩ sampleRing.queue := by
  rw [HostMap.Apart, sampleRing_queue]
  decide

def sampleReady : Site :=
  (sampleStart.offer [.reserve 2,
    .writePacket 0 (.transfer (sampleTransfer .hostToDevice 4096)), .write 1 { kind := 255 },
    .dispatch 1]).retile (sampleTiles .hostToDevice false)

theorem sampleStart_offer : sampleStart.offer [.reserve 2,
    .writePacket 0 (.transfer (sampleTransfer .hostToDevice 4096)), .write 1 { kind := 255 },
    .dispatch 1] = sampleHolding 2
      ((Command.transfer (sampleTransfer .hostToDevice 4096)).encode.activated.toBytes ++
        { kind := 255 : Record }.activated.toBytes)
      ⟨[⟨192, 4096, 64, false⟩]⟩ (sampleTiles .hostToDevice true) :=
  sampleRing_offer (by decide +kernel)

theorem sampleReady_pass : sampleReady.Calm id ∧ (sampleReady.poll id).ring.read = 1 ∧
    (sampleReady.poll id).status.faults.map (·.index) = [1] := by
  rw [sampleReady, sampleStart_offer]
  decide +kernel

theorem run_barrier_sample : ∃ s s' events later, sampleRing.Opened ∧
    Ring.Run sampleRing [] sampleRing ∧
    sampleStart.Spawned sampleRing ⟨[⟨192, 4096, 64, false⟩]⟩ (sampleTiles .hostToDevice true) ∧
    HostMap.Apart ⟨[⟨192, 4096, 64, false⟩]⟩ sampleRing.queue ∧ Run sampleStart events s ∧
    Run s later s' ∧ (s.Barrier sampleRing.read [] events ∧ s.ring.read ≤ s'.ring.read ∧
      ∀ fault ∈ s.status.faults,
        fault ∈ s'.status.faults ∧ s'.ring.read ≤ fault.index.toNat) ∧
    s.ring.read = 1 ∧ s.status.faults.map (·.index) = [1] := by
  obtain ⟨calm, read, faults⟩ := sampleReady_pass
  obtain ⟨events, offered⟩ := offer_run (.start : Run sampleStart [] sampleStart) [.reserve 2,
    .writePacket 0 (.transfer (sampleTransfer .hostToDevice 4096)), .write 1 { kind := 255 },
    .dispatch 1]
  have ready : Run sampleStart _ sampleReady := offered.next (.retile _)
  have run := ready.next (.poll id (fun _ => List.Perm.refl _) calm)
  have longer := Run.start.next (Step.retile (s := sampleReady.poll id)
    (sampleTiles .hostToDevice true))
  exact ⟨_, _, _, _, sampleRing_opened, .start, sampleStart_spawned, sampleRing_apart, run, longer,
    run_barrier sampleRing_opened .start sampleStart_spawned sampleRing_apart run longer, read,
    faults⟩

def sampleOverlap : Site :=
  (spawned sampleRing ⟨[⟨0, 0, 192, false⟩]⟩ (sampleTiles .deviceToHost true)).offer [.reserve 1,
    .writePacket 0 (.transfer (sampleTransfer .deviceToHost 0x28)), .dispatch 0]

theorem sampleOverlap_eq : sampleOverlap = sampleHolding 1
    ((Command.transfer (sampleTransfer .deviceToHost 0x28)).encode.activated.toBytes ++
      Queue.idle.toBytes) ⟨[⟨0, 0, 192, false⟩]⟩ (sampleTiles .deviceToHost true) :=
  sampleRing_offer (by decide +kernel)

theorem sampleOverlap_pass : sampleOverlap.Calm id ∧
    (sampleOverlap.poll id).status.retired = 1 ∧ (sampleOverlap.poll id).ring.read = 5 := by
  rw [sampleOverlap_eq]
  decide +kernel

theorem overlap_breaks_barrier : ¬ ∀ (root ring : Ring) (h : History) (hosts : HostMap)
    (tiles : TileArray) (start s : Site) (events : List Event), root.Opened →
    Ring.Run root h ring → start.Spawned ring hosts tiles → Run start events s →
    s.Barrier ring.read h events := by
  intro always
  obtain ⟨calm, retired, read⟩ := sampleOverlap_pass
  have spawned := spawned_ok sampleRing_opened.tracks ⟨[⟨0, 0, 192, false⟩]⟩
    (sampleTiles .deviceToHost true)
  obtain ⟨events, published⟩ : ∃ events, Run _ events sampleOverlap := offer_run .start _
  have run := published.next (.poll id (fun _ => List.Perm.refl _) calm)
  have counted := (always _ _ _ _ _ _ _ _ sampleRing_opened .start spawned run).counted
  rw [retired, read, sampleRing_opened.tracks.read_eq] at counted
  exact absurd counted (by decide)

end Site

end FabricQueue
