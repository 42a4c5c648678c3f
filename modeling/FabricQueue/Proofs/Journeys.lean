import FabricQueue.Proofs.Batches

set_option autoImplicit false

namespace FabricQueue

def Admitted.batch (first : Nat) (ts : List Transfer) : List Admitted :=
  (ts.zipIdx first).map fun entry => (UInt64.ofNat entry.2, entry.1.received)

namespace Admitted

variable {first : Nat} {ts : List Transfer}

theorem batch_length (first : Nat) (ts : List Transfer) : (batch first ts).length = ts.length := by
  rw [batch, List.length_map, List.length_zipIdx]

theorem batch_transfers (first : Nat) (ts : List Transfer) :
    (batch first ts).map (·.2) = ts.map Transfer.received := by
  rw [← List.zipIdx_map_fst first ts, batch, List.map_map, List.map_map, List.zipIdx_map_fst]
  rfl

theorem batch_numbers (fits : first + ts.length ≤ UInt64.size) :
    (batch first ts).map (·.1.toNat) = List.range' first ts.length := by
  rw [← List.zipIdx_map_snd first ts, batch, List.map_map]
  apply List.map_congr_left
  intro entry member
  have below := List.snd_lt_of_mem_zipIdx member
  exact UInt64.toNat_ofNat_of_lt' (by omega)

theorem batch_endpoints (first : Nat) (ts : List Transfer) :
    (batch first ts).map (·.2.endpoint) = ts.map Transfer.endpoint := by
  have mapped := congrArg (List.map Transfer.endpoint) (batch_transfers first ts)
  rw [List.map_map, List.map_map] at mapped
  exact mapped

theorem batch_distinct (fits : first + ts.length ≤ UInt64.size) :
    ((batch first ts).map (·.1)).Nodup := by
  refine List.Nodup.of_map UInt64.toNat ?_
  rw [List.map_map]
  change ((batch first ts).map (·.1.toNat)).Nodup
  rw [batch_numbers fits]
  exact List.nodup_range'

theorem of_batch {packet : Admitted} (member : packet ∈ batch first ts) :
    ∃ k t, ts[k]? = some t ∧ packet = (UInt64.ofNat (first + k), t.received) := by
  obtain ⟨⟨t, n⟩, among, rfl⟩ := List.mem_map.mp member
  obtain ⟨low, found⟩ := List.mk_mem_zipIdx_iff_le_and_getElem?_sub.mp among
  exact ⟨n - first, t, found, by rw [Nat.add_sub_cancel' low]⟩

theorem batch_cases {packet : Admitted} (member : packet ∈ batch first ts) :
    ∃ t ∈ ts, packet.2 = t.received := by
  obtain ⟨k, t, found, rfl⟩ := of_batch member
  exact ⟨t, List.mem_of_getElem? found, rfl⟩

theorem batch_mem {t : Transfer} (first : Nat) (member : t ∈ ts) :
    ∃ index, (index, t.received) ∈ batch first ts := by
  have among : t.received ∈ (batch first ts).map (·.2) := by
    rw [batch_transfers]
    exact List.mem_map_of_mem member
  obtain ⟨packet, known, same⟩ := List.mem_map.mp among
  exact ⟨packet.1, same ▸ known⟩

end Admitted

namespace Traffic

variable {T : Traffic} {q q' : Queue}

theorem Sound.congr (sound : T.Sound q) (region : q'.region = q.region)
    (capacity : q'.capacity = q.capacity) : T.Sound q' :=
  { sound with apart := by rw [HostMap.Apart, region, capacity]; exact sound.apart }

theorem landed_start (T : Traffic) : T.landed (fun _ => 0) = T.initial :=
  settle_none _ fun _ _ => rfl

theorem total_batch {first : Nat} {ts : List Transfer} (same : T.packets = Admitted.batch first ts) :
    T.total = (ts.map (·.addresses.length)).sum := by
  have lengths := congrArg (List.map fun t : Transfer => t.addresses.length)
    (Admitted.batch_transfers first ts)
  rw [List.map_map, List.map_map, ← same] at lengths
  rw [total, List.length_flatMap]
  exact congrArg List.sum lengths

-- Memory once all has come back.
def delivered (T : Traffic) : Memory :=
  T.settle (fun out => out.addresses.length) T.outs T.initial

theorem Sound.delivered_get (sound : T.Sound q) {out : Transfer} (member : out ∈ T.outs)
    (distinct : out.addresses.Nodup)
    (inside : ∀ a ∈ out.addresses, T.hosts.place a < T.initial.size) {k : Nat}
    (below : k < out.addresses.length) :
    T.delivered.get (T.hosts.place out.addresses[k]) = T.value out.endpoint k := by
  obtain ⟨front, back, split, _, apart⟩ := sound.split_outs member
  have places : (out.addresses.map T.hosts.place).Nodup := by
    refine List.Nodup.map_on (fun a here b there same => ?_) distinct
    have single {c : Nat} (among : c ∈ out.addresses) : T.hosts.Covers [c] :=
      fun d only => sound.covers_out member d (by rw [List.mem_singleton.mp only]; exact among)
    exact sound.separate.place_injective (single here) (single there) same
  have later {other : Transfer} (among : other ∈ back) : other ∈ T.outs := by
    rw [split]
    exact List.mem_append_right _ (List.mem_cons_of_mem _ among)
  rw [delivered, split, settle_append, settle_cons, List.take_length,
    settle_get_other _ fun other among => sound.places_disjoint (sound.covers_out member)
      (sound.covers_out (later among)) (apart other (List.mem_append_right _ among))
      (List.mem_map_of_mem (List.getElem_mem below))]
  have stored := @ByteStore.get_scatter _ ((List.range out.addresses.length).map
      (T.value out.endpoint))
    (T.settle (fun out => out.addresses.length) front T.initial) places (by
      intro i taken
      obtain ⟨a, here, rfl⟩ := List.mem_map.mp taken
      rw [size_settle]
      exact inside a here)
    k (by rwa [List.length_map]) (by rwa [List.length_map, List.length_range])
  rwa [List.getElem_map, List.getElem_map, List.getElem_range] at stored

theorem Sound.delivered_single (sound : T.Sound q) {r : Region} (hosts : T.hosts = ⟨[r]⟩)
    (backed : r.Backed T.initial) {out : Transfer} (member : out ∈ T.outs) {count : Nat}
    (offset : Nat → Nat)
    (addresses : out.addresses = (List.range count).map fun k => r.base.toNat + offset k)
    (injective : offset.Injective) (within : ∀ k < count, offset k < r.size) {k : Nat}
    (below : k < count) : T.delivered.get (r.origin + offset k) = T.value out.endpoint k := by
  have addressable : r.base.toNat + r.size ≤ UInt64.size :=
    sound.separate.addressable r (by rw [hosts]; exact List.mem_cons_self)
  have place {k : Nat} (below : k < count) :
      T.hosts.place (r.base.toNat + offset k) = r.origin + offset k := by
    rw [hosts]
    exact HostMap.place_single addressable (within k below)
  have distinct : out.addresses.Nodup := by
    rw [addresses]
    exact List.nodup_range.map fun i j same => injective (Nat.add_left_cancel same)
  have inside : ∀ a ∈ out.addresses, T.hosts.place a < T.initial.size := by
    intro a among
    rw [addresses, List.mem_map] at among
    obtain ⟨k, known, rfl⟩ := among
    have small := within k (List.mem_range.mp known)
    unfold Region.Backed at backed
    rw [place (List.mem_range.mp known)]
    omega
  have length : k < out.addresses.length := by
    rw [addresses, List.length_map, List.length_range]
    exact below
  have stored := sound.delivered_get member distinct inside length
  rw [List.getElem_of_eq addresses, List.getElem_map, List.getElem_range, place below] at stored
  exact stored

theorem addresses_le (T : Traffic) {packet : Admitted} (member : packet ∈ T.packets) :
    packet.2.addresses.length ≤ T.total := by
  have among : packet.2.addresses ∈ T.packets.map (·.2.addresses) :=
    List.mem_map.mpr ⟨packet, member, rfl⟩
  rw [total, List.flatMap_def]
  exact (List.sublist_flatten_of_mem among).length_le

end Traffic

theorem Fabric.Lined.unmoved_eq {f : Fabric} {T : Traffic} (lined : f.Lined T.packets) :
    unmoved f.fifos = T.total := by
  refine (lined.all.flatMap_right Job.addresses).length_eq.trans ?_
  rw [List.flatMap_map]
  rfl

namespace Site

variable {s : Site} {l : Log} {T : Traffic} {I : Counts → Nat → TileArray → Prop} {last : Nat}

-- Nothing is reserved, published or under way.
structure Idle (s : Site) (l : Log) : Prop where
  shows : s.queue.Shows s.plant.memory l
  port : s.plant.fabric.consumer = s.queue.port
  running : s.plant.fabric.running = true
  retired : l.published = l.retired
  unreserved : l.writeIndex.toNat = l.retired
  fetched : s.plant.fabric.nextFetch.toNat = l.retired
  flight : s.plant.fabric.inFlight = []
  endpoints : (s.plant.fabric.fifos.map (·.endpoint)).Nodup
  jobs : s.plant.fabric.jobs = []

-- The same fabric, with the queue as its producers left it.
def withRing (s : Site) (ring : Ring) : Site :=
  ⟨ring.queue, ⟨s.plant.fabric, ring.memory⟩⟩

theorem Idle.retile (idle : s.Idle l) (tiles : TileArray) : (s.retile tiles).Idle l :=
  { idle with }

theorem idle_of_serves {first : Nat} {moved : Moves} (serves : s.plant.Serves s.queue first moved l)
    (published : s.ring.published = s.ring.read) (write : s.ring.write = s.ring.read) :
    s.Idle l := by
  have read : s.ring.read = l.retired := serves.shows.readIndex
  have rung : s.ring.published = l.published := serves.shows.doorbell
  have reserved : s.ring.write = l.writeIndex.toNat := congrArg _ serves.shows.writeIndex
  have behind := serves.behind
  have within := serves.published
  have fetched : s.plant.fabric.nextFetch.toNat = l.retired := by omega
  have flight : s.plant.fabric.inFlight = [] := by
    have indices := serves.flight
    rw [fetched, Nat.sub_self] at indices
    exact List.map_eq_nil_iff.mp indices
  refine ⟨serves.shows, serves.port, serves.running, by omega, by omega, fetched, flight,
    serves.endpoints, List.eq_nil_iff_forall_not_mem.mpr fun job member => ?_⟩
  have among := (serves.owes job member).1
  rw [flight] at among
  cases among

structure Ready (s : Site) (T : Traffic) (ts : List Transfer) (l : Log) : Prop where
  hosts : T.hosts = s.plant.fabric.hosts
  initial : T.initial = s.plant.memory
  packets : T.packets = Admitted.batch l.retired ts
  room : ts.length ≤ s.queue.capacity
  holds : ∀ t ∈ ts, T.hosts.Holds t.address t.extent
  routed : ∀ t ∈ ts, s.plant.fabric.tiles.hasRoute t.endpoint = true
  moves : ∀ t ∈ ts, t.totalBytes ≠ 0
  indices : l.retired + s.queue.capacity < UInt64.size
  bytes : s.status.bytesMoved + T.total < UInt64.size

section Issue

variable {ts : List Transfer} (idle : s.Idle l) (ready : s.Ready T ts l)

include ready

theorem Ready.admits {packet : Admitted} (member : packet ∈ T.packets)
    (addressable : T.hosts.Separate) : ∃ k t, ts[k]? = some t ∧ packet.1.toNat = l.retired + k ∧
      s.plant.fabric.admits (Command.transfer t).encode.activated = some packet.2 ∧
      (Fabric.freshJob packet.1 packet.2).Hosted T.hosts ∧
      packet.2.addresses.length = packet.2.totalBytes ∧ packet.2.totalBytes ≠ 0 := by
  rw [ready.packets] at member
  obtain ⟨k, t, found, rfl⟩ := Admitted.of_batch member
  have among := List.mem_of_getElem? found
  obtain ⟨below, _⟩ := List.getElem?_eq_some_iff.mp found
  have room := ready.room
  have indices := ready.indices
  obtain ⟨r, _, _, place⟩ := (ready.holds t among).resolve_ok
  rw [ready.hosts] at place
  have admitted :
      s.plant.fabric.admits (Command.transfer t).encode.activated = some t.received := by
    have routed : s.plant.fabric.tiles.hasRoute t.received.endpoint = true := ready.routed t among
    have inside : (s.plant.fabric.hosts.resolve t.received.address t.received.extent).isOk = true := by
      change (s.plant.fabric.hosts.resolve t.address t.extent).isOk = true
      rw [place]
      rfl
    simp only [Fabric.admits, Command.decode_activated, Command.decode_transfer, routed, inside,
      Bool.and_self, if_true]
  have hosted := Fabric.admitted_hosted (UInt64.ofNat (l.retired + k))
    (by rw [Fabric.Addressable, ← ready.hosts]; exact addressable.addressable) admitted
    (ready.moves t among)
  rw [← ready.hosts] at hosted
  exact ⟨k, t, found, UInt64.toNat_ofNat_of_lt' (by omega), admitted, hosted.1, hosted.2,
    ready.moves t among⟩

theorem Ready.follows (addressable : T.hosts.Separate) {f : Fabric} (lined : f.Lined T.packets) :
    ∀ fifo ∈ f.fifos, T.Follows (fun _ => 0) fifo.endpoint fifo.jobs := by
  intro fifo among
  rcases lined.jobs fifo among with ⟨none, away⟩ | ⟨packet, member, here, only⟩
  · rw [none]
    exact .idle fun packet member same => absurd same (away packet member)
  · obtain ⟨_, _, _, _, _, hosted, length, moves⟩ := ready.admits member addressable
    rw [only]
    exact .busy member here ⟨rfl, rfl, hosted, rfl, by rw [length]; exact Nat.pos_of_ne_zero moves⟩

theorem Ready.flight (addressable : T.hosts.Separate) :
    T.packets.map (fun packet => ⟨packet.1, .running⟩) =
      (T.packets.drop 0).map (Traffic.entry fun _ => 0) := by
  apply List.map_congr_left
  intro packet member
  obtain ⟨_, _, _, _, _, _, length, moves⟩ := ready.admits member addressable
  have unended : ¬Traffic.Ended (fun _ => 0) packet := fun ended => moves (length ▸ ended.symm)
  rw [Traffic.entry, if_neg unended]

include idle

omit ready in
theorem Idle.lined : s.plant.fabric.Lined [] := by
  refine ⟨idle.endpoints, nofun, fun fifo member => .inl ⟨?_, nofun⟩, ?_⟩
  · exact List.flatMap_eq_nil_iff.mp idle.jobs fifo member
  · rw [idle.jobs]
    exact List.Perm.nil

omit idle in
theorem Ready.numbers : T.packets.map (·.1.toNat) = List.range' l.retired T.packets.length := by
  have room := ready.room
  have indices := ready.indices
  rw [ready.packets, Admitted.batch_length]
  exact Admitted.batch_numbers (by omega)

theorem Ready.fetched {ring : Ring} {l' : Log}
    (issued : s.ring.Issued ring l l' (ts.map .transfer)) (sound : T.Sound s.queue) :
    ∃ fetched p, Plant.fetch ⟨s.plant.fabric, ring.memory⟩ = .ok fetched p ∧
      p.memory = ring.memory ∧
      p.fabric = { s.plant.fabric with
        fifos := p.fabric.fifos, nextFetch := p.fabric.nextFetch
        inFlight := T.packets.map fun packet => ⟨packet.1, .running⟩ } ∧
      p.fabric.nextFetch.toNat = l'.published ∧ p.fabric.Lined T.packets := by
  have shows := issued.shows
  have published := issued.published
  have written := issued.written
  rw [idle.retired] at published written
  have port : s.plant.fabric.consumer = ring.queue.port :=
    idle.port.trans (congrArg₂ Consumer.mk issued.keeps.region issued.keeps.capacity).symm
  have count : T.packets.length = (ts.map Command.transfer).length := by
    rw [ready.packets, Admitted.batch_length, List.length_map]
  obtain ⟨fetched, p, fetches, memory, fabric, next, lined⟩ :=
    @Plant.fetchNext_batch ⟨s.plant.fabric, ring.memory⟩ ring.queue l' s.plant.fabric T.packets []
      shows rfl port idle.lined sound.distinct
      (by simp only [issued.retired, idle.fetched, Nat.le_refl])
      (by simp only [idle.fetched, ready.numbers])
      (by simp only [idle.fetched, published, count, Nat.le_refl]) (by
        intro packet member
        obtain ⟨k, t, found, number, admitted, _, length, moves⟩ :=
          ready.admits member sound.separate
        have few := T.addresses_le member
        have bytes := ready.bytes
        refine ⟨_, ?_, admitted, moves, by omega⟩
        rw [number, written k (.transfer t) (by rw [List.getElem?_map, found]; rfl)])
  simp only [idle.flight, List.nil_append] at fabric lined
  refine ⟨fetched, p, ?_, memory, fabric, ?_, lined⟩
  · have taken : Plant.fetch ⟨s.plant.fabric, ring.memory⟩ = _ := Plant.fetch_eq shows port
    rw [published, idle.fetched, Nat.add_sub_cancel_left, ← count] at taken
    exact taken.trans fetches
  · rw [next, idle.fetched, published, count]

theorem Ready.nears (last : Nat) (sound : T.Sound s.queue)
    (begun : I (fun _ => 0) 0 s.plant.fabric.tiles) (policy : WaitPolicy)
    (seen : Observation Ring) : ∃ packets ring l',
      Ring.issue policy seen (ts.map .transfer) s.ring = .ok packets ring ∧
      packets.map (·.index.toNat) = List.range' l.retired ts.length ∧
      s.ring.Issued ring l l' (ts.map .transfer) ∧ T.Sound (s.withRing ring).queue ∧
      (s.withRing ring).Nears T I l' s.status last (T.total + last) := by
  have retired := idle.retired
  obtain ⟨refs, ring, l', ran, issued, numbers⟩ :=
    @Ring.issue_ok s.ring l policy seen (ts.map .transfer) idle.shows
      (by rw [idle.unreserved, retired])
      (by rw [List.length_map, retired]; exact Nat.add_le_add_left ready.room _) ready.indices
  have keeps := issued.keeps
  have published := issued.published
  rw [retired] at numbers published
  rw [List.length_map] at numbers published
  have port : s.plant.fabric.consumer = ring.queue.port :=
    idle.port.trans (congrArg₂ Consumer.mk keeps.region keeps.capacity).symm
  have count : T.packets.length = ts.length := by rw [ready.packets, Admitted.batch_length]
  obtain ⟨fetched, p, fetches, memory, fabric, next, lined⟩ := ready.fetched idle issued sound
  refine ⟨refs, ring, l', ran, numbers, issued, sound.congr keeps.region keeps.capacity,
    idle.running, fetched, p, fun _ => 0, 0, 0, fetches, memory,
    fun some => absurd some (Nat.lt_irrefl 0), ?conveys, ?level, ?toGo⟩
  case level =>
    intro ended
    refine Eq.symm (List.length_eq_zero_iff.mpr (List.eq_nil_iff_forall_not_mem.mpr ?_))
    intro packet member
    obtain ⟨_, _, _, _, _, _, length, moves⟩ := ready.admits member sound.separate
    exact moves (length ▸ (ended packet member).symm)
  case toGo =>
    rw [Plant.toGo, lined.unmoved_eq, Nat.sub_zero]
  case conveys =>
    exact {
      flows := ⟨by rw [fabric]; exact ready.hosts.symm, by rw [fabric]; exact begun,
        fun _ _ => Nat.zero_le _, by
          rw [T.landed_start, ready.initial, memory]
          exact keeps.footprint.symm ▸ keeps.leaves⟩
      shows := by rw [memory]; exact issued.shows
      port := by rw [fabric]; exact port
      running := by rw [fabric]; exact idle.running
      fetched := next
      numbers := by rw [issued.retired]; exact ready.numbers
      published := by rw [published, issued.retired, count]
      endpoints := lined.endpoints
      follows := ready.follows sound.separate lined
      served := lined.served
      flight := by rw [fabric]; exact ready.flight sound.separate
      bound := Nat.zero_le _
      through packet member := by
        rw [List.take_zero] at member
        cases member
      retired := by rw [fabric]; rfl
      faults := by rw [fabric]; rfl
      bytes := by rw [lined.unmoved_eq, fabric]; rfl
      narrow := ready.bytes }

end Issue

structure Delivered (s s' : Site) (T : Traffic) (I : Counts → Nat → TileArray → Prop) : Prop where
  read : s'.ring.read = s.ring.read + T.packets.length
  retired : s'.status.retired = s.status.retired + T.packets.length
  faults : s'.status.faults = s.status.faults
  bytes : s'.status.bytesMoved = s.status.bytesMoved + T.total
  memory : s.queue.footprint.Leaves T.delivered s'.plant.memory
  tiles : ∃ moved steps, I moved steps s'.plant.fabric.tiles ∧
    ∀ packet ∈ T.packets, Traffic.Ended moved packet
  -- From here on only a kernel can still move something.
  quiet : ∀ order : Order, (∀ fifos, (order fifos).Perm fifos) →
    (s'.plant.poll order).1 = s'.plant.fabric.tiles.runKernels.1

theorem Arrived.later {orders : Nat → Order} {passes later : Nat} {base : FabricStatus}
    (conducts : T.Conducts last I) (sound : T.Sound s.queue)
    (visits : ∀ pass fifos, (orders pass fifos).Perm fifos)
    (arrived : (s.polls orders passes).Arrived T I l base) (le : passes ≤ later) :
    (s.polls orders later).Arrived T I l base := by
  induction later, le using Nat.le_induction with
  | base => exact arrived
  | succ later _ ih =>
    exact (ih.poll conducts (by rw [polls_queue]; exact sound) (visits later)).1

theorem Arrived.delivered {s' : Site} {l' : Log} (conducts : T.Conducts last I)
    (sound : T.Sound s'.queue) (idle : s.Idle l) (retired : l'.retired = l.retired)
    (footprint : s'.queue.footprint = s.queue.footprint)
    (arrived : s'.Arrived T I l' s.status) : s.Delivered s' T I := by
  obtain ⟨moved, steps, conveys, ended⟩ := arrived
  have bytes := conveys.bytes
  rw [conveys.unmoved_ended ended] at bytes
  have landed : T.delivered = T.landed moved := by
    refine Traffic.settle_congr _ fun out member => ?_
    obtain ⟨⟨index, among⟩, _⟩ := Traffic.mem_outs.mp member
    exact (ended _ among).symm
  refine ⟨?_, conveys.retired, conveys.faults, bytes, ?_, ⟨moved, steps, conveys.flows.tiles, ended⟩,
    fun order visits => ?_⟩
  · have read : s.ring.read = l.retired := idle.shows.readIndex
    rw [read, ← retired]
    exact conveys.shows.readIndex
  · rw [landed, ← footprint]
    exact conveys.flows.memory
  · exact (Arrived.poll conducts sound visits ⟨moved, steps, conveys, ended⟩).2

theorem Ready.delivers {ts : List Transfer} (conducts : T.Conducts last I)
    (sound : T.Sound s.queue) (idle : s.Idle l) (ready : s.Ready T ts l)
    (begun : I (fun _ => 0) 0 s.plant.fabric.tiles) (policy : WaitPolicy)
    (seen : Observation Ring) : ∃ packets ring,
      Ring.issue policy seen (ts.map .transfer) s.ring = .ok packets ring ∧
      packets.map (·.index.toNat) = List.range' s.ring.read ts.length ∧
      ∀ orders : Nat → Order, (∀ pass fifos, (orders pass fifos).Perm fifos) →
        ∀ passes, (T.total + last < passes ∨ ∃ earlier < passes,
            (((s.withRing ring).polls orders earlier).plant.poll (orders earlier)).1 = false) →
          s.Delivered ((s.withRing ring).polls orders passes) T I := by
  obtain ⟨packets, ring, l', ran, numbers, issued, sound', nears⟩ :=
    ready.nears idle last sound begun policy seen
  have read : s.ring.read = l.retired := idle.shows.readIndex
  refine ⟨packets, ring, ran, read ▸ numbers, fun orders visits passes enough => ?_⟩
  have queue := (s.withRing ring).polls_queue orders passes
  have arrived : ((s.withRing ring).polls orders passes).Arrived T I l' s.status := by
    rcases enough with many | ⟨earlier, before, still⟩
    · exact nears.arrives conducts sound' visits many
    · exact (nears.quiet conducts sound' visits earlier still).later conducts sound' visits before
  refine arrived.delivered conducts (queue ▸ sound') idle issued.retired ?_
  rw [queue]
  exact issued.keeps.footprint

end Site

end FabricQueue
