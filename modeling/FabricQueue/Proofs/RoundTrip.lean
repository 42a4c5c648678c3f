import FabricQueue.Proofs.Conduits
import FabricQueue.Proofs.Endurance
import FabricQueue.Proofs.Journeys

set_option autoImplicit false

namespace FabricQueue

-- Two transfers that meet in a cycle of buffers.
structure RoundTrip (s : Site) (cells : List Nat) (inward outward : Transfer) : Prop where
  cycle : cells ≠ []
  empty : ∀ i ∈ cells, ∃ b, s.plant.fabric.tiles.buffers.items[i]? = some b ∧ 0 < b.byteLength ∧
    b.full = false ∧ b.cursor = 0
  feeds : s.plant.fabric.tiles.routeOf inward.endpoint = some ⟨cells, 0⟩
  drains : s.plant.fabric.tiles.routeOf outward.endpoint = some ⟨cells, 0⟩
  kernels : ∀ name ∈ s.plant.fabric.tiles.kernels.flatMap AddKernel.names, ∀ i,
    s.plant.fabric.tiles.buffers.position? name = some i → i ∉ cells
  inbound : inward.direction = .hostToDevice
  outbound : outward.direction = .deviceToHost
  moves : inward.totalBytes ≠ 0
  same : outward.totalBytes = inward.totalBytes
  -- The bytes end where a buffer ends.
  whole : ∃ blocks, (Channel.of s.plant.fabric.tiles.buffers cells).start blocks = inward.totalBytes
  separate : s.plant.fabric.hosts.Separate
  source : s.plant.fabric.hosts.Holds inward.address inward.extent
  target : s.plant.fabric.hosts.Holds outward.address outward.extent
  apart : inward.address.toNat + inward.extent ≤ outward.address.toNat ∨
    outward.address.toNat + outward.extent ≤ inward.address.toNat
  bytes : s.status.bytesMoved + 2 * inward.totalBytes < UInt64.size

-- Both transfers are retired, the buffers are empty again, and each byte of the source stands where
-- the other geometry puts it, later bytes over earlier ones.
structure Returned (s s' : Site) (cells : List Nat) (inward outward : Transfer) : Prop where
  read : s'.ring.read = s.ring.read + 2
  retired : s'.status.retired = s.status.retired + 2
  faults : s'.status.faults = s.status.faults
  empty : ∀ i ∈ cells, ∃ b, s'.plant.fabric.tiles.buffers.items[i]? = some b ∧ b.full = false
  memory : s.queue.footprint.Leaves
    (s.plant.memory.scatter (outward.addresses.map s.plant.fabric.hosts.place)
      (inward.addresses.map fun a => s.plant.memory.get (s.plant.fabric.hosts.place a)))
    s'.plant.memory

namespace RoundTrip

variable {s : Site} {l : Log} {cells : List Nat} {inward outward : Transfer} {ts : List Transfer}

def byteAt (s : Site) (address : Nat) : UInt8 :=
  s.plant.memory.get (s.plant.fabric.hosts.place address)

def traffic (s : Site) (l : Log) (inward : Transfer) (ts : List Transfer) : Traffic where
  hosts := s.plant.fabric.hosts
  packets := Admitted.batch l.retired ts
  initial := s.plant.memory
  value _ k := byteAt s (inward.addresses.getD k 0)

def channel (s : Site) (cells : List Nat) : Channel :=
  Channel.of s.plant.fabric.tiles.buffers cells

-- The invariant of the tiles. No kernel has a part in it.
def Underway (s : Site) (cells : List Nat) (inward outward : Transfer) (moved : Counts) (steps : Nat)
    (t : TileArray) : Prop :=
  steps = 0 ∧ ∃ k, (channel s cells).Between (fun k => byteAt s (inward.addresses.getD k 0))
    inward.endpoint outward.endpoint moved t k

section Trip

variable (trip : RoundTrip s cells inward outward)

include trip

theorem vacant : (channel s cells).Vacant s.plant.fabric.tiles.buffers :=
  (Channel.of_vacant trip.cycle trip.empty).2

theorem proper : (channel s cells).Proper :=
  (Channel.of_vacant trip.cycle trip.empty).1

theorem different : inward.endpoint ≠ outward.endpoint := by
  intro same
  have clash := congrArg Endpoint.direction same
  simp only [Transfer.endpoint, trip.inbound, trip.outbound] at clash
  cases clash

theorem begun : Underway s cells inward outward (fun _ => 0) 0 s.plant.fabric.tiles :=
  ⟨rfl, {}, trip.vacant.between trip.proper _ trip.feeds trip.drains trip.kernels⟩

theorem lengths : inward.received.addresses.length = inward.totalBytes ∧
    outward.received.addresses.length = inward.totalBytes := by
  have moves : outward.totalBytes ≠ 0 := trip.same ▸ trip.moves
  exact ⟨trip.separate.addresses_length trip.source trip.moves,
    (trip.separate.addresses_length trip.target moves).trans trip.same⟩

section Batch

variable (either : ts = [inward, outward] ∨ ts = [outward, inward])

include either

omit trip in
theorem mem_iff {t : Transfer} : t ∈ ts ↔ t = inward ∨ t = outward := by
  rcases either with rfl | rfl
  · simp
  · simp [or_comm]

omit trip in
theorem packets_cases {packet : Admitted}
    (member : packet ∈ (traffic s l inward ts).packets) :
    packet.2 = inward.received ∨ packet.2 = outward.received := by
  obtain ⟨t, known, same⟩ := Admitted.batch_cases member
  rcases (mem_iff either).mp known with rfl | rfl
  · exact .inl same
  · exact .inr same

omit trip in
theorem packets_mem {t : Transfer} (member : t = inward ∨ t = outward) :
    ∃ index, (index, t.received) ∈ (traffic s l inward ts).packets :=
  Admitted.batch_mem l.retired ((mem_iff either).mpr member)

theorem inward_of {packet : Admitted} (member : packet ∈ (traffic s l inward ts).packets)
    (direction : packet.2.direction = .hostToDevice) : packet.2 = inward.received := by
  refine (packets_cases either member).resolve_right fun other => ?_
  rw [other] at direction
  exact absurd (direction.symm.trans trip.outbound) (by decide)

theorem outward_of {packet : Admitted} (member : packet ∈ (traffic s l inward ts).packets)
    (direction : packet.2.direction = .deviceToHost) : packet.2 = outward.received := by
  refine (packets_cases either member).resolve_left fun other => ?_
  rw [other] at direction
  exact absurd (direction.symm.trans trip.inbound) (by decide)

theorem outs : (traffic s l inward ts).outs = [outward.received] := by
  have all : (traffic s l inward ts).packets.map (·.2) = ts.map Transfer.received :=
    Admitted.batch_transfers _ _
  have first : inward.received.direction = .hostToDevice := trip.inbound
  have second : outward.received.direction = .deviceToHost := trip.outbound
  rw [Traffic.outs, all]
  rcases either with rfl | rfl <;> simp [first, second]

theorem conducts :
    (traffic s l inward ts).Conducts 0 (Underway s cells inward outward) := by
  have apart := trip.different
  refine ⟨?fill, ?drain, ?kernels⟩
  case fill =>
    rintro moved steps t ⟨rfl, k, between⟩ packet member direction bytes nonempty next -
    have own := trip.inward_of either member direction
    rw [own] at next ⊢
    obtain ⟨count, k', t', filled, bound, after, _, still⟩ :=
      between.fill trip.proper trip.inbound apart.symm nonempty next
    exact ⟨count, t', filled, bound, ⟨rfl, k', after⟩, still⟩
  case drain =>
    rintro moved steps t ⟨rfl, k, between⟩ packet member direction limit positive -
    have own := trip.outward_of either member direction
    rw [own]
    obtain ⟨bytes, k', t', drained, bound, next, after, _, still⟩ :=
      between.drain trip.proper trip.outbound apart positive
    exact ⟨bytes, t', drained, bound, next, ⟨rfl, k', after⟩, still⟩
  case kernels =>
    rintro moved steps t ⟨rfl, k, between⟩ within
    refine ⟨0, Nat.le_refl _, Nat.le_refl _, ⟨rfl, k, between.runKernels trip.cycle⟩, fun _ => rfl,
      fun stuck => .inr ?_⟩
    obtain ⟨blocks, whole⟩ := trip.whole
    obtain ⟨length, length'⟩ := trip.lengths
    rw [← whole] at length length'
    obtain ⟨index, first⟩ := packets_mem either (.inl rfl)
    obtain ⟨index', second⟩ := packets_mem either (.inr rfl)
    have bound := within _ first
    have bound' := within _ second
    have fill := stuck _ first
    have drain := stuck _ second
    simp only [Traffic.Ended, length] at bound fill
    simp only [Traffic.Ended, length'] at bound' drain
    obtain ⟨ended, ended'⟩ :=
      between.ended trip.proper trip.inbound trip.outbound ⟨bound, bound'⟩ fill drain
    intro packet member
    rcases packets_cases either member with own | own <;> rw [Traffic.Ended, own]
    · rw [length]
      exact ended
    · rw [length']
      exact ended'

theorem sound (queue : s.plant.fabric.hosts.Apart s.queue)
    (indices : l.retired + 2 ≤ UInt64.size) :
    (traffic s l inward ts).Sound s.queue := by
  have two : ts.length = 2 := by rcases either with rfl | rfl <;> rfl
  have moves : outward.totalBytes ≠ 0 := trip.same ▸ trip.moves
  have source := trip.separate.addresses_within trip.source trip.moves
  have target := trip.separate.addresses_within trip.target moves
  refine {
    separate := trip.separate, apart := queue, distinct := ?distinct, numbered := ?numbered
    covered := ?covered, targets := ?targets, sources := ?sources }
  case distinct =>
    change ((Admitted.batch l.retired ts).map (·.2.endpoint)).Nodup
    rw [Admitted.batch_endpoints]
    have apart := trip.different
    rcases either with rfl | rfl
    · simpa using apart
    · simpa using apart.symm
  case numbered => exact Admitted.batch_distinct (by omega)
  case covered =>
    intro packet member
    rcases packets_cases either member with own | own <;> rw [own]
    · exact trip.separate.covers trip.source trip.moves
    · exact trip.separate.covers trip.target moves
  case targets =>
    rw [trip.outs either]
    exact List.pairwise_singleton _ _
  case sources =>
    intro packet member direction k a found
    have own := trip.inward_of either member direction
    rw [own] at found
    have inside := (source a (List.mem_of_getElem? found)).2
    refine ⟨fun out among back => ?_, ?_⟩
    · rw [trip.outs either, List.mem_singleton] at among
      subst among
      have outside := (target a back).2
      have apart := trip.apart
      omega
    · have same : inward.addresses.getD k 0 = a := by
        rw [List.getD_eq_getElem?_getD]
        exact congrArg (Option.getD · 0) found
      exact congrArg (byteAt s) same.symm

theorem total : (traffic s l inward ts).total = 2 * inward.totalBytes := by
  obtain ⟨length, length'⟩ := trip.lengths
  have lengths : inward.addresses.length = inward.totalBytes ∧
      outward.addresses.length = inward.totalBytes := ⟨length, length'⟩
  rw [Traffic.total_batch rfl]
  rcases either with rfl | rfl <;> simp [lengths] <;> omega

theorem ready (idle : s.Idle l) (indices : l.retired + s.queue.capacity < UInt64.size) :
    s.Ready (traffic s l inward ts) ts l := by
  have two : ts.length = 2 := by rcases either with rfl | rfl <;> rfl
  have bounds := Layout.supports_bounds idle.shows.supported
  refine ⟨rfl, rfl, rfl, by omega, fun t member => ?_, fun t member => ?_, fun t member => ?_,
    indices, ?_⟩
  · rcases (mem_iff either).mp member with rfl | rfl
    · exact trip.source
    · exact trip.target
  · rcases (mem_iff either).mp member with rfl | rfl
    · exact Option.isSome_of_eq_some trip.feeds
    · exact Option.isSome_of_eq_some trip.drains
  · rcases (mem_iff either).mp member with rfl | rfl
    · exact trip.moves
    · exact trip.same ▸ trip.moves
  · rw [trip.total either]
    exact trip.bytes

theorem returned {s' : Site} (delivered : s.Delivered s' (traffic s l inward ts)
    (Underway s cells inward outward)) : Returned s s' cells inward outward := by
  have two : ts.length = 2 := by rcases either with rfl | rfl <;> rfl
  have count : (traffic s l inward ts).packets.length = 2 :=
    (Admitted.batch_length _ _).trans two
  obtain ⟨length, length'⟩ := trip.lengths
  refine ⟨count ▸ delivered.read, count ▸ delivered.retired, delivered.faults, fun i member => ?_, ?_⟩
  · obtain ⟨moved, _, ⟨_, k, between⟩, ended⟩ := delivered.tiles
    obtain ⟨blocks, whole⟩ := trip.whole
    obtain ⟨_, first⟩ := packets_mem either (.inl rfl)
    obtain ⟨_, second⟩ := packets_mem either (.inr rfl)
    have filled := trip.proper.block_eq between.holds.part
      (between.feeds.count.trans ((ended _ first).trans (length.trans whole.symm)))
    have drained := trip.proper.block_eq between.holds.taken
      (between.taps.count.trans ((ended _ second).trans (length'.trans whole.symm)))
    obtain ⟨block, rfl⟩ := (channel s cells).cell_of_mem member
    exact between.holds.unlocked (drained.1.trans filled.1.symm) block
  · have bytes : (List.range outward.received.addresses.length).map
        (fun k => byteAt s (inward.addresses.getD k 0)) = inward.addresses.map (byteAt s) := by
      apply List.ext_getElem
      · rw [List.length_map, List.length_map, List.length_range, length']
        exact length.symm
      · intro k _ below
        rw [List.length_map] at below
        simp [below]
    have memory := delivered.memory
    rw [Traffic.delivered, trip.outs either, Traffic.settle, List.take_length] at memory
    simp only [traffic, bytes] at memory
    exact memory

end Batch

end Trip

-- Whatever the order of the two packets and of the visits.
theorem returns (trip : RoundTrip s cells inward outward) (idle : s.Idle l)
    (queue : s.plant.fabric.hosts.Apart s.queue)
    (indices : s.ring.read + s.queue.capacity < UInt64.size)
    (either : ts = [inward, outward] ∨ ts = [outward, inward]) (policy : WaitPolicy)
    (seen : Observation Ring) : ∃ packets ring,
      Ring.issue policy seen (ts.map .transfer) s.ring = .ok packets ring ∧
      ∀ orders : Nat → Order, (∀ pass fifos, (orders pass fifos).Perm fifos) →
        ∀ passes, 2 * inward.totalBytes < passes →
          Returned s ((s.withRing ring).polls orders passes) cells inward outward := by
  have read : s.ring.read = l.retired := idle.shows.readIndex
  have bounds := Layout.supports_bounds idle.shows.supported
  rw [read] at indices
  obtain ⟨packets, ring, issued, _, delivers⟩ :=
    (trip.ready either idle indices).delivers (trip.conducts either)
      (trip.sound either queue (by omega)) idle trip.begun policy seen
  refine ⟨packets, ring, issued, fun orders visits passes many => ?_⟩
  have enough : (traffic s l inward ts).total + 0 < passes := by
    rw [trip.total either]
    exact many
  exact trip.returned either (delivers orders visits passes (.inl enough))

-- One empty buffer of two words between both ends of the first channel.
def sampleTiles : TileArray where
  buffers := ⟨#[TileBuffer.zeroed "a" 2]⟩
  routes := [((Site.sampleTransfer .hostToDevice 0).endpoint, ⟨[0], 0⟩),
    ((Site.sampleTransfer .deviceToHost 0).endpoint, ⟨[0], 0⟩)]

-- A fabric on two slots, with the word 2 right behind them.
def sampleSite (ring : Ring) (hosts : HostMap) : Site :=
  ⟨ring.queue, ⟨Fabric.started ring.queue hosts sampleTiles 0, ring.memory.set 192 2⟩⟩

section Sample

variable {ring : Ring} (opened : ring.Opened)
  (two : ring.queue = Queue.opened 0 2 .multi ⟨0, 0, 192, false⟩) (hosts : HostMap)

include opened two

theorem sampleSite_idle : (sampleSite ring hosts).Idle {} := by
  have shows := opened.tracks.shows
  refine ⟨shows.of_bytes (ByteStore.size_set _ _ _) fun i _ below => ?_, rfl, rfl, rfl, rfl, rfl, rfl,
    List.nodup_nil, rfl⟩
  rw [two] at below
  have before : i < 192 := below
  exact ByteStore.get_set_other _ _ (by omega)

theorem sampleSite_indices :
    (sampleSite ring hosts).ring.read + (sampleSite ring hosts).queue.capacity < UInt64.size := by
  have read : (sampleSite ring hosts).ring.read = 0 :=
    (sampleSite_idle opened two hosts).shows.readIndex
  have capacity : (sampleSite ring hosts).queue.capacity = 2 := congrArg Queue.capacity two
  rw [read, capacity]
  decide

end Sample

theorem sampleSite_trip (ring : Ring) {hosts : HostMap} (source target : UInt64)
    (separate : hosts.Separate) (holds : hosts.Holds source 8) (holds' : hosts.Holds target 8)
    (apart : source.toNat + 8 ≤ target.toNat ∨ target.toNat + 8 ≤ source.toNat) :
    RoundTrip (sampleSite ring hosts) [0] (Site.sampleTransfer .hostToDevice source)
      (Site.sampleTransfer .deviceToHost target) where
  cycle := by decide
  empty i member := by
    rw [List.mem_singleton.mp member]
    exact ⟨TileBuffer.zeroed "a" 2, rfl, by decide +kernel, rfl, rfl⟩
  feeds := rfl
  drains := rfl
  kernels := nofun
  inbound := rfl
  outbound := rfl
  moves := (by decide : 8 ≠ 0)
  same := rfl
  whole := ⟨1, (by decide +kernel : (Channel.of sampleTiles.buffers [0]).start 1 = 8)⟩
  separate := separate
  source := holds
  target := holds'
  apart := apart
  bytes := (by decide : 0 + 2 * 8 < UInt64.size)

-- The eight words behind the queue.
def sampleHosts : HostMap :=
  ⟨[⟨192, 4096, 64, false⟩]⟩

theorem returns_sample : ∃ ring packets ring', sampleHosts.Apart (sampleSite ring sampleHosts).queue ∧
    (sampleSite ring sampleHosts).Idle {} ∧
    RoundTrip (sampleSite ring sampleHosts) [0] (Site.sampleTransfer .hostToDevice 4096)
      (Site.sampleTransfer .deviceToHost 4104) ∧
    (sampleSite ring sampleHosts).ring.read + (sampleSite ring sampleHosts).queue.capacity <
      UInt64.size ∧
    Ring.issue .indefinite (fun _ => []) ([Site.sampleTransfer .deviceToHost 4104,
      Site.sampleTransfer .hostToDevice 4096].map .transfer) (sampleSite ring sampleHosts).ring =
        .ok packets ring' ∧
    Returned (sampleSite ring sampleHosts)
      (((sampleSite ring sampleHosts).withRing ring').polls (fun _ => id) 17) [0]
      (Site.sampleTransfer .hostToDevice 4096) (Site.sampleTransfer .deviceToHost 4104) := by
  obtain ⟨ring, opened, two⟩ : ∃ ring : Ring, ring.Opened ∧
      ring.queue = Queue.opened 0 2 .multi ⟨0, 0, 192, false⟩ :=
    ⟨Site.sampleRing, Site.sampleRing_opened, Site.sampleRing_queue⟩
  have inside (address : UInt64) (within : sampleHosts.regions.head?.any
      fun r => r.contains address 8) : sampleHosts.Holds address 8 :=
    ⟨_, List.mem_cons_self, by simpa [sampleHosts] using within⟩
  have trip := sampleSite_trip ring 4096 4104 ⟨List.pairwise_singleton _ _, by decide⟩
    (inside _ (by decide)) (inside _ (by decide)) (.inl (by decide))
  have apart : sampleHosts.Apart (sampleSite ring sampleHosts).queue := by
    change sampleHosts.Apart ring.queue
    rw [HostMap.Apart, two]
    decide
  have idle := sampleSite_idle opened two sampleHosts
  have indices := sampleSite_indices opened two sampleHosts
  obtain ⟨packets, ring', issued, returned⟩ :=
    trip.returns idle apart indices (.inr rfl) .indefinite fun _ => []
  exact ⟨ring, packets, ring', apart, idle, trip, indices, issued,
    returned (fun _ => id) (fun _ _ => List.Perm.refl _) 17 (by decide)⟩

def sampleOverlap : HostMap :=
  ⟨[⟨0, 0, 192, false⟩, ⟨192, 4096, 64, false⟩]⟩

def sampleIssue : EStateM.Result Failure Ring (List PacketRef) :=
  Ring.issue .indefinite (fun _ => []) ([Site.sampleTransfer .deviceToHost 0x28,
    Site.sampleTransfer .hostToDevice 4096].map .transfer) (sampleSite Site.sampleRing sampleOverlap).ring

-- The first packet writes 2 over the read index and cannot retire after that.
theorem sampleIssue_pass : (Site.ended? sampleIssue).map (fun after =>
    let site := (sampleSite Site.sampleRing sampleOverlap).withRing after.2
    let fabric := (site.poll List.reverse).plant.fabric
    (fabric.status.retired, fabric.running)) = some (1, false) := by
  rw [sampleIssue, sampleSite, Site.sampleRing_queue, Site.sampleRing_memory]
  decide +kernel

theorem overlap_breaks_return : ¬ ∀ (s : Site) (l : Log) (cells : List Nat)
    (inward outward : Transfer) (ts : List Transfer) (policy : WaitPolicy) (seen : Observation Ring),
    RoundTrip s cells inward outward → s.Idle l →
    s.ring.read + s.queue.capacity < UInt64.size →
    ts = [inward, outward] ∨ ts = [outward, inward] →
    ∃ packets ring, Ring.issue policy seen (ts.map .transfer) s.ring = .ok packets ring ∧
      ∀ orders : Nat → Order, (∀ pass fifos, (orders pass fifos).Perm fifos) →
        ∃ passes, Returned s ((s.withRing ring).polls orders passes) cells inward outward := by
  intro always
  have idle := sampleSite_idle Site.sampleRing_opened Site.sampleRing_queue sampleOverlap
  have indices := sampleSite_indices Site.sampleRing_opened Site.sampleRing_queue sampleOverlap
  have separate : sampleOverlap.Separate :=
    ⟨List.pairwise_pair.mpr ⟨by decide, by decide⟩, by decide⟩
  have trip := sampleSite_trip Site.sampleRing 4096 0x28 separate
    ⟨_, List.mem_cons_of_mem _ List.mem_cons_self, by decide⟩ ⟨_, List.mem_cons_self, by decide⟩
    (.inr (by decide))
  obtain ⟨packets, ring, issued, reaches⟩ :=
    always _ _ _ _ _ _ .indefinite (fun _ => []) trip idle indices (.inr rfl)
  obtain ⟨passes, returned⟩ := reaches (fun _ => List.reverse) fun _ _ => List.reverse_perm _
  have pass := sampleIssue_pass
  rw [show sampleIssue = .ok packets ring from issued] at pass
  simp only [Site.ended?, Option.map_some, Option.some.injEq, Prod.mk.injEq] at pass
  have retired := returned.retired
  cases passes with
  | zero => exact absurd (show 0 = 2 from retired) (by decide)
  | succ passes =>
    rw [Site.polls_halted (fun _ => List.reverse) pass.2, Site.status, pass.1] at retired
    cases retired

end RoundTrip

end FabricQueue
