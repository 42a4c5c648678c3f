import FabricQueue.Proofs.Adders
import FabricQueue.Proofs.Endurance
import FabricQueue.Proofs.Journeys
import FabricQueue.Proofs.Outlines
import FabricQueue.Scenario.MatrixAdd

set_option autoImplicit false

namespace FabricQueue

namespace MatrixAdd

-- The tiles of the scenario.
def outline : TileArray.Outline where
  buffers := ["ping_a", "pong_a", "ping_b", "pong_b", "ping_c", "pong_c"].map fun name =>
    ⟨name, 4 * tileWords, false, 0⟩
  routes := [(⟨column, 0, .deviceToHost⟩, ⟨[4, 5], 0⟩), (⟨column, 1, .hostToDevice⟩, ⟨[2, 3], 0⟩),
    (⟨column, 0, .hostToDevice⟩, ⟨[0, 1], 0⟩)]
  kernels := [{ ping, pong }]

theorem tiles_outline : tiles.toOption.map TileArray.outline = some outline := by
  decide +kernel

def endpoint : Lane → Endpoint
  | .left => ⟨column, 0, .hostToDevice⟩
  | .right => ⟨column, 1, .hostToDevice⟩
  | .sum => ⟨column, 0, .deviceToHost⟩

def cells : Lane → List Nat
  | .left => [0, 1]
  | .right => [2, 3]
  | .sum => [4, 5]

def adder : Adder where
  channel lane := ⟨cells lane, fun _ => 4 * tileWords⟩
  endpoint := endpoint
  ping := ping
  pong := pong
  words := tileWords

theorem adder_sound : adder.Sound where
  inbound := by rintro (_ | _ | _) input; exacts [rfl, rfl, absurd rfl input]
  outbound := rfl
  distinct := by rintro (_ | _ | _) (_ | _ | _) same <;> first | rfl | exact absurd same (by decide)
  words := by decide
  cycles := by rintro (_ | _ | _) <;> decide
  sizes _ _ := rfl
  apart := by rintro (_ | _ | _) (_ | _ | _) <;> decide

theorem adder_cell (lane : Lane) (block : Nat) :
    (block % 2 = 0 ∧ (adder.channel lane).cell block = (cells lane).getD 0 0 ∧
      (adder.kernel block).current = ping) ∨
    (block % 2 = 1 ∧ (adder.channel lane).cell block = (cells lane).getD 1 0 ∧
      (adder.kernel block).current = pong) := by
  have two : (cells lane).length = 2 := by cases lane <;> rfl
  have cell : (adder.channel lane).cell block = (cells lane).getD (block % 2) 0 :=
    congrArg (fun n => (cells lane).getD (block % n) 0) two
  rcases Nat.mod_two_eq_zero_or_one block with even | odd
  · refine .inl ⟨even, even ▸ cell, ?_⟩
    simp [AddKernel.current, Adder.kernel, even, adder]
  · refine .inr ⟨odd, odd ▸ cell, ?_⟩
    simp [AddKernel.current, Adder.kernel, odd, adder]

theorem adder_begun {t : TileArray} (same : t.outline = outline) (left right : Nat → UInt8) :
    adder.Turns left right (fun _ => 0) 0 t fun _ => {} := by
  refine adder_sound.begun left right (fun lane block => ?_) (fun lane => ?_) ?_ fun lane block => ?_
  · have shaped : ∃ name, outline.buffers[(adder.channel lane).cell block]? =
        some ⟨name, 4 * tileWords, false, 0⟩ := by
      rcases adder_cell lane block with ⟨_, cell, _⟩ | ⟨_, cell, _⟩ <;> rw [cell] <;>
        cases lane <;> exact ⟨_, rfl⟩
    obtain ⟨name, found⟩ := shaped
    obtain ⟨b, known, shape⟩ := TileArray.outline_buffer same found
    exact ⟨b, known, congrArg TileBuffer.Shape.length shape, congrArg TileBuffer.Shape.full shape,
      congrArg TileBuffer.Shape.cursor shape⟩
  · have routes : t.routes = outline.routes := congrArg TileArray.Outline.routes same
    rw [TileArray.routeOf, routes]
    cases lane <;> decide
  · exact congrArg TileArray.Outline.kernels same
  · rw [TileArray.outline_position same]
    rcases adder_cell lane block with ⟨_, cell, names⟩ | ⟨_, cell, names⟩ <;> rw [cell, names] <;>
      cases lane <;> decide

def imageByte (k : Nat) : Nat :=
  k / 64 % 8 * 512 + k / 512 % 8 * 64 + k / 4096 * 4096 + k % 64

theorem imageByte_digits {band row tile byte : Nat} (first : tile < 8) (second : row < 8)
    (third : byte < 64) : imageByte (4096 * band + 512 * tile + 64 * row + byte) =
      4096 * band + 512 * row + 64 * tile + byte := by
  unfold imageByte
  omega

theorem digits (k : Nat) : ∃ band tile row byte, k = 4096 * band + 512 * tile + 64 * row + byte ∧
    tile < 8 ∧ row < 8 ∧ byte < 64 :=
  ⟨k / 4096, k / 512 % 8, k / 64 % 8, k % 64, by omega, by omega, by omega, by omega⟩

theorem imageByte_twice (k : Nat) : imageByte (imageByte k) = k := by
  obtain ⟨band, tile, row, byte, rfl, first, second, third⟩ := digits k
  rw [imageByte_digits first second third, imageByte_digits second first third]

theorem imageByte_lt {k : Nat} (below : k < 8192) : imageByte k < 8192 := by
  unfold imageByte
  omega

theorem imageByte_word (i : Nat) {r : Nat} (small : r < 4) :
    imageByte (4 * i + r) = imageByte (4 * i) + r ∧ imageByte (4 * i) % 4 = 0 := by
  unfold imageByte
  omega

section Transfers

variable (channel : UInt8) (direction : Direction) (address : UInt64)

theorem tiled_extent : (tiledTransfer channel direction address).extent = 8192 := by
  have same : (tiledTransfer channel direction address).extent =
      (tiledTransfer 0 .hostToDevice 0).extent := rfl
  rw [same]
  decide +kernel

theorem tiled_bytes : (tiledTransfer channel direction address).totalBytes = 8192 := by
  have same : (tiledTransfer channel direction address).totalBytes =
      (tiledTransfer 0 .hostToDevice 0).totalBytes := rfl
  rw [same]
  decide +kernel

theorem tiled_addresses (fits : address.toNat + 8192 ≤ UInt64.size) :
    (tiledTransfer channel direction address).addresses =
      (List.range 8192).map fun k => address.toNat + imageByte k := by
  have within := Transfer.chunks_within (t := tiledTransfer channel direction address)
    (by rw [tiled_bytes]; decide) (Nat.le_refl _) (Nat.le_refl _)
  rw [tiled_extent] at within
  have runs : (tiledTransfer channel direction address).addresses =
      (List.range 128).flatMap fun n => (List.range 64).map fun r =>
        address.toNat + (tiledTransfer channel direction address).chunks.offsetAt n + r := by
    have first : (tiledTransfer channel direction address).chunks.position = 0 := rfl
    have count : (tiledTransfer channel direction address).chunks.remaining = 128 := rfl
    have run : (tiledTransfer channel direction address).chunks.run.toNat = 64 := rfl
    rw [Transfer.addresses, within.runs_at fits rfl, first, count, run,
      List.range_eq_range' (n := 128)]
    exact List.flatMap_congr fun n _ => List.range'_eq_map_range
  rw [runs, range_flatMap _ 128 (by decide : 0 < 64)]
  apply List.map_congr_left
  intro k _
  change address.toNat + (k / 64 % 8 * 512 + k / 64 / 8 % 8 * 64 + k / 64 / 8 / 8 * 4096) + k % 64 = _
  unfold imageByte
  omega

end Transfers

-- The transfer of a lane, between a staging buffer and the tiles.
def packet (r : Region) (lane : Lane) : Transfer :=
  tiledTransfer (endpoint lane).channel (endpoint lane).direction
    (UInt64.ofNat (r.base.toNat + image lane * imageWords * 4))
where
  image : Lane → Nat
    | .left => 0
    | .right => 1
    | .sum => 2

def lanes : List Lane :=
  [.left, .right, .sum]

-- A word of a staging buffer.
def word (r : Region) (m : Memory) (i : Nat) : UInt32 :=
  m.read32 (r.origin + 4 * i)

structure Staged (s : Site) (l : Log) (r : Region) (ts : List Transfer) : Prop where
  idle : s.Idle l
  hosts : s.plant.fabric.hosts = ⟨[r]⟩
  apart : HostMap.Apart ⟨[r]⟩ s.queue
  addressable : r.base.toNat + r.size < UInt64.size
  backed : r.Backed s.plant.memory
  large : stagingBytes ≤ r.size
  tiles : s.plant.fabric.tiles.outline = outline
  packets : ts.Perm (lanes.map (packet r))
  room : 3 ≤ s.queue.capacity
  indices : l.retired + s.queue.capacity < UInt64.size
  bytes : s.status.bytesMoved + stagingBytes < UInt64.size

-- All three are retired, the third image is the sum of the others, and nothing else was written.
structure Summed (r : Region) (s s' : Site) : Prop where
  read : s'.ring.read = s.ring.read + 3
  retired : s'.status.retired = s.status.retired + 3
  faults : s'.status.faults = s.status.faults
  bytes : s'.status.bytesMoved = s.status.bytesMoved + stagingBytes
  sum : ∀ i < imageWords, word r s'.plant.memory (2 * imageWords + i) =
    word r s.plant.memory i + word r s.plant.memory (imageWords + i)
  others : ∀ i < r.size, i < 2 * imageWords * 4 ∨ stagingBytes ≤ i →
    s'.plant.memory.get (r.origin + i) = s.plant.memory.get (r.origin + i)

-- The bytes of an image in the order in which they move.
def stream (r : Region) (m : Memory) (lane : Lane) (k : Nat) : UInt8 :=
  m.get (r.origin + (packet.image lane * 8192 + imageByte k))

theorem word_stream (r : Region) (m : Memory) (lane : Lane) (i : Nat) :
    wordAt (stream r m lane) (imageByte (4 * i) / 4) =
      word r m (packet.image lane * imageWords + i) := by
  refine (read32_eq_wordAt fun b small => ?_).symm
  have aligned := (imageByte_word i (by decide : 0 < 4)).2
  have moved := (imageByte_word (imageByte (4 * i) / 4) small).1
  have whole : 4 * (imageByte (4 * i) / 4) = imageByte (4 * i) := by omega
  rw [whole, imageByte_twice] at moved
  rw [stream, whole, moved]
  congr 1
  symm
  change r.origin + (packet.image lane * 8192 + (4 * i + b)) =
    r.origin + 4 * (packet.image lane * 2048 + i) + b
  omega

def traffic (s : Site) (l : Log) (r : Region) (ts : List Transfer) : Traffic where
  hosts := ⟨[r]⟩
  packets := Admitted.batch l.retired ts
  initial := s.plant.memory
  value e :=
    if e = endpoint .left then stream r s.plant.memory .left
    else if e = endpoint .right then stream r s.plant.memory .right
    else sumBytes (stream r s.plant.memory .left) (stream r s.plant.memory .right)

theorem endpoint_injective : Function.Injective endpoint :=
  adder_sound.distinct

theorem packet_endpoint (r : Region) (lane : Lane) : (packet r lane).endpoint = endpoint lane := by
  cases lane <;> rfl

namespace Staged

variable {s : Site} {l : Log} {r : Region} {ts : List Transfer} (staged : Staged s l r ts)

include staged

theorem separate : HostMap.Separate ⟨[r]⟩ :=
  HostMap.separate_single (Nat.le_of_lt staged.addressable)

theorem address_toNat (lane : Lane) :
    (packet r lane).address.toNat = r.base.toNat + packet.image lane * 8192 := by
  have large : 24576 ≤ r.size := staged.large
  have addressable := staged.addressable
  have few : packet.image lane ≤ 2 := by cases lane <;> decide
  change (UInt64.ofNat (r.base.toNat + packet.image lane * 2048 * 4)).toNat = _
  rw [UInt64.toNat_ofNat_of_lt' (by omega)]
  omega

theorem fits (lane : Lane) : packet.image lane * 8192 + 8192 ≤ r.size := by
  have large : 24576 ≤ r.size := staged.large
  have few : packet.image lane ≤ 2 := by cases lane <;> decide
  omega

theorem holds (lane : Lane) :
    HostMap.Holds ⟨[r]⟩ (packet r lane).address (packet r lane).extent := by
  refine ⟨r, List.mem_cons_self, Region.contains_iff.mpr ?_⟩
  have fits := staged.fits lane
  rw [staged.address_toNat lane, packet, tiled_extent]
  omega

theorem addresses (lane : Lane) : (packet r lane).addresses = (List.range 8192).map fun k =>
    r.base.toNat + (packet.image lane * 8192 + imageByte k) := by
  have place := staged.address_toNat lane
  have fits := staged.fits lane
  have addressable := staged.addressable
  refine (tiled_addresses _ _ _ ?_).trans ?_
  · change (packet r lane).address.toNat + 8192 ≤ _
    omega
  · change (List.range 8192).map (fun k => (packet r lane).address.toNat + imageByte k) = _
    rw [place]
    simp only [Nat.add_assoc]

theorem place (lane : Lane) {k : Nat} (below : k < 8192) :
    HostMap.place ⟨[r]⟩ (r.base.toNat + (packet.image lane * 8192 + imageByte k)) =
      r.origin + (packet.image lane * 8192 + imageByte k) := by
  have fits := staged.fits lane
  have inside := imageByte_lt below
  exact HostMap.place_single (Nat.le_of_lt staged.addressable) (by omega)

theorem lane_of {t : Transfer} (member : t ∈ ts) : ∃ lane, packet r lane = t := by
  obtain ⟨lane, _, same⟩ := List.mem_map.mp (staged.packets.subset member)
  exact ⟨lane, same⟩

theorem packets_cases {packet' : Admitted} (member : packet' ∈ (traffic s l r ts).packets) :
    ∃ lane, packet'.2 = (packet r lane).received := by
  obtain ⟨t, known, same⟩ := Admitted.batch_cases member
  obtain ⟨lane, rfl⟩ := staged.lane_of known
  exact ⟨lane, same⟩

theorem packets_mem (lane : Lane) :
    ∃ index, (index, (packet r lane).received) ∈ (traffic s l r ts).packets :=
  Admitted.batch_mem l.retired (staged.packets.symm.subset
    (List.mem_map_of_mem (by cases lane <;> decide)))

omit staged in
theorem moves (lane : Lane) : (packet r lane).totalBytes ≠ 0 := by
  rw [packet, tiled_bytes]
  decide

theorem length (lane : Lane) : (packet r lane).addresses.length = 8192 := by
  rw [staged.addresses, List.length_map, List.length_range]

theorem conveys : adder.Conveys (traffic s l r ts) (stream r s.plant.memory .left)
    (stream r s.plant.memory .right) 16 := by
  have here (lane : Lane) : (packet r lane).received.endpoint = endpoint lane :=
    packet_endpoint r lane
  refine ⟨fun packet' member => ?_, fun lane => ?_, fun packet' member => ?_, fun lane => ?_⟩
  · obtain ⟨lane, same⟩ := staged.packets_cases member
    exact ⟨lane, by rw [same]; exact here lane⟩
  · obtain ⟨index, member⟩ := staged.packets_mem lane
    exact ⟨_, member, here lane⟩
  · obtain ⟨lane, same⟩ := staged.packets_cases member
    rw [same]
    exact staged.length lane
  · cases lane <;> rfl

theorem outs : (traffic s l r ts).outs = [(packet r .sum).received] := by
  have all : (traffic s l r ts).packets.map (·.2) = ts.map Transfer.received :=
    Admitted.batch_transfers _ _
  have perm := (staged.packets.map Transfer.received).filter
    fun t => decide (t.direction = .deviceToHost)
  rw [Traffic.outs, all]
  exact List.perm_singleton.mp perm

theorem sound : (traffic s l r ts).Sound s.queue := by
  have three : ts.length = 3 := staged.packets.length_eq
  have indices := staged.indices
  have room := staged.room
  refine {
    separate := staged.separate, apart := staged.apart, distinct := ?distinct, numbered := ?numbered
    covered := ?covered, targets := ?targets, sources := ?sources }
  case distinct =>
    change ((Admitted.batch l.retired ts).map (·.2.endpoint)).Nodup
    rw [Admitted.batch_endpoints]
    refine (staged.packets.map Transfer.endpoint).nodup_iff.mpr ?_
    have own : lanes.map (Transfer.endpoint ∘ packet r) = lanes.map endpoint :=
      List.map_congr_left fun lane _ => packet_endpoint r lane
    rw [List.map_map, own]
    exact (by decide : lanes.Nodup).map endpoint_injective
  case numbered => exact Admitted.batch_distinct (by omega)
  case covered =>
    intro packet' member
    obtain ⟨lane, same⟩ := staged.packets_cases member
    rw [same]
    exact staged.separate.covers (staged.holds lane) (moves lane)
  case targets =>
    rw [staged.outs]
    exact List.pairwise_singleton _ _
  case sources =>
    intro packet' member direction k a found
    obtain ⟨lane, same⟩ := staged.packets_cases member
    rw [same] at direction found ⊢
    have input : lane ≠ .sum := by
      rintro rfl
      cases direction
    change (packet r lane).addresses[k]? = some a at found
    rw [staged.addresses, List.getElem?_map, Option.map_eq_some_iff] at found
    obtain ⟨k', known, rfl⟩ := found
    obtain ⟨below, here⟩ := List.getElem?_eq_some_iff.mp known
    rw [List.length_range] at below
    rw [List.getElem_range] at here
    subst here
    refine ⟨fun out among back => ?_, ?_⟩
    · rw [staged.outs, List.mem_singleton] at among
      subst among
      change _ ∈ (packet r .sum).addresses at back
      rw [staged.addresses, List.mem_map] at back
      obtain ⟨k', member', clash⟩ := back
      have inside := imageByte_lt below
      have inside' := imageByte_lt (List.mem_range.mp member')
      have low : packet.image lane ≤ 1 := by cases lane <;> first | decide | exact absurd rfl input
      have high : packet.image .sum = 2 := rfl
      omega
    · change s.plant.memory.get (HostMap.place ⟨[r]⟩ _) = _
      rw [staged.place lane below]
      cases lane with
      | left => rfl
      | right => rfl
      | sum => exact absurd rfl input

theorem total : (traffic s l r ts).total = stagingBytes := by
  have lengths := staged.packets.map fun t => t.addresses.length
  rw [Traffic.total_batch rfl, lengths.sum_nat]
  simp only [lanes, List.map_cons, List.map_nil, staged.length]
  rfl

theorem ready : s.Ready (traffic s l r ts) ts l := by
  have three : ts.length = 3 := staged.packets.length_eq
  have routes : s.plant.fabric.tiles.routes = outline.routes :=
    congrArg TileArray.Outline.routes staged.tiles
  refine ⟨staged.hosts.symm, rfl, rfl, three ▸ staged.room, fun t member => ?_, fun t member => ?_,
    fun t member => ?_, staged.indices, ?_⟩
  · obtain ⟨lane, rfl⟩ := staged.lane_of member
    exact staged.holds lane
  · obtain ⟨lane, rfl⟩ := staged.lane_of member
    rw [packet_endpoint, TileArray.hasRoute, TileArray.routeOf, routes]
    cases lane <;> rfl
  · obtain ⟨lane, rfl⟩ := staged.lane_of member
    exact moves lane
  · rw [staged.total]
    exact staged.bytes

theorem delivered_get {k : Nat} (below : k < 8192) :
    (traffic s l r ts).delivered.get (r.origin + (16384 + imageByte k)) =
      sumBytes (stream r s.plant.memory .left) (stream r s.plant.memory .right) k := by
  have large : 24576 ≤ r.size := staged.large
  have among : (packet r .sum).received ∈ (traffic s l r ts).outs := by
    rw [staged.outs]
    exact List.mem_cons_self
  refine staged.sound.delivered_single rfl staged.backed among (fun k => 16384 + imageByte k)
    (staged.addresses .sum) (fun i j same => ?_) (fun k known => ?_) below
  · have twice := congrArg imageByte (Nat.add_left_cancel same)
    rwa [imageByte_twice, imageByte_twice] at twice
  · have small := imageByte_lt known
    omega

theorem delivered_staging {s' : Site} {I : Counts → Nat → TileArray → Prop}
    (delivered : s.Delivered s' (traffic s l r ts) I) {i : Nat} (below : i < r.size) :
    s'.plant.memory.get (r.origin + i) = (traffic s l r ts).delivered.get (r.origin + i) :=
  staged.apart.kept List.mem_cons_self delivered.memory below

theorem summed {s' : Site} {I : Counts → Nat → TileArray → Prop}
    (delivered : s.Delivered s' (traffic s l r ts) I) : Summed r s s' := by
  have count : (traffic s l r ts).packets.length = 3 :=
    (Admitted.batch_length _ _).trans staged.packets.length_eq
  have large : 24576 ≤ r.size := staged.large
  have bytes := delivered.bytes
  rw [staged.total] at bytes
  refine ⟨count ▸ delivered.read, count ▸ delivered.retired, delivered.faults, bytes,
    fun i below => ?_, fun i below outside => ?_⟩
  · have few : i < 2048 := below
    have known : imageByte (4 * i) < 8192 := imageByte_lt (by omega)
    have aligned := (imageByte_word i (by decide : 0 < 4)).2
    have bytes : wordAt (stream r s'.plant.memory .sum) (imageByte (4 * i) / 4) =
        wordAt (sumBytes (stream r s.plant.memory .left) (stream r s.plant.memory .right))
          (imageByte (4 * i) / 4) := by
      refine wordAt_congr fun b small => ?_
      have inside : 4 * (imageByte (4 * i) / 4) + b < 8192 := by omega
      have place := imageByte_lt inside
      exact (staged.delivered_staging delivered (by change 16384 + _ < _; omega)).trans
        (staged.delivered_get inside)
    have first := word_stream r s.plant.memory .left i
    have second := word_stream r s.plant.memory .right i
    have third := word_stream r s'.plant.memory .sum i
    rw [bytes, sumBytes, wordAt_byteOf, first, second] at third
    simpa only [packet.image, Nat.zero_mul, Nat.zero_add, Nat.one_mul] using third.symm
  · rw [staged.delivered_staging delivered below]
    refine Traffic.settle_get_other _ fun out among taken => ?_
    rw [staged.outs, List.mem_singleton] at among
    subst among
    change _ ∈ (packet r .sum).addresses.map (HostMap.place ⟨[r]⟩) at taken
    rw [staged.addresses, List.map_map, List.mem_map] at taken
    obtain ⟨k, member, same⟩ := taken
    rw [Function.comp_apply, staged.place .sum (List.mem_range.mp member)] at same
    have inside := imageByte_lt (List.mem_range.mp member)
    have image : packet.image .sum = 2 := rfl
    have edges : i < 16384 ∨ 24576 ≤ i := outside
    omega

theorem sums (policy : WaitPolicy) (seen : Observation Ring) : ∃ packets ring,
    Ring.issue policy seen (ts.map .transfer) s.ring = .ok packets ring ∧
      packets.map (·.index.toNat) = List.range' s.ring.read 3 ∧
      ∀ orders : Nat → Order, (∀ pass fifos, (orders pass fifos).Perm fifos) →
        (∃ passes, (((s.withRing ring).polls orders passes).plant.poll (orders passes)).1 = false) ∧
        ∀ passes, (∃ earlier < passes,
            (((s.withRing ring).polls orders earlier).plant.poll (orders earlier)).1 = false) →
          Summed r s ((s.withRing ring).polls orders passes) := by
  have begun := adder_begun staged.tiles (stream r s.plant.memory .left)
    (stream r s.plant.memory .right)
  obtain ⟨packets, ring, issued, numbers, delivers⟩ :=
    staged.ready.delivers (adder_sound.conducts staged.conveys) staged.sound staged.idle
      ⟨_, begun⟩ policy seen
  rw [staged.packets.length_eq] at numbers
  refine ⟨packets, ring, issued, numbers, fun orders visits => ⟨?_, fun passes quiet =>
    staged.summed (delivers orders visits passes (.inr quiet))⟩⟩
  -- Behind the last byte and the last addition, a pass finds nothing to do.
  obtain ⟨many, large⟩ : ∃ many, (traffic s l r ts).total + 16 < many := ⟨_, Nat.lt_succ_self _⟩
  have delivered := delivers orders visits many (.inl large)
  obtain ⟨moved, steps, ⟨k, turns⟩, ended⟩ := delivered.tiles
  exact ⟨many, (delivered.quiet (orders many) (visits many)).trans
    (adder_sound.still turns (staged.conveys.ended ended))⟩

end Staged

theorem staged {d : Device} {start s : Site} {admitted : List Admitted} {touches : Touches}
    {fresh tiles : TileArray} {ts : List Transfer} (founded : d.Founded start)
    (room : 4 ≤ d.config.queueCapacity.toNat) (large : stagingBytes ≤ d.config.stagingSize.toNat)
    (life : Site.Life start admitted touches s) (published : s.ring.published = s.ring.read)
    (reserved : s.ring.write = s.ring.read)
    (narrow : Admitted.bytes admitted + stagingBytes < UInt64.size)
    (indices : s.ring.read + s.queue.capacity < UInt64.size)
    (configured : MatrixAdd.tiles = .ok fresh) (rewritten : tiles.outline = fresh.outline)
    (packets : ts.Perm (lanes.map (packet d.staging))) :
    ∃ l, Staged (s.retile tiles) l d.staging ts := by
  obtain ⟨queue, fabric, memory⟩ := start
  obtain rfl : fabric = Fabric.started queue ⟨[d.staging]⟩ {} 0 := founded.fabric
  have begun := Plant.started_lives founded.shows founded.apart fun r member => by
    rw [List.mem_singleton.mp member]
    exact Nat.le_of_lt founded.addressable
  have few : Admitted.bytes ([] ++ admitted) < UInt64.size := by
    rw [List.nil_append]
    omega
  have premises := life.premises ⟨_, _, _, begun⟩ few
  obtain ⟨first, moved, l, lives⟩ := life.lives ⟨_, _, _, begun⟩ few
  simp only [List.nil_append] at lives
  simp only [Plant.premises, Prod.mk.injEq] at premises
  obtain ⟨consumer, hosts, size⟩ := premises
  replace hosts : s.plant.fabric.hosts = ⟨[d.staging]⟩ := hosts
  have port : s.queue.port = queue.port := lives.serves.port.symm.trans consumer
  have capacity : s.queue.capacity = d.config.queueCapacity.toNat :=
    (congrArg Consumer.capacity port).trans founded.capacity
  have idle := Site.idle_of_serves lives.serves published reserved
  have read : s.ring.read = l.retired := lives.serves.shows.readIndex
  have moves : s.status.bytesMoved + stagingBytes < UInt64.size := by
    have counted : s.status.bytesMoved = touches.length := lives.journaled.bytes
    have budget := lives.journaled.budget
    omega
  have apart := lives.serves.apart
  rw [hosts] at apart
  have drawn : fresh.outline = outline := by
    have known := tiles_outline
    rw [configured] at known
    exact Option.some_inj.mp known
  exact ⟨l, {
    idle := idle.retile tiles, hosts, apart, addressable := founded.addressable
    backed := Nat.le_trans founded.backed (Nat.le_of_eq size.symm)
    large := founded.staging.2 ▸ large, tiles := rewritten.trans drawn, packets
    room := by change 3 ≤ s.queue.capacity; omega
    indices := read ▸ indices, bytes := moves }⟩

-- On every device with a fabric of its own, whatever has happened to it, whatever the words of its
-- staging buffer and of its tiles: the third image becomes the sum of the others.
theorem adds {c : Config} {selection : Selection} {m m' : Machine} {d : Device}
    (numbered : m.Numbered) (opened : Device.ofConfig c selection m = .ok d m')
    (software : d.backend = .software) (room : 4 ≤ c.queueCapacity.toNat)
    (large : stagingBytes ≤ c.stagingSize.toNat) :
    ∃ start, d.site? m' = some start ∧
      ∀ (admitted : List Admitted) (touches : Touches) (s : Site) (fresh tiles : TileArray)
        (ts : List Transfer), Site.Life start admitted touches s →
      s.ring.published = s.ring.read → s.ring.write = s.ring.read →
      Admitted.bytes admitted + stagingBytes < UInt64.size →
      s.ring.read + s.queue.capacity < UInt64.size →
      MatrixAdd.tiles = .ok fresh → tiles.outline = fresh.outline →
      ts.Perm (lanes.map (packet d.staging)) →
      ∀ (policy : WaitPolicy) (seen : Observation Ring), ∃ packets ring,
        Ring.issue policy seen (ts.map .transfer) (s.retile tiles).ring = .ok packets ring ∧
        packets.map (·.index.toNat) = List.range' s.ring.read 3 ∧
        ∀ orders : Nat → Order, (∀ pass fifos, (orders pass fifos).Perm fifos) →
          (∃ passes, ((((s.retile tiles).withRing ring).polls orders passes).plant.poll
            (orders passes)).1 = false) ∧
          ∀ passes, (∃ earlier < passes, ((((s.retile tiles).withRing ring).polls orders
              earlier).plant.poll (orders earlier)).1 = false) →
            Summed d.staging s (((s.retile tiles).withRing ring).polls orders passes) := by
  obtain ⟨start, found, founded, config⟩ := Device.ofConfig_founded numbered opened software
  refine ⟨start, found, ?_⟩
  intro admitted touches s fresh tiles ts life published reserved narrow indices configured rewritten
    packets policy seen
  obtain ⟨l, staged⟩ := staged founded (config ▸ room) (config ▸ large) life published reserved
    narrow indices configured rewritten packets
  obtain ⟨refs, ring, issued, numbers, sums⟩ := staged.sums policy seen
  refine ⟨refs, ring, issued, numbers, fun orders visits => ?_⟩
  obtain ⟨ends, summed⟩ := sums orders visits
  refine ⟨ends, fun passes quiet => ?_⟩
  -- The tiles are no part of what is compared.
  obtain ⟨read, retired, faults, bytes, sum, others⟩ := summed passes quiet
  exact ⟨read, retired, faults, bytes, sum, others⟩

theorem tiles_built : ∃ fresh, MatrixAdd.tiles = .ok fresh := by
  have known := tiles_outline
  cases built : MatrixAdd.tiles with
  | ok fresh => exact ⟨fresh, rfl⟩
  | error fault => rw [built] at known; cases known

-- The default configuration, with the packet of the sum in front.
theorem adds_sample : ∃ d m' start fresh packets ring, Machine.Numbered {} ∧
    Device.ofConfig {} .software {} = .ok d m' ∧ d.backend = .software ∧
    4 ≤ ({} : Config).queueCapacity.toNat ∧ stagingBytes ≤ ({} : Config).stagingSize.toNat ∧
    d.site? m' = some start ∧ start.ring.published = start.ring.read ∧
    start.ring.write = start.ring.read ∧ start.ring.read + start.queue.capacity < UInt64.size ∧
    MatrixAdd.tiles = .ok fresh ∧
    Ring.issue .indefinite (fun _ => []) ([packet d.staging .sum, packet d.staging .left,
      packet d.staging .right].map .transfer) (start.retile fresh).ring = .ok packets ring ∧
    ∃ passes, Summed d.staging start
      (((start.retile fresh).withRing ring).polls (fun _ => List.reverse) passes) := by
  obtain ⟨d, m', opened, software⟩ := Device.ofConfig_ok (m := {}) (c := {}) (by decide) rfl rfl (by decide)
  have numbered : Machine.Numbered {} := nofun
  have room : 4 ≤ ({} : Config).queueCapacity.toNat := by decide
  have large : stagingBytes ≤ ({} : Config).stagingSize.toNat := by decide
  obtain ⟨start, found, sums⟩ := adds numbered opened software room large
  obtain ⟨start', found', founded, config⟩ := Device.ofConfig_founded numbered opened software
  cases found.symm.trans found'
  have read : start.ring.read = 0 := founded.shows.readIndex
  have published : start.ring.published = 0 := founded.shows.doorbell
  have write : start.ring.write = 0 := congrArg UInt64.toNat founded.shows.writeIndex
  have capacity : start.queue.capacity = 64 := founded.capacity.trans (by rw [config]; rfl)
  have indices : start.ring.read + start.queue.capacity < UInt64.size := by
    rw [read, capacity]
    decide
  obtain ⟨fresh, built⟩ := tiles_built
  have rotated : [packet d.staging .sum, packet d.staging .left, packet d.staging .right].Perm
      (lanes.map (packet d.staging)) :=
    (List.Perm.swap _ _ _).trans ((List.Perm.swap _ _ _).cons _)
  obtain ⟨packets, ring, issued, _, reaches⟩ := sums [] [] start fresh fresh _ .start
    (published.trans read.symm) (write.trans read.symm) (by decide) indices built rfl rotated
    .indefinite fun _ => []
  obtain ⟨⟨passes, quiet⟩, summed⟩ := reaches (fun _ => List.reverse) fun _ _ => List.reverse_perm _
  exact ⟨d, m', start, fresh, packets, ring, numbered, opened, software, room, large, found,
    published.trans read.symm, write.trans read.symm, indices, built, issued, passes + 1,
    summed _ ⟨passes, Nat.lt_succ_self _, quiet⟩⟩

end MatrixAdd

end FabricQueue
