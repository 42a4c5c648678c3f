import FabricQueue.Proofs.Crossings
import FabricQueue.Proofs.Outlines
import FabricQueue.Proofs.Staging
import FabricQueue.Scenario.ShimDma

set_option autoImplicit false

namespace FabricQueue.ShimDma

abbrev Lane := Fin 4

def column (n : Lane) : UInt8 :=
  if n.val % 2 = 0 then 18 else 11

def channel : Direction → Lane → UInt8
  | .hostToDevice, n => if n.val < 2 then 1 else 0
  | .deviceToHost, n => if n.val < 2 then 0 else 1

def endpoint (direction : Direction) (n : Lane) : Endpoint :=
  ⟨column n, channel direction n, direction⟩

def block : Direction → Lane → Nat
  | .hostToDevice, n => n.val % 2
  | .deviceToHost, n => 2 + n.val

theorem endpoint_injective {direction direction' : Direction} {n n' : Lane}
    (same : endpoint direction n = endpoint direction' n') : direction = direction' ∧ n = n' := by
  revert direction direction' n n'
  have all : ∀ (n n' : Lane), ∀ direction ∈ [Direction.hostToDevice, .deviceToHost],
      ∀ direction' ∈ [Direction.hostToDevice, .deviceToHost],
      endpoint direction n = endpoint direction' n' → direction = direction' ∧ n = n' := by
    decide
  intro direction direction' n n'
  exact all n n' direction (by cases direction <;> decide) direction' (by cases direction' <;> decide)

-- The tiles of the scenario.
def outline : TileArray.Outline where
  buffers := buffers.map fun name => ⟨name, blockBytes, false, 0⟩
  routes := [(.deviceToHost, 1), (.deviceToHost, 3), (.hostToDevice, 3), (.hostToDevice, 1),
    (.deviceToHost, 0), (.deviceToHost, 2), (.hostToDevice, 2), (.hostToDevice, 0)].map
      fun (entry : Direction × Lane) => (endpoint entry.1 entry.2, ⟨[entry.2.val], 0⟩)
  kernels := []

theorem outline_route (direction : Direction) (n : Lane) :
    outline.routes.lookup (endpoint direction n) = some ⟨[n.val], 0⟩ := by
  revert n
  cases direction <;> decide

theorem tiles_outline : tiles.toOption.map TileArray.outline = some outline := by
  decide +kernel

theorem filledTiles_outline : ∃ t, filledTiles = .ok t ∧ t.outline = outline := by
  obtain ⟨fresh, built, same⟩ := Option.map_eq_some_iff.mp tiles_outline
  have built : tiles = .ok fresh := by
    cases known : tiles with
    | error fault => rw [known] at built; cases built
    | ok t => rw [known] at built; exact congrArg Except.ok (Option.some.inj built)
  obtain ⟨t₁, first, same₁⟩ := TileArray.writeWords_outline same
    (show outline.buffers.findIdx? (fun shape => shape.name == "buf72") = some 0 by decide) rfl
    (by decide) (List.replicate blockWords 0xdeadbeef) (by decide)
  obtain ⟨t₂, second, same₂⟩ := TileArray.writeWords_outline same₁
    (show outline.buffers.findIdx? (fun shape => shape.name == "buf74") = some 1 by decide) rfl
    (by decide) (List.replicate blockWords 0xfeedf00d) (by decide)
  refine ⟨t₂, ?_, same₂⟩
  unfold filledTiles
  rw [built]
  exact except_bind_iff.mpr ⟨fresh, rfl, except_bind_iff.mpr ⟨t₁, first, second⟩⟩

-- The transfer at one end of a lane.
def packet (r : Region) (direction : Direction) (n : Lane) : Transfer where
  herd := 0
  column := column n
  channel := channel direction n
  direction := direction
  address := UInt64.ofNat (r.base.toNat + block direction n * blockBytes)
  run := UInt32.ofNat blockBytes

def order : List (Direction × Lane) :=
  [(.hostToDevice, 0), (.hostToDevice, 1), (.deviceToHost, 2), (.deviceToHost, 3),
    (.hostToDevice, 2), (.hostToDevice, 3), (.deviceToHost, 0), (.deviceToHost, 1)]

def transfers (r : Region) : List Transfer :=
  order.map fun entry => packet r entry.1 entry.2

theorem order_all (direction : Direction) (n : Lane) : (direction, n) ∈ order := by
  revert n
  cases direction <;> decide

theorem batch_eq {r : Region} (fits : r.base.toNat + stagingBytes < UInt64.size) :
    batch r.base = .ok ((transfers r).map .transfer) := by
  have placed (n : Nat) (below : n < 6) : addWord r.base (n * blockBytes) =
      .ok (UInt64.ofNat (r.base.toNat + n * blockBytes)) := by
    refine addWord_ok ?_
    have six : stagingBytes = 6 * blockBytes := rfl
    have some : 0 < blockBytes := by decide
    have within := Nat.mul_le_mul_right blockBytes (Nat.le_of_lt below)
    omega
  simp only [batch, copy, placed 0 (by decide), placed 1 (by decide), placed 2 (by decide),
    placed 3 (by decide), placed 4 (by decide), placed 5 (by decide)]
  rfl

theorem packet_endpoint (r : Region) (direction : Direction) (n : Lane) :
    (packet r direction n).endpoint = endpoint direction n :=
  rfl

theorem packet_sizes (r : Region) (direction : Direction) (n : Lane) :
    (packet r direction n).extent = blockBytes ∧ (packet r direction n).totalBytes = blockBytes := by
  have extent : (packet r direction n).extent = (packet ⟨0, 0, 0, false⟩ .hostToDevice 0).extent := rfl
  have bytes : (packet r direction n).totalBytes =
      (packet ⟨0, 0, 0, false⟩ .hostToDevice 0).totalBytes := rfl
  rw [extent, bytes]
  decide +kernel

structure Staged (s : Site) (l : Log) (r : Region) : Prop where
  idle : s.Idle l
  hosts : s.plant.fabric.hosts = ⟨[r]⟩
  apart : HostMap.Apart ⟨[r]⟩ s.queue
  addressable : r.base.toNat + r.size < UInt64.size
  backed : r.Backed s.plant.memory
  large : stagingBytes ≤ r.size
  tiles : s.plant.fabric.tiles.outline = outline
  room : 8 ≤ s.queue.capacity
  indices : l.retired + s.queue.capacity < UInt64.size
  bytes : s.status.bytesMoved + 8 * blockBytes < UInt64.size

-- The bytes of a lane.
def stream (r : Region) (m : Memory) (n : Lane) (k : Nat) : UInt8 :=
  m.get (r.origin + (block .hostToDevice n * blockBytes + k))

theorem word_stream (r : Region) (m : Memory) (n : Lane) (i : Nat) :
    wordAt (stream r m n) i = r.word32 m (block .hostToDevice n * blockWords + i) := by
  refine (read32_eq_wordAt fun b _ => ?_).symm
  rw [stream]
  congr 1
  simp only [blockBytes]
  ring

theorem buffer_place {n : Lane} {name : String} (named : buffers[n.val]? = some name) :
    (outline.buffers.findIdx? fun shape => shape.name == name) = some n.val := by
  match n with
  | 0 | 1 | 2 | 3 =>
    cases named
    decide

theorem outline_lane (n : Lane) :
    ∃ name, outline.buffers[n.val]? = some ⟨name, blockBytes, false, 0⟩ := by
  match n with
  | 0 | 1 | 2 | 3 => exact ⟨_, rfl⟩

def traffic (s : Site) (l : Log) (r : Region) : Traffic where
  hosts := ⟨[r]⟩
  packets := Admitted.batch l.retired (transfers r)
  initial := s.plant.memory
  value e := stream r s.plant.memory (if e.column = 18 then 0 else 1)

def crossing (r : Region) (m : Memory) : Crossing Lane where
  channel n := ⟨[n.val], fun _ => blockBytes⟩
  inlet := endpoint .hostToDevice
  outlet := endpoint .deviceToHost
  value := stream r m
  blocks _ := 1
  position name := outline.buffers.findIdx? fun shape => shape.name == name

theorem crossing_sound (r : Region) (m : Memory) : (crossing r m).Sound where
  proper _ := ⟨List.cons_ne_nil _ _, fun _ => (by decide : 0 < blockBytes)⟩
  inbound _ := rfl
  outbound _ := rfl
  inlets _ _ same := (endpoint_injective same).2
  outlets _ _ same := (endpoint_injective same).2
  apart i j different cell member other := by
    have here : cell = i.val := List.mem_singleton.mp member
    have there : cell = j.val := List.mem_singleton.mp other
    exact different (Fin.ext (here.symm.trans there))

theorem crossing_cell (r : Region) (m : Memory) (n : Lane) (block : Nat) :
    ((crossing r m).channel n).cell block = n.val := by
  change [n.val].getD (block % 1) 0 = n.val
  rw [Nat.mod_one]
  rfl

namespace Staged

variable {s : Site} {l : Log} {r : Region} (staged : Staged s l r)

include staged

theorem separate : HostMap.Separate ⟨[r]⟩ :=
  HostMap.separate_single (Nat.le_of_lt staged.addressable)

theorem fits (direction : Direction) (n : Lane) :
    block direction n * blockBytes + blockBytes ≤ r.size := by
  have large : 768 ≤ r.size := staged.large
  have few : block direction n ≤ 5 := by
    cases direction <;> simp only [block] <;> omega
  change block direction n * 128 + 128 ≤ r.size
  omega

theorem address_toNat (direction : Direction) (n : Lane) :
    (packet r direction n).address.toNat = r.base.toNat + block direction n * blockBytes := by
  have fits := staged.fits direction n
  have addressable := staged.addressable
  exact UInt64.toNat_ofNat_of_lt' (by omega)

theorem holds (direction : Direction) (n : Lane) :
    HostMap.Holds ⟨[r]⟩ (packet r direction n).address (packet r direction n).extent := by
  refine ⟨r, List.mem_cons_self, Region.contains_iff.mpr ?_⟩
  have fits := staged.fits direction n
  rw [staged.address_toNat direction n, (packet_sizes r direction n).1]
  omega

omit staged in
theorem moves (r : Region) (direction : Direction) (n : Lane) :
    (packet r direction n).totalBytes ≠ 0 := by
  rw [(packet_sizes r direction n).2]
  decide

theorem addresses (direction : Direction) (n : Lane) : (packet r direction n).addresses =
    (List.range blockBytes).map fun k => r.base.toNat + (block direction n * blockBytes + k) := by
  have within := Transfer.chunks_within (moves r direction n) (Nat.le_refl _) (Nat.le_refl _)
  have fits := staged.fits direction n
  have addressable := staged.addressable
  have limit : (packet r direction n).address.toNat + (packet r direction n).extent ≤
      UInt64.size := by
    rw [staged.address_toNat, (packet_sizes r direction n).1]
    omega
  have first : (packet r direction n).chunks.position = 0 := rfl
  have count : (packet r direction n).chunks.remaining = 1 := rfl
  have run : (packet r direction n).chunks.run.toNat = blockBytes := rfl
  have base : (packet r direction n).chunks.base.toNat = _ := staged.address_toNat direction n
  have offset : (packet r direction n).chunks.offsetAt 0 = 0 := rfl
  rw [Transfer.addresses, within.runs_at limit rfl, first, count, run, List.range'_one,
    List.flatMap_singleton, base, offset, List.range'_eq_map_range]
  simp only [Nat.add_zero, Nat.add_assoc]

theorem place (direction : Direction) (n : Lane) {k : Nat} (below : k < blockBytes) :
    HostMap.place ⟨[r]⟩ (r.base.toNat + (block direction n * blockBytes + k)) =
      r.origin + (block direction n * blockBytes + k) := by
  have fits := staged.fits direction n
  exact HostMap.place_single (Nat.le_of_lt staged.addressable) (by omega)

omit staged in
theorem packets_cases {packet' : Admitted} (member : packet' ∈ (traffic s l r).packets) :
    ∃ direction n, packet'.2 = (packet r direction n).received := by
  obtain ⟨t, known, same⟩ := Admitted.batch_cases member
  obtain ⟨⟨direction, n⟩, _, rfl⟩ := List.mem_map.mp known
  exact ⟨direction, n, same⟩

omit staged in
theorem packets_mem (direction : Direction) (n : Lane) :
    ∃ index, (index, (packet r direction n).received) ∈ (traffic s l r).packets :=
  Admitted.batch_mem l.retired (List.mem_map_of_mem (order_all direction n))

theorem length (direction : Direction) (n : Lane) :
    (packet r direction n).addresses.length = blockBytes := by
  rw [staged.addresses, List.length_map, List.length_range]

omit staged in
theorem outs : (traffic s l r).outs =
    [2, 3, 0, 1].map fun n => (packet r .deviceToHost n).received := by
  rw [Traffic.outs, traffic, Admitted.batch_transfers]
  rfl

theorem conveys : (crossing r s.plant.memory).Conveys (traffic s l r) := by
  have length (direction : Direction) (n : Lane) : (packet r direction n).received.addresses.length =
      ((crossing r s.plant.memory).channel n).start 1 := staged.length direction n
  refine ⟨fun packet' member inward => ?_, fun packet' member outward => ?_, fun n => ?_,
    fun n => ?_, fun n => ?_⟩
  · obtain ⟨direction, n, same⟩ := packets_cases member
    rw [same] at inward ⊢
    exact ⟨n, congrArg (endpoint · n) inward⟩
  · obtain ⟨direction, n, same⟩ := packets_cases member
    rw [same] at outward ⊢
    exact ⟨n, congrArg (endpoint · n) outward⟩
  · obtain ⟨index, member⟩ := packets_mem (s := s) (l := l) (r := r) .hostToDevice n
    exact ⟨_, member, rfl, length _ n⟩
  · obtain ⟨index, member⟩ := packets_mem (s := s) (l := l) (r := r) .deviceToHost n
    exact ⟨_, member, rfl, length _ n⟩
  · match n with
    | 0 | 1 | 2 | 3 => exact ⟨rfl, rfl⟩

theorem sound : (traffic s l r).Sound s.queue := by
  have indices := staged.indices
  have room := staged.room
  refine {
    separate := staged.separate, apart := staged.apart, distinct := ?distinct, numbered := ?numbered
    covered := ?covered, targets := ?targets, sources := ?sources }
  case distinct =>
    change ((Admitted.batch l.retired (transfers r)).map (·.2.endpoint)).Nodup
    rw [Admitted.batch_endpoints, transfers, List.map_map]
    refine List.Nodup.map_on (fun entry _ entry' _ same => ?_) (by decide : order.Nodup)
    exact Prod.ext_iff.mpr (endpoint_injective same)
  case numbered =>
    have eight : (transfers r).length = 8 := rfl
    exact Admitted.batch_distinct (by omega)
  case covered =>
    intro packet' member
    obtain ⟨direction, n, same⟩ := packets_cases member
    rw [same]
    exact staged.separate.covers (staged.holds direction n) (moves r direction n)
  case targets =>
    rw [outs, List.pairwise_map]
    refine (by decide : ([2, 3, 0, 1] : List Lane).Nodup).imp fun {n n'} different => ?_
    intro a here there
    change a ∈ (packet r .deviceToHost n).addresses at here
    change a ∈ (packet r .deviceToHost n').addresses at there
    rw [staged.addresses, List.mem_map] at here there
    obtain ⟨k, member, rfl⟩ := here
    obtain ⟨k', member', same⟩ := there
    have inside := List.mem_range.mp member
    have inside' := List.mem_range.mp member'
    refine different (Fin.ext ?_)
    simp only [block, blockBytes, blockWords] at same inside inside'
    omega
  case sources =>
    intro packet' member inward k a found
    obtain ⟨direction, n, same⟩ := packets_cases member
    rw [same] at inward found ⊢
    obtain rfl : direction = .hostToDevice := inward
    change (packet r .hostToDevice n).addresses[k]? = some a at found
    rw [staged.addresses, List.getElem?_map, Option.map_eq_some_iff] at found
    obtain ⟨k', known, rfl⟩ := found
    obtain ⟨below, here⟩ := List.getElem?_eq_some_iff.mp known
    rw [List.length_range] at below
    rw [List.getElem_range] at here
    subst here
    refine ⟨fun out among back => ?_, ?_⟩
    · rw [outs, List.mem_map] at among
      obtain ⟨n', _, rfl⟩ := among
      change _ ∈ (packet r .deviceToHost n').addresses at back
      rw [staged.addresses, List.mem_map] at back
      obtain ⟨k', member', clash⟩ := back
      have inside' := List.mem_range.mp member'
      simp only [block, blockBytes, blockWords] at clash below inside'
      omega
    · change s.plant.memory.get (HostMap.place ⟨[r]⟩ _) = (traffic s l r).value
        ((crossing r s.plant.memory).inlet n) k
      rw [staged.place .hostToDevice n below, (staged.conveys.value n).1]
      rfl

theorem total : (traffic s l r).total = 8 * blockBytes := by
  rw [Traffic.total_batch rfl]
  simp only [transfers, order, List.map_cons, List.map_nil, staged.length]
  rfl

theorem ready : s.Ready (traffic s l r) (transfers r) l := by
  have routes : s.plant.fabric.tiles.routes = outline.routes :=
    congrArg TileArray.Outline.routes staged.tiles
  have cases {t : Transfer} (member : t ∈ transfers r) : ∃ direction n, packet r direction n = t := by
    obtain ⟨⟨direction, n⟩, _, same⟩ := List.mem_map.mp member
    exact ⟨direction, n, same⟩
  refine ⟨staged.hosts.symm, rfl, rfl, staged.room, fun t member => ?_, fun t member => ?_,
    fun t member => ?_, staged.indices, ?_⟩
  · obtain ⟨direction, n, rfl⟩ := cases member
    exact staged.holds direction n
  · obtain ⟨direction, n, rfl⟩ := cases member
    rw [packet_endpoint, TileArray.hasRoute, TileArray.routeOf, routes, outline_route]
    rfl
  · obtain ⟨direction, n, rfl⟩ := cases member
    exact moves r direction n
  · rw [staged.total]
    exact staged.bytes

theorem begun : (crossing r s.plant.memory).Carried (fun _ => 0) s.plant.fabric.tiles := by
  have routes : s.plant.fabric.tiles.routes = outline.routes :=
    congrArg TileArray.Outline.routes staged.tiles
  have kernels : s.plant.fabric.tiles.kernels = [] :=
    congrArg TileArray.Outline.kernels staged.tiles
  refine ⟨TileArray.outline_position staged.tiles, fun n => ⟨{}, ?_⟩⟩
  refine Channel.Vacant.between (fun index => ?_) ((crossing_sound r s.plant.memory).proper n)
    _ ?_ ?_ ?_
  · rw [crossing_cell]
    obtain ⟨name, known⟩ := outline_lane n
    obtain ⟨b, found, shape⟩ := TileArray.outline_buffer staged.tiles known
    exact ⟨b, found, congrArg TileBuffer.Shape.length shape, congrArg TileBuffer.Shape.full shape,
      congrArg TileBuffer.Shape.cursor shape⟩
  · rw [TileArray.routeOf, routes]
    exact outline_route .hostToDevice n
  · rw [TileArray.routeOf, routes]
    exact outline_route .deviceToHost n
  · rw [kernels]
    intro kernel member
    cases member

def Through (s : Site) (r : Region) (moved : Counts) (steps : Nat) (t : TileArray) : Prop :=
  steps = 0 ∧ (crossing r s.plant.memory).Carried moved t

theorem delivered_word {s' : Site} (delivered : s.Delivered s' (traffic s l r) (Through s r))
    (n : Lane) {i : Nat} (below : i < blockWords) :
    r.word32 s'.plant.memory (block .deviceToHost n * blockWords + i) =
      r.word32 s.plant.memory (block .hostToDevice n * blockWords + i) := by
  have fits := staged.fits .deviceToHost n
  have among : (packet r .deviceToHost n).received ∈ (traffic s l r).outs := by
    rw [outs]
    exact List.mem_map_of_mem ((by decide : ∀ n : Lane, n ∈ [2, 3, 0, 1]) n)
  have bytes (k : Nat) (small : k < blockBytes) :
      s'.plant.memory.get (r.origin + (block .deviceToHost n * blockBytes + k)) =
        s.plant.memory.get (r.origin + (block .hostToDevice n * blockBytes + k)) := by
    have stored := staged.sound.delivered_single rfl staged.backed among
      (fun k => block .deviceToHost n * blockBytes + k) (staged.addresses .deviceToHost n)
      (fun i j same => Nat.add_left_cancel same) (fun k below => by omega) small
    exact (staged.apart.kept List.mem_cons_self delivered.memory (by omega)).trans
      (stored.trans (congrFun (staged.conveys.value n).2 k))
  rw [← word_stream]
  refine read32_eq_wordAt fun b small => ?_
  have here : r.origin + 4 * (block .deviceToHost n * blockWords + i) + b =
      r.origin + (block .deviceToHost n * blockBytes + (4 * i + b)) := by
    simp only [blockBytes]
    ring
  rw [here]
  exact bytes (4 * i + b) (by simp only [blockBytes]; omega)

theorem tile_word {s' : Site} (delivered : s.Delivered s' (traffic s l r) (Through s r))
    (n : Lane) {name : String} (named : buffers[n.val]? = some name) {i : Nat}
    (below : i < blockWords) :
    s'.plant.fabric.tiles.readBuffer name i =
      .ok (r.word32 s.plant.memory (block .hostToDevice n * blockWords + i)) := by
  obtain ⟨moved, steps, ⟨_, carried⟩, ended⟩ := delivered.tiles
  obtain ⟨b, found, size, begins⟩ := @Crossing.Sound.content _ _ _ _ (crossing_sound r
    s.plant.memory) _ staged.conveys carried ended n 0 Nat.one_pos fun later above under => by
      change later < 1 at under
      omega
  rw [crossing_cell] at found
  have size : b.byteLength = 4 * blockWords := size
  have begins : b.Begins (stream r s.plant.memory n) (4 * blockWords * 0) (4 * blockWords) := begins
  rw [TileArray.readBuffer_ok ((carried.named name).trans (buffer_place named)) found
    (by omega) (by rw [size]; decide), begins.word_eq below, Nat.mul_zero, Nat.zero_add, word_stream]

end Staged

def scale (n : Lane) : Nat :=
  1 + n.val % 2

theorem image_bytes : 4 * image.length = stagingBytes := by
  simp [image, multiples, stagingBytes, blockBytes, blockWords]

theorem image_word (n : Lane) {i : Nat} (below : i < blockWords) :
    image[block .hostToDevice n * blockWords + i]? = some (scaled (scale n) i) := by
  have all : ∀ (n : Lane) (i : Fin blockWords),
      image[block .hostToDevice n * blockWords + i.val]? = some (scaled (scale n) i.val) := by
    decide +kernel
  exact all n ⟨i, below⟩

theorem tileChecks_ok {t : TileArray} (words : ∀ (n : Lane) (name : String),
    buffers[n.val]? = some name → ∀ i < blockWords, t.readBuffer name i = .ok (scaled (scale n) i)) :
    ∃ checks, tileChecks t = .ok checks ∧ Checked checks (4 * blockWords) := by
  have each : ∀ entry ∈ buffers.zip [1, 2, 1, 2], ∃ checks, (do
      let words ← (List.range blockWords).mapM (t.readBuffer entry.1)
      return Check.compare entry.1 (scaled entry.2) words : Except Failure (List Check)) =
        .ok checks ∧ Checked checks blockWords := by
    intro entry member
    obtain ⟨n, name, named, rfl⟩ : ∃ (n : Lane) (name : String), buffers[n.val]? = some name ∧
        (name, scale n) = entry := by
      simp only [buffers, List.zip_cons_cons, List.zip_nil_left, List.mem_cons, List.not_mem_nil,
        or_false] at member
      rcases member with rfl | rfl | rfl | rfl
      exacts [⟨0, _, rfl, rfl⟩, ⟨1, _, rfl, rfl⟩, ⟨2, _, rfl, rfl⟩, ⟨3, _, rfl, rfl⟩]
    have read := except_mapM (List.range blockWords) fun i member =>
      words n name named i (List.mem_range.mp member)
    exact ⟨_, except_bind_iff.mpr ⟨_, read, rfl⟩, compare_checked _ _ _⟩
  obtain ⟨lists, found, checked⟩ := Checked.mapM _ each
  exact ⟨_, except_bind_iff.mpr ⟨_, found, rfl⟩, checked⟩

variable {d : Device} {m : Machine} {s : Site} {retired bytes : Nat}

theorem commands_eq (fits : d.staging.base.toNat + stagingBytes < UInt64.size) :
    (do batch (← d.stagingAddress 0) : Except Failure (List Command)) =
      .ok ((transfers d.staging).map .transfer) := by
  have start : d.stagingAddress 0 = .ok d.staging.base := by
    have address := addWord_ok (a := d.staging.base) (n := 0) (by omega)
    rwa [Nat.add_zero, UInt64.ofNat_toNat] at address
  rw [start]
  exact batch_eq fits

theorem stagingChecks_ok (rests : d.Rests retired bytes s) (stands : d.Stands m s)
    (large : stagingBytes ≤ d.staging.size) (n : Lane)
    (words : ∀ i < blockWords, d.staging.word32 s.plant.memory
      (block .deviceToHost n * blockWords + i) = scaled (scale n) i) :
    ∃ checks m' s', stagingChecks d (block .deviceToHost n) (scale n) m = .ok checks m' ∧
      d.Stands m' s' ∧ s.Idles s' ∧ Checked checks blockWords := by
  have few : block .deviceToHost n ≤ 5 := by
    simp only [block]
    omega
  have inside : 4 * (block .deviceToHost n * blockWords + blockWords) ≤ d.staging.size := by
    simp only [stagingBytes, blockBytes, blockWords] at large ⊢
    omega
  obtain ⟨m', s', read, idles, stands'⟩ := stands.readStaging rests.still inside
  rw [List.map_congr_left fun i member => words i (List.mem_range.mp member)] at read
  exact ⟨_, m', s', bind_ok read, stands', idles, compare_checked _ _ _⟩

theorem Staged.carries {l : Log} (staged : Staged s l d.staging) (stands : d.Stands m s)
    (waits : s.plant.fabric.tiles.runKernels = (false, s.plant.fabric.tiles))
    {policy : WaitPolicy} {seen : Observation Machine}
    (patient : Machine.Patient policy (8 * blockBytes + 1) (seen policy)) :
    ∃ packets m' s', d.runBatch ((transfers d.staging).map .transfer) policy seen m =
        .ok packets m' ∧ d.Stands m' s' ∧
      s.Brought (traffic s l d.staging) (Through s d.staging) l s' := by
  have eight : (traffic s l d.staging).packets.length = 7 + 1 := rfl
  obtain ⟨packets, m₁, packet, newest, count, here, last, enqueued, waits⟩ :=
    stands.runBatch (I := Through s d.staging) staged.idle staged.ready
      ((crossing_sound _ _).conducts staged.conveys staged.sound) staged.sound ⟨rfl, staged.begun⟩
      (Site.decides_last eight) waits (by rw [staged.total]; exact Nat.lt_succ_self _) seen
  obtain rfl : packet = newest := by
    rw [List.getLast?_eq_getElem?, count] at last
    exact Option.some.inj (here.symm.trans last)
  obtain ⟨m', s', waited, stands', brought⟩ := waits policy patient
  refine ⟨packets, m', s', ?_, stands', brought⟩
  unfold Device.runBatch
  refine (bind_ok enqueued).trans ?_
  simp only [last]
  exact bind_ok waited

theorem run_ok (rests : d.Rests retired bytes s) (stands : d.Stands m s)
    (large : stagingBytes ≤ d.staging.size) (room : 8 ≤ d.config.queueCapacity.toNat)
    (indices : retired + 1 + d.config.queueCapacity.toNat < UInt64.size)
    (narrow : bytes + 8 * blockBytes < UInt64.size) {policy : WaitPolicy}
    {seen : Observation Machine}
    (patient : Machine.Patient policy (8 * blockBytes + 1) (seen policy)) :
    ∃ report m' s', run d policy seen m = .ok report m' ∧ d.Stands m' s' ∧
      d.Rests (retired + 9) (bytes + 8 * blockBytes) s' ∧ Checked report.checks 256 := by
  obtain ⟨tiles, filled, outlined⟩ := filledTiles_outline
  have addressable := rests.addressable
  have inside : 4 * image.length ≤ d.staging.size := image_bytes ▸ large
  have quiet := TileArray.outline_waits outlined (by decide)
  obtain ⟨m₁, m₂, s₂, configured, wrote, stands₂, prepared₂⟩ := rests.prepared stands quiet inside
  obtain ⟨m₃, s₃, declared, stands₃, prepared⟩ := prepared₂.declares stands₂ (c := .herdInit herd)
    trivial inside (by omega) quiet (patient.fewer (by decide))
  obtain ⟨l, idle, retired'⟩ := prepared.idle
  have staged : Staged s₃ l d.staging := {
    idle, hosts := prepared.hosts, apart := prepared.apart, addressable := prepared.addressable
    backed := prepared.backed, large, tiles := by rw [prepared.tiles]; exact outlined
    room := prepared.capacity ▸ room, indices := by rw [retired', prepared.capacity]; exact indices
    bytes := prepared.bytes ▸ narrow }
  obtain ⟨packets, m₅, s₅, batched, stands₅, brought⟩ :=
    staged.carries stands₃ (prepared.tiles.symm ▸ quiet) patient
  have conducts := (crossing_sound d.staging s₃.plant.memory).conducts staged.conveys staged.sound
  have finished := prepared.toRests.brought retired' brought
  have source (n : Lane) (i : Nat) (below : i < blockWords) :
      d.staging.word32 s₃.plant.memory (block .hostToDevice n * blockWords + i) =
        scaled (scale n) i := by
    obtain ⟨within, known⟩ := List.getElem?_eq_some_iff.mp (image_word n below)
    rw [prepared.words _ within, known]
  have target {s' : Site} (idles : s₅.Idles s') (n : Lane) (i : Nat) (below : i < blockWords) :=
    (staged.delivered_word (brought.idles conducts idles).toDelivered n below).trans
      (source n i below)
  have checks (s' : Site) (idles : s₅.Idles s') : ∃ checks,
      tileChecks s'.plant.fabric.tiles = .ok checks ∧ Checked checks (4 * blockWords) :=
    tileChecks_ok fun n name named i below =>
      (staged.tile_word (brought.idles conducts idles).toDelivered n named below).trans
        (congrArg Except.ok (source n i below))
  obtain ⟨inTiles, m₆, s₆, found, good, idles₆, stands₆⟩ := stands₅.checkTiles finished.still checks
  obtain ⟨block2, m₇, s₇, read₂, stands₇, idles₇, good₂⟩ :=
    stagingChecks_ok (finished.idles idles₆) stands₆ large 0 (target idles₆ 0)
  replace idles₇ := idles₆.trans idles₇
  obtain ⟨block3, m₈, s₈, read₃, stands₈, idles₈, good₃⟩ :=
    stagingChecks_ok (finished.idles idles₇) stands₇ large 1 (target idles₇ 1)
  replace idles₈ := idles₇.trans idles₈
  obtain ⟨block4, m₉, s₉, read₄, stands₉, idles₉, good₄⟩ :=
    stagingChecks_ok (finished.idles idles₈) stands₈ large 2 (target idles₈ 2)
  replace idles₉ := idles₈.trans idles₉
  obtain ⟨block5, m', s', read₅, stands', idles', good₅⟩ :=
    stagingChecks_ok (finished.idles idles₉) stands₉ large 3 (target idles₉ 3)
  refine ⟨⟨"shim-dma-all-channels", inTiles ++ block2 ++ block3 ++ block4 ++ block5⟩, m', s', ?_,
    stands', staged.total ▸ finished.idles (idles₉.trans idles'),
    (((good.append good₂).append good₃).append good₄).append good₅⟩
  unfold run
  refine (bind_ok (Device.ensureStaging_ok large m)).trans ?_
  rw [filled]
  refine (bind_ok configured).trans ((bind_ok wrote).trans ((bind_ok declared).trans ?_))
  rw [commands_eq (by omega)]
  refine (bind_ok rfl).trans ((bind_ok batched).trans ?_)
  exact (bind_ok found).trans ((bind_ok read₂).trans ((bind_ok read₃).trans
    ((bind_ok read₄).trans (bind_ok read₅))))

end FabricQueue.ShimDma
