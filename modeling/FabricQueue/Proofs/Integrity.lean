import FabricQueue.Proofs.Barrier
import FabricQueue.Proofs.Replays

set_option autoImplicit false

namespace FabricQueue

section Groups

variable {α : Type} {key : α → UInt64}

theorem split_least {entries : List α} (sorted : entries.Pairwise (key · ≤ key ·)) {least : UInt64}
    (above : ∀ entry ∈ entries, least ≤ key entry) :
    entries = entries.filter (key · = least) ++ entries.filter (key · ≠ least) := by
  induction entries with
  | nil => rfl
  | cons entry entries ih =>
    have parts := List.pairwise_cons.mp sorted
    by_cases same : key entry = least
    · have rest := ih parts.2 fun other member => above other (List.mem_cons_of_mem _ member)
      simpa [same] using rest
    · -- Everything behind the entry is above the least key too.
      have larger : ∀ other ∈ entry :: entries, key other ≠ least := by
        intro other member equal
        have low := above entry List.mem_cons_self
        rcases List.mem_cons.mp member with rfl | behind
        · exact same equal
        · exact same (UInt64.le_antisymm (equal ▸ parts.1 other behind) low)
      rw [List.filter_eq_nil_iff.mpr (by simpa using larger), List.nil_append,
        List.filter_eq_self.mpr (by simpa using larger)]

theorem grouped {entries : List α} (sorted : entries.Pairwise (key · ≤ key ·)) {keys : List UInt64}
    (rising : keys.Pairwise (· < ·)) (known : ∀ entry ∈ entries, key entry ∈ keys) :
    entries = keys.flatMap fun k => entries.filter (key · = k) := by
  induction keys generalizing entries with
  | nil =>
    rw [List.flatMap_nil]
    exact List.eq_nil_iff_forall_not_mem.mpr fun entry member => nomatch known entry member
  | cons least keys ih =>
    have parts := List.pairwise_cons.mp rising
    have above (entry : α) (member : entry ∈ entries) : least ≤ key entry := by
      rcases List.mem_cons.mp (known entry member) with same | later
      · exact UInt64.le_of_eq same.symm
      · exact UInt64.le_of_lt (parts.1 _ later)
    have rest := @ih (entries.filter (key · ≠ least)) (sorted.filter _) parts.2 (by
      intro entry member
      obtain ⟨among, other⟩ := List.mem_filter.mp member
      exact (List.mem_cons.mp (known entry among)).resolve_left (by simpa using other))
    have same : (keys.flatMap fun k => (entries.filter (key · ≠ least)).filter (key · = k)) =
        keys.flatMap fun k => entries.filter (key · = k) := by
      apply List.flatMap_congr
      intro k member
      rw [List.filter_filter]
      apply List.filter_congr
      intro entry _
      have other : k ≠ least := (UInt64.ne_of_lt (parts.1 k member)).symm
      by_cases here : key entry = k <;> simp [here, other]
    rw [List.flatMap_cons, ← same, ← rest]
    exact split_least sorted above

end Groups

namespace Plant

-- What happens to a fabric: others change its memory and its tiles, or it makes a pass. With it
-- come the packets it admits and the bytes it moves.
inductive Shift (p : Plant) : List Admitted → Touches → Plant → Prop where
  | disturb (memory : Memory) (tiles : TileArray) :
      Shift p [] [] ⟨{ p.fabric with tiles }, memory⟩
  | poll (order : Order) (visits : ∀ fifos, (order fifos).Perm fifos) :
      Shift p (if p.fabric.running then passArrivals p else [])
        (if p.fabric.running then passTouches order p else []) (p.poll order).2

inductive Course (start : Plant) : List Admitted → Touches → Plant → Prop where
  | start : Course start [] [] start
  | next {admitted arrived : List Admitted} {touches new : Touches} {p p' : Plant} :
      Course start admitted touches p → Shift p arrived new p' →
        Course start (admitted ++ arrived) (touches ++ new) p'

section Course

variable {start p : Plant} {admitted : List Admitted} {touches : Touches}

theorem Course.disturb (course : Course start admitted touches p) (memory : Memory)
    (tiles : TileArray) : Course start admitted touches ⟨{ p.fabric with tiles }, memory⟩ := by
  have further := course.next (.disturb memory tiles)
  rwa [List.append_nil, List.append_nil] at further

theorem Course.pass (course : Course start admitted touches p) (running : p.fabric.running = true)
    (order : Order) (visits : ∀ fifos, (order fifos).Perm fifos) :
    Course start (admitted ++ passArrivals p) (touches ++ passTouches order p)
      (p.poll order).2 := by
  have further := course.next (.poll order visits)
  rwa [if_pos running, if_pos running] at further

end Course

-- The bytes that each endpoint moved are those of its packets in turn.
structure Intact (p : Plant) (admitted : List Admitted) (touches : Touches) : Prop where
  numbered : admitted.Pairwise (·.1 < ·.1)
  sized : ∀ packet ∈ admitted, packet.2.addresses.length = packet.2.totalBytes
  streams : ∀ e, (touches.via e).map (·.address) =
    (admitted.filter (·.2.endpoint = e)).flatMap fun packet =>
      packet.2.addresses.take (touches.of packet.1).length
  -- A packet that did not move all its bytes faulted, or nothing behind it moved.
  cut : ∀ packet ∈ admitted, (touches.of packet.1).length < packet.2.totalBytes →
    packet.1 ∈ p.fabric.status.faults.map (·.index) ∨
      ∀ other ∈ admitted, other.2.endpoint = packet.2.endpoint → packet.1 < other.1 →
        touches.of other.1 = []
  bytes : p.fabric.status.bytesMoved = touches.length

namespace Journaled

variable {p : Plant} {admitted : List Admitted} {touches : Touches}

theorem moved_first (journaled : p.Journaled admitted touches) {packet : Admitted}
    (member : packet ∈ admitted) : touches.of packet.1 <+: packet.2.addresses := by
  by_cases under : packet.1 ∈ p.fabric.jobs.map (·.index)
  · obtain ⟨job, among, same⟩ := List.mem_map.mp under
    obtain ⟨_, t, fetched, _, owed⟩ := journaled.jobs job among
    obtain rfl := journaled.one_packet member fetched same.symm
    simp only [owed]
    exact List.prefix_append _ _
  · rcases journaled.ended packet member under with all | late
    · exact all ▸ List.prefix_rfl
    · exact late.2

theorem moved_via (journaled : p.Journaled admitted touches) {packet : Admitted}
    (member : packet ∈ admitted) :
    ((touches.via packet.2.endpoint).filter (·.index = packet.1)).map (·.address) =
      touches.of packet.1 := by
  rw [Touches.via, List.filter_filter, Touches.of]
  congr 1
  apply List.filter_congr
  intro touch among
  obtain ⟨t, fetched, placed⟩ := journaled.own touch among
  by_cases same : touch.index = packet.1
  · obtain rfl := journaled.one_packet member fetched same.symm
    simp [placed]
  · simp [same]

theorem intact (journaled : p.Journaled admitted touches) : p.Intact admitted touches := by
  refine ⟨journaled.numbered, journaled.sized, ?streams, ?cut, journaled.bytes⟩
  case streams =>
    intro e
    have mine {packet : Admitted} (member : packet ∈ admitted.filter (·.2.endpoint = e)) :
        packet ∈ admitted ∧ packet.2.endpoint = e := by
      simpa using List.mem_filter.mp member
    have rising : ((admitted.filter (·.2.endpoint = e)).map (·.1)).Pairwise (· < ·) :=
      List.pairwise_map.mpr (journaled.numbered.filter _)
    have known : ∀ touch ∈ touches.via e,
        touch.index ∈ (admitted.filter (·.2.endpoint = e)).map (·.1) := by
      intro touch member
      obtain ⟨among, placed⟩ := List.mem_filter.mp member
      obtain ⟨t, fetched, same⟩ := journaled.own touch among
      refine List.mem_map.mpr ⟨_, List.mem_filter.mpr ⟨fetched, ?_⟩, rfl⟩
      simpa [same] using placed
    rw [grouped (journaled.rising e) rising known, List.flatMap_map, List.map_flatMap]
    apply List.flatMap_congr
    intro packet member
    obtain ⟨among, rfl⟩ := mine member
    rw [journaled.moved_via among]
    exact List.prefix_iff_eq_take.mp (journaled.moved_first among)
  case cut =>
    intro packet member short
    by_cases under : packet.1 ∈ p.fabric.jobs.map (·.index)
    · right
      intro other among placed behind
      apply Touches.of_other
      intro touch moved index
      obtain ⟨job, present, same⟩ := List.mem_map.mp under
      obtain ⟨_, t, fetched, endpoint, _⟩ := journaled.jobs job present
      obtain rfl := journaled.one_packet member fetched same.symm
      obtain ⟨t', fetched', here⟩ := journaled.own touch moved
      obtain rfl := journaled.one_packet among fetched' index.symm
      have first := journaled.before touch moved job present
        (endpoint.symm.trans (placed.symm.trans here))
      exact UInt64.lt_irrefl _ (UInt64.lt_of_lt_of_le behind first)
    · rcases journaled.ended packet member under with all | late
      · rw [all, journaled.sized packet member] at short
        exact absurd short (Nat.lt_irrefl _)
      · exact .inl late.1

theorem start {f : Fabric} {m : Memory} (addressable : f.Addressable)
    (fresh : f.fifos = [] ∧ f.status = {}) : Journaled ⟨f, m⟩ [] [] := by
  obtain ⟨fifos, status⟩ := fresh
  have jobs : f.jobs = [] := by rw [Fabric.jobs, fifos]; rfl
  constructor
  case addressable => exact addressable
  case endpoints => rw [fifos]; exact List.nodup_nil
  case queued => rw [fifos]; exact fun _ member => absurd member List.not_mem_nil
  case distinct => rw [jobs]; exact List.nodup_nil
  case numbered => exact .nil
  case fetched => exact fun _ member => absurd member List.not_mem_nil
  case sized => exact fun _ member => absurd member List.not_mem_nil
  case jobs => rw [jobs]; exact fun _ member => absurd member List.not_mem_nil
  case ended => exact fun _ member => absurd member List.not_mem_nil
  case alive => rw [jobs]; exact fun _ member => absurd member List.not_mem_nil
  case faulted => rw [status]; exact fun _ member => absurd member List.not_mem_nil
  case own => exact fun _ member => absurd member List.not_mem_nil
  case rising => exact fun _ => .nil
  case before => exact fun _ member => absurd member List.not_mem_nil
  case bytes => rw [status]; rfl
  case budget => rw [jobs]; exact Nat.le_refl _

end Journaled

theorem Shift.journaled {p p' : Plant} {admitted arrived : List Admitted} {touches new : Touches}
    (shift : Shift p arrived new p') (journaled : p.Journaled admitted touches)
    (narrow : Admitted.bytes (admitted ++ arrived) < UInt64.size) :
    p'.Journaled (admitted ++ arrived) (touches ++ new) ∧
      p.fabric.status.faults ⊆ p'.fabric.status.faults ∧
      ∀ touch ∈ new, touch.index ∉ p.fabric.status.faults.map (·.index) := by
  cases shift with
  | disturb memory tiles =>
    rw [List.append_nil, List.append_nil]
    exact ⟨journaled.of_alike ⟨rfl, rfl, rfl, rfl, rfl⟩, List.Subset.refl _, nofun⟩
  | poll order visits =>
    by_cases running : p.fabric.running = true
    · simp only [running, if_true] at narrow ⊢
      obtain ⟨kept, faults, alive⟩ := pass_journaled visits journaled narrow
      unfold Plant.poll
      rw [if_pos running]
      cases ran : pass order p with
      | ok moved p₁ =>
        rw [ran] at kept faults
        exact ⟨kept, faults, alive⟩
      | error failure p₁ =>
        rw [ran] at kept faults
        exact ⟨kept.of_alike ⟨rfl, rfl, rfl, rfl, rfl⟩, faults, alive⟩
    · simp only [running, Bool.false_eq_true, if_false, List.append_nil]
      unfold Plant.poll
      rw [if_neg running]
      exact ⟨journaled, List.Subset.refl _, nofun⟩

theorem Course.journaled {start p : Plant} {admitted arrived : List Admitted}
    {touches new : Touches} (course : Course start arrived new p)
    (journaled : start.Journaled admitted touches)
    (narrow : Admitted.bytes (admitted ++ arrived) < UInt64.size) :
    p.Journaled (admitted ++ arrived) (touches ++ new) ∧
      start.fabric.status.faults ⊆ p.fabric.status.faults ∧
      ∀ touch ∈ new, touch.index ∉ start.fabric.status.faults.map (·.index) := by
  induction course with
  | start =>
    rw [List.append_nil, List.append_nil]
    exact ⟨journaled, List.Subset.refl _, nofun⟩
  | next _ shift ih =>
    rw [← List.append_assoc] at narrow ⊢
    rw [← List.append_assoc]
    obtain ⟨before, grown, alive⟩ := ih (by rw [Admitted.bytes_append] at narrow; omega)
    obtain ⟨kept, more, alive'⟩ := shift.journaled before narrow
    refine ⟨kept, List.Subset.trans grown more, fun touch member late => ?_⟩
    rcases List.mem_append.mp member with old | new
    · exact alive touch old late
    · exact alive' touch new (List.map_subset _ grown late)

theorem spawn_fresh {r : Region} {hosts : HostMap} {tiles : TileArray} {m m' : Memory}
    {f : Fabric} (spawned : Fabric.spawn r hosts tiles m = .ok f m') :
    f.hosts = hosts ∧ f.fifos = [] ∧ f.status = {} := by
  unfold Fabric.spawn at spawned
  obtain ⟨consumer, _, _, spawned⟩ := bind_cases spawned
  obtain ⟨next, _, _, spawned⟩ := bind_cases spawned
  cases spawned
  exact ⟨rfl, rfl, rfl⟩

theorem spawned_journaled {r : Region} {hosts : HostMap} {tiles : TileArray} {m m' : Memory}
    {f : Fabric} (spawned : Fabric.spawn r hosts tiles m = .ok f m')
    (addressable : ∀ region ∈ hosts.regions, region.base.toNat + region.size ≤ UInt64.size) :
    Journaled ⟨f, m'⟩ [] [] := by
  obtain ⟨same, fresh⟩ := spawn_fresh spawned
  exact Journaled.start (by rw [Fabric.Addressable, same]; exact addressable) fresh

-- In any state of any run, and no byte moves for a packet after its fault. What the next pass
-- enters as touched is what it reads and writes, on tiles whose routes all lead to buffers with
-- storage and a cursor inside it: the only ones the calls of a tile array can build.
theorem course_intact {r : Region} {hosts : HostMap} {tiles : TileArray} {m m' : Memory}
    {f : Fabric} {p p' : Plant} {admitted arrived : List Admitted} {touches new : Touches}
    (spawned : Fabric.spawn r hosts tiles m = .ok f m')
    (addressable : ∀ region ∈ hosts.regions, region.base.toNat + region.size ≤ UInt64.size)
    (course : Course ⟨f, m'⟩ admitted touches p) (further : Course p arrived new p')
    (narrow : Admitted.bytes (admitted ++ arrived) < UInt64.size) :
    p.Intact admitted touches ∧
      (∀ touch ∈ new, touch.index ∉ p.fabric.status.faults.map (·.index)) ∧
      ∀ order, (∀ fifos, (order fifos).Perm fifos) →
        Admitted.bytes (admitted ++ passArrivals p) < UInt64.size → p.fabric.tiles.Sound →
        p.Faithful order := by
  have journaled := (course.journaled (spawned_journaled spawned addressable)
    (by rw [Admitted.bytes_append] at narrow; rw [List.nil_append]; omega)).1
  exact ⟨journaled.intact, (further.journaled journaled narrow).2.2,
    fun order visits fits sound => journaled.faithful visits fits sound⟩

def sampleNarrow : TileArray where
  buffers := ⟨#[TileBuffer.zeroed "a" 1]⟩
  routes := [((Site.sampleTransfer .hostToDevice 0).endpoint, ⟨[0], 0⟩)]

theorem sampleNarrow_sound : sampleNarrow.Sound := by
  refine ⟨fun i b found => ?_, fun entry member => ?_⟩
  · match i, found with
    | 0, rfl => exact TileBuffer.Sound.zeroed "a" (by decide)
  · rw [List.mem_singleton.mp member]
    exact ⟨Nat.zero_lt_one, by simp [sampleNarrow, TileBuffers.size]⟩

def sampleShort : Plant :=
  ⟨{ Site.sampleStart.plant.fabric with tiles := sampleNarrow }, Site.sampleReady.plant.memory⟩

def sampleAgain : Plant :=
  ⟨{ (sampleShort.poll id).2.fabric with tiles := sampleNarrow }, (sampleShort.poll id).2.memory⟩

theorem sampleShort_eq : sampleShort = (Site.sampleHolding 2
    ((Command.transfer (Site.sampleTransfer .hostToDevice 4096)).encode.activated.toBytes ++
      { kind := 255 : Record }.activated.toBytes)
    ⟨[⟨192, 4096, 64, false⟩]⟩ sampleNarrow).plant := by
  rw [sampleShort, Site.sampleReady, Site.sampleStart_offer, Site.sampleStart,
    Site.sampleRing_spawned]
  rfl

theorem sample_moves : (sampleShort.fabric.running = true ∧
    Admitted.bytes (passArrivals sampleShort) = 8 ∧
    (passTouches id sampleShort).map (·.address) = [4096, 4097, 4098, 4099]) ∧
    sampleAgain.fabric.running = true ∧ Admitted.bytes (passArrivals sampleAgain) = 0 ∧
    (passTouches id sampleAgain).map (·.address) = [4100, 4101, 4102, 4103] := by
  rw [sampleAgain, sampleShort_eq]
  decide +kernel

theorem course_intact_sample : ∃ p p' admitted arrived touches new,
    Fabric.spawn Site.sampleRing.queue.region ⟨[⟨192, 4096, 64, false⟩]⟩
      (Site.sampleTiles .hostToDevice true) Site.sampleRing.memory =
        .ok Site.sampleStart.plant.fabric Site.sampleStart.plant.memory ∧
    (∀ region ∈ HostMap.regions ⟨[⟨192, 4096, 64, false⟩]⟩,
      region.base.toNat + region.size ≤ UInt64.size) ∧
    Course Site.sampleStart.plant admitted touches p ∧ Course p arrived new p' ∧
    Admitted.bytes (admitted ++ arrived) < UInt64.size ∧
    (p.Intact admitted touches ∧
      ∀ touch ∈ new, touch.index ∉ p.fabric.status.faults.map (·.index)) ∧ p.Faithful id ∧
    touches.map (·.address) = [4096, 4097, 4098, 4099] ∧
    new.map (·.address) = [4100, 4101, 4102, 4103] := by
  obtain ⟨⟨running, bytes, moved⟩, running', bytes', moved'⟩ := sample_moves
  have spawned : Fabric.spawn Site.sampleRing.queue.region ⟨[⟨192, 4096, 64, false⟩]⟩
      (Site.sampleTiles .hostToDevice true) Site.sampleRing.memory =
        .ok Site.sampleStart.plant.fabric Site.sampleStart.plant.memory :=
    (Site.spawned_ok Site.sampleRing_opened.tracks _ _).2
  have addressable : ∀ region ∈ HostMap.regions ⟨[⟨192, 4096, 64, false⟩]⟩,
      region.base.toNat + region.size ≤ UInt64.size := by decide
  have ready : Course Site.sampleStart.plant [] [] sampleShort :=
    Course.start.disturb Site.sampleReady.plant.memory sampleNarrow
  have course := ready.pass running id fun _ => List.Perm.refl _
  rw [List.nil_append, List.nil_append] at course
  have again : Course Site.sampleStart.plant _ _ sampleAgain :=
    course.disturb (sampleShort.poll id).2.memory sampleNarrow
  have here : Course sampleAgain [] [] sampleAgain := .start
  have further := here.pass running' id fun _ => List.Perm.refl _
  rw [List.nil_append, List.nil_append] at further
  have narrow : Admitted.bytes (passArrivals sampleShort ++ passArrivals sampleAgain) <
      UInt64.size := by
    rw [Admitted.bytes_append, bytes, bytes']
    decide
  have sound : sampleAgain.fabric.tiles.Sound := sampleNarrow_sound
  generalize Site.sampleStart.plant = start at spawned again ⊢
  obtain ⟨f, m⟩ := start
  obtain ⟨intact, alive, faithful⟩ := course_intact spawned addressable again further narrow
  exact ⟨_, _, _, _, _, _, spawned, addressable, again, further, narrow, ⟨intact, alive⟩,
    faithful id (fun _ => List.Perm.refl _) narrow sound, moved, moved'⟩

end Plant

end FabricQueue
