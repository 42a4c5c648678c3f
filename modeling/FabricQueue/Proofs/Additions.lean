import FabricQueue.Proofs.MatrixSum
import FabricQueue.Proofs.Staging

set_option autoImplicit false

namespace FabricQueue.MatrixAdd

theorem filledTiles_outline : ∃ t, filledTiles = .ok t ∧ t.outline = outline := by
  obtain ⟨fresh, built⟩ := tiles_built
  have drawn : fresh.outline = outline := by
    have known := tiles_outline
    rw [built] at known
    exact Option.some_inj.mp known
  have written (name : String) (i : Fin 6) (place : (outline.buffers.findIdx? fun shape =>
      shape.name == name) = some i.val) (start : Nat) {t : TileArray} (same : t.outline = outline) :
      ∃ t', t.writeWords name (pattern start) = .ok t' ∧ t'.outline = outline := by
    obtain ⟨shape, known, length⟩ : ∃ shape, outline.buffers[i.val]? = some shape ∧
        shape.length = 4 * tileWords := by
      match i with
      | 0 | 1 | 2 | 3 | 4 | 5 => exact ⟨_, rfl, rfl⟩
    refine TileArray.writeWords_outline same place known (by rw [length]; decide) _ ?_
    rw [length, pattern, List.length_map, List.length_range]
  obtain ⟨t₁, first, same₁⟩ := written "ping_a" 0 (by decide) 0xabba0000 drawn
  obtain ⟨t₂, second, same₂⟩ := written "pong_a" 1 (by decide) 0xdeeded00 same₁
  obtain ⟨t₃, third, same₃⟩ := written "ping_b" 2 (by decide) 0xcafe0000 same₂
  obtain ⟨t₄, fourth, same₄⟩ := written "pong_b" 3 (by decide) 0xfabcab00 same₃
  obtain ⟨t₅, fifth, same₅⟩ := written "ping_c" 4 (by decide) 0x12345670 same₄
  obtain ⟨t₆, sixth, same₆⟩ := written "pong_c" 5 (by decide) 0x76543210 same₅
  refine ⟨t₆, ?_, same₆⟩
  unfold filledTiles
  rw [built]
  exact except_bind_iff.mpr ⟨fresh, rfl, except_bind_iff.mpr ⟨t₁, first,
    except_bind_iff.mpr ⟨t₂, second, except_bind_iff.mpr ⟨t₃, third,
      except_bind_iff.mpr ⟨t₄, fourth, except_bind_iff.mpr ⟨t₅, fifth, sixth⟩⟩⟩⟩⟩⟩

section Tiles

variable {t : TileArray} {left right : Nat → UInt8} {moved : Counts} {steps : Nat}
  {k : Lane → Marks} (turns : adder.Turns left right moved steps t k)
  (ended : ∀ lane, moved (adder.endpoint lane) = 4 * adder.words * 16)

include turns ended

theorem tile_word (lane : Lane) {block i : Nat} (low : 14 ≤ block) (high : block < 16)
    (below : i < tileWords) : t.readBuffer ((adder.kernel block).current.on lane) i =
      .ok (wordAt (Adder.values left right lane) (tileWords * block + i)) := by
  obtain ⟨b, found, size, begins⟩ := adder_sound.content turns ended lane high
      fun later above under => by
    obtain rfl : block = 14 := by omega
    obtain rfl : later = 15 := by omega
    cases lane <;> decide
  have size : b.byteLength = 4 * tileWords := size
  rw [TileArray.readBuffer_ok (turns.named lane block) found (by omega) (by rw [size]; decide),
    begins.word_eq below]
  rfl

theorem setCheck_ok {block i : Nat} (low : 14 ≤ block) (high : block < 16) (below : i < tileWords) :
    ∃ c, setCheck t i (adder.kernel block).current = .ok c ∧ c.isMatch = true := by
  have first := tile_word turns ended .left low high below
  have second := tile_word turns ended .right low high below
  have third := tile_word turns ended .sum low high below
  refine ⟨_, except_bind_iff.mpr ⟨_, first, except_bind_iff.mpr ⟨_, second,
    except_bind_iff.mpr ⟨_, third, rfl⟩⟩⟩, ?_⟩
  rw [Check.isMatch, beq_iff_eq]
  exact (wordAt_byteOf (fun i => wordAt left i + wordAt right i) _).symm

theorem tileChecks_ok : ∃ checks, tileChecks t = .ok checks ∧ Checked checks 256 := by
  have each : ∀ i ∈ List.range tileWords, ∃ checks,
      [ping, pong].mapM (setCheck t i) = .ok checks ∧ Checked checks 2 := by
    intro i member
    have below := List.mem_range.mp member
    obtain ⟨c, first, same⟩ := setCheck_ok turns ended (Nat.le_refl 14) (by decide) below
    obtain ⟨c', second, same'⟩ := setCheck_ok turns ended (by decide) (Nat.lt_succ_self 15) below
    replace first : setCheck t i ping = .ok c := first
    replace second : setCheck t i pong = .ok c' := second
    refine ⟨[c, c'], ?_, fun other among => ?_, rfl⟩
    · rw [List.mapM_cons, List.mapM_cons, List.mapM_nil, first, second]
      rfl
    rcases List.mem_pair.mp among with rfl | rfl
    · exact same
    · exact same'
  obtain ⟨lists, found, checked⟩ := Checked.mapM _ each
  rw [List.length_range] at checked
  exact ⟨_, except_bind_iff.mpr ⟨_, found, rfl⟩, checked⟩

end Tiles

def queued : List Lane :=
  [.sum, .left, .right]

def Added (s : Site) (r : Region) (moved : Counts) (steps : Nat) (t : TileArray) : Prop :=
  ∃ k, adder.Turns (stream r s.plant.memory .left) (stream r s.plant.memory .right) moved steps t k

theorem Staged.decides {s : Site} {l : Log} {r : Region}
    (staged : Staged s l r (queued.map (packet r))) :
    Site.Decides (traffic s l r (queued.map (packet r))) (Added s r) 0 := by
  refine ⟨Nat.succ_pos 2, ?_⟩
  rintro moved steps t ⟨k, turns⟩ within ended packet' member
  have front : (UInt64.ofNat l.retired, (packet r .sum).received) ∈
      (traffic s l r (queued.map (packet r))).packets.take (0 + 1) := List.mem_cons_self
  have through := ended _ front
  rw [Traffic.Ended, staged.conveys.length _ (List.mem_of_mem_take front)] at through
  have bound (lane : Lane) : moved (adder.endpoint lane) ≤ 4 * adder.words * 16 := by
    obtain ⟨other, among, here⟩ := staged.conveys.every lane
    have bound := within other among
    rwa [here, staged.conveys.length other among] at bound
  obtain ⟨lane, here⟩ := staged.conveys.only packet' member
  rw [Traffic.Ended, here, staged.conveys.length packet' member]
  exact adder_sound.sum_last turns bound through lane

theorem image_bytes : 4 * image.length = stagingBytes := by
  simp only [image, stagingBytes, List.length_append, List.length_map, List.length_range,
    List.length_replicate]
  ring

theorem image_word {i : Nat} (below : i < imageWords) :
    image[i]? = some (UInt32.ofNat (i + 1)) ∧ image[imageWords + i]? = some 1 := by
  have parts (count : Nat) (below : i < count) (rest : List UInt32) :
      ((List.range count).map (fun i => UInt32.ofNat (i + 1)) ++ List.replicate count 1 ++ rest)[i]? =
          some (UInt32.ofNat (i + 1)) ∧
        ((List.range count).map (fun i => UInt32.ofNat (i + 1)) ++ List.replicate count 1 ++
          rest)[count + i]? = some 1 := by
    rw [List.append_assoc]
    constructor
    · rw [List.getElem?_append_left (by simpa using below)]
      simp [below]
    · rw [List.getElem?_append_right (by simp), List.length_map, List.length_range,
        Nat.add_sub_cancel_left, List.getElem?_append_left (by simpa using below),
        List.getElem?_replicate_of_lt below]
  exact parts imageWords below _

theorem sum_word {r : Region} {s s' : Site} (summed : Summed r s s')
    (words : ∀ i, (below : i < image.length) → r.word32 s.plant.memory i = image[i]) {i : Nat}
    (below : i < imageWords) :
    r.word32 s'.plant.memory (2 * imageWords + i) = UInt32.ofNat (i + 2) := by
  obtain ⟨one, two⟩ := image_word below
  obtain ⟨within, known⟩ := List.getElem?_eq_some_iff.mp one
  obtain ⟨within', known'⟩ := List.getElem?_eq_some_iff.mp two
  have sum : r.word32 s'.plant.memory (2 * imageWords + i) =
      r.word32 s.plant.memory i + r.word32 s.plant.memory (imageWords + i) := summed.sum i below
  rw [sum, words i within, words _ within', known, known']
  exact (UInt32.ofNat_add (i + 1) 1).symm

variable {d : Device} {m : Machine} {s : Site} {retired bytes : Nat}

theorem submitImage_ok (lane : Lane) {seen : Observation Machine} {ref : PacketRef} {m' : Machine}
    (fits : d.staging.base.toNat + stagingBytes < UInt64.size)
    (enqueued : d.handle.enqueue (.transfer (packet d.staging lane)) .indefinite seen m =
      .ok ref m') :
    submitImage d (endpoint lane).channel (endpoint lane).direction (packet.image lane) seen m =
      .ok ref m' := by
  have address : d.stagingAddress (packet.image lane * imageWords * 4) =
      .ok (UInt64.ofNat (d.staging.base.toNat + packet.image lane * imageWords * 4)) := by
    refine addWord_ok ?_
    have few : packet.image lane ≤ 2 := by cases lane <;> decide
    change _ + 24576 < _ at fits
    change _ + packet.image lane * 2048 * 4 < _
    omega
  unfold submitImage
  rw [address]
  exact (bind_ok rfl).trans enqueued

theorem submitImages_ok {seen : Observation Machine} {packets : List PacketRef} {m' : Machine}
    (fits : d.staging.base.toNat + stagingBytes < UInt64.size)
    (enqueued : d.handle.enqueueAll .indefinite seen
      ((queued.map (packet d.staging)).map .transfer) m = .ok packets m') :
    ∃ sum left right m₁ m₂, packets = [sum, left, right] ∧
      submitImage d 0 .deviceToHost 2 seen m = .ok sum m₁ ∧
      submitImage d 0 .hostToDevice 0 seen m₁ = .ok left m₂ ∧
      submitImage d 1 .hostToDevice 1 seen m₂ = .ok right m' := by
  obtain ⟨sum, m₁, _, first, rest, rfl⟩ := QueueHandle.enqueueAll_cases enqueued
  obtain ⟨left, m₂, _, second, rest', rfl⟩ := QueueHandle.enqueueAll_cases rest
  obtain ⟨right, m₃, _, third, none, rfl⟩ := QueueHandle.enqueueAll_cases rest'
  cases none
  exact ⟨sum, left, right, m₁, m₂, rfl, submitImage_ok .sum fits first,
    submitImage_ok .left fits second, submitImage_ok .right fits third⟩

theorem run_ok (rests : d.Rests retired bytes s) (stands : d.Stands m s)
    (large : stagingBytes ≤ d.staging.size) (room : 3 ≤ d.config.queueCapacity.toNat)
    (indices : retired + 2 + d.config.queueCapacity.toNat < UInt64.size)
    (narrow : bytes + stagingBytes < UInt64.size) {policy : WaitPolicy}
    {seen : Observation Machine}
    (patient : Machine.Patient policy (stagingBytes + 16 + 1) (seen policy)) :
    ∃ report m' s', run d policy seen m = .ok report m' ∧ d.Stands m' s' ∧
      d.Rests (retired + 5) (bytes + stagingBytes) s' ∧ Checked report.checks 2304 := by
  obtain ⟨tiles, filled, outlined⟩ := filledTiles_outline
  have addressable := rests.addressable
  have inside : 4 * image.length ≤ d.staging.size := image_bytes ▸ large
  have quiet := TileArray.outline_waits outlined (by decide)
  obtain ⟨m₁, m₂, s₂, configured, wrote, stands₂, prepared₂⟩ := rests.prepared stands quiet inside
  obtain ⟨m₃, s₃, herded, stands₃, prepared₃⟩ := prepared₂.declares stands₂ (c := .herdInit herd)
    trivial inside (by omega) quiet (patient.fewer (by decide))
  obtain ⟨m₄, s₄, declared, stands₄, prepared⟩ := prepared₃.declares stands₃
    (c := .deviceInit d.config.numColumns) trivial inside (by omega) quiet
    (patient.fewer (by decide))
  obtain ⟨l, idle, retired'⟩ := prepared.idle
  have staged : Staged s₄ l d.staging (queued.map (packet d.staging)) := {
    idle, hosts := prepared.hosts, apart := prepared.apart, addressable := prepared.addressable
    backed := prepared.backed, large, tiles := by rw [prepared.tiles]; exact outlined
    packets := ((List.Perm.swap _ _ _).trans ((List.Perm.swap _ _ _).cons _)).map _
    room := prepared.capacity ▸ room, indices := by rw [retired', prepared.capacity]; exact indices
    bytes := prepared.bytes ▸ narrow }
  have conducts := adder_sound.conducts staged.conveys
  obtain ⟨packets, m₅, first, newest, _, here, last, enqueued, waits⟩ :=
    stands₄.runBatch (I := Added s₄ d.staging) idle staged.ready conducts staged.sound
      ⟨_, adder_begun staged.tiles _ _⟩ staged.decides (prepared.tiles.symm ▸ quiet)
      (by rw [staged.total]; exact Nat.lt_succ_self _) seen
  obtain ⟨m₆, s₆, waited, stands₆, brought⟩ := waits policy patient
  obtain ⟨sum, left, right, m₇, m₈, rfl, submitted, submitted', submitted''⟩ :=
    submitImages_ok (by omega) enqueued
  cases here
  cases last
  have words (i : Nat) (below : i < imageWords) :=
    sum_word (staged.summed brought.toDelivered) prepared.words below
  have finished := prepared.toRests.brought retired' brought
  have checks (s' : Site) (idles : s₆.Idles s') :
      ∃ checks, tileChecks s'.plant.fabric.tiles = .ok checks ∧ Checked checks 256 := by
    obtain ⟨moved, steps, ⟨k, turns⟩, ended⟩ := (brought.idles conducts idles).tiles
    exact tileChecks_ok turns (staged.conveys.ended ended)
  obtain ⟨inTiles, m₉, s₉, found, good, idles₉, stands₉⟩ :=
    stands₆.checkTiles finished.still checks
  have rests₉ := finished.idles idles₉
  obtain ⟨m', s', read, idles', stands'⟩ := stands₉.readStaging rests₉.still
    (show 4 * (2 * imageWords + imageWords) ≤ d.staging.size from large)
  rw [show s₉.plant.memory = s₆.plant.memory from congrArg Ring.memory idles₉.ring,
    List.map_congr_left fun i member => words i (List.mem_range.mp member)] at read
  refine ⟨⟨"matrix-add", inTiles ++ Check.compare "output image" (fun i => UInt32.ofNat (i + 2))
      ((List.range imageWords).map fun i => UInt32.ofNat (i + 2))⟩, m', s', ?_, stands',
    staged.total ▸ rests₉.idles idles',
    good.append (compare_checked _ (fun i => UInt32.ofNat (i + 2)) imageWords)⟩
  unfold run
  refine (bind_ok (Device.ensureStaging_ok large m)).trans ?_
  rw [filled]
  refine (bind_ok configured).trans ((bind_ok wrote).trans ((bind_ok herded).trans
    ((bind_ok declared).trans ?_)))
  refine (bind_ok submitted).trans ((bind_ok submitted').trans ((bind_ok submitted'').trans ?_))
  exact (bind_ok waited).trans ((bind_ok found).trans (bind_ok read))

end FabricQueue.MatrixAdd
