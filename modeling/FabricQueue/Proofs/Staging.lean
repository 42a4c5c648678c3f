import FabricQueue.Proofs.Adders
import FabricQueue.Proofs.Errands

set_option autoImplicit false

namespace FabricQueue

theorem bytesWords_read (m : ByteStore) (start count : Nat) :
    bytesWords (m.read start (4 * count)) =
      (List.range count).map fun i => m.read32 (start + 4 * i) := by
  induction count generalizing start with
  | zero => rfl
  | succ count ih =>
    have bytes : m.read start (4 * (count + 1)) = m.read start 4 ++ m.read (start + 4) (4 * count) := by
      rw [Nat.mul_add, Nat.mul_one, Nat.add_comm, ByteStore.read, List.range_add, List.map_append,
        List.map_map]
      simp only [ByteStore.read, Function.comp_def, Nat.add_assoc]
    have four : bytesWords (m.read start 4 ++ m.read (start + 4) (4 * count)) =
        m.read32 start :: bytesWords (m.read (start + 4) (4 * count)) := rfl
    rw [bytes, four, ih, List.range_succ_eq_map, List.map_cons, List.map_map]
    congr 1
    apply List.map_congr_left
    intro i _
    simp only [Function.comp_apply, Nat.succ_eq_add_one]
    congr 1
    omega

namespace Region

variable {r : Region} {m m' : Memory}

def word32 (r : Region) (m : Memory) (i : Nat) : UInt32 :=
  m.read32 (r.origin + 4 * i)

structure Confines (r : Region) (m m' : Memory) : Prop where
  size : m'.size = m.size
  outside : ∀ i, i < r.origin ∨ r.origin + r.size ≤ i → m'.get i = m.get i

theorem word32_congr {i : Nat} (inside : 4 * i + 4 ≤ r.size)
    (same : ∀ k < r.size, m'.get (r.origin + k) = m.get (r.origin + k)) :
    r.word32 m' i = r.word32 m i := by
  rw [word32, word32, ByteStore.read32, ByteStore.read32, ByteStore.read_congr]
  intro k low high
  obtain ⟨j, rfl⟩ := Nat.exists_eq_add_of_le (show r.origin ≤ k by omega)
  exact same j (by omega)

theorem readWords_ok (m : Memory) {first count : Nat} (inside : 4 * (first + count) ≤ r.size) :
    r.readWords (4 * first) count m =
      .ok ((List.range count).map fun i => r.word32 m (first + i)) m := by
  have place : r.locate (4 * first) (4 * count) 1 = .ok (r.origin + 4 * first) :=
    locate_ok (by omega) (Nat.mod_one _)
  have read : r.readBytes (4 * first) (4 * count) m =
      .ok (m.read (r.origin + 4 * first) (4 * count)) m := by
    simp only [readBytes, access, place]
  refine (map_ok read).trans ?_
  rw [bytesWords_read]
  simp only [word32, Nat.mul_add, Nat.add_assoc]

theorem writeWords_ok (backed : r.Backed m) {words : List UInt32}
    (inside : 4 * words.length ≤ r.size) :
    ∃ m', r.writeWords 0 words m = .ok () m' ∧ r.Confines m m' ∧
      ∀ i, (below : i < words.length) → r.word32 m' i = words[i] := by
  have bytes : wordBytes words =
      (List.range (words.length * 4)).map (byteOf fun i => words.getD i 0) := by
    rw [← wordBytes_map]
    congr 1
    apply List.ext_getElem
    · simp
    · intro i below _
      simp [below]
  have length := length_wordBytes words
  have place : r.locate 0 (wordBytes words).length 1 = .ok r.origin :=
    locate_ok (by omega) (Nat.mod_one _)
  unfold Region.Backed at backed
  refine ⟨m.write r.origin (wordBytes words), ?_, ⟨?_, ?_⟩, ?_⟩
  · simp only [writeWords, writeBytes, access, place]
  · rw [ByteStore.size_write]
  · intro i outside
    exact ByteStore.get_write_apart m _ _ _ (by omega)
  · intro i below
    have word : wordAt (byteOf fun i => words.getD i 0) i = words[i] := by
      rw [wordAt_byteOf, List.getD_eq_getElem _ _ below]
    rw [← word]
    refine read32_eq_wordAt fun b small => ?_
    have stored := ByteStore.get_write m r.origin (wordBytes words) (4 * i + b) (by omega) (by omega)
    rw [Nat.add_assoc, stored, List.getElem_of_eq bytes, List.getElem_map, List.getElem_range]

end Region

def Checked (checks : List Check) (count : Nat) : Prop :=
  (∀ c ∈ checks, c.isMatch = true) ∧ checks.length = count

theorem Checked.append {checks checks' : List Check} {count count' : Nat}
    (first : Checked checks count) (second : Checked checks' count') :
    Checked (checks ++ checks') (count + count') := by
  refine ⟨fun c member => ?_, by rw [List.length_append, first.2, second.2]⟩
  exact (List.mem_append.mp member).elim (first.1 c) (second.1 c)

theorem Checked.mapM {α : Type} {find : α → Except Failure (List Check)} {count : Nat}
    (list : List α) (each : ∀ a ∈ list, ∃ checks, find a = .ok checks ∧ Checked checks count) :
    ∃ lists, list.mapM find = .ok lists ∧ Checked lists.flatten (list.length * count) := by
  induction list with
  | nil => exact ⟨[], rfl, nofun, (Nat.zero_mul count).symm⟩
  | cons a rest ih =>
    obtain ⟨checks, found, good⟩ := each a List.mem_cons_self
    obtain ⟨lists, others, all⟩ := ih fun b member => each b (List.mem_cons_of_mem _ member)
    refine ⟨checks :: lists, ?_, ?_⟩
    · rw [List.mapM_cons, found, others]
      rfl
    · rw [List.length_cons, Nat.succ_mul, Nat.add_comm, List.flatten_cons]
      exact good.append all

theorem compare_checked (location : String) (expected : Nat → UInt32) (count : Nat) :
    Checked (Check.compare location expected ((List.range count).map expected)) count := by
  refine ⟨fun c member => ?_, by simp [Check.compare]⟩
  obtain ⟨⟨word, i⟩, entry, rfl⟩ := List.mem_map.mp member
  have known := List.mk_mem_zipIdx_iff_getElem?.mp entry
  rw [List.getElem?_map, Option.map_eq_some_iff] at known
  obtain ⟨j, found, rfl⟩ := known
  obtain ⟨below, here⟩ := List.getElem?_eq_some_iff.mp found
  rw [List.getElem_range] at here
  rw [here]
  exact beq_self_eq_true _

theorem Checked.mismatches {r : Report} {count : Nat} (checked : Checked r.checks count) :
    r.mismatches = [] := by
  rw [Report.mismatches, List.filter_eq_nil_iff]
  intro c member
  rw [checked.1 c member]
  decide

namespace Device

variable {d : Device} {m : Machine} {s s' : Site} {packets bytes : Nat}

-- What a device is between two runs, with so many packets retired and so many bytes moved.
structure Rests (d : Device) (packets bytes : Nat) (s : Site) : Prop where
  idle : ∃ l, s.Idle l ∧ l.retired = packets
  hosts : s.plant.fabric.hosts = ⟨[d.staging]⟩
  apart : HostMap.Apart ⟨[d.staging]⟩ s.queue
  capacity : s.queue.capacity = d.config.queueCapacity.toNat
  backed : d.staging.Backed s.plant.memory
  addressable : d.staging.base.toNat + d.staging.size < UInt64.size
  faults : s.status.faults = []
  bytes : s.status.bytesMoved = bytes

theorem Founded.rests (founded : d.Founded s) : d.Rests 0 0 s := by
  obtain ⟨queue, fabric, memory⟩ := s
  obtain rfl : fabric = Fabric.started queue ⟨[d.staging]⟩ {} 0 := founded.fabric
  exact {
    idle := ⟨{}, ⟨founded.shows, rfl, rfl, rfl, rfl, rfl, rfl, List.nodup_nil, rfl⟩, rfl⟩
    hosts := rfl, apart := founded.apart, capacity := founded.capacity, backed := founded.backed
    addressable := founded.addressable, faults := rfl, bytes := rfl }

theorem ofConfig_stands {c : Config} {selection : Selection} {m₀ : Machine}
    (alone : m₀.fabrics = []) (orderly : m₀.Orderly) (opened : ofConfig c selection m₀ = .ok d m)
    (software : d.backend = .software) :
    m₀.Numbered ∧ ∃ s, d.site? m = some s ∧ d.Stands m s ∧ d.Founded s ∧ d.config = c := by
  have numbered : m₀.Numbered := by simp [Machine.Numbered, alone]
  obtain ⟨s, found, founded, config⟩ := ofConfig_founded numbered opened software
  obtain ⟨fabric, number, only, between⟩ := ofConfig_fabrics opened software
  rw [alone, List.nil_append] at only
  have later : m.Orderly := by
    rw [Machine.Orderly, between]
    exact orderly
  exact ⟨numbered, s, found, Stands.of_site found number only later, founded, config⟩

namespace Rests

variable (rests : d.Rests packets bytes s)

include rests

theorem still : s.Still := by
  obtain ⟨l, idle, _⟩ := rests.idle
  exact idle.still

theorem counters : s.ring.read = packets ∧ s.ring.write = packets := by
  obtain ⟨l, idle, rfl⟩ := rests.idle
  exact ⟨idle.shows.readIndex, (congrArg UInt64.toNat idle.shows.writeIndex).trans idle.unreserved⟩

theorem stays {packets' bytes' : Nat} (stays : s.Stays s')
    (idle : ∃ l, s'.Idle l ∧ l.retired = packets') (moved : s'.status.bytesMoved = bytes') :
    d.Rests packets' bytes' s' where
  idle := idle
  hosts := stays.hosts.trans rests.hosts
  apart := by
    rw [HostMap.Apart, stays.region, stays.capacity]
    exact rests.apart
  capacity := stays.capacity.trans rests.capacity
  backed := by
    rw [Region.Backed, stays.size]
    exact rests.backed
  addressable := rests.addressable
  faults := stays.faults.trans rests.faults
  bytes := moved

theorem retile (tiles : TileArray) : d.Rests packets bytes (s.retile tiles) := by
  obtain ⟨l, idle, retired⟩ := rests.idle
  exact { rests with idle := ⟨l, idle.retile tiles, retired⟩ }

theorem poll {order : Order} (visits : ∀ fifos, (order fifos).Perm fifos) :
    d.Rests packets bytes (s.poll order) := by
  obtain ⟨l, idle, retired⟩ := rests.idle
  rw [(idle.drained.poll visits).1]
  exact rests.stays (s.rested_retains order).toStays ⟨l, idle.rested visits, retired⟩ rests.bytes

theorem idles (idles : s.Idles s') : d.Rests packets bytes s' := by
  obtain ⟨l, idle, retired⟩ := rests.idle
  exact rests.stays idles.retains.toStays ⟨l, idles.idle idle, retired⟩
    (idles.retains.bytes.trans rests.bytes)

theorem brought {T : Traffic} {I : Counts → Nat → TileArray → Prop} {l : Log}
    (retired : l.retired = packets) (brought : s.Brought T I l s') :
    d.Rests (packets + T.packets.length) (bytes + T.total) s' := by
  obtain ⟨l', idle, counted⟩ := brought.idle
  exact rests.stays brought.toStays ⟨l', idle, counted.trans (congrArg (· + _) retired)⟩
    (brought.bytes.trans (congrArg (· + _) rests.bytes))

theorem restage {memory : Memory} (confines : d.staging.Confines s.plant.memory memory) :
    d.Rests packets bytes ⟨s.queue, ⟨s.plant.fabric, memory⟩⟩ := by
  obtain ⟨l, idle, retired⟩ := rests.idle
  have away := rests.apart d.staging List.mem_cons_self
  refine { rests with
    idle := ⟨l, { idle with shows := ?_ }, retired⟩
    backed := rests.backed.trans (Nat.le_of_eq confines.size.symm) }
  refine idle.shows.of_bytes confines.size fun i low high => confines.outside i ?_
  omega

end Rests

structure Prepared (d : Device) (tiles : TileArray) (image : List UInt32) (packets bytes : Nat)
    (s : Site) : Prop extends Rests d packets bytes s where
  tiles : s.plant.fabric.tiles = tiles
  words : ∀ i, (below : i < image.length) → d.staging.word32 s.plant.memory i = image[i]

section Steps

variable {tiles : TileArray} {image : List UInt32}

theorem ensureStaging_ok (large : bytes ≤ d.staging.size) (m : Machine) :
    d.ensureStaging bytes m = .ok () m := by
  unfold ensureStaging
  rw [if_neg (Nat.not_lt.mpr large)]
  rfl

theorem Stands.configureTiles (stands : d.Stands m s) (still : s.Still) (tiles : TileArray) :
    ∃ m' s', d.configureTiles (.ok tiles) m = .ok () m' ∧ s.Idles s' ∧
      d.Stands m' (s'.retile tiles) := by
  obtain ⟨s', stands₁, idles, _⟩ := stands.attend_still still
  obtain ⟨number, software, _⟩ := stands.fabric
  obtain ⟨m', used, stands'⟩ :=
    stands₁.onTiles software (fun _ => Except.map (fun t => ((), t)) (.ok tiles)) rfl
  refine ⟨m', s', ?_, idles, stands'⟩
  unfold Device.configureTiles Device.onTiles
  rw [software]
  exact bind_ok used

theorem Stands.checkTiles (stands : d.Stands m s) (still : s.Still)
    {checks : TileArray → Except Failure (List Check)} {count : Nat}
    (checked : ∀ s', s.Idles s' → ∃ found, checks s'.plant.fabric.tiles = .ok found ∧
      Checked found count) : ∃ found m' s', d.checkTiles checks m = .ok found m' ∧
      Checked found count ∧ s.Idles s' ∧ d.Stands m' s' := by
  obtain ⟨s', stands₁, idles, _⟩ := stands.attend_still still
  obtain ⟨number, software, _⟩ := stands.fabric
  obtain ⟨found, known, good⟩ := checked s' idles
  obtain ⟨m', used, stands'⟩ := stands₁.onTiles software (fun t => do return (← checks t, t))
    (except_bind_iff.mpr ⟨found, known, rfl⟩)
  refine ⟨found, m', s', ?_, good, idles, stands'⟩
  unfold Device.checkTiles Device.onTiles
  rw [software]
  exact bind_ok used

theorem Stands.readStaging (stands : d.Stands m s) (still : s.Still) {first count : Nat}
    (inside : 4 * (first + count) ≤ d.staging.size) :
    ∃ m' s', d.readStaging first count m = .ok
        ((List.range count).map fun i => d.staging.word32 s.plant.memory (first + i)) m' ∧
      s.Idles s' ∧ d.Stands m' s' := by
  obtain ⟨s', stands₁, idles, _⟩ := stands.attend_still still
  obtain ⟨m', read, stands'⟩ := stands₁.onMemory (Region.readWords_ok _ inside)
  rw [show s'.plant.memory = s.plant.memory from congrArg Ring.memory idles.ring] at read
  exact ⟨m', s', read, idles, stands'⟩

theorem Rests.prepared (rests : d.Rests packets bytes s) (stands : d.Stands m s)
    (waits : tiles.runKernels = (false, tiles)) (inside : 4 * image.length ≤ d.staging.size) :
    ∃ m₁ m₂ s', d.configureTiles (.ok tiles) m = .ok () m₁ ∧ d.writeStaging 0 image m₁ = .ok () m₂ ∧
      d.Stands m₂ s' ∧ d.Prepared tiles image packets bytes s' := by
  obtain ⟨m₁, s₁, configured, idles₁, stands₁⟩ := stands.configureTiles rests.still tiles
  have rests₁ := (rests.idles idles₁).retile tiles
  obtain ⟨s₂, stands₂, idles₂, _⟩ := stands₁.attend_still rests₁.still
  have rests₂ := rests₁.idles idles₂
  obtain ⟨memory, written, confines, words⟩ := Region.writeWords_ok rests₂.backed inside
  obtain ⟨m₂, wrote, stands'⟩ := stands₂.onMemory written
  exact ⟨m₁, m₂, _, configured, wrote, stands',
    { rests₂.restage confines with tiles := idles₂.tiles_eq waits, words }⟩

theorem Prepared.declares (prepared : d.Prepared tiles image packets bytes s)
    (stands : d.Stands m s) {c : Command} (declares : c.Declares)
    (inside : 4 * image.length ≤ d.staging.size)
    (room : packets + d.config.queueCapacity.toNat < UInt64.size)
    (waits : tiles.runKernels = (false, tiles)) {policy : WaitPolicy} {seen : Observation Machine}
    (patient : Machine.Patient policy 1 (seen policy)) :
    ∃ m' s', d.runCommand c policy seen m = .ok () m' ∧ d.Stands m' s' ∧
      d.Prepared tiles image (packets + 1) bytes s' := by
  obtain ⟨l, idle, rfl⟩ := prepared.idle
  obtain ⟨m', s', l', ran, stands', idle', retired, retains, same⟩ := stands.runCommand idle declares
    (by rw [prepared.capacity]; exact room) (prepared.tiles.symm ▸ waits)
    patient
  refine ⟨m', s', ran, stands', { prepared.toRests.stays retains.toStays ⟨l', idle', retired⟩
    (retains.bytes.trans prepared.bytes) with
      tiles := same.trans prepared.tiles, words := fun i below => ?_ }⟩
  rw [← prepared.words i below]
  exact Region.word32_congr (by omega) fun k below =>
    prepared.apart.kept List.mem_cons_self retains.memory below

end Steps

end Device

end FabricQueue
