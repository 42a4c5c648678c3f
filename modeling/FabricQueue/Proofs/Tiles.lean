import FabricQueue.Proofs.Exchanges

set_option autoImplicit false

namespace FabricQueue

namespace TileBuffer

structure Sound (b : TileBuffer) : Prop where
  nonempty : 0 < b.byteLength
  cursor : b.cursor < b.byteLength

variable {b : TileBuffer}

theorem Sound.room (sound : b.Sound) : 0 < b.room := by
  have cursor := sound.cursor
  unfold TileBuffer.room
  omega

theorem byteLength_advance (b : TileBuffer) (count : Nat) (full : Bool) :
    (b.advance count full).byteLength = b.byteLength := by
  unfold advance setFull
  split <;> rfl

theorem name_advance (b : TileBuffer) (count : Nat) (full : Bool) :
    (b.advance count full).name = b.name := by
  unfold advance setFull
  split <;> rfl

theorem name_fill (b : TileBuffer) (bytes : List UInt8) : (b.fill bytes).name = b.name :=
  name_advance _ _ _

theorem name_drain (b : TileBuffer) (count : Nat) : (b.drain count).name = b.name :=
  name_advance _ _ _

theorem ends_iff {count : Nat} : b.ends count = true ↔ b.cursor + count = b.byteLength := by
  rw [ends, beq_iff_eq]

theorem ends_write (b : TileBuffer) (start : Nat) (bytes : List UInt8) (count : Nat) :
    ends { b with store := b.store.write start bytes } count = b.ends count := by
  rw [ends, ends, byteLength, byteLength, ByteStore.size_write]

theorem advance_last {count : Nat} (last : b.ends count = true) (full : Bool) :
    b.advance count full = { b with full, cursor := 0 } := by
  rw [advance, if_pos last, setFull]

theorem advance_part {count : Nat} (short : b.ends count = false) (full : Bool) :
    b.advance count full = { b with cursor := b.cursor + count } := by
  rw [advance, if_neg (Bool.not_eq_true _ ▸ short)]

theorem fill_last {bytes : List UInt8} (last : b.ends bytes.length = true) :
    b.fill bytes = { b with store := b.store.write b.cursor bytes, full := true, cursor := 0 } :=
  advance_last ((b.ends_write b.cursor bytes _).trans last) true

theorem fill_part {bytes : List UInt8} (short : b.ends bytes.length = false) :
    b.fill bytes =
      { b with store := b.store.write b.cursor bytes, cursor := b.cursor + bytes.length } :=
  advance_part ((b.ends_write b.cursor bytes _).trans short) true

theorem byteLength_fill (b : TileBuffer) (bytes : List UInt8) :
    (b.fill bytes).byteLength = b.byteLength := by
  rw [fill, byteLength_advance]
  exact ByteStore.size_write _ _ _

theorem Sound.advance (sound : b.Sound) {count : Nat} (fits : count ≤ b.room) (full : Bool) :
    (b.advance count full).Sound := by
  have cursor := sound.cursor
  refine ⟨by rw [byteLength_advance]; exact sound.nonempty, ?_⟩
  rw [byteLength_advance]
  unfold TileBuffer.advance setFull
  unfold TileBuffer.room at fits
  split
  · exact sound.nonempty
  next short =>
    have other : b.cursor + count ≠ b.byteLength := by simpa [ends] using short
    simp only
    omega

theorem Sound.stored (sound : b.Sound) (start : Nat) (bytes : List UInt8) :
    TileBuffer.Sound { b with store := b.store.write start bytes } := by
  obtain ⟨nonempty, cursor⟩ := sound
  rw [byteLength, ← ByteStore.size_write b.store start bytes] at nonempty cursor
  exact ⟨nonempty, cursor⟩

theorem Sound.fill (sound : b.Sound) {bytes : List UInt8} (fits : bytes.length ≤ b.room) :
    (b.fill bytes).Sound := by
  refine (sound.stored b.cursor bytes).advance ?_ true
  exact Nat.le_trans fits (Nat.le_of_eq (by simp [TileBuffer.room, byteLength]))

theorem Sound.drain (sound : b.Sound) {count : Nat} (fits : count ≤ b.room) :
    (b.drain count).Sound :=
  sound.advance fits false

theorem Sound.setFull (sound : b.Sound) (full : Bool) : (b.setFull full).Sound :=
  ⟨sound.nonempty, sound.nonempty⟩

theorem Sound.load (sound : b.Sound) (words : List UInt32) : (b.load words).Sound :=
  sound.stored 0 _

theorem Sound.setWord (sound : b.Sound) (index : Nat) (value : UInt32) :
    (b.setWord index value).Sound :=
  sound.stored (4 * index) _

theorem Sound.zeroed (name : String) {words : Nat} (positive : words ≠ 0) :
    (TileBuffer.zeroed name words).Sound := by
  have size : (TileBuffer.zeroed name words).byteLength = 4 * words :=
    ByteStore.size_zeros (4 * words)
  exact ⟨by rw [size]; omega, by rw [size]; exact Nat.mul_pos (by decide) (by omega)⟩

end TileBuffer

namespace TileBuffers

variable {s : TileBuffers}

def Sound (s : TileBuffers) : Prop :=
  ∀ (i : Nat) (b : TileBuffer), s.items[i]? = some b → b.Sound

theorem get_modify (s : TileBuffers) (position : Nat) (change : TileBuffer → TileBuffer) (i : Nat) :
    (s.modify position change).items[i]? =
      if position = i then s.items[i]?.map change else s.items[i]? := by
  rw [modify, Array.getElem?_modify]

theorem size_modify (s : TileBuffers) (position : Nat) (change : TileBuffer → TileBuffer) :
    (s.modify position change).size = s.size := by
  simp [modify, size]

theorem Sound.modify (sound : s.Sound) (position : Nat) {change : TileBuffer → TileBuffer}
    (keeps : ∀ b, s.items[position]? = some b → (change b).Sound) :
    (s.modify position change).Sound := by
  intro i b found
  rw [get_modify] at found
  split at found
  next here =>
    subst here
    obtain ⟨old, known, rfl⟩ := Option.map_eq_some_iff.mp found
    exact keeps old known
  · exact sound i b found

theorem Sound.modifyNamed (sound : s.Sound) (name : String) {change : TileBuffer → TileBuffer}
    (keeps : ∀ b, b.Sound → (change b).Sound) : (s.modifyNamed name change).Sound := by
  unfold TileBuffers.modifyNamed
  split
  · exact sound.modify _ fun b known => keeps b (sound _ b known)
  · exact sound

theorem size_modifyNamed (s : TileBuffers) (name : String) (change : TileBuffer → TileBuffer) :
    (s.modifyNamed name change).size = s.size := by
  unfold modifyNamed
  split
  · exact size_modify _ _ _
  · rfl

end TileBuffers

namespace AddKernel

variable {k k' : AddKernel} {s s' : TileBuffers}

def added (names : AddBuffers) (total : List UInt32) (s : TileBuffers) : TileBuffers :=
  (((s.modifyNamed names.sum fun b => b.load total).modifyNamed names.left
    fun b => b.setFull false).modifyNamed names.right
      fun b => b.setFull false).modifyNamed names.sum fun b => b.setFull true

theorem step_some (stepped : k.step s = some (k', s')) : ∃ a b c,
    s.find? k.current.left = some a ∧ s.find? k.current.right = some b ∧
      s.find? k.current.sum = some c ∧ (a.full = true ∧ b.full = true ∧ c.full = false) ∧
      k' = { k with onPong := !k.onPong } ∧
      s' = added k.current (List.zipWith (· + ·) a.words b.words) s := by
  unfold step at stepped
  simp only at stepped
  split at stepped
  next a b c left right sum =>
    split_ifs at stepped with lock
    simp only [Bool.and_eq_true, Bool.not_eq_true', and_assoc] at lock
    cases stepped
    exact ⟨a, b, c, left, right, sum, lock, rfl, rfl⟩
  · cases stepped

theorem step_cases (stepped : k.step s = some (k', s')) :
    k' = { k with onPong := !k.onPong } ∧ ∃ total, s' = added k.current total s := by
  obtain ⟨_, _, _, _, _, _, _, turned, adds⟩ := step_some stepped
  exact ⟨turned, _, adds⟩

theorem step_sound (sound : s.Sound) (stepped : k.step s = some (k', s')) :
    s'.Sound ∧ s'.size = s.size := by
  obtain ⟨-, total, rfl⟩ := step_cases stepped
  simp only [added, TileBuffers.size_modifyNamed, and_true]
  refine TileBuffers.Sound.modifyNamed ?_ _ fun b sound => sound.setFull _
  refine TileBuffers.Sound.modifyNamed ?_ _ fun b sound => sound.setFull _
  refine TileBuffers.Sound.modifyNamed ?_ _ fun b sound => sound.setFull _
  exact sound.modifyNamed _ fun b sound => sound.load _

theorem stepAll_sound (kernels : List AddKernel) (sound : s.Sound) :
    (stepAll kernels s).2.2.Sound ∧ (stepAll kernels s).2.2.size = s.size := by
  induction kernels generalizing s with
  | nil => exact ⟨sound, rfl⟩
  | cons k rest ih =>
    unfold stepAll
    cases stepped : k.step s with
    | none => exact ih sound
    | some next =>
      obtain ⟨after, size⟩ := step_sound sound stepped
      obtain ⟨further, same⟩ := ih after
      exact ⟨further, same.trans size⟩

end AddKernel

-- A cycle of some of `count` buffers.
structure Route.Sound (r : Route) (count : Nat) : Prop where
  next : r.next < r.buffers.length
  known : ∀ i ∈ r.buffers, i < count

namespace Route

variable {r : Route} {count : Nat}

theorem Sound.current_lt (sound : r.Sound count) : r.current < count := by
  rw [Route.current, List.getD, List.getElem?_eq_getElem sound.next]
  exact sound.known _ (List.getElem_mem _)

theorem Sound.advance (sound : r.Sound count) : r.advance.Sound count :=
  ⟨Nat.mod_lt _ (Nat.lt_of_le_of_lt (Nat.zero_le _) sound.next), sound.known⟩

end Route

namespace TileArray

variable {t t' : TileArray} {e : Endpoint} {r : Route}

structure Sound (t : TileArray) : Prop where
  buffers : t.buffers.Sound
  routes : ∀ entry ∈ t.routes, entry.2.Sound t.buffers.size

def Barred (t : TileArray) (e : Endpoint) : Prop :=
  ∃ r b, t.routeOf e = some r ∧ t.buffers.items[r.current]? = some b ∧
    ready e.direction b = false

theorem Sound.route (sound : t.Sound) (known : t.routeOf e = some r) : r.Sound t.buffers.size := by
  obtain ⟨first, second, same, _⟩ := List.lookup_eq_some_iff.mp known
  exact sound.routes (e, r) (by rw [same]; simp)

theorem Sound.current (sound : t.Sound) (known : t.routeOf e = some r) :
    ∃ b, t.buffers.items[r.current]? = some b ∧ b.Sound := by
  have below : r.current < t.buffers.items.size := (sound.route known).current_lt
  exact ⟨_, Array.getElem?_eq_getElem below, sound.buffers _ _ (Array.getElem?_eq_getElem below)⟩

theorem Sound.setRoute (sound : t.Sound) (inside : r.Sound t.buffers.size) :
    (t.setRoute e r).Sound := by
  refine ⟨sound.buffers, fun entry member => ?_⟩
  rcases List.mem_cons.mp member with rfl | old
  · exact inside
  · exact sound.routes entry (List.mem_of_mem_filter old)

theorem Sound.pass (sound : t.Sound) (known : t.routeOf e = some r) (ended : Bool)
    {change : TileBuffer → TileBuffer}
    (keeps : ∀ b, t.buffers.items[r.current]? = some b → (change b).Sound) :
    (t.pass e r ended change).Sound := by
  have size := TileBuffers.size_modify t.buffers r.current change
  have changed : Sound { t with buffers := t.buffers.modify r.current change } :=
    ⟨sound.buffers.modify _ keeps, fun entry member => size.symm ▸ sound.routes entry member⟩
  unfold TileArray.pass
  split
  · exact changed.setRoute (size.symm ▸ (sound.route known).advance)
  · exact changed

section Exchange

variable {b : TileBuffer}

theorem capacity_barred (found : t.buffers.items[r.current]? = some b)
    (closed : ready e.direction b = false) (limit : Nat) : t.capacity e r limit = (0, false) := by
  simp only [capacity, found, closed, Bool.false_eq_true, if_false]

theorem capacity_ready (found : t.buffers.items[r.current]? = some b)
    (opened : ready e.direction b = true) (limit : Nat) :
    t.capacity e r limit = (min limit b.room, b.ends (min limit b.room)) := by
  simp only [capacity, found, opened, if_true]

variable (known : t.routeOf e = some r) (found : t.buffers.items[r.current]? = some b)

include known found

theorem fill_barred (closed : ready e.direction b = false) (bytes : List UInt8) :
    t.fill e bytes = .ok (0, t) := by
  simp only [fill, known, capacity_barred found closed]

theorem drain_barred (closed : ready e.direction b = false) (limit : Nat) :
    t.drain e limit = .ok ([], t) := by
  simp only [drain, known, capacity_barred found closed]

theorem fill_ready (opened : ready e.direction b = true) {bytes : List UInt8}
    (positive : 0 < min bytes.length b.room) :
    t.fill e bytes = .ok (min bytes.length b.room,
      t.pass e r (b.ends (min bytes.length b.room))
        fun b' => b'.fill (bytes.take (min bytes.length b.room))) := by
  simp only [fill, known, capacity_ready found opened]
  split
  next zero => rw [Prod.mk.injEq] at zero; omega
  next same => cases same; rfl

theorem drain_ready (opened : ready e.direction b = true) {limit : Nat}
    (positive : 0 < min limit b.room) :
    t.drain e limit = .ok (b.front (min limit b.room),
      t.pass e r (b.ends (min limit b.room)) fun b' => b'.drain (min limit b.room)) := by
  simp only [drain, known, capacity_ready found opened]
  split
  next zero => rw [Prod.mk.injEq] at zero; omega
  next same => cases same; simp [found]

end Exchange

-- A byte moves unless the lock is in the way.
theorem Sound.fill_cases (sound : t.Sound) (routed : t.hasRoute e = true) (bytes : List UInt8)
    (positive : 0 < bytes.length) :
    (t.Barred e ∧ t.fill e bytes = .ok (0, t)) ∨
      ∃ count t', t.fill e bytes = .ok (count, t') ∧ 0 < count ∧ t'.Sound := by
  obtain ⟨r, known⟩ := Option.isSome_iff_exists.mp routed
  obtain ⟨b, found, inside⟩ := sound.current known
  cases lock : ready e.direction b with
  | false => exact .inl ⟨⟨r, b, known, found, lock⟩, fill_barred known found lock bytes⟩
  | true =>
    have more : 0 < min bytes.length b.room := Nat.lt_min.mpr ⟨positive, inside.room⟩
    refine .inr ⟨_, _, fill_ready known found lock more, more, ?_⟩
    refine sound.pass known _ fun other same => ?_
    cases found.symm.trans same
    exact inside.fill (by rw [List.length_take]; omega)

theorem Sound.drain_cases (sound : t.Sound) (routed : t.hasRoute e = true) {limit : Nat}
    (positive : 0 < limit) :
    (t.Barred e ∧ t.drain e limit = .ok ([], t)) ∨
      ∃ bytes t', t.drain e limit = .ok (bytes, t') ∧ 0 < bytes.length ∧ t'.Sound := by
  obtain ⟨r, known⟩ := Option.isSome_iff_exists.mp routed
  obtain ⟨b, found, inside⟩ := sound.current known
  cases lock : ready e.direction b with
  | false => exact .inl ⟨⟨r, b, known, found, lock⟩, drain_barred known found lock limit⟩
  | true =>
    have more : 0 < min limit b.room := Nat.lt_min.mpr ⟨positive, inside.room⟩
    refine .inr ⟨_, _, drain_ready known found lock more, ?_, ?_⟩
    · simpa [TileBuffer.front] using more
    · refine sound.pass known _ fun other same => ?_
      cases found.symm.trans same
      exact inside.drain (Nat.min_le_right _ _)

theorem Sound.runKernels (sound : t.Sound) : t.runKernels.2.Sound := by
  obtain ⟨buffers, size⟩ := AddKernel.stepAll_sound t.kernels sound.buffers
  exact ⟨buffers, fun entry member => size.symm ▸ sound.routes entry member⟩

section Building

theorem empty_sound : Sound {} :=
  ⟨fun _ _ found => by simp at found, nofun⟩

theorem Sound.addBuffer (sound : t.Sound) {name : String} {words : Nat}
    (added : t.addBuffer name words = .ok t') : t'.Sound := by
  unfold TileArray.addBuffer at added
  split_ifs at added with none
  cases added
  refine ⟨fun i b found => ?_, fun entry member => ?_⟩
  · simp only [Array.getElem?_push] at found
    split at found
    · cases found
      exact TileBuffer.Sound.zeroed name none
    · exact sound.buffers i b found
  · have old := sound.routes entry member
    refine ⟨old.next, fun i among => Nat.lt_of_lt_of_le (old.known i among) ?_⟩
    simp [TileBuffers.size]

theorem position_lt {name : String} {i : Nat} (found : t.position name = .ok i) :
    i < t.buffers.size := by
  unfold position at found
  split at found
  next known =>
    cases found
    exact (Array.findIdx?_eq_some_iff_getElem.mp known).1
  · cases found

theorem positions_lt {names : List String} {buffers : List Nat}
    (found : names.mapM t.position = .ok buffers) :
    buffers.length = names.length ∧ ∀ i ∈ buffers, i < t.buffers.size := by
  induction names generalizing buffers with
  | nil => cases found; exact ⟨rfl, nofun⟩
  | cons name names ih =>
    rw [List.mapM_cons] at found
    cases first : t.position name with
    | error fault => rw [first] at found; cases found
    | ok i =>
      rw [first] at found
      cases rest : names.mapM t.position with
      | error fault => rw [rest] at found; cases found
      | ok more =>
        rw [rest] at found
        cases found
        obtain ⟨length, known⟩ := ih rest
        refine ⟨congrArg (· + 1) length, fun j member => ?_⟩
        rcases List.mem_cons.mp member with rfl | later
        · exact position_lt first
        · exact known j later

theorem Sound.routed (sound : t.Sound) {names : List String}
    (routed : t.route e names = .ok t') : t'.Sound := by
  unfold TileArray.route at routed
  cases names with
  | nil => cases routed
  | cons name names =>
    cases found : (name :: names).mapM t.position with
    | error fault => simp [found, bind, Except.bind] at routed
    | ok buffers =>
      simp [found, bind, Except.bind, pure, Except.pure] at routed
      subst routed
      obtain ⟨length, known⟩ := positions_lt found
      exact sound.setRoute ⟨by rw [length]; simp, known⟩

theorem Sound.addKernel (sound : t.Sound) (k : AddKernel) : (t.addKernel k).Sound :=
  ⟨sound.buffers, sound.routes⟩

theorem Sound.modified (sound : t.Sound) (i : Nat) {change : TileBuffer → TileBuffer}
    (keeps : ∀ b, b.Sound → (change b).Sound) :
    Sound { t with buffers := t.buffers.modify i change } :=
  ⟨sound.buffers.modify i fun b known => keeps b (sound.buffers _ b known), fun entry member =>
    (TileBuffers.size_modify t.buffers i change).symm ▸ sound.routes entry member⟩

inductive Change (t : TileArray) : TileArray → Prop where
  | clear : Change t {}
  | addBuffer {name : String} {words : Nat} {t' : TileArray}
      (added : t.addBuffer name words = .ok t') : Change t t'
  | route {e : Endpoint} {names : List String} {t' : TileArray}
      (routed : t.route e names = .ok t') : Change t t'
  | addKernel (k : AddKernel) : Change t (t.addKernel k)
  | write {name : String} {index : Nat} {value : UInt32} {t' : TileArray}
      (written : t.writeBuffer name index value = .ok t') : Change t t'
  | load {name : String} {words : List UInt32} {t' : TileArray}
      (loaded : t.load name words = some t') : Change t t'
  | setFull {name : String} {full : Bool} {t' : TileArray}
      (locked : t.setFull name full = .ok t') : Change t t'

theorem Change.sound (change : t.Change t') (sound : t.Sound) : t'.Sound := by
  cases change with
  | clear => exact empty_sound
  | addBuffer added => exact sound.addBuffer added
  | route routed => exact sound.routed routed
  | addKernel k => exact sound.addKernel k
  | @write name index value _ written =>
    unfold writeBuffer at written
    cases found : t.locate name index with
    | error failure => rw [found] at written; cases written
    | ok i =>
      rw [found] at written
      cases written
      exact sound.modified i fun b sound => sound.setWord index value
  | @load name words _ loaded =>
    obtain ⟨i, _, rfl⟩ := Option.map_eq_some_iff.mp loaded
    exact sound.modified i fun b sound => sound.load words
  | @setFull name full _ locked =>
    unfold TileArray.setFull at locked
    cases found : t.position name with
    | error fault => rw [found] at locked; cases locked
    | ok i =>
      rw [found] at locked
      cases locked
      exact sound.modified i fun b sound => sound.setFull full

end Building

end TileArray

end FabricQueue
