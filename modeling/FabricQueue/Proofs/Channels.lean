import FabricQueue.Proofs.Tiles

set_option autoImplicit false

namespace FabricQueue

def TileBuffer.Begins (b : TileBuffer) (value : Nat → UInt8) (start count : Nat) : Prop :=
  ∀ i < count, b.store.get i = value (start + i)

namespace TileBuffer

variable {b : TileBuffer} {value : Nat → UInt8} {start : Nat}

theorem Begins.write {bytes : List UInt8} (begins : b.Begins value start b.cursor)
    (next : bytes = (List.range' (start + b.cursor) bytes.length).map value)
    (fits : b.cursor + bytes.length ≤ b.byteLength) :
    Begins { b with store := b.store.write b.cursor bytes } value start
      (b.cursor + bytes.length) := by
  intro i below
  by_cases old : i < b.cursor
  · exact (ByteStore.get_write_apart _ _ _ _ (.inl old)).trans (begins i old)
  · obtain ⟨j, rfl⟩ : ∃ j, i = b.cursor + j := ⟨i - b.cursor, by omega⟩
    have inside : j < bytes.length := by omega
    have here : bytes[j] = value (start + b.cursor + j) := by
      rw [List.getElem_of_eq next]
      simp
    rw [ByteStore.get_write _ _ _ _ inside fits, here, Nat.add_assoc]

theorem Begins.front {whole count : Nat} (begins : b.Begins value start whole)
    (inside : b.cursor + count ≤ whole) :
    b.front count = (List.range' (start + b.cursor) count).map value := by
  rw [TileBuffer.front, ByteStore.read, List.range'_eq_map_range, List.map_map]
  apply List.map_congr_left
  intro i member
  have below := List.mem_range.mp member
  rw [begins _ (by omega), Function.comp_apply, Nat.add_assoc]

end TileBuffer

-- A cycle of buffers, and how many bytes the buffer at each position takes.
structure Channel where
  cells : List Nat
  width : Nat → Nat

structure Marks where
  filled : Nat := 0
  part : Nat := 0
  drained : Nat := 0
  taken : Nat := 0

def Marks.Live (k : Marks) (block : Nat) : Prop :=
  k.drained ≤ block ∧ block < k.filled

structure Marks.Latest (k : Marks) (cell : Nat → Nat) (block : Nat) : Prop where
  filled : block < k.filled
  last : ∀ later, block < later → later < k.filled → cell later ≠ cell block
  free : 0 < k.part → cell k.filled ≠ cell block

namespace Channel

def cell (ch : Channel) (block : Nat) : Nat :=
  ch.cells.getD (block % ch.cells.length) 0

def blockSize (ch : Channel) (block : Nat) : Nat :=
  ch.width (ch.cell block)

-- Bytes in front of a block.
def start (ch : Channel) : Nat → Nat
  | 0 => 0
  | block + 1 => ch.start block + ch.blockSize block

def written (ch : Channel) (k : Marks) : Nat :=
  ch.start k.filled + k.part

def read (ch : Channel) (k : Marks) : Nat :=
  ch.start k.drained + k.taken

def route (ch : Channel) (block : Nat) : Route :=
  ⟨ch.cells, block % ch.cells.length⟩

variable {ch : Channel}

theorem route_current (ch : Channel) (block : Nat) : (ch.route block).current = ch.cell block :=
  rfl

theorem route_advance (ch : Channel) (block : Nat) :
    (ch.route block).advance = ch.route (block + 1) := by
  simp only [route, Route.advance, Nat.mod_add_mod]

structure Proper (ch : Channel) : Prop where
  cycle : ch.cells ≠ []
  positive : ∀ block, 0 < ch.blockSize block

theorem cell_mem (cycle : ch.cells ≠ []) (block : Nat) : ch.cell block ∈ ch.cells := by
  have below := Nat.mod_lt block (List.length_pos_iff.mpr cycle)
  rw [cell, List.getD, List.getElem?_eq_getElem below]
  exact List.getElem_mem _

theorem cell_of_mem {i : Nat} (member : i ∈ ch.cells) : ∃ block, ch.cell block = i := by
  obtain ⟨block, below, found⟩ := List.getElem_of_mem member
  refine ⟨block, ?_⟩
  rw [cell, Nat.mod_eq_of_lt below, List.getD, List.getElem?_eq_getElem below, found]
  rfl

theorem start_mono (ch : Channel) {i j : Nat} (le : i ≤ j) : ch.start i ≤ ch.start j := by
  induction j, le using Nat.le_induction with
  | base => exact Nat.le_refl _
  | succ j _ ih => exact Nat.le_trans ih (Nat.le_add_right _ _)

theorem Proper.block_eq (proper : ch.Proper) {filled part last : Nat}
    (short : part < ch.blockSize filled)
    (whole : ch.start filled + part = ch.start last) : filled = last ∧ part = 0 := by
  rcases Nat.lt_trichotomy filled last with below | rfl | above
  · have next := ch.start_mono below
    rw [start] at next
    omega
  · exact ⟨rfl, by omega⟩
  · have next := ch.start_mono above
    rw [start] at next
    have some := proper.positive last
    omega

structure Holds (ch : Channel) (value : Nat → UInt8) (s : TileBuffers) (k : Marks) : Prop where
  ordered : k.drained ≤ k.filled
  part : k.part < ch.blockSize k.filled
  taken : k.taken < ch.blockSize k.drained
  begun : 0 < k.taken → k.drained < k.filled
  sized : ∀ block, ∃ b, s.items[ch.cell block]? = some b ∧ b.byteLength = ch.blockSize block
  apart : ∀ i j, k.Live i → k.Live j → ch.cell i = ch.cell j → i = j
  -- A block is begun only in a buffer without one.
  fresh : 0 < k.part → ∀ j, k.Live j → ch.cell j ≠ ch.cell k.filled
  full : ∀ j b, k.Live j → s.items[ch.cell j]? = some b → b.full = true ∧
    b.cursor = (if j = k.drained then k.taken else 0) ∧
      b.Begins value (ch.start j) (ch.blockSize j)
  empty : ∀ i b, (∀ j, k.Live j → ch.cell j ≠ ch.cell i) → s.items[ch.cell i]? = some b →
    b.full = false ∧ b.cursor = (if ch.cell i = ch.cell k.filled then k.part else 0) ∧
      b.Begins value (ch.start k.filled) b.cursor
  -- A block that is drained stays there until the next one comes into its buffer.
  kept : ∀ i b, k.Latest ch.cell i → s.items[ch.cell i]? = some b →
    b.Begins value (ch.start i) (ch.blockSize i)

namespace Holds

variable {value : Nat → UInt8} {s s' : TileBuffers} {k : Marks} {b b' : TileBuffer}

theorem congr (holds : ch.Holds value s k)
    (same : ∀ block, s'.items[ch.cell block]? = s.items[ch.cell block]?) :
    ch.Holds value s' k where
  ordered := holds.ordered
  part := holds.part
  taken := holds.taken
  begun := holds.begun
  sized block := by rw [same]; exact holds.sized block
  apart := holds.apart
  fresh := holds.fresh
  full j b live found := holds.full j b live (same j ▸ found)
  empty i b free found := holds.empty i b free (same i ▸ found)
  kept i b latest found := holds.kept i b latest (same i ▸ found)

theorem resized {turned : Nat} (holds : ch.Holds value s k) (new : s'.items[ch.cell turned]? = some b')
    (size : b'.byteLength = ch.blockSize turned)
    (others : ∀ block, ch.cell block ≠ ch.cell turned →
      s'.items[ch.cell block]? = s.items[ch.cell block]?) (block : Nat) :
    ∃ b, s'.items[ch.cell block]? = some b ∧ b.byteLength = ch.blockSize block := by
  by_cases here : ch.cell block = ch.cell turned
  · rw [here, new]
    exact ⟨b', rfl, by rw [size, blockSize, blockSize, here]⟩
  · rw [others _ here]
    exact holds.sized block

theorem untouched (holds : ch.Holds value s k) (level : k.drained = k.filled) : k.taken = 0 := by
  by_contra some
  have behind := holds.begun (Nat.pos_of_ne_zero some)
  omega

theorem fill_lock (holds : ch.Holds value s k) (found : s.items[ch.cell k.filled]? = some b) :
    (b.full = true ∧ ∃ j, k.Live j ∧ ch.cell j = ch.cell k.filled) ∨
      (∀ j, k.Live j → ch.cell j ≠ ch.cell k.filled) ∧ b.full = false ∧ b.cursor = k.part ∧
        b.Begins value (ch.start k.filled) k.part := by
  by_cases used : ∃ j, k.Live j ∧ ch.cell j = ch.cell k.filled
  · obtain ⟨j, live, same⟩ := used
    exact .inl ⟨(holds.full j b live (same ▸ found)).1, j, live, same⟩
  · have free : ∀ j, k.Live j → ch.cell j ≠ ch.cell k.filled :=
      fun j live same => used ⟨j, live, same⟩
    obtain ⟨lock, cursor, begins⟩ := holds.empty k.filled b free found
    rw [if_pos rfl] at cursor
    exact .inr ⟨free, lock, cursor, cursor ▸ begins⟩

theorem drain_lock (holds : ch.Holds value s k) (found : s.items[ch.cell k.drained]? = some b) :
    (k.drained = k.filled ∧ k.taken = 0 ∧ b.full = false) ∨
      k.drained < k.filled ∧ b.full = true ∧ b.cursor = k.taken ∧
        b.Begins value (ch.start k.drained) (ch.blockSize k.drained) := by
  have ordered := holds.ordered
  by_cases none : k.drained = k.filled
  · have free : ∀ j, k.Live j → ch.cell j ≠ ch.cell k.drained := by
      rintro j ⟨low, high⟩
      omega
    exact .inl ⟨none, holds.untouched none, (holds.empty k.drained b free found).1⟩
  · have live : k.Live k.drained := ⟨Nat.le_refl _, by omega⟩
    obtain ⟨lock, cursor, begins⟩ := holds.full k.drained b live found
    rw [if_pos rfl] at cursor
    exact .inr ⟨by omega, lock, cursor, begins⟩

section Fill

variable (holds : ch.Holds value s k)
  (free : ∀ j, k.Live j → ch.cell j ≠ ch.cell k.filled)
  (new : s'.items[ch.cell k.filled]? = some b') (size : b'.byteLength = ch.blockSize k.filled)
  (others : ∀ block, ch.cell block ≠ ch.cell k.filled →
    s'.items[ch.cell block]? = s.items[ch.cell block]?)

include holds free new size others

theorem grown {part : Nat} (some : 0 < part) (short : part < ch.blockSize k.filled)
    (lock : b'.full = false)
    (cursor : b'.cursor = part) (begins : b'.Begins value (ch.start k.filled) part) :
    ch.Holds value s' { k with part } where
  ordered := holds.ordered
  part := short
  taken := holds.taken
  begun := holds.begun
  sized := holds.resized new size others
  apart := holds.apart
  fresh _ := free
  full j b live found := by
    rw [others _ (free j live)] at found
    exact holds.full j b live found
  empty i b unused found := by
    by_cases here : ch.cell i = ch.cell k.filled
    · rw [here, new] at found
      cases found
      rw [if_pos here]
      exact ⟨lock, cursor, cursor ▸ begins⟩
    · rw [others _ here] at found
      have before := holds.empty i b unused found
      rw [if_neg here] at before ⊢
      exact before
  kept i b latest found := by
    have away := latest.free some
    rw [others _ away.symm] at found
    exact holds.kept i b ⟨latest.filled, latest.last, fun _ => away⟩ found

theorem completed (proper : ch.Proper) (lock : b'.full = true)
    (cursor : b'.cursor = 0)
    (begins : b'.Begins value (ch.start k.filled) (ch.blockSize k.filled)) :
    ch.Holds value s' { k with filled := k.filled + 1, part := 0 } := by
  have ordered := holds.ordered
  have live {j : Nat} (later : Marks.Live { k with filled := k.filled + 1, part := 0 } j) :
      k.Live j ∨ j = k.filled := by
    obtain ⟨low, high⟩ := later
    rcases Nat.lt_succ_iff_lt_or_eq.mp high with old | new
    · exact .inl ⟨low, old⟩
    · exact .inr new
  have newest : Marks.Live { k with filled := k.filled + 1, part := 0 } k.filled :=
    ⟨ordered, Nat.lt_succ_self _⟩
  refine ⟨Nat.le_succ_of_le ordered, proper.positive _, holds.taken,
    fun some => Nat.lt_succ_of_lt (holds.begun some), holds.resized new size others, ?apart,
    fun some => absurd some (Nat.lt_irrefl 0), ?full, ?empty, ?kept⟩
  case apart =>
    intro i j first second same
    rcases live first with old | rfl <;> rcases live second with old' | rfl
    · exact holds.apart i j old old' same
    · exact absurd same (free i old)
    · exact absurd same.symm (free j old')
    · rfl
  case full =>
    intro j b later found
    rcases live later with old | rfl
    · rw [others _ (free j old)] at found
      exact holds.full j b old found
    · rw [new] at found
      cases found
      refine ⟨lock, ?_, begins⟩
      rw [cursor]
      by_cases first : k.filled = k.drained
      · rw [holds.untouched first.symm, ite_self]
      · rw [if_neg first]
  case empty =>
    intro i b unused found
    have other : ch.cell i ≠ ch.cell k.filled := fun same => unused _ newest same.symm
    rw [others _ other] at found
    have unused' : ∀ j, k.Live j → ch.cell j ≠ ch.cell i := by
      rintro j ⟨low, high⟩
      exact unused j ⟨low, Nat.lt_succ_of_lt high⟩
    obtain ⟨lock', cursor', _⟩ := holds.empty i b unused' found
    rw [if_neg other] at cursor'
    refine ⟨lock', by rw [cursor', ite_self], ?_⟩
    rw [cursor']
    exact fun _ below => absurd below (Nat.not_lt_zero _)
  case kept =>
    intro i b latest found
    rcases Nat.lt_succ_iff_lt_or_eq.mp latest.filled with old | rfl
    · have away := latest.last _ old (Nat.lt_succ_self _)
      rw [others _ away.symm] at found
      exact holds.kept i b ⟨old,
        fun later above below => latest.last later above (by simp only; omega), fun _ => away⟩ found
    · rw [new] at found
      cases found
      exact begins

end Fill

section Drain

variable (holds : ch.Holds value s k) (more : k.drained < k.filled)
  (new : s'.items[ch.cell k.drained]? = some b') (size : b'.byteLength = ch.blockSize k.drained)
  (others : ∀ block, ch.cell block ≠ ch.cell k.drained →
    s'.items[ch.cell block]? = s.items[ch.cell block]?)
  (begins : b'.Begins value (ch.start k.drained) (ch.blockSize k.drained))

include holds more new others begins

theorem drained_kept {i : Nat} (latest : k.Latest ch.cell i) (found : s'.items[ch.cell i]? = some b) :
    b.Begins value (ch.start i) (ch.blockSize i) := by
  have first : k.Live k.drained := ⟨Nat.le_refl _, more⟩
  by_cases here : ch.cell i = ch.cell k.drained
  · obtain rfl : i = k.drained := by
      rcases Nat.lt_trichotomy i k.drained with below | same | above
      · exact absurd here.symm (latest.last _ below more)
      · exact same
      · exact holds.apart i _ ⟨Nat.le_of_lt above, latest.filled⟩ first here
    rw [new] at found
    cases found
    exact begins
  · rw [others _ here] at found
    exact holds.kept i b latest found

include size

theorem tapped {taken : Nat} (short : taken < ch.blockSize k.drained) (lock : b'.full = true)
    (cursor : b'.cursor = taken) : ch.Holds value s' { k with taken } := by
  have first : k.Live k.drained := ⟨Nat.le_refl _, more⟩
  refine ⟨holds.ordered, holds.part, short, fun _ => more, holds.resized new size others,
    holds.apart, holds.fresh, ?full, ?empty, fun i b latest found =>
      holds.drained_kept more new others begins ⟨latest.filled, latest.last, latest.free⟩ found⟩
  case full =>
    intro j b live found
    by_cases here : j = k.drained
    · rw [here, new] at found
      cases found
      rw [if_pos here, here]
      exact ⟨lock, cursor, begins⟩
    · rw [others _ fun same => here (holds.apart j _ live first same)] at found
      have before := holds.full j b live found
      rw [if_neg here] at before ⊢
      exact before
  case empty =>
    intro i b unused found
    rw [others _ fun same => unused _ first same.symm] at found
    exact holds.empty i b unused found

theorem emptied (proper : ch.Proper) (lock : b'.full = false)
    (cursor : b'.cursor = 0) :
    ch.Holds value s' { k with drained := k.drained + 1, taken := 0 } := by
  have first : k.Live k.drained := ⟨Nat.le_refl _, more⟩
  have live {j : Nat} (later : Marks.Live { k with drained := k.drained + 1, taken := 0 } j) :
      k.Live j ∧ j ≠ k.drained := by
    obtain ⟨low, high⟩ := later
    simp only at low high
    exact ⟨⟨by omega, high⟩, by omega⟩
  refine ⟨more, holds.part, proper.positive _, fun some => absurd some (Nat.lt_irrefl 0),
    holds.resized new size others, ?apart, ?fresh, ?full, ?empty, fun i b latest found =>
      holds.drained_kept more new others begins ⟨latest.filled, latest.last, latest.free⟩ found⟩
  case apart =>
    intro i j left right same
    exact holds.apart i j (live left).1 (live right).1 same
  case fresh =>
    intro some j later
    exact holds.fresh some j (live later).1
  case full =>
    intro j b later found
    obtain ⟨old, other⟩ := live later
    rw [others _ fun same => other (holds.apart j _ old first same)] at found
    have before := holds.full j b old found
    rw [if_neg other] at before
    simp only [ite_self]
    exact before
  case empty =>
    intro i b unused found
    by_cases here : ch.cell i = ch.cell k.drained
    · rw [here, new] at found
      cases found
      refine ⟨lock, ?_, ?_⟩
      · rw [cursor]
        by_cases same : ch.cell i = ch.cell k.filled
        · have none : k.part = 0 := by
            by_contra some
            exact holds.fresh (Nat.pos_of_ne_zero some) _ first (here.symm.trans same)
          simp only [none, ite_self]
        · rw [if_neg same]
      · rw [cursor]
        exact fun _ below => absurd below (Nat.not_lt_zero _)
    · rw [others _ here] at found
      refine holds.empty i b ?_ found
      rintro j ⟨low, high⟩ same
      by_cases oldest : j = k.drained
      · exact here (oldest ▸ same.symm)
      · exact unused j ⟨by simp only; omega, high⟩ same

end Drain

end Holds

end Channel

namespace TileBuffers

theorem position?_eq (s : TileBuffers) (name : String) :
    s.position? name = (s.items.toList.map (·.name)).findIdx? (· == name) := by
  rw [List.findIdx?_map, ← List.findIdx?_toArray]
  rfl

theorem position?_modify (s : TileBuffers) (position : Nat) {change : TileBuffer → TileBuffer}
    (keeps : ∀ b, (change b).name = b.name) (name : String) :
    (s.modify position change).position? name = s.position? name := by
  have names : (s.modify position change).items.toList.map (·.name) =
      s.items.toList.map (·.name) := by
    apply List.ext_getElem?
    intro i
    rw [List.getElem?_map, List.getElem?_map, Array.getElem?_toList, Array.getElem?_toList,
      get_modify]
    split
    · rw [Option.map_map]
      exact congrArg (fun f => Option.map f s.items[i]?) (funext keeps)
    · rfl
  rw [position?_eq, position?_eq, names]

end TileBuffers

namespace TileArray

variable {t t' : TileArray} {e : Endpoint} {r : Route}

theorem routeOf_setRoute_other (t : TileArray) {e other : Endpoint} (different : other ≠ e)
    (r : Route) : (t.setRoute e r).routeOf other = t.routeOf other := by
  have skip : (other == e) = false := by simpa using different
  simp only [routeOf, setRoute, List.lookup_cons, skip]
  induction t.routes with
  | nil => rfl
  | cons entry routes ih =>
    by_cases here : entry.1 = e
    · have away : (other == entry.1) = false := by rw [here]; exact skip
      rw [List.filter_cons_of_neg (by simpa using here), ih, List.lookup_cons, away]
    · rw [List.filter_cons_of_pos (by simpa using here), List.lookup_cons, List.lookup_cons, ih]

structure Streamed (t t' : TileArray) (e : Endpoint) (cells : List Nat) : Prop where
  kernels : t'.kernels = t.kernels
  routes : ∀ other, other ≠ e → t'.routeOf other = t.routeOf other
  buffers : ∀ i, i ∉ cells → t'.buffers.items[i]? = t.buffers.items[i]?
  names : ∀ name, t'.buffers.position? name = t.buffers.position? name

theorem pass_buffers (t : TileArray) (e : Endpoint) (r : Route) (ended : Bool)
    (change : TileBuffer → TileBuffer) :
    (t.pass e r ended change).buffers = t.buffers.modify r.current change := by
  unfold pass
  split <;> rfl

theorem pass_current {b : TileBuffer} (found : t.buffers.items[r.current]? = some b) (e : Endpoint)
    (ended : Bool) (change : TileBuffer → TileBuffer) :
    (t.pass e r ended change).buffers.items[r.current]? = some (change b) := by
  rw [pass_buffers, TileBuffers.get_modify, if_pos rfl, found]
  rfl

theorem pass_other (t : TileArray) (e : Endpoint) (ended : Bool) (change : TileBuffer → TileBuffer)
    {i : Nat} (other : i ≠ r.current) :
    (t.pass e r ended change).buffers.items[i]? = t.buffers.items[i]? := by
  rw [pass_buffers, TileBuffers.get_modify, if_neg other.symm]

theorem pass_kernels (t : TileArray) (e : Endpoint) (r : Route) (ended : Bool)
    (change : TileBuffer → TileBuffer) : (t.pass e r ended change).kernels = t.kernels := by
  unfold pass
  split <;> rfl

theorem pass_routeOf (known : t.routeOf e = some r) (ended : Bool)
    (change : TileBuffer → TileBuffer) : (t.pass e r ended change).routeOf =
      Function.update t.routeOf e (some (if ended then r.advance else r)) := by
  funext other
  unfold pass
  by_cases same : other = e
  · subst same
    rw [Function.update_self]
    split
    · exact routeOf_setRoute _ _ _
    · exact known
  · rw [Function.update_of_ne same]
    split
    · exact routeOf_setRoute_other _ same _
    · rfl

theorem pass_streamed {cells : List Nat} (known : t.routeOf e = some r) (inside : r.current ∈ cells)
    (ended : Bool) {change : TileBuffer → TileBuffer} (keeps : ∀ b, (change b).name = b.name) :
    t.Streamed (t.pass e r ended change) e cells ∧
      (t.pass e r ended change).routeOf e = some (if ended then r.advance else r) := by
  have routes := pass_routeOf known ended change
  refine ⟨⟨pass_kernels _ _ _ _ _, fun other different => ?_, fun i outside => ?_, fun name => ?_⟩,
    ?_⟩
  · rw [routes, Function.update_of_ne different]
  · refine pass_other t e ended change ?_
    rintro rfl
    exact outside inside
  · rw [pass_buffers, TileBuffers.position?_modify _ _ keeps]
  · rw [routes, Function.update_self]

end TileArray

namespace Channel.Holds

variable {ch : Channel} {value : Nat → UInt8} {t : TileArray} {k : Marks} {e : Endpoint}

theorem fill_ok (proper : ch.Proper) (holds : ch.Holds value t.buffers k)
    (known : t.routeOf e = some (ch.route k.filled)) (inbound : e.direction = .hostToDevice)
    {bytes : List UInt8} (nonempty : bytes ≠ [])
    (next : bytes = (List.range' (ch.written k) bytes.length).map value) :
    ∃ count k' t', t.fill e bytes = .ok (count, t') ∧ count ≤ bytes.length ∧
      ch.Holds value t'.buffers k' ∧ t'.routeOf e = some (ch.route k'.filled) ∧
      ch.written k' = ch.written k + count ∧ (k'.drained = k.drained ∧ k'.taken = k.taken) ∧
      t.Streamed t' e ch.cells ∧ (count = 0 → t' = t ∧ t.Barred e) := by
  obtain ⟨b, found, size⟩ := holds.sized k.filled
  rcases holds.fill_lock found with ⟨lock, _⟩ | ⟨free, lock, cursor, begins⟩
  · have closed : TileArray.ready e.direction b = false := by simp [TileArray.ready, inbound, lock]
    exact ⟨0, k, t, TileArray.fill_barred known found closed bytes, Nat.zero_le _, holds, known, rfl,
      ⟨rfl, rfl⟩, ⟨rfl, fun _ _ => rfl, fun _ _ => rfl, fun _ => rfl⟩,
      fun _ => ⟨rfl, _, _, known, found, closed⟩⟩
  have opened : TileArray.ready e.direction b = true := by simp [TileArray.ready, inbound, lock]
  have part := holds.part
  have room : b.room = ch.blockSize k.filled - k.part := by rw [TileBuffer.room, size, cursor]
  have positive := List.length_pos_iff.mpr nonempty
  have filled := TileArray.fill_ready known found opened (by omega : 0 < min bytes.length b.room)
  obtain ⟨front, taken⟩ : ∃ front, front = bytes.take (min bytes.length b.room) := ⟨_, rfl⟩
  have length : front.length = min bytes.length b.room := by
    rw [taken, List.length_take]
    omega
  rw [← taken, ← length] at filled
  -- What goes into the buffer continues the block that it holds.
  have continues : front = (List.range' (ch.start k.filled + b.cursor) front.length).map value := by
    rw [length, taken, cursor, next, ← List.map_take, List.length_map, List.length_range',
      List.take_range'_of_length_ge (Nat.min_le_left _ _)]
    rfl
  have stored := (cursor ▸ begins).write continues (by omega)
  have size' : (b.fill front).byteLength = ch.blockSize k.filled := by
    rw [TileBuffer.byteLength_fill, size]
  obtain ⟨streamed, route⟩ := TileArray.pass_streamed known
    (ch.route_current k.filled ▸ cell_mem proper.cycle k.filled) (b.ends front.length)
    fun b => b.name_fill front
  have new := TileArray.pass_current (r := ch.route k.filled) found e (b.ends front.length)
    fun b' => b'.fill front
  have others (block : Nat) (other : ch.cell block ≠ ch.cell k.filled) :=
    TileArray.pass_other (r := ch.route k.filled) t e (b.ends front.length)
      (fun b' => b'.fill front) other
  cases last : b.ends front.length with
  | true =>
    have whole := TileBuffer.ends_iff.mp last
    rw [TileBuffer.fill_last last] at new size'
    refine ⟨front.length, { k with filled := k.filled + 1, part := 0 }, _, filled, by omega,
      holds.completed free new size' others proper rfl rfl (size ▸ whole ▸ stored),
      by rw [route, last, if_pos rfl, route_advance], ?_, ⟨rfl, rfl⟩, streamed, by omega⟩
    simp only [written, start]
    omega
  | false =>
    have short : ¬b.cursor + front.length = b.byteLength := by
      rw [← TileBuffer.ends_iff, last]
      exact Bool.false_ne_true
    rw [TileBuffer.fill_part last] at new size'
    refine ⟨front.length, { k with part := k.part + front.length }, _, filled, by omega,
      holds.grown free new size' others (by omega) (by omega) lock
        (congrArg (· + front.length) cursor) (cursor ▸ stored),
      by rw [route, last, if_neg Bool.false_ne_true], ?_, ⟨rfl, rfl⟩, streamed, by omega⟩
    simp only [written, Nat.add_assoc]

theorem drain_ok (proper : ch.Proper) (holds : ch.Holds value t.buffers k)
    (known : t.routeOf e = some (ch.route k.drained)) (outbound : e.direction = .deviceToHost)
    {limit : Nat} (positive : 0 < limit) :
    ∃ bytes k' t', t.drain e limit = .ok (bytes, t') ∧ bytes.length ≤ limit ∧
      bytes = (List.range' (ch.read k) bytes.length).map value ∧
      ch.Holds value t'.buffers k' ∧ t'.routeOf e = some (ch.route k'.drained) ∧
      ch.read k' = ch.read k + bytes.length ∧ (k'.filled = k.filled ∧ k'.part = k.part) ∧
      t.Streamed t' e ch.cells ∧ (bytes = [] → t' = t ∧ t.Barred e) := by
  obtain ⟨b, found, size⟩ := holds.sized k.drained
  rcases holds.drain_lock found with ⟨_, _, lock⟩ | ⟨more, lock, cursor, begins⟩
  · have closed : TileArray.ready e.direction b = false := by simp [TileArray.ready, outbound, lock]
    exact ⟨[], k, t, TileArray.drain_barred known found closed limit, Nat.zero_le _, rfl, holds,
      known, rfl, ⟨rfl, rfl⟩, ⟨rfl, fun _ _ => rfl, fun _ _ => rfl, fun _ => rfl⟩,
      fun _ => ⟨rfl, _, _, known, found, closed⟩⟩
  have opened : TileArray.ready e.direction b = true := by simp [TileArray.ready, outbound, lock]
  have taken := holds.taken
  have room : b.room = ch.blockSize k.drained - k.taken := by rw [TileBuffer.room, size, cursor]
  have drained := TileArray.drain_ready known found opened (by omega : 0 < min limit b.room)
  obtain ⟨count, counted⟩ : ∃ count, count = min limit b.room := ⟨_, rfl⟩
  rw [← counted] at drained
  have front : b.front count = (List.range' (ch.read k) count).map value := by
    rw [begins.front (by omega), cursor]
    rfl
  have length : (b.front count).length = count := ByteStore.read_length _ _ _
  have moves : b.front count = [] → t.pass e (ch.route k.drained) (b.ends count)
      (fun b' => b'.drain count) = t ∧ t.Barred e := by
    intro none
    rw [none, List.length_nil] at length
    omega
  have size' : (b.drain count).byteLength = ch.blockSize k.drained := by
    rw [TileBuffer.drain, TileBuffer.byteLength_advance, size]
  obtain ⟨streamed, route⟩ := TileArray.pass_streamed known
    (ch.route_current k.drained ▸ cell_mem proper.cycle k.drained) (b.ends count)
    fun b => b.name_drain count
  have new := TileArray.pass_current (r := ch.route k.drained) found e (b.ends count)
    fun b' => b'.drain count
  have others (block : Nat) (other : ch.cell block ≠ ch.cell k.drained) :=
    TileArray.pass_other (r := ch.route k.drained) t e (b.ends count) (fun b' => b'.drain count) other
  cases last : b.ends count with
  | true =>
    have whole := TileBuffer.ends_iff.mp last
    rw [TileBuffer.drain, TileBuffer.advance_last last] at new size'
    refine ⟨b.front count, { k with drained := k.drained + 1, taken := 0 }, _, drained, by omega,
      by rw [length]; exact front, holds.emptied more new size' others begins proper rfl rfl,
      by rw [route, last, if_pos rfl, route_advance], ?_, ⟨rfl, rfl⟩, streamed, moves⟩
    rw [length]
    simp only [read, start]
    omega
  | false =>
    have short : ¬b.cursor + count = b.byteLength := by
      rw [← TileBuffer.ends_iff, last]
      exact Bool.false_ne_true
    rw [TileBuffer.drain, TileBuffer.advance_part last] at new size'
    refine ⟨b.front count, { k with taken := k.taken + count }, _, drained, by omega,
      by rw [length]; exact front, holds.tapped more new size' others begins (by omega) lock
        (congrArg (· + count) cursor), by rw [route, last, if_neg Bool.false_ne_true], ?_,
      ⟨rfl, rfl⟩, streamed, moves⟩
    rw [length]
    simp only [read, Nat.add_assoc]

theorem behind_of_barred (holds : ch.Holds value t.buffers k)
    (known : t.routeOf e = some (ch.route k.filled)) (inbound : e.direction = .hostToDevice)
    (barred : t.Barred e) : k.drained < k.filled := by
  obtain ⟨r, b, routed, found, closed⟩ := barred
  cases known.symm.trans routed
  rcases holds.fill_lock found with ⟨_, j, live, _⟩ | ⟨_, lock, _⟩
  · exact Nat.lt_of_le_of_lt live.1 live.2
  · simp [TileArray.ready, inbound, lock] at closed

theorem level_of_barred (holds : ch.Holds value t.buffers k)
    (known : t.routeOf e = some (ch.route k.drained)) (outbound : e.direction = .deviceToHost)
    (barred : t.Barred e) : k.drained = k.filled := by
  obtain ⟨r, b, routed, found, closed⟩ := barred
  cases known.symm.trans routed
  rcases holds.drain_lock found with ⟨level, _⟩ | ⟨_, lock, _⟩
  · exact level
  · simp [TileArray.ready, outbound, lock] at closed

end Channel.Holds

end FabricQueue
