import FabricQueue.Proofs.Access
import FabricQueue.Proofs.Records
import FabricQueue.Queue.Header
import Mathlib.Logic.Function.Basic

set_option autoImplicit false

namespace FabricQueue

theorem Layout.slotOffset_grid (slot : Nat) : slotOffset slot % 8 = 0 := by
  simp only [slotOffset, headerSize, packetSize]
  omega

theorem Layout.header_within (capacity : Nat) {offset : Nat} (inside : offset + 8 ≤ 64) :
    offset + 8 ≤ regionSize capacity := by
  simp only [regionSize, slotOffset, headerSize]
  omega

theorem Layout.slot_within {capacity slot i : Nat} (below : slot < capacity) (within : i < 8) :
    slotOffset slot + 8 * i + 8 ≤ regionSize capacity := by
  simp only [regionSize, slotOffset, headerSize, packetSize]
  omega

structure Cells where
  kind : UInt64
  baseAddress : UInt64
  doorbell : UInt64
  size : UInt64
  id : UInt64
  readIndex : UInt64
  writeIndex : UInt64
  slots : Nat → Record

namespace Cells

def setWord (c : Cells) (offset : Nat) (w : UInt64) : Cells where
  kind := if offset = Layout.typeAt then w else c.kind
  baseAddress := if offset = Layout.baseAddressAt then w else c.baseAddress
  doorbell := if offset = Layout.doorbellAt then w else c.doorbell
  size := if offset = Layout.sizeAt then w else c.size
  id := if offset = Layout.idAt then w else c.id
  readIndex := if offset = Layout.readIndexAt then w else c.readIndex
  writeIndex := if offset = Layout.writeIndexAt then w else c.writeIndex
  slots := c.slots

def place (c : Cells) (slot : Nat) (record : Record) : Cells :=
  { c with slots := Function.update c.slots slot record }

@[simp]
theorem place_slot (c : Cells) (slot : Nat) (record : Record) :
    (c.place slot record).slots slot = record :=
  Function.update_self _ _ _

theorem place_other (c : Cells) {slot other : Nat} (record : Record) (different : other ≠ slot) :
    (c.place slot record).slots other = c.slots other :=
  Function.update_of_ne different _ _

theorem place_place (c : Cells) (slot : Nat) (first second : Record) :
    (c.place slot first).place slot second = c.place slot second := by
  simp [place]

theorem place_same (c : Cells) (slot : Nat) : c.place slot (c.slots slot) = c := by
  simp [place]

end Cells

namespace Region

def wordsAt (r : Region) (m : Memory) (slot : Nat) : Vector UInt64 8 :=
  Vector.ofFn fun i => r.word m (Layout.slotOffset slot + 8 * i.val)

def cells (r : Region) (m : Memory) : Cells where
  kind := r.word m Layout.typeAt
  baseAddress := r.word m Layout.baseAddressAt
  doorbell := r.word m Layout.doorbellAt
  size := r.word m Layout.sizeAt
  id := r.word m Layout.idAt
  readIndex := r.word m Layout.readIndexAt
  writeIndex := r.word m Layout.writeIndexAt
  slots slot := Record.ofWords (r.wordsAt m slot)

structure Carries (r : Region) (capacity : Nat) (m : Memory) : Prop where
  backed : r.Backed m
  large : Layout.regionSize capacity ≤ r.size
  aligned : r.phase % 8 = 0

theorem Carries.of_leaves {r q : Region} {capacity : Nat} {m m' : Memory}
    (carries : r.Carries capacity m) (leaves : q.Leaves m m') : r.Carries capacity m' :=
  ⟨carries.backed.of_leaves leaves, carries.large, carries.aligned⟩

variable {r : Region} {capacity : Nat} {m : Memory}

theorem word_congr {m' : Memory} {offset limit : Nat} (inside : offset + 8 ≤ limit)
    (same : ∀ i, r.origin ≤ i → i < r.origin + limit → m'.get i = m.get i) :
    r.word m' offset = r.word m offset := by
  rw [word, word]
  exact ByteStore.read64_congr _ _ _ fun i low high => same i (by omega) (by omega)

theorem cells_congr {m' : Memory}
    (same : ∀ i, r.origin ≤ i → i < r.origin + Layout.regionSize capacity → m'.get i = m.get i) :
    (∀ slot < capacity, (r.cells m').slots slot = (r.cells m).slots slot) ∧
      { r.cells m' with slots := (r.cells m).slots } = r.cells m := by
  simp only [Layout.regionSize, Layout.slotOffset, Layout.headerSize, Layout.packetSize] at same
  constructor
  · intro slot below
    have words : r.wordsAt m' slot = r.wordsAt m slot := by
      simp only [wordsAt, Layout.slotOffset, Layout.headerSize, Layout.packetSize]
      congr 1
      funext i
      exact word_congr (by omega) same
    simp only [cells, words]
  · have header (offset : Nat) (inside : offset + 8 ≤ 64) : r.word m' offset = r.word m offset :=
      word_congr (by omega) same
    simp only [cells, Cells.mk.injEq]
    exact ⟨header _ (by decide), header _ (by decide), header _ (by decide), header _ (by decide),
      header _ (by decide), header _ (by decide), header _ (by decide), trivial⟩

namespace Carries

variable (carries : r.Carries capacity m)
include carries

theorem header_inside {offset : Nat} (inside : offset + 8 ≤ 64) : offset + 8 ≤ r.size :=
  Nat.le_trans (Layout.header_within capacity inside) carries.large

theorem slot_inside {slot i : Nat} (below : slot < capacity) (within : i < 8) :
    Layout.slotOffset slot + 8 * i + 8 ≤ r.size :=
  Nat.le_trans (Layout.slot_within below within) carries.large

theorem read_header {offset : Nat} (inside : offset + 8 ≤ 64) (grid : offset % 8 = 0) :
    r.read64 offset m = .ok (r.word m offset) m := by
  have aligned := carries.aligned
  exact read64_word (carries.header_inside inside) (by omega)

theorem word_header (offset other : Nat) (w : UInt64) (inside : offset + 8 ≤ 64)
    (grid : offset % 8 = 0) (otherGrid : other % 8 = 0) :
    r.word (r.put m offset w) other = if other = offset then w else r.word m other := by
  have backed := carries.backed
  have fits := carries.header_inside inside
  exact word_put w (by simp only [Backed] at backed; omega) grid otherGrid

theorem wordsAt_header (offset : Nat) (w : UInt64) (inside : offset + 8 ≤ 64)
    (grid : offset % 8 = 0) (slot : Nat) :
    r.wordsAt (r.put m offset w) slot = r.wordsAt m slot := by
  simp only [wordsAt, Layout.slotOffset, Layout.headerSize, Layout.packetSize]
  congr 1
  funext i
  rw [carries.word_header offset _ w inside grid (by omega), if_neg (by omega)]

theorem cells_header (offset : Nat) (w : UInt64) (inside : offset + 8 ≤ 64)
    (grid : offset % 8 = 0) : r.cells (r.put m offset w) = (r.cells m).setWord offset w := by
  have word := carries.word_header offset
  simp only [cells, Cells.setWord, carries.wordsAt_header offset w inside grid, Cells.mk.injEq]
  refine ⟨?_, ?_, ?_, ?_, ?_, ?_, ?_, trivial⟩ <;>
    rw [word _ w inside grid (by decide)] <;> simp only [eq_comm]

theorem readIndex_ok : r.readIndex m = .ok (r.cells m).readIndex m :=
  carries.read_header (by decide) (by decide)

theorem writeIndex_ok : r.writeIndex m = .ok (r.cells m).writeIndex m :=
  carries.read_header (by decide) (by decide)

theorem published_ok : r.published m = .ok ((r.cells m).doorbell + 1) m :=
  map_ok (carries.read_header (by decide) (by decide))

theorem size_ok :
    r.read32 Layout.sizeAt m = .ok (UInt32.ofNat (r.cells m).size.toNat) m := by
  have aligned := carries.aligned
  have fits := carries.header_inside (by decide : Layout.sizeAt + 8 ≤ 64)
  have low : m.read32 (r.origin + Layout.sizeAt) = UInt32.ofNat (r.cells m).size.toNat := by
    apply UInt32.toNat_inj.mp
    rw [ByteStore.read32_toNat, UInt32.toNat_ofNat']
    change _ = (r.word m Layout.sizeAt).toNat % 2 ^ 32
    rw [word]
  rw [read32, access, locate_ok (by omega) (by simp only [Layout.sizeAt]; omega)]
  simp only [low]

theorem write_header (offset : Nat) (w : UInt64) (inside : offset + 8 ≤ 64)
    (grid : offset % 8 = 0) :
    ∃ m', r.write64 offset w m = .ok () m' ∧ r.cells m' = (r.cells m).setWord offset w ∧
      (r.footprint capacity).Leaves m m' := by
  have aligned := carries.aligned
  have fits := carries.header_inside inside
  exact ⟨_, write64_word w fits (by omega), carries.cells_header offset w inside grid,
    put_leaves w (Layout.header_within capacity inside)⟩

section Slot

variable {slot : Nat} (below : slot < capacity)
include below

theorem word_slot (i other : Nat) (w : UInt64) (within : i < 8) (otherGrid : other % 8 = 0) :
    r.word (r.put m (Layout.slotOffset slot + 8 * i) w) other =
      if other = Layout.slotOffset slot + 8 * i then w else r.word m other := by
  have backed := carries.backed
  have fits := carries.slot_inside below within
  have grid := Layout.slotOffset_grid slot
  exact word_put w (by simp only [Backed] at backed; omega) (by omega) otherGrid

theorem wordsAt_slot (i : Nat) (w : UInt64) (within : i < 8) :
    r.wordsAt (r.put m (Layout.slotOffset slot + 8 * i) w) slot = (r.wordsAt m slot).set i w := by
  apply Vector.ext
  intro j inside
  have grid : (Layout.slotOffset slot + 8 * j) % 8 = 0 := by
    have start := Layout.slotOffset_grid slot
    omega
  simp only [wordsAt, Vector.getElem_ofFn, Vector.getElem_set,
    carries.word_slot below i _ w within grid]
  by_cases same : i = j
  · simp [same]
  · rw [if_neg (by omega), if_neg same]

theorem wordsAt_other (i : Nat) (w : UInt64) (within : i < 8) {other : Nat}
    (different : other ≠ slot) :
    r.wordsAt (r.put m (Layout.slotOffset slot + 8 * i) w) other = r.wordsAt m other := by
  simp only [wordsAt]
  congr 1
  funext j
  have apart : Layout.slotOffset other + 8 * j.val ≠ Layout.slotOffset slot + 8 * i := by
    simp only [Layout.slotOffset, Layout.headerSize, Layout.packetSize]
    omega
  have grid : (Layout.slotOffset other + 8 * j.val) % 8 = 0 := by
    have start := Layout.slotOffset_grid other
    omega
  rw [carries.word_slot below i _ w within grid, if_neg apart]

theorem cells_slot (i : Nat) (w : UInt64) (within : i < 8) :
    r.cells (r.put m (Layout.slotOffset slot + 8 * i) w) =
      (r.cells m).place slot (Record.ofWords ((r.wordsAt m slot).set i w)) := by
  have header (offset : Nat) (inside : offset + 8 ≤ 64) (grid : offset % 8 = 0) :
      r.word (r.put m (Layout.slotOffset slot + 8 * i) w) offset = r.word m offset := by
    rw [carries.word_slot below i _ w within grid, if_neg]
    simp only [Layout.slotOffset, Layout.headerSize]
    omega
  simp only [cells, Cells.place, Cells.mk.injEq]
  refine ⟨header _ (by decide) (by decide), header _ (by decide) (by decide),
    header _ (by decide) (by decide), header _ (by decide) (by decide),
    header _ (by decide) (by decide), header _ (by decide) (by decide),
    header _ (by decide) (by decide), ?_⟩
  funext other
  by_cases same : other = slot
  · subst same
    rw [Function.update_self, carries.wordsAt_slot below i w within]
  · rw [Function.update_of_ne same, carries.wordsAt_other below i w within same]

theorem write_slot (i : Nat) (w : UInt64) (within : i < 8) :
    ∃ m', r.write64 (Layout.slotOffset slot + 8 * i) w m = .ok () m' ∧
      r.cells m' = (r.cells m).place slot (Record.ofWords ((r.wordsAt m slot).set i w)) ∧
      r.wordsAt m' slot = (r.wordsAt m slot).set i w ∧ (r.footprint capacity).Leaves m m' := by
  have aligned := carries.aligned
  have fits := carries.slot_inside below within
  have grid := Layout.slotOffset_grid slot
  exact ⟨_, write64_word w fits (by omega), carries.cells_slot below i w within,
    carries.wordsAt_slot below i w within, put_leaves w (Layout.slot_within below within)⟩

theorem read_slot (i : Nat) (within : i < 8) :
    r.read64 (Layout.slotOffset slot + 8 * i) m = .ok (r.wordsAt m slot)[i] m := by
  have aligned := carries.aligned
  have grid := Layout.slotOffset_grid slot
  rw [read64_word (carries.slot_inside below within) (by omega)]
  simp [wordsAt]

theorem headerWordOf_ok : r.headerWordOf slot m = .ok (r.wordsAt m slot)[0] m :=
  carries.read_slot below 0 (by decide)

theorem signalOf_ok : r.signalOf slot m = .ok ((r.cells m).slots slot).signal m :=
  carries.read_slot below 7 (by decide)

theorem readRecord_ok : r.readRecord slot m = .ok ((r.cells m).slots slot) m := by
  have read := fun i (within : i < 8) => carries.read_slot below i within
  apply (bind_ok (read 0 (by decide))).trans
  apply (bind_ok (read 1 (by decide))).trans
  apply (bind_ok (read 2 (by decide))).trans
  apply (bind_ok (read 3 (by decide))).trans
  apply (bind_ok (read 4 (by decide))).trans
  apply (bind_ok (read 5 (by decide))).trans
  apply (bind_ok (read 6 (by decide))).trans
  exact bind_ok (read 7 (by decide))

theorem setHeader_ok (header : UInt16) :
    ∃ m', r.setHeader slot header m = .ok () m' ∧
      r.cells m' = (r.cells m).place slot { (r.cells m).slots slot with header } ∧
      (r.footprint capacity).Leaves m m' := by
  obtain ⟨m', done, changed, _, leaves⟩ :=
    carries.write_slot below 0 (withHeader (r.wordsAt m slot)[0] header) (by decide)
  refine ⟨m', ?_, ?_, leaves⟩
  · unfold setHeader
    rw [bind_ok (carries.headerWordOf_ok below)]
    exact done
  · rw [changed, Record.ofWords_withHeader]; rfl

theorem setSignal_ok (signal : UInt64) :
    ∃ m', r.setSignal slot signal m = .ok () m' ∧
      r.cells m' = (r.cells m).place slot { (r.cells m).slots slot with signal } ∧
      (r.footprint capacity).Leaves m m' := by
  obtain ⟨m', done, changed, _, leaves⟩ := carries.write_slot below 7 signal (by decide)
  refine ⟨m', done, ?_, leaves⟩
  rw [changed]
  simp [Record.ofWords, cells]

omit below in
theorem storeWords_ok (below : slot < capacity) (words : List UInt64) (i : Nat)
    (fits : i + words.length ≤ 8) :
    ∃ m', r.storeWords (Layout.slotOffset slot + 8 * i) words m = .ok () m' ∧
      r.cells m' = (r.cells m).place slot (Record.ofWords (r.wordsAt m' slot)) ∧
      (∀ j, (within : j < 8) → (r.wordsAt m' slot)[j] =
        if i ≤ j ∧ j < i + words.length then words.getD (j - i) 0 else (r.wordsAt m slot)[j]) ∧
      (r.footprint capacity).Leaves m m' := by
  induction words generalizing i m with
  | nil =>
    refine ⟨m, rfl, ?_, fun j within => ?_, Leaves.refl _ m⟩
    · exact (Cells.place_same _ _).symm
    · rw [if_neg (by simp)]
  | cons w rest ih =>
    simp only [List.length_cons] at fits ⊢
    obtain ⟨m₁, done, changed, words, leaves⟩ := carries.write_slot below i w (by omega)
    obtain ⟨m₂, later, final, others, leaves'⟩ :=
      ih (carries.of_leaves leaves) (i + 1) (by omega)
    refine ⟨m₂, ?_, ?_, ?_, leaves.trans leaves'⟩
    · exact (bind_ok done).trans later
    · rw [final, changed, Cells.place_place]
    · intro j within
      rw [others j within, words, Vector.getElem_set]
      by_cases first : i = j
      · subst first
        rw [if_neg (by omega), if_pos rfl, if_pos (by omega), Nat.sub_self, List.getD_cons_zero]
      · by_cases tail : i + 1 ≤ j ∧ j < i + 1 + rest.length
        · have place : j - i = j - (i + 1) + 1 := by omega
          rw [if_pos tail, if_pos (by omega), place, List.getD_cons_succ]
        · rw [if_neg tail, if_neg first, if_neg (by omega)]

theorem writeRecord_ok (record : Record) :
    ∃ m', r.writeRecord slot record m = .ok () m' ∧ r.cells m' = (r.cells m).place slot record ∧
      (r.footprint capacity).Leaves m m' := by
  obtain ⟨m₁, stored, changed, words, leaves⟩ :=
    carries.storeWords_ok below (record.toWords.toList.drop 1) 1 (by simp)
  obtain ⟨m₂, done, final, _, leaves'⟩ :=
    (carries.of_leaves leaves).write_slot below 0 record.headerWord (by decide)
  refine ⟨m₂, (bind_ok stored).trans done, ?_, leaves.trans leaves'⟩
  have whole : (r.wordsAt m₁ slot).set 0 record.headerWord = record.toWords := by
    apply Vector.ext
    intro j within
    rw [Vector.getElem_set]
    by_cases first : 0 = j
    · subst first; simp [Record.toWords]
    · rw [if_neg first, words j within, if_pos (by simp; omega)]
      simp [show j - 1 + 1 = j by omega, within]
  rw [final, changed, Cells.place_place, whole, Record.ofWords_toWords]

end Slot

end Carries

end Region

end FabricQueue
