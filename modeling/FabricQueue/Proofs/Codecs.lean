import FabricQueue.Proofs.Fields
import FabricQueue.Proofs.Slots

set_option autoImplicit false

namespace FabricQueue

theorem ofBytes_lt (bytes : List UInt8) : ofBytes bytes < 256 ^ bytes.length := by
  induction bytes with
  | nil => simp [ofBytes]
  | cons b rest ih =>
    have bound := b.toNat_lt
    rw [ofBytes, List.length_cons, Nat.pow_succ]
    omega

theorem bytesOf_ofBytes (bytes : List UInt8) : bytesOf bytes.length (ofBytes bytes) = bytes := by
  induction bytes with
  | nil => rfl
  | cons b rest ih =>
    have bound := b.toNat_lt
    have low : UInt8.ofNat (b.toNat + 256 * ofBytes rest) = b := by
      apply UInt8.toNat_inj.mp
      rw [UInt8.toNat_ofNat']
      omega
    have high : (b.toNat + 256 * ofBytes rest) / 256 = ofBytes rest := by omega
    rw [ofBytes, List.length_cons, bytesOf, low, high, ih]

theorem bytesOf_word {bytes : List UInt8} (length : bytes.length = 8) :
    bytesOf 8 (UInt64.ofNat (ofBytes bytes)).toNat = bytes := by
  have bound := ofBytes_lt bytes
  rw [length] at bound
  rw [UInt64.toNat_ofNat_of_lt' bound, ← length, bytesOf_ofBytes]

theorem packHeader_fields (w : UInt64) :
    packHeader (headerOf w) (kindOf w) (reserved0Of w) = w := by
  apply UInt64.toNat_inj.mp
  have bound := w.toNat_lt
  simp only [packHeader_toNat, headerOf, kindOf, reserved0Of, UInt16.toNat_ofNat',
    UInt32.toNat_ofNat', Nat.shiftRight_eq_div_pow]
  omega

theorem pieces_flatten (count : Nat) (bytes : List UInt8) (length : bytes.length = 8 * count) :
    ((List.range count).flatMap fun k => (bytes.drop (8 * k)).take 8) = bytes := by
  induction count generalizing bytes with
  | zero => rw [List.eq_nil_of_length_eq_zero length]; rfl
  | succ count ih =>
    have later := ih (bytes.drop 8) (by rw [List.length_drop]; omega)
    simp only [List.drop_drop, ← Nat.mul_succ, Nat.add_comm 8] at later
    rw [List.range_succ_eq_map, List.flatMap_cons, List.flatMap_map, Nat.mul_zero, List.drop_zero,
      later, List.take_append_drop]

theorem ByteStore.read_part (s : ByteStore) (start : Nat) {count skip part : Nat}
    (within : skip + part ≤ count) :
    ((s.read start count).drop skip).take part = s.read (start + skip) part := by
  apply List.ext_getElem
  · simp
    omega
  · intro i _ _
    simp [read, Nat.add_assoc]

namespace Record

theorem toWords_ofWords (w : Vector UInt64 8) : (ofWords w).toWords = w := by
  apply Vector.ext
  intro i below
  match i, below with
  | 0, _ => exact packHeader_fields w[0]
  | 1, _ | 2, _ | 3, _ | 4, _ | 5, _ | 6, _ | 7, _ => rfl

theorem toBytes_ofBytes {bytes : List UInt8} (length : bytes.length = Layout.packetSize) :
    (ofBytes bytes).toBytes = bytes := by
  have piece (k : Nat) (below : k < 8) : ((bytes.drop (8 * k)).take 8).length = 8 := by
    rw [List.length_take, List.length_drop, length, Layout.packetSize]
    omega
  have words : (ofBytes bytes).toWords.toList =
      (List.range 8).map fun k =>
        UInt64.ofNat (FabricQueue.ofBytes ((bytes.drop (8 * k)).take 8)) := by
    rw [ofBytes, toWords_ofWords]
    rfl
  rw [toBytes, words, List.flatMap_map]
  calc _ = (List.range 8).flatMap fun k => (bytes.drop (8 * k)).take 8 :=
        List.flatMap_congr fun k below => bytesOf_word (piece k (List.mem_range.mp below))
    _ = bytes := pieces_flatten 8 bytes length

-- Both codecs of a record lose nothing in either direction.
structure Lossless : Prop where
  ofBytes_toBytes : ∀ r : Record, ofBytes r.toBytes = r
  toBytes_ofBytes : ∀ bytes : List UInt8, bytes.length = Layout.packetSize →
    (ofBytes bytes).toBytes = bytes
  ofWords_toWords : ∀ r : Record, ofWords r.toWords = r
  toWords_ofWords : ∀ w : Vector UInt64 8, (ofWords w).toWords = w

theorem lossless : Lossless where
  ofBytes_toBytes := ofBytes_toBytes
  toBytes_ofBytes _ := toBytes_ofBytes
  ofWords_toWords := ofWords_toWords
  toWords_ofWords := toWords_ofWords

end Record

namespace Region

-- The bytes of a slot of a queue that starts with the region.
def image (r : Region) (m : Memory) (slot : Nat) : List UInt8 :=
  m.read (r.origin + Layout.slotOffset slot) Layout.packetSize

variable (r : Region) (m : Memory) (slot : Nat)

theorem cells_image : (r.cells m).slots slot = Record.ofBytes (r.image m slot) := by
  simp only [cells, wordsAt, Record.ofBytes, image]
  congr 2
  funext i
  rw [ByteStore.read_part m _ (by simp only [Layout.packetSize]; omega), word, ByteStore.read64,
    Nat.add_assoc]

theorem image_cells : r.image m slot = ((r.cells m).slots slot).toBytes := by
  have length : (r.image m slot).length = Layout.packetSize := ByteStore.read_length _ _ _
  rw [cells_image, Record.toBytes_ofBytes length]

end Region

end FabricQueue
