import FabricQueue.Bytes
import Mathlib.Algebra.Group.Nat.Defs
import Mathlib.Tactic.SplitIfs

set_option autoImplicit false

namespace FabricQueue

@[simp]
theorem bytesOf_length (width n : Nat) : (bytesOf width n).length = width := by
  induction width generalizing n with
  | zero => rfl
  | succ width ih => simp [bytesOf, ih]

theorem ofBytes_bytesOf (width n : Nat) : ofBytes (bytesOf width n) = n % 256 ^ width := by
  induction width generalizing n with
  | zero => simp [bytesOf, ofBytes, Nat.mod_one]
  | succ width ih =>
    have low : (UInt8.ofNat n).toNat = n % 256 := rfl
    rw [bytesOf, ofBytes, ih, low, Nat.pow_succ', Nat.mod_mul]

theorem ofBytes_append (low high : List UInt8) :
    ofBytes (low ++ high) = ofBytes low + 256 ^ low.length * ofBytes high := by
  induction low with
  | nil => simp [ofBytes]
  | cons b rest ih =>
    rw [List.cons_append, ofBytes, ofBytes, ih, List.length_cons, Nat.pow_succ', Nat.mul_add,
      Nat.mul_assoc, Nat.add_assoc]

theorem ofBytes_word (w : UInt64) : UInt64.ofNat (ofBytes (bytesOf 8 w.toNat)) = w := by
  have bound : w.toNat < 256 ^ 8 := w.toNat_lt
  rw [ofBytes_bytesOf, Nat.mod_eq_of_lt bound, UInt64.ofNat_toNat]

theorem ofBytes_half (w : UInt32) : UInt32.ofNat (ofBytes (bytesOf 4 w.toNat)) = w := by
  have bound : w.toNat < 256 ^ 4 := w.toNat_lt
  rw [ofBytes_bytesOf, Nat.mod_eq_of_lt bound, UInt32.ofNat_toNat]

theorem length_wordBytes (words : List UInt32) : (wordBytes words).length = 4 * words.length := by
  induction words with
  | nil => rfl
  | cons w rest ih =>
    simp only [wordBytes, List.flatMap_cons, List.length_append, bytesOf_length] at ih ⊢
    simp only [ih, List.length_cons]
    omega

namespace ByteStore

theorem get_eq (s : ByteStore) (i : Nat) : s.get i = s.bytes.data[i]?.getD 0 := by
  unfold get
  split
  next inside => simp [ByteArray.getElem_eq_getElem_data, getElem?_pos s.bytes.data i inside]
  next outside => simp [getElem?_neg s.bytes.data i outside]

theorem data_set (s : ByteStore) (i : Nat) (b : UInt8) :
    (s.set i b).bytes.data = s.bytes.data.setIfInBounds i b := by
  unfold set
  split
  next inside => exact (Array.setIfInBounds_def _ _ _).trans (dif_pos inside) |>.symm
  next outside => exact (Array.setIfInBounds_def _ _ _).trans (dif_neg outside) |>.symm

theorem ext_get {s t : ByteStore} (size : s.size = t.size) (same : ∀ i, s.get i = t.get i) :
    s = t := by
  obtain ⟨⟨first⟩⟩ := s
  obtain ⟨⟨second⟩⟩ := t
  have equal : first = second := by
    refine Array.ext size fun i below below' => ?_
    have byte := same i
    rw [get_eq, get_eq] at byte
    simpa [below, below'] using byte
  rw [equal]

theorem ext_data {s t : ByteStore} (same : s.bytes.data.toList = t.bytes.data.toList) : s = t := by
  obtain ⟨⟨⟨first⟩⟩⟩ := s
  obtain ⟨⟨⟨second⟩⟩⟩ := t
  exact congrArg (fun bytes : List UInt8 => ByteStore.mk ⟨⟨bytes⟩⟩) same

theorem size_extend (s : ByteStore) (count : Nat) : (s.extend count).size = s.size + count := by
  induction count generalizing s with
  | zero => rfl
  | succ count ih =>
    rw [ByteStore.extend, ih]
    have pushed : ByteStore.size ⟨s.bytes.push 0⟩ = s.size + 1 := ByteArray.size_push
    omega

@[simp]
theorem size_zeros (count : Nat) : (zeros count).size = count :=
  (size_extend empty count).trans (Nat.zero_add count)

@[simp]
theorem size_set (s : ByteStore) (i : Nat) (b : UInt8) : (s.set i b).size = s.size := by
  change (s.set i b).bytes.data.size = s.bytes.data.size
  rw [data_set, Array.size_setIfInBounds]

theorem get_set (s : ByteStore) (i j : Nat) (b : UInt8) (inside : i < s.size) :
    (s.set i b).get j = if i = j then b else s.get j := by
  have bound : i < s.bytes.data.size := inside
  rw [get_eq, get_eq, data_set, Array.getElem?_setIfInBounds]
  split_ifs <;> rfl

theorem set_outside (s : ByteStore) (i : Nat) (b : UInt8) (outside : s.size ≤ i) :
    s.set i b = s := by
  have beyond : ¬ i < s.bytes.size := Nat.not_lt.mpr outside
  rw [set, dif_neg beyond]

@[simp]
theorem size_write (s : ByteStore) (start : Nat) (bytes : List UInt8) :
    (s.write start bytes).size = s.size := by
  induction bytes generalizing s start with
  | nil => rfl
  | cons b rest ih => simp [write, ih]

theorem get_write_apart (s : ByteStore) (start : Nat) (bytes : List UInt8) (i : Nat)
    (apart : i < start ∨ start + bytes.length ≤ i) :
    (s.write start bytes).get i = s.get i := by
  induction bytes generalizing s start with
  | nil => rfl
  | cons b rest ih =>
    simp only [List.length_cons] at apart
    rw [write, ih _ _ (by omega)]
    by_cases inside : start < s.size
    · rw [get_set s start i b inside, if_neg (by omega)]
    · rw [set_outside s start b (by omega)]

theorem get_write (s : ByteStore) (start : Nat) (bytes : List UInt8) (i : Nat)
    (within : i < bytes.length) (fits : start + bytes.length ≤ s.size) :
    (s.write start bytes).get (start + i) = bytes[i] := by
  induction bytes generalizing s start i with
  | nil => simp at within
  | cons b rest ih =>
    simp only [List.length_cons] at within fits
    cases i with
    | zero =>
      rw [write, get_write_apart _ _ _ _ (by omega), get_set _ _ _ _ (by omega)]
      simp
    | succ i =>
      have later := ih (s.set start b) (start + 1) i (by omega) (by simp; omega)
      simpa only [write, Nat.add_assoc, Nat.add_comm 1 i, List.getElem_cons_succ] using later

@[simp]
theorem read_length (s : ByteStore) (start count : Nat) : (s.read start count).length = count := by
  simp [read]

theorem read_succ (s : ByteStore) (start count : Nat) :
    s.read start (count + 1) = s.get start :: s.read (start + 1) count := by
  rw [read, read, List.range_succ_eq_map, List.map_cons, List.map_map]
  simp only [Nat.add_zero, Function.comp_def, Nat.succ_eq_add_one, Nat.add_assoc, Nat.add_comm 1]

theorem read_append (s : ByteStore) (start first second : Nat) :
    s.read start (first + second) = s.read start first ++ s.read (start + first) second := by
  simp [read, List.range_add, Nat.add_assoc]

theorem take_read (s : ByteStore) (start : Nat) {count total : Nat} (fits : count ≤ total) :
    (s.read start total).take count = s.read start count := by
  obtain ⟨rest, rfl⟩ := Nat.exists_eq_add_of_le fits
  rw [read_append, List.take_left' (read_length s start count)]

theorem drop_read (s : ByteStore) (start : Nat) {count total : Nat} (fits : count ≤ total) :
    (s.read start total).drop count = s.read (start + count) (total - count) := by
  obtain ⟨rest, rfl⟩ := Nat.exists_eq_add_of_le fits
  rw [read_append, List.drop_left' (read_length s start count), Nat.add_sub_cancel_left]

theorem read_congr (s t : ByteStore) (start count : Nat)
    (same : ∀ i, start ≤ i → i < start + count → s.get i = t.get i) :
    s.read start count = t.read start count := by
  unfold read
  apply List.map_congr_left
  intro i member
  have bound := List.mem_range.mp member
  exact same _ (by omega) (by omega)

theorem read_write (s : ByteStore) (start : Nat) (bytes : List UInt8)
    (fits : start + bytes.length ≤ s.size) :
    (s.write start bytes).read start bytes.length = bytes := by
  apply List.ext_getElem
  · simp
  · intro i _ within
    simp only [read, List.getElem_map, List.getElem_range]
    exact get_write s start bytes i within fits

@[simp]
theorem size_write64 (s : ByteStore) (start : Nat) (w : UInt64) :
    (s.write64 start w).size = s.size := by
  simp [write64]

theorem get_write64_apart (s : ByteStore) (start i : Nat) (w : UInt64)
    (apart : i < start ∨ start + 8 ≤ i) : (s.write64 start w).get i = s.get i :=
  get_write_apart s start _ i (by simpa using apart)

theorem read64_write64 (s : ByteStore) (start : Nat) (w : UInt64) (fits : start + 8 ≤ s.size) :
    (s.write64 start w).read64 start = w := by
  have bytes := read_write s start (bytesOf 8 w.toNat) (by simpa using fits)
  rw [bytesOf_length] at bytes
  rw [read64, write64, bytes, ofBytes_word]

theorem read64_congr (s t : ByteStore) (start : Nat)
    (same : ∀ i, start ≤ i → i < start + 8 → s.get i = t.get i) :
    s.read64 start = t.read64 start := by
  rw [read64, read64, read_congr s t start 8 same]

theorem read64_write64_apart (s : ByteStore) (start other : Nat) (w : UInt64)
    (apart : other + 8 ≤ start ∨ start + 8 ≤ other) :
    (s.write64 start w).read64 other = s.read64 other :=
  read64_congr _ _ _ fun i _ _ => get_write64_apart s start i w (by omega)

theorem read32_write32 (s : ByteStore) (start : Nat) (w : UInt32) (fits : start + 4 ≤ s.size) :
    (s.write32 start w).read32 start = w := by
  have bytes := read_write s start (bytesOf 4 w.toNat) (by simpa using fits)
  rw [bytesOf_length] at bytes
  rw [read32, write32, bytes, ofBytes_half]

theorem get_write32_apart (s : ByteStore) (start i : Nat) (w : UInt32)
    (apart : i < start ∨ start + 4 ≤ i) : (s.write32 start w).get i = s.get i :=
  get_write_apart s start _ i (by simpa using apart)

theorem read32_write32_apart (s : ByteStore) (start other : Nat) (w : UInt32)
    (apart : other + 4 ≤ start ∨ start + 4 ≤ other) :
    (s.write32 start w).read32 other = s.read32 other := by
  rw [read32, read32, read_congr _ s other 4 fun i _ _ => get_write32_apart s start i w (by omega)]

theorem read32_toNat (s : ByteStore) (start : Nat) :
    (s.read32 start).toNat = (s.read64 start).toNat % 2 ^ 32 := by
  have bytes : s.read start 8 = s.read start 4 ++ s.read (start + 4) 4 := by
    simp [read, List.range_succ, Nat.add_assoc]
  have length : (s.read start 4).length = 4 := by simp [read]
  rw [read32, read64, bytes, ofBytes_append, length, UInt32.toNat_ofNat', UInt64.toNat_ofNat']
  omega

end ByteStore

end FabricQueue
