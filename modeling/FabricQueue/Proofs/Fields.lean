import FabricQueue.Proofs.Bytes
import FabricQueue.Proofs.Records
import Mathlib.Data.Nat.Bitwise
import Mathlib.Data.List.Basic
import Mathlib.Tactic.SplitIfs

set_option autoImplicit false

namespace FabricQueue

structure Span where
  low : Nat
  width : Nat
  deriving DecidableEq

namespace Span

def covers (s : Span) (i : Nat) : Bool :=
  s.low ≤ i && i < s.low + s.width

def read (s : Span) (word : Nat) : Nat :=
  word >>> s.low % 2 ^ s.width

-- The second span ends below the first.
def Above (s s' : Span) : Prop :=
  s'.low + s'.width ≤ s.low

instance (s s' : Span) : Decidable (s.Above s') :=
  inferInstanceAs (Decidable (_ ≤ _))

theorem testBit_read (s : Span) (word i : Nat) :
    (s.covers i && (s.read word).testBit (i - s.low)) = (s.covers i && word.testBit i) := by
  by_cases inside : s.covers i
  · have bounds : s.low ≤ i ∧ i < s.low + s.width := by simpa [covers] using inside
    have short : i - s.low < s.width := by omega
    rw [read, Nat.testBit_mod_two_pow, Nat.testBit_shiftRight, Nat.add_sub_cancel' bounds.1,
      decide_eq_true short, Bool.true_and]
  · simp only [Bool.not_eq_true] at inside
    rw [inside, Bool.false_and, Bool.false_and]

theorem read_congr (s : Span) {word word' : Nat}
    (same : ∀ i, s.covers i = true → word.testBit i = word'.testBit i) :
    s.read word = s.read word' := by
  apply Nat.eq_of_testBit_eq
  intro i
  simp only [read, Nat.testBit_mod_two_pow, Nat.testBit_shiftRight]
  by_cases short : i < s.width
  · rw [same (s.low + i) (by simp [covers, short])]
  · simp [short]

end Span

-- A number in a span of a word.
structure Field extends Span where
  value : Nat
  fits : value < 2 ^ width

namespace Field

def nibble (low : Nat) (b : UInt8) : Field :=
  ⟨⟨low, 4⟩, b.toNat % 16, Nat.mod_lt _ (by decide)⟩

def byte (low : Nat) (b : UInt8) : Field :=
  ⟨⟨low, 8⟩, b.toNat, b.toNat_lt⟩

def half (low : Nat) (h : UInt16) : Field :=
  ⟨⟨low, 16⟩, h.toNat, h.toNat_lt⟩

def word (low : Nat) (w : UInt32) : Field :=
  ⟨⟨low, 32⟩, w.toNat, w.toNat_lt⟩

def long (w : UInt64) : Field :=
  ⟨⟨0, 64⟩, w.toNat, w.toNat_lt⟩

def ofSpan (word : Nat) (s : Span) : Field :=
  ⟨s, s.read word, Nat.mod_lt _ (Nat.two_pow_pos _)⟩

def bit (f : Field) (i : Nat) : Bool :=
  f.covers i && f.value.testBit (i - f.low)

def Above (f g : Field) : Prop :=
  f.toSpan.Above g.toSpan

def pack (fields : List Field) : Nat :=
  (fields.map fun f => f.value <<< f.low).sum

theorem pack_cons (f : Field) (fields : List Field) :
    pack (f :: fields) = 2 ^ f.low * f.value + pack fields := by
  rw [pack, List.map_cons, List.sum_cons, Nat.shiftLeft_eq, Nat.mul_comm]
  rfl

variable {fields : List Field}

theorem pack_lt (apart : fields.Pairwise Above) {size : Nat}
    (within : ∀ f ∈ fields, f.low + f.width ≤ size) : pack fields < 2 ^ size := by
  induction fields generalizing size with
  | nil => exact Nat.two_pow_pos _
  | cons f rest ih =>
    obtain ⟨above, apart⟩ := List.pairwise_cons.mp apart
    have below : pack rest < 2 ^ f.low := ih apart above
    have top : 2 ^ (f.low + f.width) ≤ 2 ^ size :=
      Nat.pow_le_pow_right (by decide) (within f List.mem_cons_self)
    have fits : 2 ^ f.low * (f.value + 1) ≤ 2 ^ f.low * 2 ^ f.width :=
      Nat.mul_le_mul_left _ f.fits
    rw [Nat.mul_add, Nat.mul_one, ← Nat.pow_add] at fits
    rw [pack_cons]
    omega

theorem testBit_pack (apart : fields.Pairwise Above) (i : Nat) :
    (pack fields).testBit i = fields.any (·.bit i) := by
  induction fields with
  | nil => exact Nat.zero_testBit i
  | cons f rest ih =>
    obtain ⟨above, apart⟩ := List.pairwise_cons.mp apart
    rw [pack_cons, Nat.testBit_two_pow_mul_add _ (pack_lt apart above), List.any_cons, ih apart]
    by_cases low : i < f.low
    · have outside : f.bit i = false := by
        simp only [bit, Span.covers, Bool.and_eq_false_imp, Bool.and_eq_true, decide_eq_true_eq]
        omega
      rw [if_pos low, outside, Bool.false_or]
    · have none : rest.any (·.bit i) = false := by
        rw [List.any_eq_false]
        intro g member
        have ends : g.low + g.width ≤ f.low := above g member
        simp only [bit, Span.covers, Bool.and_eq_true, decide_eq_true_eq]
        omega
      rw [if_neg low, none, Bool.or_false, bit]
      by_cases high : i < f.low + f.width
      · have inside : f.covers i = true := by simp [Span.covers, high, Nat.le_of_not_lt low]
        rw [inside, Bool.true_and]
      · have outside : f.covers i = false := by simp [Span.covers, high]
        rw [outside, Bool.false_and]
        apply Nat.testBit_lt_two_pow
        exact Nat.lt_of_lt_of_le f.fits (Nat.pow_le_pow_right (by decide) (by omega))

theorem read_pack (apart : fields.Pairwise Above) {f : Field} (member : f ∈ fields) :
    f.read (pack fields) = f.value := by
  induction fields with
  | nil => cases member
  | cons g rest ih =>
    obtain ⟨above, apart⟩ := List.pairwise_cons.mp apart
    have below : pack rest < 2 ^ g.low := pack_lt apart above
    rw [pack_cons]
    rcases List.mem_cons.mp member with rfl | later
    · rw [Span.read, Nat.shiftRight_eq_div_pow, Nat.mul_add_div (Nat.two_pow_pos _),
        Nat.div_eq_of_lt below, Nat.add_zero, Nat.mod_eq_of_lt f.fits]
    · rw [← ih apart later]
      apply Span.read_congr
      intro i covered
      have ends : f.low + f.width ≤ g.low := above f later
      simp only [Span.covers, Bool.and_eq_true, decide_eq_true_eq] at covered
      rw [Nat.testBit_two_pow_mul_add _ below, if_pos (by omega)]

end Field

def Record.argument (r : Record) : Fin 4 → UInt64
  | 0 => r.arg0
  | 1 => r.arg1
  | 2 => r.arg2
  | 3 => r.arg3

namespace TypeCode

def spans (code : UInt16) (n : Fin 4) : List Span :=
  if code = herdInit then
    match n with
    | 0 => [⟨48, 8⟩, ⟨40, 8⟩, ⟨32, 8⟩, ⟨24, 8⟩, ⟨16, 8⟩]
    | 1 => [⟨0, 16⟩]
    | _ => []
  else if code = deviceInit then
    match n with
    | 0 => [⟨0, 8⟩]
    | _ => []
  else if code = transfer then
    match n with
    | 0 => [⟨60, 4⟩, ⟨52, 4⟩, ⟨32, 8⟩, ⟨24, 8⟩, ⟨16, 8⟩, ⟨0, 16⟩]
    | 1 => [⟨0, 64⟩]
    | 2 => [⟨48, 16⟩, ⟨32, 16⟩, ⟨0, 32⟩]
    | 3 => [⟨48, 16⟩, ⟨32, 16⟩, ⟨16, 16⟩, ⟨0, 16⟩]
  else []

theorem spans_apart (code : UInt16) (n : Fin 4) : (spans code n).Pairwise Span.Above := by
  unfold spans
  split_ifs <;> revert n <;> decide

theorem spans_within (code : UInt16) (n : Fin 4) : ∀ s ∈ spans code n, s.low + s.width ≤ 64 := by
  unfold spans
  split_ifs <;> revert n <;> decide

def uses (code : UInt16) (n : Fin 4) (i : Nat) : Bool :=
  (spans code n).any (·.covers i)

end TypeCode

namespace Direction

variable {code : UInt8}

theorem code_of_some {direction : Direction} (known : ofCode? code = some direction) :
    code = direction.code := by
  unfold ofCode? at known
  split_ifs at known with zero one
  · cases known
    exact zero
  · cases known
    exact one

theorem above_of_none (unknown : ofCode? code = none) : 1 < code := by
  unfold ofCode? at unknown
  split_ifs at unknown with zero one
  have nonzero : code.toNat ≠ 0 := fun same => zero (UInt8.toNat_inj.mp same)
  have other : code.toNat ≠ 1 := fun same => one (UInt8.toNat_inj.mp same)
  rw [UInt8.lt_iff_toNat_lt]
  change 1 < code.toNat
  omega

end Direction

namespace Command

-- What a command puts into an argument word.
def fields : Command → Fin 4 → List Field
  | herdInit h, 0 =>
    [.byte 48 absoluteRange, .byte 40 h.columns, .byte 32 h.startColumn, .byte 24 h.rows,
      .byte 16 h.startRow]
  | herdInit h, 1 => [.half 0 h.id]
  | deviceInit columns, 0 => [.byte 0 columns]
  | transfer t, 0 =>
    [.nibble 60 t.direction.code, .nibble 52 t.burst, .byte 32 t.column, .byte 24 t.channel,
      .byte 16 t.space, .half 0 t.herd]
  | transfer t, 1 => [.long t.address]
  | transfer t, 2 => [.half 48 t.inner.stride, .half 32 t.inner.count, .word 0 t.run]
  | transfer t, 3 =>
    [.half 48 t.outer.stride, .half 32 t.outer.count, .half 16 t.middle.stride,
      .half 0 t.middle.count]
  | _, _ => []

theorem fields_spans (c : Command) (n : Fin 4) :
    (c.fields n).map (·.toSpan) = TypeCode.spans c.typeCode n := by
  cases c <;> match n with | 0 => rfl | 1 => rfl | 2 => rfl | 3 => rfl

theorem fields_apart (c : Command) (n : Fin 4) : (c.fields n).Pairwise Field.Above := by
  have apart := TypeCode.spans_apart c.typeCode n
  rw [← fields_spans, List.pairwise_map] at apart
  exact apart

theorem fields_within (c : Command) (n : Fin 4) : ∀ f ∈ c.fields n, f.low + f.width ≤ 64 := by
  intro f member
  apply TypeCode.spans_within c.typeCode n f.toSpan
  rw [← fields_spans]
  exact List.mem_map_of_mem member

theorem encode_argument (c : Command) (n : Fin 4) :
    (c.encode.argument n).toNat = Field.pack (c.fields n) := by
  have word : c.encode.argument n = UInt64.ofNat (Field.pack (c.fields n)) := by
    cases c with
    | herdInit h =>
      match n with
      | 0 => simp [encode, fields, Record.argument, Field.pack, Field.byte, Nat.add_assoc]
      | 1 => simp [encode, fields, Record.argument, Field.pack, Field.half]
      | 2 => rfl
      | 3 => rfl
    | deviceInit columns =>
      match n with
      | 0 => simp [encode, fields, Record.argument, Field.pack, Field.byte]
      | 1 => rfl
      | 2 => rfl
      | 3 => rfl
    | transfer t =>
      match n with
      | 0 =>
        have code : t.direction.code.toNat % 16 = t.direction.code.toNat := by
          cases t.direction <;> rfl
        simp [encode, fields, Record.argument, Field.pack, Field.nibble, Field.byte, Field.half,
          code, Nat.add_assoc]
      | 1 => simp [encode, fields, Record.argument, Field.pack, Field.long]
      | 2 => simp [encode, fields, Record.argument, Field.pack, Field.half, Field.word, Nat.add_assoc]
      | 3 => simp [encode, fields, Record.argument, Field.pack, Field.half, Nat.add_assoc]
  rw [word]
  exact UInt64.toNat_ofNat_of_lt' (Field.pack_lt (c.fields_apart n) (c.fields_within n))

theorem testBit_encode (c : Command) (n : Fin 4) (i : Nat) :
    (c.encode.argument n).toNat.testBit i = (c.fields n).any (·.bit i) := by
  rw [encode_argument, Field.testBit_pack (c.fields_apart n)]

theorem byteAt_encode (c : Command) (n : Fin 4) {low : Nat} {b : UInt8}
    (member : .byte low b ∈ c.fields n) : byteAt (c.encode.argument n) low = b := by
  apply UInt8.toNat_inj.mp
  rw [byteAt, UInt8.toNat_ofNat', encode_argument]
  exact Field.read_pack (c.fields_apart n) member

theorem halfAt_encode (c : Command) (n : Fin 4) {low : Nat} {h : UInt16}
    (member : .half low h ∈ c.fields n) : halfAt (c.encode.argument n) low = h := by
  apply UInt16.toNat_inj.mp
  rw [halfAt, UInt16.toNat_ofNat', encode_argument]
  exact Field.read_pack (c.fields_apart n) member

-- What the consumer takes a command for.
def received : Command → Command
  | transfer t => transfer t.received
  | c => c

theorem decode_encode (c : Command) : decode c.encode = .ok c.received := by
  cases c with
  | herdInit h =>
    have place {low : Nat} {b : UInt8} (member : .byte low b ∈ fields (.herdInit h) 0) :
        byteAt (encode (.herdInit h)).arg0 low = b := byteAt_encode (.herdInit h) 0 member
    have range : byteAt (encode (.herdInit h)).arg0 48 = absoluteRange := place (by simp [fields])
    have columns : byteAt (encode (.herdInit h)).arg0 40 = h.columns := place (by simp [fields])
    have column : byteAt (encode (.herdInit h)).arg0 32 = h.startColumn := place (by simp [fields])
    have rows : byteAt (encode (.herdInit h)).arg0 24 = h.rows := place (by simp [fields])
    have row : byteAt (encode (.herdInit h)).arg0 16 = h.startRow := place (by simp [fields])
    have id : halfAt (encode (.herdInit h)).arg1 0 = h.id :=
      halfAt_encode (.herdInit h) 1 List.mem_cons_self
    have kind : (encode (.herdInit h)).kind = TypeCode.herdInit := rfl
    rw [decode, if_pos kind]
    simp only [range, columns, column, rows, row, id, if_true, received]
  | deviceInit columns =>
    have place : byteAt (encode (.deviceInit columns)).arg0 0 = columns :=
      byteAt_encode (.deviceInit columns) 0 List.mem_cons_self
    have kind : (encode (.deviceInit columns)).kind = TypeCode.deviceInit := rfl
    rw [decode, if_neg (by rw [kind]; decide), if_pos kind, place]
    rfl
  | transfer t => exact decode_transfer t

-- Bursts of up to fifteen keep all their bits.
def Narrow : Command → Prop
  | transfer t => t.burst < 16
  | _ => True

theorem Narrow.received {c : Command} (narrow : c.Narrow) : c.received = c := by
  cases c with
  | transfer t =>
    have burst : t.burst % 16 = t.burst := by
      have below := UInt8.lt_iff_toNat_lt.mp narrow
      apply UInt8.toNat_inj.mp
      rw [UInt8.toNat_mod]
      exact Nat.mod_eq_of_lt below
    rw [Command.received, Transfer.received, burst]
  | _ => rfl

end Command

namespace Record

theorem ofBytes_words (words : List UInt64) {k : Nat} (below : k < words.length) :
    ((words.flatMap fun w => bytesOf 8 w.toNat).drop (8 * k)).take 8 = bytesOf 8 words[k].toNat := by
  induction words generalizing k with
  | nil => exact absurd below (Nat.not_lt_zero _)
  | cons w rest ih =>
    have length := bytesOf_length 8 w.toNat
    rw [List.flatMap_cons]
    cases k with
    | zero => rw [Nat.mul_zero, List.drop_zero, List.take_left' length, List.getElem_cons_zero]
    | succ k =>
      have skip : 8 * (k + 1) = (bytesOf 8 w.toNat).length + 8 * k := by omega
      rw [skip, List.drop_length_add_append, ih (Nat.lt_of_succ_lt_succ below), List.getElem_cons_succ]

theorem ofBytes_toBytes (r : Record) : ofBytes r.toBytes = r := by
  have words : (Vector.ofFn fun (i : Fin 8) =>
      UInt64.ofNat (FabricQueue.ofBytes ((r.toBytes.drop (8 * i.val)).take 8))) = r.toWords := by
    apply Vector.ext
    intro k below
    rw [Vector.getElem_ofFn, toBytes, ofBytes_words _ (by simp; exact below), ofBytes_word]
    simp
  rw [ofBytes, words, ofWords_toWords]

end Record

namespace Command

-- A command survives each form its record may take, and no bit of a word is a matter of two fields.
theorem encode_faithful (c : Command) :
    (∀ r ∈ [c.encode, c.encode.activated], decode r = .ok c.received ∧
      decode (Record.ofWords r.toWords) = .ok c.received ∧
      decode (Record.ofBytes r.toBytes) = .ok c.received) ∧
    (∀ c' : Command, c.Narrow → c'.Narrow → c.encode = c'.encode → c = c') ∧
    ∀ n, (c.fields n).Pairwise Field.Above ∧
      ∀ i, (c.encode.argument n).toNat.testBit i = (c.fields n).any (·.bit i) := by
  refine ⟨fun r member => ?_, fun c' narrow narrow' same => ?_, fun n => ⟨c.fields_apart n, ?_⟩⟩
  · have decoded : decode r = .ok c.received := by
      rcases List.mem_pair.mp member with rfl | rfl
      · exact decode_encode c
      · exact (decode_activated c.encode).trans (decode_encode c)
    rw [Record.ofWords_toWords, Record.ofBytes_toBytes]
    exact ⟨decoded, decoded, decoded⟩
  · have decoded := decode_encode c
    rw [same, decode_encode c', narrow.received, narrow'.received] at decoded
    exact (Except.ok.inj decoded).symm
  · exact c.testBit_encode n

def sampleClean : Transfer where
  herd := 0
  column := 0
  channel := 0
  direction := .hostToDevice
  address := 0x1000
  run := 64
  inner := ⟨0, 0⟩
  middle := ⟨0, 0⟩
  outer := ⟨0, 0⟩

-- A burst of twenty comes back as four, and a narrow command shares its record with no other.
theorem encode_faithful_sample :
    decode (Record.ofBytes (encode (.transfer { sampleClean with burst := 20 })).activated.toBytes) =
      .ok (.transfer sampleClean) ∧
    Narrow (.transfer sampleClean) ∧ Narrow (.transfer { sampleClean with herd := 1 }) ∧
    encode (.transfer sampleClean) ≠ encode (.transfer { sampleClean with herd := 1 }) := by
  have burst : sampleClean.burst < 16 := by decide
  have narrow : Narrow (.transfer sampleClean) := burst
  have narrow' : Narrow (.transfer { sampleClean with herd := 1 }) := burst
  obtain ⟨survives, _, _⟩ := encode_faithful (.transfer { sampleClean with burst := 20 })
  obtain ⟨_, injective, _⟩ := encode_faithful (.transfer sampleClean)
  obtain ⟨_, _, bytes⟩ := survives _ (List.mem_pair.mpr (.inr rfl))
  refine ⟨bytes, narrow, narrow', fun same => ?_⟩
  exact absurd (injective _ narrow narrow' same) (by decide)

theorem byte_ofSpan (word : UInt64) (low : Nat) :
    Field.byte low (byteAt word low) = .ofSpan word.toNat ⟨low, 8⟩ := by
  simp only [Field.byte, Field.ofSpan, byteAt, UInt8.toNat_ofNat', Span.read]

theorem half_ofSpan (word : UInt64) (low : Nat) :
    Field.half low (halfAt word low) = .ofSpan word.toNat ⟨low, 16⟩ := by
  simp only [Field.half, Field.ofSpan, halfAt, UInt16.toNat_ofNat', Span.read]

theorem code_ofSpan (word : UInt64) :
    Field.nibble 60 (byteAt word 60) = .ofSpan word.toNat ⟨60, 4⟩ := by
  have narrow : word.toNat >>> 60 % 2 ^ 8 % 16 = word.toNat >>> 60 % 2 ^ 4 := by omega
  simp only [Field.nibble, Field.ofSpan, byteAt, UInt8.toNat_ofNat', Span.read, narrow]

theorem nibble_ofSpan (word : UInt64) (low : Nat) :
    Field.nibble low (UInt8.ofNat ((word.toNat >>> low) % 16)) = .ofSpan word.toNat ⟨low, 4⟩ := by
  have narrow : word.toNat >>> low % 16 % 2 ^ 8 % 16 = word.toNat >>> low % 2 ^ 4 := by omega
  simp only [Field.nibble, Field.ofSpan, UInt8.toNat_ofNat', Span.read, narrow]

theorem word_ofSpan (word : UInt64) :
    Field.word 0 (UInt32.ofNat word.toNat) = .ofSpan word.toNat ⟨0, 32⟩ := by
  simp only [Field.word, Field.ofSpan, UInt32.toNat_ofNat', Span.read, Nat.shiftRight_zero]

theorem long_ofSpan (word : UInt64) : Field.long word = .ofSpan word.toNat ⟨0, 64⟩ := by
  simp only [Field.long, Field.ofSpan, Span.read, Nat.shiftRight_zero,
    Nat.mod_eq_of_lt word.toNat_lt]

inductive Decoded (r : Record) : Except DecodeError Command → Prop where
  | herd (kind : r.kind = TypeCode.herdInit) (range : byteAt r.arg0 48 = absoluteRange) :
      Decoded r (.ok (.herdInit
        { id := halfAt r.arg1 0, startColumn := byteAt r.arg0 32, columns := byteAt r.arg0 40
          startRow := byteAt r.arg0 16, rows := byteAt r.arg0 24 }))
  | range (kind : r.kind = TypeCode.herdInit) (other : byteAt r.arg0 48 ≠ absoluteRange) :
      Decoded r (.error (.unsupportedRange (byteAt r.arg0 48)))
  | device (kind : r.kind = TypeCode.deviceInit) :
      Decoded r (.ok (.deviceInit (byteAt r.arg0 0)))
  | transfer (kind : r.kind = TypeCode.transfer) {direction : Direction}
      (code : byteAt r.arg0 60 = direction.code) :
      Decoded r (.ok (.transfer
        { herd := halfAt r.arg0 0, column := byteAt r.arg0 32, channel := byteAt r.arg0 24
          direction, burst := UInt8.ofNat ((r.arg0.toNat >>> 52) % 16), space := byteAt r.arg0 16
          address := r.arg1, run := UInt32.ofNat r.arg2.toNat
          inner := ⟨halfAt r.arg2 32, halfAt r.arg2 48⟩
          middle := ⟨halfAt r.arg3 0, halfAt r.arg3 16⟩
          outer := ⟨halfAt r.arg3 32, halfAt r.arg3 48⟩ }))
  | direction (kind : r.kind = TypeCode.transfer) (above : 1 < byteAt r.arg0 60) :
      Decoded r (.error (.invalidDirection (byteAt r.arg0 60)))
  | unknown (other : r.kind ≠ TypeCode.deviceInit ∧ r.kind ≠ TypeCode.herdInit ∧
      r.kind ≠ TypeCode.transfer) : Decoded r (.error (.unknownType r.kind))

theorem decode_decoded (r : Record) : Decoded r (decode r) := by
  unfold decode
  split_ifs with herd device transfer
  · simp only
    split_ifs with range
    · exact .herd herd range
    · exact .range herd range
  · exact .device device
  · simp only
    split
    next unknown => exact .direction transfer (Direction.above_of_none unknown)
    next direction known => exact .transfer transfer (Direction.code_of_some known)
  · exact .unknown ⟨device, herd, transfer⟩

theorem Decoded.fields_eq {r : Record} {c : Command} (decoded : Decoded r (.ok c)) :
    c.typeCode = r.kind ∧
      ∀ n, c.fields n = (TypeCode.spans r.kind n).map (Field.ofSpan (r.argument n).toNat) := by
  cases decoded with
  | herd kind range =>
    refine ⟨kind.symm, fun n => ?_⟩
    rw [kind]
    match n with
    | 0 =>
      simp only [fields, ← range, byte_ofSpan]
      rfl
    | 1 => exact congrArg ([·]) (half_ofSpan _ _)
    | 2 => rfl
    | 3 => rfl
  | device kind =>
    refine ⟨kind.symm, fun n => ?_⟩
    rw [kind]
    match n with
    | 0 => exact congrArg ([·]) (byte_ofSpan _ _)
    | 1 => rfl
    | 2 => rfl
    | 3 => rfl
  | transfer kind code =>
    refine ⟨kind.symm, fun n => ?_⟩
    rw [kind]
    match n with
    | 0 =>
      simp only [fields, ← code, byte_ofSpan, half_ofSpan, nibble_ofSpan, code_ofSpan]
      rfl
    | 1 => exact congrArg ([·]) (long_ofSpan _)
    | 2 =>
      simp only [fields, half_ofSpan, word_ofSpan]
      rfl
    | 3 =>
      simp only [fields, half_ofSpan]
      rfl

theorem Decoded.testBit_encode {r : Record} {c : Command} (decoded : Decoded r (.ok c)) (n : Fin 4)
    (i : Nat) : (c.encode.argument n).toNat.testBit i =
      (TypeCode.uses r.kind n i && (r.argument n).toNat.testBit i) := by
  rw [Command.testBit_encode, decoded.fields_eq.2 n, TypeCode.uses]
  generalize TypeCode.spans r.kind n = spans
  induction spans with
  | nil => rfl
  | cons s rest ih =>
    rw [List.map_cons, List.any_cons, List.any_cons, ih, Bool.and_or_distrib_right]
    exact congrArg (· || _) (s.testBit_read _ i)

theorem Decoded.received {r : Record} {c : Command} (decoded : Decoded r (.ok c)) :
    c.received = c := by
  cases decoded with
  | herd => rfl
  | device => rfl
  | transfer kind code =>
    apply Narrow.received
    rw [Narrow, UInt8.lt_iff_toNat_lt, UInt8.toNat_ofNat']
    change _ < 16
    omega

-- Two records of one type that agree on the bits in use.
def Agree (r r' : Record) : Prop :=
  r'.kind = r.kind ∧ ∀ n i, TypeCode.uses r.kind n i = true →
    (r'.argument n).toNat.testBit i = (r.argument n).toNat.testBit i

section Agree

variable {r r' : Record} (agree : Agree r r') (n : Fin 4) {low : Nat}

include agree

theorem Agree.read_eq {s : Span} (member : s ∈ TypeCode.spans r.kind n) :
    s.read (r'.argument n).toNat = s.read (r.argument n).toNat :=
  s.read_congr fun i covered => agree.2 n i (List.any_eq_true.mpr ⟨s, member, covered⟩)

theorem Agree.byteAt_eq (member : ⟨low, 8⟩ ∈ TypeCode.spans r.kind n) :
    byteAt (r'.argument n) low = byteAt (r.argument n) low := by
  apply UInt8.toNat_inj.mp
  rw [byteAt, byteAt, UInt8.toNat_ofNat', UInt8.toNat_ofNat']
  exact agree.read_eq n member

theorem Agree.halfAt_eq (member : ⟨low, 16⟩ ∈ TypeCode.spans r.kind n) :
    halfAt (r'.argument n) low = halfAt (r.argument n) low := by
  apply UInt16.toNat_inj.mp
  rw [halfAt, halfAt, UInt16.toNat_ofNat', UInt16.toNat_ofNat']
  exact agree.read_eq n member

theorem Agree.nibble_eq (member : ⟨low, 4⟩ ∈ TypeCode.spans r.kind n) :
    (r'.argument n).toNat >>> low % 16 = (r.argument n).toNat >>> low % 16 :=
  agree.read_eq n member

theorem Agree.code_eq (member : ⟨60, 4⟩ ∈ TypeCode.spans r.kind n) :
    byteAt (r'.argument n) 60 = byteAt (r.argument n) 60 := by
  have bound := (r.argument n).toNat_lt
  have bound' := (r'.argument n).toNat_lt
  have same := agree.nibble_eq n member
  simp only [Nat.shiftRight_eq_div_pow] at same
  rw [byteAt, byteAt, Nat.shiftRight_eq_div_pow, Nat.shiftRight_eq_div_pow]
  exact congrArg UInt8.ofNat (by omega)

theorem Agree.decode_eq : decode r' = decode r := by
  unfold decode
  rw [agree.1]
  split_ifs with herd device transfer
  · have member {n : Fin 4} {s : Span} (among : s ∈ TypeCode.spans TypeCode.herdInit n) :
        s ∈ TypeCode.spans r.kind n := herd ▸ among
    have range : byteAt r'.arg0 48 = byteAt r.arg0 48 := agree.byteAt_eq 0 (member (by decide))
    have columns : byteAt r'.arg0 40 = byteAt r.arg0 40 := agree.byteAt_eq 0 (member (by decide))
    have column : byteAt r'.arg0 32 = byteAt r.arg0 32 := agree.byteAt_eq 0 (member (by decide))
    have rows : byteAt r'.arg0 24 = byteAt r.arg0 24 := agree.byteAt_eq 0 (member (by decide))
    have row : byteAt r'.arg0 16 = byteAt r.arg0 16 := agree.byteAt_eq 0 (member (by decide))
    have id : halfAt r'.arg1 0 = halfAt r.arg1 0 := agree.halfAt_eq 1 (member (by decide))
    simp only [range, columns, column, rows, row, id]
  · have columns : byteAt r'.arg0 0 = byteAt r.arg0 0 :=
      agree.byteAt_eq 0 (device ▸ (by decide : _ ∈ TypeCode.spans TypeCode.deviceInit 0))
    rw [columns]
  · have member {n : Fin 4} {s : Span} (among : s ∈ TypeCode.spans TypeCode.transfer n) :
        s ∈ TypeCode.spans r.kind n := transfer ▸ among
    have code : byteAt r'.arg0 60 = byteAt r.arg0 60 := agree.code_eq 0 (member (by decide))
    have burst : r'.arg0.toNat >>> 52 % 16 = r.arg0.toNat >>> 52 % 16 :=
      agree.nibble_eq 0 (member (by decide))
    have column : byteAt r'.arg0 32 = byteAt r.arg0 32 := agree.byteAt_eq 0 (member (by decide))
    have channel : byteAt r'.arg0 24 = byteAt r.arg0 24 := agree.byteAt_eq 0 (member (by decide))
    have space : byteAt r'.arg0 16 = byteAt r.arg0 16 := agree.byteAt_eq 0 (member (by decide))
    have herd : halfAt r'.arg0 0 = halfAt r.arg0 0 := agree.halfAt_eq 0 (member (by decide))
    -- The other three words are in use to the last bit.
    have word (n : Fin 4) (all : ∀ i < 64, TypeCode.uses TypeCode.transfer n i = true) :
        r'.argument n = r.argument n := by
      apply UInt64.toNat_inj.mp
      apply Nat.eq_of_testBit_eq
      intro i
      by_cases below : i < 64
      · exact agree.2 n i (transfer ▸ all i below)
      · have wide : 2 ^ 64 ≤ 2 ^ i := Nat.pow_le_pow_right (by decide) (Nat.le_of_not_lt below)
        rw [Nat.testBit_lt_two_pow (Nat.lt_of_lt_of_le (r'.argument n).toNat_lt wide),
          Nat.testBit_lt_two_pow (Nat.lt_of_lt_of_le (r.argument n).toNat_lt wide)]
    have address : r'.arg1 = r.arg1 := word 1 (by decide)
    have inner : r'.arg2 = r.arg2 := word 2 (by decide)
    have outer : r'.arg3 = r.arg3 := word 3 (by decide)
    simp only [code, burst, column, channel, space, herd, address, inner, outer]
  · rfl

end Agree

theorem encode_eq (c : Command) : c.encode =
    { header := Header.pending, kind := c.typeCode, signal := signalPending
      arg0 := c.encode.arg0, arg1 := c.encode.arg1, arg2 := c.encode.arg2, arg3 := c.encode.arg3 } := by
  cases c <;> rfl

-- All that encoding leaves out is zero, and the header and the signal are those of a new packet.
structure Canonical (r : Record) : Prop where
  header : r.header = Header.pending
  signal : r.signal = signalPending
  reserved0 : r.reserved0 = 0
  returnAddress : r.returnAddress = 0
  reserved1 : r.reserved1 = 0
  unused : ∀ n i, TypeCode.uses r.kind n i = false → (r.argument n).toNat.testBit i = false

theorem Decoded.encode_eq_iff {r : Record} {c : Command} (decoded : Decoded r (.ok c)) :
    c.encode = r ↔ Canonical r := by
  have shape := encode_eq c
  refine ⟨fun same => ?_, fun canonical => ?_⟩
  · rw [same] at shape
    refine ⟨congrArg Record.header shape, congrArg Record.signal shape,
      congrArg Record.reserved0 shape, congrArg Record.returnAddress shape,
      congrArg Record.reserved1 shape, fun n i free => ?_⟩
    have bit := decoded.testBit_encode n i
    rwa [same, free, Bool.false_and] at bit
  · have word (n : Fin 4) : c.encode.argument n = r.argument n := by
      apply UInt64.toNat_inj.mp
      apply Nat.eq_of_testBit_eq
      intro i
      rw [decoded.testBit_encode n i]
      cases used : TypeCode.uses r.kind n i with
      | true => exact Bool.true_and _
      | false => rw [canonical.unused n i used, Bool.and_false]
    have first : c.encode.arg0 = r.arg0 := word 0
    have second : c.encode.arg1 = r.arg1 := word 1
    have third : c.encode.arg2 = r.arg2 := word 2
    have fourth : c.encode.arg3 = r.arg3 := word 3
    rw [shape, first, second, third, fourth, decoded.fields_eq.1, ← canonical.header,
      ← canonical.signal]
    obtain ⟨header, kind, reserved0, returnAddress, _, _, _, _, reserved1, signal⟩ := r
    obtain ⟨_, _, rfl, rfl, rfl, _⟩ := canonical
    rfl

theorem decode_unknown_iff (r : Record) (code : UInt16) :
    decode r = .error (.unknownType code) ↔ code = r.kind ∧ r.kind ≠ TypeCode.deviceInit ∧
      r.kind ≠ TypeCode.herdInit ∧ r.kind ≠ TypeCode.transfer := by
  have decoded := decode_decoded r
  refine ⟨fun refused => ?_, fun ⟨same, device, herd, copy⟩ => ?_⟩
  · rw [refused] at decoded
    cases decoded with
    | unknown other => exact ⟨rfl, other⟩
  · rw [decode, if_neg herd, if_neg device, if_neg copy, same]

theorem code_toNat (r : Record) : (byteAt r.arg0 60).toNat = r.arg0.toNat / 2 ^ 60 := by
  have bound := r.arg0.toNat_lt
  rw [byteAt, UInt8.toNat_ofNat', Nat.shiftRight_eq_div_pow]
  omega

theorem range_toNat (r : Record) : (byteAt r.arg0 48).toNat = r.arg0.toNat / 2 ^ 48 % 256 := by
  rw [byteAt, UInt8.toNat_ofNat', Nat.shiftRight_eq_div_pow]

theorem decode_direction_iff (r : Record) (code : UInt8) :
    decode r = .error (.invalidDirection code) ↔
      r.kind = TypeCode.transfer ∧ code.toNat = r.arg0.toNat / 2 ^ 60 ∧ 1 < code := by
  have decoded := decode_decoded r
  refine ⟨fun refused => ?_, fun ⟨kind, same, above⟩ => ?_⟩
  · rw [refused] at decoded
    cases decoded with
    | direction kind above => exact ⟨kind, code_toNat r, above⟩
  · obtain rfl : code = byteAt r.arg0 60 := UInt8.toNat_inj.mp (same.trans (code_toNat r).symm)
    generalize decode r = result at decoded ⊢
    cases decoded with
    | direction => rfl
    | @transfer kind' direction code =>
      rw [code] at above
      cases direction <;> exact absurd above (by decide)
    | herd other | range other | device other =>
      rw [kind] at other
      exact absurd other (by decide)
    | unknown other => exact absurd kind other.2.2

theorem decode_range_iff (r : Record) (code : UInt8) :
    decode r = .error (.unsupportedRange code) ↔ r.kind = TypeCode.herdInit ∧
      code.toNat = r.arg0.toNat / 2 ^ 48 % 256 ∧ code ≠ absoluteRange := by
  have decoded := decode_decoded r
  refine ⟨fun refused => ?_, fun ⟨kind, same, other⟩ => ?_⟩
  · rw [refused] at decoded
    cases decoded with
    | range kind other => exact ⟨kind, range_toNat r, other⟩
  · obtain rfl : code = byteAt r.arg0 48 := UInt8.toNat_inj.mp (same.trans (range_toNat r).symm)
    rw [decode, if_pos kind, if_neg other]

theorem decode_ok_iff (r : Record) :
    (∃ c, decode r = .ok c) ↔ r.kind = TypeCode.deviceInit ∨
      r.kind = TypeCode.herdInit ∧ r.arg0.toNat / 2 ^ 48 % 256 = absoluteRange.toNat ∨
        r.kind = TypeCode.transfer ∧ r.arg0.toNat / 2 ^ 60 ≤ 1 := by
  have decoded := decode_decoded r
  rw [← range_toNat, UInt8.toNat_inj, ← code_toNat]
  refine ⟨fun ⟨c, accepted⟩ => ?_, fun admissible => ?_⟩
  · rw [accepted] at decoded
    cases decoded with
    | herd kind range => exact .inr (.inl ⟨kind, range⟩)
    | device kind => exact .inl kind
    | @transfer kind direction code =>
      refine .inr (.inr ⟨kind, ?_⟩)
      rw [code]
      cases direction <;> decide
  · cases result : decode r with
    | ok c => exact ⟨c, rfl⟩
    | error refusal =>
      rw [result] at decoded
      cases decoded with
      | range kind other =>
        rcases admissible with device | ⟨_, range⟩ | ⟨copy, _⟩
        · exact absurd (kind.symm.trans device) (by decide)
        · exact absurd range other
        · exact absurd (kind.symm.trans copy) (by decide)
      | direction kind above =>
        rcases admissible with device | ⟨herd, _⟩ | ⟨_, code⟩
        · exact absurd (kind.symm.trans device) (by decide)
        · exact absurd (kind.symm.trans herd) (by decide)
        · exact absurd (UInt8.lt_iff_toNat_lt.mp above) (Nat.not_lt.mpr code)
      | unknown other =>
        rcases admissible with device | ⟨herd, _⟩ | ⟨copy, _⟩
        · exact absurd device other.1
        · exact absurd herd other.2.1
        · exact absurd copy other.2.2

-- Decoding fails for three reasons only, reads nothing but the bits in use, and what it accepts is
-- encoded as the record with all other bits cleared.
theorem decode_canonical (r : Record) :
    (∀ code, decode r = .error (.unknownType code) ↔ code = r.kind ∧
      r.kind ≠ TypeCode.deviceInit ∧ r.kind ≠ TypeCode.herdInit ∧ r.kind ≠ TypeCode.transfer) ∧
    (∀ code, decode r = .error (.invalidDirection code) ↔
      r.kind = TypeCode.transfer ∧ code.toNat = r.arg0.toNat / 2 ^ 60 ∧ 1 < code) ∧
    (∀ code, decode r = .error (.unsupportedRange code) ↔ r.kind = TypeCode.herdInit ∧
      code.toNat = r.arg0.toNat / 2 ^ 48 % 256 ∧ code ≠ absoluteRange) ∧
    ((∃ c, decode r = .ok c) ↔ r.kind = TypeCode.deviceInit ∨
      r.kind = TypeCode.herdInit ∧ r.arg0.toNat / 2 ^ 48 % 256 = absoluteRange.toNat ∨
        r.kind = TypeCode.transfer ∧ r.arg0.toNat / 2 ^ 60 ≤ 1) ∧
    (∀ r', Agree r r' → decode r' = decode r) ∧
    ∀ c, decode r = .ok c → decode c.encode = .ok c ∧
      (∀ n i, (c.encode.argument n).toNat.testBit i =
        (TypeCode.uses r.kind n i && (r.argument n).toNat.testBit i)) ∧
      (c.encode = r ↔ Canonical r) := by
  refine ⟨decode_unknown_iff r, decode_direction_iff r, decode_range_iff r,
    decode_ok_iff r, fun r' agree => agree.decode_eq, fun c accepted => ?_⟩
  have decoded : Decoded r (.ok c) := accepted ▸ decode_decoded r
  refine ⟨?_, decoded.testBit_encode, decoded.encode_eq_iff⟩
  rw [decode_encode, decoded.received]

-- A transfer with bits set wherever they do not count.
def sampleDirty : Record where
  header := 0xabcd
  kind := TypeCode.transfer
  reserved0 := 7
  returnAddress := 9
  arg0 := 0x1f4fff0000020000
  arg1 := 0x1000
  arg2 := 64
  signal := 3

theorem decode_canonical_sample : Agree sampleDirty { sampleDirty with header := 0, signal := 1 } ∧
    decode sampleDirty = .ok (.transfer sampleClean) ∧
    decode { sampleDirty with header := 0, signal := 1 } = .ok (.transfer sampleClean) ∧
    decode (encode (.transfer sampleClean)) = .ok (.transfer sampleClean) ∧
    (encode (.transfer sampleClean)).arg0 = 0x1040000000020000 ∧
    encode (.transfer sampleClean) ≠ sampleDirty := by
  have agree : Agree sampleDirty { sampleDirty with header := 0, signal := 1 } :=
    ⟨rfl, fun n _ _ => by match n with | 0 => rfl | 1 => rfl | 2 => rfl | 3 => rfl⟩
  have accepted : decode sampleDirty = .ok (.transfer sampleClean) := by decide
  obtain ⟨_, _, _, _, others, canonical⟩ := decode_canonical sampleDirty
  obtain ⟨again, _, same⟩ := canonical _ accepted
  exact ⟨agree, accepted, (others _ agree).trans accepted, again, by decide,
    fun equal => absurd (same.mp equal).header (by decide)⟩

end Command

end FabricQueue
