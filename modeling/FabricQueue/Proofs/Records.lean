import FabricQueue.Packet.Command
import Mathlib.Algebra.Group.Nat.Defs

set_option autoImplicit false

namespace FabricQueue

theorem packHeader_toNat (header kind : UInt16) (reserved0 : UInt32) :
    (packHeader header kind reserved0).toNat =
      header.toNat + kind.toNat * 2 ^ 16 + reserved0.toNat * 2 ^ 32 := by
  have headerBound := header.toNat_lt
  have kindBound := kind.toNat_lt
  have reservedBound := reserved0.toNat_lt
  simp only [packHeader, Nat.shiftLeft_eq]
  exact UInt64.toNat_ofNat_of_lt' (by simp only [UInt64.size]; omega)

@[simp]
theorem headerOf_packHeader (header kind : UInt16) (reserved0 : UInt32) :
    headerOf (packHeader header kind reserved0) = header := by
  apply UInt16.toNat_inj.mp
  have bound := header.toNat_lt
  simp only [headerOf, packHeader_toNat, UInt16.toNat_ofNat']
  omega

@[simp]
theorem kindOf_packHeader (header kind : UInt16) (reserved0 : UInt32) :
    kindOf (packHeader header kind reserved0) = kind := by
  apply UInt16.toNat_inj.mp
  have headerBound := header.toNat_lt
  have kindBound := kind.toNat_lt
  simp only [kindOf, packHeader_toNat, UInt16.toNat_ofNat', Nat.shiftRight_eq_div_pow]
  omega

@[simp]
theorem reserved0Of_packHeader (header kind : UInt16) (reserved0 : UInt32) :
    reserved0Of (packHeader header kind reserved0) = reserved0 := by
  apply UInt32.toNat_inj.mp
  have headerBound := header.toNat_lt
  have kindBound := kind.toNat_lt
  have reservedBound := reserved0.toNat_lt
  simp only [reserved0Of, packHeader_toNat, UInt32.toNat_ofNat', Nat.shiftRight_eq_div_pow]
  omega

namespace Header

@[simp]
theorem dispatch_isActive : isActive dispatch = true := by decide

@[simp]
theorem pending_isActive : isActive pending = false := by decide

end Header

namespace Record

def staged (r : Record) : Record :=
  { r with header := Header.pending }

-- The record as the consumer leaves it behind.
def finished (r : Record) : Record :=
  { r with header := Header.pending, signal := signalDone }

theorem ofWords_toWords (r : Record) : ofWords r.toWords = r := by
  simp [ofWords, toWords, headerWord]

theorem ofWords_withHeader (header : UInt16) (w : Vector UInt64 8) (inside : 0 < 8) :
    ofWords (w.set 0 (withHeader (getElem w 0 inside) header) inside) =
      { ofWords w with header } := by
  simp [ofWords, withHeader]

end Record

theorem Command.decode_activated (r : Record) : decode r.activated = decode r := by
  unfold decode Record.activated
  with_reducible rfl

theorem Command.encode_signal (command : Command) : command.encode.signal = signalPending := by
  cases command <;> rfl

theorem Command.byteAt_eq {n low : Nat} {b : UInt8} (fits : n < UInt64.size)
    (digit : n / 2 ^ low % 256 = b.toNat) : byteAt (UInt64.ofNat n) low = b := by
  rw [byteAt, UInt64.toNat_ofNat_of_lt' fits, Nat.shiftRight_eq_div_pow]
  exact UInt8.toNat_inj.mp ((UInt8.toNat_ofNat).trans digit)

theorem Command.halfAt_eq {n low : Nat} {w : UInt16} (fits : n < UInt64.size)
    (digit : n / 2 ^ low % 65536 = w.toNat) : halfAt (UInt64.ofNat n) low = w := by
  rw [halfAt, UInt64.toNat_ofNat_of_lt' fits, Nat.shiftRight_eq_div_pow]
  exact UInt16.toNat_inj.mp ((UInt16.toNat_ofNat).trans digit)

-- What the consumer takes a transfer for: the burst length has four bits in the record.
def Transfer.received (t : Transfer) : Transfer :=
  { t with burst := t.burst % 16 }

theorem Command.decode_transfer (t : Transfer) :
    decode (encode (.transfer t)) = .ok (.transfer t.received) := by
  obtain ⟨herd, column, channel, direction, burst, space, address, run, inner, middle, outer⟩ := t
  obtain ⟨count, stride⟩ := inner
  obtain ⟨count', stride'⟩ := middle
  obtain ⟨count'', stride''⟩ := outer
  have code : direction.code.toNat < 2 := by cases direction <;> decide
  have known : Direction.ofCode? direction.code = some direction := by cases direction <;> rfl
  have herdBound := herd.toNat_lt
  have columnBound := column.toNat_lt
  have channelBound := channel.toNat_lt
  have spaceBound := space.toNat_lt
  have runBound := run.toNat_lt
  have bounds := And.intro count.toNat_lt stride.toNat_lt
  have bounds' := And.intro count'.toNat_lt stride'.toNat_lt
  have bounds'' := And.intro count''.toNat_lt stride''.toNat_lt
  -- The three argument words, and what stands at each place of theirs.
  obtain ⟨first, first_eq⟩ : ∃ n, n = direction.code.toNat <<< 60 + (burst.toNat % 16) <<< 52 +
    column.toNat <<< 32 + channel.toNat <<< 24 + space.toNat <<< 16 + herd.toNat := ⟨_, rfl⟩
  obtain ⟨second, second_eq⟩ : ∃ n, n = stride.toNat <<< 48 + count.toNat <<< 32 +
    run.toNat := ⟨_, rfl⟩
  obtain ⟨third, third_eq⟩ : ∃ n, n = stride''.toNat <<< 48 + count''.toNat <<< 32 +
    stride'.toNat <<< 16 + count'.toNat := ⟨_, rfl⟩
  have encoded : encode (.transfer ⟨herd, column, channel, direction, burst, space, address, run,
      ⟨count, stride⟩, ⟨count', stride'⟩, ⟨count'', stride''⟩⟩) =
      { header := Header.pending, kind := TypeCode.transfer, signal := signalPending
        arg0 := UInt64.ofNat first, arg1 := address, arg2 := UInt64.ofNat second
        arg3 := UInt64.ofNat third } := by
    rw [first_eq, second_eq, third_eq, encode]
  have fits : first < UInt64.size := by rw [UInt64.size]; omega
  have fits' : second < UInt64.size := by rw [UInt64.size]; omega
  have fits'' : third < UInt64.size := by rw [UInt64.size]; omega
  have burst_eq : UInt8.ofNat (first >>> 52 % 16) = burst % 16 := by
    apply UInt8.toNat_inj.mp
    rw [UInt8.toNat_ofNat', Nat.shiftRight_eq_div_pow, UInt8.toNat_mod]
    change first / 2 ^ 52 % 16 % 2 ^ 8 = burst.toNat % 16
    omega
  have run_eq : UInt32.ofNat second = run := by
    apply UInt32.toNat_inj.mp
    rw [UInt32.toNat_ofNat']
    omega
  have code_eq : byteAt (UInt64.ofNat first) 60 = direction.code := byteAt_eq fits (by omega)
  have column_eq : byteAt (UInt64.ofNat first) 32 = column := byteAt_eq fits (by omega)
  have channel_eq : byteAt (UInt64.ofNat first) 24 = channel := byteAt_eq fits (by omega)
  have space_eq : byteAt (UInt64.ofNat first) 16 = space := byteAt_eq fits (by omega)
  have herd_eq : halfAt (UInt64.ofNat first) 0 = herd := halfAt_eq fits (by omega)
  have inner_eq : halfAt (UInt64.ofNat second) 32 = count ∧
      halfAt (UInt64.ofNat second) 48 = stride :=
    ⟨halfAt_eq fits' (by omega), halfAt_eq fits' (by omega)⟩
  have middle_eq : halfAt (UInt64.ofNat third) 0 = count' ∧
      halfAt (UInt64.ofNat third) 16 = stride' :=
    ⟨halfAt_eq fits'' (by omega), halfAt_eq fits'' (by omega)⟩
  have outer_eq : halfAt (UInt64.ofNat third) 32 = count'' ∧
      halfAt (UInt64.ofNat third) 48 = stride'' :=
    ⟨halfAt_eq fits'' (by omega), halfAt_eq fits'' (by omega)⟩
  rw [encoded, decode, if_neg (by simp only; decide), if_neg (by simp only; decide), if_pos rfl]
  simp only [code_eq, known, column_eq, channel_eq, space_eq, herd_eq, inner_eq, middle_eq,
    outer_eq, UInt64.toNat_ofNat_of_lt' fits, UInt64.toNat_ofNat_of_lt' fits', burst_eq, run_eq,
    Transfer.received]

end FabricQueue
