import FabricQueue.Proofs.Access
import FabricQueue.Text.Hex
import FabricQueue.Text.Numeral
import Mathlib.Data.Nat.Digits.Defs
import Mathlib.Tactic.SplitIfs

set_option autoImplicit false

namespace FabricQueue.Text

/-- The text writes `n` in a base, the most significant digit first, with letters of either case. -/
def Digits (base : Nat) (text : List Char) (n : Nat) : Prop :=
  ∃ digits : List Nat, digits ≠ [] ∧ (∀ d ∈ digits, d < base) ∧
    text.map Char.toLower = digits.map Nat.digitChar ∧ n = Nat.ofDigits base digits.reverse

inductive Unsigned (base : Nat) : List Char → Nat → Prop where
  | bare {text : List Char} {n : Nat} (digits : Digits base text n) : Unsigned base text n
  | plus {text : List Char} {n : Nat} (digits : Digits base text n) : Unsigned base ('+' :: text) n

inductive Signed (base : Nat) : List Char → Int → Prop where
  | unsigned {text : List Char} {n : Nat} (number : Unsigned base text n) : Signed base text n
  | minus {text : List Char} {n : Nat} (digits : Digits base text n) :
      Signed base ('-' :: text) (-n)

/-- A word in base 10, or in base 16 behind a mark, with underscores anywhere. -/
inductive Word : List Char → Nat → Prop where
  | decimal {text : List Char} {n : Nat} (number : Unsigned 10 (text.filter (· ≠ '_')) n) :
      Word text n
  | marked {text : List Char} {n : Nat} {mark : Char} (known : mark = 'x' ∨ mark = 'X')
      (number : Unsigned 16 (text.filter (· ≠ '_')) n) : Word ('0' :: mark :: text) n

section Reading

variable {base bound : Nat}

theorem digit?_some {c : Char} {d : Nat} (short : base ≤ 16) (known : digit? base c = some d) :
    d < base ∧ c.toLower = Nat.digitChar d := by
  have decimal : ∀ k ≤ 57, 48 ≤ k → (Char.ofNat k).toLower = Nat.digitChar (k - 48) := by decide
  have lower : ∀ k ≤ 102, 97 ≤ k → (Char.ofNat k).toLower = Nat.digitChar (k - 97 + 10) := by
    decide
  have upper : ∀ k ≤ 70, 65 ≤ k → (Char.ofNat k).toLower = Nat.digitChar (k - 65 + 10) := by
    decide
  rw [digit?] at known
  split_ifs at known with range small range small range small outside
  · cases known
    exact ⟨small, by simpa using decimal c.toNat range.2 range.1⟩
  · cases known
    exact ⟨small, by simpa using lower c.toNat range.2 range.1⟩
  · cases known
    exact ⟨small, by simpa using upper c.toNat range.2 range.1⟩
  · exact absurd outside (Nat.not_lt_of_le short)

theorem readDigits_counts (short : base ≤ 16) {value n : Nat} {text : List Char}
    (read : readDigits base bound value text = .ok n) :
    ∃ digits : List Nat, (∀ d ∈ digits, d < base) ∧
      text.map Char.toLower = digits.map Nat.digitChar ∧
      n = digits.foldl (fun value d => value * base + d) value := by
  induction text generalizing value with
  | nil =>
    cases read
    exact ⟨[], by simp, rfl, rfl⟩
  | cons c rest ih =>
    rw [readDigits] at read
    split at read
    · cases read
    next d known =>
      split_ifs at read
      obtain ⟨digits, small, same, total⟩ := ih read
      obtain ⟨below, char⟩ := digit?_some short known
      exact ⟨d :: digits, by simpa using ⟨below, small⟩, by simp only [List.map_cons, same, char],
        total⟩

theorem readDigits_lt {value n : Nat} {text : List Char} (below : value < bound)
    (read : readDigits base bound value text = .ok n) : n < bound := by
  induction text generalizing value with
  | nil =>
    cases read
    exact below
  | cons c rest ih =>
    rw [readDigits] at read
    split at read
    · cases read
    · split_ifs at read with next
      exact ih next read

theorem readDigits_ok (short : base ≤ 16) {n : Nat} {text : List Char} (some : text ≠ [])
    (read : readDigits base bound 0 text = .ok n) : Digits base text n := by
  obtain ⟨digits, small, same, total⟩ := readDigits_counts short read
  refine ⟨digits, ?_, small, same, ?_⟩
  · rintro rfl
    exact some (List.map_eq_nil_iff.mp same)
  · rw [total, Nat.ofDigits_eq_foldr, List.foldr_reverse]
    simp only [Nat.cast_id, Nat.add_comm, Nat.mul_comm]

theorem readUnsigned_ok (short : base ≤ 16) (room : 0 < bound) {n : Nat} {text : List Char}
    (read : readUnsigned base bound text = .ok n) : Unsigned base text n ∧ n < bound := by
  unfold readUnsigned at read
  split at read
  · cases read
  · cases read
  next rest other =>
    have some : rest ≠ [] := by
      rintro rfl
      exact other rfl
    exact ⟨.plus (readDigits_ok short some read), readDigits_lt room read⟩
  next some _ _ => exact ⟨.bare (readDigits_ok short some read), readDigits_lt room read⟩

theorem readSigned_ok (short : base ≤ 16) (room : 0 < bound) {z : Int} {text : List Char}
    (read : readSigned base bound text = .ok z) : Signed base text z := by
  unfold readSigned at read
  split at read
  · cases read
  next rest other =>
    have some : rest ≠ [] := by
      rintro rfl
      exact other rfl
    split at read
    next value digits =>
      cases read
      exact .minus (readDigits_ok short some digits)
    · cases read
    · cases read
  · obtain ⟨n, number, rfl⟩ := except_map_iff.mp read
    exact .unsigned (readUnsigned_ok short room number).1

end Reading

theorem readWord_ok {w : UInt64} {text : List Char} (read : readWord text = .ok w) :
    Word text w.toNat := by
  obtain ⟨n, number, rfl⟩ := except_map_iff.mp read
  have short : (splitMark text).1 ≤ 16 := by
    unfold splitMark
    split <;> simp
  obtain ⟨number, below⟩ := readUnsigned_ok short (by decide) number
  rw [UInt64.toNat_ofNat_of_lt' below]
  revert number
  unfold splitMark
  split
  · exact .marked (.inl rfl)
  · exact .marked (.inr rfl)
  · exact .decimal

section Writing

variable {base n : Nat}

theorem mem_toDigits (several : 1 < base) {c : Char} (member : c ∈ Nat.toDigits base n) :
    ∃ d < base, c = Nat.digitChar d := by
  induction n using Nat.strongRecOn with
  | ind n ih =>
    by_cases small : n < base
    · rw [Nat.toDigits_of_lt_base small, List.mem_singleton] at member
      exact ⟨n, small, member⟩
    · rw [Nat.toDigits_of_base_le several (Nat.le_of_not_lt small), List.mem_append,
        List.mem_singleton] at member
      rcases member with member | rfl
      · exact ih _ (Nat.div_lt_self (by omega) several) member
      · exact ⟨n % base, Nat.mod_lt _ (by omega), rfl⟩

theorem digit?_digitChar {d : Nat} (small : d < 16) : digit? 16 (Nat.digitChar d) = some d := by
  have all : ∀ d < 16, digit? 16 (Nat.digitChar d) = some d := by decide
  exact all d small

theorem readDigits_append {base bound value value' : Nat} {text rest : List Char}
    (read : readDigits base bound value text = .ok value') :
    readDigits base bound value (text ++ rest) = readDigits base bound value' rest := by
  induction text generalizing value with
  | nil =>
    cases read
    rfl
  | cons c text ih =>
    rw [List.cons_append, readDigits]
    rw [readDigits] at read
    cases known : digit? base c with
    | none => simp [known] at read
    | some d =>
      rw [known] at read
      simp only at read ⊢
      split_ifs at read with next
      rw [if_pos next]
      exact ih read

theorem readDigits_toDigits {bound : Nat} (below : n < bound) :
    readDigits 16 bound 0 (Nat.toDigits 16 n) = .ok n := by
  induction n using Nat.strongRecOn with
  | ind n ih =>
    by_cases small : n < 16
    · simp [Nat.toDigits_of_lt_base small, readDigits, digit?_digitChar small, below]
    · have front := ih (n / 16) (by omega) (by omega)
      have joined : n / 16 * 16 + n % 16 = n := Nat.div_add_mod' n 16
      rw [Nat.toDigits_of_base_le (by decide) (Nat.le_of_not_lt small), readDigits_append front]
      simp [readDigits, digit?_digitChar (Nat.mod_lt n (by decide)), joined, below]

theorem readDigits_zeros {bound : Nat} (room : 0 < bound) (zeros : Nat) :
    readDigits 16 bound 0 (List.replicate zeros '0') = .ok 0 := by
  induction zeros with
  | zero => rfl
  | succ zeros ih =>
    have digit : digit? 16 '0' = some 0 := by decide
    simp [List.replicate_succ, readDigits, digit, room, ih]

theorem readUnsigned_bare {bound : Nat} {text : List Char} (some : text ≠ [])
    (bare : '+' ∉ text) : readUnsigned base bound text = readDigits base bound 0 text := by
  unfold readUnsigned
  split
  · exact absurd rfl some
  · exact absurd List.mem_cons_self bare
  · exact absurd List.mem_cons_self bare
  · rfl

theorem mem_zeroPadded {width : Nat} {c : Char} (member : c ∈ zeroPadded width (hexDigits n)) :
    ∃ d < 16, c = Nat.digitChar d := by
  rcases List.mem_append.mp member with zero | digit
  · exact ⟨0, by decide, (List.mem_replicate.mp zero).2⟩
  · exact mem_toDigits (by decide) digit

theorem digitChar_ne {d : Nat} (small : d < 16) {c : Char}
    (other : c ∈ ['+', '-', '_', ' ', '\n', '#']) : Nat.digitChar d ≠ c := by
  have all : ∀ d < 16, Nat.digitChar d ∉ ['+', '-', '_', ' ', '\n', '#'] := by decide
  rintro rfl
  exact all d small other

theorem toList_hexPadded (width n : Nat) :
    (hexPadded width n).toList = '0' :: 'x' :: zeroPadded width (hexDigits n) := by
  simp [hexPadded]

-- A word is read back, whatever the width it is written with.
theorem readWord_hexPadded (width : Nat) (w : UInt64) :
    readWord (hexPadded width w.toNat).toList = .ok w := by
  have plain {c : Char} (member : c ∈ zeroPadded width (hexDigits w.toNat)) :
      c ≠ '_' ∧ c ≠ '+' := by
    obtain ⟨d, small, rfl⟩ := mem_zeroPadded member
    exact ⟨digitChar_ne small (by decide), digitChar_ne small (by decide)⟩
  have bare : (zeroPadded width (hexDigits w.toNat)).filter (· ≠ '_') =
      zeroPadded width (hexDigits w.toNat) := by
    rw [List.filter_eq_self]
    exact fun c member => decide_eq_true (plain member).1
  have digits : readDigits 16 UInt64.size 0 (zeroPadded width (hexDigits w.toNat)) =
      .ok w.toNat := by
    rw [zeroPadded, readDigits_append (readDigits_zeros (by decide) _)]
    exact readDigits_toDigits w.toNat_lt
  have some : zeroPadded width (hexDigits w.toNat) ≠ [] :=
    List.append_ne_nil_of_right_ne_nil _ Nat.toDigits_ne_nil
  have unsigned : '+' ∉ zeroPadded width (hexDigits w.toNat) := fun member => (plain member).2 rfl
  rw [toList_hexPadded, readWord]
  simp only [splitMark, bare]
  rw [readUnsigned_bare some unsigned, digits]
  simp [Except.map]

end Writing

end FabricQueue.Text
