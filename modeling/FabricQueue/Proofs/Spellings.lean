import FabricQueue.Proofs.Configuration
import FabricQueue.Proofs.Invocations

set_option autoImplicit false

namespace FabricQueue.Text

section Accepting

variable {base bound : Nat}

theorem digit?_narrow {c : Char} {d : Nat} (known : digit? 16 c = some d) (small : d < base) :
    digit? base c = some d := by
  unfold digit? at known ⊢
  simp only [Option.ite_none_right_eq_some, Option.some.injEq] at known ⊢
  exact ⟨known.2 ▸ small, known.2⟩

theorem toLower_cases {c : Char} {d : Nat} (small : d < 16) (same : c.toLower = Nat.digitChar d) :
    c = Nat.digitChar d ∨ c = (Nat.digitChar d).toUpper := by
  have capital : ∀ d < 16, ∀ k ≤ 90, 65 ≤ k → (Char.ofNat k).toLower = Nat.digitChar d →
      Char.ofNat k = (Nat.digitChar d).toUpper := by decide
  by_cases upper : c.val ≥ 'A'.val ∧ c.val ≤ 'Z'.val
  next =>
    have known := capital d small c.toNat upper.2 upper.1
    rw [Char.ofNat_toNat] at known
    exact .inr (known same)
  next =>
    have lower : c.toLower = c := dif_neg upper
    exact .inl (lower.symm.trans same)

theorem digit?_toLower {c : Char} {d : Nat} (short : base ≤ 16) (small : d < base)
    (same : c.toLower = Nat.digitChar d) : digit? base c = some d := by
  have capital : ∀ d < 16, digit? 16 (Nat.digitChar d).toUpper = some d := by decide
  have below : d < 16 := Nat.lt_of_lt_of_le small short
  refine digit?_narrow ?_ small
  rcases toLower_cases below same with rfl | rfl
  · exact digit?_digitChar below
  · exact capital d below

theorem foldl_digits_le {digits : List Nat} (positive : 0 < base) (value : Nat) :
    value ≤ digits.foldl (fun value d => value * base + d) value := by
  induction digits generalizing value with
  | nil => simp
  | cons d rest ih =>
    have grown : value ≤ value * base + d :=
      Nat.le_trans (Nat.le_mul_of_pos_right value positive) (Nat.le_add_right _ _)
    exact Nat.le_trans grown (ih _)

theorem readDigits_reads (short : base ≤ 16) {value : Nat} {text : List Char} {digits : List Nat}
    (small : ∀ d ∈ digits, d < base) (same : text.map Char.toLower = digits.map Nat.digitChar)
    (fits : digits.foldl (fun value d => value * base + d) value < bound) :
    readDigits base bound value text =
      .ok (digits.foldl (fun value d => value * base + d) value) := by
  induction text generalizing value digits with
  | nil =>
    have none : digits = [] := by simpa using same.symm
    simp [none, readDigits]
  | cons c rest ih =>
    cases digits with
    | nil => simp at same
    | cons d digits =>
      simp only [List.map_cons, List.cons.injEq, List.foldl_cons] at same fits ⊢
      have below : d < base := small d List.mem_cons_self
      have next : value * base + d < bound :=
        Nat.lt_of_le_of_lt (foldl_digits_le (Nat.zero_lt_of_lt below) _) fits
      simp only [readDigits, digit?_toLower short below same.1, if_pos next]
      exact ih (fun d member => small d (List.mem_cons_of_mem _ member)) same.2 fits

theorem Digits.reads (short : base ≤ 16) {text : List Char} {n : Nat} (digits : Digits base text n)
    (fits : n < bound) : readDigits base bound 0 text = .ok n := by
  obtain ⟨digits, _, small, same, rfl⟩ := digits
  have value : Nat.ofDigits base digits.reverse =
      digits.foldl (fun value d => value * base + d) 0 := by
    rw [Nat.ofDigits_eq_foldr, List.foldr_reverse]
    simp only [Nat.cast_id, Nat.add_comm, Nat.mul_comm]
  rw [value] at fits ⊢
  exact readDigits_reads short small same fits

theorem Digits.mem {text : List Char} {n : Nat} (digits : Digits base text n) {c : Char}
    (member : c ∈ text) : ∃ d < base, c.toLower = Nat.digitChar d := by
  obtain ⟨digits, _, small, same, _⟩ := digits
  have lowered : c.toLower ∈ digits.map Nat.digitChar := same ▸ List.mem_map_of_mem member
  obtain ⟨d, among, equal⟩ := List.mem_map.mp lowered
  exact ⟨d, small d among, equal.symm⟩

theorem Digits.ne_nil {text : List Char} {n : Nat} (digits : Digits base text n) : text ≠ [] := by
  obtain ⟨digits, some, _, same, _⟩ := digits
  rintro rfl
  exact some (by simpa using same.symm)

theorem Unsigned.reads (short : base ≤ 16) {text : List Char} {n : Nat}
    (number : Unsigned base text n) (fits : n < bound) :
    readUnsigned base bound text = .ok n := by
  cases number with
  | bare digits =>
    have sign : ∀ d < 16, '+'.toLower ≠ Nat.digitChar d := by decide
    have unsigned : '+' ∉ text := by
      intro member
      obtain ⟨d, small, same⟩ := digits.mem member
      exact sign d (Nat.lt_of_lt_of_le small short) same
    rw [readUnsigned_bare digits.ne_nil unsigned]
    exact digits.reads short fits
  | @plus rest _ digits =>
    have some := digits.ne_nil
    cases rest with
    | nil => exact absurd rfl some
    | cons c rest => exact digits.reads short fits

theorem Unsigned.mem {text : List Char} {n : Nat} (number : Unsigned base text n) {c : Char}
    (member : c ∈ text) : c = '+' ∨ ∃ d < base, c.toLower = Nat.digitChar d := by
  cases number with
  | bare digits => exact .inr (digits.mem member)
  | plus digits =>
    rcases List.mem_cons.mp member with sign | later
    · exact .inl sign
    · exact .inr (digits.mem later)

end Accepting

theorem Word.reads {text : List Char} {w : UInt64} (word : Word text w.toNat) :
    readWord text = .ok w := by
  have room : w.toNat < UInt64.size := w.toNat_lt
  cases word with
  | decimal number =>
    have unmarked : 'x' ∉ text ∧ 'X' ∉ text := by
      have other {c : Char} (kept : c ≠ '_') (sign : c ≠ '+')
          (letter : ∀ d < 10, c.toLower ≠ Nat.digitChar d) : c ∉ text := by
        intro member
        rcases number.mem (List.mem_filter.mpr ⟨member, decide_eq_true kept⟩) with plus | digit
        · exact sign plus
        · obtain ⟨d, small, same⟩ := digit
          exact letter d small same
      exact ⟨other (by decide) (by decide) (by decide), other (by decide) (by decide) (by decide)⟩
    have split : splitMark text = (10, text) := by
      unfold splitMark
      split <;> simp at unmarked ⊢
    simp only [readWord, split, number.reads (by decide) room, Except.map, UInt64.ofNat_toNat]
  | @marked rest _ mark known number =>
    have split : splitMark ('0' :: mark :: rest) = (16, rest) := by
      rcases known with rfl | rfl <;> rfl
    simp only [readWord, split, number.reads (by decide) room, Except.map, UInt64.ofNat_toNat]

theorem readWord_iff {text : List Char} {w : UInt64} :
    readWord text = .ok w ↔ Word text w.toNat :=
  ⟨readWord_ok, Word.reads⟩

section Trimming

variable {text body front back : List Char}

def Blanks (text : List Char) : Prop :=
  ∀ c ∈ text, isBlank c = true

-- Neither end of the text is blank.
structure Bare (text : List Char) : Prop where
  first : ∀ c ∈ text.head?, isBlank c = false
  last : ∀ c ∈ text.getLast?, isBlank c = false

theorem takeWhile_blanks (text : List Char) : Blanks (text.takeWhile isBlank) := by
  intro c member
  exact List.all_eq_true.mp List.all_takeWhile c member

theorem trim_around (text : List Char) :
    ∃ front back, Blanks front ∧ Blanks back ∧ text = front ++ trim text ++ back := by
  let rest := text.dropWhile isBlank
  refine ⟨text.takeWhile isBlank, (rest.reverse.takeWhile isBlank).reverse,
    takeWhile_blanks text, ?_, ?_⟩
  · intro c member
    exact takeWhile_blanks rest.reverse c (List.mem_reverse.mp member)
  · have split : rest = trim text ++ (rest.reverse.takeWhile isBlank).reverse := by
      rw [trim, ← List.reverse_append, List.takeWhile_append_dropWhile, List.reverse_reverse]
    rw [List.append_assoc, ← split, List.takeWhile_append_dropWhile]

theorem dropWhile_front (blanks : Blanks front) (some : body ≠ [])
    (bare : ∀ c ∈ body.head?, isBlank c = false) :
    (front ++ (body ++ back)).dropWhile isBlank = body ++ back := by
  rw [List.dropWhile_append_of_pos blanks]
  cases body with
  | nil => exact absurd rfl some
  | cons c rest => simp [bare c rfl]

theorem trim_eq (before : Blanks front) (behind : Blanks back) (some : body ≠ [])
    (bare : Bare body) : trim (front ++ body ++ back) = body := by
  have turned : Blanks back.reverse := fun c member => behind c (List.mem_reverse.mp member)
  have drop : (back.reverse ++ (body.reverse ++ [])).dropWhile isBlank = body.reverse ++ [] :=
    dropWhile_front turned (by simpa using some) (by simpa using bare.last)
  rw [trim, List.append_assoc, dropWhile_front before some bare.first, List.reverse_append,
    ← List.append_nil body.reverse, drop, List.append_nil, List.reverse_reverse]

theorem trim_bare (bare : Bare text) : trim text = text := by
  by_cases some : text = []
  · rw [some]; rfl
  · have whole : trim ([] ++ text ++ []) = text := trim_eq nofun nofun some bare
    simpa using whole

end Trimming

theorem Word.dense {text : List Char} {n : Nat} (word : Word text n) {c : Char} (member : c ∈ text) :
    isBlank c = false := by
  have digit : ∀ d < 16, isBlank (Nat.digitChar d) = false ∧
      isBlank (Nat.digitChar d).toUpper = false := by decide
  have inside {base : Nat} {rest : List Char} (short : base ≤ 16) (among : c ∈ rest)
      (number : Unsigned base (rest.filter (· ≠ '_')) n) : isBlank c = false := by
    by_cases under : c = '_'
    · rw [under]; decide
    rcases number.mem (List.mem_filter.mpr ⟨among, decide_eq_true under⟩) with rfl | known
    · decide
    · obtain ⟨d, small, same⟩ := known
      have below : d < 16 := Nat.lt_of_lt_of_le small short
      rcases toLower_cases below same with rfl | rfl
      · exact (digit d below).1
      · exact (digit d below).2
  cases word with
  | decimal number => exact inside (by decide) member number
  | marked known number =>
    simp only [List.mem_cons] at member
    rcases member with rfl | rfl | among
    · decide
    · rcases known with rfl | rfl <;> decide
    · exact inside (by decide) among number

theorem Word.bare {text : List Char} {n : Nat} (word : Word text n) : Bare text :=
  ⟨fun _ first => word.dense (List.mem_of_mem_head? first),
    fun _ last => word.dense (List.mem_of_mem_getLast? last)⟩

theorem Word.ne_nil {text : List Char} {n : Nat} (word : Word text n) : text ≠ [] := by
  rintro rfl
  cases word with
  | decimal number =>
    cases number with
    | bare digits => exact digits.ne_nil rfl

section Spelling

def Respells (form text : List Char) : Prop :=
  (text.filter (· ≠ '_')).map Char.toLower = form.map Char.toLower

-- The ways in which a number is commonly written: in base 10, or behind a mark in base 16, with no
-- more digits than it needs or with as many as a word can have.
inductive Spelling (n : Nat) : List Char → Prop where
  | decimal {text : List Char} (same : Respells (toString n).toList text) : Spelling n text
  | marked {digits text : List Char} (form : '0' :: 'x' :: digits = (hex n).toList ∨
      '0' :: 'x' :: digits = (hexPadded 16 n).toList) (same : Respells digits text) :
      Spelling n ('0' :: 'x' :: text)

variable {base n : Nat} {text form : List Char}

theorem Digits.respelled (digits : Digits base form n) (same : Respells form text) :
    Digits base (text.filter (· ≠ '_')) n := by
  obtain ⟨values, some, small, letters, value⟩ := digits
  exact ⟨values, some, small, same.trans letters, value⟩

theorem Respells.refl (plain : '_' ∉ form) : Respells form form := by
  have kept : form.filter (· ≠ '_') = form := by
    rw [List.filter_eq_self]
    exact fun c member => decide_eq_true (ne_of_mem_of_not_mem member plain)
  rw [Respells, kept]

theorem Digits.snoc (short : base ≤ 16) (digits : Digits base text n) {d : Nat} (small : d < base) :
    Digits base (text ++ [Nat.digitChar d]) (n * base + d) := by
  have lower : ∀ d < 16, (Nat.digitChar d).toLower = Nat.digitChar d := by decide
  obtain ⟨values, some, below, letters, rfl⟩ := digits
  refine ⟨values ++ [d], by simp, ?_, ?_, ?_⟩
  · simpa [or_imp, forall_and] using ⟨below, small⟩
  · simp [letters, lower d (Nat.lt_of_lt_of_le small short)]
  · simp [Nat.ofDigits_cons, Nat.add_comm, Nat.mul_comm]

theorem Digits.single (short : base ≤ 16) {d : Nat} (small : d < base) :
    Digits base [Nat.digitChar d] d := by
  have lower : ∀ d < 16, (Nat.digitChar d).toLower = Nat.digitChar d := by decide
  exact ⟨[d], by simp, by simpa using small, by simp [lower d (Nat.lt_of_lt_of_le small short)],
    by simp⟩

theorem toDigits_digits (several : 1 < base) (short : base ≤ 16) (n : Nat) :
    Digits base (Nat.toDigits base n) n := by
  induction n using Nat.strongRecOn with
  | ind n ih =>
    by_cases small : n < base
    next =>
      rw [Nat.toDigits_of_lt_base small]
      exact .single short small
    next =>
      have front := ih (n / base) (Nat.div_lt_self (by omega) several)
      have whole := front.snoc short (Nat.mod_lt n (by omega))
      rw [Nat.div_add_mod' n base] at whole
      rwa [Nat.toDigits_of_base_le several (Nat.le_of_not_lt small)]

theorem Digits.zeros (positive : 0 < base) (digits : Digits base text n) (count : Nat) :
    Digits base (List.replicate count '0' ++ text) n := by
  induction count with
  | zero => simpa using digits
  | succ count ih =>
    obtain ⟨values, some, below, letters, rfl⟩ := ih
    have zero : '0'.toLower = Nat.digitChar 0 := by decide
    refine ⟨0 :: values, by simp, by simpa [positive] using below, ?_, ?_⟩
    · simpa [List.replicate_succ, zero] using letters
    · simp [Nat.ofDigits_append]

theorem toList_hex (n : Nat) : (hex n).toList = '0' :: 'x' :: hexDigits n := by
  simp [hex]

theorem Spelling.word (spelling : Spelling n text) : Word text n := by
  cases spelling with
  | decimal same =>
    have digits : Digits 10 (toString n).toList n := by
      have text : (toString n).toList = Nat.toDigits 10 n := Nat.toList_repr
      exact text ▸ toDigits_digits (by decide) (by decide) n
    exact .decimal (.bare (digits.respelled same))
  | @marked digits rest form same =>
    have plain : Digits 16 (hexDigits n) n := toDigits_digits (by decide) (by decide) n
    have known : Digits 16 digits n := by
      rcases form with form | form
      · simp only [toList_hex, List.cons.injEq, true_and] at form
        exact form ▸ plain
      · simp only [toList_hexPadded, List.cons.injEq, true_and] at form
        exact form ▸ plain.zeros (by decide) _
    exact .marked (.inl rfl) (.bare (known.respelled same))

theorem Spelling.plain (n : Nat) : Spelling n (toString n).toList ∧ Spelling n (hex n).toList ∧
    Spelling n (hexPadded 16 n).toList := by
  have under {base : Nat} (several : 1 < base) (short : base ≤ 16) :
      '_' ∉ Nat.toDigits base n := by
    intro member
    obtain ⟨d, small, same⟩ := mem_toDigits several member
    exact digitChar_ne (Nat.lt_of_lt_of_le small short) (by decide) same.symm
  have padded : '_' ∉ zeroPadded 16 (hexDigits n) := by
    intro member
    obtain ⟨d, small, same⟩ := mem_zeroPadded member
    exact digitChar_ne small (by decide) same.symm
  have decimal : (toString n).toList = Nat.toDigits 10 n := Nat.toList_repr
  refine ⟨.decimal (.refl (decimal ▸ under (by decide) (by decide))), ?_, ?_⟩
  · exact toList_hex n ▸ .marked (.inl (toList_hex n).symm) (.refl (under (by decide) (by decide)))
  · exact toList_hexPadded 16 n ▸ .marked (.inr (toList_hexPadded 16 n).symm) (.refl padded)

end Spelling

end FabricQueue.Text

namespace FabricQueue

open Text

variable {key argument value : String} {w : UInt64}

theorem Config.readNumber_word : Config.readNumber key value = .ok w ↔
    ∃ front body back, Blanks front ∧ Blanks back ∧ value.toList = front ++ body ++ back ∧
      Word body w.toNat := by
  rw [Config.readNumber_iff, readWord_iff]
  constructor
  · intro word
    obtain ⟨front, back, before, behind, whole⟩ := trim_around value.toList
    exact ⟨front, _, back, before, behind, whole, word⟩
  · rintro ⟨front, body, back, before, behind, whole, word⟩
    rwa [whole, trim_eq before behind word.ne_nil word.bare]

theorem CommandLine.readAddress_word :
    CommandLine.readAddress argument value = .ok w ↔ Word value.toList w.toNat := by
  rw [← readWord_iff]
  unfold CommandLine.readAddress
  cases readWord value.toList <;> simp

-- Both readers take the texts of one grammar, a variable's with blanks around it, and find in them
-- the number that is written there. So they agree where no blanks stand around, and read back what
-- a word is commonly written as.
theorem readers_agree (key argument value : String) (w : UInt64) :
    (Config.readNumber key value = .ok w ↔ ∃ front body back, Blanks front ∧ Blanks back ∧
      value.toList = front ++ body ++ back ∧ Word body w.toNat) ∧
    (CommandLine.readAddress argument value = .ok w ↔ Word value.toList w.toNat) ∧
    (Bare value.toList → (Config.readNumber key value = .ok w ↔
      CommandLine.readAddress argument value = .ok w)) ∧
    (Spelling w.toNat value.toList → Config.readNumber key value = .ok w ∧
      CommandLine.readAddress argument value = .ok w) ∧
    Spelling w.toNat (toString w.toNat).toList ∧ Spelling w.toNat (hex w.toNat).toList ∧
    Spelling w.toNat (hexPadded 16 w.toNat).toList := by
  have agree (bare : Bare value.toList) : Config.readNumber key value = .ok w ↔
      CommandLine.readAddress argument value = .ok w := by
    rw [Config.readNumber_iff, trim_bare bare, readWord_iff, CommandLine.readAddress_word]
  refine ⟨Config.readNumber_word, CommandLine.readAddress_word, agree, fun spelling => ?_,
    Spelling.plain w.toNat⟩
  have read : CommandLine.readAddress argument value = .ok w :=
    CommandLine.readAddress_word.mpr spelling.word
  exact ⟨(agree spelling.word.bare).mpr read, read⟩

-- All digits of a word, with underscores and with letters of both cases.
theorem readers_agree_sample :
    Bare "0x_0000_0000_0000_00fF".toList ∧ Spelling 255 "0x_0000_0000_0000_00fF".toList ∧
    Config.readNumber "AIR_QUEUE_BASE" "0x_0000_0000_0000_00fF" = .ok 255 ∧
    CommandLine.readAddress "--addr <ADDR>" "0x_0000_0000_0000_00fF" = .ok 255 := by
  have text : "0x_0000_0000_0000_00fF".toList = '0' :: 'x' ::
      ['_', '0', '0', '0', '0', '_', '0', '0', '0', '0', '_', '0', '0', '0', '0', '_',
        '0', '0', 'f', 'F'] := rfl
  have spelling : Spelling 255 "0x_0000_0000_0000_00fF".toList := by
    rw [text]
    exact .marked (.inr (toList_hexPadded 16 255).symm) rfl
  obtain ⟨_, _, agree, recover, _⟩ := readers_agree "AIR_QUEUE_BASE" "--addr <ADDR>"
    "0x_0000_0000_0000_00fF" 255
  have bare := spelling.word.bare
  exact ⟨bare, spelling, (agree bare).mpr (recover spelling).2, (recover spelling).2⟩

end FabricQueue
