import FabricQueue.CommandLine.Run
import FabricQueue.Proofs.Numerals

set_option autoImplicit false

namespace FabricQueue.CommandLine

def splitLines : List Char → List (List Char)
  | [] => []
  | c :: rest =>
    if c = '\n' then [] :: splitLines rest
    else
      match splitLines rest with
      | [] => [[c]]
      | line :: more => (c :: line) :: more

/-- The text of a line that is a comment. -/
def comment? : List Char → Option (List Char)
  | '#' :: ' ' :: text => some text
  | _ => none

/-- What stands behind the first blank of a line. -/
def behindBlank (line : List Char) : List Char :=
  (line.dropWhile (· ≠ ' ')).drop 1

namespace Outcome

def comments (o : Outcome) : List String :=
  (splitLines o.output.toList).filterMap fun line => (comment? line).map String.ofList

/-- The words on the lines that are no comments, in order. -/
def words (o : Outcome) : List String :=
  (splitLines o.output.toList).filterMap fun line =>
    if (comment? line).isSome then none else some (String.ofList (behindBlank line))

end Outcome

def OneLine (text : String) : Prop :=
  '\n' ∉ text.toList

instance (text : String) : Decidable (OneLine text) :=
  inferInstanceAs (Decidable (_ ∉ _))

namespace OneLine

theorem append_iff {text text' : String} :
    OneLine (text ++ text') ↔ OneLine text ∧ OneLine text' := by
  rw [OneLine, String.toList_append, List.mem_append, not_or]
  rfl

theorem digits {base n : Nat} (several : 1 < base) (small : base ≤ 16) :
    OneLine (String.ofList (Nat.toDigits base n)) := by
  rw [OneLine, String.toList_ofList]
  intro member
  obtain ⟨d, below, same⟩ := Text.mem_toDigits several member
  exact Text.digitChar_ne (Nat.lt_of_lt_of_le below small) (by decide) same.symm

theorem number (n : Nat) : OneLine (toString n) :=
  digits (by decide) (by decide)

theorem hex (n : Nat) : OneLine (Text.hex n) :=
  append_iff.mpr ⟨by decide, digits (by decide) (by decide)⟩

theorem hexPadded (width n : Nat) : OneLine (Text.hexPadded width n) := by
  rw [OneLine, Text.toList_hexPadded]
  intro member
  rcases List.mem_cons.mp member with same | member
  · exact absurd same (by decide)
  rcases List.mem_cons.mp member with same | member
  · exact absurd same (by decide)
  · obtain ⟨d, below, same⟩ := Text.mem_zeroPadded member
    exact Text.digitChar_ne below (by decide) same.symm

theorem direction (d : Direction) : OneLine d.text := by
  cases d <;> decide

theorem command {c : Command} {text : String} (known : c.text = .ok text) : OneLine text := by
  cases c with
  | herdInit h =>
    cases known
    simp only [append_iff, number, and_true]
    decide
  | deviceInit columns =>
    cases known
    simp only [append_iff, number, and_true]
    decide
  | transfer t =>
    obtain ⟨count, -, rfl⟩ := except_map_iff.mp known
    simp only [append_iff, number, hex, direction, and_true]
    decide

end OneLine

theorem splitLines_append {line : List Char} (one : '\n' ∉ line) (rest : List Char) :
    splitLines (line ++ '\n' :: rest) = line :: splitLines rest := by
  induction line with
  | nil => rfl
  | cons c line ih =>
    rw [List.mem_cons, not_or] at one
    rw [List.cons_append, splitLines, if_neg (Ne.symm one.1), ih one.2]

theorem splitLines_lines {texts : List String} (one : ∀ text ∈ texts, OneLine text) :
    splitLines (lines texts).toList = texts.map String.toList := by
  rw [lines, String.toList_join]
  induction texts with
  | nil => rfl
  | cons text rest ih =>
    have ending : (text ++ "\n").toList = text.toList ++ ['\n'] := String.toList_append
    rw [List.map_cons, List.flatMap_cons, ending, List.append_assoc, List.singleton_append,
      splitLines_append (one text List.mem_cons_self),
      ih fun text member => one text (List.mem_cons_of_mem _ member), List.map_cons]

def note (text : String) : String :=
  "# " ++ text

theorem comment?_note (text : String) : comment? (note text).toList = some text.toList := by
  have marked : (note text).toList = '#' :: ' ' :: text.toList := String.toList_append
  rw [marked, comment?]

def wordLine (number : Nat) (word : UInt64) : String :=
  toString number ++ ": " ++ Text.hexPadded 16 word.toNat

theorem oneLine_wordLine (number : Nat) (word : UInt64) : OneLine (wordLine number word) := by
  simp only [wordLine, OneLine.append_iff, OneLine.number, OneLine.hexPadded, true_and, and_true]
  decide

theorem toList_wordLine (number : Nat) (word : UInt64) :
    (wordLine number word).toList =
      (Nat.toDigits 10 number ++ [':']) ++ ' ' :: (Text.hexPadded 16 word.toNat).toList := by
  have digits : (toString number).toList = Nat.toDigits 10 number := Nat.toList_repr
  have colon : ": ".toList = [':', ' '] := rfl
  rw [wordLine, String.toList_append, String.toList_append, digits, colon]
  simp

theorem behindBlank_wordLine (number : Nat) (word : UInt64) :
    behindBlank (wordLine number word).toList = (Text.hexPadded 16 word.toNat).toList := by
  have dense : ∀ c ∈ Nat.toDigits 10 number ++ [':'], decide (c ≠ ' ') = true := by
    intro c member
    rcases List.mem_append.mp member with digit | colon
    · obtain ⟨d, small, rfl⟩ := Text.mem_toDigits (by decide) digit
      exact decide_eq_true (Text.digitChar_ne (Nat.lt_trans small (by decide)) (by decide))
    · rw [List.mem_singleton.mp colon]
      decide
  rw [toList_wordLine, behindBlank, List.dropWhile_append_of_pos dense]
  rfl

theorem comment?_wordLine (number : Nat) (word : UInt64) :
    comment? (wordLine number word).toList = none := by
  rw [toList_wordLine]
  cases digits : Nat.toDigits 10 number with
  | nil => exact absurd digits Nat.toDigits_ne_nil
  | cons c rest =>
    obtain ⟨d, small, rfl⟩ := Text.mem_toDigits (by decide) (digits ▸ List.mem_cons_self)
    have unmarked := Text.digitChar_ne (Nat.lt_trans small (by decide)) (c := '#') (by decide)
    unfold comment?
    split
    next same => exact absurd (List.cons.inj same).1 unmarked
    · rfl

section Shown

variable {notes : List String} {numbered : List (UInt64 × Nat)}

/-- Comments and numbered words as they are printed. -/
def listing (notes : List String) (numbered : List (UInt64 × Nat)) : Outcome :=
  printed (notes.map note ++ numbered.map fun entry => wordLine entry.2 entry.1)

theorem splitLines_listing (one : ∀ text ∈ notes, OneLine text) :
    splitLines (listing notes numbered).output.toList =
      notes.map (fun text => (note text).toList) ++
        numbered.map fun entry => (wordLine entry.2 entry.1).toList := by
  rw [listing, printed, splitLines_lines, List.map_append, List.map_map, List.map_map]
  · rfl
  · intro line member
    rcases List.mem_append.mp member with comment | word
    · obtain ⟨text, known, rfl⟩ := List.mem_map.mp comment
      exact OneLine.append_iff.mpr ⟨by decide, one text known⟩
    · obtain ⟨entry, -, rfl⟩ := List.mem_map.mp word
      exact oneLine_wordLine entry.2 entry.1

theorem filterMap_listing {α : Type} (one : ∀ text ∈ notes, OneLine text)
    (read : List Char → Option α) :
    (splitLines (listing notes numbered).output.toList).filterMap read =
      notes.filterMap (fun text => read (note text).toList) ++
        numbered.filterMap fun entry => read (wordLine entry.2 entry.1).toList := by
  rw [splitLines_listing one, List.filterMap_append, List.filterMap_map, List.filterMap_map]
  rfl

theorem comments_listing (one : ∀ text ∈ notes, OneLine text) :
    (listing notes numbered).comments = notes := by
  rw [Outcome.comments, filterMap_listing one]
  simp [comment?_note, comment?_wordLine]

theorem words_listing (one : ∀ text ∈ notes, OneLine text) :
    (listing notes numbered).words =
      numbered.map fun entry => Text.hexPadded 16 entry.1.toNat := by
  rw [Outcome.words, filterMap_listing one]
  simp [comment?_note, comment?_wordLine, behindBlank_wordLine]

end Shown

end FabricQueue.CommandLine
