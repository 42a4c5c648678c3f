import FabricQueue.Proofs.Arguments
import FabricQueue.Proofs.Fields
import FabricQueue.Proofs.Outputs

set_option autoImplicit false

namespace FabricQueue.CommandLine

def Byte (text : String) (b : UInt8) : Prop :=
  Text.Signed 10 text.toList b.toNat

def Half (text : String) (h : UInt16) : Prop :=
  Text.Signed 10 text.toList h.toNat

def Length (text : String) (n : UInt32) : Prop :=
  Text.Signed 10 text.toList n.toNat

def Address (text : String) (w : UInt64) : Prop :=
  Text.Word text.toList w.toNat

inductive Way : String → Direction → Prop where
  | in : Way "h2d" .hostToDevice
  | out : Way "d2h" .deviceToHost

/-- A dimension, as `count:stride`. -/
def Dimension (text : String) (d : Dim) : Prop :=
  ∃ count stride, text.toList = count ++ ':' :: stride ∧
    Text.Unsigned 10 count d.count.toNat ∧ Text.Unsigned 10 stride d.stride.toNat

structure DescribesHerd (given : List (List Char × String)) (h : Herd) : Prop where
  id : Given Half (some 0) (valuesOf "herd" given) h.id
  startColumn : Given Byte none (valuesOf "col" given) h.startColumn
  columns : Given Byte (some 1) (valuesOf "cols" given) h.columns
  startRow : Given Byte (some 0) (valuesOf "row" given) h.startRow
  rows : Given Byte (some 1) (valuesOf "rows" given) h.rows

structure DescribesTransfer (given : List (List Char × String)) (t : Transfer) : Prop where
  herd : Given Half (some 0) (valuesOf "herd" given) t.herd
  column : Given Byte none (valuesOf "col" given) t.column
  channel : Given Byte (some 0) (valuesOf "channel" given) t.channel
  direction : Given Way none (valuesOf "direction" given) t.direction
  address : Given Address none (valuesOf "addr" given) t.address
  run : Given Length none (valuesOf "len" given) t.run
  dims : ∃ dims, List.Forall₂ Dimension (valuesOf "dim" given) dims ∧ dims.length ≤ 3 ∧
    [t.inner, t.middle, t.outer] = dims ++ List.replicate (3 - dims.length) ⟨1, 0⟩
  burst : t.burst = 4
  space : t.space = 2

-- The command that the arguments of `encode` describe.
inductive Describes : List String → Command → Prop where
  | herdInit {arguments : List String} {h : Herd} (fields : DescribesHerd (options arguments) h) :
      Describes ("herd-init" :: arguments) (.herdInit h)
  | deviceInit {arguments : List String} {columns : UInt8}
      (fields : Given Byte none (valuesOf "columns" (options arguments)) columns) :
      Describes ("device-init" :: arguments) (.deviceInit columns)
  | transfer {arguments : List String} {t : Transfer}
      (fields : DescribesTransfer (options arguments) t) :
      Describes ("nd-memcpy" :: arguments) (.transfer t)

section Reading

variable {argument value : String}

theorem readRanged_ok {max n : Nat} (read : readRanged max argument value = .ok n) :
    Text.Signed 10 value.toList n ∧ n ≤ max := by
  unfold readRanged at read
  split at read
  · cases read
  next z number =>
    split_ifs at read with range
    cases read
    have number := Text.readSigned_ok (by decide) (by decide) number
    rw [Int.toNat_of_nonneg range.1]
    exact ⟨number, Int.toNat_le.mpr range.2⟩

theorem readByte_ok {b : UInt8} (read : readByte argument value = .ok b) : Byte value b := by
  obtain ⟨n, ranged, rfl⟩ := except_map_iff.mp read
  obtain ⟨number, below⟩ := readRanged_ok ranged
  rwa [Byte, UInt8.toNat_ofNat_of_lt' (Nat.lt_succ_of_le below)]

theorem readHalf_ok {h : UInt16} (read : readHalf argument value = .ok h) : Half value h := by
  obtain ⟨n, ranged, rfl⟩ := except_map_iff.mp read
  obtain ⟨number, below⟩ := readRanged_ok ranged
  rwa [Half, UInt16.toNat_ofNat_of_lt' (Nat.lt_succ_of_le below)]

theorem readLength_ok {n : UInt32} (read : readLength argument value = .ok n) : Length value n := by
  obtain ⟨n, ranged, rfl⟩ := except_map_iff.mp read
  obtain ⟨number, below⟩ := readRanged_ok ranged
  rwa [Length, UInt32.toNat_ofNat_of_lt' (Nat.lt_succ_of_le below)]

theorem readAddress_ok {w : UInt64} (read : readAddress argument value = .ok w) :
    Address value w := by
  unfold readAddress at read
  split at read
  next number =>
    cases read
    exact Text.readWord_ok number
  · cases read

theorem readWay_ok {d : Direction} (read : readChoice directionChoices argument value = .ok d) :
    Way value d := by
  unfold readChoice at read
  split at read
  next known =>
    cases read
    simp only [directionChoices, List.lookup_cons, List.lookup_nil] at known
    split at known
    next same =>
      cases known
      rw [eq_of_beq same]
      exact .in
    · split at known
      next same =>
        cases known
        rw [eq_of_beq same]
        exact .out
      · cases known
  · cases read

theorem splitColon_some {text count stride : List Char}
    (split : splitColon text = some (count, stride)) : text = count ++ ':' :: stride := by
  fun_induction splitColon text generalizing count with
  | case1 => cases split
  | case2 rest => cases split; rfl
  | case3 c rest other ih =>
    obtain ⟨⟨front, back⟩, parts, same⟩ := Option.map_eq_some_iff.mp split
    cases same
    rw [ih parts, List.cons_append]

theorem readSide_ok {side : String} {text : List Char} {h : UInt16}
    (read : readSide side argument value text = .ok h) : Text.Unsigned 10 text h.toNat := by
  unfold readSide at read
  split at read
  next number =>
    cases read
    obtain ⟨number, below⟩ := Text.readUnsigned_ok (by decide) (by decide) number
    rwa [UInt16.toNat_ofNat_of_lt' below]
  · cases read

theorem readDim_ok {d : Dim} (read : readDim argument value = .ok d) : Dimension value d := by
  unfold readDim at read
  split at read
  · cases read
  next count stride split =>
    obtain ⟨c, count', read⟩ := except_bind_iff.mp read
    obtain ⟨s, stride', same⟩ := except_bind_iff.mp read
    cases same
    exact ⟨count, stride, splitColon_some split, readSide_ok count', readSide_ok stride'⟩

end Reading

section Grammars

variable {value : String}

theorem herdGrammar_frame {f : Flag HerdArguments} (member : f ∈ herdGrammar.flags)
    {s s' : HerdArguments} (stored : f.store value s = .ok s') :
    (f.name ≠ "herd" → s'.herd = s.herd) ∧ (f.name ≠ "col" → s'.col = s.col) ∧
      (f.name ≠ "cols" → s'.cols = s.cols) ∧ (f.name ≠ "row" → s'.row = s.row) ∧
      (f.name ≠ "rows" → s'.rows = s.rows) := by
  simp only [herdGrammar, List.mem_cons, List.not_mem_nil, or_false] at member
  rcases member with rfl | rfl | rfl | rfl | rfl <;>
    (obtain ⟨a, -, rfl⟩ := except_map_iff.mp stored; simp [single])

theorem transferGrammar_frame {f : Flag TransferArguments} (member : f ∈ transferGrammar.flags)
    {s s' : TransferArguments} (stored : f.store value s = .ok s') :
    (f.name ≠ "herd" → s'.herd = s.herd) ∧ (f.name ≠ "col" → s'.col = s.col) ∧
      (f.name ≠ "channel" → s'.channel = s.channel) ∧
      (f.name ≠ "direction" → s'.direction = s.direction) ∧
      (f.name ≠ "addr" → s'.address = s.address) ∧ (f.name ≠ "len" → s'.length = s.length) ∧
      (f.name ≠ "dim" → s'.dims = s.dims) := by
  simp only [transferGrammar, List.mem_cons, List.not_mem_nil, or_false] at member
  rcases member with rfl | rfl | rfl | rfl | rfl | rfl | rfl <;>
    (obtain ⟨a, -, rfl⟩ := except_map_iff.mp stored; simp [single])

theorem dim_collected {f : Flag TransferArguments}
    (known : transferGrammar.flag? "dim".toList = some f) {s s' : TransferArguments}
    (set : f.set value s = .ok s') : ∃ d, Dimension value d ∧ s'.dims = s.dims ++ [d] := by
  obtain ⟨member, named⟩ := Grammar.flag?_own known
  have stored := (Flag.set_ok set).2
  simp only [transferGrammar, List.mem_cons, List.not_mem_nil, or_false] at member
  rcases member with rfl | rfl | rfl | rfl | rfl | rfl | rfl
  on_goal 7 =>
    obtain ⟨d, read, rfl⟩ := except_map_iff.mp stored
    exact ⟨d, readDim_ok read, rfl⟩
  all_goals exact absurd named (by decide)

theorem herd_kept {arguments : List String} {a : HerdArguments}
    (parsed : herdGrammar.parse {} arguments = .ok a) :
    Kept Half (valuesOf "herd" (options arguments)) a.herd ∧
      Kept Byte (valuesOf "col" (options arguments)) a.col ∧
      Kept Byte (valuesOf "cols" (options arguments)) a.cols ∧
      Kept Byte (valuesOf "row" (options arguments)) a.row ∧
      Kept Byte (valuesOf "rows" (options arguments)) a.rows := by
  have stores := Grammar.parse_stores rfl parsed
  have herd : herdGrammar.Keeps "herd" (·.herd) Half :=
    .single rfl readHalf_ok (fun _ _ => rfl)
      fun _ member differs _ _ _ stored => (herdGrammar_frame member stored).1 differs
  have col : herdGrammar.Keeps "col" (·.col) Byte :=
    .single rfl readByte_ok (fun _ _ => rfl)
      fun _ member differs _ _ _ stored => (herdGrammar_frame member stored).2.1 differs
  have cols : herdGrammar.Keeps "cols" (·.cols) Byte :=
    .single rfl readByte_ok (fun _ _ => rfl)
      fun _ member differs _ _ _ stored => (herdGrammar_frame member stored).2.2.1 differs
  have row : herdGrammar.Keeps "row" (·.row) Byte :=
    .single rfl readByte_ok (fun _ _ => rfl)
      fun _ member differs _ _ _ stored => (herdGrammar_frame member stored).2.2.2.1 differs
  have rows : herdGrammar.Keeps "rows" (·.rows) Byte :=
    .single rfl readByte_ok (fun _ _ => rfl)
      fun _ member differs _ _ _ stored => (herdGrammar_frame member stored).2.2.2.2 differs
  exact ⟨(stores.kept herd).1 rfl, (stores.kept col).1 rfl, (stores.kept cols).1 rfl,
    (stores.kept row).1 rfl, (stores.kept rows).1 rfl⟩

theorem device_kept {arguments : List String} {a : DeviceArguments}
    (parsed : deviceGrammar.parse {} arguments = .ok a) :
    Kept Byte (valuesOf "columns" (options arguments)) a.columns := by
  have columns : deviceGrammar.Keeps "columns" (·.columns) Byte := by
    refine .single rfl readByte_ok (fun _ _ => rfl) fun f member differs => ?_
    exact absurd (by rw [List.mem_singleton.mp member]; rfl) differs
  exact ((Grammar.parse_stores rfl parsed).kept columns).1 rfl

theorem transfer_kept {arguments : List String} {a : TransferArguments}
    (parsed : transferGrammar.parse {} arguments = .ok a) :
    Kept Half (valuesOf "herd" (options arguments)) a.herd ∧
      Kept Byte (valuesOf "col" (options arguments)) a.col ∧
      Kept Byte (valuesOf "channel" (options arguments)) a.channel ∧
      Kept Way (valuesOf "direction" (options arguments)) a.direction ∧
      Kept Address (valuesOf "addr" (options arguments)) a.address ∧
      Kept Length (valuesOf "len" (options arguments)) a.length ∧
      List.Forall₂ Dimension (valuesOf "dim" (options arguments)) a.dims := by
  have stores := Grammar.parse_stores rfl parsed
  have herd : transferGrammar.Keeps "herd" (·.herd) Half :=
    .single rfl readHalf_ok (fun _ _ => rfl)
      fun _ member differs _ _ _ stored => (transferGrammar_frame member stored).1 differs
  have col : transferGrammar.Keeps "col" (·.col) Byte :=
    .single rfl readByte_ok (fun _ _ => rfl)
      fun _ member differs _ _ _ stored => (transferGrammar_frame member stored).2.1 differs
  have channel : transferGrammar.Keeps "channel" (·.channel) Byte :=
    .single rfl readByte_ok (fun _ _ => rfl)
      fun _ member differs _ _ _ stored => (transferGrammar_frame member stored).2.2.1 differs
  have direction : transferGrammar.Keeps "direction" (·.direction) Way :=
    .single rfl readWay_ok (fun _ _ => rfl)
      fun _ member differs _ _ _ stored => (transferGrammar_frame member stored).2.2.2.1 differs
  have address : transferGrammar.Keeps "addr" (·.address) Address :=
    .single rfl readAddress_ok (fun _ _ => rfl)
      fun _ member differs _ _ _ stored => (transferGrammar_frame member stored).2.2.2.2.1 differs
  have length : transferGrammar.Keeps "len" (·.length) Length :=
    .single rfl readLength_ok (fun _ _ => rfl)
      fun _ member differs _ _ _ stored => (transferGrammar_frame member stored).2.2.2.2.2.1 differs
  have dims : transferGrammar.Collects "dim" (·.dims) Dimension :=
    { own := fun known _ _ _ set => dim_collected known set
      other := fun member differs _ _ _ set =>
        (transferGrammar_frame member (Flag.set_ok set).2).2.2.2.2.2.2 differs }
  obtain ⟨all, reads, collected⟩ := stores.collected dims
  rw [List.nil_append] at collected
  rw [collected]
  exact ⟨(stores.kept herd).1 rfl, (stores.kept col).1 rfl, (stores.kept channel).1 rfl,
    (stores.kept direction).1 rfl, (stores.kept address).1 rfl, (stores.kept length).1 rfl, reads⟩

end Grammars

theorem require_ok {α : Type} {name label : String} {o : Option α} {a : α}
    (required : require name label o = .ok a) : o = some a := by
  cases o with
  | none => cases required
  | some a => cases required; rfl

/-- The command a request comes to, where there is room for its dimensions. -/
inductive EncodeRequest.Commands : EncodeRequest → Command → Prop where
  | command (c : Command) : Commands (.command c) c
  | transfer (t : Transfer) {dims : List Dim} (room : dims.length ≤ 3) :
      Commands (.transfer t dims) (.transfer (withDims t dims))

theorem withDims_dims (t : Transfer) {dims : List Dim} (room : dims.length ≤ 3) :
    [(withDims t dims).inner, (withDims t dims).middle, (withDims t dims).outer] =
      dims ++ List.replicate (3 - dims.length) ⟨1, 0⟩ := by
  match dims, room with
  | [], _ => rfl
  | [_], _ => rfl
  | [_, _], _ => rfl
  | [_, _, _], _ => rfl

theorem parseEncode_describes {arguments : List String} {request : EncodeRequest} {c : Command}
    (parsed : parseEncode arguments = .ok request) (made : request.Commands c) :
    Describes arguments c := by
  unfold parseEncode at parsed
  split at parsed
  · cases parsed
  · obtain ⟨a, parsed, requested⟩ := except_bind_iff.mp parsed
    obtain ⟨column, required, same⟩ := except_bind_iff.mp requested
    obtain ⟨herd, col, cols, row, rows⟩ := herd_kept parsed
    rw [require_ok required] at col
    cases same
    cases made
    exact .herdInit
      { id := herd.default 0
        startColumn := col.given none
        columns := cols.default 1
        startRow := row.default 0
        rows := rows.default 1 }
  · obtain ⟨a, parsed, requested⟩ := except_bind_iff.mp parsed
    obtain ⟨columns, required, same⟩ := except_bind_iff.mp requested
    have kept := device_kept parsed
    rw [require_ok required] at kept
    cases same
    cases made
    exact .deviceInit (kept.given none)
  · obtain ⟨a, parsed, requested⟩ := except_bind_iff.mp parsed
    obtain ⟨column, required, requested⟩ := except_bind_iff.mp requested
    obtain ⟨way, directed, requested⟩ := except_bind_iff.mp requested
    obtain ⟨start, addressed, requested⟩ := except_bind_iff.mp requested
    obtain ⟨run, measured, same⟩ := except_bind_iff.mp requested
    obtain ⟨herd, col, channel, direction, address, length, dims⟩ := transfer_kept parsed
    rw [require_ok required] at col
    rw [require_ok directed] at direction
    rw [require_ok addressed] at address
    rw [require_ok measured] at length
    cases same
    cases made with
    | transfer t room =>
      exact .transfer
        { herd := herd.default 0
          column := col.given none
          channel := channel.default 0
          direction := direction.given none
          address := address.given none
          run := length.given none
          dims := ⟨a.dims, dims, room, withDims_dims _ room⟩
          burst := rfl
          space := rfl }
  · cases parsed
  · cases parsed

-- Numbered words of a record.
def numbered (r : Record) : List (UInt64 × Nat) :=
  r.toWords.toList.zipIdx

def Encodes (c : Command) (text : String) (o : Outcome) : Prop :=
  c.text = .ok text ∧ ∃ before, (∀ line ∈ before ++ [text], OneLine line) ∧
    o = listing (before ++ [text]) (numbered c.encode)

theorem encodeCommand_success (before : List String) {c : Command}
    (ended : (encodeCommand (before.map note) c).ending = .success)
    (one : ∀ line ∈ before, OneLine line) :
    ∃ text, Encodes c text (encodeCommand (before.map note) c) := by
  rw [encodeCommand] at ended ⊢
  split at ended
  next text known =>
    refine ⟨text, known, before, ?_, ?_⟩
    · intro line member
      rcases List.mem_append.mp member with earlier | last
      · exact one line earlier
      · rw [List.mem_singleton.mp last]
        exact .command known
    · rw [listing, List.map_append]
      rfl
  · cases ended

def countNote (count extent : Nat) : String :=
  toString count ++ " bytes, extent " ++ Text.hex extent

theorem countNote_eq (count extent : Nat) :
    "# " ++ toString count ++ " bytes, extent " ++ Text.hex extent =
      note (countNote count extent) := by
  simp only [note, countNote, String.append_assoc]

theorem oneLine_countNote (count extent : Nat) : OneLine (countNote count extent) := by
  simp only [countNote, OneLine.append_iff, OneLine.number, OneLine.hex, true_and, and_true]
  decide

theorem runEncode_success {request : EncodeRequest}
    (ended : (runEncode request).ending = .success) :
    ∃ c text, request.Commands c ∧ Encodes c text (runEncode request) := by
  cases request with
  | command c =>
    obtain ⟨text, encodes⟩ := encodeCommand_success [] ended (by simp)
    exact ⟨c, text, .command c, encodes⟩
  | transfer t dims =>
    rw [runEncode] at ended ⊢
    split_ifs at ended ⊢ with many
    dsimp only at ended ⊢
    cases counted : (withDims t dims).byteCount with
    | error cause =>
      rw [counted] at ended
      cases ended
    | ok count =>
      simp only [counted, countNote_eq] at ended ⊢
      obtain ⟨text, encodes⟩ := encodeCommand_success [_] ended
        (by simpa using oneLine_countNote count _)
      exact ⟨_, text, .transfer t (Nat.le_of_not_lt many), encodes⟩

theorem code_success {e : Ending} (exits : e.code = some 0) :
    e = .success ∨ ∃ command, e = .helped command := by
  cases e with
  | success => exact .inl rfl
  | helped command => exact .inr ⟨command, rfl⟩
  | _ => cases exits

theorem ofUsage_helped {cause : UsageError} {command : List String}
    (helped : Ending.ofUsage cause = .helped command) : cause = .help command := by
  cases cause <;> cases helped
  rfl

theorem encodeCommand_ends (before : List String) (c : Command) (command : List String) :
    (encodeCommand before c).ending ≠ .helped command := by
  rw [encodeCommand]
  split <;> exact Ending.noConfusion

theorem runEncode_ends (request : EncodeRequest) (command : List String) :
    (runEncode request).ending ≠ .helped command := by
  unfold runEncode
  split
  · exact encodeCommand_ends [] _ command
  · split_ifs
    · exact Ending.noConfusion
    · dsimp only
      split
      · exact Ending.noConfusion
      · exact encodeCommand_ends _ _ command

def spellings (r : Record) : List String :=
  r.toWords.toList.map fun word => Text.hexPadded 16 word.toNat

theorem Encodes.comment {c : Command} {text : String} {o : Outcome} (encodes : Encodes c text o) :
    o.comments.getLast? = some text := by
  obtain ⟨-, before, one, rfl⟩ := encodes
  rw [comments_listing one, List.getLast?_concat]

theorem Encodes.words {c : Command} {text : String} {o : Outcome} (encodes : Encodes c text o) :
    o.words = spellings c.encode := by
  obtain ⟨-, before, one, rfl⟩ := encodes
  rw [words_listing one, numbered, spellings]
  conv_rhs => rw [← List.zipIdx_map_fst 0 c.encode.toWords.toList, List.map_map]
  rfl

theorem plain_hexPadded (width n : Nat) : Grammar.Plain (Text.hexPadded width n) := by
  rw [Grammar.Plain, Text.toList_hexPadded, List.head?_cons]
  decide

theorem readAddress_spellings (argument : String) (words : List UInt64) :
    (words.map fun word => Text.hexPadded 16 word.toNat).mapM (readAddress argument) =
      .ok words := by
  induction words with
  | nil => rfl
  | cons word rest ih =>
    have read : readAddress argument (Text.hexPadded 16 word.toNat) = .ok word := by
      rw [readAddress, Text.readWord_hexPadded]
    rw [List.map_cons, List.mapM_cons, read, ih]
    rfl

theorem parse_spellings (r : Record) :
    parse ("decode" :: spellings r) = .ok (.decode r.toWords.toList) := by
  have plain : ∀ word ∈ spellings r, Grammar.Plain word := by
    intro word member
    obtain ⟨w, -, rfl⟩ := List.mem_map.mp member
    exact plain_hexPadded 16 w.toNat
  have eight : (spellings r).length = 8 := by rw [spellings, List.length_map, Vector.length_toList]
  have stored : decodeGrammar.parse {} (spellings r) = .ok { words := r.toWords.toList } := by
    cases words : spellings r with
    | nil => simp [words] at eight
    | cons word rest =>
      rw [words] at plain eight
      rw [List.length_cons] at eight
      have room : rest.length < decodeGrammar.words := by
        change rest.length < 8
        omega
      rw [Grammar.parse_words room plain, ← words]
      have all := readAddress_spellings "[WORDS] [WORDS]..." r.toWords.toList
      simp only [decodeGrammar]
      rw [if_pos (by rw [words, List.length_cons, eight])]
      exact except_bind_iff.mpr ⟨_, all, rfl⟩
  simp [parse, stored]

theorem runDecode_toWords (r : Record) : runDecode r.toWords.toList = decodeRecord r := by
  have eight : r.toWords.toList.toArray.size = 8 := by simp
  have same : (⟨r.toWords.toList.toArray, eight⟩ : Vector UInt64 8) = r.toWords := by
    apply Vector.toArray_inj.mp
    exact Array.toArray_toList
  rw [runDecode, dif_pos eight, same, Record.ofWords_toWords]

theorem headerLine_encode (c : Command) :
    headerLine c.encode =
      "header 0x0001 (pending)  type " ++ Text.hex c.typeCode.toNat ++ "  signal 1" := by
  have header : c.encode.header = Header.pending := by cases c <;> rfl
  have kind : c.encode.kind = c.typeCode := by cases c <;> rfl
  have signal : c.encode.signal = signalPending := by cases c <;> rfl
  have waits : c.encode.isActive = false := by
    rw [Record.isActive, header, Header.pending_isActive]
  have front : "header " ++ Text.hexPadded 4 Header.pending.toNat ++ " (" ++ "pending" ++
      ")  type " = "header 0x0001 (pending)  type " := by decide
  have back : "  signal " ++ toString signalPending.toNat = "  signal 1" := by decide
  rw [headerLine, header, kind, signal, waits, String.append_assoc, back]
  simp only [Bool.false_eq_true, if_false, front]

theorem Describes.narrow {arguments : List String} {c : Command}
    (describes : Describes arguments c) : c.Narrow := by
  cases describes with
  | transfer fields =>
    rw [Command.Narrow, fields.burst]
    decide
  | _ => trivial

theorem Encodes.decoded {c : Command} {text : String} {o : Outcome} (encodes : Encodes c text o)
    (narrow : c.Narrow) (lookup : String → Option String) (seen : Observation Machine)
    (m : Machine) :
    run ("decode" :: o.words) lookup seen m =
      (printed ["header 0x0001 (pending)  type " ++ Text.hex c.typeCode.toNat ++ "  signal 1",
        text], m) := by
  rw [run, encodes.words, parse_spellings]
  simp only [runInvocation, runDecode_toWords, decodeRecord, Command.decode_encode,
    narrow.received, encodes.1, headerLine_encode]

-- What `encode` accepts and prints, `decode` takes back: the arguments describe one command, its
-- text is the last comment, and the eight words decode to that command and to that text.
theorem decode_undoes_encode {arguments : List String} {lookup : String → Option String}
    {seen : Observation Machine} {m : Machine} {o : Outcome}
    (helpless : ∀ command, parse ("encode" :: arguments) ≠ .error (.help command))
    (encoded : (run ("encode" :: arguments) lookup seen m).1 = o)
    (exits : o.ending.code = some 0) :
    ∃ command text, Describes arguments command ∧ o.comments.getLast? = some text ∧
      (∃ record : Record, o.words.length = 8 ∧
        parse ("decode" :: o.words) = .ok (.decode record.toWords.toList) ∧
        Command.decode record = .ok command) ∧
      ∀ lookup' seen' m', run ("decode" :: o.words) lookup' seen' m' =
        (⟨lines ["header 0x0001 (pending)  type " ++ Text.hex command.typeCode.toNat ++
          "  signal 1", text], .success⟩, m') := by
  rw [parse] at helpless
  rw [run, parse] at encoded
  cases parsed : parseEncode arguments with
  | error cause =>
    rw [parsed] at encoded helpless
    subst encoded
    obtain succeeds | ⟨command, helped⟩ := code_success exits
    · cases cause <;> cases succeeds
    · exact absurd (congrArg Except.error (ofUsage_helped helped)) (helpless command)
  | ok request =>
    rw [parsed] at encoded
    change runEncode request = o at encoded
    subst encoded
    obtain succeeds | ⟨command, helped⟩ := code_success exits
    case inr => exact absurd helped (runEncode_ends request command)
    obtain ⟨c, text, made, encodes⟩ := runEncode_success succeeds
    have describes := parseEncode_describes parsed made
    refine ⟨c, text, describes, encodes.comment, ⟨c.encode, ?_, ?_, ?_⟩,
      encodes.decoded describes.narrow⟩
    · rw [encodes.words, spellings, List.length_map, Vector.length_toList]
    · rw [encodes.words, parse_spellings]
    · rw [Command.decode_encode, describes.narrow.received]

theorem encode_help_exits : ∃ o, (run ["encode", "--help"] (fun _ => none) (fun _ => []) {}).1 = o ∧
    o.ending.code = some 0 ∧ o.words = [] ∧ (∀ command, ¬Describes ["--help"] command) ∧
    (run ("decode" :: o.words) (fun _ => none) (fun _ => []) {}).1.ending.code = some 1 := by
  refine ⟨_, rfl, rfl, rfl, fun command describes => ?_, rfl⟩
  generalize named : ["--help"] = arguments at describes
  cases describes <;> exact absurd (List.cons.inj named).1 (by decide)

def sampleArguments : List String :=
  ["nd-memcpy", "--col=3", "--direction", "h2d", "--addr=0x1_000", "--len", "64", "--dim=4:128"]

def sampleTransfer : Transfer where
  herd := 0
  column := 3
  channel := 0
  direction := .hostToDevice
  address := 0x1000
  run := 64
  inner := ⟨4, 128⟩

def sampleEncoded : Outcome :=
  (run ("encode" :: sampleArguments) (fun _ => none) (fun _ => []) {}).1

theorem sampleEncoded_encodes :
    Encodes (.transfer sampleTransfer) "nd-memcpy host->device col=3 ch=0 addr=0x1000 bytes=256"
      sampleEncoded :=
  ⟨by rfl, ["256 bytes, extent 0x1c0"], by decide, by rfl⟩

-- Four runs of 64 bytes through the third column.
theorem decode_undoes_encode_sample :
    (∀ command, parse ("encode" :: sampleArguments) ≠ .error (.help command)) ∧
      sampleEncoded.ending.code = some 0 ∧ ∃ command, Describes sampleArguments command ∧
        run ("decode" :: sampleEncoded.words) (fun _ => none) (fun _ => []) {} =
          (⟨lines ["header 0x0001 (pending)  type 0x103  signal 1",
            "nd-memcpy host->device col=3 ch=0 addr=0x1000 bytes=256"], .success⟩, {}) := by
  have exits : sampleEncoded.ending.code = some 0 := by rfl
  obtain ⟨request, parsed⟩ : ∃ request,
      parse ("encode" :: sampleArguments) = .ok (.encode request) := ⟨_, rfl⟩
  have helpless (command : List String) :
      parse ("encode" :: sampleArguments) ≠ .error (.help command) := by
    rw [parsed]
    nofun
  obtain ⟨command, text, describes, comment, -, decoded⟩ := decode_undoes_encode helpless rfl exits
  obtain rfl := Option.some.inj (comment.symm.trans sampleEncoded_encodes.comment)
  have code : command.typeCode = 0x103 := by
    generalize named : sampleArguments = arguments at describes
    cases describes with
    | transfer => rfl
    | _ => exact absurd (List.cons.inj named).1 (by decide)
  have shown := decoded (fun _ => none) (fun _ => []) {}
  rw [code] at shown
  exact ⟨helpless, exits, command, describes, shown⟩

end FabricQueue.CommandLine
