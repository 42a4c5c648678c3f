import FabricQueue.Proofs.Access

set_option autoImplicit false

namespace FabricQueue.Region

inductive Request where
  | read32 (offset : Nat)
  | write32 (offset : Nat) (value : UInt32)
  | read64 (offset : Nat)
  | write64 (offset : Nat) (value : UInt64)
  | fetchAdd (offset : Nat) (value : UInt64)
  | readBytes (offset len : Nat)
  | writeBytes (offset : Nat) (bytes : List UInt8)
  | readWords (offset count : Nat)
  | writeWords (offset : Nat) (words : List UInt32)
  | fill (offset len : Nat) (value : UInt8)
  deriving DecidableEq, Repr

-- What a request gives back.
inductive Reading where
  | nothing
  | half (value : UInt32)
  | word (value : UInt64)
  | bytes (bytes : List UInt8)
  | words (words : List UInt32)
  deriving DecidableEq, Repr

namespace Request

def offset : Request → Nat
  | read32 offset | write32 offset _ | read64 offset | write64 offset _ | fetchAdd offset _
  | readBytes offset _ | writeBytes offset _ | readWords offset _ | writeWords offset _
  | fill offset _ _ => offset

def len : Request → Nat
  | read32 _ | write32 _ _ => 4
  | read64 _ | write64 _ _ | fetchAdd _ _ => 8
  | readBytes _ len | fill _ len _ => len
  | writeBytes _ bytes => bytes.length
  | readWords _ count => 4 * count
  | writeWords _ words => 4 * words.length

/-- Bytes have no alignment, and words that are copied as bytes have none either. -/
def alignment : Request → Nat
  | read32 _ | write32 _ _ => 4
  | read64 _ | write64 _ _ | fetchAdd _ _ => 8
  | _ => 1

/-- What is given back for the bytes that stand in the range. -/
def reading (seen : List UInt8) : Request → Reading
  | read32 _ => .half (UInt32.ofNat (ofBytes seen))
  | read64 _ | fetchAdd _ _ => .word (UInt64.ofNat (ofBytes seen))
  | readBytes _ _ => .bytes seen
  | readWords _ _ => .words (bytesWords seen)
  | _ => .nothing

/-- The bytes that are put in the place of those that stand in the range; none if it is only read. -/
def stored (seen : List UInt8) : Request → List UInt8
  | write32 _ value => bytesOf 4 value.toNat
  | write64 _ value => bytesOf 8 value.toNat
  | fetchAdd _ value => bytesOf 8 (UInt64.ofNat (ofBytes seen) + value).toNat
  | writeBytes _ bytes => bytes
  | writeWords _ words => wordBytes words
  | fill _ len value => List.replicate len value
  | _ => []

end Request

def serve (r : Region) : Request → Access Reading
  | .read32 offset => Reading.half <$> r.read32 offset
  | .write32 offset value => (fun _ => Reading.nothing) <$> r.write32 offset value
  | .read64 offset => Reading.word <$> r.read64 offset
  | .write64 offset value => (fun _ => Reading.nothing) <$> r.write64 offset value
  | .fetchAdd offset value => Reading.word <$> r.fetchAdd offset value
  | .readBytes offset len => Reading.bytes <$> r.readBytes offset len
  | .writeBytes offset bytes => (fun _ => Reading.nothing) <$> r.writeBytes offset bytes
  | .readWords offset count => Reading.words <$> r.readWords offset count
  | .writeWords offset words => (fun _ => Reading.nothing) <$> r.writeWords offset words
  | .fill offset len value => (fun _ => Reading.nothing) <$> r.fill offset len value

theorem Request.length_stored (q : Request) (seen : List UInt8) :
    (q.stored seen).length = q.len ∨ q.stored seen = [] := by
  cases q <;> simp [stored, len, length_wordBytes]

theorem map_access {α β : Type} {r : Region} {offset len alignment : Nat}
    {use : Nat → Memory → α × Memory} (change : α → β) :
    change <$> r.access offset len alignment use =
      r.access offset len alignment fun start m => (change (use start m).1, (use start m).2) := by
  funext m
  simp only [Functor.map, EStateM.map, access]
  cases r.locate offset len alignment <;> rfl

theorem serve_eq (r : Region) (q : Request) : r.serve q =
    r.access q.offset q.len q.alignment fun start m =>
      (q.reading (m.read start q.len), m.write start (q.stored (m.read start q.len))) := by
  cases q
  all_goals
    simp only [serve, read32, write32, read64, write64, fetchAdd, readBytes, writeBytes, readWords,
      writeWords, fill, map_access, length_wordBytes]
    rfl

variable {r : Region} {q : Request} {m : Memory}

theorem serve_granted {start : Nat} (placed : r.locate q.offset q.len q.alignment = .ok start) :
    r.serve q m = .ok (q.reading (m.read start q.len))
      (m.write start (q.stored (m.read start q.len))) := by
  simp only [serve_eq, access, placed]

theorem serve_refused {failure : Failure}
    (refused : r.locate q.offset q.len q.alignment = .error failure) :
    r.serve q m = .error failure m := by
  simp only [serve_eq, access, refused]

end FabricQueue.Region
