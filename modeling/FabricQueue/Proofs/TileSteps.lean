import FabricQueue.Proofs.Access
import FabricQueue.Proofs.TileRequests

set_option autoImplicit false

namespace FabricQueue.TileArray

-- What ends a request before its answer.
inductive Halt where
  | failed (failure : Failure)
  -- An index or a slice past an end, or a remainder by zero.
  | outOfRange
  -- A difference below zero.
  | underflow
  | outOfMemory
  deriving DecidableEq, Repr

def refusal (cause : Error) : Halt :=
  .failed (.error cause)

abbrev Steps := EStateM Halt TileArray

namespace Steps

def check (condition : Prop) [Decidable condition] (otherwise : Halt) : Steps Unit :=
  if condition then pure () else throw otherwise

def find (name : String) : Steps Nat := do
  match (← get).buffers.position? name with
  | some i => return i
  | none => throw (refusal (.invalidConfig (.unknownBuffer name)))

def bufferAt (i : Nat) : Steps TileBuffer := do
  match (← get).buffers.items[i]? with
  | some b => return b
  | none => throw .outOfRange

def store (i : Nat) (b : TileBuffer) : Steps Unit :=
  modify fun t => { t with buffers := t.buffers.modify i fun _ => b }

def addBuffer (name : String) (words : Nat) : Steps Reading := do
  check (words ≠ 0) (refusal (.invalidConfig (.emptyBuffer name)))
  let taken := ((← get).buffers.position? name).isSome
  check (taken = false) (refusal (.invalidConfig (.duplicateBuffer name)))
  check (4 * words ≤ allocationLimit) .outOfMemory
  modify fun t => { t with buffers := ⟨t.buffers.items.push (TileBuffer.zeroed name words)⟩ }
  return .nothing

def route (e : Endpoint) (names : List String) : Steps Reading := do
  check (names ≠ []) (refusal (.invalidConfig (.emptyRoute e)))
  let buffers ← names.mapM find
  modify fun t => t.setRoute e { buffers }
  return .nothing

/-- The buffer of a word. The byte offset for the refusal is computed in any case. -/
def holder (name : String) (index : Nat) : Steps (Nat × TileBuffer) := do
  let i ← find name
  let b ← bufferAt i
  check (4 * index < UInt64.size) (.failed (.overflow .multiplication))
  check (index < b.wordCount) (refusal (.outOfBounds (4 * index) 4 b.byteLength))
  return (i, b)

def read (name : String) (index : Nat) : Steps Reading := do
  let (_, b) ← holder name index
  return .word (b.word index)

def write (name : String) (index : Nat) (value : UInt32) : Steps Reading := do
  let (i, b) ← holder name index
  store i (b.setWord index value)
  return .nothing

def setFull (name : String) (full : Bool) : Steps Reading := do
  let i ← find name
  let b ← bufferAt i
  store i { b with full }
  store i { b with full, cursor := 0 }
  return .nothing

def current (r : Route) : Steps Nat :=
  match r.buffers[r.next]? with
  | some i => pure i
  | none => throw .outOfRange

/-- How many bytes move, which are those in a slice of the buffer. -/
def share (b : TileBuffer) (limit : Nat) : Steps Nat := do
  check (b.cursor ≤ b.byteLength) .underflow
  let count := min limit (b.byteLength - b.cursor)
  check (b.cursor + count < UInt64.size) (.failed (.overflow .addition))
  check (b.cursor + count ≤ b.byteLength) .outOfRange
  return count

/-- Turn the lock of a buffer that came to its end, and go on to the next one. -/
def turn (e : Endpoint) (r : Route) (i : Nat) (b : TileBuffer) : Steps Unit := do
  store i { b with full := decide (e.direction = .hostToDevice), cursor := 0 }
  check (r.buffers.length ≠ 0) .outOfRange
  modify fun t => t.setRoute e r.advance

def move (e : Endpoint) (r : Route) (i : Nat) (b : TileBuffer) (host : List UInt8) :
    Steps Reading := do
  let count ← share b host.length
  let copied := b.copied e.direction host count
  store i copied
  store i { copied with cursor := b.cursor + count }
  if b.cursor + count = b.byteLength then turn e r i copied else pure ()
  return .moved count (b.shown e.direction host count)

def stream (e : Endpoint) (host : List UInt8) : Steps Reading := do
  match (← get).routeOf e with
  | none => throw (refusal (.invalidState (.noRoute e)))
  | some r =>
    let i ← current r
    let b ← bufferAt i
    if ready e.direction b then move e r i b host else return .moved 0 host

end Steps

def Request.steps : Request → Steps Reading
  | addBuffer name words => Steps.addBuffer name words
  | route e names => Steps.route e names
  | read name index => Steps.read name index
  | write name index value => Steps.write name index value
  | setFull name full => Steps.setFull name full
  | stream e host => Steps.stream e host

variable {t : TileArray} {q : Request} {e : Endpoint} {r : Route} {b : TileBuffer}

theorem position_found {name : String} {i : Nat} (known : t.position name = .ok i) :
    ∃ b, t.buffers.items[i]? = some b :=
  ⟨_, Array.getElem?_eq_getElem (position_lt known)⟩

-- The end of a request with its answer. One that failed has left the array as it was.
def settle (t : TileArray) : Except Failure (Reading × TileArray) →
    EStateM.Result Halt TileArray Reading
  | .ok (reading, t') => .ok reading t'
  | .error failure => .error (.failed failure) t

namespace Steps

theorem check_ok {condition : Prop} [Decidable condition] {otherwise : Halt} (holds : condition) :
    check condition otherwise t = .ok () t := by
  rw [check, if_pos holds]
  rfl

theorem check_failed {condition : Prop} [Decidable condition] {otherwise : Halt}
    (fails : ¬condition) : check condition otherwise t = .error otherwise t := by
  rw [check, if_neg fails]
  rfl

theorem get_ok : (get : Steps TileArray) t = .ok t t :=
  rfl

theorem find_known {name : String} {i : Nat} (known : t.position name = .ok i) :
    find name t = .ok i t := by
  unfold position at known
  rw [find, bind_ok get_ok]
  split at known
  next there =>
    cases known
    simp only [there]
    rfl
  · cases known

theorem find_unknown {name : String} {fault : ConfigFault} (unknown : t.position name = .error fault) :
    find name t = .error (refusal (.invalidConfig fault)) t := by
  unfold position at unknown
  rw [find, bind_ok get_ok]
  split at unknown
  · cases unknown
  next missing =>
    cases unknown
    simp only [missing]
    rfl

theorem bufferAt_ok {i : Nat} (found : t.buffers.items[i]? = some b) : bufferAt i t = .ok b t := by
  rw [bufferAt, bind_ok get_ok]
  simp only [found]
  rfl

theorem store_ok {i : Nat} :
    store i b t = .ok () { t with buffers := t.buffers.modify i fun _ => b } :=
  rfl

theorem addBuffer_settles {name : String} {words : Nat}
    (allocatable : 4 * words ≤ allocationLimit) :
    addBuffer name words t = t.settle (t.serve (.addBuffer name words)) := by
  simp only [addBuffer, serve, TileArray.addBuffer]
  by_cases none : words = 0
  · rw [bind_error (check_failed (not_not.mpr none)), if_pos none]
    rfl
  rw [bind_ok (check_ok none), bind_ok get_ok, if_neg none]
  cases taken : (t.buffers.position? name).isSome with
  | true =>
    rw [bind_error (check_failed Bool.true_eq_false.mp), if_pos rfl]
    rfl
  | false =>
    rw [bind_ok (check_ok rfl), bind_ok (check_ok allocatable), if_neg Bool.false_ne_true]
    rfl

theorem mapM_find (t : TileArray) (names : List String) :
    names.mapM find t = match names.mapM t.position with
      | .ok buffers => .ok buffers t
      | .error fault => .error (refusal (.invalidConfig fault)) t := by
  induction names with
  | nil => rfl
  | cons name names ih =>
    rw [List.mapM_cons, List.mapM_cons]
    cases first : t.position name with
    | error fault =>
      rw [bind_error (find_unknown first)]
      rfl
    | ok i =>
      rw [bind_ok (find_known first)]
      cases rest : names.mapM t.position with
      | error fault =>
        rw [rest] at ih
        rw [bind_error ih]
        rfl
      | ok more =>
        rw [rest] at ih
        rw [bind_ok ih]
        rfl

theorem route_settles (names : List String) :
    route e names t = t.settle (t.serve (.route e names)) := by
  cases names with
  | nil => rfl
  | cons name names =>
    rw [route, bind_ok (check_ok (List.cons_ne_nil _ _)), serve, route_cons]
    have found := mapM_find t (name :: names)
    cases known : (name :: names).mapM t.position with
    | error fault =>
      rw [known] at found
      rw [bind_error found]
      rfl
    | ok buffers =>
      rw [known] at found
      rw [bind_ok found]
      rfl

theorem setFull_settles (name : String) (full : Bool) :
    setFull name full t = t.settle (t.serve (.setFull name full)) := by
  rw [setFull, serve, TileArray.setFull]
  cases known : t.position name with
  | error fault =>
    rw [bind_error (find_unknown known)]
    rfl
  | ok i =>
    obtain ⟨b, found⟩ := position_found known
    have locked := t.buffers.modify_eq found fun b => b.setFull full
    rw [bind_ok (find_known known), bind_ok (bufferAt_ok found), bind_ok store_ok, bind_ok store_ok,
      t.buffers.modify_modify]
    exact congrArg (fun buffers => EStateM.Result.ok Reading.nothing { t with buffers }) locked.symm

section Streaming

variable {count : Nat}

theorem current_ok (sound : r.Sound count) : current r t = .ok r.current t := by
  simp only [current, Route.current, List.getD, List.getElem?_eq_getElem sound.next]
  rfl

theorem share_ok (sound : b.Sound) (fits : b.byteLength ≤ allocationLimit) (limit : Nat) :
    share b limit t = .ok (min limit b.room) t := by
  have cursor := sound.cursor
  have narrow : allocationLimit < UInt64.size := by decide
  have room : min limit b.room ≤ b.byteLength - b.cursor := Nat.min_le_right _ _
  unfold TileBuffer.room at *
  rw [share, bind_ok (check_ok (by omega)), bind_ok (check_ok (by omega)),
    bind_ok (check_ok (by omega))]
  rfl

theorem turn_ok (sound : r.Sound count) (i : Nat) : turn e r i b t =
    .ok () (({ t with buffers := t.buffers.modify i fun _ => b.setFull (e.direction = .hostToDevice) } :
      TileArray).setRoute e r.advance) := by
  rw [turn, bind_ok store_ok, bind_ok (check_ok (Nat.ne_zero_of_lt sound.next))]
  rfl

theorem move_ok (route : r.Sound count) (sound : b.Sound) (fits : b.byteLength ≤ allocationLimit)
    (host : List UInt8) : move e r r.current b host t =
      .ok (.moved (min host.length b.room) (b.shown e.direction host (min host.length b.room)))
        (t.pass e r (b.ends (min host.length b.room)) fun _ =>
          (b.copied e.direction host (min host.length b.room)).advance (min host.length b.room)
            (e.direction = .hostToDevice)) := by
  rw [move, bind_ok (share_ok sound fits _)]
  generalize min host.length b.room = moved
  have ends : (b.copied e.direction host moved).ends moved = b.ends moved := by
    rw [TileBuffer.ends, TileBuffer.ends, TileBuffer.byteLength_copied, TileBuffer.cursor_copied]
  have cursor := b.cursor_copied e.direction host moved
  simp only [bind_ok store_ok, TileBuffers.modify_modify]
  -- All that was stored on the way is overwritten by what the cursor and the lock come to.
  cases last : b.ends moved with
  | true =>
    rw [if_pos (TileBuffer.ends_iff.mp last), bind_ok (turn_ok route _), pass, if_pos rfl,
      TileBuffer.advance_last (ends.trans last)]
    simp only [TileBuffers.modify_modify]
    rfl
  | false =>
    have short : ¬b.cursor + moved = b.byteLength := mt TileBuffer.ends_iff.mpr (by simp [last])
    rw [if_neg short, pass, TileBuffer.advance_part (ends.trans last), cursor]
    rfl

end Streaming

end Steps

theorem Within.stream_settles (within : t.Within) (e : Endpoint) (host : List UInt8) :
    Steps.stream e host t = t.settle (t.serve (.stream e host)) := by
  rw [Steps.stream, bind_ok Steps.get_ok]
  cases known : t.routeOf e with
  | none =>
    rw [serve_unrouted known]
    rfl
  | some r =>
    obtain ⟨b, found, sound⟩ := within.sound.current known
    have route := within.sound.route known
    simp only [bind_ok (Steps.current_ok route), bind_ok (Steps.bufferAt_ok found)]
    cases lock : ready e.direction b with
    | false =>
      rw [serve_barred known found lock, if_neg Bool.false_ne_true]
      rfl
    | true =>
      rw [serve_open known found sound lock, if_pos rfl,
        Steps.move_ok route sound (within.fits _ _ found)]
      rfl

section Word

variable {name : String} {i index : Nat}

theorem word_found (found : t.buffers.items[i]? = some b) :
    (t.buffers.items[i]?.map fun b => b.word index).getD 0 = b.word index := by
  rw [found]
  rfl

-- The word is in its buffer, behind the end of it, or so far behind that its offset has no number.
theorem locate_known (known : t.position name = .ok i) (found : t.buffers.items[i]? = some b) :
    t.locate name index =
      if UInt64.size ≤ 4 * index then .error (.overflow .multiplication)
      else if b.wordCount ≤ index then .error (.error (.outOfBounds (4 * index) 4 b.byteLength))
      else .ok i := by
  have whole : b.byteLength < 4 * index + 4 ↔ b.wordCount ≤ index := by
    unfold TileBuffer.wordCount
    omega
  simp only [locate, known, found, Option.map_some, Option.getD_some, whole]

theorem locate_unknown {fault : ConfigFault} (unknown : t.position name = .error fault) :
    t.locate name index = .error (.error (.invalidConfig fault)) := by
  simp only [locate, unknown]

theorem Steps.holder_refused {failure : Failure} (refused : t.locate name index = .error failure) :
    holder name index t = .error (.failed failure) t := by
  unfold holder
  cases known : t.position name with
  | error fault =>
    rw [locate_unknown known] at refused
    cases refused
    rw [bind_error (find_unknown known)]
    rfl
  | ok i =>
    obtain ⟨b, found⟩ := position_found known
    rw [locate_known known found] at refused
    rw [bind_ok (find_known known), bind_ok (bufferAt_ok found)]
    split_ifs at refused with wide outside
    · cases refused
      rw [bind_error (check_failed (Nat.not_lt.mpr wide))]
    · cases refused
      rw [bind_ok (check_ok (Nat.lt_of_not_le wide)),
        bind_error (check_failed (Nat.not_lt.mpr outside))]
      rfl

theorem Steps.holder_granted (granted : t.locate name index = .ok i) :
    ∃ b, t.buffers.items[i]? = some b ∧ holder name index t = .ok (i, b) t := by
  unfold holder
  cases known : t.position name with
  | error fault => cases (locate_unknown known).symm.trans granted
  | ok i =>
    obtain ⟨b, found⟩ := position_found known
    rw [locate_known known found] at granted
    split_ifs at granted with wide outside
    cases granted
    refine ⟨b, found, ?_⟩
    rw [bind_ok (find_known known), bind_ok (bufferAt_ok found),
      bind_ok (check_ok (Nat.lt_of_not_le wide)), bind_ok (check_ok (Nat.lt_of_not_le outside))]
    rfl

theorem Steps.read_settles (name : String) (index : Nat) :
    read name index t = t.settle (t.serve (.read name index)) := by
  rw [read, serve, readBuffer]
  cases located : t.locate name index with
  | error failure =>
    rw [bind_error (holder_refused located)]
    rfl
  | ok i =>
    obtain ⟨b, found, held⟩ := holder_granted located
    rw [bind_ok held]
    exact congrArg (fun value => EStateM.Result.ok (Reading.word value) t) (word_found found).symm

theorem Steps.write_settles (name : String) (index : Nat) (value : UInt32) :
    write name index value t = t.settle (t.serve (.write name index value)) := by
  rw [write, serve, writeBuffer]
  cases located : t.locate name index with
  | error failure =>
    rw [bind_error (holder_refused located)]
    rfl
  | ok i =>
    obtain ⟨b, found, held⟩ := holder_granted located
    have written := t.buffers.modify_eq found fun b => b.setWord index value
    rw [bind_ok held]
    exact congrArg (fun buffers => EStateM.Result.ok Reading.nothing { t with buffers }) written.symm

end Word

theorem Within.steps_settle (within : t.Within) (allocatable : q.Allocatable) :
    q.steps t = t.settle (t.serve q) := by
  cases q with
  | addBuffer name words => exact Steps.addBuffer_settles allocatable
  | route e names => exact Steps.route_settles names
  | read name index => exact Steps.read_settles name index
  | write name index value => exact Steps.write_settles name index value
  | setFull name full => exact Steps.setFull_settles name full
  | stream e host => exact within.stream_settles e host

end FabricQueue.TileArray
