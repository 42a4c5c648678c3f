import FabricQueue.Proofs.Locks
import FabricQueue.Proofs.Refusals
import Mathlib.Data.List.AList

set_option autoImplicit false

namespace FabricQueue

open TileArray (Halt Reading Request refusal allocationLimit)

def TileBuffer.label (b : TileBuffer) : String × Nat :=
  (b.name, b.byteLength)

namespace TileBuffers

def names (s : TileBuffers) : List String :=
  s.items.toList.map (·.name)

def Shaped (s s' : TileBuffers) : Prop :=
  ∀ i : Nat, s'.items[i]?.map TileBuffer.label = s.items[i]?.map TileBuffer.label

variable {s s' s'' : TileBuffers}

theorem Shaped.refl (s : TileBuffers) : s.Shaped s :=
  fun _ => rfl

theorem Shaped.trans (first : s.Shaped s') (second : s'.Shaped s'') : s.Shaped s'' :=
  fun i => (second i).trans (first i)

theorem Shaped.found (shaped : s.Shaped s') {i : Nat} {b : TileBuffer}
    (found : s'.items[i]? = some b) :
    ∃ old, s.items[i]? = some old ∧ b.name = old.name ∧ b.byteLength = old.byteLength := by
  have same := shaped i
  rw [found, Option.map_some] at same
  obtain ⟨old, known, kept⟩ := Option.map_eq_some_iff.mp same.symm
  exact ⟨old, known, (congrArg Prod.fst kept).symm, (congrArg Prod.snd kept).symm⟩

theorem Shaped.names (shaped : s.Shaped s') : s'.names = s.names := by
  apply List.ext_getElem?
  intro i
  have same := congrArg (Option.map Prod.fst) (shaped i)
  rw [Option.map_map, Option.map_map] at same
  simp only [TileBuffers.names, List.getElem?_map, Array.getElem?_toList]
  exact same

theorem Shaped.position? (shaped : s.Shaped s') (name : String) :
    s'.position? name = s.position? name := by
  rw [position?_eq, position?_eq]
  exact congrArg _ shaped.names

theorem position?_iff (distinct : s.names.Nodup) {name : String} {i : Nat} :
    s.position? name = some i ↔ s.names[i]? = some name := by
  rw [position?_eq, List.findIdx?_eq_some_iff_getElem]
  constructor
  · rintro ⟨below, same, _⟩
    rw [names, List.getElem?_eq_getElem below, beq_iff_eq.mp same]
  · intro here
    obtain ⟨below, same⟩ := List.getElem?_eq_some_iff.mp here
    refine ⟨below, beq_iff_eq.mpr same, fun j before => ?_⟩
    have apart := List.pairwise_iff_getElem.mp distinct j i (Nat.lt_trans before below) below before
    simp only [beq_iff_eq]
    exact fun other => apart (other.trans same.symm)

theorem position?_fresh {name : String} (fresh : s.position? name = none) : name ∉ s.names := by
  rw [position?_eq, List.findIdx?_eq_none_iff] at fresh
  exact fun member => absurd (fresh name member) (by simp)

theorem modify_shaped (s : TileBuffers) (position : Nat) {change : TileBuffer → TileBuffer}
    (name : ∀ b, s.items[position]? = some b → (change b).name = b.name)
    (size : ∀ b, s.items[position]? = some b → (change b).byteLength = b.byteLength) :
    s.Shaped (s.modify position change) := by
  intro i
  rw [get_modify]
  split
  next here =>
    subst here
    cases found : s.items[position]? with
    | none => rfl
    | some b => exact congrArg some (Prod.ext (name b found) (size b found))
  · rfl

theorem modifyNamed_shaped (s : TileBuffers) (called : String) (change : TileBuffer → TileBuffer)
    (name : ∀ b, (change b).name = b.name) (size : ∀ b, (change b).byteLength = b.byteLength) :
    s.Shaped (s.modifyNamed called change) := by
  unfold modifyNamed
  split
  · exact s.modify_shaped _ (fun b _ => name b) fun b _ => size b
  · exact Shaped.refl s

theorem setFull_shaped (s : TileBuffers) (called : String) (full : Bool) :
    s.Shaped (s.modifyNamed called fun b => b.setFull full) :=
  s.modifyNamed_shaped called _ (fun _ => rfl) fun _ => rfl

theorem load_shaped (s : TileBuffers) (called : String) (words : List UInt32) :
    s.Shaped (s.modifyNamed called fun b => b.load words) :=
  s.modifyNamed_shaped called _ (fun _ => rfl) fun b => b.byteLength_write 0 _

theorem position?_lt {name : String} {i : Nat} (placed : s.position? name = some i) :
    ∃ b, s.items[i]? = some b :=
  ⟨_, Array.getElem?_eq_getElem (Array.findIdx?_eq_some_iff_getElem.mp placed).1⟩

theorem position?_push {b : TileBuffer} (fresh : s.position? b.name = none) (name : String) :
    TileBuffers.position? ⟨s.items.push b⟩ name =
      if name = b.name then some s.size else s.position? name := by
  rw [position?_eq] at fresh ⊢
  rw [position?_eq, Array.toList_push, List.map_append, List.findIdx?_append]
  split
  next same =>
    subst same
    rw [fresh]
    simp [TileBuffers.size]
  next other =>
    have away : List.findIdx? (· == name) [b.name] = none := by simpa using Ne.symm other
    rw [List.map_singleton, away]
    cases (s.items.toList.map (·.name)).findIdx? (· == name) <;> rfl

theorem isSome_find? (s : TileBuffers) (name : String) :
    (s.find? name).isSome = (s.position? name).isSome := by
  rw [find?]
  cases placed : s.position? name with
  | none => rfl
  | some i =>
    obtain ⟨b, found⟩ := position?_lt placed
    rw [Option.bind_some, found]
    rfl

end TileBuffers

theorem AddKernel.step_due (k : AddKernel) (s : TileBuffers) : k.step s =
    if s.isFull k.current.left && s.isFull k.current.right && !s.isFull k.current.sum then
      match s.find? k.current.left, s.find? k.current.right with
      | some left, some right =>
        if (s.position? k.current.sum).isSome then
          some ({ k with onPong := !k.onPong },
            added k.current (List.zipWith (· + ·) left.words right.words) s)
        else none
      | _, _ => none
    else none := by
  rw [← s.isSome_find?, TileBuffers.isFull, TileBuffers.isFull, TileBuffers.isFull]
  cases left : s.find? k.current.left with
  | none => simp only [step, left, Option.any_none, Bool.false_and, Bool.false_eq_true, if_false]
  | some a =>
    cases right : s.find? k.current.right with
    | none =>
      simp only [step, left, right, Option.any_none, Bool.and_false, Bool.false_and,
        Bool.false_eq_true, if_false]
    | some b =>
      cases sum : s.find? k.current.sum with
      | none => simp [step, left, right, sum]
      | some c =>
        simp only [step, left, right, sum]
        rfl

theorem AddKernel.added_shaped (names : AddBuffers) (total : List UInt32) (s : TileBuffers) :
    s.Shaped (added names total s) :=
  (((s.load_shaped names.sum total).trans (TileBuffers.setFull_shaped _ names.left false)).trans
    (TileBuffers.setFull_shaped _ names.right false)).trans
      (TileBuffers.setFull_shaped _ names.sum true)

theorem AddKernel.stepAll_shaped (kernels : List AddKernel) (s : TileBuffers) :
    s.Shaped (stepAll kernels s).2.2 := by
  induction kernels generalizing s with
  | nil => exact TileBuffers.Shaped.refl s
  | cons k rest ih =>
    unfold stepAll
    cases stepped : k.step s with
    | none => exact ih s
    | some next =>
      obtain ⟨k', s'⟩ := next
      obtain ⟨rfl, total, rfl⟩ := step_cases stepped
      exact (added_shaped k.current total s).trans (ih _)

namespace TileArray

variable {t t' : TileArray} {reading : Reading}

theorem Within.serve_shaped (within : t.Within) {q : Request}
    (old : ∀ name words, q ≠ .addBuffer name words) (done : t.serve q = .ok (reading, t')) :
    t.buffers.Shaped t'.buffers := by
  cases q with
  | addBuffer name words => exact absurd rfl (old name words)
  | route e names =>
    obtain ⟨_, routed, same⟩ := except_map_iff.mp done
    cases same
    cases names with
    | nil => cases routed
    | cons name names =>
      have routed := ok_of_mapError routed
      rw [route_cons] at routed
      obtain ⟨buffers, _, rfl⟩ := except_map_iff.mp routed
      exact TileBuffers.Shaped.refl _
  | read name index =>
    obtain ⟨_, _, same⟩ := except_map_iff.mp done
    cases same
    exact TileBuffers.Shaped.refl _
  | write name index value =>
    obtain ⟨_, written, same⟩ := except_map_iff.mp done
    cases same
    obtain ⟨i, _, written⟩ := except_bind_iff.mp written
    cases written
    exact t.buffers.modify_shaped i (fun _ _ => rfl) fun b _ => b.byteLength_write _ _
  | setFull name full =>
    obtain ⟨_, locked, same⟩ := except_map_iff.mp done
    cases same
    obtain ⟨i, _, locked⟩ := except_bind_iff.mp (ok_of_mapError locked)
    cases locked
    exact t.buffers.modify_shaped i (fun _ _ => rfl) fun _ _ => rfl
  | stream e host =>
    obtain rfl | ⟨r, b, count, known, found, sound, fits, rfl⟩ := within.stream_cases done
    · exact TileBuffers.Shaped.refl _
    · rw [pass_buffers]
      refine t.buffers.modify_shaped _ (fun other same => ?_) fun other same => ?_ <;>
        cases found.symm.trans same
      · rw [TileBuffer.name_advance]
        cases e.direction <;> rfl
      · rw [TileBuffer.byteLength_advance, TileBuffer.byteLength_copied]

theorem closed_iff {direction : Direction} {b : TileBuffer} :
    ready direction b = false ↔ b.full = decide (direction = .hostToDevice) := by
  cases direction <;> simp [ready]

theorem runKernels_shaped (t : TileArray) : t.buffers.Shaped t.runKernels.2.buffers :=
  AddKernel.stepAll_shaped t.kernels t.buffers

end TileArray

-- A tile array, and the positions of its buffers by name.
structure Catalog where
  array : TileArray := {}
  table : AList fun _ : String => Nat := ∅

namespace Catalog

inductive Call where
  | ask (q : Request)
  | addKernel (k : AddKernel)
  | clear
  | runKernels

-- What a call gives back.
inductive Answer where
  | reading (reading : Reading)
  | progress (any : Bool)

abbrev Steps := EStateM Halt Catalog

namespace Steps

open TileArray.Steps (check bufferAt store)

/-- Steps on the array alone. -/
def onArray {α : Type} (steps : TileArray.Steps α) : Steps α := fun c =>
  match steps c.array with
  | .ok a array => .ok a { c with array }
  | .error halt array => .error halt { c with array }

def placeOf (name : String) : Steps (Option Nat) :=
  return (← get).table.lookup name

def find (name : String) : Steps Nat := do
  match ← placeOf name with
  | some i => return i
  | none => throw (refusal (.invalidConfig (.unknownBuffer name)))

def addBuffer (name : String) (words : Nat) : Steps Reading := do
  onArray (check (words ≠ 0) (refusal (.invalidConfig (.emptyBuffer name))))
  let place ← placeOf name
  onArray (check (place.isSome = false) (refusal (.invalidConfig (.duplicateBuffer name))))
  onArray (check (4 * words ≤ allocationLimit) .outOfMemory)
  let i := (← get).array.buffers.size
  onArray (modify fun t =>
    { t with buffers := ⟨t.buffers.items.push (TileBuffer.zeroed name words)⟩ })
  modify fun c => { c with table := c.table.insert name i }
  return .nothing

def route (e : Endpoint) (names : List String) : Steps Reading := do
  onArray (check (names ≠ []) (refusal (.invalidConfig (.emptyRoute e))))
  let buffers ← names.mapM find
  onArray do
    modify fun t => t.setRoute e { buffers }
    return .nothing

def holder (name : String) (index : Nat) : Steps (Nat × TileBuffer) := do
  let i ← find name
  onArray do
    let b ← bufferAt i
    check (4 * index < UInt64.size) (.failed (.overflow .multiplication))
    check (index < b.wordCount) (refusal (.outOfBounds (4 * index) 4 b.byteLength))
    return (i, b)

def read (name : String) (index : Nat) : Steps Reading := do
  let (_, b) ← holder name index
  return .word (b.word index)

def write (name : String) (index : Nat) (value : UInt32) : Steps Reading := do
  let (i, b) ← holder name index
  onArray do
    store i (b.setWord index value)
    return .nothing

/-- Change the buffer of a name. Tells whether there is one. -/
def alter (name : String) (change : TileBuffer → TileBuffer) : Steps Bool := do
  match ← placeOf name with
  | none => return false
  | some i => onArray do
    let b ← bufferAt i
    store i (change b)
    return true

def setFull (name : String) (full : Bool) : Steps Reading := do
  if ← alter name (·.setFull full) then return .nothing
  else throw (refusal (.invalidConfig (.unknownBuffer name)))

def ask : Request → Steps Reading
  | .addBuffer name words => addBuffer name words
  | .route e names => route e names
  | .read name index => read name index
  | .write name index value => write name index value
  | .setFull name full => setFull name full
  | .stream e host => onArray (TileArray.Steps.stream e host)

def bufferOf (name : String) : Steps (Option TileBuffer) := do
  match ← placeOf name with
  | none => return none
  | some i => return some (← onArray (bufferAt i))

def isFull (name : String) : Steps Bool :=
  return (← bufferOf name).any (·.full)

/-- The names in use, which are one of two sets. -/
def namesOf (k : AddKernel) : Steps AddBuffers :=
  match [k.ping, k.pong][k.onPong.toNat]? with
  | some names => pure names
  | none => throw .outOfRange

/-- Both inputs are full and the output is not. -/
def due (names : AddBuffers) : Steps Bool := do
  if ← isFull names.left then
    if ← isFull names.right then return !(← isFull names.sum) else return false
  else return false

/-- Turn the three locks, up to the first one that has no buffer. -/
def turn (names : AddBuffers) : Steps Bool := do
  if ← alter names.left (·.setFull false) then
    if ← alter names.right (·.setFull false) then alter names.sum (·.setFull true)
    else return false
  else return false

def stepKernel (k : AddKernel) : Steps (Bool × AddKernel) := do
  let names ← namesOf k
  if ← due names then
    match ← bufferOf names.left, ← bufferOf names.right with
    | some left, some right =>
      if ← alter names.sum (·.load (List.zipWith (· + ·) left.words right.words)) then
        return (← turn names, { k with onPong := !k.onPong })
      else return (false, k)
    | _, _ => return (false, k)
  else return (false, k)

/-- Step every kernel once, in order. Tells whether any did something. -/
def stepKernels : List AddKernel → Steps (Bool × List AddKernel)
  | [] => return (false, [])
  | k :: rest => do
    let (moved, k) ← stepKernel k
    let (more, rest) ← stepKernels rest
    return (moved || more, k :: rest)

def runKernels : Steps Bool := do
  let (moved, kernels) ← stepKernels (← get).array.kernels
  onArray (modify fun t => { t with kernels })
  return moved

end Steps

def Call.steps : Call → Steps Answer
  | ask q => return .reading (← Steps.ask q)
  | addKernel k => do
    Steps.onArray (modify fun t => t.addKernel k)
    return .reading .nothing
  | clear => do
    set ({} : Catalog)
    return .reading .nothing
  | runKernels => return .progress (← Steps.runKernels)

/-- What a call does to the array alone. -/
def Call.serve : Call → TileArray → Except Failure (Answer × TileArray)
  | ask q, t => (t.serve q).map fun (reading, t) => (.reading reading, t)
  | addKernel k, t => .ok (.reading .nothing, t.addKernel k)
  | clear, _ => .ok (.reading .nothing, {})
  | runKernels, t => .ok (.progress t.runKernels.1, t.runKernels.2)

def Call.Allocatable : Call → Prop
  | ask q => q.Allocatable
  | _ => True

/-- The declared names after a call that succeeded. -/
def Call.declare (names : List String) : Call → List String
  | ask (.addBuffer name _) => names ++ [name]
  | clear => []
  | _ => names

/-- A call, and the declared names with it. A call that ends early leaves what it has come to. -/
def follow (state : Catalog × List String) (call : Call) : Catalog × List String :=
  match call.steps state.1 with
  | .ok _ c => (c, call.declare state.2)
  | .error _ c => (c, state.2)

def run (calls : List Call) : Catalog × List String :=
  calls.foldl follow ({}, [])

def Tabled (c : Catalog) : Prop :=
  ∀ name, c.table.lookup name = c.array.buffers.position? name

-- The end of a call with its answer, and the table then. One that failed has left all as it was.
def settle {α : Type} (c : Catalog) (table : AList fun _ : String => Nat) :
    Except Failure (α × TileArray) → EStateM.Result Halt Catalog α
  | .ok (answer, array) => .ok answer { array, table }
  | .error failure => .error (.failed failure) c

section Settling

variable {c : Catalog} {q : Request}

theorem bind_alike {ε σ α β : Type} {x y : EStateM ε σ α} {next next' : α → EStateM ε σ β} {s : σ}
    (first : x s = y s) (rest : ∀ a s', next a s' = next' a s') :
    (x >>= next) s = (y >>= next') s := by
  simp only [bind, EStateM.bind, first]
  cases y s with
  | ok a s' => exact rest a s'
  | error halt s' => rfl

theorem Tabled.shaped {buffers : TileBuffers} (tabled : c.Tabled)
    (shaped : c.array.buffers.Shaped buffers) :
    Tabled { c with array := { c.array with buffers } } :=
  fun name => (tabled name).trans (shaped.position? name).symm

namespace Steps

open TileArray (position_found)
open TileArray.Steps (check_ok check_failed find_known find_unknown bufferAt_ok)

theorem onArray_bind {α β : Type} (x : TileArray.Steps α) (next : α → TileArray.Steps β) :
    onArray (x >>= next) = onArray x >>= fun a => onArray (next a) := by
  funext c
  simp only [onArray, bind, EStateM.bind]
  cases x c.array <;> rfl

theorem onArray_ok {α : Type} {x : TileArray.Steps α} {a : α} {t : TileArray}
    (ran : x c.array = .ok a t) : onArray x c = .ok a { c with array := t } := by
  simp only [onArray, ran]

theorem onArray_error {α : Type} {x : TileArray.Steps α} {halt : Halt} {t : TileArray}
    (ran : x c.array = .error halt t) : onArray x c = .error halt { c with array := t } := by
  simp only [onArray, ran]

theorem onArray_settle {x : TileArray.Steps Reading} {result : Except Failure (Reading × TileArray)}
    (settles : x c.array = c.array.settle result) : onArray x c = c.settle c.table result := by
  cases result with
  | ok answer => exact onArray_ok settles
  | error failure => exact onArray_error settles

variable (tabled : c.Tabled)

include tabled

theorem placeOf_ok (name : String) : placeOf name c = .ok (c.array.buffers.position? name) c :=
  congrArg (EStateM.Result.ok · c) (tabled name)

theorem find_eq (name : String) : find name c = onArray (TileArray.Steps.find name) c := by
  rw [find, bind_ok (placeOf_ok tabled name)]
  cases known : c.array.position name with
  | error fault =>
    rw [onArray_error (find_unknown known)]
    unfold TileArray.position at known
    split at known
    · cases known
    next missing =>
      cases known
      simp only [missing]
      rfl
  | ok i =>
    rw [onArray_ok (find_known known)]
    unfold TileArray.position at known
    split at known
    next there =>
      cases known
      simp only [there]
      rfl
    · cases known

theorem mapM_find (names : List String) :
    names.mapM find c = onArray (names.mapM TileArray.Steps.find) c := by
  induction names with
  | nil => rfl
  | cons name names ih =>
    rw [List.mapM_cons, List.mapM_cons, onArray_bind]
    cases known : c.array.position name with
    | error fault =>
      have missing := onArray_error (find_unknown known)
      rw [bind_error ((find_eq tabled name).trans missing), bind_error missing]
    | ok i =>
      have there := onArray_ok (find_known known)
      rw [bind_ok ((find_eq tabled name).trans there), bind_ok there, onArray_bind]
      exact bind_alike ih fun _ _ => rfl

theorem addBuffer_eq (name : String) (words : Nat) : addBuffer name words c =
    match c.array.addBuffer name words with
    | .error fault => .error (refusal (.invalidConfig fault)) c
    | .ok array =>
      if 4 * words ≤ allocationLimit then
        .ok .nothing { array, table := c.table.insert name c.array.buffers.size }
      else .error .outOfMemory c := by
  rw [addBuffer, TileArray.addBuffer]
  by_cases none : words = 0
  · rw [bind_error (onArray_error (check_failed (not_not.mpr none))), if_pos none]
  rw [bind_ok (onArray_ok (check_ok none)), bind_ok (placeOf_ok tabled name), if_neg none]
  cases taken : (c.array.buffers.position? name).isSome with
  | true =>
    rw [bind_error (onArray_error (check_failed Bool.true_eq_false.mp)), if_pos rfl]
  | false =>
    rw [bind_ok (onArray_ok (check_ok rfl)), if_neg Bool.false_ne_true]
    by_cases fits : 4 * words ≤ allocationLimit
    · rw [bind_ok (onArray_ok (check_ok fits))]
      simp only [fits, if_true]
      rfl
    · rw [bind_error (onArray_error (check_failed fits))]
      simp only [fits, if_false]

theorem route_eq (e : Endpoint) (names : List String) :
    route e names c = onArray (TileArray.Steps.route e names) c := by
  rw [route, TileArray.Steps.route, onArray_bind]
  cases names with
  | nil => rfl
  | cons name names =>
    have some : onArray (TileArray.Steps.check (name :: names ≠ [])
        (refusal (.invalidConfig (.emptyRoute e)))) c = .ok () c :=
      onArray_ok (check_ok (List.cons_ne_nil name names))
    rw [bind_ok some, bind_ok some, onArray_bind]
    exact bind_alike (mapM_find tabled _) fun _ _ => rfl

theorem holder_eq (name : String) (index : Nat) :
    holder name index c = onArray (TileArray.Steps.holder name index) c := by
  rw [holder, TileArray.Steps.holder, onArray_bind]
  exact bind_alike (find_eq tabled name) fun _ _ => rfl

theorem read_eq (name : String) (index : Nat) :
    read name index c = onArray (TileArray.Steps.read name index) c := by
  rw [read, TileArray.Steps.read, onArray_bind]
  exact bind_alike (holder_eq tabled name index) fun _ _ => rfl

theorem write_eq (name : String) (index : Nat) (value : UInt32) :
    write name index value c = onArray (TileArray.Steps.write name index value) c := by
  rw [write, TileArray.Steps.write, onArray_bind]
  exact bind_alike (holder_eq tabled name index) fun _ _ => rfl

theorem alter_ok (name : String) (change : TileBuffer → TileBuffer) : alter name change c =
    .ok (c.array.buffers.position? name).isSome
      { c with array := { c.array with buffers := c.array.buffers.modifyNamed name change } } := by
  rw [alter, bind_ok (placeOf_ok tabled name), TileBuffers.modifyNamed]
  cases placed : c.array.buffers.position? name with
  | none => rfl
  | some i =>
    obtain ⟨b, found⟩ := TileBuffers.position?_lt placed
    simp only [c.array.buffers.modify_eq found change]
    exact onArray_ok ((bind_ok (bufferAt_ok found)).trans rfl)

theorem setFull_settles (name : String) (full : Bool) :
    setFull name full c = c.settle c.table (c.array.serve (.setFull name full)) := by
  rw [setFull, bind_ok (alter_ok tabled name _), TileBuffers.modifyNamed, TileArray.serve,
    TileArray.setFull, TileArray.position]
  cases c.array.buffers.position? name <;> rfl

theorem ask_settles (within : c.array.Within) (allocatable : q.Allocatable)
    (old : ∀ name words, q ≠ .addBuffer name words) :
    ask q c = c.settle c.table (c.array.serve q) := by
  have settles := onArray_settle (within.steps_settle allocatable)
  cases q with
  | addBuffer name words => exact absurd rfl (old name words)
  | route e names => exact (route_eq tabled e names).trans settles
  | read name index => exact (read_eq tabled name index).trans settles
  | write name index value => exact (write_eq tabled name index value).trans settles
  | setFull name full => exact setFull_settles tabled name full
  | stream e host => exact settles

theorem bufferOf_ok (name : String) : bufferOf name c = .ok (c.array.buffers.find? name) c := by
  rw [bufferOf, bind_ok (placeOf_ok tabled name), TileBuffers.find?]
  cases placed : c.array.buffers.position? name with
  | none => rfl
  | some i =>
    obtain ⟨b, found⟩ := TileBuffers.position?_lt placed
    simp only [Option.bind_some, found]
    rw [bind_ok (onArray_ok (bufferAt_ok found))]
    rfl

theorem isFull_ok (name : String) : isFull name c = .ok (c.array.buffers.isFull name) c := by
  rw [isFull, bind_ok (bufferOf_ok tabled name)]
  rfl

theorem due_ok (names : AddBuffers) : due names c =
    .ok (c.array.buffers.isFull names.left && c.array.buffers.isFull names.right &&
      !c.array.buffers.isFull names.sum) c := by
  rw [due, bind_ok (isFull_ok tabled _)]
  cases c.array.buffers.isFull names.left with
  | false => rfl
  | true =>
    rw [if_pos rfl, bind_ok (isFull_ok tabled _)]
    cases c.array.buffers.isFull names.right with
    | false => rfl
    | true =>
      rw [if_pos rfl, bind_ok (isFull_ok tabled _)]
      rfl

theorem turn_ok {names : AddBuffers}
    (known : ∀ name ∈ names.names, (c.array.buffers.position? name).isSome = true) :
    turn names c = .ok true { c with array.buffers :=
      ((c.array.buffers.modifyNamed names.left fun b => b.setFull false).modifyNamed names.right
        fun b => b.setFull false).modifyNamed names.sum fun b => b.setFull true } := by
  have left := known names.left (by simp [AddBuffers.names])
  have right := known names.right (by simp [AddBuffers.names])
  have sum := known names.sum (by simp [AddBuffers.names])
  have first := c.array.buffers.setFull_shaped names.left false
  have second := TileBuffers.setFull_shaped
    (c.array.buffers.modifyNamed names.left fun b => b.setFull false) names.right false
  rw [← first.position?] at right
  rw [← (first.trans second).position?] at sum
  rw [turn, bind_ok (alter_ok tabled _ _), if_pos left,
    bind_ok (alter_ok (tabled.shaped first) _ _), if_pos right,
    alter_ok (tabled.shaped (first.trans second)), sum]

theorem stepKernel_ok (k : AddKernel) : stepKernel k c =
    match k.step c.array.buffers with
    | some (k, buffers) => .ok (true, k) { c with array := { c.array with buffers } }
    | none => .ok (false, k) c := by
  have names : namesOf k c = .ok k.current c := by
    unfold namesOf AddKernel.current
    cases k.onPong <;> rfl
  rw [stepKernel, bind_ok names, bind_ok (due_ok tabled _), AddKernel.step_due]
  by_cases due : (c.array.buffers.isFull k.current.left && c.array.buffers.isFull k.current.right &&
    !c.array.buffers.isFull k.current.sum) = true
  · rw [if_pos due, if_pos due, bind_ok (bufferOf_ok tabled _), bind_ok (bufferOf_ok tabled _)]
    cases left : c.array.buffers.find? k.current.left with
    | none => rfl
    | some a =>
      cases right : c.array.buffers.find? k.current.right with
      | none => rfl
      | some b =>
        simp only
        rw [bind_ok (alter_ok tabled _ _)]
        cases sum : (c.array.buffers.position? k.current.sum).isSome with
        | false =>
          have missing := Option.not_isSome_iff_eq_none.mp (Bool.eq_false_iff.mp sum)
          rw [if_neg Bool.false_ne_true, if_neg Bool.false_ne_true, TileBuffers.modifyNamed, missing]
          rfl
        | true =>
          have loaded := c.array.buffers.load_shaped k.current.sum
            (List.zipWith (· + ·) a.words b.words)
          rw [if_pos rfl, if_pos rfl,
            bind_ok (turn_ok (tabled.shaped loaded) fun name member => ?known)]
          · rfl
          case known =>
            rw [loaded.position?, ← TileBuffers.isSome_find?]
            simp only [AddBuffers.names, List.mem_cons, List.not_mem_nil, or_false] at member
            rcases member with rfl | rfl | rfl
            · exact congrArg Option.isSome left
            · exact congrArg Option.isSome right
            · exact (TileBuffers.isSome_find? _ _).trans sum
  · rw [if_neg due, if_neg due]
    rfl

theorem stepKernels_ok (kernels : List AddKernel) : stepKernels kernels c =
    .ok ((AddKernel.stepAll kernels c.array.buffers).1, (AddKernel.stepAll kernels c.array.buffers).2.1)
      { c with array :=
        { c.array with buffers := (AddKernel.stepAll kernels c.array.buffers).2.2 } } := by
  induction kernels generalizing c with
  | nil => rfl
  | cons k rest ih =>
    rw [stepKernels]
    have first := stepKernel_ok tabled k
    unfold AddKernel.stepAll
    cases stepped : k.step c.array.buffers with
    | none =>
      rw [stepped] at first
      rw [bind_ok first]
      exact bind_ok (ih tabled)
    | some next =>
      obtain ⟨k', buffers⟩ := next
      rw [stepped] at first
      obtain ⟨rfl, total, rfl⟩ := AddKernel.step_cases stepped
      rw [bind_ok first]
      exact bind_ok (ih (tabled.shaped (AddKernel.added_shaped _ _ _)))

theorem runKernels_ok : runKernels c =
    .ok c.array.runKernels.1 { c with array := c.array.runKernels.2 } := by
  have got : (get : Steps Catalog) c = .ok c c := rfl
  rw [runKernels, bind_ok got, bind_ok (stepKernels_ok tabled _)]
  rfl

end Steps

end Settling

structure Indexed (c : Catalog) (names : List String) : Prop where
  reached : c.array.Reached
  tabled : c.Tabled
  named : c.array.buffers.names = names
  distinct : names.Nodup
  whole : ∀ (i : Nat) (b : TileBuffer), c.array.buffers.items[i]? = some b → 4 ∣ b.byteLength

section Running

variable {c : Catalog} {names : List String}

theorem Indexed.empty : Indexed {} [] where
  reached := .empty
  tabled name := (AList.lookup_empty name).trans (by simp [TileBuffers.position?])
  named := rfl
  distinct := List.nodup_nil
  whole _ _ found := by simp at found

theorem Indexed.shaped (indexed : Indexed c names) {array : TileArray} (reached : array.Reached)
    (shaped : c.array.buffers.Shaped array.buffers) : Indexed { c with array } names where
  reached := reached
  tabled name := (indexed.tabled name).trans (shaped.position? name).symm
  named := shaped.names.trans indexed.named
  distinct := indexed.distinct
  whole i b found := by
    obtain ⟨old, known, _, size⟩ := shaped.found found
    exact size ▸ indexed.whole i old known

theorem Indexed.addBuffer (indexed : Indexed c names) {name : String} {words : Nat}
    {array : TileArray} (reached : array.Reached) (added : c.array.addBuffer name words = .ok array) :
    Indexed { array, table := c.table.insert name c.array.buffers.size } (names ++ [name]) := by
  unfold TileArray.addBuffer at added
  split_ifs at added with none taken
  cases added
  have fresh : c.array.buffers.position? name = Option.none := by simpa using taken
  refine ⟨reached, fun other => ?_, ?_, ?_, fun i b found => ?_⟩
  · rw [TileBuffers.position?_push (b := TileBuffer.zeroed name words) fresh]
    split_ifs with same
    · rw [show other = name from same]
      exact AList.lookup_insert _
    · exact (AList.lookup_insert_ne same).trans (indexed.tabled other)
  · rw [← indexed.named, TileBuffers.names, Array.toList_push, List.map_append]
    rfl
  · have missing := indexed.named ▸ TileBuffers.position?_fresh fresh
    exact indexed.distinct.append (List.nodup_singleton _) (List.disjoint_singleton.mpr missing)
  · simp only [Array.getElem?_push] at found
    split at found
    · cases found
      exact Dvd.intro words (ByteStore.size_zeros _).symm
    · exact indexed.whole i b found

-- How a call ends: as on the array alone, or for want of memory.
inductive Ends (c : Catalog) (names : List String) (call : Call) : Prop where
  | done {answer : Answer} {array : TileArray} {table : AList fun _ : String => Nat}
      (served : call.serve c.array = .ok (answer, array))
      (steps : call.steps c = .ok answer { array, table })
      (next : Indexed { array, table } (call.declare names))
  | failed {failure : Failure} (served : call.serve c.array = .error failure)
      (steps : call.steps c = .error (.failed failure) c)
  | outOfMemory (wide : ¬call.Allocatable) (steps : call.steps c = .error .outOfMemory c)

theorem Indexed.addBuffer_ends (indexed : Indexed c names) (name : String) (words : Nat) :
    Ends c names (.ask (.addBuffer name words)) := by
  have steps := Steps.addBuffer_eq indexed.tabled name words
  cases added : c.array.addBuffer name words with
  | error fault =>
    have served : c.array.serve (.addBuffer name words) = .error (.error (.invalidConfig fault)) := by
      rw [TileArray.serve, added]
      rfl
    rw [added] at steps
    exact .failed (by rw [Call.serve, served]; rfl) (bind_error steps)
  | ok array =>
    have served : c.array.serve (.addBuffer name words) = .ok (.nothing, array) := by
      rw [TileArray.serve, added]
      rfl
    rw [added] at steps
    by_cases fits : 4 * words ≤ allocationLimit
    · simp only [fits, if_true] at steps
      exact .done (by rw [Call.serve, served]; rfl) (bind_ok steps)
        (indexed.addBuffer (.served indexed.reached (q := .addBuffer name words) fits served) added)
    · simp only [fits, if_false] at steps
      exact .outOfMemory fits (bind_error steps)

theorem Indexed.ask_ends (indexed : Indexed c names) {q : Request} (allocatable : q.Allocatable)
    (old : ∀ name words, q ≠ .addBuffer name words) (same : (Call.ask q).declare names = names) :
    Ends c names (.ask q) := by
  have within := indexed.reached.within
  have steps := Steps.ask_settles indexed.tabled within allocatable old
  cases served : c.array.serve q with
  | error failure =>
    rw [served] at steps
    exact .failed (by rw [Call.serve, served]; rfl) (bind_error steps)
  | ok answer =>
    rw [served] at steps
    refine .done (by rw [Call.serve, served]; rfl) (bind_ok steps) ?_
    rw [same]
    exact indexed.shaped (.served indexed.reached allocatable served)
      (within.serve_shaped old served)

theorem Indexed.ends (indexed : Indexed c names) (call : Call) : Ends c names call := by
  cases call with
  | addKernel k => exact .done rfl rfl (indexed.shaped (.addKernel indexed.reached k) (.refl _))
  | clear => exact .done rfl rfl .empty
  | runKernels =>
    exact .done rfl (bind_ok (Steps.runKernels_ok indexed.tabled))
      (indexed.shaped (.runKernels indexed.reached) c.array.runKernels_shaped)
  | ask q =>
    cases q with
    | addBuffer name words => exact indexed.addBuffer_ends name words
    | _ => exact indexed.ask_ends trivial nofun rfl

theorem Indexed.follow (indexed : Indexed c names) (call : Call) :
    Indexed (Catalog.follow (c, names) call).1 (Catalog.follow (c, names) call).2 := by
  cases indexed.ends call with
  | done _ steps next => simpa only [Catalog.follow, steps] using next
  | failed _ steps => simpa only [Catalog.follow, steps] using indexed
  | outOfMemory _ steps => simpa only [Catalog.follow, steps] using indexed

theorem run_indexed (calls : List Call) : Indexed (run calls).1 (run calls).2 := by
  suffices further : ∀ state : Catalog × List String, Indexed state.1 state.2 →
      Indexed (calls.foldl Catalog.follow state).1 (calls.foldl Catalog.follow state).2 from
    further _ .empty
  induction calls with
  | nil => exact fun _ => id
  | cons call rest ih => exact fun _ indexed => ih _ (indexed.follow call)

-- What the table, the buffers and the routes owe each other, where names have been declared in this
-- order.
structure Intact (c : Catalog) (names : List String) : Prop where
  distinct : names.Nodup
  size : c.array.buffers.size = names.length
  places : ∀ (name : String) (i : Nat), c.table.lookup name = some i ↔ names[i]? = some name
  carried : ∀ (name : String) (i : Nat), c.table.lookup name = some i →
    ∃ b, c.array.buffers.items[i]? = some b ∧ b.name = name
  buffers : ∀ (i : Nat) (b : TileBuffer), c.array.buffers.items[i]? = some b →
    0 < b.wordCount ∧ b.byteLength = 4 * b.wordCount ∧ b.cursor < b.byteLength
  routes : ∀ entry ∈ c.array.routes, entry.2.buffers ≠ [] ∧ entry.2.next < entry.2.buffers.length ∧
    ∀ i ∈ entry.2.buffers, i < c.array.buffers.size

theorem Indexed.intact (indexed : Indexed c names) : Intact c names := by
  obtain ⟨buffers, routes⟩ := indexed.reached.within.sound
  have places (name : String) (i : Nat) : c.table.lookup name = some i ↔ names[i]? = some name := by
    rw [indexed.tabled, ← indexed.named]
    exact TileBuffers.position?_iff (indexed.named ▸ indexed.distinct)
  refine ⟨indexed.distinct, ?_, places, fun name i placed => ?_, fun i b found => ?_,
    fun entry member => ?_⟩
  · rw [← indexed.named, TileBuffers.names, List.length_map]
    rfl
  · rw [indexed.tabled] at placed
    obtain ⟨b, found⟩ := TileBuffers.position?_lt placed
    exact ⟨b, found, TileBuffers.position?_name placed found⟩
  · have nonempty := (buffers i b found).nonempty
    have whole := indexed.whole i b found
    refine ⟨?_, ?_, (buffers i b found).cursor⟩ <;> unfold TileBuffer.wordCount <;> omega
  · have sound := routes entry member
    exact ⟨List.ne_nil_of_length_pos (Nat.zero_lt_of_lt sound.next), sound.next, sound.known⟩

theorem Indexed.stream (indexed : Indexed c names) {e : Endpoint} {r : Route} {host : List UInt8}
    (known : c.array.routeOf e = some r) (some : host ≠ []) :
    ∃ i b n seen c', r.buffers[r.next]? = Option.some i ∧ c.array.buffers.items[i]? = Option.some b ∧
      (Call.ask (.stream e host)).steps c = .ok (.reading (.moved n seen)) c' ∧ n ≤ host.length ∧
      (n = 0 ↔ b.full = decide (e.direction = .hostToDevice)) := by
  have within := indexed.reached.within
  obtain ⟨b, found, sound⟩ := within.sound.current known
  have next := (within.sound.route known).next
  have current : r.buffers[r.next]? = Option.some r.current := by
    rw [Route.current, List.getD, List.getElem?_eq_getElem next]
    rfl
  have length := List.length_pos_of_ne_nil some
  have old (name : String) (words : Nat) : Request.stream e host ≠ .addBuffer name words :=
    Request.noConfusion
  have steps := Steps.ask_settles indexed.tabled within (q := .stream e host) trivial old
  simp only [← TileArray.closed_iff]
  cases lock : TileArray.ready e.direction b with
  | false =>
    rw [TileArray.serve_barred known found lock] at steps
    exact ⟨_, b, 0, host, _, current, found, bind_ok steps, Nat.zero_le _, iff_of_true rfl lock⟩
  | true =>
    rw [TileArray.serve_open known found sound lock] at steps
    have positive : 0 < min host.length b.room := Nat.lt_min.mpr ⟨length, sound.room⟩
    exact ⟨_, b, _, _, _, current, found, bind_ok steps, Nat.min_le_left _ _,
      iff_of_false (Nat.ne_of_gt positive) (by simp [lock])⟩

-- After any calls, also refused ones, the table is the one-to-one correspondence of the declared names
-- with the positions of the buffers that carry them. Every buffer has a word and its cursor inside, and
-- every route is a cycle of such buffers. A further call ends as it does on the array alone: none looks
-- behind an end or subtracts too much. Bytes that are offered move unless the lock stands against them.
theorem run_intact (calls : List Call) : ∃ c names, run calls = (c, names) ∧ Intact c names ∧
    (∀ call : Call, call.Allocatable →
      ∃ table, call.steps c = c.settle table (call.serve c.array)) ∧
    (∀ (call : Call) (halt : Halt) (c' : Catalog), call.steps c = .error halt c' →
      c' = c ∧ halt ≠ .outOfRange ∧ halt ≠ .underflow ∧ (halt = .outOfMemory → ¬call.Allocatable)) ∧
    (∀ (e : Endpoint) (r : Route) (host : List UInt8), c.array.routeOf e = some r → host ≠ [] →
      ∃ i b n seen c', r.buffers[r.next]? = some i ∧ c.array.buffers.items[i]? = some b ∧
        (Call.ask (.stream e host)).steps c = .ok (.reading (.moved n seen)) c' ∧ n ≤ host.length ∧
        (n = 0 ↔ b.full = decide (e.direction = .hostToDevice))) := by
  have indexed := run_indexed calls
  refine ⟨(run calls).1, (run calls).2, rfl, indexed.intact, fun call allocatable => ?_,
    fun call halt c' halted => ?_, fun e r host known some => indexed.stream known some⟩
  · cases indexed.ends call with
    | done served steps _ => exact ⟨_, by rw [steps, served]; rfl⟩
    | failed served steps => exact ⟨∅, by rw [steps, served]; rfl⟩
    | outOfMemory wide _ => exact absurd allocatable wide
  · cases indexed.ends call with
    | done _ steps _ => cases steps.symm.trans halted
    | failed _ steps =>
      cases steps.symm.trans halted
      exact ⟨rfl, nofun, nofun, nofun⟩
    | outOfMemory wide steps =>
      cases steps.symm.trans halted
      exact ⟨rfl, nofun, nofun, fun _ => wide⟩

def sampleInlet : Endpoint :=
  ⟨7, 0, .hostToDevice⟩

-- A buffer that is declared twice, and a route to one that is not there.
def sampleCalls : List Call :=
  [.ask (.addBuffer "a" 1), .ask (.addBuffer "a" 2), .ask (.route sampleInlet ["a", "b"]),
    .ask (.route sampleInlet ["a"]), .ask (.stream sampleInlet [1, 2]), .runKernels]

theorem run_intact_sample : ∃ c, run sampleCalls = (c, ["a"]) ∧ c.table.lookup "a" = some 0 ∧
    (∃ b, c.array.buffers.items[0]? = some b ∧ b.name = "a" ∧ b.cursor < b.byteLength) ∧
    ∃ n seen c', (Call.ask (.stream sampleInlet [3])).steps c = .ok (.reading (.moved n seen)) c' ∧
      n ≤ 1 := by
  obtain ⟨c, names, ran, intact, _, _, streams⟩ := run_intact sampleCalls
  have declared : (run sampleCalls).2 = ["a"] := by decide +kernel
  have routed : (run sampleCalls).1.array.routeOf sampleInlet = some ⟨[0], 0⟩ := by decide +kernel
  rw [ran] at declared routed
  cases declared
  have placed := (intact.places "a" 0).mpr rfl
  obtain ⟨b, found, carried⟩ := intact.carried "a" 0 placed
  obtain ⟨_, _, n, seen, c', _, _, streamed, bound, _⟩ := streams _ _ [3] routed (by simp)
  exact ⟨c, ran, placed, ⟨b, found, carried, (intact.buffers 0 b found).2.2⟩, n, seen, c', streamed,
    bound⟩

end Running

end Catalog

end FabricQueue
