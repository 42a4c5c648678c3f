import FabricQueue.Proofs.Scenes

set_option autoImplicit false

namespace FabricQueue

section Copying

variable (b : TileBuffer) (direction : Direction) (host : List UInt8) (count : Nat)

def TileBuffer.copied : TileBuffer :=
  match direction with
  | .hostToDevice => { b with store := b.store.write b.cursor (host.take count) }
  | .deviceToHost => b

def TileBuffer.shown : List UInt8 :=
  match direction with
  | .hostToDevice => host
  | .deviceToHost => b.front count ++ host.drop count

end Copying

namespace TileArray

inductive Request where
  | addBuffer (name : String) (words : Nat)
  | route (e : Endpoint) (names : List String)
  | read (name : String) (index : Nat)
  | write (name : String) (index : Nat) (value : UInt32)
  | setFull (name : String) (full : Bool)
  -- Host bytes to be taken in, or to be overwritten.
  | stream (e : Endpoint) (host : List UInt8)
  deriving DecidableEq, Repr

-- What a request gives back.
inductive Reading where
  | nothing
  | word (value : UInt32)
  | moved (count : Nat) (host : List UInt8)
  deriving DecidableEq, Repr

def serve (t : TileArray) : Request → Except Failure (Reading × TileArray)
  | .addBuffer name words =>
    ((t.addBuffer name words).mapError (Failure.error ∘ Error.invalidConfig)).map (.nothing, ·)
  | .route e names =>
    ((t.route e names).mapError (Failure.error ∘ Error.invalidConfig)).map (.nothing, ·)
  | .read name index => (t.readBuffer name index).map fun value => (.word value, t)
  | .write name index value => (t.writeBuffer name index value).map (.nothing, ·)
  | .setFull name full =>
    ((t.setFull name full).mapError (Failure.error ∘ Error.invalidConfig)).map (.nothing, ·)
  | .stream e host =>
    match e.direction with
    | .hostToDevice =>
      ((t.fill e host).mapError (Failure.error ∘ Error.invalidState)).map fun (count, t) =>
        (.moved count host, t)
    | .deviceToHost =>
      ((t.drain e host.length).mapError (Failure.error ∘ Error.invalidState)).map fun (bytes, t) =>
        (.moved bytes.length (bytes ++ host.drop bytes.length), t)

/-- The largest number of bytes that can be allocated at once. -/
def allocationLimit : Nat := 1 <<< 63 - 1

-- A new buffer takes its words at once.
def Request.Allocatable : Request → Prop
  | addBuffer _ words => 4 * words ≤ allocationLimit
  | _ => True

-- The arrays that requests and kernels lead to, and words that kernels of others left in a buffer.
inductive Reached : TileArray → Prop where
  | empty : Reached {}
  | served {t t' : TileArray} {q : Request} {reading : Reading} (reached : Reached t)
      (allocatable : q.Allocatable) (done : t.serve q = .ok (reading, t')) : Reached t'
  | addKernel {t : TileArray} (reached : Reached t) (k : AddKernel) : Reached (t.addKernel k)
  | load {t t' : TileArray} {name : String} {words : List UInt32} (reached : Reached t)
      (loaded : t.load name words = some t') : Reached t'
  | runKernels {t : TileArray} (reached : Reached t) : Reached t.runKernels.2

end TileArray

section Sizes

open TileArray (allocationLimit)

-- Every buffer was allocated at once.
def TileBuffers.Fits (s : TileBuffers) : Prop :=
  ∀ (i : Nat) (b : TileBuffer), s.items[i]? = some b → b.byteLength ≤ allocationLimit

variable {s s' : TileBuffers}

theorem TileBuffers.Fits.modify (fits : s.Fits) (position : Nat) {change : TileBuffer → TileBuffer}
    (keeps : ∀ b, s.items[position]? = some b → (change b).byteLength = b.byteLength) :
    (s.modify position change).Fits := by
  intro i b found
  rw [get_modify] at found
  split at found
  next here =>
    obtain ⟨old, known, rfl⟩ := Option.map_eq_some_iff.mp found
    exact keeps old (here ▸ known) ▸ fits i old known
  · exact fits i b found

theorem TileBuffers.Fits.modifyNamed (fits : s.Fits) (name : String)
    {change : TileBuffer → TileBuffer} (keeps : ∀ b, (change b).byteLength = b.byteLength) :
    (s.modifyNamed name change).Fits := by
  unfold TileBuffers.modifyNamed
  split
  · exact fits.modify _ fun b _ => keeps b
  · exact fits

theorem TileBuffers.modify_self {i : Nat} {b : TileBuffer} {change : TileBuffer → TileBuffer}
    (found : s.items[i]? = some b) (same : change b = b) : s.modify i change = s := by
  refine congrArg TileBuffers.mk (Array.ext_getElem? fun n => ?_)
  change (s.modify i change).items[n]? = s.items[n]?
  rw [get_modify]
  split
  next here => rw [← here, found, Option.map_some, same]
  · rfl

theorem TileBuffer.byteLength_write (b : TileBuffer) (start : Nat) (bytes : List UInt8) :
    byteLength { b with store := b.store.write start bytes } = b.byteLength :=
  ByteStore.size_write _ _ _

section Copied

variable (b : TileBuffer) (direction : Direction) (host : List UInt8) (count : Nat)

theorem TileBuffer.byteLength_copied : (b.copied direction host count).byteLength = b.byteLength := by
  cases direction with
  | hostToDevice => exact b.byteLength_write _ _
  | deviceToHost => rfl

theorem TileBuffer.cursor_copied : (b.copied direction host count).cursor = b.cursor := by
  cases direction <;> rfl

theorem TileBuffer.room_copied : (b.copied direction host count).room = b.room := by
  rw [room, room, byteLength_copied, cursor_copied]

theorem TileBuffer.Sound.copied {b : TileBuffer} (sound : b.Sound) :
    (b.copied direction host count).Sound := by
  cases direction with
  | hostToDevice => exact sound.stored _ _
  | deviceToHost => exact sound

end Copied

theorem AddKernel.step_fits {k k' : AddKernel} (fits : s.Fits) (stepped : k.step s = some (k', s')) :
    s'.Fits := by
  obtain ⟨-, total, rfl⟩ := step_cases stepped
  refine TileBuffers.Fits.modifyNamed ?_ _ fun b => rfl
  refine TileBuffers.Fits.modifyNamed ?_ _ fun b => rfl
  refine TileBuffers.Fits.modifyNamed ?_ _ fun b => rfl
  exact fits.modifyNamed _ fun b => b.byteLength_write 0 _

theorem AddKernel.stepAll_fits (kernels : List AddKernel) (fits : s.Fits) :
    (stepAll kernels s).2.2.Fits := by
  induction kernels generalizing s with
  | nil => exact fits
  | cons k rest ih =>
    unfold stepAll
    cases stepped : k.step s with
    | none => exact ih fits
    | some next => exact ih (step_fits fits stepped)

end Sizes

namespace TileArray

variable {t t' : TileArray} {q : Request} {e : Endpoint} {r : Route} {b : TileBuffer}

structure Within (t : TileArray) : Prop where
  sound : t.Sound
  fits : t.buffers.Fits

theorem ok_of_mapError {ε ε' α : Type} {x : Except ε α} {wrap : ε → ε'} {a : α}
    (accepted : x.mapError wrap = .ok a) : x = .ok a := by
  cases x with
  | error fault => cases accepted
  | ok _ =>
    cases accepted
    rfl

theorem Within.empty : Within {} :=
  ⟨empty_sound, fun _ _ found => by simp at found⟩

theorem Within.modified (within : t.Within) (i : Nat) {change : TileBuffer → TileBuffer}
    (keeps : ∀ b, b.Sound → (change b).Sound) (size : ∀ b, (change b).byteLength = b.byteLength) :
    Within { t with buffers := t.buffers.modify i change } :=
  ⟨within.sound.modified i keeps, within.fits.modify i fun b _ => size b⟩

theorem Within.addBuffer (within : t.Within) {name : String} {words : Nat}
    (allocatable : 4 * words ≤ allocationLimit) (added : t.addBuffer name words = .ok t') :
    t'.Within := by
  refine ⟨within.sound.addBuffer added, fun i b found => ?_⟩
  unfold TileArray.addBuffer at added
  split_ifs at added
  cases added
  simp only [Array.getElem?_push] at found
  split at found
  · cases found
    exact (ByteStore.size_zeros _).trans_le allocatable
  · exact within.fits i b found

theorem route_cons (t : TileArray) (e : Endpoint) (name : String) (names : List String) :
    t.route e (name :: names) =
      ((name :: names).mapM t.position).map fun buffers => t.setRoute e { buffers } := by
  simp only [route, List.isEmpty_cons, Bool.false_eq_true, if_false]
  cases (name :: names).mapM t.position <;> rfl

theorem Within.routed (within : t.Within) {names : List String}
    (routed : t.route e names = .ok t') : t'.Within := by
  refine ⟨within.sound.routed routed, ?_⟩
  cases names with
  | nil => cases routed
  | cons name names =>
    rw [route_cons] at routed
    obtain ⟨buffers, _, rfl⟩ := except_map_iff.mp routed
    exact within.fits

theorem Within.written (within : t.Within) {name : String} {index : Nat} {value : UInt32}
    (written : t.writeBuffer name index value = .ok t') : t'.Within := by
  obtain ⟨i, _, written⟩ := except_bind_iff.mp written
  cases written
  exact within.modified i (fun b sound => sound.setWord index value) fun b => b.byteLength_write _ _

theorem Within.load (within : t.Within) {name : String} {words : List UInt32}
    (loaded : t.load name words = some t') : t'.Within := by
  obtain ⟨i, _, rfl⟩ := Option.map_eq_some_iff.mp loaded
  exact within.modified i (fun b sound => sound.load words) fun b => b.byteLength_write _ _

theorem Within.setFull (within : t.Within) {name : String} {full : Bool}
    (locked : t.setFull name full = .ok t') : t'.Within := by
  obtain ⟨i, _, locked⟩ := except_bind_iff.mp locked
  cases locked
  exact within.modified i (fun b sound => sound.setFull full) fun b => rfl

theorem Within.runKernels (within : t.Within) : t.runKernels.2.Within :=
  ⟨within.sound.runKernels, AddKernel.stepAll_fits _ within.fits⟩

theorem pass_nothing (found : t.buffers.items[r.current]? = some b) {change : TileBuffer → TileBuffer}
    (same : change b = b) : t.pass e r false change = t := by
  rw [pass, t.buffers.modify_self found same]
  rfl

section Open

variable (known : t.routeOf e = some r) (found : t.buffers.items[r.current]? = some b)
  (sound : b.Sound) (opened : ready e.direction b = true)

include known found sound opened

theorem fill_open (bytes : List UInt8) :
    t.fill e bytes = .ok (min bytes.length b.room,
      t.pass e r (b.ends (min bytes.length b.room))
        fun b' => b'.fill (bytes.take (min bytes.length b.room))) := by
  rcases Nat.eq_zero_or_pos (min bytes.length b.room) with none | some
  · have short := TileBuffer.ends_false sound.room
    have kept : t.pass e r false (fun b' => b'.fill []) = t :=
      pass_nothing found (TileBuffer.fill_part short)
    rw [none, short, List.take_zero, kept]
    simp only [fill, known, capacity_ready found opened, none, short]
  · exact fill_ready known found opened some

theorem drain_open (limit : Nat) :
    t.drain e limit = .ok (b.front (min limit b.room),
      t.pass e r (b.ends (min limit b.room)) fun b' => b'.drain (min limit b.room)) := by
  rcases Nat.eq_zero_or_pos (min limit b.room) with none | some
  · have short := TileBuffer.ends_false sound.room
    have kept : t.pass e r false (fun b' => b'.drain 0) = t :=
      pass_nothing found (TileBuffer.advance_part short false)
    rw [none, short, kept]
    simp only [drain, known, capacity_ready found opened, none, short]
    rfl
  · exact drain_ready known found opened some

end Open

theorem serve_unrouted (unrouted : t.routeOf e = none) (host : List UInt8) :
    t.serve (.stream e host) = .error (.error (.invalidState (.noRoute e))) := by
  simp only [serve]
  split <;> simp [fill, drain, unrouted, Except.mapError, Except.map]

section Streaming

variable (known : t.routeOf e = some r) (found : t.buffers.items[r.current]? = some b)

include known found

theorem serve_barred (closed : ready e.direction b = false) (host : List UInt8) :
    t.serve (.stream e host) = .ok (.moved 0 host, t) := by
  simp only [serve]
  split
  · rw [fill_barred known found closed]
    rfl
  · rw [drain_barred known found closed]
    rfl

theorem serve_open (sound : b.Sound) (opened : ready e.direction b = true) (host : List UInt8) :
    t.serve (.stream e host) =
      .ok (.moved (min host.length b.room) (b.shown e.direction host (min host.length b.room)),
        t.pass e r (b.ends (min host.length b.room)) fun _ =>
          (b.copied e.direction host (min host.length b.room)).advance (min host.length b.room)
            (e.direction = .hostToDevice)) := by
  generalize held : min host.length b.room = count
  have only (change : TileBuffer → TileBuffer) :
      t.pass e r (b.ends count) change = t.pass e r (b.ends count) fun _ => change b := by
    rw [pass, pass, t.buffers.modify_eq found change]
  cases inbound : e.direction with
  | hostToDevice =>
    have taken : (host.take count).length = count := by rw [List.length_take]; omega
    have filled := fill_open known found sound opened host
    rw [held, only fun b => b.fill (host.take count)] at filled
    simp only [serve, inbound, filled, TileBuffer.fill, taken]
    rfl
  | deviceToHost =>
    have length : (b.front count).length = count := ByteStore.read_length _ _ _
    have drained := drain_open known found sound opened host.length
    rw [held, only fun b => b.drain count] at drained
    simp only [serve, inbound, drained, Except.mapError, Except.map, length]
    rfl

end Streaming

theorem Within.pass (within : t.Within) (known : t.routeOf e = some r) (ended : Bool)
    {change : TileBuffer → TileBuffer}
    (keeps : ∀ b, t.buffers.items[r.current]? = some b →
      (change b).Sound ∧ (change b).byteLength = b.byteLength) :
    (t.pass e r ended change).Within := by
  refine ⟨within.sound.pass known ended fun b found => (keeps b found).1, ?_⟩
  unfold TileArray.pass
  split
  · exact within.fits.modify _ fun b found => (keeps b found).2
  · exact within.fits.modify _ fun b found => (keeps b found).2

theorem Within.stream_cases (within : t.Within) {host : List UInt8} {reading : Reading}
    (done : t.serve (.stream e host) = .ok (reading, t')) : t' = t ∨ ∃ r b count,
      t.routeOf e = some r ∧ t.buffers.items[r.current]? = some b ∧ b.Sound ∧ count ≤ b.room ∧
        t' = t.pass e r (b.ends count) fun _ =>
          (b.copied e.direction host count).advance count (e.direction = .hostToDevice) := by
  cases known : t.routeOf e with
  | none => cases (serve_unrouted known host).symm.trans done
  | some r =>
    obtain ⟨b, found, sound⟩ := within.sound.current known
    cases lock : ready e.direction b with
    | false =>
      cases (serve_barred known found lock host).symm.trans done
      exact .inl rfl
    | true =>
      cases (serve_open known found sound lock host).symm.trans done
      exact .inr ⟨r, b, _, rfl, found, sound, Nat.min_le_right _ _, rfl⟩

theorem Within.stream (within : t.Within) {host : List UInt8} {reading : Reading}
    (done : t.serve (.stream e host) = .ok (reading, t')) : t'.Within := by
  obtain rfl | ⟨r, b, count, known, found, sound, fits, rfl⟩ := within.stream_cases done
  · exact within
  · refine within.pass known _ fun other same => ?_
    cases found.symm.trans same
    have room := (b.room_copied e.direction host count).symm
    refine ⟨(sound.copied _ _ _).advance (room ▸ fits) _, ?_⟩
    rw [TileBuffer.byteLength_advance, TileBuffer.byteLength_copied]

theorem Within.served (within : t.Within) (allocatable : q.Allocatable) {reading : Reading}
    (done : t.serve q = .ok (reading, t')) : t'.Within := by
  cases q with
  | addBuffer name words =>
    obtain ⟨_, added, same⟩ := except_map_iff.mp done
    cases same
    exact within.addBuffer allocatable (ok_of_mapError added)
  | route e names =>
    obtain ⟨_, routed, same⟩ := except_map_iff.mp done
    cases same
    exact within.routed (ok_of_mapError routed)
  | read name index =>
    obtain ⟨_, _, same⟩ := except_map_iff.mp done
    cases same
    exact within
  | write name index value =>
    obtain ⟨_, written, same⟩ := except_map_iff.mp done
    cases same
    exact within.written written
  | setFull name full =>
    obtain ⟨_, locked, same⟩ := except_map_iff.mp done
    cases same
    exact within.setFull (ok_of_mapError locked)
  | stream e host => exact within.stream done

theorem Reached.within (reached : t.Reached) : t.Within := by
  induction reached with
  | empty => exact .empty
  | served _ allocatable done within => exact within.served allocatable done
  | addKernel _ k within => exact ⟨within.sound.addKernel k, within.fits⟩
  | load _ loaded within => exact within.load loaded
  | runKernels _ within => exact within.runKernels

end TileArray

end FabricQueue
