import FabricQueue.Proofs.Places
import FabricQueue.Proofs.Tiles
import FabricQueue.Proofs.Touches
import Mathlib.Logic.Relation

set_option autoImplicit false

namespace FabricQueue

namespace ByteStore

theorem set_comm (s : ByteStore) {i j : Nat} (a b : UInt8) (different : i ≠ j) :
    (s.set i a).set j b = (s.set j b).set i a := by
  have same : ((s.set i a).set j b).bytes.data = ((s.set j b).set i a).bytes.data := by
    rw [data_set, data_set, data_set, data_set, Array.setIfInBounds_comm a b different]
  exact congrArg (fun data => (⟨⟨data⟩⟩ : ByteStore)) same

end ByteStore

namespace TileBuffers

theorem modify_comm (s : TileBuffers) {i j : Nat} (different : i ≠ j)
    (first second : TileBuffer → TileBuffer) :
    (s.modify i first).modify j second = (s.modify j second).modify i first := by
  refine congrArg TileBuffers.mk (Array.ext_getElem? fun n => ?_)
  change ((s.modify i first).modify j second).items[n]? =
    ((s.modify j second).modify i first).items[n]?
  simp only [get_modify]
  by_cases here : i = n
  · have other : j ≠ n := here ▸ different.symm
    rw [if_neg other, if_neg other]
  · rw [if_neg here, if_neg here]

theorem modify_eq (s : TileBuffers) {i : Nat} {b : TileBuffer} (found : s.items[i]? = some b)
    (change : TileBuffer → TileBuffer) : s.modify i change = s.modify i fun _ => change b := by
  refine congrArg TileBuffers.mk (Array.ext_getElem? fun n => ?_)
  change (s.modify i change).items[n]? = (s.modify i fun _ => change b).items[n]?
  rw [get_modify, get_modify]
  by_cases here : i = n
  · rw [if_pos here, if_pos here, ← here, found]
    rfl
  · rw [if_neg here, if_neg here]

theorem modify_modify (s : TileBuffers) (i : Nat) (b b' : TileBuffer) :
    (s.modify i fun _ => b).modify i (fun _ => b') = s.modify i fun _ => b' := by
  refine congrArg TileBuffers.mk (Array.ext_getElem? fun n => ?_)
  change ((s.modify i fun _ => b).modify i fun _ => b').items[n]? =
    (s.modify i fun _ => b').items[n]?
  simp only [get_modify]
  split
  · rw [Option.map_map]
    rfl
  · rfl

end TileBuffers

namespace TileBuffer

def shift (b : TileBuffer) (direction : Direction) (byte : UInt8) : TileBuffer :=
  match direction with
  | .hostToDevice => b.fill [byte]
  | .deviceToHost => b.drain 1

variable {b : TileBuffer}

theorem ends_false {count : Nat} (more : count < b.room) : b.ends count = false := by
  unfold room at more
  rw [ends, beq_eq_false_iff_ne]
  omega

theorem fill_one (more : 1 < b.room) (byte : UInt8) : b.fill [byte] =
    { b with store := b.store.set b.cursor byte, cursor := b.cursor + 1 } :=
  fill_part (ends_false more)

theorem drain_one (more : 1 < b.room) : b.drain 1 = { b with cursor := b.cursor + 1 } :=
  advance_part (ends_false more) false

theorem further {b' : TileBuffer} (size : b'.byteLength = b.byteLength)
    (cursor : b'.cursor = b.cursor + 1) :
    b'.room = b.room - 1 ∧ ∀ count, b'.ends count = b.ends (count + 1) := by
  refine ⟨?_, fun count => ?_⟩
  · rw [room, room, size, cursor]
    omega
  · rw [ends, ends, size, cursor, Nat.add_assoc, Nat.add_comm 1]

theorem fill_cons (more : 1 < b.room) (byte : UInt8) (bytes : List UInt8) :
    (b.fill [byte]).fill bytes = b.fill (byte :: bytes) := by
  rw [fill_one more, fill, fill, advance, advance, ends, ends]
  simp only [ByteStore.write, byteLength, List.length_cons, Nat.add_assoc,
    Nat.add_comm 1 bytes.length, setFull]
  rfl

theorem drain_succ (more : 1 < b.room) (count : Nat) :
    (b.drain 1).drain count = b.drain (count + 1) := by
  rw [drain_one more, drain, drain, advance, advance, ends, ends]
  simp only [byteLength, Nat.add_assoc, Nat.add_comm 1 count, setFull]
  rfl

theorem front_succ (more : 1 < b.room) (count : Nat) :
    b.front (count + 1) = b.store.get b.cursor :: (b.drain 1).front count := by
  rw [drain_one more]
  exact b.store.read_succ b.cursor count

end TileBuffer

structure Scene where
  buffers : TileBuffers
  routes : Endpoint → Option Route
  memory : Memory
  left : Endpoint → Touches
  moved : Nat := 0

namespace Scene

def turn (s : Scene) (e : Endpoint) (r : Route) (b : TileBuffer) (ended : Bool) (memory : Memory)
    (left : Touches) (count : Nat) : Scene where
  buffers := s.buffers.modify r.current fun _ => b
  routes := Function.update s.routes e (some (if ended then r.advance else r))
  memory
  left := Function.update s.left e left
  moved := s.moved + count

structure Ready (s : Scene) (e : Endpoint) (touch : Touch) (left : Touches) (r : Route)
    (b : TileBuffer) : Prop where
  left : s.left e = touch :: left
  route : s.routes e = some r
  buffer : s.buffers.items[r.current]? = some b
  lock : TileArray.ready e.direction b = true

variable (place : Nat → Nat)

-- The byte that moves next, at the place of its address.
def byte (s : Scene) (e : Endpoint) (touch : Touch) (b : TileBuffer) : UInt8 :=
  match e.direction with
  | .hostToDevice => s.memory.get (place touch.address)
  | .deviceToHost => b.store.get b.cursor

def stored (s : Scene) (e : Endpoint) (touch : Touch) (b : TileBuffer) : Memory :=
  match e.direction with
  | .hostToDevice => s.memory
  | .deviceToHost => s.memory.set (place touch.address) (b.store.get b.cursor)

def step (s : Scene) (e : Endpoint) (touch : Touch) (left : Touches) (r : Route) (b : TileBuffer) :
    Scene :=
  s.turn e r (b.shift e.direction (s.byte place e touch b)) (b.ends 1) (s.stored place e touch b)
    left 1

-- Routes are cycles with a buffer in use, none shares a buffer with another of its direction, and
-- what goes back to the host is nobody else's.
structure Parted (s : Scene) : Prop where
  cycle : ∀ e r, s.routes e = some r → r.next < r.buffers.length
  owners : ∀ e e' r r', e ≠ e' → e.direction = e'.direction → s.routes e = some r →
    s.routes e' = some r' → ∀ i ∈ r.buffers, i ∉ r'.buffers
  apart : ∀ e e', e ≠ e' → e.direction = .deviceToHost → ∀ touch ∈ s.left e,
    ∀ other ∈ s.left e', place touch.address ≠ place other.address

def Moves (s s' : Scene) : Prop :=
  s.Parted place ∧ ∃ e touch left r b, s.Ready e touch left r b ∧ s' = s.step place e touch left r b

abbrev Run : Scene → Scene → Prop :=
  Relation.ReflTransGen (Moves place)

def Still (s : Scene) : Prop :=
  ∀ e touch left r b, ¬ s.Ready e touch left r b

variable {place} {s s' : Scene} {e e' : Endpoint} {touch touch' : Touch} {left left' : Touches}
  {r r' : Route} {b b' : TileBuffer}

section Turn

variable {ended : Bool} {memory : Memory} {count : Nat}

theorem turn_routes_self : (s.turn e r b ended memory left count).routes e =
    some (if ended then r.advance else r) :=
  Function.update_self _ _ _

theorem turn_route : (s.turn e r b false memory left count).routes e = some r :=
  turn_routes_self

theorem turn_routes_other (other : e' ≠ e) :
    (s.turn e r b ended memory left count).routes e' = s.routes e' :=
  Function.update_of_ne other _ _

theorem turn_left_self : (s.turn e r b ended memory left count).left e = left :=
  Function.update_self _ _ _

theorem turn_left_other (other : e' ≠ e) :
    (s.turn e r b ended memory left count).left e' = s.left e' :=
  Function.update_of_ne other _ _

theorem turn_buffer (found : s.buffers.items[r.current]? = some b') :
    (s.turn e r b ended memory left count).buffers.items[r.current]? = some b := by
  rw [turn, TileBuffers.get_modify, if_pos rfl, found]
  rfl

theorem turn_buffer_other {i : Nat} (other : r.current ≠ i) :
    (s.turn e r b ended memory left count).buffers.items[i]? = s.buffers.items[i]? := by
  rw [turn, TileBuffers.get_modify, if_neg other]

theorem turn_turn {memory' : Memory} {count' : Nat} {ended' : Bool} :
    (s.turn e r b ended memory left count).turn e r b' ended' memory' left' count' =
      s.turn e r b' ended' memory' left' (count + count') := by
  simp only [turn, TileBuffers.modify_modify, Function.update_idem, Nat.add_assoc]

theorem Parted.turn (parted : s.Parted place) (route : s.routes e = some r)
    (fewer : left ⊆ s.left e) : (s.turn e r b ended memory left count).Parted place := by
  have buffers : (if ended then r.advance else r).buffers = r.buffers := by
    split <;> rfl
  -- The routes are the same cycles, and nobody has more left.
  have known {e' : Endpoint} {r' : Route}
      (found : (s.turn e r b ended memory left count).routes e' = some r') :
      ∃ old, s.routes e' = some old ∧ r'.buffers = old.buffers := by
    by_cases same : e' = e
    · subst same
      rw [turn_routes_self] at found
      cases found
      exact ⟨r, route, buffers⟩
    · rw [turn_routes_other same] at found
      exact ⟨r', found, rfl⟩
  have among {e' : Endpoint} {other : Touch}
      (member : other ∈ (s.turn e r b ended memory left count).left e') : other ∈ s.left e' := by
    by_cases same : e' = e
    · subst same
      rw [turn_left_self] at member
      exact fewer member
    · rwa [turn_left_other same] at member
  refine ⟨fun e' r' found => ?_, fun e₁ e₂ r₁ r₂ different direction found found' i inside => ?_,
    fun e₁ e₂ different outbound touch member other member' => ?_⟩
  · by_cases same : e' = e
    · subst same
      rw [turn_routes_self] at found
      cases found
      have below := parted.cycle e' r route
      split
      · exact Nat.mod_lt _ (Nat.zero_lt_of_lt below)
      · exact below
    · rw [turn_routes_other same] at found
      exact parted.cycle e' r' found
  · obtain ⟨old, route₁, same⟩ := known found
    obtain ⟨old', route₂, same'⟩ := known found'
    rw [same']
    exact parted.owners e₁ e₂ old old' different direction route₁ route₂ i (same ▸ inside)
  · exact parted.apart e₁ e₂ different outbound touch (among member) other (among member')

end Turn

theorem Ready.fewer (ready : s.Ready e touch left r b) : left ⊆ s.left e := by
  rw [ready.left]
  exact List.subset_cons_self _ _

theorem Parted.step (parted : s.Parted place) (ready : s.Ready e touch left r b) :
    (s.step place e touch left r b).Parted place :=
  parted.turn ready.route ready.fewer

theorem Parted.current_mem (parted : s.Parted place) (route : s.routes e = some r) :
    r.current ∈ r.buffers := by
  have below := parted.cycle e r route
  rw [Route.current, List.getD, List.getElem?_eq_getElem below]
  exact List.getElem_mem _

theorem Parted.other_buffer (parted : s.Parted place) (different : e ≠ e')
    (first : s.Ready e touch left r b) (second : s.Ready e' touch' left' r' b') :
    r.current ≠ r'.current := by
  intro same
  have one : b = b' := by
    have found := first.buffer
    rw [same, second.buffer] at found
    exact (Option.some.inj found).symm
  have lock := first.lock
  have lock' := second.lock
  rw [← one] at lock'
  have direction : e.direction = e'.direction := by
    cases there : e.direction <;> cases back : e'.direction <;>
      simp_all [TileArray.ready]
  exact parted.owners e e' r r' different direction first.route second.route _
    (parted.current_mem first.route) (same ▸ parted.current_mem second.route)

section Two

variable (parted : s.Parted place) (different : e ≠ e') (first : s.Ready e touch left r b)
  (second : s.Ready e' touch' left' r' b')

include parted different first second

theorem Parted.ready_step : (s.step place e touch left r b).Ready e' touch' left' r' b' := by
  have other := parted.other_buffer different first second
  exact ⟨(turn_left_other different.symm).trans second.left,
    (turn_routes_other different.symm).trans second.route,
    (turn_buffer_other other).trans second.buffer, second.lock⟩

theorem Parted.places_apart (outbound : e.direction = .deviceToHost) :
    place touch.address ≠ place touch'.address :=
  parted.apart e e' different outbound touch (first.left ▸ List.mem_cons_self) touch'
    (second.left ▸ List.mem_cons_self)

theorem Parted.byte_step :
    (s.step place e touch left r b).byte place e' touch' b' = s.byte place e' touch' b' := by
  cases back : e'.direction with
  | deviceToHost => simp only [byte, back]
  | hostToDevice =>
    simp only [byte, back]
    cases there : e.direction with
    | hostToDevice => simp only [Scene.step, Scene.turn, stored, there]
    | deviceToHost =>
      simp only [Scene.step, Scene.turn, stored, there]
      exact ByteStore.get_set_other _ _ (parted.places_apart different first second there)

theorem Parted.stored_comm :
    (s.step place e touch left r b).stored place e' touch' b' =
      (s.step place e' touch' left' r' b').stored place e touch b := by
  cases there : e.direction <;> cases back : e'.direction <;>
    simp only [Scene.step, Scene.turn, stored, there, back]
  exact ByteStore.set_comm _ _ _ (parted.places_apart different first second there)

theorem Parted.step_comm :
    (s.step place e touch left r b).step place e' touch' left' r' b' =
      (s.step place e' touch' left' r' b').step place e touch left r b := by
  have buffers := parted.other_buffer different first second
  have byte := parted.byte_step different first second
  have byte' := parted.byte_step different.symm second first
  have memory := parted.stored_comm different first second
  rw [Scene.step, Scene.step.eq_def place (s.step place e' touch' left' r' b'), byte, byte', memory]
  simp only [Scene.step, Scene.turn, Function.update_comm different.symm,
    s.buffers.modify_comm buffers.symm]

end Two

theorem Moves.diamond {s₁ s₂ : Scene} (first : Moves place s s₁) (second : Moves place s s₂) :
    ∃ s', Relation.ReflGen (Moves place) s₁ s' ∧ Run place s₂ s' := by
  obtain ⟨parted, e, touch, left, r, b, ready, rfl⟩ := first
  obtain ⟨_, e', touch', left', r', b', ready', rfl⟩ := second
  by_cases same : e = e'
  · subst same
    cases ready.left.symm.trans ready'.left
    cases ready.route.symm.trans ready'.route
    cases ready.buffer.symm.trans ready'.buffer
    exact ⟨_, .refl, .refl⟩
  · refine ⟨_, .single ⟨parted.step ready, e', touch', left', r', b',
      parted.ready_step same ready ready', rfl⟩, .single ⟨parted.step ready', e, touch, left, r, b,
      parted.ready_step (Ne.symm same) ready' ready, ?_⟩⟩
    exact parted.step_comm same ready ready'

theorem Still.run_eq (still : s.Still) (run : Run place s s') : s' = s := by
  rcases run.cases_head with same | ⟨_, ⟨_, e, touch, left, r, b, ready, _⟩, _⟩
  · exact same.symm
  · exact absurd ready (still e touch left r b)

theorem Run.unique {s₁ s₂ : Scene} (first : Run place s s₁) (second : Run place s s₂)
    (still : s₁.Still) (still' : s₂.Still) : s₁ = s₂ := by
  obtain ⟨s', run, run'⟩ := Relation.church_rosser (fun _ _ _ => Moves.diamond) first second
  exact (still.run_eq run).symm.trans (still'.run_eq run')

section Many

variable (parted : s.Parted place) (route : s.routes e = some r)
  (found : s.buffers.items[r.current]? = some b) {touches : Touches} (nonempty : touches ≠ [])
  (owed : s.left e = touches ++ left) (fits : touches.length ≤ b.room)

include parted route found nonempty owed fits

theorem Parted.fill_run (inbound : e.direction = .hostToDevice) (lock : b.full = false) :
    Run place s (s.turn e r (b.fill (touches.map fun touch => s.memory.get (place touch.address)))
      (b.ends touches.length) s.memory left touches.length) := by
  induction touches generalizing s b with
  | nil => exact absurd rfl nonempty
  | cons touch touches ih =>
    have ready : s.Ready e touch (touches ++ left) r b :=
      ⟨owed, route, found, by simp only [TileArray.ready, inbound, lock, Bool.not_false]⟩
    obtain ⟨x, read⟩ : ∃ x, x = s.memory.get (place touch.address) := ⟨_, rfl⟩
    have moves : Moves place s (s.turn e r (b.fill [x]) (b.ends 1) s.memory (touches ++ left) 1) :=
      ⟨parted, e, touch, _, r, b, ready, by
        simp only [Scene.step, TileBuffer.shift, byte, stored, inbound, read]⟩
    rw [List.map_cons, ← read]
    cases touches with
    | nil => exact .single moves
    | cons next touches =>
      simp only [List.length_cons] at fits
      have more : 1 < b.room := by omega
      have part := TileBuffer.fill_one more x
      obtain ⟨room, ends⟩ :=
        TileBuffer.further (b.byteLength_fill [x]) (congrArg TileBuffer.cursor part)
      rw [TileBuffer.ends_false more] at moves
      have rest := ih (s := s.turn e r (b.fill [x]) false s.memory (next :: touches ++ left) 1)
        (parted.turn route ready.fewer) turn_route (turn_buffer found) (List.cons_ne_nil _ _)
        turn_left_self (by rw [room, List.length_cons]; omega) (by rw [part]; exact lock)
      rw [turn_turn, ends, TileBuffer.fill_cons more, Nat.add_comm 1] at rest
      exact .head moves rest

theorem Parted.drain_run (outbound : e.direction = .deviceToHost) (lock : b.full = true) :
    Run place s (s.turn e r (b.drain touches.length) (b.ends touches.length)
      (s.memory.scatter (touches.map fun touch => place touch.address) (b.front touches.length))
      left touches.length) := by
  induction touches generalizing s b with
  | nil => exact absurd rfl nonempty
  | cons touch touches ih =>
    have ready : s.Ready e touch (touches ++ left) r b :=
      ⟨owed, route, found, by simp only [TileArray.ready, outbound, lock]⟩
    obtain ⟨m, wrote⟩ : ∃ m, m = s.memory.set (place touch.address) (b.store.get b.cursor) :=
      ⟨_, rfl⟩
    have moves : Moves place s (s.turn e r (b.drain 1) (b.ends 1) m (touches ++ left) 1) :=
      ⟨parted, e, touch, _, r, b, ready, by
        simp only [Scene.step, TileBuffer.shift, stored, outbound, wrote]⟩
    cases touches with
    | nil =>
      rw [wrote] at moves
      exact .single moves
    | cons next touches =>
      simp only [List.length_cons] at fits
      have more : 1 < b.room := by omega
      have part := TileBuffer.drain_one more
      obtain ⟨room, ends⟩ :=
        TileBuffer.further (b.byteLength_advance 1 false) (congrArg TileBuffer.cursor part)
      rw [TileBuffer.ends_false more] at moves
      have rest := ih (s := s.turn e r (b.drain 1) false m (next :: touches ++ left) 1)
        (parted.turn route ready.fewer) turn_route (turn_buffer found) (List.cons_ne_nil _ _)
        turn_left_self (by rw [TileBuffer.drain, room, List.length_cons]; omega)
        (by rw [part]; exact lock)
      rw [turn_turn, TileBuffer.drain_succ more, TileBuffer.drain.eq_def b 1, ends,
        Nat.add_comm 1] at rest
      rw [List.map_cons, List.length_cons, TileBuffer.front_succ more, ByteStore.scatter_cons,
        ← wrote]
      exact .head moves rest

end Many

end Scene

end FabricQueue
