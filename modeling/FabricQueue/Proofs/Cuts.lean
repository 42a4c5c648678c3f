import FabricQueue.Proofs.Channels
import FabricQueue.Proofs.Refusals

set_option autoImplicit false

namespace FabricQueue

namespace TileBuffer

def past (b : TileBuffer) (direction : Direction) (host : List UInt8) (count : Nat) : TileBuffer :=
  (b.copied direction host count).advance count (direction = .hostToDevice)

variable {b : TileBuffer} {direction : Direction} {host rest : List UInt8} {byte : UInt8} {count : Nat}

theorem past_fill (fits : count ≤ host.length) :
    b.past .hostToDevice host count = b.fill (host.take count) := by
  rw [past, fill, List.length_take, Nat.min_eq_left fits]
  rfl

theorem past_drain : b.past .deviceToHost host count = b.drain count :=
  rfl

theorem past_sound (sound : b.Sound) (fits : count ≤ b.room) : (b.past direction host count).Sound :=
  (sound.copied direction host count).advance ((b.room_copied direction host count).symm ▸ fits) _

theorem past_succ (more : 1 < b.room) (fits : count ≤ rest.length) :
    (b.past direction [byte] 1).past direction rest count =
      b.past direction (byte :: rest) (count + 1) := by
  cases direction with
  | hostToDevice =>
    rw [past_fill fits, past_fill (Nat.le_refl 1), past_fill (Nat.succ_le_succ fits)]
    exact fill_cons more byte (rest.take count)
  | deviceToHost => exact drain_succ more count

theorem shown_succ (more : 1 < b.room) :
    b.shown direction [byte] 1 ++ (b.past direction [byte] 1).shown direction rest count =
      b.shown direction (byte :: rest) (count + 1) := by
  cases direction with
  | hostToDevice => rfl
  | deviceToHost =>
    simp only [shown, past_drain, front_succ more]
    rfl

theorem past_one (more : 1 < b.room) (direction : Direction) (byte : UInt8) :
    (b.past direction [byte] 1).room = b.room - 1 ∧
      (∀ count, (b.past direction [byte] 1).ends count = b.ends (count + 1)) ∧
        (b.past direction [byte] 1).full = b.full := by
  have short : (b.copied direction [byte] 1).ends 1 = false :=
    ends_false ((b.room_copied direction [byte] 1).symm ▸ more)
  have full : (b.copied direction [byte] 1).full = b.full := by cases direction <;> rfl
  have one : b.past direction [byte] 1 = { b.copied direction [byte] 1 with
      cursor := (b.copied direction [byte] 1).cursor + 1 } := advance_part short _
  rw [cursor_copied] at one
  have size : (b.past direction [byte] 1).byteLength = b.byteLength :=
    (byteLength_advance _ _ _).trans (b.byteLength_copied direction [byte] 1)
  obtain ⟨room, ends⟩ := further size (congrArg TileBuffer.cursor one)
  exact ⟨room, ends, (congrArg TileBuffer.full one).trans full⟩

theorem length_shown (fits : count ≤ host.length) :
    (b.shown direction host count).length = host.length := by
  cases direction with
  | hostToDevice => rfl
  | deviceToHost =>
    rw [shown, List.length_append, front, ByteStore.read_length, List.length_drop]
    omega

theorem drop_shown : (b.shown direction host count).drop count = host.drop count := by
  cases direction with
  | hostToDevice => rfl
  | deviceToHost =>
    have length : (b.front count).length = count := ByteStore.read_length _ _ _
    rw [shown, List.drop_append_of_le_length (Nat.le_of_eq length.symm),
      List.drop_eq_nil_of_le (Nat.le_of_eq length), List.nil_append]

theorem shown_take : b.shown direction (host.take count) count =
    (b.shown direction host count).take count := by
  cases direction with
  | hostToDevice => rfl
  | deviceToHost =>
    have length : (b.front count).length = count := ByteStore.read_length _ _ _
    rw [shown, shown, List.take_append_of_le_length (Nat.le_of_eq length.symm),
      List.take_of_length_le (Nat.le_of_eq length), List.drop_eq_nil_of_le (List.length_take_le _ _),
      List.append_nil]

theorem past_take : b.past direction (host.take count) count = b.past direction host count := by
  cases direction with
  | hostToDevice => simp only [past, copied, List.take_take, Nat.min_self]
  | deviceToHost => rfl

end TileBuffer

namespace TileArray

structure Moved where
  count : Nat
  host : List UInt8
  array : TileArray

def Moved.behind (first later : Moved) : Moved :=
  ⟨first.count + later.count, first.host ++ later.host, later.array⟩

theorem Moved.behind_assoc (first second third : Moved) :
    (first.behind second).behind third = first.behind (second.behind third) := by
  simp only [behind, Nat.add_assoc, List.append_assoc]

/-- One call on an endpoint: host bytes are taken in, or overwritten from the front. -/
def stream (t : TileArray) (e : Endpoint) (host : List UInt8) : Except StateFault Moved :=
  match e.direction with
  | .hostToDevice => (t.fill e host).map fun (count, array) => { count, host, array }
  | .deviceToHost => (t.drain e host.length).map fun (bytes, array) =>
    { count := bytes.length, host := bytes ++ host.drop bytes.length, array }

/-- Offer bytes, and what is left of them again, until all have moved or a call moves none. -/
def offer (t : TileArray) (e : Endpoint) (host : List UInt8) : Except StateFault Moved :=
  match t.stream e host with
  | .error fault => .error fault
  | .ok moved =>
    if 0 < moved.count ∧ moved.count < host.length then
      let first := { moved with host := moved.host.take moved.count }
      (moved.array.offer e (host.drop moved.count)).map first.behind
    else .ok moved
  termination_by host.length
  decreasing_by
    rw [List.length_drop]
    omega

/-- Offer slices one after the other, up to the first of which something is left. -/
def offerAll (e : Endpoint) : List (List UInt8) → TileArray → Except StateFault Moved
  | [], array => .ok { count := 0, host := [], array }
  | slice :: rest, t =>
    match t.offer e slice with
    | .error fault => .error fault
    | .ok moved =>
      if moved.count < slice.length then .ok { moved with host := moved.host ++ rest.flatten }
      else (offerAll e rest moved.array).map moved.behind

/-- Offer each byte on its own. -/
def offerEach (e : Endpoint) (host : List UInt8) (t : TileArray) : Except StateFault Moved :=
  offerAll e (host.map fun byte => [byte]) t

variable {t t' : TileArray} {e : Endpoint} {r : Route} {b : TileBuffer} {host : List UInt8}
  {moved : Moved}

theorem serve_stream (t : TileArray) (e : Endpoint) (host : List UInt8) :
    t.serve (.stream e host) = ((t.stream e host).mapError (Failure.error ∘ Error.invalidState)).map
      fun moved => (.moved moved.count moved.host, moved.array) := by
  rw [serve, stream]
  cases e.direction with
  | hostToDevice => cases t.fill e host <;> rfl
  | deviceToHost => cases t.drain e host.length <;> rfl

theorem stream_iff : t.stream e host = .ok moved ↔
    t.serve (.stream e host) = .ok (.moved moved.count moved.host, moved.array) := by
  rw [serve_stream]
  cases t.stream e host with
  | error fault => simp [Except.mapError, Except.map]
  | ok other =>
    obtain ⟨_, _, _⟩ := other
    obtain ⟨_, _, _⟩ := moved
    simp [Except.mapError, Except.map, and_assoc]

theorem stream_le (streamed : t.stream e host = .ok moved) : moved.count ≤ host.length := by
  unfold stream at streamed
  split at streamed
  · obtain ⟨_, filled, rfl⟩ := except_map_iff.mp streamed
    exact fill_le filled
  · obtain ⟨_, drained, rfl⟩ := except_map_iff.mp streamed
    exact drain_le drained

section Offers

theorem offer_whole (streamed : t.stream e host = .ok moved)
    (whole : moved.count = 0 ∨ host.length ≤ moved.count) : t.offer e host = .ok moved := by
  rw [offer, streamed]
  exact if_neg (by omega)

theorem offer_part (streamed : t.stream e host = .ok moved) (some : 0 < moved.count)
    (part : moved.count < host.length) : t.offer e host =
      (moved.array.offer e (host.drop moved.count)).map
        { moved with host := moved.host.take moved.count }.behind := by
  rw [offer, streamed]
  exact if_pos ⟨some, part⟩

theorem offer_one (byte : UInt8) : t.offer e [byte] = t.stream e [byte] := by
  cases streamed : t.stream e [byte] with
  | error fault => rw [offer, streamed]
  | ok moved => exact offer_whole streamed (Nat.eq_zero_or_pos moved.count)

theorem offerEach_cons (byte : UInt8) (host : List UInt8) :
    offerEach e (byte :: host) t = match t.stream e [byte] with
      | .error fault => .error fault
      | .ok moved =>
        if moved.count < 1 then .ok { moved with host := moved.host ++ host }
        else (offerEach e host moved.array).map moved.behind := by
  rw [offerEach, List.map_cons, offerAll, offer_one, ← List.flatMap_def, List.flatMap_singleton']
  rfl

theorem offerEach_cases {byte : UInt8} (ran : offerEach e (byte :: host) t = .ok moved) :
    ∃ first, t.stream e [byte] = .ok first ∧
      (first.count < 1 ∧ moved = { first with host := first.host ++ host } ∨
        ¬first.count < 1 ∧ ∃ later, offerEach e host first.array = .ok later ∧
          first.behind later = moved) := by
  rw [offerEach_cons] at ran
  cases streamed : t.stream e [byte] with
  | error fault => rw [streamed] at ran; cases ran
  | ok first =>
    simp only [streamed] at ran
    split_ifs at ran with none
    · cases ran
      exact ⟨first, rfl, .inl ⟨none, rfl⟩⟩
    · exact ⟨first, rfl, .inr ⟨none, except_map_iff.mp ran⟩⟩

theorem offerEach_whole (ran : offerEach e host t = .ok moved) (whole : moved.count = host.length)
    (more : List UInt8) :
    offerEach e (host ++ more) t = (offerEach e more moved.array).map moved.behind := by
  induction host generalizing t moved with
  | nil =>
    cases ran
    cases ran : offerEach e more t with
    | error fault => exact ran
    | ok later => rw [List.nil_append, ran, Except.map, Moved.behind, Nat.zero_add]; rfl
  | cons byte host ih =>
    obtain ⟨first, streamed, ⟨none, rfl⟩ | ⟨some, later, ended, rfl⟩⟩ := offerEach_cases ran
    · rw [List.length_cons] at whole
      simp only at whole
      omega
    · have bound : first.count ≤ 1 := stream_le streamed
      rw [List.length_cons] at whole
      rw [List.cons_append, offerEach_cons]
      simp only [streamed, if_neg some]
      rw [ih ended (by simp only [Moved.behind] at whole; omega)]
      change _ = (offerEach e more later.array).map (first.behind later).behind
      cases offerEach e more later.array with
      | error fault => rfl
      | ok last => exact congrArg Except.ok (first.behind_assoc later last).symm

theorem offerEach_part (ran : offerEach e host t = .ok moved) (part : moved.count < host.length)
    (more : List UInt8) :
    offerEach e (host ++ more) t = .ok { moved with host := moved.host ++ more } := by
  induction host generalizing t moved with
  | nil => exact absurd part (Nat.not_lt_zero _)
  | cons byte host ih =>
    obtain ⟨first, streamed, ⟨none, rfl⟩ | ⟨some, later, ended, rfl⟩⟩ := offerEach_cases ran
    · rw [List.cons_append, offerEach_cons]
      simp only [streamed, if_pos none, List.append_assoc]
    · rw [List.length_cons] at part
      rw [List.cons_append, offerEach_cons]
      simp only [streamed, if_neg some]
      rw [ih ended (by simp only [Moved.behind] at part; omega)]
      exact congrArg (fun host => Except.ok (Moved.mk _ host _)) (List.append_assoc _ _ _).symm

end Offers

section Calls

variable (known : t.routeOf e = some r) (found : t.buffers.items[r.current]? = some b)

include known found

theorem stream_barred (closed : ready e.direction b = false) (host : List UInt8) :
    t.stream e host = .ok ⟨0, host, t⟩ :=
  stream_iff.mpr (serve_barred known found closed host)

theorem stream_open (sound : b.Sound) (opened : ready e.direction b = true) (host : List UInt8) :
    t.stream e host = .ok ⟨min host.length b.room, b.shown e.direction host (min host.length b.room),
      t.pass e r (b.ends (min host.length b.room)) fun _ =>
        b.past e.direction host (min host.length b.room)⟩ :=
  stream_iff.mpr (serve_open known found sound opened host)

theorem offerEach_barred (closed : ready e.direction b = false) (host : List UInt8) :
    offerEach e host t = .ok ⟨0, host, t⟩ := by
  cases host with
  | nil => rfl
  | cons byte host =>
    rw [offerEach_cons, stream_barred known found closed]
    rfl

end Calls

theorem pass_pass (t : TileArray) (e : Endpoint) (r : Route) (ended : Bool) (b b' : TileBuffer) :
    (t.pass e r false fun _ => b).pass e r ended (fun _ => b') = t.pass e r ended fun _ => b' := by
  simp only [pass, Bool.false_eq_true, if_false, TileBuffers.modify_modify]

theorem offerEach_open (known : t.routeOf e = some r) (found : t.buffers.items[r.current]? = some b)
    (sound : b.Sound) (opened : ready e.direction b = true) (some : host ≠ [])
    (fits : host.length ≤ b.room) : offerEach e host t =
      .ok ⟨host.length, b.shown e.direction host host.length,
        t.pass e r (b.ends host.length) fun _ => b.past e.direction host host.length⟩ := by
  induction host generalizing t b with
  | nil => exact absurd rfl some
  | cons byte rest ih =>
    have streamed := stream_open known found sound opened [byte]
    rw [List.length_singleton, Nat.min_eq_left sound.room] at streamed
    rw [offerEach_cons, streamed]
    simp only [Nat.lt_irrefl, if_false]
    by_cases last : rest = []
    · subst last
      simp [offerEach, offerAll, Except.map, Moved.behind]
    · rw [List.length_cons] at fits
      have more : 1 < b.room :=
        Nat.lt_of_lt_of_le (Nat.lt_add_of_pos_left (List.length_pos_of_ne_nil last)) fits
      obtain ⟨room, ends, full⟩ := TileBuffer.past_one more e.direction byte
      have opened' : ready e.direction (b.past e.direction [byte] 1) = true := by
        unfold ready at opened ⊢
        rwa [full]
      have further := ih (t := t.pass e r false fun _ => b.past e.direction [byte] 1) known
        (pass_current found e false _) (TileBuffer.past_sound sound (Nat.le_of_lt more)) opened'
        last (by omega)
      rw [TileBuffer.ends_false more, further]
      simp only [Except.map, Moved.behind, pass_pass, ends, TileBuffer.shown_succ more,
        TileBuffer.past_succ more (Nat.le_refl rest.length), Nat.add_comm 1, List.length_cons]

-- What holds once bytes were offered: those that moved are the first ones, and something is left only
-- where the lock stands in the way.
structure Moved.Settles (moved : Moved) (e : Endpoint) (host : List UInt8) : Prop where
  within : moved.array.Within
  routed : moved.array.hasRoute e = true
  count : moved.count ≤ host.length
  length : moved.host.length = host.length
  left : moved.host.drop moved.count = host.drop moved.count
  stalled : moved.count < host.length → moved.array.Barred e

theorem Moved.Settles.behind {later : Moved} {front back : List UInt8} (settles : later.Settles e back)
    (first : Moved) (count : first.count = front.length) (length : first.host.length = front.length) :
    (first.behind later).Settles e (front ++ back) where
  within := settles.within
  routed := settles.routed
  count := by
    rw [List.length_append]
    exact Nat.add_le_add (Nat.le_of_eq count) settles.count
  length := by
    simp only [Moved.behind, List.length_append, length, settles.length]
  left := by
    simp only [Moved.behind]
    rw [count, List.drop_length_add_append, ← length, List.drop_length_add_append, settles.left]
  stalled more := settles.stalled <| by
    simp only [Moved.behind, List.length_append] at more
    omega

theorem Moved.Settles.ahead {front : List UInt8} (settles : moved.Settles e front)
    (part : moved.count < front.length) (back : List UInt8) :
    { moved with host := moved.host ++ back }.Settles e (front ++ back) where
  within := settles.within
  routed := settles.routed
  count := by
    rw [List.length_append]
    exact Nat.le_add_right_of_le settles.count
  length := by simp only [List.length_append, settles.length]
  left := by
    have inside := settles.count.trans_eq settles.length.symm
    rw [List.drop_append_of_le_length inside, List.drop_append_of_le_length settles.count,
      settles.left]
  stalled _ := settles.stalled part

theorem stream_opened (known : t.routeOf e = some r) (found : t.buffers.items[r.current]? = some b)
    (sound : b.Sound) (opened : ready e.direction b = true) (some : host ≠ []) :
    ∃ moved, t.stream e host = .ok moved ∧ 0 < moved.count ∧
      offerEach e (host.take moved.count) t = .ok { moved with host := moved.host.take moved.count } ∧
      moved.array.hasRoute e = true ∧ moved.host.length = host.length ∧
      moved.host.drop moved.count = host.drop moved.count := by
  have streamed := stream_open known found sound opened host
  have positive : 0 < min host.length b.room :=
    Nat.lt_min.mpr ⟨List.length_pos_of_ne_nil some, sound.room⟩
  have bound := Nat.min_le_left host.length b.room
  have fits := Nat.min_le_right host.length b.room
  generalize min host.length b.room = count at streamed positive bound fits
  have taken : (host.take count).length = count := by rw [List.length_take, Nat.min_eq_left bound]
  have nonempty : host.take count ≠ [] := List.ne_nil_of_length_pos (taken.symm ▸ positive)
  have each := offerEach_open known found sound opened nonempty (taken.symm ▸ fits)
  rw [taken, TileBuffer.shown_take, TileBuffer.past_take] at each
  exact ⟨_, streamed, positive, each, pass_hasRoute known _ _, TileBuffer.length_shown bound,
    TileBuffer.drop_shown⟩

theorem stream_each (sound : t.Sound) (routed : t.hasRoute e = true) (some : host ≠ []) :
    ∃ moved, t.stream e host = .ok moved ∧
      offerEach e (host.take moved.count) t =
        .ok { moved with host := moved.host.take moved.count } := by
  obtain ⟨r, known⟩ := Option.isSome_iff_exists.mp routed
  obtain ⟨b, found, sound'⟩ := sound.current known
  cases lock : ready e.direction b with
  | false => exact ⟨_, stream_barred known found lock host, rfl⟩
  | true =>
    obtain ⟨moved, streamed, _, each, _⟩ := stream_opened known found sound' lock some
    exact ⟨moved, streamed, each⟩

-- Induction over the length of what is left.
theorem offer_each (within : t.Within) (routed : t.hasRoute e = true) (some : host ≠ []) :
    ∃ moved, t.offer e host = .ok moved ∧ offerEach e host t = .ok moved ∧ moved.Settles e host := by
  induction size : host.length using Nat.strong_induction_on generalizing t host with
  | _ length ih =>
    obtain ⟨r, known⟩ := Option.isSome_iff_exists.mp routed
    obtain ⟨b, found, sound⟩ := within.sound.current known
    cases lock : ready e.direction b with
    | false =>
      exact ⟨⟨0, host, t⟩, offer_whole (stream_barred known found lock host) (.inl rfl),
        offerEach_barred known found lock host, within, routed, Nat.zero_le _, rfl, rfl,
        fun _ => ⟨r, b, known, found, lock⟩⟩
    | true =>
      obtain ⟨first, streamed, positive, each, routed', long, left⟩ :=
        stream_opened known found sound lock some
      have within' := within.stream (stream_iff.mp streamed)
      rcases Nat.lt_or_ge first.count host.length with part | whole
      · have size : (host.drop first.count).length = host.length - first.count := List.length_drop
        have rest : host.drop first.count ≠ [] := List.ne_nil_of_length_pos (by omega)
        obtain ⟨later, offered, laterEach, settles⟩ := ih _ (by omega) within' routed' rest rfl
        have count : (host.take first.count).length = first.count := by
          rw [List.length_take, Nat.min_eq_left (Nat.le_of_lt part)]
        have shown : (first.host.take first.count).length = first.count := by
          rw [List.length_take, long, Nat.min_eq_left (Nat.le_of_lt part)]
        have together := offerEach_whole each count.symm (host.drop first.count)
        have all := settles.behind { first with host := first.host.take first.count } count.symm
          (shown.trans count.symm)
        rw [List.take_append_drop] at together all
        rw [laterEach] at together
        exact ⟨_, (offer_part streamed positive part).trans (by rw [offered]; rfl), together, all⟩
      · have all := stream_le streamed
        have whole' : first.count = host.length := Nat.le_antisymm all whole
        refine ⟨first, offer_whole streamed (.inr whole), ?_, within', routed', all, long, left,
          fun part => absurd whole (Nat.not_le.mpr part)⟩
        rwa [List.take_of_length_le whole, List.take_of_length_le (long.trans_le whole)] at each

theorem offerAll_each (within : t.Within) (routed : t.hasRoute e = true) {slices : List (List UInt8)}
    (some : ∀ slice ∈ slices, slice ≠ []) : ∃ moved, offerAll e slices t = .ok moved ∧
      offerEach e slices.flatten t = .ok moved ∧ moved.Settles e slices.flatten := by
  induction slices generalizing t with
  | nil =>
    exact ⟨_, rfl, rfl, within, routed, Nat.le_refl _, rfl, rfl,
      fun none => absurd none (Nat.lt_irrefl _)⟩
  | cons slice rest ih =>
    obtain ⟨first, offered, each, settles⟩ := offer_each within routed (some slice List.mem_cons_self)
    rw [offerAll, offered, List.flatten_cons]
    simp only
    split_ifs with part
    · exact ⟨_, rfl, offerEach_part each part _, settles.ahead part _⟩
    · have whole : first.count = slice.length := Nat.le_antisymm settles.count (Nat.not_lt.mp part)
      obtain ⟨later, ran, laterEach, further⟩ := ih settles.within settles.routed
        fun slice member => some slice (List.mem_cons_of_mem _ member)
      refine ⟨first.behind later, by rw [ran]; rfl, ?_, further.behind first whole settles.length⟩
      rw [offerEach_whole each whole, laterEach]
      rfl

theorem Barred.stream (barred : t.Barred e) (host : List UInt8) :
    t.stream e host = .ok ⟨0, host, t⟩ := by
  obtain ⟨r, b, known, found, closed⟩ := barred
  exact stream_barred known found closed host

-- However bytes are cut into slices, they come to the same as one by one. The host bytes behind those
-- that moved are as they were, and if there are any, no further call moves a byte.
theorem cuts_agree (reached : t.Reached) (routed : t.hasRoute e = true) (slices : List (List UInt8))
    (some : ∀ slice ∈ slices, slice ≠ []) : ∃ moved, offerAll e slices t = .ok moved ∧
      offerAll e (slices.flatten.map fun byte => [byte]) t = .ok moved ∧
      moved.count ≤ slices.flatten.length ∧ moved.host.length = slices.flatten.length ∧
      moved.host.drop moved.count = slices.flatten.drop moved.count ∧
      (moved.count < slices.flatten.length →
        ∀ host, moved.array.stream e host = .ok ⟨0, host, moved.array⟩) := by
  obtain ⟨moved, ran, each, settles⟩ := offerAll_each reached.within routed some
  exact ⟨moved, ran, each, settles.count, settles.length, settles.left, fun more =>
    (settles.stalled more).stream⟩

def sampleInlet : Endpoint :=
  ⟨7, 0, .hostToDevice⟩

-- Two buffers of one word each, filled in turn.
def sampleCycle : TileArray where
  buffers := ⟨#[TileBuffer.zeroed "a" 1, TileBuffer.zeroed "b" 1]⟩
  routes := [(sampleInlet, ⟨[0, 1], 0⟩)]

theorem sampleCycle_reached : sampleCycle.Reached := by
  have second : (Request.addBuffer "b" 1).Allocatable := by
    change 4 * 1 ≤ allocationLimit
    decide
  have added : sampleWord.serve (.addBuffer "b" 1) =
      .ok (.nothing, { buffers := sampleCycle.buffers }) := by
    simp [serve, addBuffer, TileBuffers.position?, sampleWord, sampleCycle, TileBuffer.zeroed,
      Except.mapError, Except.map]
  have routed : serve { buffers := sampleCycle.buffers } (.route sampleInlet ["a", "b"]) =
      .ok (.nothing, sampleCycle) := by
    have positions : ["a", "b"].mapM (position { buffers := sampleCycle.buffers }) = .ok [0, 1] := by
      simp [position, TileBuffers.position?, List.findIdx?_cons, sampleCycle, TileBuffer.zeroed]
      rfl
    rw [serve, route_cons, positions]
    rfl
  have named : (Request.route sampleInlet ["a", "b"]).Allocatable := trivial
  exact .served (.served sampleWord_reached second added) named routed

-- Of nine bytes eight move, and then both buffers are full.
theorem cuts_agree_sample : ∃ moved,
    offerAll sampleInlet [[1, 2, 3], [4, 5, 6], [7, 8, 9]] sampleCycle = .ok moved ∧
    offerAll sampleInlet [[1], [2], [3], [4], [5], [6], [7], [8], [9]] sampleCycle = .ok moved ∧
    moved.count = 8 ∧ moved.host.drop 8 = [9] ∧
    moved.array.stream sampleInlet [9] = .ok ⟨0, [9], moved.array⟩ := by
  obtain ⟨moved, ran, each, _, _, left, stalled⟩ :=
    cuts_agree sampleCycle_reached (e := sampleInlet) rfl [[1, 2, 3], [4, 5, 6], [7, 8, 9]] (by decide)
  have counted : (offerAll sampleInlet [[1, 2, 3], [4, 5, 6], [7, 8, 9]] sampleCycle).toOption.map
      (·.count) = some 8 := by decide +kernel
  rw [ran] at counted
  have count : moved.count = 8 := Option.some.inj counted
  rw [count] at left
  exact ⟨moved, ran, each, count, left, stalled (count ▸ by decide) _⟩

end TileArray

end FabricQueue
