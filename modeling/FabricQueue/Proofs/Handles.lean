import FabricQueue.Machine
import FabricQueue.Proofs.Bounds
import FabricQueue.Proofs.Sessions

set_option autoImplicit false

namespace FabricQueue

namespace Region

variable {r : Region} {m m' : Memory}

theorem read64_cases {offset : Nat} {w : UInt64} (done : r.read64 offset m = .ok w m') :
    offset + 8 ≤ r.size ∧ (r.phase + offset) % 8 = 0 := by
  unfold read64 access locate at done
  by_cases outside : r.size < offset + 8
  · rw [if_pos outside] at done; cases done
  by_cases misaligned : (r.phase + offset) % 8 ≠ 0
  · rw [if_neg outside, if_pos misaligned] at done
    cases address : r.physAddr offset <;> rw [address] at done <;> cases done
  · exact ⟨Nat.not_lt.mp outside, not_not.mp misaligned⟩

-- The regions that can be had: memory of its own, or a window of a file.
inductive Made : Region → Prop where
  | allocated {granted : Bool} {base : UInt64} {size : Nat} {r : Region} {m m' : Memory}
      (done : allocate granted base size m = .ok r m') : Made r
  | mapped {path : String} {base : UInt64} {size : Nat} {r : Region} {machine machine' : Machine}
      (done : Machine.mapWindow path base size machine = .ok r machine') : Made r

theorem Made.narrow (made : r.Made) :
    r.mapped = false ∨ r.base.toNat + r.size < UInt64.size := by
  cases made with
  | allocated done =>
    unfold allocate at done
    obtain ⟨_, done⟩ := guard_cases done
    obtain ⟨_, done⟩ := guard_cases done
    obtain ⟨_, done⟩ := guard_cases done
    cases done
    exact .inl rfl
  | @mapped path base size _ machine _ done =>
    right
    unfold Machine.mapWindow at done
    by_cases empty : size = 0
    · rw [if_pos empty] at done; cases done
    rw [if_neg empty] at done
    cases found : machine.file? path with
    | none => rw [found] at done; cases done
    | some file =>
      simp only [found] at done
      by_cases wide : UInt64.size ≤ base.toNat % Machine.pageSize + size
      · rw [if_pos wide] at done; cases done
      rw [if_neg wide] at done
      by_cases long : Machine.mapLimit < base.toNat % Machine.pageSize + size
      · rw [if_pos long] at done; cases done
      rw [if_neg long] at done
      by_cases beyond : Machine.fileLimit ≤ base.toNat + size
      · rw [if_pos beyond] at done; cases done
      rw [if_neg beyond] at done
      cases done
      simp only [Machine.fileLimit, Nat.one_shiftLeft] at beyond
      simp only [UInt64.size]
      omega

abbrev Refuses (failure : Failure) : Prop :=
  ∃ cause, failure = .error cause

theorem Made.access {α : Type} {use : Nat → Memory → α × Memory} (made : r.Made)
    {offset len alignment : Nat} (grid : offset % alignment = 0) (some : 0 < len) :
    Satisfies Refuses (fun _ => True) (r.access offset len alignment use) := by
  intro m
  unfold Region.access locate
  by_cases outside : r.size < offset + len
  · rw [if_pos outside]
    exact ⟨_, rfl⟩
  rw [if_neg outside]
  by_cases misaligned : (r.phase + offset) % alignment ≠ 0
  · rw [if_pos misaligned]
    have narrow : r.base.toNat + offset < UInt64.size := by
      obtain own | narrow := made.narrow
      · rw [phase, own, if_neg Bool.false_ne_true, Nat.zero_add] at misaligned
        exact absurd grid misaligned
      · omega
    rw [physAddr, addWord_ok narrow]
    exact ⟨_, rfl⟩
  · rw [if_neg misaligned]
    trivial

end Region

namespace Consumer

variable {r : Region} {c : Consumer} {m m' : Memory}

-- The first word of the header was read, so it stands where words stand.
theorem attach_houses (done : attach r m = .ok c m') :
    c.region = r ∧ r.Houses c.capacity ∧ Layout.supports c.capacity := by
  obtain ⟨header, m₁, read, done⟩ := bind_cases done
  obtain ⟨supported, done⟩ := guard_cases done
  obtain ⟨large, done⟩ := guard_cases done
  cases done
  obtain ⟨first, m₂, read, _⟩ := bind_cases read
  obtain ⟨_, aligned⟩ := Region.read64_cases read
  replace supported : Layout.supports header.size.toNat := by simpa using supported
  have bounds := Layout.supports_bounds supported
  exact ⟨rfl, ⟨by simp only; omega, Nat.not_lt.mp large, aligned⟩, supported⟩

theorem attach_satisfies (made : r.Made) : Satisfies Region.Refuses (fun _ => True) (attach r) := by
  have read (offset : Nat) (grid : offset % 8 = 0) :
      Satisfies Region.Refuses (fun _ => True) (r.read64 offset) := made.access grid (by decide)
  have size : Satisfies Region.Refuses (fun _ => True) (r.read32 Layout.sizeAt) :=
    made.access (by decide) (by decide)
  have header : Satisfies Region.Refuses (fun _ => True) (QueueHeader.read r) := by
    refine (read _ (by decide)).bind fun first _ => ?_
    refine (read _ (by decide)).bind fun baseAddress _ => ?_
    refine (read _ (by decide)).bind fun doorbell _ => ?_
    refine size.bind fun size _ => ?_
    refine (read _ (by decide)).bind fun id _ => ?_
    refine (read Layout.readIndexAt (by decide)).bind fun readIndex _ => ?_
    refine (read Layout.writeIndexAt (by decide)).bind fun writeIndex _ => ?_
    exact .pure trivial
  exact header.bind fun header _ => .guarded ⟨_, rfl⟩ (.guarded ⟨_, rfl⟩ (.pure trivial))

end Consumer

theorem Queue.create_houses {id : UInt64} {capacity : Nat} {kind : QueueKind} {r : Region}
    {q : Queue} {m m' : Memory} (created : create id capacity kind r m = .ok q m') :
    q.region = r ∧ q.capacity = capacity ∧ r.Houses capacity ∧ Layout.supports capacity := by
  obtain ⟨supported, aligned, large⟩ := check_ok (create_accepted created).1
  have bounds := Layout.supports_bounds supported
  have phase := check_phase (create_accepted created).1
  unfold create at created
  iterate 10 obtain ⟨_, _, _, created⟩ := bind_cases created
  cases created
  exact ⟨rfl, rfl, ⟨by omega, large, phase⟩, supported⟩

-- A capacity is a power of two, so the low bits of an index are its remainder.
theorem slotOf_mask {capacity : Nat} (supported : Layout.supports capacity) (index : UInt64) :
    (index &&& (UInt64.ofNat capacity - 1)).toNat = slotOf capacity index := by
  have bounds := Layout.supports_bounds supported
  simp only [Layout.supports, Bool.and_eq_true, beq_iff_eq, Nat.one_shiftLeft] at supported
  have word : (UInt64.ofNat capacity).toNat = capacity :=
    UInt64.toNat_ofNat_of_lt' (by simp only [UInt64.size]; omega)
  have one : (1 : UInt64) ≤ UInt64.ofNat capacity := by
    rw [UInt64.le_iff_toNat_le, word]
    exact Nat.le_of_lt bounds.1
  rw [UInt64.toNat_and, UInt64.toNat_sub_of_le _ _ one, word, slotOf, ← supported.2]
  exact Nat.and_two_pow_sub_one_eq_mod _ _

namespace Call

def ofQueue : Call → Bool
  | .act (.produce _) | .packet _ | .hasRoom _ | .isComplete _ | .writeIndex | .readIndex
  | .published | .header => true
  | _ => false

def ofPort : Call → Bool
  | .act (.fetch _) | .act (.retire _) | .portReadIndex | .portPublished => true
  | _ => false

end Call

namespace Answer

def Inside (answer : Answer) : Prop :=
  ∀ failure, answer.failure? = some failure → ¬failure.Addressing

theorem inside_answer {answer : Answer} (given : answer.failure? = none) : answer.Inside :=
  fun _ failed => nomatch given.symm.trans failed

theorem inside_failure {answer : Answer} {failure : Failure}
    (given : answer.failure? = some failure) (other : ¬failure.Addressing) : answer.Inside :=
  fun _ failed => Option.some.inj (given.symm.trans failed) ▸ other

end Answer

theorem Queue.produce_inside {q : Queue} (houses : q.region.Houses q.capacity) (a : Production)
    (m : Memory) : (Answer.reply (q.produce a m).1).Inside ∧ q.Stands (q.produce a m).2.1 := by
  have answered {α : Type} {say : α → Reply} {use : Queue → Access (α × Queue)}
      (acts : q.Acts (use q)) (said : ∀ a, (Answer.reply (say a)).failure? = none) :
      (Answer.reply (answer say use q m).1).Inside ∧ q.Stands (answer say use q m).2.1 := by
    have ended := acts m
    unfold answer
    generalize use q m = result at ended ⊢
    cases result with
    | ok result m' => exact ⟨Answer.inside_answer (said _), ended⟩
    | error failure m' => exact ⟨Answer.inside_failure rfl ended, rfl, rfl⟩
  cases a with
  | reserve count => exact answered (reserve_acts houses count) fun _ => rfl
  | write index record => exact answered (writeRecord_acts houses index record) fun _ => rfl
  | writePacket index command =>
    exact answered (writeRecord_acts houses index command.encode) fun _ => rfl
  | dispatch index => exact answered (publish_acts houses index) fun _ => rfl

namespace Ring

def disturbed : List (Memory × Call) → Ring → List Answer
  | [], _ => []
  | (memory, c) :: rest, s =>
    (({ s with memory }).call c).1 :: disturbed rest (({ s with memory }).call c).2

def StaysInside (s : Ring) (asked : Call → Bool) : Prop :=
  ∀ calls : List (Memory × Call), (∀ c ∈ calls, asked c.2) →
    ∀ answer ∈ s.disturbed calls, answer.Inside

variable {s : Ring}

theorem ask_inside {α : Type} {say : α → Answer} {use : Access α} (inside : Inside use)
    (said : ∀ a, (say a).failure? = none) :
    (s.ask say use).1.Inside ∧ (s.ask say use).2.queue = s.queue ∧
      (s.ask say use).2.port = s.port := by
  have ended := inside s.memory
  unfold ask
  generalize use s.memory = result at ended ⊢
  cases result with
  | ok a m => exact ⟨Answer.inside_answer (said a), rfl, rfl⟩
  | error failure m => exact ⟨Answer.inside_failure rfl ended, rfl, rfl⟩

theorem consume_inside {α : Type} {say : α → Reply} {use : Consumer → Access α}
    (inside : Inside (use s.port)) (said : ∀ a, (Answer.reply (say a)).failure? = none) :
    (Answer.reply (s.consume say use).1).Inside ∧ (s.consume say use).2.port = s.port := by
  have ended := inside s.memory
  unfold consume
  generalize use s.port s.memory = result at ended ⊢
  cases result with
  | ok a m => exact ⟨Answer.inside_answer (said a), rfl⟩
  | error failure m => exact ⟨Answer.inside_failure rfl ended, rfl⟩

theorem queue_inside (houses : s.queue.region.Houses s.queue.capacity) (c : Call)
    (asked : c.ofQueue) : (s.call c).1.Inside ∧ s.queue.Stands (s.call c).2.queue := by
  have asking {α : Type} {use : Access α} {say : α → Answer} (inside : Inside use)
      (said : ∀ a, (say a).failure? = none) :
      (s.ask say use).1.Inside ∧ s.queue.Stands (s.ask say use).2.queue := by
    obtain ⟨answered, queue, _⟩ := s.ask_inside inside said
    exact ⟨answered, queue ▸ ⟨rfl, rfl⟩⟩
  cases c with
  | act a =>
    cases a with
    | produce a => exact Queue.produce_inside houses a s.memory
    | fetch index => cases asked
    | retire index => cases asked
  | packet index =>
    exact asking (houses.readRecord (Queue.slot_below houses index)) fun _ => rfl
  | hasRoom index => exact asking (Queue.hasRoom_inside houses index) fun _ => rfl
  | isComplete index => exact asking (Queue.isComplete_inside houses index) fun _ => rfl
  | writeIndex => exact asking houses.writeIndex fun _ => rfl
  | readIndex => exact asking houses.readIndex fun _ => rfl
  | published => exact asking houses.published fun _ => rfl
  | header => exact asking houses.queueHeader fun _ => rfl
  | portReadIndex => cases asked
  | portPublished => cases asked
  | attach => cases asked

theorem port_inside (houses : s.port.region.Houses s.port.capacity) (c : Call)
    (asked : c.ofPort) : (s.call c).1.Inside ∧ (s.call c).2.port = s.port := by
  have asking {α : Type} {use : Access α} {say : α → Answer} (inside : Inside use)
      (said : ∀ a, (say a).failure? = none) :
      (s.ask say use).1.Inside ∧ (s.ask say use).2.port = s.port := by
    obtain ⟨answered, _, port⟩ := s.ask_inside inside said
    exact ⟨answered, port⟩
  cases c with
  | act a =>
    cases a with
    | produce a => cases asked
    | fetch index => exact consume_inside (Consumer.fetch_inside houses index) fun _ => rfl
    | retire index => exact consume_inside (Consumer.retire_inside houses index) fun _ => rfl
  | portReadIndex => exact asking houses.readIndex fun _ => rfl
  | portPublished => exact asking houses.published fun _ => rfl
  | _ => cases asked

-- By induction on the calls, whatever was written in between.
theorem disturbed_inside (holds : Ring → Prop) {asks : Call → Bool}
    (anew : ∀ s memory, holds s → holds { s with memory })
    (each : ∀ s c, holds s → asks c → (s.call c).1.Inside ∧ holds (s.call c).2)
    {calls : List (Memory × Call)} (begun : holds s) (asked : ∀ c ∈ calls, asks c.2) :
    ∀ answer ∈ s.disturbed calls, answer.Inside := by
  induction calls generalizing s with
  | nil => exact fun answer none => nomatch none
  | cons c rest ih =>
    obtain ⟨memory, c⟩ := c
    obtain ⟨inside, after⟩ := each _ c (anew s memory begun) (asked _ List.mem_cons_self)
    exact List.forall_mem_cons.mpr
      ⟨inside, ih after fun c member => asked c (List.mem_cons_of_mem _ member)⟩

theorem queue_stays {calls : List (Memory × Call)}
    (houses : s.queue.region.Houses s.queue.capacity) (asked : ∀ c ∈ calls, c.2.ofQueue) :
    ∀ answer ∈ s.disturbed calls, answer.Inside := by
  refine disturbed_inside (fun s => s.queue.region.Houses s.queue.capacity) (fun _ _ => id)
    (fun s c houses asked => ?_) houses asked
  obtain ⟨inside, region, capacity⟩ := queue_inside houses c asked
  exact ⟨inside, by rw [region, capacity]; exact houses⟩

theorem port_stays {calls : List (Memory × Call)}
    (houses : s.port.region.Houses s.port.capacity) (asked : ∀ c ∈ calls, c.2.ofPort) :
    ∀ answer ∈ s.disturbed calls, answer.Inside := by
  refine disturbed_inside (fun s => s.port.region.Houses s.port.capacity) (fun _ _ => id)
    (fun s c houses asked => ?_) houses asked
  obtain ⟨inside, port⟩ := port_inside houses c asked
  exact ⟨inside, by rw [port]; exact houses⟩

end Ring

-- A handle of producers that stays inside its region in every session.
structure Queue.Bounded (q : Queue) : Prop where
  inside : ∀ port memory, Ring.StaysInside ⟨q, port, memory⟩ Call.ofQueue
  slots : ∀ index, q.slot index = index.toNat % q.capacity ∧
    (index &&& (UInt64.ofNat q.capacity - 1)).toNat = index.toNat % q.capacity

structure Consumer.Bounded (c : Consumer) : Prop where
  inside : ∀ queue memory, Ring.StaysInside ⟨queue, c, memory⟩ Call.ofPort
  slots : ∀ index, c.slot index = index.toNat % c.capacity ∧
    (index &&& (UInt64.ofNat c.capacity - 1)).toNat = index.toNat % c.capacity

theorem Queue.create_bounded {id : UInt64} {capacity : Nat} {kind : QueueKind} {r : Region}
    {q : Queue} {m m' : Memory} (created : create id capacity kind r m = .ok q m') :
    q.Bounded := by
  obtain ⟨rfl, rfl, houses, supported⟩ := create_houses created
  exact ⟨fun _ _ _ asked => Ring.queue_stays houses asked,
    fun index => ⟨rfl, slotOf_mask supported index⟩⟩

theorem Consumer.attach_bounded {r : Region} {c : Consumer} {m m' : Memory}
    (attached : attach r m = .ok c m') : c.Bounded := by
  obtain ⟨rfl, houses, supported⟩ := attach_houses attached
  exact ⟨fun _ _ _ asked => Ring.port_stays houses asked,
    fun index => ⟨rfl, slotOf_mask supported index⟩⟩

namespace Region

-- What a region may hold, and whoever writes it: its handles stay inside it, and a port is made or
-- refused.
theorem handles_bounded (r : Region) (m : Memory) :
    (∀ id capacity kind q m', Queue.create id capacity kind r m = .ok q m' →
      q.region = r ∧ q.capacity = capacity ∧ q.Bounded ∧ (r.Backed m →
        ∃ port, Consumer.attach r m' = .ok port m' ∧ ∀ index, port.slot index = q.slot index)) ∧
    (∀ port m', Consumer.attach r m = .ok port m' → port.region = r ∧ port.Bounded) ∧
    (r.Made → (∃ port m', Consumer.attach r m = .ok port m') ∨
      ∃ cause m', Consumer.attach r m = .error (.error cause) m') := by
  refine ⟨fun id capacity kind q m' created => ?_, fun port m' attached => ?_, fun made => ?_⟩
  · obtain ⟨region, room, _⟩ := Queue.create_houses created
    refine ⟨region, room, Queue.create_bounded created, fun backed => ?_⟩
    obtain ⟨shows, _⟩ := Queue.create_shows backed created
    exact ⟨q.port, region ▸ shows.attach_ok, fun _ => rfl⟩
  · exact ⟨(Consumer.attach_houses attached).1, Consumer.attach_bounded attached⟩
  · have ended := Consumer.attach_satisfies made m
    cases attached : Consumer.attach r m with
    | ok port m' => exact .inl ⟨port, m', rfl⟩
    | error failure m' =>
      rw [attached] at ended
      obtain ⟨cause, rfl⟩ := ended
      exact .inr ⟨cause, m', rfl⟩

-- Memory that nobody laid a queue out in has no port, and then a queue and its port.
theorem handles_bounded_sample : ∃ q m' port,
    Queue.create 0 2 .multi ⟨0, 0, 192, false⟩ (ByteStore.zeros 192) = .ok q m' ∧ q.Bounded ∧
    Consumer.attach ⟨0, 0, 192, false⟩ m' = .ok port m' ∧ port.Bounded ∧
    (∀ index, port.slot index = q.slot index) ∧ q.slot 5 = 1 ∧
    Region.Made ⟨0, 0, 192, false⟩ ∧
    ∃ cause m'', Consumer.attach ⟨0, 0, 192, false⟩ (ByteStore.zeros 192) =
      .error (.error cause) m'' := by
  obtain ⟨m', created, _⟩ := @Queue.create_ok 0 2 .multi _ _ Ring.sample_backed
    (by decide : Queue.check 2 ⟨0, 0, 192, false⟩ = .ok ()) (by decide)
  obtain ⟨_, _, bounded, ported⟩ :=
    (handles_bounded ⟨0, 0, 192, false⟩ (ByteStore.zeros 192)).1 _ _ _ _ _ created
  obtain ⟨port, attached, slots⟩ := ported Ring.sample_backed
  have made : Region.Made ⟨0, 0, 192, false⟩ :=
    .allocated (rfl : allocate true 0 192 ByteStore.empty = _)
  refine ⟨_, m', port, created, bounded, attached,
    ((handles_bounded ⟨0, 0, 192, false⟩ m').2.1 port m' attached).2, slots, by decide, made, ?_⟩
  obtain ⟨port, m'', done⟩ | refused :=
    (handles_bounded ⟨0, 0, 192, false⟩ (ByteStore.zeros 192)).2.2 made
  · have blank : (Consumer.attach ⟨0, 0, 192, false⟩).run' (ByteStore.zeros 192) = none := by
      decide +kernel
    delta EStateM.run' EStateM.run at blank
    rw [done] at blank
    cases blank
  · exact refused

end Region

end FabricQueue
