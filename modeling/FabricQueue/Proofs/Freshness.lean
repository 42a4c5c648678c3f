import FabricQueue.Proofs.Alike
import FabricQueue.Proofs.Sessions

set_option autoImplicit false

namespace FabricQueue

namespace Queue

structure Twins (r r' : Region) (capacity : Nat) (q q' : Queue) : Prop where
  some : 0 < capacity
  region : q.region = r
  region' : q'.region = r'
  room : q.capacity = capacity
  room' : q'.capacity = capacity
  tail : q'.tail = q.tail
  staged : q'.staged = q.staged

structure Twins.Paired (r r' : Region) (capacity : Nat) {α : Type} (a b : α × Queue) : Prop where
  value : b.1 = a.1
  twins : Twins r r' capacity a.2 b.2

open Region (Agree)

variable {r r' : Region} {capacity : Nat} {q q' : Queue}

namespace Twins

theorem slot_lt (twins : Twins r r' capacity q q') (index : UInt64) : q.slot index < capacity := by
  rw [Queue.slot, slotOf, twins.room]
  exact Nat.mod_lt _ twins.some

theorem slot_eq (twins : Twins r r' capacity q q') (index : UInt64) :
    q'.slot index = q.slot index := by
  rw [Queue.slot, Queue.slot, twins.room, twins.room']

theorem reserve_agree (twins : Twins r r' capacity q q') (count : UInt64) :
    Agree r r' capacity Eq (q.reserve count) (q'.reserve count) := by
  rw [reserve, reserve, twins.region, twins.region']
  exact Region.fetchAdd_agree count (Layout.told_header capacity (by decide)) (by decide)

theorem writeRecord_agree (twins : Twins r r' capacity q q') (index : UInt64) (record : Record) :
    Agree r r' capacity (Paired r r' capacity) (q.writeRecord index record)
      (q'.writeRecord index record) := by
  unfold writeRecord Queue.writeIndex Queue.readIndex
  rw [twins.region, twins.region', twins.room, twins.room', twins.tail, twins.slot_eq]
  refine Region.writeIndex_agree.bind fun writeIndex _ same => same ▸ .guarded ?_
  refine Region.readIndex_agree.bind fun readIndex _ same => same ▸ ?_
  refine (Agree.lifted _).bind fun limit _ same => same ▸ .guarded (.guarded ?_)
  refine (Region.writeRecord_agree (twins.slot_lt index) _).bind fun _ _ _ => ?_
  exact .pure ⟨rfl, twins.some, rfl, rfl, rfl, rfl, rfl, by rw [twins.staged]⟩

theorem packet_agree (twins : Twins r r' capacity q q') (index : UInt64) :
    Agree r r' capacity Eq (q.packet index) (q'.packet index) := by
  rw [packet, packet, twins.region, twins.region', twins.slot_eq]
  exact Region.readRecord_agree (twins.slot_lt index)

theorem hasRoom_agree (twins : Twins r r' capacity q q') (index : UInt64) :
    Agree r r' capacity Eq (q.hasRoom index) (q'.hasRoom index) := by
  unfold hasRoom Queue.readIndex
  rw [twins.region, twins.region', twins.room, twins.room']
  refine Region.readIndex_agree.bind fun readIndex _ same => same ▸ ?_
  exact (Agree.lifted _).bind fun limit _ same => same ▸ .pure rfl

theorem isComplete_agree (twins : Twins r r' capacity q q') (index : UInt64) :
    Agree r r' capacity Eq (q.isComplete index) (q'.isComplete index) := by
  unfold isComplete Queue.readIndex Queue.published
  rw [twins.region, twins.region', twins.slot_eq]
  refine Region.readIndex_agree.bind fun readIndex _ same => same ▸ .choose Iff.rfl (.pure rfl) ?_
  refine Region.published_agree.bind fun published _ same => same ▸ .choose Iff.rfl (.pure rfl) ?_
  refine (Region.slot_agree (twins.slot_lt index) (by decide : 7 < 8)).bind ?_
  exact fun signal _ same => same ▸ .pure rfl

-- Induction on the packets still asked for: each step leaves twins.
theorem publishNext_agree (count : Nat) (twins : Twins r r' capacity q q') :
    Agree r r' capacity (Twins r r' capacity) (publishNext count q) (publishNext count q') := by
  induction count generalizing q q' with
  | zero => exact .pure twins
  | succ count ih =>
    have below := twins.slot_lt q.tail
    have slot : q'.slot q'.tail = q.slot q.tail := by rw [twins.slot_eq, twins.tail]
    unfold publishNext
    refine .choose ?_ ?_ (.pure twins)
    · rw [slot, stagedAt, stagedAt, twins.staged, twins.tail]
    · rw [slot, twins.region, twins.region']
      refine (Region.setHeader_agree below Header.dispatch).bind fun _ _ _ => ih ?_
      exact ⟨twins.some, rfl, rfl, twins.room, twins.room', congrArg (· + 1) twins.tail,
        by rw [twins.staged]⟩

theorem publish_agree (twins : Twins r r' capacity q q') (index : UInt64) :
    Agree r r' capacity (Paired r r' capacity) (q.publish index) (q'.publish index) := by
  unfold publish Queue.writeIndex
  rw [twins.region, twins.region', twins.tail]
  refine Region.writeIndex_agree.bind fun writeIndex _ same => same ▸ .guarded ?_
  refine (twins.publishNext_agree _).bind fun p p' after => ?_
  refine .choose (by rw [after.tail]) ?_ (.pure ⟨after.tail, after⟩)
  rw [after.tail]
  have bell : Region.Agree r r' capacity Eq (r.write64 Layout.doorbellAt (p.tail - 1))
      (r'.write64 Layout.doorbellAt (p.tail - 1)) :=
    Region.write64_agree _ (by decide) (Layout.header_within capacity (by decide)) (by decide)
  exact bell.bind fun _ _ _ => .pure ⟨rfl, after⟩

theorem answer {m m' : Memory} {α : Type} {say : α → Reply} {use : Queue → Access (α × Queue)}
    (twins : Twins r r' capacity q q') (alike : Region.Alike r r' capacity m m')
    (agrees : Agree r r' capacity (Paired r r' capacity) (use q) (use q')) :
    (Queue.answer say use q' m').1 = (Queue.answer say use q m).1 ∧
      Twins r r' capacity (Queue.answer say use q m).2.1 (Queue.answer say use q' m').2.1 ∧
      Region.Alike r r' capacity (Queue.answer say use q m).2.2
        (Queue.answer say use q' m').2.2 := by
  have met := agrees m m' alike
  unfold Queue.answer
  generalize use q m = result at met ⊢
  generalize use q' m' = result' at met ⊢
  cases met with
  | ok values alike => exact ⟨congrArg say values.value, values.twins, alike⟩
  | error alike => exact ⟨rfl, twins, alike⟩

theorem produce {m m' : Memory} (twins : Twins r r' capacity q q')
    (alike : Region.Alike r r' capacity m m') (a : Production) :
    (q'.produce a m').1 = (q.produce a m).1 ∧
      Twins r r' capacity (q.produce a m).2.1 (q'.produce a m').2.1 ∧
      Region.Alike r r' capacity (q.produce a m).2.2 (q'.produce a m').2.2 := by
  cases a with
  | reserve count =>
    exact twins.answer alike ((twins.reserve_agree count).bind fun _ _ same =>
      .pure ⟨same.symm, twins⟩)
  | write index record => exact twins.answer alike (twins.writeRecord_agree index record)
  | writePacket index command =>
    exact twins.answer alike (twins.writeRecord_agree index command.encode)
  | dispatch index => exact twins.answer alike (twins.publish_agree index)

end Twins

end Queue

namespace Consumer

open Region (Agree)

variable {r r' : Region} {capacity : Nat} (some : 0 < capacity) (index : UInt64)
include some

theorem fetch_agree :
    Agree r r' capacity Eq (fetch ⟨r, capacity⟩ index) (fetch ⟨r', capacity⟩ index) := by
  have below : slotOf capacity index < capacity := Nat.mod_lt _ some
  refine (Region.slot_agree below (by decide : 0 < 8)).bind fun word _ same => same ▸ ?_
  refine .choose Iff.rfl ?_ (.pure rfl)
  exact (Region.readRecord_agree below).bind fun record _ same => same ▸ .pure rfl

theorem retire_agree :
    Agree r r' capacity Eq (retire ⟨r, capacity⟩ index) (retire ⟨r', capacity⟩ index) := by
  have below : slotOf capacity index < capacity := Nat.mod_lt _ some
  refine Region.readIndex_agree.bind fun readIndex _ same => same ▸ .guarded ?_
  refine (Region.setHeader_agree below Header.pending).bind fun _ _ _ => ?_
  refine (Region.setSignal_agree below signalDone).bind fun _ _ _ => ?_
  refine (Agree.lifted _).bind fun next _ same => same ▸ ?_
  exact Region.write64_agree next (by decide) (Layout.header_within capacity (by decide))
    (by decide)

end Consumer

namespace Ring

structure Twins (r r' : Region) (capacity : Nat) (s s' : Ring) : Prop where
  queues : Queue.Twins r r' capacity s.queue s'.queue
  port : s.port = ⟨r, capacity⟩
  port' : s'.port = ⟨r', capacity⟩
  alike : Region.Alike r r' capacity s.memory s'.memory

open Region (Agree)

variable {r r' : Region} {capacity : Nat} {s s' : Ring} {α : Type}

namespace Twins

theorem ask (twins : Twins r r' capacity s s') {same : α → α → Prop} {say : α → Answer}
    {use use' : Access α} (agrees : Agree r r' capacity same use use')
    (said : ∀ a b, same a b → (say b).nameless = (say a).nameless) :
    (s'.ask say use').1.nameless = (s.ask say use).1.nameless ∧
      Twins r r' capacity (s.ask say use).2 (s'.ask say use').2 := by
  have met := agrees s.memory s'.memory twins.alike
  unfold Ring.ask
  generalize use s.memory = result at met ⊢
  generalize use' s'.memory = result' at met ⊢
  cases met with
  | ok values alike => exact ⟨said _ _ values, { twins with alike }⟩
  | error alike => exact ⟨rfl, { twins with alike }⟩

theorem told (twins : Twins r r' capacity s s') {say : α → Answer} {use use' : Access α}
    (agrees : Region.Agree r r' capacity Eq use use') :
    (s'.ask say use').1.nameless = (s.ask say use).1.nameless ∧
      Twins r r' capacity (s.ask say use).2 (s'.ask say use').2 :=
  twins.ask agrees fun _ _ same => same ▸ rfl

theorem consume (twins : Twins r r' capacity s s') {say : α → Reply} {use : Consumer → Access α}
    (agrees : Agree r r' capacity Eq (use ⟨r, capacity⟩) (use ⟨r', capacity⟩)) :
    (s'.consume say use).1 = (s.consume say use).1 ∧
      Twins r r' capacity (s.consume say use).2 (s'.consume say use).2 := by
  have met := agrees s.memory s'.memory twins.alike
  unfold Ring.consume
  rw [twins.port, twins.port']
  generalize use ⟨r, capacity⟩ s.memory = result at met ⊢
  generalize use ⟨r', capacity⟩ s'.memory = result' at met ⊢
  cases met with
  | ok values alike => exact ⟨congrArg say values.symm, twins.queues, rfl, rfl, alike⟩
  | error alike => exact ⟨rfl, twins.queues, rfl, rfl, alike⟩

theorem perform (twins : Twins r r' capacity s s') (a : Act) :
    (s'.perform a).1 = (s.perform a).1 ∧
      Twins r r' capacity (s.perform a).2 (s'.perform a).2 := by
  cases a with
  | produce a =>
    obtain ⟨reply, queues, alike⟩ := twins.queues.produce twins.alike a
    exact ⟨reply, queues, twins.port, twins.port', alike⟩
  | fetch index => exact twins.consume (Consumer.fetch_agree twins.queues.some index)
  | retire index => exact twins.consume (Consumer.retire_agree twins.queues.some index)

theorem takeUp (twins : Twins r r' capacity s s') :
    s'.takeUp.1.nameless = s.takeUp.1.nameless ∧ Twins r r' capacity s.takeUp.2 s'.takeUp.2 := by
  have met := Region.attach_agree s.memory s'.memory twins.alike
  unfold Ring.takeUp
  rw [twins.queues.region, twins.queues.region']
  generalize Consumer.attach r s.memory = result at met ⊢
  generalize Consumer.attach r' s'.memory = result' at met ⊢
  cases met with
  | ok ports alike =>
    obtain ⟨rfl, rfl⟩ := ports
    exact ⟨rfl, twins.queues, rfl, rfl, alike⟩
  | error alike => exact ⟨rfl, { twins with alike }⟩

theorem call (twins : Twins r r' capacity s s') (c : Call) :
    (s'.call c).1.nameless = (s.call c).1.nameless ∧
      Twins r r' capacity (s.call c).2 (s'.call c).2 := by
  have queues := twins.queues
  have port := twins.port
  have port' := twins.port'
  cases c with
  | act a =>
    obtain ⟨reply, twins'⟩ := twins.perform a
    exact ⟨congrArg (fun reply => (Answer.reply reply).nameless) reply, twins'⟩
  | packet index => exact twins.told (queues.packet_agree index)
  | hasRoom index => exact twins.told (queues.hasRoom_agree index)
  | isComplete index => exact twins.told (queues.isComplete_agree index)
  | writeIndex =>
    refine twins.told ?_
    rw [Queue.writeIndex, Queue.writeIndex, queues.region, queues.region']
    exact Region.writeIndex_agree
  | readIndex =>
    refine twins.told ?_
    rw [Queue.readIndex, Queue.readIndex, queues.region, queues.region']
    exact Region.readIndex_agree
  | published =>
    refine twins.told ?_
    rw [Queue.published, Queue.published, queues.region, queues.region']
    exact Region.published_agree
  | header =>
    have agrees : Region.Agree r r' capacity (fun a b => { b with id := 0 } = { a with id := 0 })
        (QueueHeader.read s.queue.region) (QueueHeader.read s'.queue.region) := by
      rw [queues.region, queues.region']
      exact Region.header_agree
    exact twins.ask agrees fun _ _ same => congrArg Answer.header same
  | portReadIndex =>
    refine twins.told ?_
    rw [Consumer.readIndex, Consumer.readIndex, port, port']
    exact Region.readIndex_agree
  | portPublished =>
    refine twins.told ?_
    rw [Consumer.published, Consumer.published, port, port']
    exact Region.published_agree
  | attach => exact twins.takeUp

theorem answers (twins : Twins r r' capacity s s') (calls : List Call) :
    (s'.answers calls).map Answer.nameless = (s.answers calls).map Answer.nameless := by
  induction calls generalizing s s' with
  | nil => rfl
  | cons c rest ih =>
    obtain ⟨answered, twins'⟩ := twins.call c
    simp only [Ring.answers, List.map_cons, answered, ih twins']

end Twins

-- Whatever the two memories held before, the two queues answer every session alike.
theorem fresh_answers {id id' : UInt64} {kind : QueueKind} {q q' : Queue} {m m' m₁ m₁' : Memory}
    (backed : r.Backed m) (backed' : r'.Backed m') (same : r'.base = r.base)
    (created : Queue.create id capacity kind r m = .ok q m₁)
    (created' : Queue.create id' capacity kind r' m' = .ok q' m₁') :
    ∃ port port', Consumer.attach r m₁ = .ok port m₁ ∧ Consumer.attach r' m₁' = .ok port' m₁' ∧
      port'.capacity = port.capacity ∧
      ∀ calls, (answers calls ⟨q', port', m₁'⟩).map Answer.nameless =
        (answers calls ⟨q, port, m₁⟩).map Answer.nameless := by
  obtain ⟨fresh, carries⟩ := Queue.create_fresh backed created
  obtain ⟨fresh', carries'⟩ := Queue.create_fresh backed' created'
  obtain ⟨shows, opened, _⟩ := Queue.create_shows backed created
  obtain ⟨_, opened', _⟩ := Queue.create_shows backed' created'
  have supported : Layout.supports capacity := (Queue.check_ok (Queue.create_accepted created).1).1
  have twins : Twins r r' capacity ⟨q, ⟨r, capacity⟩, m₁⟩ ⟨q', ⟨r', capacity⟩, m₁'⟩ := by
    refine ⟨?_, rfl, rfl, Region.alike_fresh supported same carries fresh carries' fresh'⟩
    rw [opened, opened']
    have bounds := Layout.supports_bounds supported
    exact ⟨by omega, rfl, rfl, rfl, rfl, rfl, rfl⟩
  exact ⟨_, _, carries.attach_ok supported fresh.size, carries'.attach_ok supported fresh'.size,
    rfl, twins.answers⟩

-- A memory in which each slot looks like a packet to act on.
def stale : Memory :=
  (ByteStore.zeros 192).write 0 (List.replicate 192 4)

theorem stale_backed : Region.Backed ⟨0, 0, 192, false⟩ stale := by
  rw [Region.Backed, stale, ByteStore.size_write]
  exact sample_backed

theorem fresh_answers_sample : ∃ q q' m₁ m₁',
    Header.isActive (headerOf (stale.read64 (Layout.slotOffset 0))) ∧
    Region.Backed ⟨0, 0, 192, false⟩ (ByteStore.zeros 192) ∧
    Region.Backed ⟨0, 0, 192, false⟩ stale ∧
    Queue.create 0 2 .multi ⟨0, 0, 192, false⟩ (ByteStore.zeros 192) = .ok q m₁ ∧
    Queue.create 1 2 .multi ⟨0, 0, 192, false⟩ stale = .ok q' m₁' ∧
    ∃ port port', Consumer.attach ⟨0, 0, 192, false⟩ m₁ = .ok port m₁ ∧
      Consumer.attach ⟨0, 0, 192, false⟩ m₁' = .ok port' m₁' ∧ port'.capacity = port.capacity ∧
      ∀ calls, (answers calls ⟨q', port', m₁'⟩).map Answer.nameless =
        (answers calls ⟨q, port, m₁⟩).map Answer.nameless := by
  have checked : Queue.check 2 ⟨0, 0, 192, false⟩ = .ok () := by decide
  obtain ⟨m₁, created, _⟩ := @Queue.create_ok 0 2 .multi _ _ sample_backed checked (by decide)
  obtain ⟨m₁', created', _⟩ := @Queue.create_ok 1 2 .multi _ _ stale_backed checked (by decide)
  exact ⟨_, _, m₁, m₁', by decide +kernel, sample_backed, stale_backed, created, created',
    fresh_answers sample_backed stale_backed rfl created created'⟩

end Ring

end FabricQueue
