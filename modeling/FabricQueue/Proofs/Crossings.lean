import FabricQueue.Proofs.Conduits

set_option autoImplicit false

namespace FabricQueue

structure Crossing (ι : Type) where
  channel : ι → Channel
  inlet : ι → Endpoint
  outlet : ι → Endpoint
  -- The bytes that go through a channel, and how many blocks they are.
  value : ι → Nat → UInt8
  blocks : ι → Nat
  -- Where the buffers are.
  position : String → Option Nat

namespace Crossing

variable {ι : Type} {C : Crossing ι} {moved : Counts} {t t' : TileArray} {e : Endpoint}

structure Sound (C : Crossing ι) : Prop where
  proper : ∀ i, (C.channel i).Proper
  inbound : ∀ i, (C.inlet i).direction = .hostToDevice
  outbound : ∀ i, (C.outlet i).direction = .deviceToHost
  inlets : Function.Injective C.inlet
  outlets : Function.Injective C.outlet
  apart : ∀ i j, i ≠ j → ∀ cell ∈ (C.channel i).cells, cell ∉ (C.channel j).cells

structure Carried (C : Crossing ι) (moved : Counts) (t : TileArray) : Prop where
  named : ∀ name, t.buffers.position? name = C.position name
  between : ∀ i, ∃ k, (C.channel i).Between (C.value i) (C.inlet i) (C.outlet i) moved t k

structure Conveys (C : Crossing ι) (T : Traffic) : Prop where
  inward : ∀ packet ∈ T.packets, packet.2.direction = .hostToDevice →
    ∃ i, packet.2.endpoint = C.inlet i
  outward : ∀ packet ∈ T.packets, packet.2.direction = .deviceToHost →
    ∃ i, packet.2.endpoint = C.outlet i
  feeds : ∀ i, ∃ packet ∈ T.packets, packet.2.endpoint = C.inlet i ∧
    packet.2.addresses.length = (C.channel i).start (C.blocks i)
  drains : ∀ i, ∃ packet ∈ T.packets, packet.2.endpoint = C.outlet i ∧
    packet.2.addresses.length = (C.channel i).start (C.blocks i)
  value : ∀ i, T.value (C.inlet i) = C.value i ∧ T.value (C.outlet i) = C.value i

theorem Conveys.length_of {T : Traffic} {q : Queue} (conveys : C.Conveys T) (whole : T.Sound q)
    {packet : Admitted} (member : packet ∈ T.packets) (i : ι)
    (here : packet.2.endpoint = C.inlet i ∨ packet.2.endpoint = C.outlet i) :
    packet.2.addresses.length = (C.channel i).start (C.blocks i) := by
  rcases here with here | here
  · obtain ⟨other, among, there, length⟩ := conveys.feeds i
    rw [whole.one_packet member among (here.trans there.symm), length]
  · obtain ⟨other, among, there, length⟩ := conveys.drains i
    rw [whole.one_packet member among (here.trans there.symm), length]

section Sound

variable (sound : C.Sound)

include sound

theorem Sound.ends_apart (i j : ι) : C.inlet i ≠ C.outlet j := by
  intro same
  have clash := (sound.inbound i).symm.trans (same ▸ sound.outbound j)
  cases clash

theorem Sound.streamed (carried : C.Carried moved t) {i : ι} {total : Nat}
    (streamed : t.Streamed t' e (C.channel i).cells)
    (others : ∀ j, j ≠ i → C.inlet j ≠ e ∧ C.outlet j ≠ e)
    (here : ∃ k, (C.channel i).Between (C.value i) (C.inlet i) (C.outlet i)
      (Function.update moved e total) t' k) :
    C.Carried (Function.update moved e total) t' := by
  refine ⟨fun name => (streamed.names name).trans (carried.named name), fun j => ?_⟩
  by_cases same : j = i
  · exact same ▸ here
  · obtain ⟨k, between⟩ := carried.between j
    exact ⟨k, between.beside streamed (sound.proper j).cycle (sound.apart j i same) (others j same) _⟩

theorem Sound.fill (carried : C.Carried moved t) (i : ι) {bytes : List UInt8}
    (nonempty : bytes ≠ [])
    (next : bytes = (List.range' (moved (C.inlet i)) bytes.length).map (C.value i)) :
    ∃ count t', t.fill (C.inlet i) bytes = .ok (count, t') ∧ count ≤ bytes.length ∧
      C.Carried (Function.update moved (C.inlet i) (moved (C.inlet i) + count)) t' ∧
      (count = 0 → t' = t ∧ t.Barred (C.inlet i)) := by
  obtain ⟨k, between⟩ := carried.between i
  obtain ⟨count, k', t', filled, bound, after, streamed, still⟩ :=
    between.fill (sound.proper i) (sound.inbound i) (sound.ends_apart i i).symm nonempty next
  refine ⟨count, t', filled, bound,
    sound.streamed carried streamed (fun j other => ⟨fun same => ?_, ?_⟩) ⟨k', after⟩, still⟩
  · exact other (sound.inlets same)
  · exact (sound.ends_apart i j).symm

theorem Sound.drain (carried : C.Carried moved t) (i : ι) {limit : Nat} (positive : 0 < limit) :
    ∃ bytes t', t.drain (C.outlet i) limit = .ok (bytes, t') ∧ bytes.length ≤ limit ∧
      bytes = (List.range' (moved (C.outlet i)) bytes.length).map (C.value i) ∧
      C.Carried (Function.update moved (C.outlet i) (moved (C.outlet i) + bytes.length)) t' ∧
      (bytes = [] → t' = t ∧ t.Barred (C.outlet i)) := by
  obtain ⟨k, between⟩ := carried.between i
  obtain ⟨bytes, k', t', drained, bound, next, after, streamed, still⟩ :=
    between.drain (sound.proper i) (sound.outbound i) (sound.ends_apart i i) positive
  refine ⟨bytes, t', drained, bound, next, sound.streamed carried streamed
    (fun j other => ⟨?_, fun same => ?_⟩) ⟨k', after⟩, still⟩
  · exact sound.ends_apart j i
  · exact other (sound.outlets same)

theorem Sound.runKernels (carried : C.Carried moved t) : C.Carried moved t.runKernels.2 := by
  refine ⟨fun name => ?_, fun i => ?_⟩
  · exact ((AddKernel.stepAll_beside t.kernels t.buffers).1.positions name).trans (carried.named name)
  · obtain ⟨k, between⟩ := carried.between i
    exact ⟨k, between.runKernels (sound.proper i).cycle⟩

section Traffic

variable {T : Traffic} (conveys : C.Conveys T)

include conveys

theorem Sound.ended (carried : C.Carried moved t) (within : T.Within moved)
    (stuck : ∀ packet ∈ T.packets, Traffic.Ended moved packet ∨ t.Barred packet.2.endpoint) (i : ι) :
    moved (C.inlet i) = (C.channel i).start (C.blocks i) ∧
      moved (C.outlet i) = (C.channel i).start (C.blocks i) := by
  obtain ⟨k, between⟩ := carried.between i
  obtain ⟨packet, member, here, length⟩ := conveys.feeds i
  obtain ⟨packet', member', here', length'⟩ := conveys.drains i
  have bound := within packet member
  have bound' := within packet' member'
  have fill := stuck packet member
  have drain := stuck packet' member'
  rw [Traffic.Ended] at fill drain
  rw [here, length] at bound fill
  rw [here', length'] at bound' drain
  exact between.ended (sound.proper i) (sound.inbound i) (sound.outbound i) ⟨bound, bound'⟩ fill drain

theorem Sound.conducts {q : Queue} (whole : T.Sound q) :
    T.Conducts 0 fun moved steps t => steps = 0 ∧ C.Carried moved t := by
  refine ⟨?fill, ?drain, ?kernels⟩
  case fill =>
    rintro moved steps t ⟨rfl, carried⟩ packet member direction bytes nonempty next -
    obtain ⟨i, here⟩ := conveys.inward packet member direction
    rw [here, (conveys.value i).1] at next
    rw [here]
    obtain ⟨count, t', filled, bound, after, still⟩ := sound.fill carried i nonempty next
    exact ⟨count, t', filled, bound, ⟨rfl, after⟩, still⟩
  case drain =>
    rintro moved steps t ⟨rfl, carried⟩ packet member direction limit positive -
    obtain ⟨i, here⟩ := conveys.outward packet member direction
    rw [here, (conveys.value i).2]
    obtain ⟨bytes, t', drained, bound, next, after, still⟩ := sound.drain carried i positive
    exact ⟨bytes, t', drained, bound, next, ⟨rfl, after⟩, still⟩
  case kernels =>
    rintro moved steps t ⟨rfl, carried⟩ within
    refine ⟨0, Nat.le_refl _, Nat.le_refl _, ⟨rfl, sound.runKernels carried⟩, fun _ => rfl,
      fun stuck => .inr fun packet member => ?_⟩
    cases direction : packet.2.direction with
    | hostToDevice =>
      obtain ⟨i, here⟩ := conveys.inward packet member direction
      rw [Traffic.Ended, here, conveys.length_of whole member i (.inl here)]
      exact (sound.ended conveys carried within stuck i).1
    | deviceToHost =>
      obtain ⟨i, here⟩ := conveys.outward packet member direction
      rw [Traffic.Ended, here, conveys.length_of whole member i (.inr here)]
      exact (sound.ended conveys carried within stuck i).2

theorem Sound.content (carried : C.Carried moved t)
    (ended : ∀ packet ∈ T.packets, Traffic.Ended moved packet) (i : ι) {block : Nat}
    (below : block < C.blocks i)
    (last : ∀ later, block < later → later < C.blocks i →
      (C.channel i).cell later ≠ (C.channel i).cell block) :
    ∃ b, t.buffers.items[(C.channel i).cell block]? = some b ∧
      b.byteLength = (C.channel i).blockSize block ∧
      b.Begins (C.value i) ((C.channel i).start block) ((C.channel i).blockSize block) := by
  obtain ⟨k, between⟩ := carried.between i
  obtain ⟨packet, member, here, length⟩ := conveys.feeds i
  have all := ended packet member
  rw [Traffic.Ended, here, length, ← between.feeds.count] at all
  obtain ⟨filled, part⟩ := (sound.proper i).block_eq between.holds.part all
  obtain ⟨b, found, size⟩ := between.holds.sized block
  refine ⟨b, found, size, between.holds.kept block b ⟨by omega, ?_, fun some => by omega⟩ found⟩
  intro later above under
  exact last later above (by omega)

end Traffic

end Sound

end Crossing

end FabricQueue
