import FabricQueue.Proofs.Places
import FabricQueue.Proofs.Quiet

set_option autoImplicit false

namespace FabricQueue

-- Bytes that each endpoint has moved.
abbrev Counts := Endpoint → Nat

structure Traffic where
  hosts : HostMap
  packets : List Admitted
  initial : Memory
  -- Byte `k` that goes through an endpoint.
  value : Endpoint → Nat → UInt8

namespace Traffic

variable {T : Traffic} {q : Queue} {moved : Counts}

def outs (T : Traffic) : List Transfer :=
  (T.packets.map (·.2)).filter fun t => decide (t.direction = .deviceToHost)

-- Memory once some packets, one after the other, have brought back so many bytes each.
def settle (T : Traffic) (count : Transfer → Nat) : List Transfer → Memory → Memory
  | [], m => m
  | out :: rest, m => T.settle count rest <|
    m.scatter ((out.addresses.take (count out)).map T.hosts.place)
      ((List.range (count out)).map (T.value out.endpoint))

def landed (T : Traffic) (moved : Counts) : Memory :=
  T.settle (fun out => moved out.endpoint) T.outs T.initial

def Ended (moved : Counts) (packet : Admitted) : Prop :=
  moved packet.2.endpoint = packet.2.addresses.length

def Within (T : Traffic) (moved : Counts) : Prop :=
  ∀ packet ∈ T.packets, moved packet.2.endpoint ≤ packet.2.addresses.length

-- The packets neither get in each other's way nor in that of the queue.
structure Sound (T : Traffic) (q : Queue) : Prop where
  separate : T.hosts.Separate
  apart : T.hosts.Apart q
  distinct : (T.packets.map (·.2.endpoint)).Nodup
  numbered : (T.packets.map (·.1)).Nodup
  covered : ∀ packet ∈ T.packets, T.hosts.Covers packet.2.addresses
  targets : T.outs.Pairwise fun out other => out.addresses.Disjoint other.addresses
  sources : ∀ packet ∈ T.packets, packet.2.direction = .hostToDevice →
    ∀ k a, packet.2.addresses[k]? = some a →
      (∀ out ∈ T.outs, a ∉ out.addresses) ∧
        T.initial.get (T.hosts.place a) = T.value packet.2.endpoint k

-- What the tiles do about the packets. The invariant speaks of the bytes that were moved and of the
-- steps of the kernels so far.
structure Conducts (T : Traffic) (last : Nat) (I : Counts → Nat → TileArray → Prop) : Prop where
  fill : ∀ {moved : Counts} {steps : Nat} {t : TileArray}, I moved steps t →
    ∀ packet ∈ T.packets, packet.2.direction = .hostToDevice → ∀ bytes : List UInt8, bytes ≠ [] →
      bytes = (List.range' (moved packet.2.endpoint) bytes.length).map (T.value packet.2.endpoint) →
      moved packet.2.endpoint + bytes.length ≤ packet.2.addresses.length →
      ∃ count t', t.fill packet.2.endpoint bytes = .ok (count, t') ∧ count ≤ bytes.length ∧
        I (Function.update moved packet.2.endpoint (moved packet.2.endpoint + count)) steps t' ∧
        (count = 0 → t' = t ∧ t.Barred packet.2.endpoint)
  drain : ∀ {moved : Counts} {steps : Nat} {t : TileArray}, I moved steps t →
    ∀ packet ∈ T.packets, packet.2.direction = .deviceToHost → ∀ limit, 0 < limit →
      moved packet.2.endpoint + limit ≤ packet.2.addresses.length →
      ∃ bytes t', t.drain packet.2.endpoint limit = .ok (bytes, t') ∧ bytes.length ≤ limit ∧
        bytes =
          (List.range' (moved packet.2.endpoint) bytes.length).map (T.value packet.2.endpoint) ∧
        I (Function.update moved packet.2.endpoint (moved packet.2.endpoint + bytes.length)) steps
          t' ∧
        (bytes = [] → t' = t ∧ t.Barred packet.2.endpoint)
  kernels : ∀ {moved : Counts} {steps : Nat} {t : TileArray}, I moved steps t → T.Within moved →
    ∃ steps', steps ≤ steps' ∧ steps' ≤ last ∧ I moved steps' t.runKernels.2 ∧
      (t.runKernels.1 = false → steps' = steps) ∧
      ((∀ packet ∈ T.packets, Ended moved packet ∨ t.Barred packet.2.endpoint) →
        steps < steps' ∨ ∀ packet ∈ T.packets, Ended moved packet)

structure Underway (T : Traffic) (moved : Counts) (packet : Admitted) (job : Job) : Prop where
  index : job.index = packet.1
  endpoint : job.endpoint = packet.2.endpoint
  hosted : job.Hosted T.hosts
  addresses : job.addresses = packet.2.addresses.drop (moved packet.2.endpoint)
  unfinished : moved packet.2.endpoint < packet.2.addresses.length

theorem Sound.one_packet (sound : T.Sound q) {packet other : Admitted}
    (member : packet ∈ T.packets) (among : other ∈ T.packets)
    (same : packet.2.endpoint = other.2.endpoint) : packet = other :=
  List.inj_on_of_nodup_map sound.distinct member among same

theorem Sound.one_index (sound : T.Sound q) {packet other : Admitted}
    (member : packet ∈ T.packets) (among : other ∈ T.packets) (same : packet.1 = other.1) :
    packet = other :=
  List.inj_on_of_nodup_map sound.numbered member among same

theorem mem_outs {out : Transfer} :
    out ∈ T.outs ↔ (∃ index, (index, out) ∈ T.packets) ∧ out.direction = .deviceToHost := by
  simp [outs]

theorem Sound.covers_out (sound : T.Sound q) {out : Transfer} (member : out ∈ T.outs) :
    T.hosts.Covers out.addresses := by
  obtain ⟨⟨index, among⟩, _⟩ := mem_outs.mp member
  exact sound.covered _ among

theorem Sound.places_disjoint (sound : T.Sound q) {addresses addresses' : List Nat}
    (first : T.hosts.Covers addresses) (second : T.hosts.Covers addresses')
    (apart : addresses.Disjoint addresses') :
    (addresses.map T.hosts.place).Disjoint (addresses'.map T.hosts.place) := by
  intro i here there
  obtain ⟨a, member, rfl⟩ := List.mem_map.mp here
  obtain ⟨b, member', same⟩ := List.mem_map.mp there
  have single {c : Nat} {list : List Nat} (covers : T.hosts.Covers list) (among : c ∈ list) :
      T.hosts.Covers [c] :=
    fun d only => covers d (by rw [List.mem_singleton.mp only]; exact among)
  obtain rfl := sound.separate.place_injective (single second member') (single first member) same
  exact apart member member'

section Settle

variable {count count' : Transfer → Nat} {m : Memory}

theorem settle_cons (out : Transfer) (rest : List Transfer) :
    T.settle count (out :: rest) m = T.settle count rest (m.scatter
      ((out.addresses.take (count out)).map T.hosts.place)
      ((List.range (count out)).map (T.value out.endpoint))) :=
  rfl

theorem settle_append (front back : List Transfer) :
    T.settle count (front ++ back) m = T.settle count back (T.settle count front m) := by
  induction front generalizing m with
  | nil => rfl
  | cons out rest ih => exact ih

theorem settle_congr (outs : List Transfer) (same : ∀ out ∈ outs, count' out = count out) :
    T.settle count' outs m = T.settle count outs m := by
  induction outs generalizing m with
  | nil => rfl
  | cons out rest ih =>
    rw [settle_cons, settle_cons, same out List.mem_cons_self,
      ih fun other member => same other (List.mem_cons_of_mem _ member)]

theorem settle_none (outs : List Transfer) (none : ∀ out ∈ outs, count out = 0) :
    T.settle count outs m = m := by
  induction outs with
  | nil => rfl
  | cons out rest ih =>
    rw [settle_cons, none out List.mem_cons_self]
    exact ih fun other member => none other (List.mem_cons_of_mem _ member)

theorem size_settle (outs : List Transfer) : (T.settle count outs m).size = m.size := by
  induction outs generalizing m with
  | nil => rfl
  | cons out rest ih => rw [settle_cons, ih, ByteStore.size_scatter]

theorem settle_get_other {i : Nat} (outs : List Transfer)
    (other : ∀ out ∈ outs, i ∉ out.addresses.map T.hosts.place) :
    (T.settle count outs m).get i = m.get i := by
  induction outs generalizing m with
  | nil => rfl
  | cons out rest ih =>
    rw [settle_cons, ih fun out' member => other out' (List.mem_cons_of_mem _ member)]
    refine ByteStore.get_scatter_other _ _ fun taken => other out List.mem_cons_self ?_
    exact List.map_subset _ (List.take_subset _ _) taken

theorem settle_scatter {places : List Nat} (bytes : List UInt8) (outs : List Transfer)
    (apart : ∀ out ∈ outs, places.Disjoint (out.addresses.map T.hosts.place)) :
    T.settle count outs (m.scatter places bytes) = (T.settle count outs m).scatter places bytes := by
  induction outs generalizing m with
  | nil => rfl
  | cons out rest ih =>
    have away : places.Disjoint ((out.addresses.take (count out)).map T.hosts.place) :=
      fun i here there => apart out List.mem_cons_self here
        (List.map_subset _ (List.take_subset _ _) there)
    rw [settle_cons, settle_cons, ByteStore.scatter_comm _ _ _ away]
    exact ih fun other member => apart other (List.mem_cons_of_mem _ member)

end Settle

theorem landed_other (moved : Counts) {e : Endpoint} (other : e.direction = .hostToDevice)
    (count : Nat) : T.landed (Function.update moved e count) = T.landed moved := by
  refine settle_congr _ fun out member => Function.update_of_ne ?_ _ _
  rintro rfl
  exact absurd ((mem_outs.mp member).2.symm.trans other) (by decide)

theorem Sound.split_outs (sound : T.Sound q) {out : Transfer} (member : out ∈ T.outs) :
    ∃ front back, T.outs = front ++ out :: back ∧
      (∀ other ∈ front ++ back, other.endpoint ≠ out.endpoint) ∧
      ∀ other ∈ front ++ back, out.addresses.Disjoint other.addresses := by
  obtain ⟨front, back, split⟩ := List.append_of_mem member
  have endpoints : (T.outs.map (·.endpoint)).Nodup := by
    refine List.Nodup.sublist (List.filter_sublist.map _) ?_
    rw [List.map_map]
    exact sound.distinct
  have targets := sound.targets
  have middle : (front ++ out :: back).Perm (out :: (front ++ back)) := List.perm_middle
  rw [split] at endpoints targets
  have targets' := (middle.pairwise_iff List.disjoint_symm).mp targets
  have endpoints' := (middle.map (·.endpoint)).nodup_iff.mp endpoints
  rw [List.map_cons, List.nodup_cons] at endpoints'
  refine ⟨front, back, split, fun other among same => ?_, fun other among => ?_⟩
  · exact endpoints'.1 (same ▸ List.mem_map_of_mem among)
  · exact List.rel_of_pairwise_cons targets' among

theorem Sound.landed_more (sound : T.Sound q) {out : Transfer} (member : out ∈ T.outs)
    (moved : Counts) (count : Nat) (within : moved out.endpoint ≤ out.addresses.length) :
    T.landed (Function.update moved out.endpoint (moved out.endpoint + count)) =
      (T.landed moved).scatter
        (((out.addresses.drop (moved out.endpoint)).take count).map T.hosts.place)
        ((List.range' (moved out.endpoint) count).map (T.value out.endpoint)) := by
  obtain ⟨front, back, split, endpoints, apart⟩ := sound.split_outs member
  have kept (outs : List Transfer) (m : Memory) (some : outs ⊆ front ++ back) :
      T.settle (fun other => Function.update moved out.endpoint (moved out.endpoint + count)
        other.endpoint) outs m = T.settle (fun other => moved other.endpoint) outs m :=
    settle_congr _ fun other among => Function.update_of_ne (endpoints other (some among)) _ _
  have more (m : Memory) : m.scatter
      ((out.addresses.take (moved out.endpoint + count)).map T.hosts.place)
      ((List.range (moved out.endpoint + count)).map (T.value out.endpoint)) =
        (m.scatter ((out.addresses.take (moved out.endpoint)).map T.hosts.place)
          ((List.range (moved out.endpoint)).map (T.value out.endpoint))).scatter
            (((out.addresses.drop (moved out.endpoint)).take count).map T.hosts.place)
            ((List.range' (moved out.endpoint) count).map (T.value out.endpoint)) := by
    rw [List.take_add, List.map_append, List.range_eq_range', ← List.range'_append_1,
      List.map_append, ← List.range_eq_range', Nat.zero_add]
    exact ByteStore.scatter_append _ (by simp [within])
  rw [landed, landed, split, settle_append, settle_append, settle_cons, settle_cons,
    kept front _ (List.subset_append_left _ _), kept back _ (List.subset_append_right _ _)]
  simp only [Function.update_self]
  rw [more]
  refine settle_scatter _ _ fun other among => ?_
  refine sound.places_disjoint (fun a taken => ?_) (sound.covers_out ?_) fun a here there => ?_
  · exact sound.covers_out member a (List.mem_of_mem_drop (List.mem_of_mem_take taken))
  · rw [split]
    exact List.mem_append_right _ (List.mem_cons_of_mem _ among)
  · exact apart other (List.mem_append_right _ among)
      (List.mem_of_mem_drop (List.mem_of_mem_take here)) there

end Traffic

theorem Region.Leaves.write {r : Region} {m m' : Memory} (leaves : r.Leaves m m') (start : Nat)
    (bytes : List UInt8) : r.Leaves (m.write start bytes) (m'.write start bytes) := by
  refine ⟨by rw [ByteStore.size_write, ByteStore.size_write, leaves.size], fun i apart => ?_⟩
  rw [ByteStore.write_eq_scatter, ByteStore.write_eq_scatter]
  exact ByteStore.get_scatter_congr leaves.size (leaves.outside i apart) _ _

namespace Plant

variable {T : Traffic} {I : Counts → Nat → TileArray → Prop} {q : Queue} {last steps : Nat}
  {moved : Counts} {p p' : Plant}

structure Flows (p : Plant) (T : Traffic) (I : Counts → Nat → TileArray → Prop) (q : Queue)
    (moved : Counts) (steps : Nat) : Prop where
  hosts : p.fabric.hosts = T.hosts
  tiles : I moved steps p.fabric.tiles
  within : T.Within moved
  memory : q.footprint.Leaves (T.landed moved) p.memory

theorem Flows.advanced (flows : p.Flows T I q moved steps) (sound : T.Sound q)
    {packet : Admitted} (member : packet ∈ T.packets) {count : Nat}
    (bound : moved packet.2.endpoint + count ≤ packet.2.addresses.length) :
    T.Within (Function.update moved packet.2.endpoint (moved packet.2.endpoint + count)) := by
  intro other among
  by_cases same : other.2.endpoint = packet.2.endpoint
  · rw [same, Function.update_self, sound.one_packet among member same]
    exact bound
  · rw [Function.update_of_ne same]
    exact flows.within other among

section Exchange

variable (sound : T.Sound q) (flows : p.Flows T I q moved steps) {packet : Admitted}
  (member : packet ∈ T.packets) {low high : Nat} {address : UInt64} {want : Nat}
  (asks : Asks (packet.2.addresses.drop (moved packet.2.endpoint)) low high address want)
  {r : Region} (among : r ∈ T.hosts.regions) (inside : r.contains address want = true)

include sound flows member asks among inside

theorem Flows.reads (inbound : packet.2.direction = .hostToDevice) :
    p.memory.read (r.origin + (address.toNat - r.base.toNat)) want =
      (List.range' (moved packet.2.endpoint) want).map (T.value packet.2.endpoint) := by
  have bounds := Region.contains_iff.mp inside
  rw [ByteStore.read, List.range'_eq_map_range, List.map_map]
  apply List.map_congr_left
  intro i below
  replace below := List.mem_range.mp below
  have here : packet.2.addresses[moved packet.2.endpoint + i]? = some (address.toNat + i) := by
    have entry := congrArg (fun list : List Nat => list[i]?) asks.first
    simpa [List.getElem?_take, below, List.getElem?_drop, List.getElem?_range', Nat.one_mul]
      using entry
  have source := sound.sources packet member inbound _ _ here
  have covered := sound.covered packet member
  have known : T.hosts.Covers [address.toNat + i] := fun a single =>
    covered a (by rw [List.mem_singleton.mp single]; exact List.mem_of_getElem? here)
  have place : T.hosts.place (address.toNat + i) =
      r.origin + (address.toNat - r.base.toNat) + i := by
    rw [sound.separate.place_eq among ⟨by omega, by omega⟩]
    omega
  rw [Function.comp_apply, ← source.2, ← place,
    flows.memory.outside _ (sound.separate.place_outside sound.apart known)]
  refine Traffic.settle_get_other _ fun out among taken => ?_
  obtain ⟨a, back, same⟩ := List.mem_map.mp taken
  have single : T.hosts.Covers [a] := fun b only =>
    sound.covers_out among b (by rw [List.mem_singleton.mp only]; exact back)
  exact source.1 out among (sound.separate.place_injective single known same ▸ back)

theorem Flows.writes (outbound : packet.2.direction = .deviceToHost) {bytes : List UInt8}
    (bound : bytes.length ≤ want)
    (next : bytes =
      (List.range' (moved packet.2.endpoint) bytes.length).map (T.value packet.2.endpoint)) :
    q.footprint.Leaves (T.landed (Function.update moved packet.2.endpoint
        (moved packet.2.endpoint + bytes.length)))
      (p.memory.write (r.origin + (address.toNat - r.base.toNat)) bytes) := by
  have places : ((packet.2.addresses.drop (moved packet.2.endpoint)).take bytes.length).map
      T.hosts.place = List.range' (r.origin + (address.toNat - r.base.toNat)) bytes.length := by
    rw [asks.take_eq bound]
    exact sound.separate.places_range among inside bound
  have within := flows.within packet member
  have landed := flows.memory.write (r.origin + (address.toNat - r.base.toNat)) bytes
  rw [sound.landed_more (Traffic.mem_outs.mpr ⟨⟨_, member⟩, outbound⟩) moved _ within, places,
    ← next, ← ByteStore.write_eq_scatter]
  exact landed

end Exchange

-- An exchange of a packet under way moves it on, unless it waits for a lock.
theorem Flows.exchange_ok (conducts : T.Conducts last I) (sound : T.Sound q)
    (flows : p.Flows T I q moved steps) {packet : Admitted} (member : packet ∈ T.packets)
    {low high : Nat} {address : UInt64} {want : Nat}
    (asks : Asks (packet.2.addresses.drop (moved packet.2.endpoint)) low high address want)
    (holds : T.hosts.Holds address want) :
    ∃ more p', exchange packet.2.endpoint address want p = .ok more p' ∧ more ≤ want ∧
      p'.Flows T I q
        (Function.update moved packet.2.endpoint (moved packet.2.endpoint + more)) steps ∧
      p.Beside p' ∧ (more = 0 → p' = p ∧ p.fabric.tiles.Barred packet.2.endpoint) := by
  have yields := exchange_yields (p := p) packet.2.endpoint address want
  have positive := asks.some
  have available := asks.want_le
  rw [List.length_drop] at available
  have within := flows.within packet member
  rw [← flows.hosts] at holds
  obtain ⟨r, among, inside, found⟩ := holds.resolve_ok
  rw [flows.hosts] at among
  obtain ⟨fabric, memory⟩ := p
  cases direction : packet.2.direction with
  | hostToDevice =>
    have bytes := flows.reads sound member asks among inside direction
    have step := exchange_fill (e := packet.2.endpoint) found inside direction
    simp only at bytes step
    rw [bytes] at step
    obtain ⟨count, tiles, filled, bound, after, still⟩ := conducts.fill flows.tiles packet member
      direction ((List.range' (moved packet.2.endpoint) want).map (T.value packet.2.endpoint))
      (by simp; omega) (by simp) (by simp; omega)
    simp only [List.length_map, List.length_range'] at bound
    simp only [onTiles, filled] at step
    rw [step] at yields
    refine ⟨count, _, step, bound, ⟨flows.hosts, after, ?_, ?_⟩, yields.1, fun none => ?_⟩
    · exact flows.advanced sound member (by omega)
    · rw [Traffic.landed_other moved direction]
      exact flows.memory
    · obtain ⟨same, barred⟩ := still none
      simp only at same
      subst same
      exact ⟨rfl, barred⟩
  | deviceToHost =>
    have step := exchange_drain (e := packet.2.endpoint) found inside direction
    obtain ⟨bytes, tiles, drained, bound, next, after, still⟩ :=
      conducts.drain flows.tiles packet member direction want positive (by omega)
    simp only [drained] at step
    rw [step] at yields
    refine ⟨bytes.length, _, step, bound, ⟨flows.hosts, after, ?_, ?_⟩, yields.1, fun none => ?_⟩
    · exact flows.advanced sound member (by omega)
    · exact flows.writes sound member asks among inside direction bound next
    · obtain rfl := List.length_eq_zero_iff.mp none
      obtain ⟨same, barred⟩ := still rfl
      simp only at same
      subst same
      exact ⟨rfl, barred⟩

theorem Flows.advance_ok (conducts : T.Conducts last I) (sound : T.Sound q)
    (flows : p.Flows T I q moved steps) {packet : Admitted} (member : packet ∈ T.packets)
    {job : Job} (underway : T.Underway moved packet job)
    (narrow : job.addresses.length < UInt64.size) :
    ∃ count left p', advance job p = .ok (count, left) p' ∧
      p'.Flows T I q
        (Function.update moved packet.2.endpoint (moved packet.2.endpoint + count)) steps ∧
      p.Beside p' ∧ (count = 0 → p' = p) ∧
      match left with
      | none => moved packet.2.endpoint + count = packet.2.addresses.length
      | some later => T.Underway
          (Function.update moved packet.2.endpoint (moved packet.2.endpoint + count)) packet later ∧
          p'.fabric.tiles.Barred packet.2.endpoint := by
  obtain ⟨index, endpoint, ⟨low, high, addressable, within, holds⟩, rest, unfinished⟩ := underway
  obtain ⟨count, left, p', advanced, bound, ⟨after, beside, same⟩, _, stops⟩ := advance_steps
    (I := fun bytes p' => p'.Flows T I q
        (Function.update moved packet.2.endpoint (moved packet.2.endpoint + bytes)) steps ∧
      p.Beside p' ∧ (bytes = 0 → p' = p))
    (S := fun p' => p'.fabric.tiles.Barred packet.2.endpoint) within addressable narrow
    ⟨by rwa [Nat.add_zero, Function.update_eq_self], Beside.refl p, fun _ => rfl⟩ (by
      rintro bytes p' address want ⟨flows, beside, same⟩ asks
      rw [rest, List.drop_drop] at asks
      obtain ⟨more, p'', done, bound, after, further, still⟩ := flows.exchange_ok conducts sound
        member (by rw [Function.update_self]; exact asks) (holds address want asks.low asks.high)
      rw [Function.update_idem, Function.update_self, Nat.add_assoc] at after
      refine ⟨more, p'', endpoint ▸ done, bound, ⟨after, beside.trans further, fun none => ?_⟩,
        fun none => ?_⟩
      · rw [(still (by omega)).1, same (by omega)]
      · rw [(still none).1]
        exact (still none).2)
  refine ⟨count, left, p', advanced, after, beside, same, ?_⟩
  have length := congrArg List.length rest
  rw [List.length_drop] at length
  cases left with
  | none =>
    simp only [Stops] at stops ⊢
    omega
  | some later =>
    obtain ⟨resumes, short, barred⟩ := stops
    refine ⟨⟨resumes.index.trans index, resumes.endpoint.trans endpoint,
      ⟨low, high, addressable, resumes.within, holds⟩, ?_, ?_⟩, barred⟩
    · rw [resumes.addresses, rest, List.drop_drop, Function.update_self]
    · rw [Function.update_self]
      omega

end Plant

end FabricQueue
