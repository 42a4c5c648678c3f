import FabricQueue.Proofs.Mirroring
import FabricQueue.Scenario.Report

set_option autoImplicit false

namespace FabricQueue

theorem QueueHandle.enqueueAll_cases {σ : Type} {h : QueueHandle σ} {policy : WaitPolicy}
    {seen : Observation σ} {command : Command} {rest : List Command} {packets : List PacketRef}
    {t t' : σ} (enqueued : h.enqueueAll policy seen (command :: rest) t = .ok packets t') :
    ∃ packet t₁ others, h.enqueue command policy seen t = .ok packet t₁ ∧
      h.enqueueAll policy seen rest t₁ = .ok others t' ∧ packets = packet :: others := by
  obtain ⟨packet, t₁, first, enqueued⟩ := bind_cases enqueued
  obtain ⟨others, t₂, later, enqueued⟩ := bind_cases enqueued
  cases enqueued
  exact ⟨packet, t₁, others, first, later, rfl⟩

namespace Ring

variable {s s' : Ring} {policy : WaitPolicy} {seen : Observation Ring} {commands : List Command}

theorem issue_cases {packets : List PacketRef} {newest : PacketRef}
    (issued : issue policy seen commands s = .ok packets s') (last : packets.getLast? = some newest) :
    ∃ s₁, handle.enqueueAll policy seen commands s = .ok packets s₁ ∧
      handle.dispatch newest.index s₁ = .ok () s' := by
  unfold issue at issued
  obtain ⟨refs, s₁, enqueued, issued⟩ := bind_cases issued
  cases newer : refs.getLast? with
  | none =>
    simp only [newer] at issued
    cases issued
    rw [newer] at last
    cases last
  | some packet =>
    simp only [newer] at issued
    obtain ⟨_, s₂, rung, issued⟩ := bind_cases issued
    cases issued
    cases newer.symm.trans last
    exact ⟨s₁, enqueued, rung⟩

end Ring

theorem Queue.Shows.publish_behind {q : Queue} {m : Memory} {l : Log} (shows : q.Shows m l)
    (level : l.writeIndex.toNat = l.published) {index : UInt64} (behind : index.toNat < l.published) :
    q.publish index m = .ok (q.tail, q) m := by
  refine shows.publish_again ?_ behind
  rw [UInt64.le_iff_toNat_le, level]
  omega

namespace Site

variable {s s' s'' : Site} {l l' : Log} {ring : Ring} {T : Traffic}
  {I : Counts → Nat → TileArray → Prop} {base : FabricStatus} {last : Nat}

structure Declared (s : Site) (l' : Log) (I : TileArray → Prop) (s' : Site) : Prop
    extends Retains s s' where
  idle : s'.Idle { l' with retired := l'.published }
  tiles : I s'.plant.fabric.tiles

theorem Idle.awaits_declared (idle : s.Idle l) {commands : List Command}
    (declares : ∀ c ∈ commands, c.Declares) (issued : s.ring.Issued ring l l' commands)
    {I : TileArray → Prop} (begun : I s.plant.fabric.tiles)
    (kernels : ∀ t : TileArray, I t → I t.runKernels.2) {bound index : UInt64}
    (behind : bound.toNat < l'.published) (low : l.retired ≤ index.toNat)
    (high : index.toNat < l'.published) :
    Awaits bound index (fun _ s' => s' = s.withRing ring) (s.Declared l' I) := by
  have retired := issued.retired
  refine ⟨?asks, ?complete, ?again, ?poll, ?rest⟩
  case again =>
    rintro s' (declared | ⟨_, rfl⟩)
    · exact declared.idle.shows.publish_behind issued.level behind
    · exact issued.shows.publish_behind issued.level behind
  case asks =>
    rintro _ _ rfl
    refine ⟨false, ?_, nofun⟩
    refine (issued.shows.isComplete_pending (issued.pending idle.retired) index).trans ?_
    rw [decide_eq_false (by omega)]
    rfl
  case complete =>
    intro s' declared
    refine (declared.idle.isComplete index).trans ?_
    rw [decide_eq_true high]
  case poll =>
    rintro _ _ order visits rfl
    obtain ⟨after, retains, tiles⟩ := idle.declared declares issued visits
    exact .inl ⟨retains, after, tiles ▸ kernels _ begun⟩
  case rest =>
    intro s' order visits declared
    rw [(declared.idle.drained.poll visits).1]
    exact ⟨declared.toRetains.trans (s'.rested_retains order), declared.idle.rested visits,
      kernels _ declared.tiles⟩

-- Once the packets up to one have ended, all have.
def Decides (T : Traffic) (I : Counts → Nat → TileArray → Prop) (number : Nat) : Prop :=
  number < T.packets.length ∧ ∀ moved steps t, I moved steps t → T.Within moved →
    (∀ packet ∈ T.packets.take (number + 1), Traffic.Ended moved packet) →
      ∀ packet ∈ T.packets, Traffic.Ended moved packet

theorem decides_last {number : Nat} (count : T.packets.length = number + 1) :
    Decides T I number := by
  refine ⟨by omega, fun moved steps t _ _ ended => ?_⟩
  rwa [← count, List.take_length] at ended

theorem awaits_arrived {q : Queue} {number : Nat} (conducts : T.Conducts last I) (sound : T.Sound q)
    (decides : Decides T I number) (pending : l.Pending) (level : l.writeIndex.toNat = l.published)
    {bound index : UInt64} (behind : bound.toNat < l.published)
    (here : index.toNat = l.retired + number) :
    Awaits bound index (fun toGo s => s.queue = q ∧ s.Nears T I l base last toGo)
      fun s => s.queue = q ∧ s.Arrived T I l base := by
  have later (gone : Nat) : Log.Pending { l with retired := l.retired + gone } := by
    intro j record low high
    exact pending j record (by simp only at low; omega) high
  obtain ⟨among, all⟩ := decides
  refine ⟨?asks, ?complete, ?again, ?poll, ?rest⟩
  case again =>
    rintro s (⟨rfl, moved, steps, conveys, _⟩ |
      ⟨_, rfl, running, fetched, p, moved, steps, gone, _, memory, settled, conveys, _⟩)
    · exact conveys.shows.publish_behind level behind
    · exact (memory ▸ conveys.shows).publish_behind level behind
  case asks =>
    rintro toGo s ⟨rfl, running, fetched, p, moved, steps, gone, _, memory, settled, conveys, level,
      _⟩
    refine ⟨_, (memory ▸ conveys.shows).isComplete_pending (later gone) index, fun complete => ?_⟩
    have passed := of_decide_eq_true complete
    simp only at passed
    obtain rfl := settled (by omega)
    have ended := all moved steps _ conveys.flows.tiles conveys.flows.within fun packet member =>
      conveys.through packet (List.take_subset_take_left _ (by omega) member)
    exact ⟨rfl, moved, steps, level ended ▸ conveys, ended⟩
  case complete =>
    rintro s ⟨rfl, moved, steps, conveys, _⟩
    refine (conveys.shows.isComplete_pending (later _) index).trans ?_
    rw [decide_eq_true (by simp only; omega)]
  case poll =>
    rintro toGo s order visits ⟨rfl, nears⟩
    rcases nears.poll conducts sound visits with arrived | ⟨moved, less, below, nears'⟩
    · exact .inl ⟨rfl, arrived⟩
    · exact .inr ⟨moved, less, below, rfl, nears'⟩
  case rest =>
    rintro s order visits ⟨rfl, arrived⟩
    exact ⟨rfl, (arrived.poll conducts sound visits).1⟩

structure Brought (s : Site) (T : Traffic) (I : Counts → Nat → TileArray → Prop) (l : Log)
    (s' : Site) : Prop extends Stays s s', Delivered s s' T I where
  idle : ∃ l', s'.Idle l' ∧ l'.retired = l.retired + T.packets.length

-- Passes that find nothing to do leave it so, whatever the kernels still do.
theorem Brought.idles (conducts : T.Conducts last I) (brought : s.Brought T I l s')
    (idles : s'.Idles s'') : s.Brought T I l s'' := by
  induction idles with
  | refl _ => exact brought
  | pass visits _ ih =>
    obtain ⟨l', idle, count⟩ := brought.idle
    obtain ⟨moved, steps, kept, ended⟩ := brought.tiles
    obtain ⟨steps', _, _, kept', _⟩ :=
      conducts.kernels kept fun packet member => Nat.le_of_eq (ended packet member)
    exact ih { brought with
      tiles := ⟨moved, steps', kept', ended⟩
      idle := ⟨l', idle.rested visits, count⟩
      quiet := fun _ visits' => ((idle.rested visits).drained.poll visits').2 }

theorem Ready.brought {ts : List Transfer} (ready : s.Ready T ts l) (idle : s.Idle l)
    (conducts : T.Conducts last I) (sound : T.Sound s.queue)
    (issued : s.ring.Issued ring l l' (ts.map .transfer)) (same : s'.queue = ring.queue)
    (arrived : s'.Arrived T I l' s.status) : s.Brought T I l s' := by
  have keeps := issued.keeps
  have region : s'.queue.region = s.queue.region := same ▸ keeps.region
  have capacity : s'.queue.capacity = s.queue.capacity := same ▸ keeps.capacity
  have footprint : s'.queue.footprint = s.queue.footprint := same ▸ keeps.footprint
  have delivered := arrived.delivered conducts (sound.congr region capacity) idle issued.retired
    footprint
  have ⟨moved, steps, conveys, _⟩ := arrived
  have size : s'.plant.memory.size = s.plant.memory.size := by
    rw [delivered.memory.size, Traffic.delivered, Traffic.size_settle, ready.initial]
  have published : l'.published = l.retired + T.packets.length :=
    conveys.published.trans (congrArg (· + _) issued.retired)
  exact { delivered with
    hosts := conveys.flows.hosts.trans ready.hosts, region, capacity, size
    idle := ⟨_, arrived.idle issued.level, published⟩ }

end Site

namespace Device.Stands

variable {d : Device} {m : Machine} {s : Site} {l : Log}

structure Submits (d : Device) (s : Site) (l : Log) (c : Command) (seen : Observation Machine)
    (m : Machine) where
  packet : PacketRef
  m' : Machine
  s' : Site
  written : Ring
  ring : Ring
  l' : Log
  submitted : d.submit c seen m = .ok packet m'
  idles : s.Idles s'
  stands : d.Stands m' (s'.withRing written)
  still : (s'.withRing written).Still
  rung : Ring.handle.dispatch packet.index written = .ok () ring
  issued : s.ring.Issued ring l l' [c]
  here : packet.index.toNat = l.retired
  published : l'.published = l.retired + 1

theorem submits (stands : d.Stands m s) (idle : s.Idle l) (c : Command)
    (room : l.retired + s.queue.capacity < UInt64.size) (seen : Observation Machine) :
    Nonempty (Submits d s l c seen m) := by
  have bounds := Layout.supports_bounds idle.shows.supported
  obtain ⟨packets, ring, l', issues, issued, numbers⟩ := @Ring.issue_ok s.ring l .indefinite
    (fun _ => []) [c] idle.shows (idle.unreserved.trans idle.retired.symm)
    (by
      change l.published + 1 ≤ l.retired + s.queue.capacity
      rw [idle.retired]
      omega) room
  obtain ⟨packet, rfl⟩ : ∃ packet, packets = [packet] := by
    have length := congrArg List.length numbers
    rw [List.length_map, List.length_range'] at length
    exact List.length_eq_one_iff.mp length
  have here : packet.index.toNat = l.retired := idle.retired ▸ List.head_eq_of_cons_eq numbers
  obtain ⟨_, published⟩ := idle.published_next issued
  obtain ⟨written, enqueued, rung⟩ :=
    Ring.issue_cases issues (show [packet].getLast? = some packet from rfl)
  obtain ⟨m', s', enqueued', idles, stands', still⟩ := Mirrors.enqueueAll .indefinite seen [c] m s
    s.ring written [packet] stands idle.still enqueued
  obtain ⟨first, m₂, _, submitted, rest, only⟩ := QueueHandle.enqueueAll_cases enqueued'
  cases rest
  cases only
  exact ⟨⟨packet, _, s', written, ring, l', submitted, idles, stands', still, rung, issued, here,
    published⟩⟩

theorem runCommand (stands : d.Stands m s) (idle : s.Idle l) {c : Command} (declares : c.Declares)
    (room : l.retired + s.queue.capacity < UInt64.size)
    (waits : s.plant.fabric.tiles.runKernels = (false, s.plant.fabric.tiles)) {policy : WaitPolicy}
    {seen : Observation Machine} (patient : Machine.Patient policy 1 (seen policy)) :
    ∃ m' s' l', d.runCommand c policy seen m = .ok () m' ∧ d.Stands m' s' ∧ s'.Idle l' ∧
      l'.retired = l.retired + 1 ∧ s.Retains s' ∧ s'.plant.fabric.tiles = s.plant.fabric.tiles := by
  obtain ⟨submits⟩ := stands.submits idle c room seen
  have here := submits.here
  have published := submits.published
  have behind : submits.packet.index.toNat < submits.l'.published := by omega
  obtain ⟨m₃, s₃, dispatched, idles₃, stands₃⟩ := submits.stands.dispatch submits.still submits.rung
  have idles := submits.idles.trans idles₃
  have issued : s₃.ring.Issued submits.ring l submits.l' [c] := idles.ring.symm ▸ submits.issued
  obtain ⟨m', s', waited, stands', declared⟩ :=
    ((idles.idle idle).awaits_declared (List.forall_mem_singleton.mpr declares) issued
      (I := (· = s.plant.fabric.tiles)) (idles.tiles_eq waits) (fun t same => by rw [same, waits])
      behind (Nat.le_of_eq here.symm) behind).dispatchAndWait rfl patient stands₃
      (.inr ⟨0, Nat.one_pos, rfl⟩)
  exact ⟨m', s', _, (bind_ok submits.submitted).trans ((bind_ok dispatched).trans waited), stands',
    declared.idle, published, idles.retains.trans declared.toRetains, declared.tiles⟩

theorem runBatch {T : Traffic} {I : Counts → Nat → TileArray → Prop} {last number needed : Nat}
    {ts : List Transfer} (stands : d.Stands m s) (idle : s.Idle l) (ready : s.Ready T ts l)
    (conducts : T.Conducts last I) (sound : T.Sound s.queue)
    (begun : I (fun _ => 0) 0 s.plant.fabric.tiles) (decides : Site.Decides T I number)
    (waits : s.plant.fabric.tiles.runKernels = (false, s.plant.fabric.tiles))
    (enough : T.total + last < needed) (seen : Observation Machine) :
    ∃ packets m₁ packet newest, packets.length = ts.length ∧ packets[number]? = some packet ∧
      packets.getLast? = some newest ∧
      d.handle.enqueueAll .indefinite seen (ts.map .transfer) m = .ok packets m₁ ∧
      ∀ policy, Machine.Patient policy needed (seen policy) →
        ∃ m' s', d.dispatchAndWait newest.index packet policy seen m₁ = .ok () m' ∧
          d.Stands m' s' ∧ s.Brought T I l s' := by
  obtain ⟨packets, ring, l', issues, numbers, issued, _, _⟩ :=
    ready.nears idle last sound begun .indefinite fun _ => []
  have count : T.packets.length = ts.length := by rw [ready.packets, Admitted.batch_length]
  have length := congrArg List.length numbers
  rw [List.length_map, List.length_range'] at length
  have among : number < packets.length := by
    have below := decides.1
    omega
  have some : packets ≠ [] := List.ne_nil_of_length_pos (by omega)
  have place {k : Nat} (below : k < packets.length) :
      packets[k].index.toNat = l.retired + k := by
    have entry := congrArg (fun list : List Nat => list[k]?) numbers
    simp only [List.getElem?_map, List.getElem?_eq_getElem below, Option.map_some] at entry
    rw [List.getElem?_range' (by omega), Option.some.injEq] at entry
    omega
  obtain ⟨ring₁, enqueued, rung⟩ := Ring.issue_cases issues (List.getLast?_eq_some_getLast some)
  obtain ⟨m₁, s₁, enqueued', idles₁, stands₁, still₁⟩ := Mirrors.enqueueAll .indefinite seen
    (ts.map .transfer) m s s.ring ring₁ packets stands idle.still enqueued
  refine ⟨packets, m₁, packets[number], _, length, List.getElem?_eq_getElem among,
    List.getLast?_eq_some_getLast some, enqueued', fun policy patient => ?_⟩
  obtain ⟨m₂, s₂, dispatched, idles₂, stands₂⟩ := stands₁.dispatch still₁ rung
  -- Up to here the passes have at most changed the order of the FIFOs.
  have idle₂ := (idles₁.trans idles₂).idle idle
  obtain ⟨fifos, rfl⟩ := (idles₁.trans idles₂).eq_waiting waits
  have ready₂ : Site.Ready ⟨s.queue, ⟨{ s.plant.fabric with fifos }, s.plant.memory⟩⟩ T ts l :=
    { ready with }
  obtain ⟨_, _, l₂, issues₂, _, issued₂, sound₂, nears⟩ :=
    ready₂.nears idle₂ last sound begun .indefinite fun _ => []
  cases issues.symm.trans issues₂
  have published := issued₂.published
  rw [List.length_map, idle.retired] at published
  have behind : (packets.getLast some).index.toNat < l₂.published := by
    rw [List.getLast_eq_getElem, place (by omega)]
    omega
  obtain ⟨m', s', waited, stands', same, arrived⟩ :=
    (Site.awaits_arrived conducts sound₂ decides (issued₂.pending idle.retired) issued₂.level
      behind (issued₂.retired ▸ place among)).dispatchAndWait rfl patient stands₂
      (.inr ⟨_, enough, rfl, nears⟩)
  have brought := ready₂.brought idle₂ conducts sound issued₂ same arrived
  exact ⟨m', s', (bind_ok dispatched).trans waited, stands', { brought with }⟩

end Device.Stands

end FabricQueue
