import FabricQueue.Proofs.Dues
import FabricQueue.Proofs.Headway

set_option autoImplicit false

namespace FabricQueue

-- The addresses of the range that a transfer is confined to.
def Transfer.Spans (t : Transfer) (a : Nat) : Prop :=
  t.address.toNat ≤ a ∧ a < t.address.toNat + t.extent

theorem HostMap.resolve_holds {h : HostMap} {address : UInt64} {len : Nat} {place : Region × Nat}
    (found : h.resolve address len = .ok place) : h.Holds address len := by
  unfold HostMap.resolve at found
  split at found
  next r known =>
    have inside := List.find?_some known
    exact ⟨r, List.mem_of_find?_eq_some known, inside⟩
  · cases found

namespace Plant

variable {p p₀ : Plant}

theorem arrivals_admitted (count : Nat) (p : Plant) : ∀ packet ∈ arrivals count p,
    p.fabric.tiles.hasRoute packet.2.endpoint = true ∧
      p.fabric.hosts.Holds packet.2.address packet.2.extent := by
  induction count generalizing p with
  | zero => exact nofun
  | succ count ih =>
    intro packet member
    rw [arrivals] at member
    split at member
    next record p' found =>
      rcases List.mem_append.mp member with now | later
      · obtain ⟨t, known, rfl⟩ := List.mem_map.mp now
        obtain ⟨_, routed, place, resolved⟩ := Fabric.admits_cases (Option.mem_toList.mp known)
        exact ⟨routed, HostMap.resolve_holds resolved⟩
      · have further := ih _ packet later
        exact further
    · cases member

theorem passArrivals_admitted : ∀ packet ∈ passArrivals p,
    p.fabric.tiles.hasRoute packet.2.endpoint = true ∧
      p.fabric.hosts.Holds packet.2.address packet.2.extent := by
  have same := onMemory_after p.fabric.consumer.published p
  unfold passArrivals
  split
  next published p' found =>
    rw [found] at same
    change p'.fabric = p.fabric at same
    rw [← same]
    exact arrivals_admitted _ p'
  · exact nofun

def scene (p : Plant) : Scene where
  buffers := p.fabric.tiles.buffers
  routes := p.fabric.tiles.routeOf
  memory := p.memory
  left e := Job.owed ((p.fabric.fifos.find? (·.endpoint = e)).elim [] (·.jobs))

theorem scene_tells (endpoints : (p.fabric.fifos.map (·.endpoint)).Nodup) :
    p.scene.Tells p.fabric.fifos := by
  refine ⟨fun fifo member => ?_, fun e outside => ?_⟩
  · have known : (p.fabric.fifos.find? (·.endpoint = fifo.endpoint)).isSome :=
      List.find?_isSome.mpr ⟨fifo, member, decide_eq_true rfl⟩
    obtain ⟨found, first⟩ := Option.isSome_iff_exists.mp known
    have same : found = fifo := List.inj_on_of_nodup_map endpoints
      (List.mem_of_find?_eq_some first) member (by simpa using List.find?_some first)
    simp only [scene, first, same, Option.elim_some]
  · have none : p.fabric.fifos.find? (·.endpoint = e) = none :=
      List.find?_eq_none.mpr fun fifo member same =>
        outside (List.mem_map.mpr ⟨fifo, member, by simpa using same⟩)
    simp only [scene, none, Option.elim_none]
    rfl

end Plant

namespace Site

variable {start s : Site} {first : Nat} {moved : Moves} {l : Log} {admitted : List Admitted}
  {touches : Touches}

-- Ports that do not get in each other's way.
structure Parted (s : Site) (admitted : List Admitted) : Prop where
  kernels : s.plant.fabric.tiles.kernels = []
  -- A buffer is on one route of each direction at most.
  owners : ∀ e e' r r', e ≠ e' → e.direction = e'.direction →
    s.plant.fabric.tiles.routeOf e = some r → s.plant.fabric.tiles.routeOf e' = some r' →
      ∀ i ∈ r.buffers, i ∉ r'.buffers
  routed : ∀ job ∈ s.plant.fabric.jobs, s.plant.fabric.tiles.hasRoute job.endpoint = true
  -- What goes back to the host is none of the others' business.
  apart : ∀ packet ∈ s.pending admitted, ∀ other ∈ s.pending admitted,
    packet.2.endpoint ≠ other.2.endpoint → packet.2.endpoint.direction = .deviceToHost →
      ∀ a, packet.2.Spans a → ¬ other.2.Spans a
  narrow : s.status.bytesMoved + Admitted.bytes (s.pending admitted) < UInt64.size

theorem Spawned.hosts {ring : Ring} {h : History} {hosts : HostMap} {tiles : TileArray}
    (spawned : s.Spawned ring hosts tiles) (tracked : ring.Tracks h) : s.plant.fabric.hosts = hosts := by
  obtain ⟨queue, fabric, memory⟩ := s
  obtain ⟨_, started⟩ := spawned
  simp only at started
  rw [tracked.shows.spawn_ok] at started
  cases started
  rfl

theorem Life.held (life : Life start admitted touches s) :
    ∀ packet ∈ admitted, s.plant.fabric.hosts.Holds packet.2.address packet.2.extent := by
  induction life with
  | start => exact nofun
  | next _ shift ih =>
    intro packet member
    rw [shift.hosts]
    rcases List.mem_append.mp member with old | new
    · exact ih packet old
    · cases shift with
      | produce a => cases new
      | configure change => cases new
      | store outside => cases new
      | poll order visits => exact (Plant.passArrivals_admitted packet new).2

section Fetched

variable {p₀ : Plant} {fetched : Bool} (parted : s.Parted admitted)
  (lives : s.plant.Lives s.queue first moved l admitted touches)
  (held : ∀ packet ∈ admitted, s.plant.fabric.hosts.Holds packet.2.address packet.2.extent)
  (taken : s.plant.fetch = .ok fetched p₀)
  (lives₀ : p₀.Lives s.queue first moved l (admitted ++ s.plant.passArrivals) touches)
  (narrow : Admitted.bytes (admitted ++ s.plant.passArrivals) < UInt64.size)

include parted lives held taken lives₀ narrow

theorem Parted.packet {job : Job} (member : job ∈ p₀.fabric.jobs) (some : job.addresses ≠ []) :
    s.plant.fabric.tiles.hasRoute job.endpoint = true ∧ ∃ t, (job.index, t) ∈ s.pending admitted ∧
      t.endpoint = job.endpoint ∧ t.totalBytes ≠ 0 ∧
      s.plant.fabric.hosts.Holds t.address t.extent ∧ job.addresses ⊆ t.addresses := by
  obtain ⟨_, t, among, endpoint, split⟩ := lives₀.journaled.jobs job member
  have flies := lives₀.serves.flight_bounds (lives₀.serves.owes job member).1
  have read : s.ring.read = l.retired := lives.serves.shows.readIndex
  have pending : (job.index, t) ∈ s.pending admitted :=
    List.mem_filter.mpr ⟨among, by simpa [read] using flies.1⟩
  have moves : t.totalBytes ≠ 0 := by
    rw [← lives₀.journaled.sized _ among, split, List.length_append]
    have more := List.length_pos_iff.mpr some
    omega
  -- An older packet has a job already, since it did not end.
  have either : s.plant.fabric.tiles.hasRoute t.endpoint = true ∧
      s.plant.fabric.hosts.Holds t.address t.extent := by
    rcases List.mem_append.mp among with old | new
    · refine ⟨?_, held _ old⟩
      by_cases under : job.index ∈ s.plant.fabric.jobs.map (·.index)
      · obtain ⟨job', among', same⟩ := List.mem_map.mp under
        obtain ⟨_, t', known, placed, _⟩ := lives.journaled.jobs job' among'
        have one := lives.journaled.one_packet old known same.symm
        obtain rfl : t = t' := congrArg Prod.snd one
        rw [placed]
        exact parted.routed job' among'
      · rcases lives.journaled.ended _ old under with all | ⟨faulted, _⟩
        · rw [all] at split
          exact absurd (List.append_right_eq_self.mp split.symm) some
        · have grown := (Plant.fetch_journaled lives.journaled (by
            rw [Admitted.bytes_append] at narrow; omega)).2
          rw [taken] at grown
          exact absurd (List.map_subset _ grown faulted) (lives₀.journaled.alive job member)
    · exact Plant.passArrivals_admitted _ new
  exact ⟨endpoint ▸ either.1, t, pending, endpoint, moves, either.2, by
    rw [split]; exact List.subset_append_right _ _⟩

theorem Parted.ahead (separate : s.plant.fabric.hosts.Separate)
    (all : p₀.fabric.nextFetch.toNat = l.published) :
    p₀.Ahead s.queue first (admitted ++ s.plant.passArrivals) p₀.scene p₀ := by
  have tells := Plant.scene_tells lives₀.journaled.endpoints
  have hosts : p₀.fabric.hosts = s.plant.fabric.hosts :=
    congrArg (·.2.1) (Plant.fetch_fixes.ok taken)
  have tiles : p₀.fabric.tiles = s.plant.fabric.tiles :=
    (Plant.fetch_work lives taken lives₀ all).2.1
  have owner {e : Endpoint} {touch : Touch} (left : touch ∈ p₀.scene.left e) :
      s.plant.fabric.tiles.hasRoute e = true ∧ ∃ packet ∈ s.pending admitted,
        packet.2.endpoint = e ∧ packet.2.Spans touch.address ∧
          s.plant.fabric.hosts.Covers [touch.address] := by
    obtain ⟨fifo, known, rfl, job, among, _, within⟩ := tells.job left
    have placed := (lives₀.journaled.queued fifo known).placed job among
    obtain ⟨routed, t, pending, endpoint, moves, holds, subset⟩ := parted.packet lives held taken
      lives₀ narrow (List.mem_flatMap.mpr ⟨fifo, known, among⟩) (List.ne_nil_of_mem within)
    obtain ⟨covered, spans⟩ := separate.addresses_within holds moves _ (subset within)
    refine ⟨placed ▸ routed, _, pending, endpoint.trans placed, spans, fun a member => ?_⟩
    rw [List.mem_singleton.mp member]
    exact covered
  refine ⟨⟨moved, l, touches, lives₀, all⟩, ⟨rfl, rfl, .refl _ _, lives₀.sound, ?_, ?_, ?_,
    lives₀.serves.apart, ⟨?cycle, ?owners, ?apart⟩⟩, tells, rfl, rfl, 0, rfl, .refl _ _⟩
  · rw [tiles]
    exact parted.kernels
  · intro e some
    obtain ⟨touch, left⟩ := List.exists_mem_of_ne_nil _ some
    rw [tiles]
    exact (owner left).1
  · rw [hosts]
    exact separate
  case cycle => exact fun e r known => (lives₀.sound.route known).next
  case owners =>
    intro e e' r r' different direction known known'
    change p₀.fabric.tiles.routeOf e = some r at known
    change p₀.fabric.tiles.routeOf e' = some r' at known'
    rw [tiles] at known known'
    exact parted.owners e e' r r' different direction known known'
  case apart =>
    intro e e' different outbound touch left other left' same
    obtain ⟨_, packet, pending, rfl, spans, covered⟩ := owner left
    obtain ⟨_, packet', pending', rfl, spans', covered'⟩ := owner left'
    rw [hosts] at same
    have one := separate.place_injective covered covered' same
    exact parted.apart packet pending packet' pending' different outbound _ spans (one ▸ spans')

end Fetched

section Polls

variable {p p₀ : Plant} {fetched : Bool} {scene : Scene}
  (narrow : Admitted.bytes admitted < UInt64.size)

include narrow

theorem poll_ahead {order : Order} (visits : ∀ fifos, (order fifos).Perm fifos)
    (running : s.plant.fabric.running = true) (taken : s.plant.fetch = .ok fetched p)
    {q : Queue} (ahead : p₀.Ahead q first admitted scene p) :
    ∃ scene', scene.Run p₀.fabric.hosts.place scene' ∧
      p₀.Ahead q first admitted scene' (s.poll order).plant := by
  obtain ⟨some, scene', p', ran, run, ahead'⟩ := ahead.pass_ok visits taken narrow
  rw [poll_done running ran]
  exact ⟨scene', run, ahead'⟩

theorem polls_ahead {orders : Nat → Order} (visits : ∀ pass fifos, (orders pass fifos).Perm fifos)
    (running : s.plant.fabric.running = true) (taken : s.plant.fetch = .ok fetched p₀) {q : Queue}
    (ahead : p₀.Ahead q first admitted scene p₀) (passes : Nat) :
    ∃ scene', scene.Run p₀.fabric.hosts.place scene' ∧
      p₀.Ahead q first admitted scene' (s.polls orders (passes + 1)).plant := by
  induction passes with
  | zero => exact poll_ahead narrow (visits 0) running taken ahead
  | succ passes ih =>
    obtain ⟨scene₁, run₁, ahead₁⟩ := ih
    obtain ⟨_, _, _, lives, _⟩ := ahead₁.lives
    obtain ⟨scene', run, ahead'⟩ := poll_ahead narrow (visits (passes + 1)) lives.serves.running
      ahead₁.fetch_none ahead₁
    exact ⟨scene', run₁.trans run, ahead'⟩

end Polls

-- Polling comes to rest in the same state, whatever the orders of the visits.
theorem polls_agree {root ring : Ring} {h : History} {hosts : HostMap} {tiles : TileArray}
    (opened : root.Opened) (led : Ring.Run root h ring) (spawned : start.Spawned ring hosts tiles)
    (apart : hosts.Apart ring.queue) (separate : hosts.Separate) (sound : tiles.Sound)
    (life : Life start admitted touches s) (parted : s.Parted admitted) (orders orders' : Nat → Order)
    (visits : ∀ pass fifos, (orders pass fifos).Perm fifos)
    (visits' : ∀ pass fifos, (orders' pass fifos).Perm fifos) :
    (∃ n, ((s.polls orders n).plant.poll (orders n)).1 = false) ∧
    (∃ n, ((s.polls orders' n).plant.poll (orders' n)).1 = false) ∧
    ∀ n m, ((s.polls orders n).plant.poll (orders n)).1 = false →
      ((s.polls orders' m).plant.poll (orders' m)).1 = false →
      (s.polls orders (n + 1)).plant.Agrees (s.polls orders' (m + 1)).plant := by
  by_cases running : s.plant.fabric.running = true
  case neg =>
    rw [Bool.not_eq_true] at running
    have stays (orders : Nat → Order) (n : Nat) : s.polls orders n = s := by
      have still := polls_stopped (show (s.polls orders 0).plant.fabric.running = false from running) n
      rwa [Nat.zero_add] at still
    have quiet (order : Order) : (s.plant.poll order).1 = false := by
      rw [Plant.poll, if_neg (by rw [running]; exact Bool.false_ne_true)]
    refine ⟨⟨0, quiet _⟩, ⟨0, quiet _⟩, fun n m _ _ => ?_⟩
    rw [stays, stays]
    exact ⟨rfl, fun _ => rfl, rfl, rfl⟩
  have tracked := (led.tracks opened).1
  obtain ⟨first, _, _, fresh⟩ := spawned.lives tracked apart separate.addressable sound
  have lists := life.lists running ⟨_, _, fresh.serves, .nil⟩
  rw [List.nil_append] at lists
  have narrow := Nat.lt_of_le_of_lt lists.bytes_le parted.narrow
  have alive := life.lives ⟨first, _, _, fresh⟩ (by
    rw [Admitted.bytes_append] at narrow
    rw [List.nil_append]
    omega)
  rw [List.nil_append, List.nil_append] at alive
  have tended : s.Tended := ⟨admitted, touches, alive, narrow, by
    rw [parted.kernels]
    exact List.forall_mem_nil _⟩
  refine ⟨?_, ?_, fun n m still still' => ?_⟩
  · obtain ⟨n, _, quiet⟩ := tended.quiet_pass visits
    exact ⟨n, quiet⟩
  · obtain ⟨n, _, quiet⟩ := tended.quiet_pass visits'
    exact ⟨n, quiet⟩
  obtain ⟨first, moved, l, lives⟩ := alive
  obtain ⟨fetched, p₀, taken, lives₀, all⟩ := Plant.fetch_lives lives (by
    rw [Admitted.bytes_append] at narrow
    omega)
  have hosts : s.plant.fabric.hosts.Separate := by
    rw [life.hosts, spawned.hosts tracked]
    exact separate
  have ahead := parted.ahead lives life.held taken lives₀ narrow hosts all
  obtain ⟨scene, run, ahead₁⟩ := polls_ahead narrow visits running taken ahead n
  obtain ⟨scene', run', ahead₂⟩ := polls_ahead narrow visits' running taken ahead m
  obtain ⟨_, _, rest⟩ := (tended.polls visits n).poll (visits n)
  obtain ⟨_, _, rest'⟩ := (tended.polls visits' m).poll (visits' m)
  obtain ⟨_, _, rests, _⟩ := rest still
  obtain ⟨_, _, rests', _⟩ := rest' still'
  -- Both runs of the scene have come to its only end.
  obtain rfl : scene = scene' := run.unique run' (ahead₁.still rests) (ahead₂.still rests')
  exact ahead₁.agrees rests ahead₂ rests'

-- A full buffer of two words, the first of them 5, between both ends of a channel.
def sampleShared : TileArray where
  buffers := ⟨#[{ (TileBuffer.zeroed "a" 2).setWord 0 5 with full := true }]⟩
  routes := [((sampleTransfer .deviceToHost 0).endpoint, ⟨[0], 0⟩),
    ((sampleTransfer .hostToDevice 0).endpoint, ⟨[0], 0⟩)]

def crossedWork (address : UInt64) : List Production :=
  [.reserve 2, .writePacket 0 (.transfer (sampleTransfer .deviceToHost 4096)),
    .writePacket 1 (.transfer (sampleTransfer .hostToDevice address)), .dispatch 1]

def sampleCrossed (hosts : HostMap) (address : UInt64) : Site :=
  (spawned sampleRing hosts sampleShared).offer (crossedWork address)

def sampleSlots (address : UInt64) : List UInt8 :=
  (Command.transfer (sampleTransfer .deviceToHost 4096)).encode.activated.toBytes ++
    (Command.transfer (sampleTransfer .hostToDevice address)).encode.activated.toBytes

theorem sampleShared_sound : sampleShared.Sound := by
  refine ⟨(sampleTiles_sound .hostToDevice true).buffers, fun entry member => ?_⟩
  have cycle : entry.2 = ⟨[0], 0⟩ := by
    rcases List.mem_cons.mp member with rfl | member
    · rfl
    · rw [List.mem_singleton.mp member]
  rw [cycle]
  exact ⟨Nat.zero_lt_one, by simp [sampleShared, TileBuffers.size]⟩

theorem sampleCrossed_life (hosts : HostMap) (address : UInt64) :
    Life (spawned sampleRing hosts sampleShared) [] [] (sampleCrossed hosts address) :=
  Life.start.offer _

theorem sampleShared_owner {e : Endpoint} {r : Route} (known : sampleShared.routeOf e = some r) :
    e = (sampleTransfer e.direction 0).endpoint := by
  obtain ⟨first, later, split, _⟩ := List.lookup_eq_some_iff.mp known
  have member : (e, r) ∈ sampleShared.routes := by
    rw [split]
    exact List.mem_append_right _ List.mem_cons_self
  rcases List.mem_cons.mp member with same | member
  · cases same
    rfl
  · cases List.mem_singleton.mp member
    rfl

theorem sampleCrossed_parted {hosts : HostMap} {address : UInt64}
    (pending : (sampleCrossed hosts address).pending [] =
      [(0, sampleTransfer .deviceToHost 4096), (1, sampleTransfer .hostToDevice address)])
    (away : address.toNat + 8 ≤ 4096 ∨ 4104 ≤ address.toNat) :
    (sampleCrossed hosts address).Parted [] := by
  have fabric : (sampleCrossed hosts address).plant.fabric =
      Fabric.started (Queue.opened 0 2 .multi ⟨0, 0, 192, false⟩) hosts sampleShared 0 := by
    rw [sampleCrossed, offer_fabric, sampleRing_spawned]
    rfl
  refine ⟨by rw [fabric]; rfl, ?owners, by rw [fabric]; exact nofun, ?apart, ?narrow⟩
  case owners =>
    intro e e' r r' different direction known known'
    rw [fabric] at known known'
    rw [sampleShared_owner known, sampleShared_owner known', direction] at different
    exact absurd rfl different
  case apart =>
    rw [pending]
    intro packet member other member' different outbound a spans spans'
    have first : packet.2 = sampleTransfer .deviceToHost 4096 := by
      rcases List.mem_cons.mp member with rfl | member
      · rfl
      · rw [List.mem_singleton.mp member] at outbound
        cases outbound
    have second : other.2 = sampleTransfer .hostToDevice address := by
      rcases List.mem_cons.mp member' with rfl | member'
      · exact absurd (congrArg Transfer.endpoint first) different
      · rw [List.mem_singleton.mp member']
    rw [first] at spans
    rw [second] at spans'
    have low : 4096 ≤ a ∧ a < 4104 := spans
    have high : address.toNat ≤ a ∧ a < address.toNat + 8 := spans'
    omega
  case narrow =>
    rw [pending, Site.status, fabric]
    change 0 + (8 + (8 + 0)) < UInt64.size
    decide

theorem sampleCrossed_passes : let s := sampleCrossed ⟨[⟨192, 4096, 64, false⟩]⟩ 4104
    s.pending [] =
      [(0, sampleTransfer .deviceToHost 4096), (1, sampleTransfer .hostToDevice 4104)] ∧
    (s.polls (fun _ => id) 1).status.retired = 2 ∧
    (s.polls (fun _ => List.reverse) 1).status.retired = 1 ∧
    ((s.polls (fun _ => id) 1).plant.poll id).1 = false ∧
    ((s.polls (fun _ => List.reverse) 2).plant.poll List.reverse).1 = false := by
  have crossed : sampleCrossed ⟨[⟨192, 4096, 64, false⟩]⟩ 4104 =
      sampleHolding 2 (sampleSlots 4104) ⟨[⟨192, 4096, 64, false⟩]⟩ sampleShared :=
    sampleRing_offer (by decide +kernel)
  rw [crossed]
  decide +kernel

theorem polls_agree_sample : ∃ s, sampleRing.Opened ∧ Ring.Run sampleRing [] sampleRing ∧
    (spawned sampleRing ⟨[⟨192, 4096, 64, false⟩]⟩ sampleShared).Spawned sampleRing
      ⟨[⟨192, 4096, 64, false⟩]⟩ sampleShared ∧
    HostMap.Apart ⟨[⟨192, 4096, 64, false⟩]⟩ sampleRing.queue ∧
    HostMap.Separate ⟨[⟨192, 4096, 64, false⟩]⟩ ∧ sampleShared.Sound ∧
    Life (spawned sampleRing ⟨[⟨192, 4096, 64, false⟩]⟩ sampleShared) [] [] s ∧ s.Parted [] ∧
    (∀ (_ : Nat) (fifos : List Fifo), (id fifos).Perm fifos) ∧
    (∀ (_ : Nat) (fifos : List Fifo), fifos.reverse.Perm fifos) ∧
    (s.polls (fun _ => id) 1).status.retired = 2 ∧
    (s.polls (fun _ => List.reverse) 1).status.retired = 1 ∧
    (s.polls (fun _ => id) 2).plant.Agrees (s.polls (fun _ => List.reverse) 3).plant := by
  obtain ⟨pending, retired, retired', still, still'⟩ := sampleCrossed_passes
  have separate : HostMap.Separate ⟨[⟨192, 4096, 64, false⟩]⟩ :=
    ⟨List.pairwise_singleton _ _, by decide⟩
  have spawned := spawned_ok sampleRing_opened.tracks ⟨[⟨192, 4096, 64, false⟩]⟩ sampleShared
  have life := sampleCrossed_life ⟨[⟨192, 4096, 64, false⟩]⟩ 4104
  have parted := sampleCrossed_parted pending (.inr (by decide))
  have visits : ∀ (_ : Nat) (fifos : List Fifo), (id fifos).Perm fifos :=
    fun _ _ => List.Perm.refl _
  have visits' : ∀ (_ : Nat) (fifos : List Fifo), fifos.reverse.Perm fifos :=
    fun _ _ => List.reverse_perm _
  obtain ⟨_, _, agree⟩ := polls_agree sampleRing_opened .start spawned sampleRing_apart separate
    sampleShared_sound life parted (fun _ => id) (fun _ => List.reverse) visits visits'
  exact ⟨_, sampleRing_opened, .start, spawned, sampleRing_apart, separate, sampleShared_sound, life,
    parted, visits, visits', retired, retired', agree 1 2 still still'⟩

theorem sampleCrossed_reads :
    let s := sampleCrossed ⟨[⟨0, 0, 192, false⟩, ⟨192, 4096, 64, false⟩]⟩ 0x28
    s.pending [] =
      [(0, sampleTransfer .deviceToHost 4096), (1, sampleTransfer .hostToDevice 0x28)] ∧
    ((s.polls (fun _ => id) 1).plant.poll id).1 = false ∧
    ((s.polls (fun _ => List.reverse) 2).plant.poll List.reverse).1 = false ∧
    (s.polls (fun _ => id) 2).plant.fabric.tiles.buffers.items.map (·.store.get 0) = #[0] ∧
    (s.polls (fun _ => List.reverse) 3).plant.fabric.tiles.buffers.items.map (·.store.get 0) =
      #[1] := by
  have crossed : sampleCrossed ⟨[⟨0, 0, 192, false⟩, ⟨192, 4096, 64, false⟩]⟩ 0x28 = sampleHolding 2
      (sampleSlots 0x28) ⟨[⟨0, 0, 192, false⟩, ⟨192, 4096, 64, false⟩]⟩ sampleShared :=
    sampleRing_offer (by decide +kernel)
  rw [crossed]
  decide +kernel

theorem overlap_breaks_agreement : ¬ ∀ (root ring : Ring) (h : History) (hosts : HostMap)
    (tiles : TileArray) (start s : Site) (admitted : List Admitted) (touches : Touches)
    (orders orders' : Nat → Order), root.Opened → Ring.Run root h ring →
    start.Spawned ring hosts tiles → hosts.Separate → tiles.Sound →
    Life start admitted touches s → s.Parted admitted →
    (∀ pass fifos, (orders pass fifos).Perm fifos) →
    (∀ pass fifos, (orders' pass fifos).Perm fifos) →
    ∀ n m, ((s.polls orders n).plant.poll (orders n)).1 = false →
      ((s.polls orders' m).plant.poll (orders' m)).1 = false →
      (s.polls orders (n + 1)).plant.Agrees (s.polls orders' (m + 1)).plant := by
  intro always
  obtain ⟨pending, still, still', first, second⟩ := sampleCrossed_reads
  have separate : HostMap.Separate ⟨[⟨0, 0, 192, false⟩, ⟨192, 4096, 64, false⟩]⟩ :=
    ⟨List.pairwise_pair.mpr ⟨by decide, by decide⟩, by decide⟩
  have life := sampleCrossed_life ⟨[⟨0, 0, 192, false⟩, ⟨192, 4096, 64, false⟩]⟩ 0x28
  have agree := always _ _ _ _ _ _ _ _ _ (fun _ => id) (fun _ => List.reverse) sampleRing_opened
    .start (spawned_ok sampleRing_opened.tracks _ _) separate sampleShared_sound life
    (sampleCrossed_parted pending (.inl (by decide))) (fun _ _ => List.Perm.refl _)
    (fun _ _ => List.reverse_perm _) 1 2 still still'
  have buffers := congrArg (·.items.map (·.store.get 0)) agree.buffers
  exact absurd (second.symm.trans (buffers.trans first)) (by decide)

end Site

end FabricQueue
