import FabricQueue.Proofs.Extents
import FabricQueue.Proofs.Odometer
import FabricQueue.Proofs.Orders

set_option autoImplicit false

namespace FabricQueue

namespace Region

def Reaches (r : Region) (a : Nat) : Prop :=
  r.base.toNat ≤ a ∧ a < r.base.toNat + r.size

-- Two regions that share no address. The bytes behind their addresses may be the same.
def Foreign (r r' : Region) : Prop :=
  ∀ a, ¬(r.Reaches a ∧ r'.Reaches a)

instance : Std.Symm Foreign :=
  ⟨fun _ _ foreign a both => foreign a both.symm⟩

end Region

namespace HostMap

-- No address is in two regions, and no region runs past the last address.
structure Disjoint (h : HostMap) : Prop where
  foreign : h.regions.Pairwise Region.Foreign
  addressable : ∀ r ∈ h.regions, r.base.toNat + r.size ≤ UInt64.size

theorem Disjoint.resolve_part {h : HostMap} {r : Region} {address : UInt64} {want : Nat}
    (disjoint : h.Disjoint) (member : r ∈ h.regions) (inside : r.contains address want = true)
    (some : 0 < want) : h.resolve address want = .ok (r, address.toNat - r.base.toNat) := by
  obtain ⟨r', member', inside', found⟩ := Holds.resolve_ok ⟨r, member, inside⟩
  have bounds := Region.contains_iff.mp inside
  have bounds' := Region.contains_iff.mp inside'
  have same : r' = r := by
    by_contra other
    exact disjoint.foreign.forall member' member other address.toNat
      ⟨⟨bounds'.1, by omega⟩, ⟨bounds.1, by omega⟩⟩
  rw [found, same]

end HostMap

namespace Transfer

variable {t : Transfer} {r : Region} {a : Nat} {m m' m'' : Memory}

-- The addresses of the chunks.
def Covers (t : Transfer) (a : Nat) : Prop :=
  ∃ chunk ∈ t.runList, chunk.1 ≤ a ∧ a < chunk.1 + chunk.2

def Spot (t : Transfer) (r : Region) (i : Nat) : Prop :=
  ∃ a, t.Covers a ∧ i = r.origin + (a - r.base.toNat)

theorem Covers.spans (covers : t.Covers a) : t.Spans a := by
  obtain ⟨chunk, member, low, high⟩ := covers
  have some : t.run ≠ 0 := fun none => by
    rw [runList_eq_nil.mpr none] at member
    cases member
  obtain ⟨o, bound, rfl⟩ := runList_between member
  rw [Spans, extent_moves some]
  simp only at low high
  omega

theorem addresses_covered {low high : Nat} (within : t.chunks.Within low high)
    (addressable : high ≤ UInt64.size) : ∀ a ∈ t.addresses, t.Covers a := by
  intro a member
  have moves : t.run.toNat ≠ 0 := within.moves.ne'
  have more : t.chunks.done = false := by
    rw [chunks, beq_eq_false_iff_ne]
    rintro zero
    exact moves (congrArg UInt32.toNat zero)
  rw [addresses, within.runs_at addressable more] at member
  obtain ⟨n, among, here⟩ := List.mem_flatMap.mp member
  refine ⟨t.chunks.item n, ?_, List.mem_range'_1.mp here⟩
  rw [← chunks_items]
  exact List.mem_map_of_mem among

structure Confined (t : Transfer) (r : Region) (m m' : Memory) : Prop where
  size : m'.size = m.size
  inbound : t.direction = .hostToDevice → m' = m
  outside : ∀ i, ¬t.Spot r i → m'.get i = m.get i

theorem Confined.refl (t : Transfer) (r : Region) (m : Memory) : t.Confined r m m :=
  ⟨rfl, fun _ => rfl, fun _ _ => rfl⟩

theorem Confined.trans (first : t.Confined r m m') (second : t.Confined r m' m'') :
    t.Confined r m m'' where
  size := second.size.trans first.size
  inbound direction := (second.inbound direction).trans (first.inbound direction)
  outside i apart := (second.outside i apart).trans (first.outside i apart)

structure Piece (t : Transfer) (hosts : HostMap) (r : Region) (address : UInt64) (want : Nat) :
    Prop where
  covered : ∀ a, address.toNat ≤ a → a < address.toNat + want → t.Covers a
  inside : r.contains address want = true
  found : hosts.resolve address want = .ok (r, address.toNat - r.base.toNat)
  -- No access to it fails.
  read : ∀ m, r.readBytes (address.toNat - r.base.toNat) want m =
    .ok (m.read (r.origin + (address.toNat - r.base.toNat)) want) m
  write : ∀ bytes m, bytes.length ≤ want → r.writeBytes (address.toNat - r.base.toNat) bytes m =
    .ok () (m.write (r.origin + (address.toNat - r.base.toNat)) bytes)

structure Alike (t : Transfer) (hosts : HostMap) (r : Region) (p q : Plant) : Prop where
  hosts : p.fabric.hosts = hosts
  fabric : q.fabric = p.fabric
  size : q.memory.size = p.memory.size
  spots : ∀ i, t.Spot r i → q.memory.get i = p.memory.get i

end Transfer

namespace Plant

variable {α β : Type}

def Echoes (R : Plant → Plant → Prop) (x : Work α) : Prop :=
  ∀ p q, R p q → match x p, x q with
    | .ok a p', .ok b q' => a = b ∧ R p' q'
    | .error failure p', .error failure' q' => failure = failure' ∧ R p' q'
    | _, _ => False

namespace Echoes

variable {R : Plant → Plant → Prop}

theorem pure (a : α) : Echoes R (Pure.pure a) :=
  fun _ _ related => ⟨rfl, related⟩

theorem lifted (x : Except Failure α) : Echoes R (lift x) := by
  intro p q related
  cases x <;> exact ⟨rfl, related⟩

theorem counted (a b : Nat) : Echoes R (count a b) := by
  intro p q related
  unfold count
  split_ifs <;> exact ⟨rfl, related⟩

theorem bind {x : Work α} {next : α → Work β} (first : Echoes R x)
    (rest : ∀ a p p', x p = .ok a p' → Echoes R (next a)) : Echoes R (x >>= next) := by
  intro p q related
  have after := first p q related
  cases left : x p with
  | ok a p' =>
    cases right : x q with
    | ok b q' =>
      rw [left, right] at after
      obtain ⟨rfl, related'⟩ := after
      rw [bind_ok left, bind_ok right]
      exact rest a p p' left p' q' related'
    | error failure q' => rw [left, right] at after; exact after.elim
  | error failure p' =>
    cases right : x q with
    | ok b q' => rw [left, right] at after; exact after.elim
    | error failure' q' =>
      rw [left, right] at after
      rw [bind_error left, bind_error right]
      exact after

end Echoes

end Plant

namespace Transfer

variable {t : Transfer} {hosts : HostMap} {r : Region} {address : UInt64} {want : Nat}

-- Only bytes of the chunks were written. The one failure is the want of a route, and then nothing
-- happened.
def Ends (t : Transfer) (r : Region) (p : Plant) {α : Type} :
    EStateM.Result Failure Plant α → Prop
  | .ok _ p' => t.Confined r p.memory p'.memory
  | .error failure p' => failure = .error (.invalidState (.noRoute t.endpoint)) ∧
      p.fabric.tiles.hasRoute t.endpoint = false ∧ p' = p

-- What a transfer may do to a plant. The bytes around its chunks have no part in what comes of it.
structure Bounds (t : Transfer) (hosts : HostMap) (r : Region) {α : Type} (x : Work α) : Prop where
  ends : ∀ p : Plant, p.fabric.hosts = hosts → t.Ends r p (x p)
  echoes : Plant.Echoes (t.Alike hosts r) x

namespace Piece

variable (piece : t.Piece hosts r address want)

include piece

theorem spot {i : Nat} (low : r.origin + (address.toNat - r.base.toNat) ≤ i)
    (high : i < r.origin + (address.toNat - r.base.toNat) + want) : t.Spot r i := by
  have bounds := Region.contains_iff.mp piece.inside
  exact ⟨i - r.origin + r.base.toNat, piece.covered _ (by omega) (by omega), by omega⟩

theorem confined {bytes : List UInt8} (few : bytes.length ≤ want)
    (outbound : t.direction = .deviceToHost) (m : Memory) :
    t.Confined r m (m.write (r.origin + (address.toNat - r.base.toNat)) bytes) where
  size := ByteStore.size_write _ _ _
  inbound direction := nomatch outbound.symm.trans direction
  outside i apart := by
    refine ByteStore.get_write_apart _ _ _ _ ?_
    by_contra within
    exact apart (piece.spot (by omega) (by omega))

theorem exchange_ends {p : Plant} (same : p.fabric.hosts = hosts) :
    t.Ends r p (Plant.exchange t.endpoint address want p) := by
  have found := piece.found
  rw [← same] at found
  cases routed : p.fabric.tiles.hasRoute t.endpoint with
  | false =>
    have holds : p.fabric.hosts.Holds address want := HostMap.resolve_holds found
    rw [Plant.exchange_unrouted holds routed]
    exact ⟨rfl, routed, rfl⟩
  | true =>
    obtain ⟨fabric, memory⟩ := p
    cases direction : t.direction with
    | hostToDevice =>
      obtain ⟨count, tiles, filled, _⟩ := TileArray.fill_routed routed
        (memory.read (r.origin + (address.toNat - r.base.toNat)) want)
      rw [Plant.exchange_fill found piece.inside direction]
      simp only [Plant.onTiles, filled]
      exact Confined.refl t r memory
    | deviceToHost =>
      obtain ⟨bytes, tiles, drained, _⟩ := TileArray.drain_routed routed want
      rw [Plant.exchange_drain found piece.inside direction]
      simp only [drained]
      exact piece.confined (TileArray.drain_le drained) direction memory

theorem exchange_echoes : Plant.Echoes (t.Alike hosts r)
    (Plant.exchange t.endpoint address want) := by
  rintro ⟨_, memory⟩ ⟨fabric, memory'⟩ ⟨same, rfl, size, spots⟩
  simp only at same size spots
  have found := piece.found
  rw [← same] at found
  cases direction : t.direction with
  | hostToDevice =>
    have bytes : memory'.read (r.origin + (address.toNat - r.base.toNat)) want =
        memory.read (r.origin + (address.toNat - r.base.toNat)) want :=
      ByteStore.read_congr _ _ _ _ fun i low high => spots i (piece.spot low high)
    rw [Plant.exchange_fill (p := ⟨_, memory⟩) found piece.inside direction,
      Plant.exchange_fill (p := ⟨_, memory'⟩) found piece.inside direction, bytes]
    simp only [Plant.onTiles]
    cases fabric.tiles.fill t.endpoint _ with
    | error fault => exact ⟨rfl, same, rfl, size, spots⟩
    | ok result => exact ⟨rfl, same, rfl, size, spots⟩
  | deviceToHost =>
    rw [Plant.exchange_drain (p := ⟨_, memory⟩) found piece.inside direction,
      Plant.exchange_drain (p := ⟨_, memory'⟩) found piece.inside direction]
    cases fabric.tiles.drain t.endpoint want with
    | error fault => exact ⟨rfl, same, rfl, size, spots⟩
    | ok result =>
      refine ⟨rfl, same, rfl, by simp only [ByteStore.size_write, size], fun i spot => ?_⟩
      simp only [ByteStore.write_eq_scatter]
      exact ByteStore.get_scatter_congr size (spots i spot) _ _

end Piece

end Transfer

-- The job that a beat leaves, if it does not finish.
def Beat.left : Beat → Option Job
  | .finished => none
  | .stalled later => some later
  | .moved _ later => some later

-- A job some beats further on, whatever the plant is like at each of them.
inductive Job.Streams (first : Job) : Job → Prop where
  | start : first.Streams first
  | beat {job later : Job} {p p' : Plant} {outcome : Beat} : first.Streams job →
      Plant.beat job p = .ok outcome p' → outcome.left = some later → first.Streams later

structure Job.Under (t : Transfer) (job : Job) : Prop where
  endpoint : job.endpoint = t.endpoint
  within : job.Within t.address.toNat (t.address.toNat + t.extent)
  covered : ∀ a ∈ job.addresses, t.Covers a
  narrow : job.addresses.length < UInt64.size

-- Of a job it is known what it takes up next, and what a beat and a pass may do.
structure Job.Inside (t : Transfer) (hosts : HostMap) (r : Region) (job : Job) : Prop where
  takes : job.take = .ok none ∨ ∃ run later, job.take = .ok (some (run, later)) ∧
    later.endpoint = t.endpoint ∧ 0 < run.length.toNat ∧
    (∀ want, 0 < want → want ≤ run.length.toNat → t.Piece hosts r run.address want) ∧
    ∀ moved, moved < run.length.toNat →
      addWord run.address moved = .ok (UInt64.ofNat (run.address.toNat + moved))
  beat : t.Bounds hosts r (Plant.beat job)
  advance : t.Bounds hosts r (Plant.advance job)

namespace Job.Under

variable {t : Transfer} {hosts : HostMap} {r : Region} {job later : Job}

theorem resumes (under : job.Under t) {moved : Nat}
    (resumes : job.Resumes later t.address.toNat (t.address.toNat + t.extent) moved) :
    later.Under t where
  endpoint := resumes.endpoint.trans under.endpoint
  within := resumes.within
  covered a member := by
    rw [resumes.addresses] at member
    exact under.covered a (List.mem_of_mem_drop member)
  narrow := by
    rw [resumes.addresses, List.length_drop]
    have whole := under.narrow
    omega

section Addressable

variable (addressable : t.address.toNat + t.extent ≤ UInt64.size)

include addressable

theorem fresh (index : UInt64) (moves : t.totalBytes ≠ 0) (narrow : t.totalBytes < UInt64.size) :
    (Fabric.freshJob index t).Under t := by
  have within := t.chunks_within moves (Nat.le_refl _) (Nat.le_refl _)
  refine ⟨rfl, ⟨within, nofun⟩, fun a member => t.addresses_covered within addressable a member, ?_⟩
  change t.addresses.length < _
  rw [t.addresses_length within addressable]
  exact narrow

theorem beat {p p' : Plant} {outcome : Beat} (under : job.Under t)
    (ran : Plant.beat job p = .ok outcome p') (left : outcome.left = some later) :
    later.Under t := by
  by_cases empty : job.addresses = []
  · rw [(Plant.beat_empty under.within addressable empty).1] at ran
    cases ran
    cases left
  obtain ⟨address, want, asks, answers⟩ := Plant.beat_asks under.within addressable empty
  have bound := Plant.exchange_yields (p := p) job.endpoint address want
  cases exchanged : Plant.exchange job.endpoint address want p with
  | error failure p₁ =>
    rw [((answers p).1 failure p₁ exchanged).1] at ran
    cases ran
  | ok moved p₁ =>
    rw [exchanged] at bound
    obtain ⟨_, after, resumes, beaten⟩ := (answers p).2 moved p₁ exchanged bound.2
    rw [beaten] at ran
    cases ran
    have same : after = later := by
      split_ifs at left <;> exact Option.some.inj left
    exact under.resumes (same ▸ resumes)

theorem streams {first : Job} (under : first.Under t) (streams : first.Streams job) :
    job.Under t := by
  induction streams with
  | start => exact under
  | beat _ ran left ih => exact ih.beat addressable ran left

end Addressable

section Held

variable (disjoint : hosts.Disjoint) (member : r ∈ hosts.regions)
  (held : r.contains t.address t.extent = true)

include disjoint member held

theorem addressable : t.address.toNat + t.extent ≤ UInt64.size := by
  have bounds := Region.contains_iff.mp held
  have limit := disjoint.addressable r member
  omega

theorem piece {address : UInt64} {want : Nat} (some : 0 < want)
    (low : t.address.toNat ≤ address.toNat)
    (high : address.toNat + want ≤ t.address.toNat + t.extent)
    (covered : ∀ a, address.toNat ≤ a → a < address.toNat + want → t.Covers a) :
    t.Piece hosts r address want := by
  have bounds := Region.contains_iff.mp held
  have inside : r.contains address want = true := Region.contains_iff.mpr (by omega)
  have placed {len : Nat} (few : len ≤ want) : r.locate (address.toNat - r.base.toNat) len 1 =
      .ok (r.origin + (address.toNat - r.base.toNat)) :=
    Region.locate_ok (by omega) (Nat.mod_one _)
  refine ⟨covered, inside, disjoint.resolve_part member inside some, fun m => ?_,
    fun bytes m few => ?_⟩
  · simp only [Region.readBytes, Region.access, placed (Nat.le_refl want)]
  · simp only [Region.writeBytes, Region.access, placed few]

variable (under : job.Under t)

include under

theorem asked (bytes : Nat) {address : UInt64} {want : Nat}
    (asks : Asks (job.addresses.drop bytes) t.address.toNat (t.address.toNat + t.extent) address
      want) : t.Piece hosts r address want := by
  refine piece disjoint member held asks.some asks.low asks.high fun a low high => ?_
  have among : a ∈ (job.addresses.drop bytes).take want := by
    rw [asks.first]
    exact List.mem_range'_1.mpr ⟨low, high⟩
  exact under.covered a (List.mem_of_mem_drop (List.mem_of_mem_take among))

theorem takes : job.take = .ok none ∨ ∃ run later, job.take = .ok (some (run, later)) ∧
    later.endpoint = t.endpoint ∧ 0 < run.length.toNat ∧
    (∀ want, 0 < want → want ≤ run.length.toNat → t.Piece hosts r run.address want) ∧
    ∀ moved, moved < run.length.toNat →
      addWord run.address moved = .ok (UInt64.ofNat (run.address.toNat + moved)) := by
  have addressable := addressable disjoint member held
  rcases under.within.take_ok addressable with
    ⟨_, none⟩ | ⟨run, later, taken, runs, _, _, endpoint, _⟩
  · exact .inl none
  have first : run ∈ job.runs := runs ▸ List.mem_cons_self
  obtain ⟨some, low, high⟩ := under.within.runs_within addressable first
  refine .inr ⟨run, later, taken, endpoint.trans under.endpoint, some, fun want some few => ?_,
    fun moved part => addWord_ok (by omega)⟩
  refine piece disjoint member held some low (by omega) fun a above below => ?_
  exact under.covered a (List.mem_flatMap.mpr
    ⟨run, first, List.mem_range'_1.mpr ⟨above, by omega⟩⟩)

theorem beat_ends (p : Plant) (same : p.fabric.hosts = hosts) :
    t.Ends r p (Plant.beat job p) := by
  have addressable := addressable disjoint member held
  by_cases empty : job.addresses = []
  · rw [(Plant.beat_empty under.within addressable empty).1]
    exact Transfer.Confined.refl t r p.memory
  obtain ⟨address, want, asks, answers⟩ := Plant.beat_asks under.within addressable empty
  have after := (asked disjoint member held under 0 asks).exchange_ends same
  have bound := Plant.exchange_yields (p := p) job.endpoint address want
  rw [under.endpoint] at answers bound
  cases exchanged : Plant.exchange t.endpoint address want p with
  | error failure p' =>
    rw [exchanged] at after
    rw [((answers p).1 failure p' exchanged).1]
    exact after
  | ok moved p' =>
    rw [exchanged] at after bound
    obtain ⟨_, later, _, ran⟩ := (answers p).2 moved p' exchanged bound.2
    rw [ran]
    exact after

theorem beat_echoes : Plant.Echoes (t.Alike hosts r) (Plant.beat job) := by
  unfold Plant.beat
  refine (Plant.Echoes.lifted _).bind fun taken p p' ran => ?_
  have known := (lift_cases ran).1
  cases taken with
  | none => exact Plant.Echoes.pure _
  | some next =>
    rcases takes disjoint member held under with none | ⟨run, later, some, endpoint, long, pieces, _⟩
    · cases known.symm.trans none
    cases known.symm.trans some
    have piece := pieces (min run.length.toNat Plant.beatLimit) (Nat.lt_min.mpr ⟨long, by decide⟩)
      (Nat.min_le_left _ _)
    simp only [endpoint]
    refine piece.exchange_echoes.bind fun moved _ _ _ => ?_
    split_ifs
    · exact Plant.Echoes.pure _
    · exact (Plant.Echoes.lifted _).bind fun _ _ _ _ => Plant.Echoes.pure _
    · exact Plant.Echoes.pure _

theorem stream_echoes (moved beats : Nat) :
    Plant.Echoes (t.Alike hosts r) (Plant.stream moved beats job) := by
  -- What a beat leaves is a part of the transfer again.
  induction beats generalizing moved job with
  | zero => exact Plant.Echoes.pure _
  | succ beats ih =>
    refine (beat_echoes disjoint member held under).bind fun outcome p p' ran => ?_
    cases outcome with
    | finished => exact Plant.Echoes.pure _
    | stalled later => exact Plant.Echoes.pure _
    | moved more later =>
      have rest := under.beat (addressable disjoint member held) ran rfl
      exact (Plant.Echoes.counted _ _).bind fun _ _ _ _ => ih rest _

theorem advance_ends (p : Plant) (same : p.fabric.hosts = hosts) :
    t.Ends r p (Plant.advance job p) := by
  have addressable := addressable disjoint member held
  by_cases stuck : job.addresses ≠ [] ∧ p.fabric.tiles.hasRoute t.endpoint = false
  · obtain ⟨more, unrouted⟩ := stuck
    have hosted : job.Hosted p.fabric.hosts := by
      refine ⟨_, _, addressable, under.within, fun address want low high => ?_⟩
      have bounds := Region.contains_iff.mp held
      exact ⟨r, same ▸ member, Region.contains_iff.mpr (by omega)⟩
    rw [(Plant.advance_unrouted hosted more (under.endpoint ▸ unrouted)).1, under.endpoint]
    exact ⟨rfl, unrouted, rfl⟩
  -- Otherwise each exchange that the job asks for ends well, and keeps the route.
  obtain ⟨_, _, p', ran, _, ⟨_, _, confined⟩, _⟩ := Plant.advance_steps (p := p)
    (I := fun _ q => q.fabric.hosts = hosts ∧
      (job.addresses ≠ [] → q.fabric.tiles.hasRoute t.endpoint = true) ∧
        t.Confined r p.memory q.memory)
    (S := fun _ => True) under.within addressable under.narrow
    ⟨same, fun more => by simpa [more] using stuck, Transfer.Confined.refl t r p.memory⟩ (by
      rintro _ q address want ⟨same, routed, before⟩ asks
      have piece := asked disjoint member held under _ asks
      have holds := HostMap.resolve_holds piece.found
      have after := piece.exchange_ends same
      obtain ⟨more, q', done, bound, beside, still⟩ :=
        Plant.exchange_routed (same.symm ▸ holds) (routed asks.some_left)
      rw [done] at after
      exact ⟨more, q', under.endpoint.symm ▸ done, bound,
        ⟨beside.hosts.trans same, fun _ => still, before.trans after⟩, fun _ => trivial⟩)
  rw [ran]
  exact confined

theorem inside : job.Inside t hosts r where
  takes := takes disjoint member held under
  beat := ⟨beat_ends disjoint member held under, beat_echoes disjoint member held under⟩
  advance := ⟨advance_ends disjoint member held under, stream_echoes disjoint member held under _ _⟩

end Held

end Job.Under

theorem Fabric.accepted_inside {f f' : Fabric} {index : UInt64} {t : Transfer}
    (disjoint : f.hosts.Disjoint) (accepted : f.acceptTransfer index t = .ok (.running, f')) :
    ∃ r ∈ f.hosts.regions,
      f.hosts.resolve t.address t.extent = .ok (r, t.address.toNat - r.base.toNat) ∧
        ∀ job, (freshJob index t).Streams job → job.Inside t f.hosts r := by
  unfold acceptTransfer at accepted
  split at accepted
  · cases accepted
  cases found : f.hosts.resolve t.address t.extent with
  | error e => rw [found] at accepted; cases accepted
  | ok place =>
    rw [found] at accepted
    have ⟨r, member, held, same⟩ := (HostMap.resolve_holds found).resolve_ok
    refine ⟨r, member, found.symm.trans same, fun job streams => ?_⟩
    have counted : t.totalBytes ≠ 0 ∧ t.totalBytes < UInt64.size := by
      unfold Transfer.byteCount at accepted
      split_ifs at accepted with narrow
      · refine ⟨fun none => ?_, narrow⟩
        rw [none] at accepted
        cases accepted
    have addressable := Job.Under.addressable disjoint member held
    have under := Job.Under.fresh addressable index counted.1 counted.2
    exact (under.streams addressable streams).inside disjoint member held

end FabricQueue
