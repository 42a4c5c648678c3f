import FabricQueue.Proofs.Cuts
import FabricQueue.Proofs.Premises
import FabricQueue.Proofs.Quiet

set_option autoImplicit false

namespace FabricQueue

inductive Crosses (hosts : HostMap) (touch : Touch) :
    Memory → TileArray → Memory → TileArray → Prop where
  | fill {m : Memory} {t t' : TileArray} {r : Region} (member : r ∈ hosts.regions)
      (low : r.base.toNat ≤ touch.address) (high : touch.address < r.base.toNat + r.size)
      (inward : touch.endpoint.direction = .hostToDevice)
      (filled : t.fill touch.endpoint [m.get (r.origin + (touch.address - r.base.toNat))] =
        .ok (1, t')) : Crosses hosts touch m t m t'
  | drain {m : Memory} {t t' : TileArray} {r : Region} {b : UInt8} (member : r ∈ hosts.regions)
      (low : r.base.toNat ≤ touch.address) (high : touch.address < r.base.toNat + r.size)
      (outward : touch.endpoint.direction = .deviceToHost)
      (drained : t.drain touch.endpoint 1 = .ok ([b], t')) :
      Crosses hosts touch m t (m.set (r.origin + (touch.address - r.base.toNat)) b) t'

inductive Replays (hosts : HostMap) : Touches → Memory → TileArray → Memory → TileArray → Prop where
  | none (m : Memory) (t : TileArray) : Replays hosts [] m t m t
  | cross {touch : Touch} {rest : Touches} {m m₁ m' : Memory} {t t₁ t' : TileArray}
      (first : Crosses hosts touch m t m₁ t₁) (later : Replays hosts rest m₁ t₁ m' t') :
      Replays hosts (touch :: rest) m t m' t'

namespace Replays

variable {hosts : HostMap} {touches more : Touches} {m m₁ m' : Memory} {t t₁ t' : TileArray}

theorem append (first : Replays hosts touches m t m₁ t₁) (second : Replays hosts more m₁ t₁ m' t') :
    Replays hosts (touches ++ more) m t m' t' := by
  induction first with
  | none => exact second
  | cross crosses _ ih => exact .cross crosses (ih second)

section Offers

open TileArray

variable {e : Endpoint} {r : Region} (member : r ∈ hosts.regions) (index : UInt64)

include member

theorem of_fill (inward : e.direction = .hostToDevice) {bytes : List UInt8} {moved : Moved}
    {address : Nat} (low : r.base.toNat ≤ address)
    (high : address + bytes.length ≤ r.base.toNat + r.size)
    (there : m.read (r.origin + (address - r.base.toNat)) bytes.length = bytes)
    (each : offerEach e bytes t = .ok moved) (whole : moved.count = bytes.length) :
    Replays hosts ((List.range' address bytes.length).map (Touch.mk e index)) m t m moved.array := by
  induction bytes generalizing address t moved with
  | nil =>
    cases each
    exact .none m t
  | cons byte rest ih =>
    rw [List.length_cons] at whole high there ⊢
    rw [ByteStore.read_succ, List.cons.injEq] at there
    obtain ⟨first, streamed, ⟨none, rfl⟩ | ⟨some, later, ended, rfl⟩⟩ := offerEach_cases each
    · simp only at whole
      omega
    have one : first.count = 1 :=
      Nat.le_antisymm (stream_le streamed) (Nat.not_lt.mp some)
    have filled : t.fill e [byte] = .ok (1, first.array) := by
      rw [stream, inward] at streamed
      obtain ⟨⟨count, array⟩, filled, rfl⟩ := except_map_iff.mp streamed
      rw [filled]
      exact congrArg (fun count => Except.ok (count, array)) one
    have inside : address < r.base.toNat + r.size := by omega
    have next : r.origin + (address + 1 - r.base.toNat) = r.origin + (address - r.base.toNat) + 1 := by
      omega
    have further := ih (show r.base.toNat ≤ address + 1 by omega) (by omega)
      (by rw [next]; exact there.2) ended (by
        simp only [Moved.behind] at whole
        omega)
    rw [List.range'_succ, List.map_cons]
    exact .cross (.fill member low inside inward (by rw [there.1]; exact filled)) further

theorem of_drain (outward : e.direction = .deviceToHost) {host : List UInt8} {moved : Moved}
    {address : Nat} (low : r.base.toNat ≤ address)
    (high : address + host.length ≤ r.base.toNat + r.size)
    (each : offerEach e host t = .ok moved) (whole : moved.count = host.length) :
    Replays hosts ((List.range' address host.length).map (Touch.mk e index)) m t
      (m.write (r.origin + (address - r.base.toNat)) moved.host) moved.array := by
  induction host generalizing address m t moved with
  | nil =>
    cases each
    exact .none m t
  | cons byte rest ih =>
    rw [List.length_cons] at whole high ⊢
    obtain ⟨first, streamed, ⟨none, rfl⟩ | ⟨some, later, ended, rfl⟩⟩ := offerEach_cases each
    · simp only at whole
      omega
    have one : first.count = 1 :=
      Nat.le_antisymm (stream_le streamed) (Nat.not_lt.mp some)
    obtain ⟨out, drained, shown⟩ : ∃ out, t.drain e 1 = .ok ([out], first.array) ∧
        first.host = [out] := by
      rw [stream, outward] at streamed
      obtain ⟨⟨bytes, array⟩, drained, rfl⟩ := except_map_iff.mp streamed
      obtain ⟨out, rfl⟩ := List.length_eq_one_iff.mp one
      exact ⟨out, drained, rfl⟩
    have inside : address < r.base.toNat + r.size := by omega
    have next : r.origin + (address + 1 - r.base.toNat) = r.origin + (address - r.base.toNat) + 1 := by
      omega
    have further := ih (m := m.set (r.origin + (address - r.base.toNat)) out)
      (show r.base.toNat ≤ address + 1 by omega) (by omega) ended (by
        simp only [Moved.behind] at whole
        omega)
    rw [next] at further
    rw [List.range'_succ, List.map_cons, Moved.behind, shown]
    exact .cross (.drain member low inside outward drained) further

end Offers

end Replays

namespace Plant

variable {p p' : Plant} {job : Job}

theorem exchange_replays {address : UInt64} {want moved : Nat} (sound : p.fabric.tiles.Sound)
    (holds : p.fabric.hosts.Holds address want)
    (routed : p.fabric.tiles.hasRoute job.endpoint = true) (positive : 0 < want)
    (done : exchange job.endpoint address want p = .ok moved p') :
    Replays p.fabric.hosts (job.touches (List.range' address.toNat moved)) p.memory p.fabric.tiles
      p'.memory p'.fabric.tiles := by
  obtain ⟨r, member, inside, found⟩ := holds.resolve_ok
  obtain ⟨low, high⟩ := Region.contains_iff.mp inside
  obtain ⟨fabric, memory⟩ := p
  simp only at sound routed member ⊢
  cases direction : job.endpoint.direction with
  | hostToDevice =>
    rw [exchange_fill found inside direction] at done
    have length := ByteStore.read_length memory (r.origin + (address.toNat - r.base.toNat)) want
    obtain ⟨after, streamed, each⟩ := TileArray.stream_each sound routed
      (List.ne_nil_of_length_pos (length.symm ▸ positive))
    have bound := TileArray.stream_le streamed
    rw [length] at bound
    rw [ByteStore.take_read memory _ bound] at each
    rw [TileArray.stream, direction] at streamed
    obtain ⟨⟨count, tiles⟩, filled, rfl⟩ := except_map_iff.mp streamed
    change count ≤ want at bound
    change TileArray.offerEach _ (memory.read _ count) _ = .ok ⟨count, _, tiles⟩ at each
    simp only [onTiles, filled] at done
    cases done
    have replays := Replays.of_fill member job.index direction low
      (by rw [ByteStore.read_length]; omega)
      (by rw [ByteStore.read_length]) each (ByteStore.read_length _ _ _).symm
    rwa [ByteStore.read_length] at replays
  | deviceToHost =>
    rw [exchange_drain found inside direction] at done
    have some : List.replicate want (0 : UInt8) ≠ [] := by
      simp only [ne_eq, List.replicate_eq_nil_iff]
      omega
    obtain ⟨after, streamed, each⟩ := TileArray.stream_each sound routed some
    have bound := TileArray.stream_le streamed
    rw [TileArray.stream, direction] at streamed
    obtain ⟨⟨bytes, tiles⟩, drained, rfl⟩ := except_map_iff.mp streamed
    rw [List.length_replicate] at drained bound
    change bytes.length ≤ want at bound
    simp only [drained] at done
    cases done
    simp only [List.take_left', List.take_replicate, Nat.min_eq_left bound] at each
    have replays := Replays.of_drain (m := memory) member job.index direction low
      (by rw [List.length_replicate]; omega) each List.length_replicate.symm
    rwa [List.length_replicate] at replays

theorem advance_replays {moved : Nat} {left : Option Job} (hosted : job.Hosted p.fabric.hosts)
    (narrow : job.addresses.length < UInt64.size) (sound : p.fabric.tiles.Sound)
    (routed : job.addresses ≠ [] → p.fabric.tiles.hasRoute job.endpoint = true)
    (advanced : advance job p = .ok (moved, left) p') :
    Replays p.fabric.hosts (job.touches (advanceTouches job p)) p.memory p.fabric.tiles p'.memory
      p'.fabric.tiles := by
  obtain ⟨low, high, addressable, within, holds⟩ := hosted
  obtain ⟨bytes, left', q, ran, _, ⟨_, _, _, replays⟩, touched, _⟩ := advance_steps
    (I := fun bytes q => p.Beside q ∧
      (job.addresses ≠ [] → q.fabric.tiles.hasRoute job.endpoint = true) ∧
      q.fabric.tiles.Sound ∧ Replays p.fabric.hosts (job.touches (job.addresses.take bytes)) p.memory
        p.fabric.tiles q.memory q.fabric.tiles)
    (S := fun _ => True) within addressable narrow
    ⟨Beside.refl p, routed, sound, .none _ _⟩ (by
      rintro bytes q address want ⟨beside, routed, sound, replays⟩ asks
      have mine := beside.hosts ▸ holds address want asks.low asks.high
      obtain ⟨more, q', done, bound, further, kept, after⟩ : ∃ more q',
          exchange job.endpoint address want q = .ok more q' ∧ more ≤ want ∧ q.Beside q' ∧
            q'.fabric.tiles.hasRoute job.endpoint = true ∧ q'.fabric.tiles.Sound := by
        rcases exchange_cases sound mine (routed asks.some_left) asks.some with
          ⟨_, still⟩ | ⟨more, q', done, _, rest⟩
        · exact ⟨0, q, still, Nat.zero_le _, Beside.refl q, routed asks.some_left, sound⟩
        · exact ⟨more, q', done, rest⟩
      have again := exchange_replays sound mine (routed asks.some_left) asks.some done
      rw [beside.hosts, ← asks.take_eq bound] at again
      refine ⟨more, q', done, bound, ⟨beside.trans further, fun _ => kept, after, ?_⟩, fun _ => trivial⟩
      rw [List.take_add, Job.touches, List.map_append]
      exact replays.append again)
  cases advanced.symm.trans ran
  rwa [touched]

theorem streamJobs_replays (jobs : List Job) {tally after : Tally} {left : List Job}
    (hosted : ∀ job ∈ jobs, job.Hosted p.fabric.hosts)
    (narrow : tally.bytes + (jobs.flatMap Job.addresses).length < UInt64.size)
    (sound : p.fabric.tiles.Sound) (streamed : streamJobs jobs tally p = .ok (left, after) p') :
    Replays p.fabric.hosts (jobsTouches jobs p) p.memory p.fabric.tiles p'.memory
      p'.fabric.tiles := by
  refine streamJobs_advances (R := fun jobs _ p _ _ p' => p.fabric.tiles.Sound →
    Replays p.fabric.hosts (jobsTouches jobs p) p.memory p.fabric.tiles p'.memory
      p'.fabric.tiles) ?none ?stall ?finish ?fail hosted narrow streamed sound
  case none => exact fun _ _ _ => .none _ _
  case stall =>
    intro job last later tally p p' advances sound
    have replays :=
      advance_replays advances.hosted advances.narrow sound advances.routed advances.ran
    simpa only [jobsTouches, advances.ran, List.append_nil] using replays
  case finish =>
    intro job later left tally after p p₁ p' advances others sound
    have replays :=
      advance_replays advances.hosted advances.narrow sound advances.routed advances.ran
    have rest := others
      (advance_quiet advances.hosted advances.narrow sound advances.routed advances.ran).1
    rw [advances.beside.hosts] at rest
    simp only [jobsTouches, advances.ran]
    exact replays.append rest
  case fail =>
    intro job later left tally after p p' mine more unrouted rest sound
    obtain ⟨refused, still⟩ := advance_unrouted mine more unrouted
    simp only [jobsTouches, still, refused]
    exact rest sound

theorem streamFifos_replays (fifos : List Fifo) {tally after : Tally} {left : List Fifo}
    (hosted : ∀ job ∈ fifos.flatMap (·.jobs), job.Hosted p.fabric.hosts)
    (queued : ∀ q ∈ fifos, q.Queued)
    (narrow : tally.bytes + ((fifos.flatMap (·.jobs)).flatMap Job.addresses).length < UInt64.size)
    (sound : p.fabric.tiles.Sound) (streamed : streamFifos fifos tally p = .ok (left, after) p') :
    Replays p.fabric.hosts (fifosTouches fifos tally p) p.memory p.fabric.tiles p'.memory
      p'.fabric.tiles := by
  refine streamFifos_advances (R := fun fifos tally p _ _ p' => p.fabric.tiles.Sound →
    Replays p.fabric.hosts (fifosTouches fifos tally p) p.memory p.fabric.tiles p'.memory
      p'.fabric.tiles) ?none ?cons hosted queued narrow streamed sound
  case none => exact fun _ _ _ => .none _ _
  case cons =>
    intro fifo rest left jobs tally tally₁ after p p₁ p' mine fits ran beside others sound
    have first := streamJobs_replays fifo.jobs mine fits sound ran
    have second := others (streamJobs_quiet fifo.jobs mine fits sound ran).1
    rw [beside.hosts] at second
    simp only [fifosTouches, ran]
    exact first.append second

-- What a pass touches crosses byte by byte before it steps the kernels. A pass that cannot fetch
-- leaves the memory and the tiles alone.
def Faithful (order : Order) (p : Plant) : Prop :=
  match (fetch >>= fun _ => execute order) p with
  | .ok _ q => ∃ tiles, q.fabric.tiles = tiles.runKernels.2 ∧
      Replays p.fabric.hosts (passTouches order p) p.memory p.fabric.tiles q.memory tiles
  | .error _ q => passTouches order p = [] ∧ q.memory = p.memory ∧ q.fabric.tiles = p.fabric.tiles

theorem Journaled.faithful {admitted : List Admitted} {touches : Touches} {order : Order}
    (journaled : p.Journaled admitted touches) (visits : ∀ fifos, (order fifos).Perm fifos)
    (narrow : Admitted.bytes (admitted ++ passArrivals p) < UInt64.size)
    (sound : p.fabric.tiles.Sound) : p.Faithful order := by
  obtain ⟨fetching, _⟩ :=
    fetch_journaled journaled (by rw [Admitted.bytes_append] at narrow; omega)
  have ground := fetch_fixes p
  unfold Faithful passTouches
  cases fetched : fetch p with
  | error failure q =>
    rw [fetched] at ground
    rw [bind_error fetched]
    simp only [Plant.ground, Prod.mk.injEq] at ground
    exact ⟨rfl, ground.2.2.2, ground.2.2.1⟩
  | ok some q =>
    rw [fetched] at ground fetching
    change q.Journaled _ _ at fetching
    simp only [Plant.ground, Prod.mk.injEq] at ground
    obtain ⟨_, hosts, tiles, memory⟩ := ground
    obtain ⟨left, tally, q', _, _, streamed, _, _, _, _, _, fits⟩ :=
      fetching.streamFifos_ok visits narrow
    have replays := streamFifos_replays (order q.fabric.fifos) (fetching.visited_hosted visits)
      (fetching.visited_queued visits) (fetching.visited_narrow visits narrow)
      (tiles ▸ sound) streamed
    rw [bind_ok fetched, execute_ok streamed fun _ => fits]
    rw [hosts, tiles, memory] at replays
    exact ⟨_, rfl, replays⟩

end Plant

end FabricQueue
