import FabricQueue.Fabric.Pass
import FabricQueue.Proofs.Service
import FabricQueue.Proofs.Touches

set_option autoImplicit false

namespace FabricQueue

-- A packet that was admitted, by its index.
abbrev Admitted := UInt64 × Transfer

-- Bytes that packets ask to move.
def Admitted.bytes (packets : List Admitted) : Nat :=
  (packets.map (·.2.totalBytes)).sum

theorem Admitted.bytes_append (first second : List Admitted) :
    bytes (first ++ second) = bytes first + bytes second := by
  simp [bytes]

theorem Admitted.bytes_single (packet : Admitted) : bytes [packet] = packet.2.totalBytes := by
  simp [bytes]

namespace Fabric

variable {f : Fabric} {record : Record} {t : Transfer}

def admits (f : Fabric) (record : Record) : Option Transfer :=
  match Command.decode record with
  | .ok (.transfer t) =>
    if f.tiles.hasRoute t.endpoint && (f.hosts.resolve t.address t.extent).isOk then some t else none
  | _ => none

-- The job of a transfer that has just been admitted.
def freshJob (index : UInt64) (t : Transfer) : Job :=
  { index, endpoint := t.endpoint, chunks := t.chunks }

def Addressable (f : Fabric) : Prop :=
  ∀ r ∈ f.hosts.regions, r.base.toNat + r.size ≤ UInt64.size

theorem admits_cases (admitted : f.admits record = some t) :
    Command.decode record = .ok (.transfer t) ∧ f.tiles.hasRoute t.endpoint = true ∧
      ∃ place, f.hosts.resolve t.address t.extent = .ok place := by
  unfold admits at admitted
  split at admitted
  next other decoded =>
    split_ifs at admitted with accepted
    simp only [Option.some.injEq] at admitted
    subst admitted
    rw [Bool.and_eq_true] at accepted
    refine ⟨decoded, accepted.1, ?_⟩
    cases found : f.hosts.resolve other.address other.extent with
    | ok place => exact ⟨place, rfl⟩
    | error e => rw [found] at accepted; cases accepted.2
  · cases admitted

structure Notes (f f' : Fabric) (index : UInt64) : Prop where
  rest : f' = { f with status := f'.status }
  bytes : f'.status.bytesMoved = f.status.bytesMoved
  faults : f'.status.faults = f.status.faults ∨
    ∃ cause, f'.status.faults = f.status.faults ++ [⟨index, cause⟩]

theorem Notes.refl (f : Fabric) (index : UInt64) : f.Notes f index :=
  ⟨rfl, rfl, .inl rfl⟩

theorem Notes.kept {f' : Fabric} {index : UInt64} (notes : f.Notes f' index) :
    f.status.faults ⊆ f'.status.faults := by
  rcases notes.faults with same | ⟨cause, more⟩
  · rw [same]
    exact List.Subset.refl _
  · rw [more]
    exact List.subset_append_left _ _

theorem accept_other (index : UInt64) (other : f.admits record = none) :
    ∃ progress f', f.accept index record = .ok (progress, f') ∧ f.Notes f' index := by
  unfold accept
  split
  · exact ⟨_, _, rfl, rfl, rfl, .inr ⟨_, rfl⟩⟩
  · exact ⟨_, _, rfl, rfl, rfl, .inl rfl⟩
  · exact ⟨_, _, rfl, rfl, rfl, .inl rfl⟩
  next t decoded =>
    unfold acceptTransfer
    cases routed : f.tiles.hasRoute t.endpoint with
    | false => exact ⟨_, _, rfl, rfl, rfl, .inr ⟨_, rfl⟩⟩
    | true =>
      cases found : f.hosts.resolve t.address t.extent with
      | error e => exact ⟨_, _, rfl, rfl, rfl, .inr ⟨_, rfl⟩⟩
      | ok place => simp [admits, decoded, routed, found, Except.isOk, Except.toBool] at other

theorem accept_admitted (index : UInt64) (admitted : f.admits record = some t) :
    f.accept index record =
      if t.totalBytes = 0 then .ok (.done, f)
      else if t.totalBytes < UInt64.size then .ok (.running, f.push (freshJob index t))
      else .error (.overflow .multiplication) := by
  obtain ⟨decoded, routed, place, found⟩ := admits_cases admitted
  unfold accept acceptTransfer Transfer.byteCount
  simp only [decoded, routed, found, Bool.not_true, Bool.false_eq_true, if_false]
  cases t.totalBytes with
  | zero => rfl
  | succ bytes => by_cases fits : bytes + 1 < UInt64.size <;> simp [fits, freshJob]

theorem admitted_hosted (index : UInt64) (addressable : f.Addressable)
    (admitted : f.admits record = some t) (moves : t.totalBytes ≠ 0) :
    (freshJob index t).Hosted f.hosts ∧ t.addresses.length = t.totalBytes := by
  obtain ⟨_, _, ⟨r, offset⟩, found⟩ := admits_cases admitted
  have contained : r ∈ f.hosts.regions ∧ r.contains t.address t.extent = true := by
    unfold HostMap.resolve at found
    split at found
    next first known =>
      cases found
      have inside := List.find?_some known
      exact ⟨List.mem_of_find?_eq_some known, inside⟩
    · cases found
  obtain ⟨above, below⟩ := Region.contains_iff.mp contained.2
  have inside : t.chunks.Within r.base.toNat (r.base.toNat + r.size) :=
    Transfer.chunks_within moves above (by omega)
  have bound := addressable r contained.1
  refine ⟨⟨_, _, bound, ⟨inside, nofun⟩, fun address want low high => ?_⟩,
    Transfer.addresses_length inside bound⟩
  exact ⟨r, contained.1, Region.contains_iff.mpr ⟨low, by omega⟩⟩

theorem admitted_empty (none : t.totalBytes = 0) : t.addresses = [] := by
  have runs : t.runs ≠ 0 := Nat.mul_ne_zero (Nat.mul_ne_zero t.inner.repeats_pos.ne'
    t.middle.repeats_pos.ne') t.outer.repeats_pos.ne'
  have run : t.run = 0 := by
    have zero := (Nat.mul_eq_zero.mp none).resolve_left runs
    exact UInt32.toNat_inj.mp zero
  simp [Transfer.addresses, Chunks.runs, Chunks.remaining, Transfer.chunks, run, Chunks.take]

theorem push_queued (job : Job) (queued : ∀ q ∈ f.fifos, q.Queued)
    (newest : ∀ other ∈ f.jobs, other.index < job.index) : ∀ q ∈ (f.push job).fifos, q.Queued := by
  have longer {q : Fifo} (member : q ∈ f.fifos) (same : q.endpoint = job.endpoint) :
      Fifo.Queued { q with jobs := q.jobs ++ [job] } := by
    refine ⟨List.pairwise_append.mpr ⟨(queued q member).sorted, List.pairwise_singleton _ _, ?_⟩, ?_⟩
    · intro other among last new
      rw [List.mem_singleton.mp new]
      exact newest other (List.mem_flatMap.mpr ⟨q, member, among⟩)
    · intro other among
      rcases List.mem_append.mp among with old | new
      · exact (queued q member).placed other old
      · rw [List.mem_singleton.mp new]; exact same.symm
  unfold push
  split
  · intro q member
    obtain ⟨old, among, rfl⟩ := List.mem_map.mp member
    split
    next same => exact longer among same
    · exact queued old among
  · intro q member
    rcases List.mem_append.mp member with old | new
    · exact queued q old
    · rw [List.mem_singleton.mp new]
      exact ⟨List.pairwise_singleton _ _, by simp⟩

end Fabric

namespace Plant

def arrivals : (count : Nat) → Plant → List Admitted
  | 0, _ => []
  | count + 1, p =>
    match onMemory (p.fabric.consumer.fetch p.fabric.nextFetch) p with
    | .ok (some record) p' =>
      (p.fabric.admits record).toList.map (p.fabric.nextFetch, ·) ++
        arrivals count ⟨{ p.fabric with nextFetch := p.fabric.nextFetch + 1 }, p'.memory⟩
    | _ => []

-- The transfers admitted in one pass.
def passArrivals (p : Plant) : List Admitted :=
  match onMemory p.fabric.consumer.published p with
  | .ok published p' => arrivals (published.toNat - p.fabric.nextFetch.toNat) p'
  | .error _ _ => []

end Plant

end FabricQueue
