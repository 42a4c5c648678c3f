import FabricQueue.Proofs.Journal
import FabricQueue.Proofs.Tiles

set_option autoImplicit false

namespace FabricQueue

namespace Plant

variable {p p' : Plant} {job : Job} {e : Endpoint} {address : UInt64} {want : Nat}

theorem exchange_cases (sound : p.fabric.tiles.Sound) (holds : p.fabric.hosts.Holds address want)
    (routed : p.fabric.tiles.hasRoute e = true) (positive : 0 < want) :
    (p.fabric.tiles.Barred e ∧ exchange e address want p = .ok 0 p) ∨
      ∃ moved p', exchange e address want p = .ok moved p' ∧ 0 < moved ∧ moved ≤ want ∧
        p.Beside p' ∧ p'.fabric.tiles.hasRoute e = true ∧ p'.fabric.tiles.Sound := by
  obtain ⟨r, _, inside, found⟩ := holds.resolve_ok
  obtain ⟨moved, p', done, bound, beside, routed'⟩ := exchange_routed holds routed
  suffices cases : (p.fabric.tiles.Barred e ∧ exchange e address want p = .ok 0 p) ∨
      0 < moved ∧ p'.fabric.tiles.Sound from
    cases.imp id fun after => ⟨moved, p', done, after.1, bound, beside, routed', after.2⟩
  obtain ⟨fabric, memory⟩ := p
  cases direction : e.direction with
  | hostToDevice =>
    have step := exchange_fill found inside direction
    rcases sound.fill_cases routed (memory.read (r.origin + (address.toNat - r.base.toNat)) want)
        (by rw [ByteStore.read_length]; exact positive) with
      ⟨barred, filled⟩ | ⟨count, tiles, filled, more, after⟩ <;>
      simp only [onTiles, filled] at step
    · exact .inl ⟨barred, step⟩
    · cases done.symm.trans step
      exact .inr ⟨more, after⟩
  | deviceToHost =>
    have step := exchange_drain found inside direction
    rcases sound.drain_cases routed positive with
      ⟨barred, drained⟩ | ⟨bytes, tiles, drained, more, after⟩ <;>
      simp only [drained] at step
    · exact .inl ⟨barred, step⟩
    · cases done.symm.trans step
      exact .inr ⟨more, after⟩

theorem advance_quiet {moved : Nat} {left : Option Job} (hosted : job.Hosted p.fabric.hosts)
    (narrow : job.addresses.length < UInt64.size) (sound : p.fabric.tiles.Sound)
    (routed : job.addresses ≠ [] → p.fabric.tiles.hasRoute job.endpoint = true)
    (advanced : advance job p = .ok (moved, left) p') :
    p'.fabric.tiles.Sound ∧ (moved = 0 → p' = p) ∧
      ∀ later ∈ left, p'.fabric.tiles.Barred later.endpoint := by
  obtain ⟨low, high, addressable, within, holds⟩ := hosted
  obtain ⟨bytes, left', q, ran, _, ⟨_, _, after, same⟩, _, stops⟩ := advance_steps
    (I := fun bytes q => p.Beside q ∧
      (job.addresses ≠ [] → q.fabric.tiles.hasRoute job.endpoint = true) ∧
      q.fabric.tiles.Sound ∧ (bytes = 0 → q = p))
    (S := fun q => q.fabric.tiles.Barred job.endpoint) within addressable narrow
    ⟨Beside.refl p, routed, sound, fun _ => rfl⟩ (by
      rintro bytes q address want ⟨beside, routed, sound, same⟩ asks
      rcases exchange_cases sound (beside.hosts ▸ holds address want asks.low asks.high)
          (routed asks.some_left) asks.some with
        ⟨barred, still⟩ | ⟨more, q', done, positive, bound, further, kept, after⟩
      · exact ⟨0, q, still, Nat.zero_le _, ⟨beside, routed, sound, same⟩, fun _ => barred⟩
      · exact ⟨more, q', done, bound, ⟨beside.trans further, fun _ => kept, after, by omega⟩,
          by omega⟩)
  cases advanced.symm.trans ran
  refine ⟨after, same, ?_⟩
  rintro later ⟨⟩
  obtain ⟨resumes, _, barred⟩ := stops
  exact resumes.endpoint ▸ barred

def Waits (tiles : TileArray) (jobs : List Job) : Prop :=
  ∀ job ∈ jobs.head?, tiles.Barred job.endpoint

theorem streamJobs_quiet (jobs : List Job) {tally after : Tally} {left : List Job}
    (hosted : ∀ job ∈ jobs, job.Hosted p.fabric.hosts)
    (narrow : tally.bytes + (jobs.flatMap Job.addresses).length < UInt64.size)
    (sound : p.fabric.tiles.Sound) (streamed : streamJobs jobs tally p = .ok (left, after) p') :
    p'.fabric.tiles.Sound ∧ (after.moved = false → tally.moved = false ∧ p' = p ∧
      Waits p'.fabric.tiles left) := by
  refine streamJobs_advances (R := fun _ tally p left after p' => p.fabric.tiles.Sound →
    p'.fabric.tiles.Sound ∧ (after.moved = false → tally.moved = false ∧ p' = p ∧
      Waits p'.fabric.tiles left)) ?none ?stall ?finish ?fail hosted narrow streamed sound
  case none => exact fun _ _ sound => ⟨sound, fun still => ⟨still, rfl, nofun⟩⟩
  case stall =>
    intro job last later tally p p' advances sound
    obtain ⟨sound', same, waits⟩ :=
      advance_quiet advances.hosted advances.narrow sound advances.routed advances.ran
    refine ⟨sound', fun quiet => ?_⟩
    obtain ⟨before, none⟩ := Tally.add_moved quiet
    exact ⟨before, same none, waits⟩
  case finish =>
    intro job later left tally after p p₁ p' advances rest sound
    obtain ⟨sound₁, same, _⟩ :=
      advance_quiet advances.hosted advances.narrow sound advances.routed advances.ran
    obtain ⟨sound', quiet'⟩ := rest sound₁
    refine ⟨sound', fun quiet => ?_⟩
    obtain ⟨still, same', waits⟩ := quiet' quiet
    obtain ⟨before, none⟩ := Tally.add_moved still
    exact ⟨before, same'.trans (same none), waits⟩
  case fail => exact fun _ _ _ rest sound => rest sound

theorem streamFifos_quiet (fifos : List Fifo) {tally after : Tally} {left : List Fifo}
    (hosted : ∀ job ∈ fifos.flatMap (·.jobs), job.Hosted p.fabric.hosts)
    (queued : ∀ q ∈ fifos, q.Queued)
    (narrow : tally.bytes + ((fifos.flatMap (·.jobs)).flatMap Job.addresses).length < UInt64.size)
    (sound : p.fabric.tiles.Sound) (streamed : streamFifos fifos tally p = .ok (left, after) p') :
    p'.fabric.tiles.Sound ∧ (after.moved = false → tally.moved = false ∧ p' = p ∧
      ∀ q ∈ left, Waits p.fabric.tiles q.jobs) := by
  refine streamFifos_advances (R := fun _ tally p left after p' => p.fabric.tiles.Sound →
    p'.fabric.tiles.Sound ∧ (after.moved = false → tally.moved = false ∧ p' = p ∧
      ∀ q ∈ left, Waits p.fabric.tiles q.jobs)) ?none ?cons hosted queued narrow streamed sound
  case none => exact fun _ _ sound => ⟨sound, fun still => ⟨still, rfl, nofun⟩⟩
  case cons =>
    intro fifo rest left jobs tally tally₁ after p p₁ p' mine fits ran _ others sound
    obtain ⟨sound₁, quiet₁⟩ := streamJobs_quiet fifo.jobs mine fits sound ran
    obtain ⟨sound', quiet'⟩ := others sound₁
    refine ⟨sound', fun still => ?_⟩
    obtain ⟨none, same₂, waits₂⟩ := quiet' still
    obtain ⟨before, same₁, waits₁⟩ := quiet₁ none
    subst same₁
    exact ⟨before, same₂, List.forall_mem_cons.mpr ⟨waits₁, waits₂⟩⟩

end Plant

end FabricQueue
