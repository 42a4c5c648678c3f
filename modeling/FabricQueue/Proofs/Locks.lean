import FabricQueue.Proofs.Kernels
import FabricQueue.Proofs.Quiet

set_option autoImplicit false

namespace FabricQueue

namespace TileBuffers

variable {s : TileBuffers}

def fullCount (s : TileBuffers) : Nat :=
  (s.items.toList.filter (·.full)).length

theorem filter_modify {items : List TileBuffer} {i : Nat} {b : TileBuffer}
    (found : items[i]? = some b) (change : TileBuffer → TileBuffer) :
    ((items.modify i change).filter (·.full)).length + b.full.toNat =
      (items.filter (·.full)).length + (change b).full.toNat := by
  induction items generalizing i with
  | nil => cases found
  | cons first rest ih =>
    cases i with
    | zero =>
      cases found
      rw [List.modify_zero_cons, List.filter_cons, List.filter_cons]
      cases b.full <;> cases (change b).full <;> simp
    | succ i =>
      have rest := ih found
      rw [List.modify_succ_cons, List.filter_cons, List.filter_cons]
      cases first.full <;> simp only [Bool.false_eq_true, if_true, if_false, List.length_cons] <;>
        omega

theorem fullCount_modify {i : Nat} {b : TileBuffer} (found : s.items[i]? = some b)
    (change : TileBuffer → TileBuffer) : (s.modify i change).fullCount + b.full.toNat =
      s.fullCount + (change b).full.toNat := by
  rw [fullCount, modify, Array.toList_modify]
  exact filter_modify (by rw [Array.getElem?_toList]; exact found) change

theorem fullCount_modifyNamed {name : String} {i : Nat} {b : TileBuffer}
    (position : s.position? name = some i) (found : s.items[i]? = some b)
    (change : TileBuffer → TileBuffer) : (s.modifyNamed name change).fullCount + b.full.toNat =
      s.fullCount + (change b).full.toNat := by
  simp only [modifyNamed, position]
  exact fullCount_modify found change

theorem position?_name {name : String} {i : Nat} {b : TileBuffer}
    (position : s.position? name = some i) (found : s.items[i]? = some b) : b.name = name := by
  obtain ⟨below, named, _⟩ := Array.findIdx?_eq_some_iff_getElem.mp position
  rw [Array.getElem?_eq_getElem below] at found
  cases found
  exact beq_iff_eq.mp named

end TileBuffers

namespace AddKernel

variable {k k' : AddKernel} {s s' : TileBuffers}

-- Neither set adds a buffer to itself.
structure Distinct (k : AddKernel) : Prop where
  ping : k.ping.left ≠ k.ping.right
  pong : k.pong.left ≠ k.pong.right

theorem Distinct.current (distinct : k.Distinct) : k.current.left ≠ k.current.right := by
  unfold AddKernel.current
  split
  · exact distinct.pong
  · exact distinct.ping

theorem added_fullCount {names : AddBuffers} {i j n : Nat} {a b c : TileBuffer}
    (left : s.position? names.left = some i) (right : s.position? names.right = some j)
    (sum : s.position? names.sum = some n) (first : s.items[i]? = some a)
    (second : s.items[j]? = some b) (third : s.items[n]? = some c)
    (apart : i ≠ j ∧ i ≠ n ∧ j ≠ n) (total : List UInt32) :
    (added names total s).fullCount + a.full.toNat + b.full.toNat + c.full.toNat =
      s.fullCount + 1 := by
  obtain ⟨ij, im, jm⟩ := apart
  let load := fun b : TileBuffer => b.load total
  let release := fun b : TileBuffer => b.setFull false
  let s₁ := s.modifyNamed names.sum load
  let s₂ := s₁.modifyNamed names.left release
  let s₃ := s₂.modifyNamed names.right release
  have known₁ := s.position?_modifyNamed names.sum load fun _ => rfl
  have known₂ := s₁.position?_modifyNamed names.left release fun _ => rfl
  have known₃ := s₂.position?_modifyNamed names.right release fun _ => rfl
  have left₁ : s₁.position? names.left = some i := (known₁ _).trans left
  have right₂ : s₂.position? names.right = some j := (known₂ _).trans ((known₁ _).trans right)
  have sum₃ : s₃.position? names.sum = some n :=
    (known₃ _).trans ((known₂ _).trans ((known₁ _).trans sum))
  have get₁ := TileBuffers.get_modifyNamed sum load
  have get₂ := TileBuffers.get_modifyNamed left₁ release
  have get₃ := TileBuffers.get_modifyNamed right₂ release
  have first₁ : s₁.items[i]? = some a := by rw [get₁, if_neg im.symm, first]
  have second₂ : s₂.items[j]? = some b := by rw [get₂, if_neg ij, get₁, if_neg jm.symm, second]
  have third₃ : s₃.items[n]? = some (load c) := by
    rw [get₃, if_neg jm, get₂, if_neg im, get₁, if_pos rfl, third]
    rfl
  have loaded : s₁.fullCount + c.full.toNat = s.fullCount + c.full.toNat :=
    TileBuffers.fullCount_modifyNamed sum third load
  have once : s₂.fullCount + a.full.toNat = s₁.fullCount + 0 :=
    TileBuffers.fullCount_modifyNamed left₁ first₁ release
  have twice : s₃.fullCount + b.full.toNat = s₂.fullCount + 0 :=
    TileBuffers.fullCount_modifyNamed right₂ second₂ release
  have filled : (added names total s).fullCount + c.full.toNat = s₃.fullCount + 1 :=
    TileBuffers.fullCount_modifyNamed sum₃ third₃ fun b => b.setFull true
  omega

theorem step_fullCount (distinct : k.Distinct) (stepped : k.step s = some (k', s')) :
    k'.Distinct ∧ s'.fullCount + 1 = s.fullCount := by
  obtain ⟨a, b, c, left, right, sum, ⟨first, second, third⟩, rfl, rfl⟩ := step_some stepped
  refine ⟨⟨distinct.ping, distinct.pong⟩, ?_⟩
  obtain ⟨i, here, a_at⟩ := Option.bind_eq_some_iff.mp left
  obtain ⟨j, there, b_at⟩ := Option.bind_eq_some_iff.mp right
  obtain ⟨n, output, c_at⟩ := Option.bind_eq_some_iff.mp sum
  have ij : i ≠ j := by
    rintro rfl
    exact distinct.current ((TileBuffers.position?_name here a_at).symm.trans
      (TileBuffers.position?_name there a_at))
  have other {m : Nat} {b : TileBuffer} (full : b.full = true) (at' : s.items[m]? = some b) :
      m ≠ n := by
    rintro rfl
    cases at'.symm.trans c_at
    rw [third] at full
    cases full
  have locks := added_fullCount here there output a_at b_at c_at
    ⟨ij, other first a_at, other second b_at⟩ (List.zipWith (· + ·) a.words b.words)
  rw [first, second, third] at locks
  simp only [Bool.toNat_true, Bool.toNat_false] at locks
  omega

theorem stepAll_fullCount (kernels : List AddKernel) (distinct : ∀ k ∈ kernels, k.Distinct) :
    (∀ k ∈ (stepAll kernels s).2.1, k.Distinct) ∧
      (stepAll kernels s).2.2.fullCount + (stepAll kernels s).1.toNat ≤ s.fullCount := by
  induction kernels generalizing s with
  | nil => exact ⟨distinct, Nat.le_refl _⟩
  | cons k rest ih =>
    have mine := distinct k List.mem_cons_self
    have others := fun s => ih (s := s) fun k member => distinct k (List.mem_cons_of_mem _ member)
    unfold stepAll
    cases stepped : k.step s with
    | none =>
      obtain ⟨kept, locks⟩ := others s
      exact ⟨List.forall_mem_cons.mpr ⟨mine, kept⟩, locks⟩
    | some next =>
      obtain ⟨k', s'⟩ := next
      obtain ⟨mine', traded⟩ := step_fullCount mine stepped
      obtain ⟨kept, locks⟩ := others s'
      refine ⟨List.forall_mem_cons.mpr ⟨mine', kept⟩, ?_⟩
      change (stepAll rest s').2.2.fullCount + 1 ≤ s.fullCount
      omega

end AddKernel

namespace TileArray

variable {t t' : TileArray} {e : Endpoint}

theorem pass_fullCount {r : Route} {b : TileBuffer} (found : t.buffers.items[r.current]? = some b)
    (ended : Bool) (change : TileBuffer → TileBuffer) :
    (t.pass e r ended change).buffers.fullCount + b.full.toNat =
      t.buffers.fullCount + (change b).full.toNat := by
  rw [pass_buffers]
  exact TileBuffers.fullCount_modify found change

theorem Sound.fill_fullCount (sound : t.Sound) {bytes : List UInt8} {count : Nat}
    (positive : 0 < bytes.length) (filled : t.fill e bytes = .ok (count, t')) :
    t'.buffers.fullCount ≤ t.buffers.fullCount + count ∧ t'.kernels = t.kernels := by
  cases known : t.routeOf e with
  | none => rw [fill, known] at filled; cases filled
  | some r =>
    obtain ⟨b, found, inside⟩ := sound.current known
    cases lock : ready e.direction b with
    | false =>
      rw [fill_barred known found lock] at filled
      cases filled
      exact ⟨Nat.le_refl _, rfl⟩
    | true =>
      have more : 0 < min bytes.length b.room := Nat.lt_min.mpr ⟨positive, inside.room⟩
      rw [fill_ready known found lock more] at filled
      cases filled
      have turned := pass_fullCount (e := e) found (b.ends (min bytes.length b.room))
        fun b' => b'.fill (bytes.take (min bytes.length b.room))
      have single := Bool.toNat_le (b.fill (bytes.take (min bytes.length b.room))).full
      exact ⟨by omega, pass_kernels _ _ _ _ _⟩

theorem Sound.drain_fullCount (sound : t.Sound) {bytes : List UInt8} {limit : Nat}
    (positive : 0 < limit) (outbound : e.direction = .deviceToHost)
    (drained : t.drain e limit = .ok (bytes, t')) :
    t'.buffers.fullCount ≤ t.buffers.fullCount ∧ t'.kernels = t.kernels := by
  cases known : t.routeOf e with
  | none => rw [drain, known] at drained; cases drained
  | some r =>
    obtain ⟨b, found, inside⟩ := sound.current known
    cases lock : ready e.direction b with
    | false =>
      rw [drain_barred known found lock] at drained
      cases drained
      exact ⟨Nat.le_refl _, rfl⟩
    | true =>
      have more : 0 < min limit b.room := Nat.lt_min.mpr ⟨positive, inside.room⟩
      rw [drain_ready known found lock more] at drained
      cases drained
      have turned := pass_fullCount (e := e) found (b.ends (min limit b.room))
        fun b' => b'.drain (min limit b.room)
      have full : b.full = true := by rwa [outbound] at lock
      have single := Bool.toNat_le (b.drain (min limit b.room)).full
      rw [full, Bool.toNat_true] at turned
      exact ⟨by omega, pass_kernels _ _ _ _ _⟩

theorem runKernels_fullCount (distinct : ∀ k ∈ t.kernels, k.Distinct) :
    (∀ k ∈ t.runKernels.2.kernels, k.Distinct) ∧
      t.runKernels.2.buffers.fullCount + t.runKernels.1.toNat ≤ t.buffers.fullCount :=
  AddKernel.stepAll_fullCount t.kernels distinct

end TileArray

namespace Plant

variable {p p' : Plant} {job : Job} {e : Endpoint} {address : UInt64} {want moved : Nat}

abbrev fullCount (p : Plant) : Nat :=
  p.fabric.tiles.buffers.fullCount

theorem exchange_fullCount (sound : p.fabric.tiles.Sound)
    (holds : p.fabric.hosts.Holds address want) (positive : 0 < want)
    (done : exchange e address want p = .ok moved p') :
    p'.fullCount ≤ p.fullCount + moved ∧ p'.fabric.tiles.kernels = p.fabric.tiles.kernels := by
  obtain ⟨r, _, inside, found⟩ := holds.resolve_ok
  obtain ⟨fabric, memory⟩ := p
  cases direction : e.direction with
  | hostToDevice =>
    rw [exchange_fill found inside direction] at done
    simp only [onTiles] at done
    cases filled : fabric.tiles.fill e
        (memory.read (r.origin + (address.toNat - r.base.toNat)) want) with
    | error fault => rw [filled] at done; cases done
    | ok result =>
      rw [filled] at done
      cases done
      exact sound.fill_fullCount (by rw [ByteStore.read_length]; exact positive) filled
  | deviceToHost =>
    rw [exchange_drain found inside direction] at done
    cases drained : fabric.tiles.drain e want with
    | error fault => rw [drained] at done; cases done
    | ok result =>
      rw [drained] at done
      cases done
      exact (sound.drain_fullCount positive direction drained).imp Nat.le_add_right_of_le id

theorem exchange_barred (holds : p.fabric.hosts.Holds address want)
    (barred : p.fabric.tiles.Barred e) : exchange e address want p = .ok 0 p := by
  obtain ⟨r, _, inside, found⟩ := holds.resolve_ok
  obtain ⟨route, b, known, current, closed⟩ := barred
  obtain ⟨fabric, memory⟩ := p
  cases direction : e.direction with
  | hostToDevice =>
    rw [exchange_fill found inside direction]
    simp only [onTiles, TileArray.fill_barred known current closed]
  | deviceToHost =>
    rw [exchange_drain found inside direction, TileArray.drain_barred known current closed]
    rfl

theorem advance_locks {left : Option Job} (hosted : job.Hosted p.fabric.hosts)
    (narrow : job.addresses.length < UInt64.size) (sound : p.fabric.tiles.Sound)
    (routed : job.addresses ≠ [] → p.fabric.tiles.hasRoute job.endpoint = true)
    (advanced : advance job p = .ok (moved, left) p') :
    (p'.fullCount ≤ p.fullCount + moved ∧ p'.fabric.tiles.kernels = p.fabric.tiles.kernels) ∧
      ∀ later ∈ left, later.addresses ≠ [] := by
  obtain ⟨low, high, addressable, within, holds⟩ := hosted
  obtain ⟨bytes, left', q, ran, _, ⟨_, _, _, locks, kernels⟩, _, stops⟩ := advance_steps
    (I := fun bytes q => p.Beside q ∧
      (job.addresses ≠ [] → q.fabric.tiles.hasRoute job.endpoint = true) ∧
      q.fabric.tiles.Sound ∧ q.fullCount ≤ p.fullCount + bytes ∧
      q.fabric.tiles.kernels = p.fabric.tiles.kernels)
    (S := fun _ => True) within addressable narrow
    ⟨Beside.refl p, routed, sound, Nat.le_refl _, rfl⟩ (by
      rintro bytes q address want ⟨beside, routed, sound, locks, kernels⟩ asks
      have held := beside.hosts ▸ holds address want asks.low asks.high
      rcases exchange_cases sound held (routed asks.some_left) asks.some with
        ⟨_, still⟩ | ⟨more, q', done, _, bound, further, kept, after⟩
      · exact ⟨0, q, still, Nat.zero_le _, ⟨beside, routed, sound, locks, kernels⟩,
          fun _ => trivial⟩
      · obtain ⟨turned, same⟩ := exchange_fullCount sound held asks.some done
        exact ⟨more, q', done, bound, ⟨beside.trans further, fun _ => kept, after, by omega,
          same.trans kernels⟩, fun _ => trivial⟩)
  cases advanced.symm.trans ran
  refine ⟨⟨locks, kernels⟩, ?_⟩
  rintro later ⟨⟩
  obtain ⟨resumes, short, _⟩ := stops
  rw [resumes.addresses, ne_eq, List.drop_eq_nil_iff]
  omega

structure Pays (tally after : Tally) (p p' : Plant) : Prop where
  locks : p'.fullCount + tally.bytes ≤ p.fullCount + after.bytes
  kernels : p'.fabric.tiles.kernels = p.fabric.tiles.kernels
  more : tally.bytes ≤ after.bytes
  moved : after.moved = true → tally.moved = true ∨ tally.bytes < after.bytes

theorem Pays.refl (tally : Tally) (p : Plant) : Pays tally tally p p :=
  ⟨Nat.le_refl _, rfl, Nat.le_refl _, .inl⟩

theorem Pays.trans {tally tally₁ after : Tally} {p₁ : Plant} (first : Pays tally tally₁ p p₁)
    (second : Pays tally₁ after p₁ p') : Pays tally after p p' := by
  obtain ⟨locks, kernels, more, moved⟩ := first
  obtain ⟨locks', kernels', more', moved'⟩ := second
  refine ⟨by omega, kernels'.trans kernels, by omega, fun yes => ?_⟩
  rcases moved' yes with before | grown
  · exact (moved before).imp id fun grown => by omega
  · exact .inr (by omega)

theorem Pays.add (tally : Tally) (finished : List UInt64)
    (locks : p'.fullCount ≤ p.fullCount + moved ∧
      p'.fabric.tiles.kernels = p.fabric.tiles.kernels) :
    Pays tally { tally.add moved with finished } p p' := by
  refine ⟨by simp only [Tally.add]; omega, locks.2, by simp only [Tally.add]; omega,
    fun yes => ?_⟩
  simp only [Tally.add, Bool.or_eq_true, decide_eq_true_eq] at yes ⊢
  exact yes.imp id fun some => by omega

def Stuck (tiles : TileArray) (jobs : List Job) : Prop :=
  ∀ job ∈ jobs.head?, job.addresses ≠ [] ∧ tiles.Barred job.endpoint

theorem streamJobs_pays (jobs : List Job) {tally after : Tally} {left : List Job}
    (hosted : ∀ job ∈ jobs, job.Hosted p.fabric.hosts)
    (narrow : tally.bytes + (jobs.flatMap Job.addresses).length < UInt64.size)
    (sound : p.fabric.tiles.Sound) (streamed : streamJobs jobs tally p = .ok (left, after) p') :
    Pays tally after p p' ∧ ∀ job ∈ left.head?, job.addresses ≠ [] := by
  refine streamJobs_advances (R := fun _ tally p left after p' => p.fabric.tiles.Sound →
    Pays tally after p p' ∧ ∀ job ∈ left.head?, job.addresses ≠ [])
    ?none ?stall ?finish ?fail hosted narrow streamed sound
  case none => exact fun tally p _ => ⟨Pays.refl tally p, nofun⟩
  case stall =>
    intro job last later tally p p' advances sound
    obtain ⟨locks, unfinished⟩ :=
      advance_locks advances.hosted advances.narrow sound advances.routed advances.ran
    exact ⟨Pays.add tally tally.finished locks, unfinished⟩
  case finish =>
    intro job later left tally after p p₁ p' advances rest sound
    obtain ⟨sound₁, _, _⟩ :=
      advance_quiet advances.hosted advances.narrow sound advances.routed advances.ran
    obtain ⟨locks, _⟩ :=
      advance_locks advances.hosted advances.narrow sound advances.routed advances.ran
    obtain ⟨pays, left⟩ := rest sound₁
    exact ⟨(Pays.add tally _ locks).trans pays, left⟩
  case fail =>
    intro job later left tally after p p' _ _ _ rest sound
    obtain ⟨pays, left⟩ := rest sound
    exact ⟨⟨pays.locks, pays.kernels, pays.more, pays.moved⟩, left⟩

theorem streamFifos_pays (fifos : List Fifo) {tally after : Tally} {left : List Fifo}
    (hosted : ∀ job ∈ fifos.flatMap (·.jobs), job.Hosted p.fabric.hosts)
    (queued : ∀ q ∈ fifos, q.Queued)
    (narrow : tally.bytes + ((fifos.flatMap (·.jobs)).flatMap Job.addresses).length < UInt64.size)
    (sound : p.fabric.tiles.Sound) (streamed : streamFifos fifos tally p = .ok (left, after) p') :
    Pays tally after p p' ∧ ∀ q ∈ left, ∀ job ∈ q.jobs.head?, job.addresses ≠ [] := by
  refine streamFifos_advances (R := fun _ tally p left after p' => p.fabric.tiles.Sound →
    Pays tally after p p' ∧ ∀ q ∈ left, ∀ job ∈ q.jobs.head?, job.addresses ≠ [])
    ?none ?cons hosted queued narrow streamed sound
  case none => exact fun tally p _ => ⟨Pays.refl tally p, nofun⟩
  case cons =>
    intro fifo rest left jobs tally tally₁ after p p₁ p' mine fits ran _ others sound
    obtain ⟨sound₁, _⟩ := streamJobs_quiet fifo.jobs mine fits sound ran
    obtain ⟨pays, front⟩ := streamJobs_pays fifo.jobs mine fits sound ran
    obtain ⟨pays', fronts⟩ := others sound₁
    exact ⟨pays.trans pays', List.forall_mem_cons.mpr ⟨front, fronts⟩⟩

theorem advance_stuck (hosted : job.Hosted p.fabric.hosts)
    (narrow : job.addresses.length < UInt64.size) (more : job.addresses ≠ [])
    (barred : p.fabric.tiles.Barred job.endpoint) :
    ∃ last, advance job p = .ok (0, some last) p ∧ last.endpoint = job.endpoint ∧
      last.addresses = job.addresses := by
  obtain ⟨low, high, addressable, within, holds⟩ := hosted
  obtain ⟨bytes, left, q, ran, _, ⟨rfl, rfl⟩, _, stops⟩ := advance_steps
    (I := fun bytes q => bytes = 0 ∧ q = p) (S := fun _ => True) within addressable narrow
    ⟨rfl, rfl⟩ (by
      rintro bytes q address want ⟨none, same⟩ asks
      rw [same]
      exact ⟨0, p, exchange_barred (holds address want asks.low asks.high) barred, Nat.zero_le _,
        ⟨none, rfl⟩, fun _ => trivial⟩)
  cases left with
  | none => exact absurd (List.length_eq_zero_iff.mp stops.symm) more
  | some last =>
    obtain ⟨resumes, _, _⟩ := stops
    exact ⟨last, ran, resumes.endpoint, by rw [resumes.addresses, List.drop_zero]⟩

theorem streamJobs_stuck {jobs : List Job} (tally : Tally)
    (hosted : ∀ job ∈ jobs, job.Hosted p.fabric.hosts)
    (narrow : tally.bytes + (jobs.flatMap Job.addresses).length < UInt64.size)
    (stuck : Stuck p.fabric.tiles jobs) :
    ∃ left, streamJobs jobs tally p = .ok (left, tally) p ∧ Stuck p.fabric.tiles left := by
  cases jobs with
  | nil => exact ⟨[], rfl, nofun⟩
  | cons job later =>
    rw [List.flatMap_cons, List.length_append] at narrow
    obtain ⟨more, barred⟩ := stuck job rfl
    obtain ⟨last, advanced, endpoint, same⟩ :=
      advance_stuck (hosted job List.mem_cons_self) (by omega) more barred
    refine ⟨last :: later, ?_, ?_⟩
    · rw [streamJobs_stall advanced (by omega)]
      simp [Tally.add]
    · rintro _ ⟨⟩
      exact ⟨same ▸ more, endpoint ▸ barred⟩

theorem streamFifos_stuck (fifos : List Fifo) (tally : Tally)
    (hosted : ∀ job ∈ fifos.flatMap (·.jobs), job.Hosted p.fabric.hosts)
    (narrow : tally.bytes + ((fifos.flatMap (·.jobs)).flatMap Job.addresses).length < UInt64.size)
    (stuck : ∀ q ∈ fifos, Stuck p.fabric.tiles q.jobs) :
    ∃ left, streamFifos fifos tally p = .ok (left, tally) p ∧
      ∀ q ∈ left, Stuck p.fabric.tiles q.jobs := by
  induction fifos with
  | nil => exact ⟨[], rfl, nofun⟩
  | cons fifo rest ih =>
    rw [List.flatMap_cons] at hosted narrow
    rw [List.flatMap_append, List.length_append] at narrow
    obtain ⟨jobs, ran, front⟩ := streamJobs_stuck tally
      (fun job member => hosted job (List.mem_append_left _ member)) (by omega)
      (stuck fifo List.mem_cons_self)
    obtain ⟨left, further, fronts⟩ := ih
      (fun job member => hosted job (List.mem_append_right _ member)) (by omega)
        fun q member => stuck q (List.mem_cons_of_mem _ member)
    refine ⟨{ fifo with jobs } :: left, ?_, List.forall_mem_cons.mpr ⟨front, fronts⟩⟩
    rw [streamFifos]
    exact (bind_ok ran).trans (bind_ok further)

end Plant

end FabricQueue
