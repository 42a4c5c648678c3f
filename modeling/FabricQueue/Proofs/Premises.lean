import FabricQueue.Proofs.Journal

set_option autoImplicit false

namespace FabricQueue

def Fixes {ε σ α β : Type} (part : σ → β) (x : EStateM ε σ α) : Prop :=
  ∀ s, match x s with
    | .ok _ s' => part s' = part s
    | .error _ s' => part s' = part s

namespace Fixes

variable {ε σ α β γ : Type} {part : σ → γ}

theorem bind {x : EStateM ε σ α} {next : α → EStateM ε σ β} (first : Fixes part x)
    (rest : ∀ a, Fixes part (next a)) : Fixes part (x >>= next) := by
  intro s
  have before := first s
  cases ran : x s with
  | error failure s' =>
    rw [ran] at before
    rw [bind_error ran]
    exact before
  | ok a s' =>
    rw [ran] at before
    rw [bind_ok ran]
    have after := rest a s'
    split <;> rename_i ended <;> rw [ended] at after <;> exact after.trans before

theorem ok {x : EStateM ε σ α} (fixes : Fixes part x) {s s' : σ} {a : α} (done : x s = .ok a s') :
    part s' = part s := by
  have after := fixes s
  rw [done] at after
  exact after

theorem of_ok {x : EStateM ε σ α} (ends : ∀ s, ∃ a s', x s = .ok a s' ∧ part s' = part s) :
    Fixes part x := by
  intro s
  obtain ⟨a, s', done, same⟩ := ends s
  rw [done]
  exact same

theorem pure (a : α) : Fixes part (Pure.pure a : EStateM ε σ α) :=
  fun _ => rfl

theorem get : Fixes part (MonadState.get : EStateM ε σ σ) :=
  fun _ => rfl

theorem throw (failure : ε) : Fixes part (MonadExcept.throw failure : EStateM ε σ α) :=
  fun _ => rfl

theorem lifted (x : Except Failure α) : Fixes part (lift x : EStateM Failure σ α) := by
  intro s
  cases x <;> rfl

theorem liftedError (x : Except Error α) : Fixes part (liftError x : EStateM Failure σ α) := by
  intro s
  cases x <;> rfl

theorem piece {δ : Type} {x : EStateM ε σ α} (fixes : Fixes part x) (change : γ → δ) :
    Fixes (fun s => change (part s)) x := by
  intro s
  have after := fixes s
  split <;> rename_i ended <;> rw [ended] at after <;> exact congrArg change after

theorem mapped {x : EStateM ε σ α} (change : α → β) (fixes : Fixes part x) :
    Fixes part (change <$> x) := by
  intro s
  have after := fixes s
  change match (EStateM.map change x) s with | .ok _ _ => _ | .error _ _ => _
  cases ran : x s <;> rw [ran] at after <;> simp only [EStateM.map, ran] <;> exact after

end Fixes

namespace Region

variable {α γ : Type} {part : Memory → γ}

theorem access_fixes (r : Region) (offset len alignment : Nat) {use : Nat → Memory → α × Memory}
    (keeps : ∀ start m, part (use start m).2 = part m) :
    Fixes part (r.access offset len alignment use) := by
  intro m
  unfold access
  cases r.locate offset len alignment with
  | error failure => rfl
  | ok start => exact keeps start m

theorem read64_fixes (r : Region) (offset : Nat) : Fixes part (r.read64 offset) :=
  r.access_fixes _ _ _ fun _ _ => rfl

theorem write64_fixes (r : Region) (offset : Nat) (value : UInt64) :
    Fixes ByteStore.size (r.write64 offset value) :=
  r.access_fixes _ _ _ fun _ _ => ByteStore.size_write64 _ _ _

theorem readRecord_fixes (r : Region) (slot : Nat) : Fixes part (r.readRecord slot) := by
  unfold readRecord
  iterate 8 refine (r.read64_fixes _).bind fun _ => ?_
  exact Fixes.pure _

end Region

namespace Consumer

variable (c : Consumer) (index : UInt64) {γ : Type} {part : Memory → γ}

theorem published_fixes : Fixes part c.published :=
  (c.region.read64_fixes _).mapped _

theorem fetch_fixes : Fixes part (c.fetch index) := by
  unfold fetch
  refine (c.region.read64_fixes _).bind fun word => ?_
  split
  · exact (c.region.readRecord_fixes _).bind fun _ => Fixes.pure _
  · exact Fixes.pure _

theorem retire_fixes : Fixes ByteStore.size (c.retire index) := by
  unfold retire
  refine (c.region.read64_fixes _).bind fun readIndex => ?_
  have rest : Fixes ByteStore.size (do
      c.region.setHeader (c.slot index) Header.pending
      c.region.setSignal (c.slot index) signalDone
      let next ← lift (addWord index 1)
      c.region.write64 Layout.readIndexAt next) :=
    ((c.region.read64_fixes _).bind fun _ => c.region.write64_fixes _ _).bind fun _ =>
      (c.region.write64_fixes _ _).bind fun _ => (Fixes.lifted _).bind fun _ =>
        c.region.write64_fixes _ _
  split
  · exact (Fixes.throw _).bind fun _ => rest
  · exact rest

end Consumer

namespace Fabric

variable {f f' : Fabric} {progress : Progress}

theorem push_premises (f : Fabric) (job : Job) :
    (f.push job).consumer = f.consumer ∧ (f.push job).hosts = f.hosts ∧
      (f.push job).tiles = f.tiles := by
  unfold push
  split <;> exact ⟨rfl, rfl, rfl⟩

theorem accept_premises {index : UInt64} {record : Record}
    (accepted : f.accept index record = .ok (progress, f')) :
    f'.consumer = f.consumer ∧ f'.hosts = f.hosts ∧ f'.tiles = f.tiles := by
  unfold accept at accepted
  split at accepted
  · cases accepted; exact ⟨rfl, rfl, rfl⟩
  · cases accepted; exact ⟨rfl, rfl, rfl⟩
  · cases accepted; exact ⟨rfl, rfl, rfl⟩
  · unfold acceptTransfer at accepted
    split at accepted
    · cases accepted; exact ⟨rfl, rfl, rfl⟩
    · split at accepted
      · cases accepted; exact ⟨rfl, rfl, rfl⟩
      · split at accepted
        · cases accepted
        · cases accepted; exact ⟨rfl, rfl, rfl⟩
        · cases accepted; exact push_premises _ _

end Fabric

namespace Plant

def premises (p : Plant) : Consumer × HostMap × Nat :=
  (p.fabric.consumer, p.fabric.hosts, p.memory.size)

def bearings (p : Plant) : UInt64 × Consumer × HostMap × Nat :=
  (p.fabric.nextFetch, p.premises)

def ground (p : Plant) : Consumer × HostMap × TileArray × Memory :=
  (p.fabric.consumer, p.fabric.hosts, p.fabric.tiles, p.memory)

variable {α γ : Type} {part : Plant → γ}

theorem fixes_iff {x : Work α} : Fixes part x ↔ ∀ p, part (after (x p)) = part p := by
  refine forall_congr' fun p => ?_
  cases x p <;> rfl

theorem onMemory_reads {use : Access α} (fixes : Fixes id use) : Fixes ground (onMemory use) := by
  rintro ⟨fabric, memory⟩
  have after := fixes memory
  simp only [onMemory]
  cases ran : use memory <;> rw [ran] at after <;>
    exact congrArg (fabric.consumer, fabric.hosts, fabric.tiles, ·) after

theorem onMemory_fixes {use : Access α} (fixes : Fixes ByteStore.size use) :
    Fixes bearings (onMemory use) := by
  rintro ⟨fabric, memory⟩
  have after := fixes memory
  simp only [onMemory]
  cases ran : use memory <;> rw [ran] at after <;> simp only [bearings, premises, after]

theorem onMemory_spares (use : Access α)
    (keeps : ∀ f m m', part ⟨f, m'⟩ = part ⟨f, m⟩) :
    Fixes part (onMemory use) := by
  rintro ⟨fabric, memory⟩
  simp only [onMemory]
  cases use memory with
  | ok a later => exact keeps fabric memory later
  | error failure later => exact keeps fabric memory later

theorem onTiles_fixes (use : TileArray → Except StateFault (α × TileArray))
    (keeps : ∀ f m tiles, part ⟨{ f with tiles }, m⟩ = part ⟨f, m⟩) :
    Fixes part (onTiles use) := by
  rintro ⟨fabric, memory⟩
  simp only [onTiles]
  cases use fabric.tiles with
  | ok result => exact keeps fabric memory result.2
  | error fault => rfl

theorem update_fixes {change : Fabric → Fabric}
    (keeps : ∀ f m, part ⟨change f, m⟩ = part ⟨f, m⟩) :
    Fixes part (update change) :=
  fun p => keeps p.fabric p.memory

theorem attempt_fixes {x : Work α} (fixes : Fixes part x) : Fixes part (attempt x) := by
  intro p
  have after := fixes p
  unfold attempt
  cases ran : x p with
  | ok a p' => rw [ran] at after; exact after
  | error failure p' => rw [ran] at after; cases failure <;> exact after

theorem count_fixes (a b : Nat) : Fixes part (count a b) := by
  unfold count
  split
  · exact Fixes.pure _
  · exact Fixes.throw _

theorem exchange_fixes
    (stored : ∀ {α : Type} {use : Access α}, Fixes ByteStore.size use → Fixes part (onMemory use))
    (tiled : ∀ {α : Type} (use : TileArray → Except StateFault (α × TileArray)),
      Fixes part (onTiles use))
    (e : Endpoint) (address : UInt64) (want : Nat) : Fixes part (exchange e address want) := by
  refine Fixes.get.bind fun p => (Fixes.liftedError _).bind fun place => ?_
  cases e.direction with
  | hostToDevice =>
    exact (stored (place.1.access_fixes _ _ _ fun _ _ => rfl)).bind fun _ => tiled _
  | deviceToHost =>
    exact (tiled _).bind fun bytes => (stored (place.1.access_fixes _ _ _
      fun _ _ => ByteStore.size_write _ _ _)).bind fun _ => Fixes.pure _

theorem settleTally_fixes (tally : Tally)
    (keeps : ∀ f m bytesMoved faults inFlight,
      part ⟨{ f with status := { f.status with bytesMoved, faults }, inFlight }, m⟩ =
        part ⟨f, m⟩) : Fixes part (settleTally tally) := by
  have marks : Fixes part _ := .of_ok fun p =>
    ⟨_, _, settle_marks tally p, keeps p.fabric p.memory p.fabric.status.bytesMoved _ _⟩
  unfold settleTally
  split
  · exact Fixes.get.bind fun p => (count_fixes _ _).bind fun _ =>
      Fixes.bind (update_fixes fun f m => keeps f m _ f.status.faults f.inFlight) fun _ => marks
  · exact marks

section Streaming

-- Streaming changes no more of a plant than its exchanges do.
variable (spared : ∀ e address want, Fixes part (exchange e address want))
include spared

theorem beat_fixes (job : Job) : Fixes part (beat job) := by
  refine (Fixes.lifted _).bind fun taken => ?_
  cases taken with
  | none => exact Fixes.pure _
  | some next =>
    refine (spared _ _ _).bind fun moved => ?_
    split
    · exact Fixes.pure _
    split
    · exact (Fixes.lifted _).bind fun _ => Fixes.pure _
    · exact Fixes.pure _

theorem stream_fixes (moved beats : Nat) (job : Job) : Fixes part (stream moved beats job) := by
  induction beats generalizing moved job with
  | zero => exact Fixes.pure _
  | succ beats ih =>
    refine (beat_fixes spared job).bind fun result => ?_
    cases result with
    | finished => exact Fixes.pure _
    | stalled later => exact Fixes.pure _
    | moved more later => exact (count_fixes _ _).bind fun _ => ih _ _

theorem streamJobs_fixes (jobs : List Job) (tally : Tally) :
    Fixes part (streamJobs jobs tally) := by
  induction jobs generalizing tally with
  | nil => exact Fixes.pure _
  | cons job later ih =>
    refine (attempt_fixes (stream_fixes spared _ _ _)).bind fun result => ?_
    cases result with
    | error e => exact ih _
    | ok result =>
      refine (count_fixes _ _).bind fun bytes => ?_
      cases result.2 with
      | none => exact ih _
      | some job => exact Fixes.pure _

theorem streamFifos_fixes (fifos : List Fifo) (tally : Tally) :
    Fixes part (streamFifos fifos tally) := by
  induction fifos generalizing tally with
  | nil => exact Fixes.pure _
  | cons fifo rest ih =>
    exact (streamJobs_fixes spared _ _).bind fun _ => (ih _).bind fun _ => Fixes.pure _

theorem execute_spares (order : Order)
    (fifos : ∀ f m fifos, part ⟨{ f with fifos }, m⟩ = part ⟨f, m⟩)
    (tiles : ∀ f m tiles, part ⟨{ f with tiles }, m⟩ = part ⟨f, m⟩)
    (tally : ∀ f m bytesMoved faults inFlight,
      part ⟨{ f with status := { f.status with bytesMoved, faults }, inFlight }, m⟩ =
        part ⟨f, m⟩) : Fixes part (execute order) :=
  Fixes.get.bind fun _ => (streamFifos_fixes spared _ _).bind fun _ =>
    Fixes.bind (update_fixes fun f m => fifos f m _) fun _ =>
      (onTiles_fixes _ tiles).bind fun _ => (settleTally_fixes _ tally).bind fun _ => Fixes.pure _

end Streaming

theorem execute_fixes (order : Order) : Fixes bearings (execute order) :=
  execute_spares (exchange_fixes onMemory_fixes fun use => onTiles_fixes use fun _ _ _ => rfl) order
    (fun _ _ _ => rfl) (fun _ _ _ => rfl) fun _ _ _ _ _ => rfl

theorem fetchNext_fixes (count : Nat) : Fixes ground (fetchNext count) := by
  induction count with
  | zero => exact Fixes.pure _
  | succ count ih =>
    refine Fixes.get.bind fun p =>
      (onMemory_reads (p.fabric.consumer.fetch_fixes _)).bind fun record => ?_
    cases record with
    | none => exact Fixes.pure _
    | some record =>
      refine Fixes.bind ?_ fun progress =>
        Fixes.bind (update_fixes fun _ _ => rfl) fun _ => ih.bind fun _ => Fixes.pure _
      rintro ⟨fabric, memory⟩
      simp only [onFabric]
      cases accepted : fabric.accept p.fabric.nextFetch record with
      | error failure => rfl
      | ok result =>
        obtain ⟨consumer, hosts, tiles⟩ := Fabric.accept_premises accepted
        simp only [ground, consumer, hosts, tiles]

theorem retireFront_spares (flight : List InFlight)
    (stored : ∀ {α : Type} {use : Access α}, Fixes ByteStore.size use → Fixes part (onMemory use))
    (keeps : ∀ f m retired inFlight,
      part ⟨{ f with status := { f.status with retired }, inFlight }, m⟩ = part ⟨f, m⟩) :
    Fixes part (retireFront flight) := by
  induction flight with
  | nil => exact Fixes.pure _
  | cons e rest ih =>
    obtain ⟨index, progress⟩ := e
    cases progress with
    | done =>
      exact Fixes.bind (update_fixes fun f m => keeps f m _ f.inFlight) fun _ =>
        Fixes.get.bind fun p => (stored (p.fabric.consumer.retire_fixes _)).bind fun _ =>
          Fixes.bind (update_fixes fun f m => keeps f m f.status.retired _) fun _ =>
            ih.bind fun _ => Fixes.pure _
    | running => exact Fixes.pure _
    | faulted => exact Fixes.pure _

theorem retireFront_fixes (flight : List InFlight) : Fixes bearings (retireFront flight) :=
  retireFront_spares flight onMemory_fixes fun _ _ _ _ => rfl

theorem fetch_fixes : Fixes ground fetch :=
  Fixes.get.bind fun p => (onMemory_reads p.fabric.consumer.published_fixes).bind fun _ =>
    fetchNext_fixes _

theorem pass_fixes (order : Order) : Fixes premises (pass order) :=
  (fetch_fixes.piece fun ground => (ground.1, ground.2.1, ground.2.2.2.size)).bind fun _ =>
    ((execute_fixes order).piece Prod.snd).bind fun _ => Fixes.get.bind fun _ =>
      ((retireFront_fixes _).piece Prod.snd).bind fun _ => Fixes.pure _

theorem poll_premises (order : Order) (p : Plant) : (p.poll order).2.premises = p.premises := by
  have fixes := pass_fixes order p
  unfold poll
  split
  · cases ran : pass order p <;> rw [ran] at fixes <;> exact fixes
  · rfl

end Plant

end FabricQueue
