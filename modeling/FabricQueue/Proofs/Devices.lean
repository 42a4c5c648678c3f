import FabricQueue.Device
import FabricQueue.Proofs.Barrier
import FabricQueue.Proofs.Tiles

set_option autoImplicit false

namespace FabricQueue

namespace Region

variable {base : UInt64} {size : Nat} {m m' : Memory} {r : Region}

theorem allocate_ok {granted : Bool} (allocated : allocate granted base size m = .ok r m') :
    r = ⟨m.size, base, size, false⟩ ∧ m'.size = m.size + size := by
  unfold allocate at allocated
  obtain ⟨_, allocated⟩ := guard_cases allocated
  obtain ⟨_, allocated⟩ := guard_cases allocated
  obtain ⟨_, allocated⟩ := guard_cases allocated
  cases allocated
  exact ⟨rfl, ByteStore.size_extend m size⟩

theorem allocate_granted (base : UInt64) (m : Memory) (some : size ≠ 0) (short : size ≤ layoutLimit) :
    allocate true base size m = .ok ⟨m.size, base, size, false⟩ (m.extend size) := by
  unfold allocate
  rw [if_neg some, if_neg (Nat.not_lt.mpr short)]
  rfl

end Region

namespace Machine

-- The fabrics of a machine have numbers below the next one.
def Numbered (m : Machine) : Prop :=
  ∀ entry ∈ m.fabrics, entry.1 < m.nextFabric

structure SameFabrics (m m' : Machine) : Prop where
  fabrics : m'.fabrics = m.fabrics
  next : m'.nextFabric = m.nextFabric
  between : m'.between = m.between

variable {m m' m'' : Machine}

theorem SameFabrics.refl (m : Machine) : m.SameFabrics m :=
  ⟨rfl, rfl, rfl⟩

theorem SameFabrics.trans (first : m.SameFabrics m') (second : m'.SameFabrics m'') :
    m.SameFabrics m'' :=
  ⟨second.fabrics.trans first.fabrics, second.next.trans first.next,
    second.between.trans first.between⟩

theorem Numbered.of_same (numbered : m.Numbered) (same : m.SameFabrics m') : m'.Numbered := by
  rw [Numbered, same.fabrics, same.next]
  exact numbered

theorem onMemory_cases {α : Type} {use : Access α} {a : α} (done : onMemory use m = .ok a m') :
    ∃ memory, use m.memory = .ok a memory ∧ m' = { m with memory } := by
  simp only [onMemory] at done
  cases ran : use m.memory with
  | ok b memory => rw [ran] at done; cases done; exact ⟨memory, rfl, rfl⟩
  | error failure memory => rw [ran] at done; cases done

theorem onMemory_done {α : Type} {use : Access α} {a : α} {memory : Memory}
    (done : use m.memory = .ok a memory) : onMemory use m = .ok a { m with memory } := by
  simp only [onMemory, done]

theorem allocate_cases {base : UInt64} {size : Nat} {r : Region}
    (done : allocate base size m = .ok r m') :
    ∃ memory, Region.allocate (m.allocator m.requests size) base size m.memory = .ok r memory ∧
      m' = { m with memory, requests := m.requests + 1 } :=
  onMemory_cases done

theorem allocate_done (base : UInt64) {size : Nat} (some : size ≠ 0)
    (short : size ≤ Region.layoutLimit) (granted : m.allocator m.requests size = true) :
    allocate base size m = .ok ⟨m.memory.size, base, size, false⟩
      { m with memory := m.memory.extend size, requests := m.requests + 1 } := by
  have done := Region.allocate_granted base m.memory some short
  rw [← granted] at done
  exact @onMemory_done { m with requests := m.requests + 1 } _ _ _ _ done

theorem createQueue_done {r : Region} {capacity : Nat} {kind : QueueKind} {queue : Queue}
    {memory : Memory} (checked : Queue.check capacity r = .ok ())
    (laid : Queue.create m.nextQueueId capacity kind r m.memory = .ok queue memory) :
    createQueue r capacity kind m = .ok m.queues.size { m with
      memory, nextQueueId := m.nextQueueId + 1, queues := m.queues.push queue } := by
  have passed : liftError (Queue.check capacity r) m = .ok () m := by
    rw [checked]
    rfl
  let numbered : Machine := { m with nextQueueId := m.nextQueueId + 1 }
  have created : onMemory (Queue.create m.nextQueueId capacity kind r) numbered =
      .ok queue { numbered with memory } := onMemory_done laid
  exact (bind_ok passed).trans ((bind_ok rfl).trans ((bind_ok rfl).trans (bind_ok created)))

theorem createQueue_cases {r : Region} {capacity number : Nat} {kind : QueueKind}
    (created : createQueue r capacity kind m = .ok number m') :
    ∃ queue memory, Queue.create m.nextQueueId capacity kind r m.memory = .ok queue memory ∧
      m' = { m with
        memory, nextQueueId := m.nextQueueId + 1, queues := m.queues.push queue } ∧
      number = m.queues.size := by
  unfold createQueue at created
  obtain ⟨_, _, checked, created⟩ := bind_cases created
  obtain ⟨_, _, read, created⟩ := bind_cases created
  obtain ⟨_, _, counted, created⟩ := bind_cases created
  obtain ⟨queue, m₁, laid, created⟩ := bind_cases created
  have same : ∀ {x : Except Error Unit} {u : Unit} {t : Machine},
      liftError x m = .ok u t → t = m := by
    intro x u t done
    unfold liftError at done
    split at done <;> cases done
    rfl
  cases same checked
  cases read
  cases counted
  obtain ⟨memory, filled, rfl⟩ := onMemory_cases laid
  cases created
  exact ⟨queue, memory, filled, rfl, rfl⟩

theorem spawnFabric_cases {r : Region} {hosts : HostMap} {tiles : TileArray} {number : Nat}
    (spawned : spawnFabric r hosts tiles m = .ok number m') :
    ∃ fabric memory, Fabric.spawn r hosts tiles m.memory = .ok fabric memory ∧
      m' = { m with
        memory
        fabrics := m.fabrics ++ [(m.nextFabric, fabric)], nextFabric := m.nextFabric + 1 } ∧
      number = m.nextFabric := by
  unfold spawnFabric at spawned
  obtain ⟨fabric, m₁, ran, spawned⟩ := bind_cases spawned
  obtain ⟨memory, started, rfl⟩ := onMemory_cases ran
  cases spawned
  exact ⟨fabric, memory, started, rfl, rfl⟩

theorem spawnFabric_done {r : Region} {hosts : HostMap} {tiles : TileArray} {fabric : Fabric}
    {memory : Memory} (started : Fabric.spawn r hosts tiles m.memory = .ok fabric memory) :
    spawnFabric r hosts tiles m = .ok m.nextFabric { m with
      memory
      fabrics := m.fabrics ++ [(m.nextFabric, fabric)], nextFabric := m.nextFabric + 1 } :=
  bind_ok (onMemory_done started)

theorem Numbered.newest (numbered : m.Numbered) (fabric : Fabric) :
    (m.fabrics ++ [(m.nextFabric, fabric)]).lookup m.nextFabric = some fabric := by
  have old : m.fabrics.lookup m.nextFabric = none := by
    rw [List.lookup_eq_none_iff]
    intro entry member
    have below := numbered entry member
    simp only [ne_eq, bne_iff_ne]
    omega
  rw [List.lookup_append, old]
  simp

-- An operation that leaves the fabrics alone, also where it fails.
def Spares {α : Type} (x : Operation α) : Prop :=
  ∀ m, match x m with
    | .ok _ m' => m.SameFabrics m'
    | .error _ m' => m.SameFabrics m'

namespace Spares

variable {α β : Type}

theorem bind {x : Operation α} {next : α → Operation β} (first : Spares x)
    (rest : ∀ a, Spares (next a)) : Spares (x >>= next) := by
  intro m
  have before := first m
  cases ran : x m with
  | error failure m' =>
    rw [ran] at before
    rw [bind_error ran]
    exact before
  | ok a m' =>
    rw [ran] at before
    rw [bind_ok ran]
    have after := rest a m'
    split <;> rename_i ended <;> rw [ended] at after <;> exact before.trans after

theorem lifted (x : Except Error α) : Spares (liftError x) := by
  intro m
  cases x <;> exact SameFabrics.refl m

theorem memory (use : Access α) : Spares (Machine.onMemory use) := by
  intro m
  simp only [Machine.onMemory]
  cases use m.memory <;> exact ⟨rfl, rfl, rfl⟩

theorem mapped (path : String) (base : UInt64) (size : Nat) : Spares (mapWindow path base size) := by
  intro m
  unfold mapWindow
  cases m.file? path <;> simp only <;> split_ifs <;> exact SameFabrics.refl m

theorem queue (r : Region) (capacity : Nat) (kind : QueueKind) :
    Spares (createQueue r capacity kind) := by
  refine (lifted _).bind fun _ => Spares.bind ?_ fun m => Spares.bind ?_ fun _ =>
    (memory _).bind fun queue => ?_
  · exact fun m => SameFabrics.refl m
  · exact fun _ => ⟨rfl, rfl, rfl⟩
  · exact fun _ => ⟨rfl, rfl, rfl⟩

end Spares

end Machine

namespace Device

variable {c : Config} {d : Device} {m m' : Machine}

def site? (d : Device) (m : Machine) : Option Site := do
  let number ← d.fabric
  let queue ← m.queues[d.queue]?
  let fabric ← m.fabric? number
  return ⟨queue, ⟨fabric, m.memory⟩⟩

theorem site?_eq {number : Nat} {queue : Queue} {fabric : Fabric} (software : d.fabric = some number)
    (created : m.queues[d.queue]? = some queue) (spawned : m.fabric? number = some fabric) :
    d.site? m = some ⟨queue, ⟨fabric, m.memory⟩⟩ := by
  simp only [site?, software, Option.bind_eq_bind, Option.bind_some, created, spawned]
  rfl

structure Founded (d : Device) (s : Site) : Prop where
  shows : s.queue.Shows s.plant.memory {}
  fabric : s.plant.fabric = Fabric.started s.queue ⟨[d.staging]⟩ {} 0
  capacity : s.queue.capacity = d.config.queueCapacity.toNat
  apart : HostMap.Apart ⟨[d.staging]⟩ s.queue
  addressable : d.staging.base.toNat + d.staging.size < UInt64.size
  backed : d.staging.Backed s.plant.memory
  staging : d.staging.base = d.config.stagingBase ∧ d.staging.size = d.config.stagingSize.toNat

theorem validate_cases (valid : c.validate = .ok ()) :
    Layout.supports c.queueCapacity.toNat ∧ c.queueBase.toNat % Layout.alignment = 0 ∧
      c.stagingSize ≠ 0 ∧ c.queueBase.toNat + c.queueRegionSize < UInt64.size ∧
      c.stagingBase.toNat + c.stagingSize.toNat < UInt64.size := by
  unfold Config.validate Config.regionEnd at valid
  simp only [bind, Except.bind, throw, throwThe, MonadExceptOf.throw, pure, Except.pure] at valid
  split_ifs at valid
  all_goals simp_all

theorem openSoftware_founded (numbered : m.Numbered) (valid : c.validate = .ok ())
    (opened : openSoftware c m = .ok d m') :
    ∃ s, d.site? m' = some s ∧ d.Founded s ∧ d.config = c := by
  unfold openSoftware at opened
  obtain ⟨region, m₁, first, opened⟩ := bind_cases opened
  obtain ⟨staging, m₂, second, opened⟩ := bind_cases opened
  obtain ⟨number, m₃, created, opened⟩ := bind_cases opened
  obtain ⟨fabric, m₄, spawned, opened⟩ := bind_cases opened
  obtain ⟨memory₁, allocated₁, rfl⟩ := Machine.allocate_cases first
  obtain ⟨memory₂, allocated₂, rfl⟩ := Machine.allocate_cases second
  obtain ⟨rfl, size₁⟩ := Region.allocate_ok allocated₁
  obtain ⟨rfl, size₂⟩ := Region.allocate_ok allocated₂
  obtain ⟨queue, memory₃, laid, rfl, rfl⟩ := Machine.createQueue_cases created
  obtain ⟨f, memory₄, started, rfl, rfl⟩ := Machine.spawnFabric_cases spawned
  cases opened
  simp only at laid started size₁ size₂
  obtain ⟨shows, same, leaves⟩ := Queue.create_shows (by unfold Region.Backed; simp only; omega) laid
  have region : queue.region = ⟨m.memory.size, c.queueBase, c.queueRegionSize, false⟩ := by
    rw [same]; rfl
  have capacity : queue.capacity = c.queueCapacity.toNat := by rw [same]; rfl
  let hosts : HostMap := ⟨[⟨memory₁.size, c.stagingBase, c.stagingSize.toNat, false⟩]⟩
  have spawned := shows.spawn_ok hosts {}
  rw [region] at spawned
  cases started.symm.trans spawned
  refine ⟨⟨queue, ⟨Fabric.started queue hosts {} 0, memory₃⟩⟩, ?_, ?_, rfl⟩
  · exact site?_eq rfl Array.getElem?_push_size (numbered.newest _)
  · refine {
      shows, fabric := rfl, capacity, apart := ?_, addressable := (validate_cases valid).2.2.2.2
      backed := ?_, staging := ⟨rfl, rfl⟩ }
    · intro r member
      rw [List.mem_singleton.mp member, region, capacity]
      right
      simp only [size₁]
      exact Nat.le_refl _
    · have size := leaves.size
      unfold Region.Backed
      simp only
      omega

theorem openSoftware_allocated {region staging : Region} {m₁ m₂ : Machine}
    (valid : c.validate = .ok ())
    (first : Machine.allocate c.queueBase c.queueRegionSize m = .ok region m₁)
    (second : Machine.allocate c.stagingBase c.stagingSize.toNat m₁ = .ok staging m₂) :
    ∃ m', openSoftware c m = .ok ⟨c, .software, m.queues.size, staging, some m.nextFabric⟩ m' ∧
      m'.queues[m.queues.size]? =
        some (Queue.opened m.nextQueueId c.queueCapacity.toNat c.queueKind region) ∧
      (region.cells m'.memory).Fresh m.nextQueueId c.queueCapacity.toNat c.queueKind c.queueBase ∧
      region.Carries c.queueCapacity.toNat m'.memory := by
  obtain ⟨supported, aligned, _, narrow, _⟩ := validate_cases valid
  have size : c.queueRegionSize = 64 + c.queueCapacity.toNat * 64 := rfl
  obtain ⟨memory₁, allocated₁, rfl⟩ := Machine.allocate_cases first
  obtain ⟨memory₂, allocated₂, rfl⟩ := Machine.allocate_cases second
  obtain ⟨rfl, grown⟩ := Region.allocate_ok allocated₁
  obtain ⟨rfl, more⟩ := Region.allocate_ok allocated₂
  simp only at more
  let region : Region := ⟨m.memory.size, c.queueBase, c.queueRegionSize, false⟩
  have backed : region.Backed memory₂ := by
    simp only [Region.Backed, region]
    omega
  have checked : Queue.check c.queueCapacity.toNat region = .ok () := by
    unfold Queue.check
    rw [if_neg (by simp [supported]), if_neg (by simpa using aligned)]
    exact if_neg (Nat.lt_irrefl _)
  obtain ⟨memory₃, laid, fresh, carries, _⟩ := @Queue.create_cells m.nextQueueId
    c.queueCapacity.toNat c.queueKind region memory₂ backed checked
    (by simp only [Layout.headerSize, region]; omega)
  have shows := (Queue.create_shows backed laid).1
  let hosts : HostMap := ⟨[⟨memory₁.size, c.stagingBase, c.stagingSize.toNat, false⟩]⟩
  have spawned := shows.spawn_ok hosts {}
  let granted : Machine := { m with memory := memory₂, requests := m.requests + 1 + 1 }
  have created := @Machine.createQueue_done granted region _ c.queueKind _ _ checked laid
  let queues := m.queues.push (Queue.opened m.nextQueueId c.queueCapacity.toNat c.queueKind region)
  have started := @Machine.spawnFabric_done
    { granted with memory := memory₃, nextQueueId := m.nextQueueId + 1, queues } _ _ _ _ _ spawned
  exact ⟨_, (bind_ok first).trans ((bind_ok second).trans ((bind_ok created).trans
    (bind_ok started))), Array.getElem?_push_size, fresh, carries⟩

theorem openSoftware_ok (valid : c.validate = .ok ())
    (queue : m.allocator m.requests c.queueRegionSize = true)
    (staging : m.allocator (m.requests + 1) c.stagingSize.toNat = true)
    (short : c.stagingSize.toNat ≤ Region.layoutLimit) : ∃ d m', openSoftware c m = .ok d m' := by
  obtain ⟨supported, _, some, _⟩ := validate_cases valid
  have bounds := Layout.supports_bounds supported
  have size : c.queueRegionSize = 64 + c.queueCapacity.toNat * 64 := rfl
  have first := Machine.allocate_done c.queueBase (by omega)
    (by simp only [Region.layoutLimit, Nat.one_shiftLeft]; omega) queue
  have second := @Machine.allocate_done
    { m with memory := m.memory.extend c.queueRegionSize, requests := m.requests + 1 } c.stagingBase _
    (fun none => some (UInt64.toNat_inj.mp none)) short staging
  obtain ⟨m', opened, _⟩ := openSoftware_allocated valid first second
  exact ⟨_, m', opened⟩

theorem openHardware_backend (opened : openHardware c m = .ok d m') : d.backend = .hardware := by
  unfold openHardware at opened
  obtain ⟨_, _, _, opened⟩ := bind_cases opened
  obtain ⟨_, _, _, opened⟩ := bind_cases opened
  obtain ⟨_, _, _, opened⟩ := bind_cases opened
  cases opened
  rfl

theorem openHardware_spares (c : Config) : Machine.Spares (openHardware c) :=
  (Machine.Spares.mapped _ _ _).bind fun _ => (Machine.Spares.mapped _ _ _).bind fun _ =>
    (Machine.Spares.queue _ _ _).bind fun _ => fun m => Machine.SameFabrics.refl m

theorem openSoftware_backend (opened : openSoftware c m = .ok d m') : d.backend = .software := by
  unfold openSoftware at opened
  obtain ⟨_, _, _, opened⟩ := bind_cases opened
  obtain ⟨_, _, _, opened⟩ := bind_cases opened
  obtain ⟨_, _, _, opened⟩ := bind_cases opened
  obtain ⟨_, _, _, opened⟩ := bind_cases opened
  cases opened
  rfl

theorem ofConfig_software (m : Machine) (valid : c.validate = .ok ()) :
    ofConfig c .software m = openSoftware c m := by
  have passed : liftError (c.validate.mapError Error.invalidConfig) m = .ok () m := by
    rw [valid]
    rfl
  exact bind_ok passed

theorem ofConfig_ok (valid : c.validate = .ok ())
    (queue : m.allocator m.requests c.queueRegionSize = true)
    (staging : m.allocator (m.requests + 1) c.stagingSize.toNat = true)
    (short : c.stagingSize.toNat ≤ Region.layoutLimit) :
    ∃ d m', ofConfig c .software m = .ok d m' ∧ d.backend = .software := by
  obtain ⟨d, m', opened⟩ := openSoftware_ok valid queue staging short
  exact ⟨d, m', (ofConfig_software m valid).trans opened, openSoftware_backend opened⟩

theorem ofConfig_cases {selection : Selection} (opened : ofConfig c selection m = .ok d m')
    (software : d.backend = .software) :
    c.validate = .ok () ∧ ∃ m₁, m.SameFabrics m₁ ∧ openSoftware c m₁ = .ok d m' := by
  unfold ofConfig at opened
  obtain ⟨_, m₁, checked, chosen⟩ := bind_cases opened
  have valid : c.validate = .ok () ∧ m₁ = m := by
    unfold liftError at checked
    cases validated : c.validate with
    | error fault => rw [validated] at checked; cases checked
    | ok _ => rw [validated] at checked; cases checked; exact ⟨rfl, rfl⟩
  obtain ⟨valid, rfl⟩ := valid
  have hardware {d : Device} {m' : Machine} (opened : openHardware c m₁ = .ok d m')
      (software : d.backend = .software) : False := by
    rw [openHardware_backend opened] at software
    cases software
  refine ⟨valid, ?_⟩
  cases selection with
  | hardware => exact (hardware chosen software).elim
  | software => exact ⟨m₁, Machine.SameFabrics.refl m₁, chosen⟩
  | auto =>
    have same := openHardware_spares c m₁
    simp only at chosen
    split at chosen
    next _ m₂ refused =>
      rw [refused] at same
      exact ⟨m₂, same, chosen⟩
    · exact (hardware chosen software).elim

theorem ofConfig_founded {selection : Selection} (numbered : m.Numbered)
    (opened : ofConfig c selection m = .ok d m') (software : d.backend = .software) :
    ∃ s, d.site? m' = some s ∧ d.Founded s ∧ d.config = c := by
  obtain ⟨valid, m₁, same, spawned⟩ := ofConfig_cases opened software
  exact openSoftware_founded (numbered.of_same same) valid spawned

theorem ofConfig_fabrics {selection : Selection} (opened : ofConfig c selection m = .ok d m')
    (software : d.backend = .software) :
    ∃ fabric, d.fabric = some m.nextFabric ∧
      m'.fabrics = m.fabrics ++ [(m.nextFabric, fabric)] ∧ m'.between = m.between := by
  obtain ⟨_, m₁, same, opened⟩ := ofConfig_cases opened software
  unfold openSoftware at opened
  obtain ⟨region, m₂, first, opened⟩ := bind_cases opened
  obtain ⟨staging, m₃, second, opened⟩ := bind_cases opened
  obtain ⟨number, m₄, created, opened⟩ := bind_cases opened
  obtain ⟨_, m₅, spawned, opened⟩ := bind_cases opened
  obtain ⟨memory₁, _, rfl⟩ := Machine.allocate_cases first
  obtain ⟨memory₂, _, rfl⟩ := Machine.allocate_cases second
  obtain ⟨queue, memory₃, _, rfl, rfl⟩ := Machine.createQueue_cases created
  obtain ⟨fabric, memory₄, _, rfl, rfl⟩ := Machine.spawnFabric_cases spawned
  cases opened
  rw [← same.fabrics, ← same.next, ← same.between]
  exact ⟨fabric, rfl, rfl, rfl⟩

end Device

end FabricQueue
