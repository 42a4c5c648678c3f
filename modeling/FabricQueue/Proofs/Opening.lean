import FabricQueue.Proofs.Refinement

set_option autoImplicit false

namespace FabricQueue

namespace Queue

theorem check_ok {capacity : Nat} {r : Region} (accepted : check capacity r = .ok ()) :
    Layout.supports capacity ∧ r.base.toNat % 64 = 0 ∧ Layout.regionSize capacity ≤ r.size := by
  unfold check at accepted
  split_ifs at accepted with unsupported misaligned small
  exact ⟨by simpa using unsupported, not_not.mp misaligned, Nat.not_lt.mp small⟩

theorem check_phase {capacity : Nat} {r : Region} (accepted : check capacity r = .ok ()) :
    r.phase % 8 = 0 := by
  have aligned := (check_ok accepted).2.1
  unfold Region.phase
  split <;> omega

theorem clearSlots_ok {r : Region} {capacity : Nat} {m : Memory} (slot count : Nat)
    (carries : r.Carries capacity m) (fits : slot + count ≤ capacity) :
    ∃ m', clearSlots r slot count m = .ok () m' ∧
      (∀ s, slot ≤ s → s < slot + count → (r.cells m').slots s = idle) ∧
      (∀ s < slot, (r.cells m').slots s = (r.cells m).slots s) ∧ (r.footprint capacity).Leaves m m' := by
  induction count generalizing slot m with
  | zero => exact ⟨m, rfl, fun s low high => by omega, fun _ _ => rfl, Region.Leaves.refl _ _⟩
  | succ count ih =>
    obtain ⟨m₁, written, changed, leaves⟩ :=
      carries.writeRecord_ok (by omega : slot < capacity) idle
    obtain ⟨m', done, cleared, kept, leaves'⟩ :=
      ih (slot + 1) (carries.of_leaves leaves) (by omega)
    refine ⟨m', (bind_ok written).trans done, fun s low high => ?_, fun s below => ?_,
      leaves.trans leaves'⟩
    · by_cases first : s = slot
      · rw [first, kept slot (by omega), changed, Cells.place_slot]
      · exact cleared s (by omega) (by omega)
    · rw [kept s (by omega), changed, Cells.place_other _ _ (by omega)]

def opened (id : UInt64) (capacity : Nat) (kind : QueueKind) (r : Region) : Queue :=
  { region := r, capacity, kind, id, staged := Array.replicate capacity none }

theorem opened_shows {id : UInt64} {capacity : Nat} {kind : QueueKind} {r : Region} {m : Memory}
    (supported : Layout.supports capacity) (carries : r.Carries capacity m)
    (size : (r.cells m).size = UInt64.ofNat capacity) (readIndex : (r.cells m).readIndex = 0)
    (writeIndex : (r.cells m).writeIndex = 0)
    (doorbell : (r.cells m).doorbell = Layout.noDoorbell)
    (idle : ∀ slot < capacity, (r.cells m).slots slot = idle) :
    (opened id capacity kind r).Shows m {} where
  supported := supported
  carries := carries
  room := Array.size_replicate
  sound := Log.empty_sound capacity
  size := size
  readIndex := by simp [opened, readIndex]
  writeIndex := writeIndex
  tail := rfl
  slots j window := by
    have bounds := Layout.supports_bounds supported
    change ((r.cells m).slots (j % capacity)).header = Header.pending
    rw [idle _ (Nat.mod_lt j (by omega))]
    rfl
  staged j window := by
    have below := Nat.mod_lt j (by have := Layout.supports_bounds supported; omega : 0 < capacity)
    simp [opened, stagedAt, Log.stagedEntry, below]
  doorbell := by
    simp only [opened, doorbell]
    rfl

end Queue

structure Cells.Fresh (c : Cells) (id : UInt64) (capacity : Nat) (kind : QueueKind)
    (base : UInt64) : Prop where
  kind : c.kind = UInt64.ofNat (kind.code.toNat + Queue.features <<< 32)
  baseAddress : c.baseAddress = UInt64.ofNat (base.toNat + Layout.headerSize)
  doorbell : c.doorbell = Layout.noDoorbell
  size : c.size = UInt64.ofNat capacity
  id : c.id = id
  readIndex : c.readIndex = 0
  writeIndex : c.writeIndex = 0
  slots : ∀ slot < capacity, c.slots slot = Queue.idle

namespace Queue

theorem create_cells {id : UInt64} {capacity : Nat} {kind : QueueKind} {r : Region} {m : Memory}
    (backed : r.Backed m) (checked : check capacity r = .ok ())
    (narrow : r.base.toNat + Layout.headerSize < UInt64.size) :
    ∃ m', create id capacity kind r m = .ok (opened id capacity kind r) m' ∧
      (r.cells m').Fresh id capacity kind r.base ∧ r.Carries capacity m' ∧
      (r.footprint capacity).Leaves m m' := by
  obtain ⟨supported, aligned, large⟩ := check_ok checked
  have carries : r.Carries capacity m := ⟨backed, large, check_phase checked⟩
  obtain ⟨m₀, cleared, idle, _, leaves₀⟩ := clearSlots_ok 0 capacity carries (by omega)
  have carries₀ := carries.of_leaves leaves₀
  obtain ⟨m₁, written₁, changed₁, leaves₁⟩ := carries₀.write_header Layout.typeAt
    (UInt64.ofNat (kind.code.toNat + features <<< 32)) (by decide) (by decide)
  have carries₁ := carries₀.of_leaves leaves₁
  obtain ⟨m₂, written₂, changed₂, leaves₂⟩ := carries₁.write_header Layout.baseAddressAt
    (UInt64.ofNat (r.base.toNat + Layout.headerSize)) (by decide) (by decide)
  have carries₂ := carries₁.of_leaves leaves₂
  obtain ⟨m₃, written₃, changed₃, leaves₃⟩ :=
    carries₂.write_header Layout.sizeAt (UInt64.ofNat capacity) (by decide) (by decide)
  have carries₃ := carries₂.of_leaves leaves₃
  obtain ⟨m₄, written₄, changed₄, leaves₄⟩ :=
    carries₃.write_header Layout.idAt id (by decide) (by decide)
  have carries₄ := carries₃.of_leaves leaves₄
  obtain ⟨m₅, written₅, changed₅, leaves₅⟩ :=
    carries₄.write_header Layout.readIndexAt 0 (by decide) (by decide)
  have carries₅ := carries₄.of_leaves leaves₅
  obtain ⟨m₆, written₆, changed₆, leaves₆⟩ :=
    carries₅.write_header Layout.writeIndexAt 0 (by decide) (by decide)
  have carries₆ := carries₅.of_leaves leaves₆
  obtain ⟨m₇, written₇, changed₇, leaves₇⟩ :=
    carries₆.write_header Layout.doorbellAt Layout.noDoorbell (by decide) (by decide)
  have leaves := (((((((leaves₀.trans leaves₁).trans leaves₂).trans leaves₃).trans
    leaves₄).trans leaves₅).trans leaves₆).trans leaves₇)
  rw [changed₆, changed₅, changed₄, changed₃, changed₂, changed₁] at changed₇
  refine ⟨m₇, ?created, ?fresh, carries.of_leaves leaves, leaves⟩
  case created =>
    unfold create
    rw [checked]
    refine (bind_ok rfl).trans ((bind_ok cleared).trans ((bind_ok written₁).trans ?_))
    rw [addWord_ok narrow]
    exact (bind_ok rfl).trans ((bind_ok written₂).trans ((bind_ok written₃).trans
      ((bind_ok written₄).trans ((bind_ok written₅).trans ((bind_ok written₆).trans
        (bind_ok written₇))))))
  case fresh =>
    rw [changed₇]
    exact ⟨rfl, rfl, rfl, rfl, rfl, rfl, rfl,
      fun slot below => idle slot (Nat.zero_le slot) (by omega)⟩

theorem create_ok {id : UInt64} {capacity : Nat} {kind : QueueKind} {r : Region} {m : Memory}
    (backed : r.Backed m) (checked : check capacity r = .ok ())
    (narrow : r.base.toNat + Layout.headerSize < UInt64.size) :
    ∃ m', create id capacity kind r m = .ok (opened id capacity kind r) m' ∧
      (opened id capacity kind r).Shows m' {} ∧ (r.footprint capacity).Leaves m m' := by
  obtain ⟨m', created, fresh, carries, leaves⟩ :=
    @create_cells id capacity kind r m backed checked narrow
  exact ⟨m', created, opened_shows (check_ok checked).1 carries fresh.size fresh.readIndex
    fresh.writeIndex fresh.doorbell fresh.slots, leaves⟩

theorem create_far {id : UInt64} {capacity : Nat} {kind : QueueKind} {r : Region} {q : Queue}
    {m m' : Memory} (wide : UInt64.size ≤ r.base.toNat + Layout.headerSize) :
    create id capacity kind r m ≠ .ok q m' := by
  intro created
  unfold create at created
  obtain ⟨_, _, _, created⟩ := bind_cases created
  obtain ⟨_, _, _, created⟩ := bind_cases created
  obtain ⟨_, _, _, created⟩ := bind_cases created
  rw [addWord_overflow wide] at created
  cases created

theorem create_accepted {id : UInt64} {capacity : Nat} {kind : QueueKind} {r : Region} {q : Queue}
    {m m' : Memory} (created : create id capacity kind r m = .ok q m') :
    check capacity r = .ok () ∧ r.base.toNat + Layout.headerSize < UInt64.size := by
  constructor
  · cases checked : check capacity r with
    | ok accepted => rfl
    | error cause =>
      unfold create at created
      rw [checked] at created
      cases created
  · by_contra wide
    exact create_far (Nat.not_lt.mp wide) created

theorem create_shows {id : UInt64} {capacity : Nat} {kind : QueueKind} {r : Region} {q : Queue}
    {m m' : Memory} (backed : r.Backed m) (created : create id capacity kind r m = .ok q m') :
    q.Shows m' {} ∧ q = opened id capacity kind r ∧ (r.footprint capacity).Leaves m m' := by
  obtain ⟨checked, narrow⟩ := create_accepted created
  obtain ⟨_, done, shows, leaves⟩ := @create_ok id capacity kind r m backed checked narrow
  cases created.symm.trans done
  exact ⟨shows, rfl, leaves⟩

theorem create_fresh {id : UInt64} {capacity : Nat} {kind : QueueKind} {r : Region} {q : Queue}
    {m m' : Memory} (backed : r.Backed m) (created : create id capacity kind r m = .ok q m') :
    (r.cells m').Fresh id capacity kind r.base ∧ r.Carries capacity m' := by
  obtain ⟨checked, narrow⟩ := create_accepted created
  obtain ⟨_, done, fresh, carries, _⟩ := @create_cells id capacity kind r m backed checked narrow
  cases created.symm.trans done
  exact ⟨fresh, carries⟩

end Queue

namespace Region

variable {r : Region} {capacity : Nat} {m : Memory}

theorem Carries.header_read (carries : r.Carries capacity m) : QueueHeader.read r m = .ok
    { kind := UInt32.ofNat (r.cells m).kind.toNat
      features := UInt32.ofNat ((r.cells m).kind.toNat >>> 32)
      baseAddress := (r.cells m).baseAddress
      doorbell := (r.cells m).doorbell
      size := UInt32.ofNat (r.cells m).size.toNat
      id := (r.cells m).id
      readIndex := (r.cells m).readIndex
      writeIndex := (r.cells m).writeIndex } m := by
  have read (offset : Nat) (inside : offset + 8 ≤ 64) (grid : offset % 8 = 0) :=
    carries.read_header inside grid
  apply (bind_ok (read Layout.typeAt (by decide) (by decide))).trans
  apply (bind_ok (read Layout.baseAddressAt (by decide) (by decide))).trans
  apply (bind_ok (read Layout.doorbellAt (by decide) (by decide))).trans
  apply (bind_ok carries.size_ok).trans
  apply (bind_ok (read Layout.idAt (by decide) (by decide))).trans
  apply (bind_ok carries.readIndex_ok).trans
  exact bind_ok carries.writeIndex_ok

theorem Carries.header_ok (carries : r.Carries capacity m) (supported : Layout.supports capacity)
    (sized : (r.cells m).size = UInt64.ofNat capacity) :
    ∃ header, QueueHeader.read r m = .ok header m ∧ header.size.toNat = capacity := by
  have bounds := Layout.supports_bounds supported
  refine ⟨_, carries.header_read, ?_⟩
  rw [sized, UInt64.toNat_ofNat_of_lt' (by simp only [UInt64.size]; omega),
    UInt32.toNat_ofNat_of_lt' (by simp only [UInt32.size]; omega)]

theorem Carries.attach_ok (carries : r.Carries capacity m) (supported : Layout.supports capacity)
    (sized : (r.cells m).size = UInt64.ofNat capacity) :
    Consumer.attach r m = .ok ⟨r, capacity⟩ m := by
  obtain ⟨header, read, size⟩ := carries.header_ok supported sized
  unfold Consumer.attach
  rw [bind_ok read, size]
  apply (congrFun (if_neg (by simp [supported])) m).trans
  apply (congrFun (if_neg (Nat.not_lt.mpr carries.large)) m).trans
  rfl

end Region

namespace Queue

theorem Shows.attach_ok {q : Queue} {m : Memory} {l : Log} (shows : q.Shows m l) :
    Consumer.attach q.region m = .ok q.port m :=
  shows.carries.attach_ok shows.supported shows.size

end Queue

end FabricQueue
