import FabricQueue.Proofs.Devices

set_option autoImplicit false

namespace FabricQueue

namespace Layout

theorem supports_iff {capacity : Nat} :
    supports capacity = true ↔ (∃ k, capacity = 2 ^ k) ∧ 2 ≤ capacity ∧ capacity ≤ 65536 := by
  simp only [supports, minCapacity, maxCapacity, Bool.and_eq_true, beq_iff_eq, Nat.one_shiftLeft]
  constructor
  · rintro ⟨⟨low, high⟩, power⟩
    exact ⟨⟨capacity.log2, power.symm⟩, of_decide_eq_true low, of_decide_eq_true high⟩
  · rintro ⟨⟨k, rfl⟩, low, high⟩
    exact ⟨⟨decide_eq_true low, decide_eq_true high⟩, by rw [Nat.log2_two_pow]⟩

end Layout

namespace Config

variable {c : Config} {lookup : String → Option String}

-- The two regions are addressable and share no address.
structure Admissible (c : Config) : Prop where
  power : ∃ k, c.queueCapacity.toNat = 2 ^ k
  least : 2 ≤ c.queueCapacity.toNat
  most : c.queueCapacity.toNat ≤ 65536
  aligned : c.queueBase.toNat % 64 = 0
  staging : c.stagingSize ≠ 0
  columns : c.numColumns ≠ 0
  queueEnd : c.queueBase.toNat + (64 + 64 * c.queueCapacity.toNat) < 2 ^ 64
  stagingEnd : c.stagingBase.toNat + c.stagingSize.toNat < 2 ^ 64
  disjoint : ∀ a, c.queueBase.toNat ≤ a →
    a < c.queueBase.toNat + (64 + 64 * c.queueCapacity.toNat) →
    ¬(c.stagingBase.toNat ≤ a ∧ a < c.stagingBase.toNat + c.stagingSize.toNat)

theorem queueRegionSize_eq (c : Config) : c.queueRegionSize = 64 + 64 * c.queueCapacity.toNat := by
  rw [Nat.mul_comm 64 c.queueCapacity.toNat]
  rfl

theorem queueRegionSize_lt (c : Config) : c.queueRegionSize < UInt64.size := by
  have narrow := c.queueCapacity.toNat_lt
  rw [queueRegionSize_eq, UInt64.size]
  omega

theorem apart_iff {a b n k : Nat} (some : 0 < n) (some' : 0 < k) :
    ¬(a < b + k ∧ b < a + n) ↔ ∀ x, a ≤ x → x < a + n → ¬(b ≤ x ∧ x < b + k) := by
  constructor
  · intro apart x low high inside
    omega
  · intro disjoint overlap
    exact disjoint (max a b) (by omega) (by omega) (by omega)

theorem validate_iff : c.validate = .ok () ↔ c.Admissible := by
  have size := c.queueRegionSize_eq
  have checks : c.validate = .ok () ↔ Layout.supports c.queueCapacity.toNat = true ∧
      c.queueBase.toNat % Layout.alignment = 0 ∧ c.stagingSize ≠ 0 ∧ c.numColumns ≠ 0 ∧
      c.queueBase.toNat + c.queueRegionSize < UInt64.size ∧
      c.stagingBase.toNat + c.stagingSize.toNat < UInt64.size ∧
      ¬(c.queueBase.toNat < c.stagingBase.toNat + c.stagingSize.toNat ∧
        c.stagingBase.toNat < c.queueBase.toNat + c.queueRegionSize) := by
    unfold validate regionEnd
    simp only [bind, Except.bind, throw, throwThe, MonadExceptOf.throw, pure, Except.pure]
    split_ifs
    all_goals simp_all
  have filled (some : c.stagingSize ≠ 0) : 0 < c.stagingSize.toNat :=
    Nat.pos_of_ne_zero fun none => some (UInt64.toNat_inj.mp none)
  rw [checks, Layout.supports_iff, size]
  constructor
  · rintro ⟨⟨power, least, most⟩, aligned, staging, columns, queueEnd, stagingEnd, apart⟩
    exact ⟨power, least, most, aligned, staging, columns, queueEnd, stagingEnd,
      (apart_iff (by omega) (filled staging)).mp apart⟩
  · intro admissible
    exact ⟨⟨admissible.power, admissible.least, admissible.most⟩, admissible.aligned,
      admissible.staging, admissible.columns, admissible.queueEnd, admissible.stagingEnd,
      (apart_iff (by omega) (filled admissible.staging)).mpr admissible.disjoint⟩

section Variables

def Given {α : Type} (lookup : String → Option String) (key : String) (holds : String → α → Prop)
    (default value : α) : Prop :=
  match lookup key with
  | some text => holds text value
  | none => value = default

def Names (text : String) (n : Nat) : Prop :=
  ∃ word, Text.readWord (Text.trim text.toList) = .ok word ∧ word.toNat = n

-- The configuration that a set of variables describes. None of them selects the queue type.
structure Described (lookup : String → Option String) (c : Config) : Prop where
  queueBase : Given lookup "AIR_QUEUE_BASE" Names 0x20100000000 c.queueBase.toNat
  queueCapacity : Given lookup "AIR_QUEUE_SIZE" Names 64 c.queueCapacity.toNat
  queueKind : c.queueKind = .single
  stagingBase : Given lookup "AIR_STAGING_BASE" Names 0x20100010000 c.stagingBase.toNat
  stagingSize : Given lookup "AIR_STAGING_SIZE" Names 0x8000 c.stagingSize.toNat
  memDevice : Given lookup "AIR_MEM_DEVICE" Eq "/dev/mem" c.memDevice
  numColumns : Given lookup "AIR_NUM_COLUMNS" Names 50 c.numColumns.toNat

theorem readNumber_iff {key text : String} {word : UInt64} :
    readNumber key text = .ok word ↔ Text.readWord (Text.trim text.toList) = .ok word := by
  unfold readNumber
  cases Text.readWord (Text.trim text.toList) <;> simp

theorem readNumber_names {key text : String} {word : UInt64} :
    readNumber key text = .ok word ↔ Names text word.toNat := by
  rw [readNumber_iff]
  constructor
  · exact fun read => ⟨word, read, rfl⟩
  · rintro ⟨_, read, same⟩
    rw [← UInt64.toNat_inj.mp same, read]

theorem readNarrow_names {bound n : Nat} {key text : String} :
    readNarrow bound key text = .ok n ↔ Names text n ∧ n < bound := by
  unfold readNarrow
  simp only [except_bind_iff, readNumber_iff, Names]
  constructor
  · rintro ⟨word, read, narrow⟩
    split at narrow
    next below => cases narrow; exact ⟨⟨word, read, rfl⟩, below⟩
    next => cases narrow
  · rintro ⟨⟨word, read, rfl⟩, below⟩
    exact ⟨word, read, if_pos below⟩

theorem given_number {key : String} {default value : UInt64} :
    Given lookup key (fun text word => readNumber key text = .ok word) default value ↔
      Given lookup key Names default.toNat value.toNat := by
  unfold Given
  cases lookup key with
  | none => exact UInt64.toNat_inj.symm
  | some text => exact readNumber_names

theorem given_narrow {key : String} {bound default value : Nat} (small : default < bound) :
    Given lookup key (fun text n => readNarrow bound key text = .ok n) default value ↔
      Given lookup key Names default value ∧ value < bound := by
  unfold Given
  cases lookup key with
  | none => exact ⟨fun same => ⟨same, same ▸ small⟩, And.left⟩
  | some text => exact readNarrow_names

theorem override_iff {α : Type} {key : String} (read : String → Except ConfigFault α) (default : α)
    {set : α → Config} {c' : Config} (current : set default = c) :
    override lookup key c (fun text => do return set (← read text)) = .ok c' ↔
      ∃ value, Given lookup key (fun text value => read text = .ok value) default value ∧
        set value = c' := by
  unfold override Given
  cases lookup key with
  | none =>
    subst current
    exact ⟨fun done => ⟨default, rfl, by cases done; rfl⟩, fun ⟨_, same, reached⟩ => by
      rw [← reached, same]⟩
  | some text =>
    simp only [except_bind_iff, pure, Except.pure, Except.ok.injEq]

theorem given_text {key default value : String} :
    Given lookup key (fun text value => (.ok text : Except ConfigFault String) = .ok value)
      default value ↔ Given lookup key Eq default value := by
  unfold Given
  cases lookup key with
  | none => exact Iff.rfl
  | some text => exact Iff.of_eq (Except.ok.injEq text value)

theorem ofVariables_described (read : ofVariables lookup = .ok c) :
    c.Described lookup ∧ c.validate = .ok () := by
  unfold ofVariables at read
  obtain ⟨_, first, read⟩ := except_bind_iff.mp read
  obtain ⟨queueBase, base, rfl⟩ := (override_iff _ _ rfl).mp first
  obtain ⟨_, second, read⟩ := except_bind_iff.mp read
  obtain ⟨capacity, slots, rfl⟩ := (override_iff _ 64 rfl).mp second
  obtain ⟨_, third, read⟩ := except_bind_iff.mp read
  obtain ⟨stagingBase, buffer, rfl⟩ := (override_iff _ _ rfl).mp third
  obtain ⟨_, fourth, read⟩ := except_bind_iff.mp read
  obtain ⟨stagingSize, bytes, rfl⟩ := (override_iff _ _ rfl).mp fourth
  obtain ⟨_, fifth, read⟩ := except_bind_iff.mp read
  obtain ⟨memDevice, device, rfl⟩ := (override_iff .ok _ rfl).mp fifth
  obtain ⟨_, sixth, read⟩ := except_bind_iff.mp read
  obtain ⟨columns, width, rfl⟩ := (override_iff _ 50 rfl).mp sixth
  obtain ⟨⟨⟩, valid, same⟩ := except_bind_iff.mp read
  cases same
  obtain ⟨slots, short⟩ := (given_narrow (by decide)).mp slots
  obtain ⟨width, narrow⟩ := (given_narrow (by decide)).mp width
  refine ⟨{
    queueBase := given_number.mp base, queueCapacity := ?_, queueKind := rfl
    stagingBase := given_number.mp buffer, stagingSize := given_number.mp bytes
    memDevice := given_text.mp device, numColumns := ?_ }, valid⟩
  · rwa [UInt32.toNat_ofNat_of_lt' short]
  · rwa [UInt8.toNat_ofNat_of_lt' narrow]

theorem Described.ofVariables (described : c.Described lookup) (valid : c.validate = .ok ()) :
    ofVariables lookup = .ok c := by
  have slots := (given_narrow (by decide)).mpr ⟨described.queueCapacity, c.queueCapacity.toNat_lt⟩
  have width := (given_narrow (by decide)).mpr ⟨described.numColumns, c.numColumns.toNat_lt⟩
  unfold Config.ofVariables
  refine except_bind_iff.mpr ⟨_, (override_iff _ _ rfl).mpr
    ⟨_, given_number.mpr described.queueBase, rfl⟩, ?_⟩
  refine except_bind_iff.mpr ⟨_, (override_iff _ _ rfl).mpr ⟨_, slots, rfl⟩, ?_⟩
  refine except_bind_iff.mpr ⟨_, (override_iff _ _ rfl).mpr
    ⟨_, given_number.mpr described.stagingBase, rfl⟩, ?_⟩
  refine except_bind_iff.mpr ⟨_, (override_iff _ _ rfl).mpr
    ⟨_, given_number.mpr described.stagingSize, rfl⟩, ?_⟩
  refine except_bind_iff.mpr ⟨_, (override_iff .ok _ rfl).mpr
    ⟨_, given_text.mpr described.memDevice, rfl⟩, ?_⟩
  refine except_bind_iff.mpr ⟨_, (override_iff _ _ rfl).mpr ⟨_, width, rfl⟩, ?_⟩
  let final : Config := { c with
    queueCapacity := UInt32.ofNat c.queueCapacity.toNat, queueKind := .single
    numColumns := UInt8.ofNat c.numColumns.toNat }
  have same : final = c := by
    simp only [final, UInt32.ofNat_toNat, UInt8.ofNat_toNat, ← described.queueKind]
  change (do Config.validate final; return final) = .ok c
  rw [same, valid]
  rfl

end Variables

end Config

namespace Region

theorem offsetOf_physAddr {r : Region} {offset : Nat} (inside : offset ≤ r.size)
    (addressable : r.base.toNat + r.size < UInt64.size) :
    ∃ a, r.physAddr offset = .ok a ∧ a.toNat = r.base.toNat + offset ∧
      ∀ len, offset + len ≤ r.size → r.offsetOf a len = .ok offset := by
  have fits : r.base.toNat + offset < UInt64.size := by omega
  have place := UInt64.toNat_ofNat_of_lt' fits
  refine ⟨_, addWord_ok fits, place, fun len short => ?_⟩
  have contained : r.contains (UInt64.ofNat (r.base.toNat + offset)) len = true :=
    contains_iff.mpr ⟨by omega, by omega⟩
  rw [offsetOf, if_pos contained, place, Nat.add_sub_cancel_left]

end Region

namespace Device

variable {c : Config} {m : Machine}

-- The header of the queue tells what was configured, and every offset in the staging buffer, its end
-- included, has an address that leads back to it.
structure Configured (c : Config) (d : Device) (m : Machine) : Prop where
  backend : d.backend = .software
  config : d.config = c
  header : ∃ q header, m.queues[d.queue]? = some q ∧
    QueueHeader.read q.region m.memory = .ok header m.memory ∧
    header.size = c.queueCapacity ∧ QueueKind.ofCode? header.kind = some c.queueKind ∧
    header.baseAddress.toNat = c.queueBase.toNat + 64
  address : ∀ offset ≤ c.stagingSize.toNat, ∃ a, d.stagingAddress offset = .ok a ∧
    a.toNat = c.stagingBase.toNat + offset ∧
    ∀ len, offset + len ≤ c.stagingSize.toNat → d.staging.offsetOf a len = .ok offset

theorem kind_shown (kind : QueueKind) : QueueKind.ofCode?
    (UInt32.ofNat (UInt64.ofNat (kind.code.toNat + Queue.features <<< 32)).toNat) = some kind := by
  cases kind <;> decide

theorem ofConfig_configured {region staging : Region} {m₁ m₂ : Machine}
    (valid : c.validate = .ok ())
    (first : Machine.allocate c.queueBase c.queueRegionSize m = .ok region m₁)
    (second : Machine.allocate c.stagingBase c.stagingSize.toNat m₁ = .ok staging m₂) :
    ∃ d m', ofConfig c .software m = .ok d m' ∧ Configured c d m' := by
  obtain ⟨m', opened, created, fresh, carries⟩ := openSoftware_allocated valid first second
  obtain ⟨_, allocated, _⟩ := Machine.allocate_cases second
  obtain ⟨rfl, _⟩ := Region.allocate_ok allocated
  have admissible := Config.validate_iff.mp valid
  have small := admissible.most
  have room := admissible.queueEnd
  refine ⟨_, m', (ofConfig_software m valid).trans opened, rfl, rfl,
    ⟨_, _, created, carries.header_read, ?size, ?kind, ?base⟩,
    fun offset inside => Region.offsetOf_physAddr inside admissible.stagingEnd⟩
  case size =>
    simp only [fresh.size]
    rw [UInt64.toNat_ofNat_of_lt' (by simp only [UInt64.size]; omega), UInt32.ofNat_toNat]
  case kind =>
    simp only [fresh.kind]
    exact kind_shown c.queueKind
  case base =>
    simp only [fresh.baseAddress]
    exact UInt64.toNat_ofNat_of_lt' (by simp only [UInt64.size, Layout.headerSize]; omega)

end Device

-- The check of a configuration is exact and cannot itself leave 64 bits, a set of variables leads
-- to the one configuration it describes or to none, and what was accepted can be opened.
theorem Config.accepted_opens :
    (∀ c : Config, (c.validate = .ok () ↔ c.Admissible) ∧ c.queueRegionSize < UInt64.size) ∧
    (∀ lookup c, Config.ofVariables lookup = .ok c ↔
      c.Described lookup ∧ c.validate = .ok ()) ∧
    ∀ (c : Config) (m m₁ m₂ : Machine) (region staging : Region), c.validate = .ok () →
      Machine.allocate c.queueBase c.queueRegionSize m = .ok region m₁ →
      Machine.allocate c.stagingBase c.stagingSize.toNat m₁ = .ok staging m₂ →
      ∃ d m', Device.ofConfig c .software m = .ok d m' ∧ Device.Configured c d m' := by
  refine ⟨fun c => ⟨validate_iff, c.queueRegionSize_lt⟩, fun lookup c => ?_, ?_⟩
  · exact ⟨ofVariables_described, fun ⟨described, valid⟩ => described.ofVariables valid⟩
  · intro c m m₁ m₂ region staging valid first second
    exact Device.ofConfig_configured valid first second

-- A queue that ends where the staging buffer starts, which ends at the last address.
def Config.sampleVariables (key : String) : Option String :=
  [("AIR_QUEUE_BASE", "0xffff_ffff_ffff_fe80"), ("AIR_QUEUE_SIZE", " 2 "),
    ("AIR_STAGING_BASE", "0XFFFFFFFFFFFFFF40"), ("AIR_STAGING_SIZE", "+191")].lookup key

def Config.sampleEdge : Config where
  queueBase := 0xfffffffffffffe80
  queueCapacity := 2
  stagingBase := 0xffffffffffffff40
  stagingSize := 191

theorem Config.accepted_opens_sample : ofVariables sampleVariables = .ok sampleEdge ∧
    sampleEdge.Admissible ∧ ∃ d m', Device.ofConfig sampleEdge .software {} = .ok d m' ∧
      Device.Configured sampleEdge d m' := by
  have read : ofVariables sampleVariables = .ok sampleEdge := rfl
  obtain ⟨accepted, described, opens⟩ := accepted_opens
  have valid := ((described sampleVariables sampleEdge).mp read).2
  exact ⟨read, (accepted sampleEdge).1.mp valid, opens sampleEdge {} _ _ _ _ valid
    (Machine.allocate_done _ (by decide) (by decide) rfl)
    (Machine.allocate_done _ (by decide) (by decide) rfl)⟩

end FabricQueue
