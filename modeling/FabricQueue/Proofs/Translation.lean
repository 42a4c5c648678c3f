import FabricQueue.Proofs.Configuration
import FabricQueue.Proofs.Requests

set_option autoImplicit false

namespace FabricQueue.Region

variable {r : Region} {phys : UInt64} {offset len : Nat}

theorem offsetOf_inside (inside : r.contains phys len = true) :
    r.offsetOf phys len = .ok (phys.toNat - r.base.toNat) := by
  simp [offsetOf, inside]

theorem offsetOf_outside (outside : r.contains phys len = false)
    (narrow : r.base.toNat + r.size < UInt64.size) :
    r.offsetOf phys len = .error (.error (.invalidAddress phys
      (.outsideRegion len r.base.toNat (r.base.toNat + r.size)))) := by
  simp [offsetOf, outside, narrow]

theorem offsetOf_unnamed (outside : r.contains phys len = false)
    (wide : UInt64.size ≤ r.base.toNat + r.size) :
    r.offsetOf phys len = .error (.overflow .addition) := by
  simp [offsetOf, outside, Nat.not_lt.mpr wide]

theorem offsetOf_iff : (∃ o, r.offsetOf phys len = .ok o) ↔ r.contains phys len = true := by
  constructor
  · rintro ⟨o, found⟩
    by_contra outside
    rw [offsetOf, if_neg outside] at found
    split at found <;> cases found
  · exact fun inside => ⟨_, offsetOf_inside inside⟩

theorem offsetOf_ok {o : Nat} (found : r.offsetOf phys len = .ok o) :
    o + len ≤ r.size ∧ r.physAddr o = .ok phys := by
  have inside := offsetOf_iff.mp ⟨o, found⟩
  obtain ⟨above, below⟩ := contains_iff.mp inside
  have same : phys.toNat - r.base.toNat = o := by simpa [offsetOf_inside inside] using found
  have place : r.base.toNat + o = phys.toNat := by omega
  refine ⟨same ▸ below, ?_⟩
  rw [physAddr, addWord_ok (place ▸ phys.toNat_lt), place, UInt64.ofNat_toNat]

theorem physAddr_ok (narrow : r.base.toNat + offset < UInt64.size) :
    ∃ a, r.physAddr offset = .ok a ∧ a.toNat = r.base.toNat + offset :=
  ⟨_, addWord_ok narrow, UInt64.toNat_ofNat_of_lt' narrow⟩

theorem offsetOf_address {a : UInt64} (inside : offset + len ≤ r.size)
    (place : a.toNat = r.base.toNat + offset) : r.offsetOf a len = .ok offset := by
  have contained : r.contains a len = true := contains_iff.mpr ⟨by omega, by omega⟩
  rw [offsetOf_inside contained, place, Nat.add_sub_cancel_left]

theorem locate_misaligned {alignment : Nat} {a : UInt64} (inside : offset + len ≤ r.size)
    (misaligned : (r.phase + offset) % alignment ≠ 0) (known : r.physAddr offset = .ok a) :
    r.locate offset len alignment = .error (.error (.invalidAddress a (.misaligned alignment))) := by
  simp [locate, Nat.not_lt.mpr inside, misaligned, known]

theorem locate_unnamed {alignment : Nat} (inside : offset + len ≤ r.size)
    (misaligned : (r.phase + offset) % alignment ≠ 0)
    (wide : UInt64.size ≤ r.base.toNat + offset) :
    r.locate offset len alignment = .error (.overflow .addition) := by
  simp [locate, Nat.not_lt.mpr inside, misaligned, physAddr, addWord_overflow wide]

-- A range is translated exactly if it is in the region, and back again. Any other range, and any
-- request that is not aligned, is refused by its address, for which the end of the region, or the
-- place of the request, has to be an address. Without one the refusal overflows.
theorem addresses_translate (r : Region) :
    (∀ phys len, (∃ o, r.offsetOf phys len = .ok o) ↔ r.contains phys len = true) ∧
    (∀ phys len, r.contains phys len = true ↔
      r.base.toNat ≤ phys.toNat ∧ phys.toNat + len ≤ r.base.toNat + r.size) ∧
    (∀ phys len o, r.offsetOf phys len = .ok o → o + len ≤ r.size ∧ r.physAddr o = .ok phys) ∧
    (∀ offset len, offset + len ≤ r.size → r.base.toNat + offset < UInt64.size →
      ∃ a, r.physAddr offset = .ok a ∧ a.toNat = r.base.toNat + offset ∧
        r.offsetOf a len = .ok offset) ∧
    (∀ phys len, r.contains phys len = false → r.base.toNat + r.size < UInt64.size →
      ∃ cause, r.offsetOf phys len = .error (.error (.invalidAddress phys cause))) ∧
    (∀ (q : Request) (m : Memory), q.offset + q.len ≤ r.size →
      (r.phase + q.offset) % q.alignment ≠ 0 → r.base.toNat + q.offset < UInt64.size →
      ∃ a cause, a.toNat = r.base.toNat + q.offset ∧
        r.serve q m = .error (.error (.invalidAddress a cause)) m) ∧
    (∀ offset, UInt64.size ≤ r.base.toNat + offset →
      r.physAddr offset = .error (.overflow .addition)) ∧
    (∀ phys len, r.contains phys len = false → UInt64.size ≤ r.base.toNat + r.size →
      r.offsetOf phys len = .error (.overflow .addition)) ∧
    (∀ (q : Request) (m : Memory), q.offset + q.len ≤ r.size →
      (r.phase + q.offset) % q.alignment ≠ 0 → UInt64.size ≤ r.base.toNat + q.offset →
      r.serve q m = .error (.overflow .addition) m) := by
  refine ⟨fun _ _ => offsetOf_iff, fun phys len => ?contained, fun _ _ _ => offsetOf_ok,
    fun offset len inside narrow => ?back, fun _ _ outside narrow => ⟨_, offsetOf_outside outside narrow⟩,
    fun q m inside misaligned narrow => ?misaligned, fun _ wide => addWord_overflow wide,
    fun _ _ => offsetOf_unnamed, fun q m inside misaligned wide => ?unnamed⟩
  case contained =>
    rw [contains_iff]
    omega
  case back =>
    obtain ⟨a, known, place⟩ := r.physAddr_ok narrow
    exact ⟨a, known, place, offsetOf_address inside place⟩
  case misaligned =>
    obtain ⟨a, known, place⟩ := r.physAddr_ok narrow
    exact ⟨a, _, place, serve_refused (locate_misaligned inside misaligned known)⟩
  case unnamed =>
    exact serve_refused (locate_unnamed inside misaligned wide)

-- Memory of its own that ends with the addresses.
def sampleLast : Region :=
  ⟨0, 0xffffffffffffffc0, 64, false⟩

theorem sampleLast_allocated :
    allocate true 0xffffffffffffffc0 64 ByteStore.empty = .ok sampleLast (ByteStore.empty.extend 64) :=
  allocate_granted _ _ (by decide) (by decide)

theorem addresses_translate_sample :
    sampleLast.offsetOf 0xfffffffffffffff8 8 = .ok 56 ∧
    sampleLast.physAddr 56 = .ok 0xfffffffffffffff8 ∧
    sampleLast.physAddr 64 = .error (.overflow .addition) ∧
    (∃ a cause, sampleLast.serve (.read64 52) ByteStore.empty =
      .error (.error (.invalidAddress a cause)) ByteStore.empty) := by
  obtain ⟨found, _, inverse, _, _, misaligned, beyond, _⟩ := addresses_translate sampleLast
  have offset : sampleLast.offsetOf 0xfffffffffffffff8 8 = .ok 56 := by decide
  obtain ⟨a, cause, _, refused⟩ := misaligned (.read64 52) ByteStore.empty (by decide) (by decide)
    (by decide)
  exact ⟨offset, (inverse _ _ _ offset).2, beyond 64 (by decide), a, cause, refused⟩

-- An address below the region is not refused by name: the refusal fails on the region's end.
theorem translation_at_end :
    (∃ m, allocate true 0xffffffffffffffc0 64 ByteStore.empty = .ok sampleLast m) ∧
    sampleLast.contains 0 1 = false ∧
    ¬(∃ cause, sampleLast.offsetOf 0 1 = .error (.error (.invalidAddress 0 cause))) ∧
    sampleLast.offsetOf 0 1 = .error (.overflow .addition) := by
  have outside : sampleLast.contains 0 1 = false := by decide
  have overflows : sampleLast.offsetOf 0 1 = .error (.overflow .addition) :=
    offsetOf_unnamed outside (by decide)
  refine ⟨⟨_, sampleLast_allocated⟩, outside, ?_, overflows⟩
  rintro ⟨cause, refused⟩
  cases overflows.symm.trans refused

end FabricQueue.Region
