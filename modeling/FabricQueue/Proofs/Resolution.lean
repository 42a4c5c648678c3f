import FabricQueue.Proofs.TileSteps
import FabricQueue.Proofs.Translation

set_option autoImplicit false

namespace FabricQueue

open TileArray (Halt refusal)

def wordMinus (a b : UInt64) : Except Halt UInt64 :=
  if b ≤ a then .ok (a - b) else .error .underflow

def wordPlus? (a b : UInt64) : Option UInt64 :=
  if a.toNat + b.toNat < UInt64.size then some (a + b) else none

def wordPlus (a b : UInt64) : Except Halt UInt64 :=
  match wordPlus? a b with
  | some sum => .ok sum
  | none => .error (.failed (.overflow .addition))

namespace Region

/-- Whether the range lies inside, found out in 64-bit addresses. -/
def spans (r : Region) (phys len : UInt64) : Except Halt Bool :=
  if r.base ≤ phys then do
    let start ← wordMinus phys r.base
    return match wordPlus? start len with
      | some last => decide (last ≤ UInt64.ofNat r.size)
      | none => false
  else return false

/-- Offset of the range. The refusal names the end of the region. -/
def placeOf (r : Region) (phys len : UInt64) : Except Halt UInt64 := do
  if ← r.spans phys len then wordMinus phys r.base
  else
    let limit ← wordPlus r.base (UInt64.ofNat r.size)
    throw (refusal (.invalidAddress phys
      (.outsideRegion len.toNat r.base.toNat limit.toNat)))

-- The region holds all of the range.
def Covers (r : Region) (address : UInt64) (len : Nat) : Prop :=
  r.base.toNat ≤ address.toNat ∧ (address.toNat : Int) - r.base.toNat + len ≤ r.size

variable {r : Region} {address : UInt64} {len : Nat}

theorem covers_iff : r.Covers address len ↔ r.contains address len = true := by
  rw [contains_iff, Covers]
  omega

theorem spans_eq (narrow : r.size < UInt64.size) (phys len : UInt64) :
    r.spans phys len = .ok (r.contains phys len.toNat) := by
  unfold spans
  by_cases above : r.base ≤ phys
  · have above' := UInt64.le_iff_toNat_le.mp above
    have gap := UInt64.toNat_sub_of_le phys r.base above
    have size : (UInt64.ofNat r.size).toNat = r.size := UInt64.toNat_ofNat_of_lt' narrow
    rw [if_pos above, wordMinus, if_pos above]
    refine congrArg Except.ok (Bool.eq_iff_iff.mpr ?_)
    rw [contains_iff]
    unfold wordPlus?
    split_ifs with fits
    · have sum : (phys - r.base + len).toNat = phys.toNat - r.base.toNat + len.toNat := by
        rw [UInt64.toNat_add, gap]
        exact Nat.mod_eq_of_lt (gap ▸ fits)
      rw [decide_eq_true_iff, UInt64.le_iff_toNat_le, sum, size]
      exact (and_iff_right above').symm
    · rw [gap] at fits
      simp only [false_iff]
      omega
  · have below : ¬r.base.toNat ≤ phys.toNat := mt UInt64.le_iff_toNat_le.mpr above
    rw [if_neg above]
    refine congrArg Except.ok (Bool.eq_iff_iff.mpr ?_)
    simp only [contains_iff, below, false_and, Bool.false_eq_true]

theorem placeOf_inside (narrow : r.size < UInt64.size) {phys len : UInt64}
    (inside : r.contains phys len.toNat = true) : r.placeOf phys len = .ok (phys - r.base) := by
  have above := UInt64.le_iff_toNat_le.mpr (contains_iff.mp inside).1
  unfold placeOf
  rw [spans_eq narrow, inside]
  exact if_pos above

theorem readBytes_inside {offset : Nat} (inside : offset + len ≤ r.size) (m : Memory) :
    r.readBytes offset len m = .ok (m.read (r.origin + offset) len) m := by
  simp [readBytes, access, locate_ok inside (Nat.mod_one _)]

theorem writeBytes_inside {offset : Nat} {bytes : List UInt8} (inside : offset + bytes.length ≤ r.size)
    (m : Memory) : r.writeBytes offset bytes m = .ok () (m.write (r.origin + offset) bytes) := by
  simp [writeBytes, access, locate_ok inside (Nat.mod_one _)]

end Region

theorem findM_ok {ε α : Type} {f : α → Except ε Bool} {p : α → Bool} (list : List α)
    (each : ∀ a ∈ list, f a = .ok (p a)) : list.findM? f = .ok (list.find? p) := by
  induction list with
  | nil => rfl
  | cons a rest ih =>
    rw [List.findM?, each a List.mem_cons_self, List.find?_cons]
    cases p a with
    | true => rfl
    | false => exact ih fun b member => each b (List.mem_cons_of_mem _ member)

namespace HostMap

/-- The first region that holds the range, and the offset in it, found in 64-bit addresses. -/
def search (h : HostMap) (phys len : UInt64) : Except Halt (Region × UInt64) := do
  match ← h.regions.findM? fun r => r.spans phys len with
  | some r => return (r, ← r.placeOf phys len)
  | none => throw (refusal (.invalidAddress phys (.outsideHost len.toNat)))

variable {h : HostMap} {address : UInt64} {len : Nat} {r : Region} {offset : Nat}

theorem resolve_iff : h.resolve address len = .ok (r, offset) ↔
    (h.regions.find? fun r => r.contains address len) = some r ∧
      offset = address.toNat - r.base.toNat := by
  unfold resolve
  cases found : h.regions.find? fun r => r.contains address len with
  | none => simp
  | some first =>
    simp only [Except.ok.injEq, Prod.mk.injEq, Option.some.injEq]
    constructor
    · rintro ⟨rfl, rfl⟩
      exact ⟨rfl, rfl⟩
    · rintro ⟨rfl, rfl⟩
      exact ⟨rfl, rfl⟩

theorem resolve_refused_iff :
    h.resolve address len = .error (.invalidAddress address (.outsideHost len)) ↔
      ∀ r ∈ h.regions, ¬r.Covers address len := by
  simp only [Region.covers_iff, ← List.find?_eq_none, resolve]
  cases h.regions.find? fun r => r.contains address len <;> simp

theorem search_eq (narrow : ∀ r ∈ h.regions, r.size < UInt64.size) (address len : UInt64) :
    h.search address len = match h.resolve address len.toNat with
      | .ok (r, offset) => .ok (r, UInt64.ofNat offset)
      | .error e => .error (refusal e) := by
  unfold search resolve
  rw [findM_ok h.regions fun r member => r.spans_eq (narrow r member) address len]
  cases found : h.regions.find? fun r => r.contains address len.toNat with
  | none => rfl
  | some r =>
    have inside := List.find?_some found
    have above := UInt64.le_iff_toNat_le.mpr (Region.contains_iff.mp inside).1
    have place : address - r.base = UInt64.ofNat (address.toNat - r.base.toNat) := by
      rw [← UInt64.toNat_sub_of_le _ _ above, UInt64.ofNat_toNat]
    simp only [bind, Except.bind,
      Region.placeOf_inside (narrow r (List.mem_of_find?_eq_some found)) inside, place]
    rfl

theorem resolve_first : h.resolve address len = .ok (r, offset) ↔ ∃ i : Nat, h.regions[i]? = some r ∧
    r.Covers address len ∧
      (∀ (j : Nat) (s : Region), j < i → h.regions[j]? = some s → ¬s.Covers address len) ∧
        (offset : Int) = address.toNat - r.base.toNat := by
  simp only [resolve_iff, Region.covers_iff]
  rw [List.find?_eq_some_iff_getElem]
  constructor
  · rintro ⟨⟨inside, i, below, found, others⟩, rfl⟩
    refine ⟨i, (List.getElem?_eq_getElem below).trans (congrArg some found), inside, ?_, ?_⟩
    · intro j s earlier known covered
      obtain ⟨_, rfl⟩ := List.getElem?_eq_some_iff.mp known
      simpa [covered] using others j earlier
    · have above := (Region.contains_iff.mp inside).1
      omega
  · rintro ⟨i, known, inside, others, place⟩
    obtain ⟨below, found⟩ := List.getElem?_eq_some_iff.mp known
    refine ⟨⟨inside, i, below, found, fun j earlier => ?_⟩, by omega⟩
    simpa using others j _ earlier (List.getElem?_eq_getElem (Nat.lt_trans earlier below))

theorem resolve_ok_iff : (∃ place, h.resolve address len = .ok place) ↔
    ∃ r ∈ h.regions, r.Covers address len := by
  constructor
  · rintro ⟨⟨r, offset⟩, resolved⟩
    obtain ⟨i, found, covers, _⟩ := resolve_first.mp resolved
    exact ⟨r, List.mem_of_getElem? found, covers⟩
  · rintro ⟨r, member, covers⟩
    obtain ⟨first, _, _, resolved⟩ := Holds.resolve_ok ⟨r, member, Region.covers_iff.mp covers⟩
    exact ⟨_, resolved⟩

theorem resolve_inside (resolved : h.resolve address len = .ok (r, offset)) :
    offset + len ≤ r.size := by
  obtain ⟨_, _, ⟨above, below⟩, _, place⟩ := resolve_first.mp resolved
  omega

theorem border_refused {border : Nat}
    (parted : ∀ r ∈ h.regions, r.base.toNat + r.size ≤ border ∨ border ≤ r.base.toNat)
    (before : address.toNat < border) (behind : border < address.toNat + len) :
    h.resolve address len = .error (.invalidAddress address (.outsideHost len)) := by
  refine resolve_refused_iff.mpr fun r member covers => ?_
  obtain ⟨above, below⟩ := covers
  rcases parted r member with low | high <;> omega

-- A range resolves to the first region that holds all of it, where it can be read and written, and
-- is refused if there is none. No two regions hold it together where all end at a border inside it,
-- or begin there. In 64-bit addresses the search comes to the same, without a failure of its own.
theorem resolve_exact (h : HostMap) (address : UInt64) (len : Nat) :
    (∀ r offset, h.resolve address len = .ok (r, offset) ↔ ∃ i : Nat, h.regions[i]? = some r ∧
      r.Covers address len ∧
        (∀ (j : Nat) (s : Region), j < i → h.regions[j]? = some s → ¬s.Covers address len) ∧
          (offset : Int) = address.toNat - r.base.toNat) ∧
    ((∃ place, h.resolve address len = .ok place) ↔ ∃ r ∈ h.regions, r.Covers address len) ∧
    (∀ r offset, h.resolve address len = .ok (r, offset) → offset + len ≤ r.size ∧
      (∀ m, r.readBytes offset len m = .ok (m.read (r.origin + offset) len) m) ∧
      ∀ m bytes, bytes.length = len →
        r.writeBytes offset bytes m = .ok () (m.write (r.origin + offset) bytes)) ∧
    ((∀ r ∈ h.regions, ¬r.Covers address len) →
      h.resolve address len = .error (.invalidAddress address (.outsideHost len))) ∧
    (∀ border, (∀ r ∈ h.regions, r.base.toNat + r.size ≤ border ∨ border ≤ r.base.toNat) →
      address.toNat < border → border < address.toNat + len →
        h.resolve address len = .error (.invalidAddress address (.outsideHost len))) ∧
    (∀ word : UInt64, word.toNat = len → (∀ r ∈ h.regions, r.size < UInt64.size) →
      h.search address word = match h.resolve address len with
        | .ok (r, offset) => .ok (r, UInt64.ofNat offset)
        | .error e => .error (refusal e)) := by
  refine ⟨fun _ _ => resolve_first, resolve_ok_iff, fun r offset resolved => ?inside,
    resolve_refused_iff.mpr, fun _ => border_refused, ?words⟩
  case inside =>
    have inside := resolve_inside resolved
    refine ⟨inside, r.readBytes_inside inside, ?_⟩
    rintro m bytes rfl
    exact r.writeBytes_inside inside m
  case words =>
    rintro word rfl narrow
    exact search_eq narrow address word

-- Two regions side by side, and one that runs past the last address.
def sampleMap : HostMap :=
  ⟨[⟨0, 0x1000, 0x100, false⟩, ⟨0x100, 0x1100, 0x100, false⟩, ⟨0x200, 0xffffffffffffffc0, 0x80, false⟩]⟩

theorem resolve_exact_sample :
    sampleMap.resolve 0x10f0 0x20 = .error (.invalidAddress 0x10f0 (.outsideHost 0x20)) ∧
    sampleMap.resolve 0xfffffffffffffff0 0x20 =
      .ok (⟨0x200, 0xffffffffffffffc0, 0x80, false⟩, 0x30) ∧
    sampleMap.search 0xfffffffffffffff0 0x20 =
      .ok (⟨0x200, 0xffffffffffffffc0, 0x80, false⟩, 0x30) ∧
    0x30 + 0x20 ≤ 0x80 := by
  obtain ⟨_, _, _, _, border, _⟩ := resolve_exact sampleMap 0x10f0 0x20
  obtain ⟨_, _, inside, _, _, words⟩ := resolve_exact sampleMap 0xfffffffffffffff0 0x20
  have resolved : sampleMap.resolve 0xfffffffffffffff0 0x20 =
      .ok (⟨0x200, 0xffffffffffffffc0, 0x80, false⟩, 0x30) := by decide
  have searched := words 0x20 (by decide) (by decide)
  rw [resolved] at searched
  exact ⟨border 0x1100 (by decide) (by decide) (by decide), resolved, searched,
    (inside _ _ resolved).1⟩

end HostMap

end FabricQueue
