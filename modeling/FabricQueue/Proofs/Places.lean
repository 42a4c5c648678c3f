import FabricQueue.Proofs.Service
import FabricQueue.Proofs.Exchanges
import Mathlib.Data.List.Pairwise

set_option autoImplicit false

namespace FabricQueue

namespace ByteStore

def scatter (s : ByteStore) (places : List Nat) (bytes : List UInt8) : ByteStore :=
  (places.zip bytes).foldl (fun s entry => s.set entry.1 entry.2) s

variable {s s' : ByteStore} {places : List Nat} {bytes : List UInt8}

theorem scatter_append (s : ByteStore) {places places' : List Nat} {bytes bytes' : List UInt8}
    (same : places.length = bytes.length) :
    s.scatter (places ++ places') (bytes ++ bytes') =
      (s.scatter places bytes).scatter places' bytes' := by
  rw [scatter, List.zip_append same, List.foldl_append]
  rfl

theorem scatter_cons (s : ByteStore) (place : Nat) (places : List Nat) (b : UInt8)
    (bytes : List UInt8) :
    s.scatter (place :: places) (b :: bytes) = (s.set place b).scatter places bytes :=
  rfl

theorem write_eq_scatter (s : ByteStore) (start : Nat) (bytes : List UInt8) :
    s.write start bytes = s.scatter (List.range' start bytes.length) bytes := by
  induction bytes generalizing s start with
  | nil => rfl
  | cons b rest ih => rw [write, ih, List.length_cons, List.range'_succ, scatter_cons]

-- Induction over the bytes that are stored.
theorem scatter_induction {motive : ByteStore → Prop} (places : List Nat) (bytes : List UInt8)
    (begun : motive s) (step : ∀ s, ∀ place ∈ places, ∀ b, motive s → motive (s.set place b)) :
    motive (s.scatter places bytes) := by
  induction places generalizing s bytes with
  | nil => exact begun
  | cons place places ih =>
    cases bytes with
    | nil => exact begun
    | cons b bytes =>
      exact ih bytes (step s place List.mem_cons_self b begun)
        fun s place member => step s place (List.mem_cons_of_mem _ member)

theorem get_set_other (s : ByteStore) {i j : Nat} (b : UInt8) (other : i ≠ j) :
    (s.set i b).get j = s.get j := by
  by_cases inside : i < s.size
  · rw [get_set s i j b inside, if_neg other]
  · rw [set_outside s i b (Nat.not_lt.mp inside)]

theorem get_scatter_other (s : ByteStore) {places : List Nat} (bytes : List UInt8) {i : Nat}
    (other : i ∉ places) : (s.scatter places bytes).get i = s.get i :=
  scatter_induction (motive := fun t => t.get i = s.get i) places bytes rfl
    fun t place member b same =>
      (get_set_other t b fun here : place = i => other (here.symm ▸ member)).trans same

theorem get_scatter_congr (size : s'.size = s.size) {i : Nat} (same : s'.get i = s.get i)
    (places : List Nat) (bytes : List UInt8) :
    (s'.scatter places bytes).get i = (s.scatter places bytes).get i := by
  induction places generalizing s s' bytes with
  | nil => exact same
  | cons place places ih =>
    cases bytes with
    | nil => exact same
    | cons b bytes =>
      refine ih (by rw [size_set, size_set, size]) ?_ bytes
      change (s'.set place b).get i = (s.set place b).get i
      by_cases inside : place < s.size
      · rw [get_set _ _ _ _ inside, get_set _ _ _ _ (size ▸ inside), same]
      · rw [set_outside _ _ _ (Nat.not_lt.mp inside), set_outside _ _ _ (by omega), same]

theorem size_scatter (s : ByteStore) (places : List Nat) (bytes : List UInt8) :
    (s.scatter places bytes).size = s.size :=
  scatter_induction (motive := fun t => t.size = s.size) places bytes rfl
    fun t place _ b same => (size_set t place b).trans same

theorem scatter_comm (s : ByteStore) {places places' : List Nat} (bytes bytes' : List UInt8)
    (apart : places.Disjoint places') :
    (s.scatter places bytes).scatter places' bytes' =
      (s.scatter places' bytes').scatter places bytes := by
  refine ext_get (by simp only [size_scatter]) fun i => ?_
  by_cases first : i ∈ places
  · rw [get_scatter_other _ _ fun second => apart first second]
    exact get_scatter_congr (size_scatter s places' bytes').symm
      (get_scatter_other s bytes' fun second => apart first second).symm places bytes
  · rw [get_scatter_other _ bytes first]
    exact get_scatter_congr (size_scatter s places bytes) (get_scatter_other s bytes first) places'
      bytes'

theorem write_comm (s : ByteStore) {start start' : Nat} (bytes bytes' : List UInt8)
    (apart : start + bytes.length ≤ start' ∨ start' + bytes'.length ≤ start) :
    (s.write start bytes).write start' bytes' = (s.write start' bytes').write start bytes := by
  simp only [write_eq_scatter]
  refine scatter_comm s _ _ fun i here there => ?_
  simp only [List.mem_range'_1] at here there
  omega

theorem write_twice (s : ByteStore) (start : Nat) {first second : List UInt8}
    (same : first.length = second.length) (fits : start + second.length ≤ s.size) :
    (s.write start first).write start second = s.write start second := by
  refine ext_get (by simp only [size_write]) fun i => ?_
  by_cases inside : start ≤ i ∧ i < start + second.length
  · obtain ⟨j, rfl⟩ := Nat.exists_eq_add_of_le inside.1
    rw [get_write _ _ _ _ (by omega) (by rwa [size_write]), get_write _ _ _ _ (by omega) fits]
  · rw [get_write_apart _ _ _ _ (by omega), get_write_apart _ _ _ _ (by omega),
      get_write_apart _ _ _ _ (by omega)]

theorem get_scatter (s : ByteStore) (distinct : places.Nodup) (inside : ∀ i ∈ places, i < s.size)
    {k : Nat} (place : k < places.length) (byte : k < bytes.length) :
    (s.scatter places bytes).get places[k] = bytes[k] := by
  induction places generalizing s bytes k with
  | nil => exact absurd place (Nat.not_lt_zero _)
  | cons first places ih =>
    obtain ⟨alone, rest⟩ := List.nodup_cons.mp distinct
    cases bytes with
    | nil => exact absurd byte (Nat.not_lt_zero _)
    | cons b bytes =>
      rw [scatter_cons]
      cases k with
      | zero =>
        rw [List.getElem_cons_zero, List.getElem_cons_zero, get_scatter_other _ _ alone,
          get_set _ _ _ _ (inside first List.mem_cons_self), if_pos rfl]
      | succ k =>
        rw [List.getElem_cons_succ, List.getElem_cons_succ]
        exact ih (s.set first b) rest
          (fun i member => by rw [size_set]; exact inside i (List.mem_cons_of_mem _ member)) _ _

end ByteStore

-- Two regions that share neither an address nor a byte of memory.
def Region.Apart (r r' : Region) : Prop :=
  (r.base.toNat + r.size ≤ r'.base.toNat ∨ r'.base.toNat + r'.size ≤ r.base.toNat) ∧
    (r.origin + r.size ≤ r'.origin ∨ r'.origin + r'.size ≤ r.origin)

instance : Std.Symm Region.Apart :=
  ⟨fun _ _ apart => ⟨apart.1.symm, apart.2.symm⟩⟩

namespace HostMap

-- No two regions overlap, and none runs past the last address.
structure Separate (h : HostMap) : Prop where
  apart : h.regions.Pairwise Region.Apart
  addressable : ∀ r ∈ h.regions, r.base.toNat + r.size ≤ UInt64.size

-- Where in memory the byte at an address is.
def place (h : HostMap) (address : Nat) : Nat :=
  match h.resolve (UInt64.ofNat address) 1 with
  | .ok (r, offset) => r.origin + offset
  | .error _ => 0

-- All these addresses lie in host regions.
def Covers (h : HostMap) (addresses : List Nat) : Prop :=
  ∀ a ∈ addresses, ∃ r ∈ h.regions, r.base.toNat ≤ a ∧ a < r.base.toNat + r.size

variable {h : HostMap} {r r' : Region} {a b : Nat}

theorem Separate.same_region (separate : h.Separate) (member : r ∈ h.regions)
    (member' : r' ∈ h.regions) (inside : r.base.toNat ≤ a ∧ a < r.base.toNat + r.size)
    (inside' : r'.base.toNat ≤ a ∧ a < r'.base.toNat + r'.size) : r = r' := by
  by_contra different
  have apart := separate.apart.forall member member' different
  have addresses := apart.1
  omega

theorem Separate.place_eq (separate : h.Separate) (member : r ∈ h.regions)
    (inside : r.base.toNat ≤ a ∧ a < r.base.toNat + r.size) :
    h.place a = r.origin + (a - r.base.toNat) := by
  have addressable := separate.addressable r member
  have word : (UInt64.ofNat a).toNat = a := UInt64.toNat_ofNat_of_lt' (by omega)
  have holds : h.Holds (UInt64.ofNat a) 1 :=
    ⟨r, member, Region.contains_iff.mpr (by rw [word]; omega)⟩
  obtain ⟨r', member', inside', found⟩ := holds.resolve_ok
  have bounds := Region.contains_iff.mp inside'
  rw [word] at bounds
  have same := separate.same_region member member' inside ⟨bounds.1, by omega⟩
  rw [place, found, word, same]

theorem separate_single (addressable : r.base.toNat + r.size ≤ UInt64.size) : Separate ⟨[r]⟩ := by
  refine ⟨List.pairwise_singleton _ _, fun region member => ?_⟩
  rw [List.mem_singleton.mp member]
  exact addressable

theorem place_single (addressable : r.base.toNat + r.size ≤ UInt64.size) {offset : Nat}
    (below : offset < r.size) : place ⟨[r]⟩ (r.base.toNat + offset) = r.origin + offset := by
  rw [(separate_single addressable).place_eq List.mem_cons_self ⟨by omega, by omega⟩,
    Nat.add_sub_cancel_left]

theorem Separate.place_injective (separate : h.Separate) (first : h.Covers [a])
    (second : h.Covers [b]) (same : h.place a = h.place b) : a = b := by
  obtain ⟨r, member, inside⟩ := first a List.mem_cons_self
  obtain ⟨r', member', inside'⟩ := second b List.mem_cons_self
  rw [separate.place_eq member inside, separate.place_eq member' inside'] at same
  by_cases one : r = r'
  · subst one
    omega
  · have apart := separate.apart.forall member member' one
    have bytes := apart.2
    omega

theorem Separate.places_range (separate : h.Separate) (member : r ∈ h.regions)
    {address : UInt64} {want : Nat} (inside : r.contains address want = true) {count : Nat}
    (le : count ≤ want) :
    (List.range' address.toNat count).map h.place =
      List.range' (r.origin + (address.toNat - r.base.toNat)) count := by
  have bounds := Region.contains_iff.mp inside
  rw [List.range'_eq_map_range, List.range'_eq_map_range, List.map_map]
  apply List.map_congr_left
  intro i member'
  have below := List.mem_range.mp member'
  rw [Function.comp_apply, separate.place_eq member ⟨by omega, by omega⟩]
  omega

theorem Separate.place_outside (separate : h.Separate) {q : Queue} (apart : h.Apart q)
    (covered : h.Covers [a]) :
    h.place a < q.footprint.origin ∨ q.footprint.origin + q.footprint.size ≤ h.place a := by
  obtain ⟨r, member, inside⟩ := covered a List.mem_cons_self
  have away := apart r member
  rw [separate.place_eq member inside]
  change _ < q.region.origin ∨ q.region.origin + Layout.regionSize q.capacity ≤ _
  omega

theorem Apart.kept {q : Queue} {m m' : Memory} (apart : h.Apart q) (member : r ∈ h.regions)
    (leaves : q.footprint.Leaves m m') {i : Nat} (below : i < r.size) :
    m'.get (r.origin + i) = m.get (r.origin + i) := by
  refine leaves.outside _ ?_
  have away := apart r member
  change _ < q.region.origin ∨ q.region.origin + Layout.regionSize q.capacity ≤ _
  omega

section Transfers

variable (separate : h.Separate) {t : Transfer} (holds : h.Holds t.address t.extent)
  (moves : t.totalBytes ≠ 0)

include separate holds moves

theorem Separate.addresses_within : ∀ a ∈ t.addresses, (∃ r ∈ h.regions, r.base.toNat ≤ a ∧
    a < r.base.toNat + r.size) ∧ t.address.toNat ≤ a ∧ a < t.address.toNat + t.extent := by
  intro a member
  obtain ⟨r, among, inside⟩ := holds
  have bounds := Region.contains_iff.mp inside
  have addressable := separate.addressable r among
  have within := t.chunks_within moves (Nat.le_refl _) (Nat.le_refl _)
  obtain ⟨run, known, here⟩ := List.mem_flatMap.mp member
  have limits := within.runs_within (by omega) known
  have place := List.mem_range'_1.mp here
  exact ⟨⟨r, among, by omega⟩, by omega⟩

theorem Separate.covers : h.Covers t.addresses :=
  fun a member => (separate.addresses_within holds moves a member).1

theorem Separate.addresses_length : t.addresses.length = t.totalBytes := by
  obtain ⟨r, among, inside⟩ := holds
  have bounds := Region.contains_iff.mp inside
  have addressable := separate.addressable r among
  have within := t.chunks_within moves (Nat.le_refl _) (Nat.le_refl _)
  exact Transfer.addresses_length within (by omega)

end Transfers

end HostMap

end FabricQueue
