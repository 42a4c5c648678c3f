import FabricQueue.Proofs.Requests
import FabricQueue.Proofs.Translation

set_option autoImplicit false

namespace FabricQueue

/-- `count` bytes of an array, from a place on. -/
def slice (array : List UInt8) (place count : Nat) : List UInt8 :=
  (array.drop place).take count

/-- The array with other bytes at a place. -/
def splice (array : List UInt8) (place : Nat) (bytes : List UInt8) : List UInt8 :=
  array.take place ++ bytes ++ array.drop (place + bytes.length)

structure Extent where
  origin : Nat
  length : Nat
  deriving DecidableEq, Repr

namespace Extent

variable {e e' : Extent} {m : Memory} {place : Nat}

def array (e : Extent) (m : Memory) : List UInt8 :=
  m.read e.origin e.length

theorem slice_array {count : Nat} (inside : place + count ≤ e.length) :
    slice (e.array m) place count = m.read (e.origin + place) count := by
  rw [slice, array, ByteStore.drop_read m _ (by omega), ByteStore.take_read m _ (by omega)]

theorem array_write {bytes : List UInt8} (backed : e.origin + e.length ≤ m.size)
    (inside : place + bytes.length ≤ e.length) :
    e.array (m.write (e.origin + place) bytes) = splice (e.array m) place bytes := by
  have around (start count : Nat) (apart : start + count ≤ e.origin + place ∨
      e.origin + place + bytes.length ≤ start) :
      (m.write (e.origin + place) bytes).read start count = m.read start count :=
    ByteStore.read_congr _ _ _ _ fun i low high => ByteStore.get_write_apart m _ _ i (by omega)
  have middle := ByteStore.read_write m (e.origin + place) bytes (by omega)
  have parts : e.length = place + (bytes.length + (e.length - (place + bytes.length))) := by omega
  rw [splice, array, array, ByteStore.take_read m _ (by omega), ByteStore.drop_read m _ inside]
  conv_lhs => rw [parts]
  rw [ByteStore.read_append, ByteStore.read_append, middle, around _ _ (by omega),
    around _ _ (by omega), List.append_assoc, Nat.add_assoc]

theorem array_apart {start : Nat} {bytes : List UInt8}
    (apart : e.origin + e.length ≤ start ∨ start + bytes.length ≤ e.origin) :
    e.array (m.write start bytes) = e.array m :=
  ByteStore.read_congr _ _ _ _ fun i low high => ByteStore.get_write_apart m _ _ i (by omega)

end Extent

-- A region, and the number of the array that keeps its bytes.
structure View where
  region : Region
  array : Nat
  deriving DecidableEq, Repr

-- Files and regions that were made one after the other, the arrays they have and the views on these.
-- Whatever is done to the bytes in between.
inductive Machine.Shares : Machine → List Extent → List View → Prop where
  | start {m : Machine} (none : m.files = []) : Shares m [] []
  | filled {m : Machine} {extents : List Extent} {views : List View}
      (shares : Shares m extents views) {memory : Memory} (same : memory.size = m.memory.size) :
      Shares { m with memory } extents views
  | file {m m' : Machine} {extents : List Extent} {views : List View}
      (shares : Shares m extents views) {path : String} {length : Nat}
      (done : addFile path length m = .ok () m') :
      Shares m' (extents ++ [⟨m.memory.size, length⟩]) views
  | own {m m' : Machine} {extents : List Extent} {views : List View}
      (shares : Shares m extents views) {base : UInt64} {size : Nat} {r : Region}
      (done : allocate base size m = .ok r m') :
      Shares m' (extents ++ [⟨m.memory.size, size⟩]) (views ++ [⟨r, extents.length⟩])
  | window {m m' : Machine} {extents : List Extent} {views : List View}
      (shares : Shares m extents views) {path : String} {base : UInt64} {size : Nat} {r : Region}
      {f : MappableFile} {array : Nat} (found : m.file? path = some f)
      (kept : extents[array]? = some ⟨f.origin, f.length⟩)
      (done : mapWindow path base size m = .ok r m') : Shares m' extents (views ++ [⟨r, array⟩])

structure Laid (extents : List Extent) (views : List View) (size : Nat) : Prop where
  inside : ∀ e ∈ extents, e.origin + e.length ≤ size
  apart : extents.Pairwise fun e e' => e.origin + e.length ≤ e'.origin
  placed : ∀ v ∈ views, ∃ e, extents[v.array]? = some e ∧
    v.region.origin = e.origin + v.region.phase ∧ (v.region.mapped = false → v.region.size = e.length)

namespace Laid

variable {extents : List Extent} {views : List View} {size size' : Nat}

theorem grown (laid : Laid extents views size) (e : Extent) (behind : size ≤ e.origin)
    (fits : e.origin + e.length ≤ size') : Laid (extents ++ [e]) views size' := by
  refine ⟨fun other member => ?_, ?_, fun v member => ?_⟩
  · rcases List.mem_append.mp member with old | last
    · have inside := laid.inside other old
      omega
    · exact List.mem_singleton.mp last ▸ fits
  · refine List.pairwise_append.mpr ⟨laid.apart, List.pairwise_singleton _ _, ?_⟩
    intro other old last same
    exact List.mem_singleton.mp same ▸ Nat.le_trans (laid.inside other old) behind
  · obtain ⟨other, kept, place⟩ := laid.placed v member
    have below := (List.getElem?_eq_some_iff.mp kept).1
    exact ⟨other, by rw [List.getElem?_append_left below, kept], place⟩

theorem viewed (laid : Laid extents views size) {v : View} {e : Extent}
    (kept : extents[v.array]? = some e) (place : v.region.origin = e.origin + v.region.phase)
    (whole : v.region.mapped = false → v.region.size = e.length) :
    Laid extents (views ++ [v]) size := by
  refine ⟨laid.inside, laid.apart, fun other member => ?_⟩
  rcases List.mem_append.mp member with old | last
  · exact laid.placed other old
  · exact List.mem_singleton.mp last ▸ ⟨e, kept, place, whole⟩

end Laid

namespace Machine

variable {m m' : Machine} {extents : List Extent} {views : List View}

theorem mapWindow_ok {path : String} {base : UInt64} {size : Nat} {r : Region} {f : MappableFile}
    (found : m.file? path = some f) (done : mapWindow path base size m = .ok r m') :
    r = ⟨f.origin + base.toNat, base, size, true⟩ ∧ m' = m := by
  unfold mapWindow at done
  simp only [found] at done
  split_ifs at done
  cases done
  exact ⟨rfl, rfl⟩

theorem Shares.laid (shares : m.Shares extents views) : Laid extents views m.memory.size := by
  induction shares with
  | start none => exact ⟨nofun, .nil, nofun⟩
  | filled shares same ih => exact same ▸ ih
  | @file m m' extents views shares path length done ih =>
    cases done
    refine ih.grown _ (Nat.le_refl _) ?_
    simp only [ByteStore.size_extend, pageSize]
    omega
  | @own m m' extents views shares base size r done ih =>
    obtain ⟨memory, allocated, rfl⟩ := allocate_cases done
    obtain ⟨rfl, grown⟩ := Region.allocate_ok allocated
    have last : (extents ++ [(⟨m.memory.size, size⟩ : Extent)])[extents.length]? =
        some ⟨m.memory.size, size⟩ := by simp
    exact (ih.grown _ (Nat.le_refl _) (Nat.le_of_eq grown.symm)).viewed last rfl fun _ => rfl
  | window shares found kept done ih =>
    obtain ⟨rfl, rfl⟩ := mapWindow_ok found done
    exact ih.viewed kept rfl nofun

end Machine

/-- The bytes of all allocations and files. -/
abbrev Arrays := List (List UInt8)

def arraysOf (extents : List Extent) (m : Memory) : Arrays :=
  extents.map fun e => e.array m

namespace View

-- Where a request to a view stands in the array.
def place (v : View) (q : Region.Request) : Nat :=
  v.region.phase + q.offset

-- The request is inside the region, and aligned.
structure Grants (v : View) (q : Region.Request) : Prop where
  inside : q.offset + q.len ≤ v.region.size
  aligned : v.place q % q.alignment = 0

-- A window may be longer than its file, but no request that is inside the window goes behind the
-- end of the file.
def Covers (extents : List Extent) (v : View) (q : Region.Request) : Prop :=
  v.region.mapped = true → q.offset + q.len ≤ v.region.size →
    ∃ e, extents[v.array]? = some e ∧ v.place q + q.len ≤ e.length

end View

namespace Arrays

/-- What a request to a view finds and makes of the arrays. -/
def ask (arrays : Arrays) (v : View) (q : Region.Request) : Except Error Region.Reading × Arrays :=
  if v.region.size < q.offset + q.len then
    (.error (.outOfBounds q.offset q.len v.region.size), arrays)
  else if v.place q % q.alignment ≠ 0 then
    (.error (.invalidAddress (UInt64.ofNat (v.region.base.toNat + q.offset))
      (.misaligned q.alignment)), arrays)
  else
    let array := arrays.getD v.array []
    let seen := slice array (v.place q) q.len
    (.ok (q.reading seen), arrays.set v.array (splice array (v.place q) (q.stored seen)))

def askAll (arrays : Arrays) :
    List (View × Region.Request) → List (Except Error Region.Reading) × Arrays
  | [] => ([], arrays)
  | (v, q) :: rest =>
    let (answer, arrays) := arrays.ask v q
    let (answers, arrays) := askAll arrays rest
    (answer :: answers, arrays)

end Arrays

def View.ask (v : View) (q : Region.Request) (m : Memory) : Except Failure Region.Reading × Memory :=
  match v.region.serve q m with
  | .ok reading m => (.ok reading, m)
  | .error failure m => (.error failure, m)

/-- Requests to views, one after the other. -/
def askAll : List (View × Region.Request) → Memory → List (Except Failure Region.Reading) × Memory
  | [], m => ([], m)
  | (v, q) :: rest, m =>
    let (answer, m) := v.ask q m
    let (answers, m) := askAll rest m
    (answer :: answers, m)

section Serving

open Region

variable {extents : List Extent} {views : List View} {m : Memory} {v : View} {q : Request}

theorem arraysOf_write (laid : Laid extents views m.size) {array place : Nat} {e : Extent}
    {bytes : List UInt8} (kept : extents[array]? = some e)
    (inside : place + bytes.length ≤ e.length) :
    arraysOf extents (m.write (e.origin + place) bytes) =
      (arraysOf extents m).set array (splice (e.array m) place bytes) := by
  obtain ⟨below, here⟩ := List.getElem?_eq_some_iff.mp kept
  apply List.ext_getElem
  · simp [arraysOf]
  intro i low high
  simp only [arraysOf, List.getElem_map, List.getElem_set]
  by_cases same : array = i
  · subst same
    rw [if_pos rfl, here]
    exact Extent.array_write (laid.inside e (here ▸ List.getElem_mem below)) inside
  · rw [if_neg same]
    have bound : i < extents.length := by simpa [arraysOf] using low
    apply Extent.array_apart
    have order := List.pairwise_iff_getElem.mp laid.apart
    rcases Nat.lt_or_gt_of_ne same with before | behind
    · have gap := order array i below bound before
      rw [here] at gap
      omega
    · have gap := order i array bound below behind
      rw [here] at gap
      omega

theorem Laid.covered (laid : Laid extents views m.size) (member : v ∈ views)
    (covers : v.Covers extents q) (inside : q.offset + q.len ≤ v.region.size) :
    ∃ e, extents[v.array]? = some e ∧ v.region.origin = e.origin + v.region.phase ∧
      v.place q + q.len ≤ e.length := by
  obtain ⟨e, kept, origin, whole⟩ := laid.placed v member
  refine ⟨e, kept, origin, ?_⟩
  cases mapped : v.region.mapped with
  | false =>
    have size := whole mapped
    simp only [View.place, phase, mapped, Bool.false_eq_true, if_false]
    omega
  | true =>
    obtain ⟨other, same, short⟩ := covers mapped inside
    cases kept.symm.trans same
    exact short

theorem serve_grants (grants : v.Grants q) : v.ask q m =
    (.ok (q.reading (m.read (v.region.origin + q.offset) q.len)),
      m.write (v.region.origin + q.offset)
        (q.stored (m.read (v.region.origin + q.offset) q.len))) := by
  have located : v.region.locate q.offset q.len q.alignment = .ok (v.region.origin + q.offset) :=
    locate_ok grants.inside grants.aligned
  simp only [View.ask, serve_granted located]

-- Words that have to be aligned are not empty, so one that is in the region has an address.
theorem View.addressed (narrow : v.region.base.toNat + v.region.size ≤ UInt64.size)
    (inside : q.offset + q.len ≤ v.region.size) (misaligned : v.place q % q.alignment ≠ 0) :
    v.region.base.toNat + q.offset < UInt64.size := by
  have some : q.alignment = 1 ∨ 0 < q.len := by
    cases q <;> simp [Request.alignment, Request.len]
  rcases some with bytes | some
  · exact absurd (bytes ▸ Nat.mod_one _) misaligned
  · omega

theorem ask_refused (narrow : v.region.base.toNat + v.region.size ≤ UInt64.size)
    (refused : ¬v.Grants q) (arrays : Arrays) :
    ∃ cause, v.ask q m = (.error (.error cause), m) ∧ arrays.ask v q = (.error cause, arrays) := by
  by_cases outside : v.region.size < q.offset + q.len
  · have located : v.region.locate q.offset q.len q.alignment =
        .error (.error (.outOfBounds q.offset q.len v.region.size)) := if_pos outside
    refine ⟨.outOfBounds q.offset q.len v.region.size, ?_, ?_⟩
    · simp only [View.ask, serve_refused located]
    · simp [Arrays.ask, outside]
  · have inside := Nat.not_lt.mp outside
    have misaligned : v.place q % q.alignment ≠ 0 := fun aligned => refused ⟨inside, aligned⟩
    have located := locate_misaligned inside misaligned
      (addWord_ok (View.addressed narrow inside misaligned))
    refine ⟨.invalidAddress (UInt64.ofNat (v.region.base.toNat + q.offset))
      (.misaligned q.alignment), ?_, ?_⟩
    · simp only [View.ask, serve_refused located]
    · simp [Arrays.ask, outside, misaligned]

theorem ask_arrays (laid : Laid extents views m.size) (member : v ∈ views)
    (narrow : v.region.base.toNat + v.region.size ≤ UInt64.size) (covers : v.Covers extents q) :
    (v.ask q m).1 = ((arraysOf extents m).ask v q).1.mapError Failure.error ∧
      arraysOf extents (v.ask q m).2 = ((arraysOf extents m).ask v q).2 ∧
      (v.ask q m).2.size = m.size := by
  by_cases grants : v.Grants q
  · obtain ⟨e, kept, origin, short⟩ := laid.covered member covers grants.inside
    have start : v.region.origin + q.offset = e.origin + v.place q := by
      rw [origin, View.place, Nat.add_assoc]
    have here : (arraysOf extents m).getD v.array [] = e.array m := by
      simp [arraysOf, kept]
    have seen := Extent.slice_array (m := m) short
    have fits : v.place q + (q.stored (m.read (e.origin + v.place q) q.len)).length ≤ e.length := by
      rcases q.length_stored (m.read (e.origin + v.place q) q.len) with whole | none
      · omega
      · rw [none, List.length_nil]
        omega
    have answered : (arraysOf extents m).ask v q =
        (.ok (q.reading (m.read (e.origin + v.place q) q.len)),
          (arraysOf extents m).set v.array
            (splice (e.array m) (v.place q) (q.stored (m.read (e.origin + v.place q) q.len)))) := by
      simp only [Arrays.ask, Nat.not_lt.mpr grants.inside, grants.aligned, here, seen, if_false,
        ne_eq, not_true_eq_false]
    rw [serve_grants grants, start, answered]
    exact ⟨rfl, arraysOf_write laid kept fits, ByteStore.size_write _ _ _⟩
  · obtain ⟨cause, served, answered⟩ := ask_refused (m := m) narrow grants (arraysOf extents m)
    rw [served, answered]
    exact ⟨rfl, rfl, rfl⟩

theorem askAll_arrays (laid : Laid extents views m.size) {calls : List (View × Request)}
    (narrow : ∀ v ∈ views, v.region.base.toNat + v.region.size ≤ UInt64.size)
    (known : ∀ c ∈ calls, c.1 ∈ views ∧ c.1.Covers extents c.2) :
    (askAll calls m).1 =
        ((arraysOf extents m).askAll calls).1.map (·.mapError Failure.error) ∧
      arraysOf extents (askAll calls m).2 = ((arraysOf extents m).askAll calls).2 ∧
      (askAll calls m).2.size = m.size := by
  induction calls generalizing m with
  | nil => exact ⟨rfl, rfl, rfl⟩
  | cons c rest ih =>
    obtain ⟨v, q⟩ := c
    obtain ⟨member, covers⟩ := known _ List.mem_cons_self
    obtain ⟨answer, arrays, size⟩ := ask_arrays laid member (narrow v member) covers
    obtain ⟨answers, last, sizes⟩ := ih (size ▸ laid)
      fun c among => known c (List.mem_cons_of_mem _ among)
    simp only [askAll, Arrays.askAll, List.map_cons, answer, answers, last, arrays, true_and]
    exact sizes.trans size

def View.stored (v : View) (q : Request) (m : Memory) : List UInt8 :=
  q.stored (m.read (v.region.origin + q.offset) q.len)

-- What a request that was granted leaves: every window on the same file shows what was stored at the
-- same physical address, and no other byte has changed.
structure View.Leaves (views : List View) (v : View) (q : Request) (m m' : Memory) : Prop where
  outside : ∀ i, i < v.region.origin + q.offset ∨
    v.region.origin + q.offset + (v.stored q m).length ≤ i → m'.get i = m.get i
  shown : ∀ v' ∈ views, v'.array = v.array → v.region.mapped = true → v'.region.mapped = true →
    ∀ offset, v'.region.base.toNat + offset = v.region.base.toNat + q.offset →
      offset + (v.stored q m).length ≤ v'.region.size →
      v'.ask (.readBytes offset (v.stored q m).length) m' = (.ok (.bytes (v.stored q m)), m')

theorem View.Grants.leaves (grants : v.Grants q) (laid : Laid extents views m.size)
    (member : v ∈ views) (covers : v.Covers extents q) :
    View.Leaves views v q m (v.ask q m).2 := by
  obtain ⟨e, kept, origin, short⟩ := laid.covered member covers grants.inside
  have backed := laid.inside e (List.mem_of_getElem? kept)
  have fits : (v.stored q m).length ≤ q.len := by
    rcases q.length_stored (m.read (v.region.origin + q.offset) q.len) with whole | none
    · exact Nat.le_of_eq whole
    · simp [View.stored, none]
  rw [serve_grants grants]
  refine ⟨fun i apart => ByteStore.get_write_apart m _ _ i apart, ?_⟩
  intro v' among same mapped mapped' offset address within
  obtain ⟨e', kept', origin', _⟩ := laid.placed v' among
  rw [same, kept] at kept'
  cases kept'
  simp only [View.place, phase, mapped, mapped', if_true] at origin origin' short
  have start : v'.region.origin + offset = v.region.origin + q.offset := by omega
  have read : v'.Grants (.readBytes offset (v.stored q m).length) := ⟨within, Nat.mod_one _⟩
  have back := ByteStore.read_write m (v.region.origin + q.offset) (v.stored q m) (by omega)
  simp only [serve_grants read, Request.offset, Request.len, Request.reading, Request.stored, start]
  exact congrArg (fun bytes => (Except.ok (Reading.bytes bytes), _)) back

end Serving

namespace Machine

open Region

variable {m : Machine} {extents : List Extent} {views : List View}

-- Requests to regions are answered as the arrays of bytes answer them, and leave the arrays as these
-- say. In every state they lead to a request is granted exactly if it is in bounds and aligned.
theorem asked_as_arrays (shares : m.Shares extents views)
    (narrow : ∀ v ∈ views, v.region.base.toNat + v.region.size ≤ UInt64.size)
    (calls : List (View × Request))
    (known : ∀ c ∈ calls, c.1 ∈ views ∧ c.1.Covers extents c.2) :
    (askAll calls m.memory).1 =
      ((arraysOf extents m.memory).askAll calls).1.map (·.mapError Failure.error) ∧
    arraysOf extents (askAll calls m.memory).2 = ((arraysOf extents m.memory).askAll calls).2 ∧
    ∀ v ∈ views, ∀ q, v.Covers extents q →
      ((∃ reading, (v.ask q (askAll calls m.memory).2).1 = .ok reading) ↔ v.Grants q) ∧
      (¬v.Grants q → ∃ cause, v.ask q (askAll calls m.memory).2 =
        (.error (.error cause), (askAll calls m.memory).2)) ∧
      (v.Grants q → View.Leaves views v q (askAll calls m.memory).2
        (v.ask q (askAll calls m.memory).2).2) := by
  have laid := shares.laid
  obtain ⟨answers, arrays, size⟩ := askAll_arrays laid narrow known
  refine ⟨answers, arrays, fun v member q covers => ⟨⟨fun answered => ?_, fun grants => ?_⟩,
    fun refused => ?_, fun grants => grants.leaves (size ▸ laid) member covers⟩⟩
  · by_contra refused
    obtain ⟨reading, answered⟩ := answered
    obtain ⟨cause, served, _⟩ :=
      ask_refused (m := (askAll calls m.memory).2) (narrow v member) refused []
    rw [served] at answered
    cases answered
  · exact ⟨_, congrArg Prod.fst (serve_grants grants)⟩
  · obtain ⟨cause, served, _⟩ := ask_refused (narrow v member) refused []
    exact ⟨cause, served⟩

-- A file of 16 bytes, a window on the whole of it and one on eight bytes inside.
def sampleFile : Machine where
  memory := ByteStore.empty.extend 4096
  files := [⟨"f", 0, 16⟩]

def sampleWhole : View :=
  ⟨⟨0, 0, 16, true⟩, 0⟩

def sampleInner : View :=
  ⟨⟨4, 4, 8, true⟩, 0⟩

theorem sampleFile_shares : sampleFile.Shares [⟨0, 16⟩] [sampleWhole, sampleInner] := by
  have added : addFile "f" 16 {} = .ok () sampleFile := rfl
  have outer : mapWindow "f" 0 16 sampleFile = .ok sampleWhole.region sampleFile := rfl
  have inner : mapWindow "f" 4 8 sampleFile = .ok sampleInner.region sampleFile := rfl
  exact .window (.window (.file (.start rfl) added) rfl rfl outer) rfl rfl inner

theorem sampleFile_covers {v : View} (member : v ∈ [sampleWhole, sampleInner]) (q : Request) :
    v.Covers [⟨0, 16⟩] q := by
  intro _ inside
  simp only [List.mem_cons, List.not_mem_nil, or_false] at member
  rcases member with rfl | rfl
  · exact ⟨_, rfl, by simpa [View.place, phase, sampleWhole] using inside⟩
  · refine ⟨_, rfl, ?_⟩
    simp only [View.place, phase, sampleInner, if_true] at inside ⊢
    have base : (4 : UInt64).toNat = 4 := rfl
    omega

-- A word stored through the inner window is read through the other one; a word on no grid is refused.
theorem asked_as_arrays_sample :
    ∃ after, after = (askAll [(sampleWhole, .fetchAdd 8 5)] sampleFile.memory).2 ∧
      sampleWhole.ask (.readBytes 8 4) (sampleInner.ask (.write32 4 7) after).2 =
        (.ok (.bytes [7, 0, 0, 0]), (sampleInner.ask (.write32 4 7) after).2) ∧
      ∃ cause, sampleInner.ask (.write32 2 7) after = (.error (.error cause), after) := by
  have narrow : ∀ v ∈ [sampleWhole, sampleInner],
      v.region.base.toNat + v.region.size ≤ UInt64.size := by decide
  have whole : sampleWhole ∈ [sampleWhole, sampleInner] := by simp
  have inner : sampleInner ∈ [sampleWhole, sampleInner] := by simp
  have granted : sampleInner.Grants (.write32 4 7) := ⟨by decide, by decide⟩
  have refused : ¬sampleInner.Grants (.write32 2 7) := fun grants =>
    absurd grants.aligned (by decide)
  obtain ⟨_, _, every⟩ := asked_as_arrays sampleFile_shares narrow
    [(sampleWhole, .fetchAdd 8 5)] fun c member => by
      cases List.mem_singleton.mp member
      exact ⟨whole, sampleFile_covers whole _⟩
  obtain ⟨_, _, leaves⟩ := every _ inner (.write32 4 7) (sampleFile_covers inner _)
  obtain ⟨_, refuses, _⟩ := every _ inner (.write32 2 7) (sampleFile_covers inner _)
  exact ⟨_, rfl, (leaves granted).shown _ whole rfl rfl rfl 8 rfl (by decide), refuses refused⟩

end Machine

end FabricQueue
