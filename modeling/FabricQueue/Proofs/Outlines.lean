import FabricQueue.Proofs.Kernels
import FabricQueue.Scenario.Report

set_option autoImplicit false

namespace FabricQueue

structure TileBuffer.Shape where
  name : String
  length : Nat
  full : Bool
  cursor : Nat
  deriving DecidableEq

def TileBuffer.shape (b : TileBuffer) : TileBuffer.Shape :=
  ⟨b.name, b.byteLength, b.full, b.cursor⟩

namespace TileArray

structure Outline where
  buffers : List TileBuffer.Shape
  routes : List (Endpoint × Route)
  kernels : List AddKernel
  deriving DecidableEq

def outline (t : TileArray) : Outline :=
  ⟨t.buffers.items.toList.map TileBuffer.shape, t.routes, t.kernels⟩

variable {t : TileArray} {o : Outline}

theorem outline_buffer (same : t.outline = o) {i : Nat} {shape : TileBuffer.Shape}
    (found : o.buffers[i]? = some shape) :
    ∃ b, t.buffers.items[i]? = some b ∧ b.shape = shape := by
  rw [← same, outline, List.getElem?_map, Array.getElem?_toList] at found
  exact Option.map_eq_some_iff.mp found

theorem outline_position (same : t.outline = o) (name : String) :
    t.buffers.position? name = o.buffers.findIdx? fun shape => shape.name == name := by
  rw [← same, outline, List.findIdx?_map, TileBuffers.position?_eq, List.findIdx?_map]
  rfl

theorem writeBuffer_outline {name : String} {i : Nat} {shape : TileBuffer.Shape}
    (same : t.outline = o) (place : (o.buffers.findIdx? fun shape => shape.name == name) = some i)
    (known : o.buffers[i]? = some shape) {index : Nat} (fits : 4 * index + 4 ≤ shape.length)
    (narrow : 4 * index < UInt64.size) (value : UInt32) :
    ∃ t', t.writeBuffer name index value = .ok t' ∧ t'.outline = o := by
  obtain ⟨b, found, shaped⟩ := outline_buffer same known
  have length : b.byteLength = shape.length := congrArg TileBuffer.Shape.length shaped
  have located : t.locate name index = .ok i := by
    have position := (outline_position same name).trans place
    simp only [locate, TileArray.position, position, found, Option.map_some, Option.getD_some]
    rw [if_neg (Nat.not_le.mpr narrow), if_neg (by omega)]
  refine ⟨_, except_bind_iff.mpr ⟨i, located, rfl⟩, ?_⟩
  have kept (b : TileBuffer) : (b.setWord index value).shape = b.shape := by
    simp only [TileBuffer.shape, TileBuffer.setWord, TileBuffer.byteLength, ByteStore.write32,
      ByteStore.size_write]
  rw [← same, outline, outline]
  congr 1
  apply List.ext_getElem?
  intro j
  rw [List.getElem?_map, List.getElem?_map, Array.getElem?_toList, Array.getElem?_toList,
    TileBuffers.get_modify]
  split
  · rw [Option.map_map]
    exact congrArg (fun f => Option.map f t.buffers.items[j]?) (funext kept)
  · rfl

theorem writeWords_outline {name : String} {i : Nat} {shape : TileBuffer.Shape}
    (same : t.outline = o) (place : (o.buffers.findIdx? fun shape => shape.name == name) = some i)
    (known : o.buffers[i]? = some shape) (narrow : shape.length < UInt64.size) (words : List UInt32)
    (fits : 4 * words.length ≤ shape.length) :
    ∃ t', t.writeWords name words = .ok t' ∧ t'.outline = o := by
  -- The words that are left begin at some index.
  suffices rest : ∀ (words : List UInt32) (k : Nat) (t : TileArray), t.outline = o →
      4 * (k + words.length) ≤ shape.length → ∃ t',
        (words.zipIdx k).foldlM (fun t entry => t.writeBuffer name entry.2 entry.1) t = .ok t' ∧
          t'.outline = o from
    rest words 0 t same (by omega)
  intro words
  induction words with
  | nil => exact fun k t same _ => ⟨t, rfl, same⟩
  | cons word words ih =>
    intro k t same fits
    rw [List.length_cons] at fits
    obtain ⟨t₁, wrote, same₁⟩ := writeBuffer_outline same place known
      (show 4 * k + 4 ≤ shape.length by omega) (by omega) word
    obtain ⟨t', rest, same'⟩ := ih (k + 1) t₁ same₁ (by omega)
    exact ⟨t', except_bind_iff.mpr ⟨t₁, wrote, rest⟩, same'⟩

theorem readBuffer_ok {name : String} {i index : Nat} {b : TileBuffer}
    (place : t.buffers.position? name = some i) (found : t.buffers.items[i]? = some b)
    (fits : 4 * index + 4 ≤ b.byteLength) (narrow : b.byteLength < UInt64.size) :
    t.readBuffer name index = .ok (b.word index) := by
  have located : t.locate name index = .ok i := by
    simp only [locate, TileArray.position, place, found, Option.map_some, Option.getD_some]
    rw [if_neg (by omega), if_neg (by omega)]
  refine except_bind_iff.mpr ⟨i, located, ?_⟩
  rw [found]
  rfl

theorem runKernels_waits (unlocked : ∀ b ∈ t.buffers.items, b.full = false) :
    t.runKernels = (false, t) := by
  have step (k : AddKernel) : k.step t.buffers = none := by
    simp only [AddKernel.step]
    split
    next left right sum first second third =>
      obtain ⟨i, _, found⟩ := Option.bind_eq_some_iff.mp first
      rw [unlocked left (Array.mem_of_getElem? found)]
      rfl
    · rfl
  have all (kernels : List AddKernel) :
      AddKernel.stepAll kernels t.buffers = (false, kernels, t.buffers) := by
    induction kernels with
    | nil => rfl
    | cons k rest ih => simp only [AddKernel.stepAll, step, ih]
  simp only [runKernels, all]

theorem outline_waits (same : t.outline = o) (unlocked : ∀ shape ∈ o.buffers, shape.full = false) :
    t.runKernels = (false, t) := by
  refine runKernels_waits fun b member => unlocked b.shape ?_
  rw [← same]
  exact List.mem_map_of_mem (Array.mem_toList_iff.mpr member)

end TileArray

end FabricQueue
