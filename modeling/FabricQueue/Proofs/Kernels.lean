import FabricQueue.Proofs.Channels

set_option autoImplicit false

namespace FabricQueue

def AddBuffers.names (b : AddBuffers) : List String :=
  [b.left, b.right, b.sum]

def AddKernel.names (k : AddKernel) : List String :=
  k.ping.names ++ k.pong.names

namespace TileBuffers

structure Beside (s s' : TileBuffers) (names : List String) : Prop where
  positions : ∀ name, s'.position? name = s.position? name
  others : ∀ i, (∀ name ∈ names, s.position? name ≠ some i) → s'.items[i]? = s.items[i]?

variable {s s' s'' : TileBuffers} {names names' : List String}

theorem Beside.refl (s : TileBuffers) (names : List String) : s.Beside s names :=
  ⟨fun _ => rfl, fun _ _ => rfl⟩

theorem Beside.trans (first : s.Beside s' names) (second : s'.Beside s'' names) :
    s.Beside s'' names := by
  refine ⟨fun name => (second.positions name).trans (first.positions name), fun i away => ?_⟩
  rw [second.others i fun name member => first.positions name ▸ away name member,
    first.others i away]

theorem Beside.mono (beside : s.Beside s' names) (subset : names ⊆ names') : s.Beside s' names' :=
  ⟨beside.positions, fun i away => beside.others i fun name member => away name (subset member)⟩

theorem modifyNamed_beside (s : TileBuffers) {name : String} (member : name ∈ names)
    (change : TileBuffer → TileBuffer) (keeps : ∀ b, (change b).name = b.name) :
    s.Beside (s.modifyNamed name change) names := by
  unfold modifyNamed
  cases found : s.position? name with
  | none => exact Beside.refl s names
  | some position =>
    refine ⟨position?_modify s position keeps, fun i away => ?_⟩
    have other : position ≠ i := fun same => away name member (same ▸ found)
    rw [get_modify, if_neg other]

theorem position?_modifyNamed (s : TileBuffers) (name : String) (change : TileBuffer → TileBuffer)
    (keeps : ∀ b, (change b).name = b.name) (other : String) :
    (s.modifyNamed name change).position? other = s.position? other :=
  (s.modifyNamed_beside (List.mem_singleton_self name) change keeps).positions other

theorem get_modifyNamed {name : String} {position : Nat} (found : s.position? name = some position)
    (change : TileBuffer → TileBuffer) (i : Nat) : (s.modifyNamed name change).items[i]? =
      if position = i then s.items[i]?.map change else s.items[i]? := by
  simp only [modifyNamed, found, get_modify]

end TileBuffers

namespace AddKernel

variable {k k' : AddKernel} {s s' : TileBuffers}

theorem current_subset (k : AddKernel) : k.current.names ⊆ k.names := by
  unfold current names
  split
  · exact List.subset_append_right _ _
  · exact List.subset_append_left _ _

theorem added_beside (names : AddBuffers) (total : List UInt32) (s : TileBuffers) :
    s.Beside (added names total s) names.names := by
  have left : names.left ∈ names.names := by simp [AddBuffers.names]
  have right : names.right ∈ names.names := by simp [AddBuffers.names]
  have sum : names.sum ∈ names.names := by simp [AddBuffers.names]
  refine (((s.modifyNamed_beside sum _ ?_).trans
    (TileBuffers.modifyNamed_beside _ left _ ?_)).trans
      (TileBuffers.modifyNamed_beside _ right _ ?_)).trans
        (TileBuffers.modifyNamed_beside _ sum _ ?_) <;> exact fun _ => rfl

theorem stepAll_beside (kernels : List AddKernel) (s : TileBuffers) :
    s.Beside (stepAll kernels s).2.2 (kernels.flatMap names) ∧
      (stepAll kernels s).2.1.map names = kernels.map names := by
  induction kernels generalizing s with
  | nil => exact ⟨TileBuffers.Beside.refl s _, rfl⟩
  | cons k rest ih =>
    have front : k.names ⊆ (k :: rest).flatMap names :=
      List.flatMap_cons ▸ List.subset_append_left _ _
    have back : rest.flatMap names ⊆ (k :: rest).flatMap names :=
      List.flatMap_cons ▸ List.subset_append_right _ _
    unfold stepAll
    cases stepped : k.step s with
    | none =>
      obtain ⟨beside, same⟩ := ih s
      exact ⟨beside.mono back, congrArg (k.names :: ·) same⟩
    | some next =>
      obtain ⟨k', s'⟩ := next
      obtain ⟨rfl, total, rfl⟩ := step_cases stepped
      obtain ⟨beside, same⟩ := ih (added k.current total s)
      exact ⟨(((added_beside _ _ s).mono k.current_subset).mono front).trans (beside.mono back),
        congrArg (k.names :: ·) same⟩

section Ready

variable {i j n : Nat} {a b c : TileBuffer} (left : s.position? k.current.left = some i)
  (right : s.position? k.current.right = some j) (sum : s.position? k.current.sum = some n)
  (first : s.items[i]? = some a) (second : s.items[j]? = some b) (third : s.items[n]? = some c)

include left right sum first second third

theorem step_eq : k.step s =
    if a.full && b.full && !c.full then
      some ({ k with onPong := !k.onPong },
        added k.current (List.zipWith (· + ·) a.words b.words) s)
    else none := by
  have inputs : s.find? k.current.left = some a ∧ s.find? k.current.right = some b := by
    simp only [TileBuffers.find?, left, right, Option.bind_some, first, second, and_self]
  have output : s.find? k.current.sum = some c := by
    simp only [TileBuffers.find?, sum, Option.bind_some, third]
  unfold step
  simp only [inputs, output]
  rfl

theorem added_get (apart : i ≠ j ∧ i ≠ n ∧ j ≠ n) (total : List UInt32) :
    (added k.current total s).items[i]? = some (a.setFull false) ∧
      (added k.current total s).items[j]? = some (b.setFull false) ∧
      (added k.current total s).items[n]? = some ((c.load total).setFull true) := by
  obtain ⟨ij, im, jm⟩ := apart
  have loaded := s.position?_modifyNamed k.current.sum (fun b => b.load total) fun _ => rfl
  have released := (s.modifyNamed k.current.sum fun b => b.load total).position?_modifyNamed
    k.current.left (fun b => b.setFull false) fun _ => rfl
  have emptied := ((s.modifyNamed k.current.sum fun b => b.load total).modifyNamed k.current.left
    fun b => b.setFull false).position?_modifyNamed k.current.right (fun b => b.setFull false)
      fun _ => rfl
  have last := (emptied k.current.sum).trans ((released _).trans ((loaded _).trans sum))
  have next := (released k.current.right).trans ((loaded _).trans right)
  have entry (m : Nat) := TileBuffers.get_modifyNamed last (fun b => b.setFull true) m
  simp only [TileBuffers.get_modifyNamed next, TileBuffers.get_modifyNamed ((loaded _).trans left),
    TileBuffers.get_modifyNamed sum] at entry
  refine ⟨(entry i).trans ?_, (entry j).trans ?_, (entry n).trans ?_⟩
  · rw [if_neg im.symm, if_neg ij.symm, if_pos rfl, if_neg im.symm, first]
    rfl
  · rw [if_neg jm.symm, if_pos rfl, if_neg ij, if_neg jm.symm, second]
    rfl
  · rw [if_pos rfl, if_neg jm, if_neg im, if_pos rfl, third]
    rfl

end Ready

end AddKernel

end FabricQueue
