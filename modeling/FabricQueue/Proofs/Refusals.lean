import FabricQueue.Proofs.TileSteps

set_option autoImplicit false

namespace FabricQueue

section Words

variable {b : TileBuffer} {index : Nat}

theorem TileBuffer.word_setWord (inside : index < b.wordCount) (value : UInt32) (i : Nat) :
    (b.setWord index value).word i = if index = i then value else b.word i := by
  unfold wordCount byteLength at inside
  rw [word, setWord]
  split
  next same =>
    subst same
    exact b.store.read32_write32 _ _ (by omega)
  next other => exact b.store.read32_write32_apart _ _ _ (by omega)

theorem TileBuffer.words_setWord (inside : index < b.wordCount) (value : UInt32) :
    (b.setWord index value).words = b.words.set index value := by
  have count : (b.setWord index value).wordCount = b.wordCount := by
    rw [wordCount, setWord, ByteStore.write32, byteLength_write, wordCount]
  rw [words, words, count]
  apply List.ext_getElem
  · simp
  · intro i _ _
    rw [List.getElem_set, List.getElem_map, List.getElem_map, List.getElem_range]
    exact word_setWord inside value i

end Words

namespace TileArray

variable {t t' : TileArray} {q : Request} {b : TileBuffer}

-- The word that a request is about.
def Request.word : Request → Option (String × Nat)
  | read name index | write name index _ => some (name, index)
  | _ => none

theorem find?_iff {name : String} : t.buffers.find? name = some b ↔
    ∃ i, t.position name = .ok i ∧ t.buffers.items[i]? = some b := by
  rw [TileBuffers.find?, Option.bind_eq_some_iff]
  refine exists_congr fun i => and_congr_left fun _ => ?_
  cases named : t.buffers.position? name <;> simp [position, named]

theorem locate_failure {name : String} {index : Nat} {failure : Failure}
    (refused : t.locate name index = .error failure) :
    (∃ cause, failure = .error cause) ∨
      failure = .overflow .multiplication ∧ UInt64.size ≤ 4 * index := by
  unfold locate at refused
  split at refused
  · cases refused
    exact .inl ⟨_, rfl⟩
  · dsimp only at refused
    split_ifs at refused with wide
    · cases refused
      exact .inr ⟨rfl, wide⟩
    · cases refused
      exact .inl ⟨_, rfl⟩

theorem named_failure {ε α β : Type} {x : Except ε α} {wrap : ε → Error} {change : α → β}
    {failure : Failure}
    (refused : (x.mapError (Failure.error ∘ wrap)).map change = .error failure) :
    ∃ cause, failure = .error cause := by
  cases x with
  | error fault =>
    cases refused
    exact ⟨_, rfl⟩
  | ok a => cases refused

theorem bind_failure {ε α β γ : Type} {x : Except ε α} {next : α → β} {change : β → γ} {failure : ε}
    (refused : (x >>= fun a => pure (next a)).map change = .error failure) : x = .error failure := by
  cases x with
  | error failure =>
    cases refused
    rfl
  | ok a => cases refused

theorem serve_failure {failure : Failure} (refused : t.serve q = .error failure) :
    (∃ cause, failure = .error cause) ∨ failure = .overflow .multiplication ∧
      ∃ name index, q.word = some (name, index) ∧ UInt64.size ≤ 4 * index := by
  cases q with
  | addBuffer name words => exact .inl (named_failure refused)
  | route e names => exact .inl (named_failure refused)
  | read name index =>
    exact (locate_failure (bind_failure refused)).imp_right fun wide => ⟨wide.1, _, _, rfl, wide.2⟩
  | write name index value =>
    exact (locate_failure (bind_failure refused)).imp_right fun wide => ⟨wide.1, _, _, rfl, wide.2⟩
  | setFull name full => exact .inl (named_failure refused)
  | stream e host =>
    simp only [serve] at refused
    split at refused
    · exact .inl (named_failure refused)
    · exact .inl (named_failure refused)

theorem word_refused {name : String} {index : Nat} {failure : Failure}
    (refused : t.locate name index = .error failure) (about : q.word = some (name, index)) :
    t.serve q = .error failure := by
  cases q <;> cases about
  · simp only [serve, readBuffer, refused]
    rfl
  · simp only [serve, writeBuffer, refused]
    rfl

section Access

variable {name : String} {index : Nat} (known : t.buffers.find? name = some b)

include known

theorem Within.word_granted (within : t.Within) (inside : index < b.wordCount) :
    t.serve (.read name index) = .ok (.word (b.word index), t) ∧
      ∀ value, ∃ t', t.serve (.write name index value) = .ok (.nothing, t') := by
  obtain ⟨i, named, found⟩ := find?_iff.mp known
  have fits := within.fits i b found
  have narrow : allocationLimit < UInt64.size := by decide
  have placed : t.locate name index = .ok i := by
    rw [locate_known named found, if_neg, if_neg (Nat.not_le.mpr inside)]
    unfold TileBuffer.wordCount at inside
    omega
  constructor
  · simp only [serve, readBuffer, placed]
    exact congrArg (fun value => Except.ok (Reading.word value, t)) (word_found found)
  · intro value
    simp only [serve, writeBuffer, placed]
    exact ⟨_, rfl⟩

theorem locate_past (past : b.wordCount ≤ index) (narrow : 4 * index < UInt64.size) :
    t.locate name index = .error (.error (.outOfBounds (4 * index) 4 b.byteLength)) := by
  obtain ⟨i, named, found⟩ := find?_iff.mp known
  rw [locate_known named found, if_neg (Nat.not_le.mpr narrow), if_pos past]

theorem locate_wide (wide : UInt64.size ≤ 4 * index) :
    t.locate name index = .error (.overflow .multiplication) := by
  obtain ⟨i, named, found⟩ := find?_iff.mp known
  rw [locate_known named found, if_pos wide]

end Access

theorem write_once {name : String} {index : Nat} {value : UInt32} {reading : Reading}
    (written : t.serve (.write name index value) = .ok (reading, t')) :
    ∃ i b store, t.buffers.find? name = some b ∧ t.buffers.items[i]? = some b ∧ index < b.wordCount ∧
      t' = { t with buffers := t.buffers.modify i fun b => { b with store } } ∧
      TileBuffer.words { b with store } = b.words.set index value ∧ store.size = b.store.size ∧
      ∀ k, k < 4 * index ∨ 4 * index + 4 ≤ k → store.get k = b.store.get k := by
  obtain ⟨_, placed, same⟩ := except_map_iff.mp written
  cases same
  obtain ⟨i, located, placed⟩ := except_bind_iff.mp placed
  cases placed
  cases named : t.position name with
  | error fault => cases (locate_unknown named).symm.trans located
  | ok i =>
    obtain ⟨b, found⟩ := position_found named
    rw [locate_known named found] at located
    split_ifs at located with _ outside
    cases located
    have inside := Nat.lt_of_not_le outside
    refine ⟨i, b, b.store.write32 (4 * index) value, find?_iff.mpr ⟨i, named, found⟩, found, inside, ?_,
      TileBuffer.words_setWord inside value, ByteStore.size_write _ _ _,
      fun k apart => ByteStore.get_write32_apart _ _ _ _ apart⟩
    rw [t.buffers.modify_eq found, t.buffers.modify_eq found fun b => { b with store := _ }]
    rfl

-- A request to an array that requests and kernels led to either succeeds or leaves the array as it
-- was. It finds all that it indexes, and it fails by an error, unless it asks for a word whose byte
-- offset is no 64-bit number. A word behind the end is out of bounds up to there, and a word that is
-- written is all that changes.
theorem requests_traceless (reached : t.Reached) :
    (∀ q : Request, q.Allocatable → q.steps t = t.settle (t.serve q)) ∧
    (∀ (q : Request) (halt : Halt) (t' : TileArray), q.Allocatable → q.steps t = .error halt t' →
      t' = t ∧ ((∃ cause, halt = refusal cause) ∨ halt = .failed (.overflow .multiplication) ∧
        ∃ name index, q.word = some (name, index) ∧ UInt64.size ≤ 4 * index)) ∧
    (∀ (name : String) (b : TileBuffer) (index : Nat), t.buffers.find? name = some b →
      (index < b.wordCount → t.serve (.read name index) = .ok (.word (b.word index), t) ∧
        ∀ value, ∃ t', t.serve (.write name index value) = .ok (.nothing, t')) ∧
      (b.wordCount ≤ index → 4 * index < UInt64.size →
        ∀ q : Request, q.word = some (name, index) →
          t.serve q = .error (.error (.outOfBounds (4 * index) 4 b.byteLength))) ∧
      (UInt64.size ≤ 4 * index → ∀ q : Request, q.word = some (name, index) →
        t.serve q = .error (.overflow .multiplication))) ∧
    (∀ (name : String) (index : Nat) (value : UInt32) (reading : Reading) (t' : TileArray),
      t.serve (.write name index value) = .ok (reading, t') →
      ∃ i b store, t.buffers.find? name = some b ∧ t.buffers.items[i]? = some b ∧ index < b.wordCount ∧
        t' = { t with buffers := t.buffers.modify i fun b => { b with store } } ∧
        TileBuffer.words { b with store } = b.words.set index value ∧
        store.size = b.store.size ∧
        ∀ k, k < 4 * index ∨ 4 * index + 4 ≤ k → store.get k = b.store.get k) := by
  have within := reached.within
  refine ⟨fun q => within.steps_settle, fun q halt t' allocatable halted => ?traceless,
    fun name b index known => ⟨within.word_granted known, fun past narrow q about => ?past,
      fun wide q about => ?wide⟩, fun _ _ _ _ _ => write_once⟩
  case traceless =>
    rw [within.steps_settle allocatable] at halted
    cases served : t.serve q with
    | ok answer =>
      rw [served] at halted
      cases halted
    | error failure =>
      rw [served] at halted
      cases halted
      refine ⟨rfl, (serve_failure served).imp ?_ ?_⟩
      · rintro ⟨cause, rfl⟩
        exact ⟨cause, rfl⟩
      · rintro ⟨rfl, far⟩
        exact ⟨rfl, far⟩
  case past => exact word_refused (locate_past known past narrow) about
  case wide => exact word_refused (locate_wide known wide) about

-- A buffer of one word.
def sampleWord : TileArray :=
  { buffers := ⟨#[TileBuffer.zeroed "a" 1]⟩ }

theorem sampleWord_found : sampleWord.buffers.find? "a" = some (TileBuffer.zeroed "a" 1) := by
  simp [sampleWord, TileBuffers.find?, TileBuffers.position?, TileBuffer.zeroed]

theorem sampleWord_reached : sampleWord.Reached := by
  have added : serve {} (.addBuffer "a" 1) = .ok (.nothing, sampleWord) := by
    simp [serve, addBuffer, TileBuffers.position?, sampleWord, Except.mapError, Except.map]
  have allocatable : (Request.addBuffer "a" 1).Allocatable := by
    change 4 * 1 ≤ allocationLimit
    decide
  exact .served .empty allocatable added

theorem requests_traceless_sample :
    sampleWord.serve (.read "a" 0) = .ok (.word 0, sampleWord) ∧
    (Request.write "a" 1 7).steps sampleWord = .error (refusal (.outOfBounds 4 4 4)) sampleWord ∧
    ∃ (t' : TileArray) (i : Nat) (b : TileBuffer), sampleWord.serve (.write "a" 0 7) = .ok (.nothing, t') ∧
      t'.buffers.items[i]? = some b ∧ b.words = [7] := by
  obtain ⟨steps, _, accesses, writes⟩ := requests_traceless sampleWord_reached
  obtain ⟨granted, _, _⟩ := accesses "a" _ 0 sampleWord_found
  obtain ⟨_, past, _⟩ := accesses "a" _ 1 sampleWord_found
  obtain ⟨read, written⟩ := granted (by decide)
  obtain ⟨t', served⟩ := written 7
  have refused := past (by decide) (by decide) (.write "a" 1 7) rfl
  obtain ⟨i, b, store, known, found, _, rfl, words, _⟩ := writes "a" 0 7 .nothing t' served
  cases sampleWord_found.symm.trans known
  refine ⟨read, ?_, _, i, { TileBuffer.zeroed "a" 1 with store }, served, ?_, words⟩
  · rw [steps (.write "a" 1 7) trivial, refused]
    rfl
  · rw [TileBuffers.get_modify, if_pos rfl, found]
    rfl

-- A word that far behind the end is refused, but not by a bound.
theorem far_word_overflows :
    sampleWord.Reached ∧ sampleWord.buffers.find? "a" = some (TileBuffer.zeroed "a" 1) ∧
    (TileBuffer.zeroed "a" 1).wordCount = 1 ∧
    (¬∃ offset length limit, sampleWord.readBuffer "a" (2 ^ 62) =
      .error (.error (.outOfBounds offset length limit))) ∧
    sampleWord.readBuffer "a" (2 ^ 62) = .error (.overflow .multiplication) ∧
    sampleWord.writeBuffer "a" (2 ^ 62) 7 = .error (.overflow .multiplication) := by
  have wide := locate_wide sampleWord_found (show UInt64.size ≤ 4 * 2 ^ 62 by decide)
  have refused : sampleWord.readBuffer "a" (2 ^ 62) = .error (.overflow .multiplication) := by
    rw [readBuffer, wide]
    rfl
  refine ⟨sampleWord_reached, sampleWord_found, by decide, ?_, refused, ?_⟩
  · rintro ⟨offset, length, limit, bounded⟩
    cases refused.symm.trans bounded
  · rw [writeBuffer, wide]
    rfl

end TileArray

end FabricQueue
