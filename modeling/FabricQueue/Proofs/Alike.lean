import FabricQueue.Proofs.Codecs
import FabricQueue.Proofs.Opening

set_option autoImplicit false

namespace FabricQueue

def Layout.Told (capacity offset : Nat) : Prop :=
  offset % 8 = 0 ∧ offset + 8 ≤ regionSize capacity ∧ offset ≠ idAt ∧ offset ≠ writeIndexAt + 8

theorem Layout.told_header (capacity : Nat) {offset : Nat}
    (known : offset % 8 = 0 ∧ offset ≤ writeIndexAt ∧ offset ≠ idAt) : Told capacity offset := by
  obtain ⟨grid, low, other⟩ := known
  have within : offset + 8 ≤ regionSize capacity :=
    header_within capacity (by simp only [writeIndexAt] at low; omega)
  exact ⟨grid, within, other, by omega⟩

theorem Layout.told_slot {capacity slot i : Nat} (below : slot < capacity) (within : i < 8) :
    Told capacity (slotOffset slot + 8 * i) := by
  have grid := slotOffset_grid slot
  have inside := slot_within below within
  refine ⟨by omega, inside, ?_, ?_⟩ <;> simp only [slotOffset, headerSize, idAt, writeIndexAt] <;>
    omega

theorem Layout.told_cases {capacity offset : Nat} (told : Told capacity offset) :
    offset ∈ [typeAt, baseAddressAt, doorbellAt, sizeAt, readIndexAt, writeIndexAt] ∨
      ∃ slot < capacity, ∃ i < 8, offset = slotOffset slot + 8 * i := by
  obtain ⟨grid, within, named, last⟩ := told
  simp only [regionSize, slotOffset, headerSize, packetSize, idAt, writeIndexAt] at *
  by_cases header : offset < 64
  · left
    simp only [List.mem_cons, List.not_mem_nil, typeAt, baseAddressAt, doorbellAt, sizeAt,
      readIndexAt, or_false]
    omega
  · exact .inr ⟨(offset - 64) / 64, by omega, offset % 64 / 8, by omega, by omega⟩

namespace Region

structure Alike (r r' : Region) (capacity : Nat) (m m' : Memory) : Prop where
  supported : Layout.supports capacity
  carries : r.Carries capacity m
  carries' : r'.Carries capacity m'
  size : (r.cells m).size = UInt64.ofNat capacity
  words : ∀ offset, Layout.Told capacity offset → r'.word m' offset = r.word m offset

inductive Meet (r r' : Region) (capacity : Nat) {α β : Type} (same : α → β → Prop) :
    EStateM.Result Failure Memory α → EStateM.Result Failure Memory β → Prop where
  | ok {a : α} {b : β} {m m' : Memory} (values : same a b) (alike : Alike r r' capacity m m') :
      Meet r r' capacity same (.ok a m) (.ok b m')
  | error {failure : Failure} {m m' : Memory} (alike : Alike r r' capacity m m') :
      Meet r r' capacity same (.error failure m) (.error failure m')

def Agree (r r' : Region) (capacity : Nat) {α β : Type} (same : α → β → Prop) (x : Access α)
    (y : Access β) : Prop :=
  ∀ m m', Alike r r' capacity m m' → Meet r r' capacity same (x m) (y m')

namespace Agree

variable {r r' : Region} {capacity : Nat} {α β γ δ : Type} {same : α → β → Prop}
  {same' : γ → δ → Prop}

theorem bind {x : Access α} {y : Access β} {next : α → Access γ} {next' : β → Access δ}
    (first : Agree r r' capacity same x y)
    (rest : ∀ a b, same a b → Agree r r' capacity same' (next a) (next' b)) :
    Agree r r' capacity same' (x >>= next) (y >>= next') := by
  intro m m' alike
  have met := first m m' alike
  cases ran : x m with
  | ok a m₁ =>
    cases ran' : y m' with
    | error failure m₁' => rw [ran, ran'] at met; cases met
    | ok b m₁' =>
      rw [ran, ran'] at met
      obtain ⟨values, alike₁⟩ := met
      rw [bind_ok ran, bind_ok ran']
      exact rest a b values m₁ m₁' alike₁
  | error failure m₁ =>
    cases ran' : y m' with
    | ok b m₁' => rw [ran, ran'] at met; cases met
    | error failure' m₁' =>
      rw [ran, ran'] at met
      cases met with
      | error alike₁ =>
        rw [bind_error ran, bind_error ran']
        exact .error alike₁

theorem pure {a : α} {b : β} (values : same a b) :
    Agree r r' capacity same (Pure.pure a : Access α) (Pure.pure b : Access β) :=
  fun _ _ alike => .ok values alike

theorem throw (failure : Failure) :
    Agree r r' capacity same (MonadExcept.throw failure : Access α)
      (MonadExcept.throw failure : Access β) :=
  fun _ _ alike => .error alike

theorem lifted (x : Except Failure α) : Agree r r' capacity Eq (lift x : Access α) (lift x) := by
  intro m m' alike
  cases x with
  | ok a => exact .ok rfl alike
  | error failure => exact .error alike

theorem guarded {refused : Prop} [Decidable refused] {failure : Failure} {next : Unit → Access α}
    {next' : Unit → Access β} (rest : Agree r r' capacity same (next ()) (next' ())) :
    Agree r r' capacity same (if refused then MonadExcept.throw failure >>= next else next ())
      (if refused then MonadExcept.throw failure >>= next' else next' ()) := by
  split
  · have refused : Agree r r' capacity (fun _ _ => False) (MonadExcept.throw failure : Access Unit)
        (MonadExcept.throw failure : Access Unit) := throw failure
    exact refused.bind fun _ _ impossible => impossible.elim
  · exact rest

theorem choose {first second : Prop} [Decidable first] [Decidable second] {x x' : Access α}
    {y y' : Access β} (cases_agree : second ↔ first) (yes : Agree r r' capacity same x y)
    (no : Agree r r' capacity same x' y') :
    Agree r r' capacity same (if first then x else x') (if second then y else y') := by
  by_cases holds : first
  · rw [if_pos holds, if_pos (cases_agree.mpr holds)]
    exact yes
  · rw [if_neg holds, if_neg (mt cases_agree.mp holds)]
    exact no

theorem mapped {x : Access α} {y : Access β} {change : α → γ} {change' : β → δ}
    (agrees : Agree r r' capacity same x y)
    (values : ∀ a b, same a b → same' (change a) (change' b)) :
    Agree r r' capacity same' (change <$> x) (change' <$> y) := by
  intro m m' alike
  have met := agrees m m' alike
  change Meet r r' capacity same' (EStateM.map change x m) (EStateM.map change' y m')
  cases ran : x m <;> cases ran' : y m' <;> rw [ran, ran'] at met <;>
    simp only [EStateM.map, ran, ran'] <;> cases met
  · exact .ok (values _ _ ‹_›) ‹_›
  · exact .error ‹_›

end Agree

variable {r r' : Region} {capacity : Nat}

theorem Carries.inside {m : Memory} (carries : r.Carries capacity m) {offset : Nat}
    (within : offset + 8 ≤ Layout.regionSize capacity) : offset + 8 ≤ r.size :=
  Nat.le_trans within carries.large

theorem Alike.put {m m' : Memory} (alike : Alike r r' capacity m m') {offset : Nat} (w : UInt64)
    (grid : offset % 8 = 0) (within : offset + 8 ≤ Layout.regionSize capacity)
    (other : offset ≠ Layout.sizeAt) :
    Alike r r' capacity (r.put m offset w) (r'.put m' offset w) := by
  have backed := alike.carries.backed
  have backed' := alike.carries'.backed
  have fits := alike.carries.inside within
  have fits' := alike.carries'.inside within
  simp only [Backed] at backed backed'
  refine { alike with
    carries := alike.carries.of_leaves (put_leaves w within)
    carries' := alike.carries'.of_leaves (put_leaves w within), size := ?_, words := ?_ }
  · exact (word_put w (by omega) grid (by decide)).trans ((if_neg other.symm).trans alike.size)
  · intro place told
    rw [word_put w (by omega) grid told.1, word_put w (by omega) grid told.1,
      alike.words place told]

theorem read64_agree {offset : Nat} (told : Layout.Told capacity offset) :
    Agree r r' capacity Eq (r.read64 offset) (r'.read64 offset) := by
  intro m m' alike
  have aligned := alike.carries.aligned
  have aligned' := alike.carries'.aligned
  have grid := told.1
  rw [read64_word (alike.carries.inside told.2.1) (by omega),
    read64_word (alike.carries'.inside told.2.1) (by omega), alike.words offset told]
  exact .ok rfl alike

theorem readId_agree :
    Agree r r' capacity (fun _ _ => True) (r.read64 Layout.idAt) (r'.read64 Layout.idAt) := by
  intro m m' alike
  rw [alike.carries.read_header (by decide) (by decide),
    alike.carries'.read_header (by decide) (by decide)]
  exact .ok trivial alike

theorem write64_agree {offset : Nat} (w : UInt64) (grid : offset % 8 = 0)
    (within : offset + 8 ≤ Layout.regionSize capacity) (other : offset ≠ Layout.sizeAt) :
    Agree r r' capacity Eq (r.write64 offset w) (r'.write64 offset w) := by
  intro m m' alike
  have aligned := alike.carries.aligned
  have aligned' := alike.carries'.aligned
  rw [write64_word w (alike.carries.inside within) (by omega),
    write64_word w (alike.carries'.inside within) (by omega)]
  exact .ok rfl (alike.put w grid within other)

theorem fetchAdd_agree {offset : Nat} (w : UInt64) (told : Layout.Told capacity offset)
    (other : offset ≠ Layout.sizeAt) :
    Agree r r' capacity Eq (r.fetchAdd offset w) (r'.fetchAdd offset w) := by
  intro m m' alike
  have aligned := alike.carries.aligned
  have aligned' := alike.carries'.aligned
  have grid := told.1
  rw [fetchAdd_word w (alike.carries.inside told.2.1) (by omega),
    fetchAdd_word w (alike.carries'.inside told.2.1) (by omega), alike.words offset told]
  exact .ok rfl (alike.put _ grid told.2.1 other)

theorem size_agree : Agree r r' capacity Eq (r.read32 Layout.sizeAt) (r'.read32 Layout.sizeAt) := by
  intro m m' alike
  have same : (r'.cells m').size = (r.cells m).size :=
    alike.words Layout.sizeAt (Layout.told_header capacity (by decide))
  rw [alike.carries.size_ok, alike.carries'.size_ok, same]
  exact .ok rfl alike

theorem published_agree : Agree r r' capacity Eq r.published r'.published :=
  (read64_agree (Layout.told_header capacity (by decide))).mapped fun _ _ same => same ▸ rfl

theorem readIndex_agree : Agree r r' capacity Eq r.readIndex r'.readIndex :=
  read64_agree (Layout.told_header capacity (by decide))

theorem writeIndex_agree : Agree r r' capacity Eq r.writeIndex r'.writeIndex :=
  read64_agree (Layout.told_header capacity (by decide))

theorem header_agree : Agree r r' capacity (fun a b => { b with id := 0 } = { a with id := 0 })
    (QueueHeader.read r) (QueueHeader.read r') := by
  have read (offset : Nat) (known : offset % 8 = 0 ∧ offset ≤ Layout.writeIndexAt ∧
      offset ≠ Layout.idAt) : Agree r r' capacity Eq (r.read64 offset) (r'.read64 offset) :=
    read64_agree (Layout.told_header capacity known)
  refine (read _ (by decide)).bind fun first _ same => same ▸ ?_
  refine (read _ (by decide)).bind fun baseAddress _ same => same ▸ ?_
  refine (read _ (by decide)).bind fun doorbell _ same => same ▸ ?_
  refine size_agree.bind fun size _ same => same ▸ ?_
  refine readId_agree.bind fun id id' _ => ?_
  refine readIndex_agree.bind fun readIndex _ same => same ▸ ?_
  refine writeIndex_agree.bind fun writeIndex _ same => same ▸ ?_
  exact .pure rfl

section Slot

variable {slot : Nat} (below : slot < capacity)
include below

theorem slot_agree {i : Nat} (within : i < 8) :
    Agree r r' capacity Eq (r.read64 (Layout.slotOffset slot + 8 * i))
      (r'.read64 (Layout.slotOffset slot + 8 * i)) :=
  read64_agree (Layout.told_slot below within)

theorem store_agree {i : Nat} (within : i < 8) (w : UInt64) :
    Agree r r' capacity Eq (r.write64 (Layout.slotOffset slot + 8 * i) w)
      (r'.write64 (Layout.slotOffset slot + 8 * i) w) :=
  write64_agree w (Layout.told_slot below within).1 (Layout.slot_within below within)
    (by simp only [Layout.slotOffset, Layout.headerSize, Layout.sizeAt]; omega)

theorem readRecord_agree : Agree r r' capacity Eq (r.readRecord slot) (r'.readRecord slot) := by
  refine (slot_agree below (by decide : 0 < 8)).bind fun w₀ _ same => same ▸ ?_
  refine (slot_agree below (by decide : 1 < 8)).bind fun w₁ _ same => same ▸ ?_
  refine (slot_agree below (by decide : 2 < 8)).bind fun w₂ _ same => same ▸ ?_
  refine (slot_agree below (by decide : 3 < 8)).bind fun w₃ _ same => same ▸ ?_
  refine (slot_agree below (by decide : 4 < 8)).bind fun w₄ _ same => same ▸ ?_
  refine (slot_agree below (by decide : 5 < 8)).bind fun w₅ _ same => same ▸ ?_
  refine (slot_agree below (by decide : 6 < 8)).bind fun w₆ _ same => same ▸ ?_
  refine (slot_agree below (by decide : 7 < 8)).bind fun w₇ _ same => same ▸ ?_
  exact .pure rfl

theorem storeWords_agree (words : List UInt64) (i : Nat) (fits : i + words.length ≤ 8) :
    Agree r r' capacity Eq (r.storeWords (Layout.slotOffset slot + 8 * i) words)
      (r'.storeWords (Layout.slotOffset slot + 8 * i) words) := by
  induction words generalizing i with
  | nil => exact .pure rfl
  | cons w rest ih =>
    simp only [List.length_cons] at fits
    exact (store_agree below (by omega) w).bind fun _ _ _ => ih (i + 1) (by omega)

theorem writeRecord_agree (record : Record) :
    Agree r r' capacity Eq (r.writeRecord slot record) (r'.writeRecord slot record) :=
  (storeWords_agree below _ 1 (by simp)).bind fun _ _ _ =>
    store_agree below (by decide : 0 < 8) record.headerWord

theorem setHeader_agree (header : UInt16) :
    Agree r r' capacity Eq (r.setHeader slot header) (r'.setHeader slot header) :=
  (slot_agree below (by decide : 0 < 8)).bind fun word _ same =>
    same ▸ store_agree below (by decide : 0 < 8) (withHeader word header)

theorem setSignal_agree (signal : UInt64) :
    Agree r r' capacity Eq (r.setSignal slot signal) (r'.setSignal slot signal) :=
  store_agree below (by decide : 7 < 8) signal

end Slot

theorem word_slots (r : Region) (m : Memory) (slot : Nat) {i : Nat} (within : i < 8) :
    r.word m (Layout.slotOffset slot + 8 * i) = ((r.cells m).slots slot).toWords[i] := by
  simp only [cells, Record.toWords_ofWords, wordsAt, Vector.getElem_ofFn]

-- What was laid out is the same whatever lay there before.
theorem alike_fresh {id id' : UInt64} {kind : QueueKind} {m m' : Memory}
    (supported : Layout.supports capacity) (same : r'.base = r.base)
    (carries : r.Carries capacity m) (fresh : (r.cells m).Fresh id capacity kind r.base)
    (carries' : r'.Carries capacity m') (fresh' : (r'.cells m').Fresh id' capacity kind r'.base) :
    Alike r r' capacity m m' := by
  rw [same] at fresh'
  refine ⟨supported, carries, carries', fresh.size, fun offset told => ?_⟩
  obtain header | ⟨slot, below, i, within, rfl⟩ := Layout.told_cases told
  · simp only [List.mem_cons, List.not_mem_nil, or_false] at header
    obtain rfl | rfl | rfl | rfl | rfl | rfl := header
    · exact fresh'.kind.trans fresh.kind.symm
    · exact fresh'.baseAddress.trans fresh.baseAddress.symm
    · exact fresh'.doorbell.trans fresh.doorbell.symm
    · exact fresh'.size.trans fresh.size.symm
    · exact fresh'.readIndex.trans fresh.readIndex.symm
    · exact fresh'.writeIndex.trans fresh.writeIndex.symm
  · rw [word_slots _ _ _ within, word_slots _ _ _ within]
    simp only [fresh'.slots slot below, fresh.slots slot below]

theorem attach_agree : Agree r r' capacity (fun a b => a = ⟨r, capacity⟩ ∧ b = ⟨r', capacity⟩)
    (Consumer.attach r) (Consumer.attach r') := by
  intro m m' alike
  have size' : (r'.cells m').size = UInt64.ofNat capacity :=
    (alike.words Layout.sizeAt (Layout.told_header capacity (by decide))).trans alike.size
  rw [alike.carries.attach_ok alike.supported alike.size,
    alike.carries'.attach_ok alike.supported size']
  exact .ok ⟨rfl, rfl⟩ alike

end Region

end FabricQueue
