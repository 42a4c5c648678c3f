import FabricQueue.Proofs.Conduits

set_option autoImplicit false

namespace FabricQueue

theorem range_flatMap {α : Type} (f : Nat → Nat → α) (blocks : Nat) {size : Nat}
    (positive : 0 < size) :
    (List.range blocks).flatMap (fun i => (List.range size).map (f i)) =
      (List.range (blocks * size)).map fun k => f (k / size) (k % size) := by
  induction blocks with
  | zero => rw [Nat.zero_mul]; rfl
  | succ blocks ih =>
    have last : (List.range size).map (f blocks) =
        (List.range size).map fun k => f ((blocks * size + k) / size) ((blocks * size + k) % size) := by
      apply List.map_congr_left
      intro k member
      have below := List.mem_range.mp member
      rw [Nat.mul_comm, Nat.mul_add_div positive, Nat.div_eq_of_lt below, Nat.mul_add_mod,
        Nat.mod_eq_of_lt below, Nat.add_zero]
    rw [List.range_succ, List.flatMap_append, ih, Nat.succ_mul, List.range_add, List.map_append,
      List.map_map, List.flatMap_singleton, last]
    rfl

def wordAt (value : Nat → UInt8) (i : Nat) : UInt32 :=
  UInt32.ofNat (ofBytes ((List.range 4).map fun r => value (4 * i + r)))

theorem wordAt_congr {value value' : Nat → UInt8} {i : Nat}
    (same : ∀ r < 4, value' (4 * i + r) = value (4 * i + r)) : wordAt value' i = wordAt value i := by
  rw [wordAt, List.map_congr_left fun r member => same r (List.mem_range.mp member)]
  rfl

theorem read32_eq_wordAt {m : ByteStore} {value : Nat → UInt8} {start i : Nat}
    (same : ∀ r < 4, m.get (start + r) = value (4 * i + r)) : m.read32 start = wordAt value i := by
  rw [ByteStore.read32, wordAt]
  congr 2
  exact List.map_congr_left fun r member => same r (List.mem_range.mp member)

def byteOf (word : Nat → UInt32) (k : Nat) : UInt8 :=
  (bytesOf 4 (word (k / 4)).toNat).getD (k % 4) 0

def sumBytes (left right : Nat → UInt8) : Nat → UInt8 :=
  byteOf fun i => wordAt left i + wordAt right i

theorem wordAt_byteOf (word : Nat → UInt32) (i : Nat) : wordAt (byteOf word) i = word i := by
  have bytes : (List.range 4).map (fun r => byteOf word (4 * i + r)) = bytesOf 4 (word i).toNat := by
    apply List.ext_getElem
    · simp
    · intro r below _
      have small : r < 4 := by simpa using below
      rw [List.getElem_map, List.getElem_range, byteOf, Nat.mul_add_div (by decide),
        Nat.div_eq_of_lt small, Nat.mul_add_mod, Nat.mod_eq_of_lt small, Nat.add_zero]
      simp [small]
  rw [wordAt, bytes, ofBytes_half]

theorem wordBytes_map (word : Nat → UInt32) (count : Nat) :
    wordBytes ((List.range count).map word) = (List.range (count * 4)).map (byteOf word) := by
  have each (i : Nat) : bytesOf 4 (word i).toNat =
      (List.range 4).map fun r => (bytesOf 4 (word i).toNat).getD r 0 := rfl
  rw [wordBytes, List.flatMap_map, List.flatMap_congr fun i _ => each i]
  exact range_flatMap (fun i r => (bytesOf 4 (word i).toNat).getD r 0) count (by decide)

namespace TileBuffer

variable {b : TileBuffer} {value : Nat → UInt8} {words block : Nat}

theorem Begins.word_eq (begins : b.Begins value (4 * words * block) (4 * words)) {i : Nat}
    (below : i < words) : b.word i = wordAt value (words * block + i) := by
  rw [word, ByteStore.read32, wordAt]
  congr 2
  apply List.map_congr_left
  intro r member
  have small := List.mem_range.mp member
  rw [begins _ (by omega), Nat.mul_add, ← Nat.add_assoc, Nat.mul_assoc]

theorem Begins.words_eq (begins : b.Begins value (4 * words * block) (4 * words))
    (size : b.byteLength = 4 * words) :
    b.words = (List.range words).map fun i => wordAt value (words * block + i) := by
  have count : b.wordCount = words := by
    rw [wordCount, size, Nat.mul_div_cancel_left _ (by decide)]
  rw [TileBuffer.words, count]
  exact List.map_congr_left fun i member => begins.word_eq (List.mem_range.mp member)

theorem load_begins (b : TileBuffer) (word : Nat → UInt32) (size : b.byteLength = 4 * words) :
    (b.load ((List.range words).map fun i => word (words * block + i))).Begins (byteOf word)
      (4 * words * block) (4 * words) := by
  have count : b.wordCount = words := by
    rw [wordCount, size, Nat.mul_div_cancel_left _ (by decide)]
  have bytes : wordBytes (((List.range words).map fun i => word (words * block + i)).take b.wordCount) =
      (List.range (words * 4)).map (byteOf fun i => word (words * block + i)) := by
    rw [List.take_of_length_le (by simp [count]), wordBytes_map]
  intro i below
  have whole : b.store.size = 4 * words := size
  have stored := ByteStore.get_write b.store 0
    ((List.range (words * 4)).map (byteOf fun i => word (words * block + i))) i
    (by simp; omega) (by simp; omega)
  rw [load, bytes, ← Nat.zero_add i, stored, List.getElem_map, List.getElem_range, byteOf, byteOf,
    Nat.zero_add, Nat.mul_assoc, Nat.mul_add_div (by decide), Nat.mul_add_mod]

end TileBuffer

inductive Lane where
  | left
  | right
  | sum
  deriving DecidableEq

def AddBuffers.on (b : AddBuffers) : Lane → String
  | .left => b.left
  | .right => b.right
  | .sum => b.sum

structure Adder where
  channel : Lane → Channel
  endpoint : Lane → Endpoint
  ping : AddBuffers
  pong : AddBuffers
  -- Words of each buffer.
  words : Nat

namespace Adder

variable {A : Adder} {left right : Nat → UInt8} {moved : Counts} {steps : Nat} {t t' : TileArray}
  {k : Lane → Marks}

-- The kernel after so many additions.
def kernel (A : Adder) (steps : Nat) : AddKernel :=
  { ping := A.ping, pong := A.pong, onPong := decide (steps % 2 = 1) }

theorem kernel_turn (A : Adder) (steps : Nat) :
    { A.kernel steps with onPong := !(A.kernel steps).onPong } = A.kernel (steps + 1) := by
  simp only [kernel, AddKernel.mk.injEq, true_and]
  rcases Nat.mod_two_eq_zero_or_one steps with even | odd
  · simp [even, Nat.add_mod]
  · simp [odd, Nat.add_mod]

def values (left right : Nat → UInt8) : Lane → Nat → UInt8
  | .left => left
  | .right => right
  | .sum => sumBytes left right

structure Sound (A : Adder) : Prop where
  inbound : ∀ lane, lane ≠ .sum → (A.endpoint lane).direction = .hostToDevice
  outbound : (A.endpoint .sum).direction = .deviceToHost
  distinct : Function.Injective A.endpoint
  words : 0 < A.words
  cycles : ∀ lane, (A.channel lane).cells ≠ []
  sizes : ∀ lane block, (A.channel lane).blockSize block = 4 * A.words
  apart : ∀ lane other, lane ≠ other →
    ∀ i ∈ (A.channel lane).cells, i ∉ (A.channel other).cells

structure Turns (A : Adder) (left right : Nat → UInt8) (moved : Counts) (steps : Nat) (t : TileArray)
    (k : Lane → Marks) : Prop where
  holds : ∀ lane, (A.channel lane).Holds (values left right lane) t.buffers (k lane)
  feeds : ∀ lane, lane ≠ .sum → (A.channel lane).Feeds (A.endpoint lane) moved t (k lane)
  taps : (A.channel .sum).Taps (A.endpoint .sum) moved t (k .sum)
  drained : ∀ lane, lane ≠ .sum → (k lane).drained = steps ∧ (k lane).taken = 0
  filled : (k .sum).filled = steps ∧ (k .sum).part = 0
  kernels : t.kernels = [A.kernel steps]
  named : ∀ lane block, t.buffers.position? ((A.kernel block).current.on lane) =
    some ((A.channel lane).cell block)

section Sound

variable (sound : A.Sound)

include sound

theorem Sound.proper (lane : Lane) : (A.channel lane).Proper := by
  have words := sound.words
  exact ⟨sound.cycles lane, fun block => by rw [sound.sizes]; omega⟩

theorem Sound.start_eq (lane : Lane) (block : Nat) :
    (A.channel lane).start block = 4 * A.words * block := by
  induction block with
  | zero => rfl
  | succ block ih => rw [Channel.start, ih, sound.sizes, Nat.mul_succ]

theorem Sound.other_endpoint {lane other : Lane} (different : lane ≠ other) :
    A.endpoint lane ≠ A.endpoint other :=
  fun same => different (sound.distinct same)

theorem Sound.other_cell {lane other : Lane} (different : lane ≠ other) (i j : Nat) :
    (A.channel lane).cell i ≠ (A.channel other).cell j := by
  intro same
  have member := Channel.cell_mem (sound.cycles lane) i
  rw [same] at member
  exact sound.apart lane other different _ member (Channel.cell_mem (sound.cycles other) j)

theorem Sound.streamed (turns : A.Turns left right moved steps t k) {lane : Lane} {k' : Marks}
    {total : Nat} (streamed : t.Streamed t' (A.endpoint lane) (A.channel lane).cells)
    (holds : (A.channel lane).Holds (values left right lane) t'.buffers k')
    (input : lane ≠ .sum → (A.channel lane).Feeds (A.endpoint lane)
      (Function.update moved (A.endpoint lane) total) t' k' ∧
        k'.drained = (k lane).drained ∧ k'.taken = (k lane).taken)
    (output : lane = .sum → (A.channel lane).Taps (A.endpoint lane)
      (Function.update moved (A.endpoint lane) total) t' k' ∧
        k'.filled = (k lane).filled ∧ k'.part = (k lane).part) :
    A.Turns left right (Function.update moved (A.endpoint lane) total) steps t'
      (Function.update k lane k') where
  holds other := by
    by_cases here : other = lane
    · subst here
      rw [Function.update_self]
      exact holds
    · rw [Function.update_of_ne here]
      exact (turns.holds other).beside streamed (sound.cycles other) (sound.apart other lane here)
  feeds other away := by
    by_cases here : other = lane
    · subst here
      rw [Function.update_self]
      exact (input away).1
    · rw [Function.update_of_ne here]
      exact (turns.feeds other away).beside streamed (sound.other_endpoint here) _
  taps := by
    by_cases here : lane = .sum
    · subst here
      rw [Function.update_self]
      exact (output rfl).1
    · rw [Function.update_of_ne (Ne.symm here)]
      exact turns.taps.beside streamed (sound.other_endpoint (Ne.symm here)) _
  drained other away := by
    by_cases here : other = lane
    · subst here
      obtain ⟨_, drained, taken⟩ := input away
      rw [Function.update_self, drained, taken]
      exact turns.drained other away
    · rw [Function.update_of_ne here]
      exact turns.drained other away
  filled := by
    by_cases here : lane = .sum
    · subst here
      obtain ⟨_, filled, part⟩ := output rfl
      rw [Function.update_self, filled, part]
      exact turns.filled
    · rw [Function.update_of_ne (Ne.symm here)]
      exact turns.filled
  kernels := streamed.kernels.trans turns.kernels
  named other block := by
    rw [streamed.names]
    exact turns.named other block

theorem Sound.fill (turns : A.Turns left right moved steps t k) {lane : Lane} (input : lane ≠ .sum)
    {bytes : List UInt8} (nonempty : bytes ≠ [])
    (next : bytes =
      (List.range' (moved (A.endpoint lane)) bytes.length).map (values left right lane)) :
    ∃ count t' k', t.fill (A.endpoint lane) bytes = .ok (count, t') ∧ count ≤ bytes.length ∧
      A.Turns left right (Function.update moved (A.endpoint lane) (moved (A.endpoint lane) + count))
        steps t' k' ∧
      (count = 0 → t' = t ∧ t.Barred (A.endpoint lane)) := by
  obtain ⟨count, k', t', filled, bound, holds, feeds, same, streamed, still⟩ :=
    (turns.feeds lane input).fill (sound.proper lane) (turns.holds lane) (sound.inbound lane input)
      nonempty next
  exact ⟨count, t', Function.update k lane k', filled, bound,
    sound.streamed turns streamed holds (fun _ => ⟨feeds, same⟩) fun other => absurd other input,
    still⟩

theorem Sound.drain (turns : A.Turns left right moved steps t k) {limit : Nat} (positive : 0 < limit) :
    ∃ bytes t' k', t.drain (A.endpoint .sum) limit = .ok (bytes, t') ∧ bytes.length ≤ limit ∧
      bytes = (List.range' (moved (A.endpoint .sum)) bytes.length).map (sumBytes left right) ∧
      A.Turns left right
        (Function.update moved (A.endpoint .sum) (moved (A.endpoint .sum) + bytes.length)) steps t' k' ∧
      (bytes = [] → t' = t ∧ t.Barred (A.endpoint .sum)) := by
  obtain ⟨bytes, k', t', drained, bound, next, holds, taps, same, streamed, still⟩ :=
    turns.taps.drain (sound.proper .sum) (turns.holds .sum) sound.outbound positive
  exact ⟨bytes, t', Function.update k .sum k', drained, bound, next,
    sound.streamed turns streamed holds (absurd rfl) fun _ => ⟨taps, same⟩, still⟩

theorem Sound.spared {s' : TileBuffers} (turns : A.Turns left right moved steps t k)
    (beside : t.buffers.Beside s' (A.kernel steps).current.names) (lane : Lane) (block : Nat)
    (other : (A.channel lane).cell block ≠ (A.channel lane).cell steps) :
    s'.items[(A.channel lane).cell block]? = t.buffers.items[(A.channel lane).cell block]? := by
  refine beside.others _ fun name member found => ?_
  obtain ⟨used, rfl⟩ : ∃ used, name = (A.kernel steps).current.on used := by
    rw [AddBuffers.names, List.mem_cons, List.mem_cons, List.mem_singleton] at member
    rcases member with same | same | same
    · exact ⟨.left, same⟩
    · exact ⟨.right, same⟩
    · exact ⟨.sum, same⟩
  have here := Option.some_inj.mp ((turns.named used steps).symm.trans found)
  by_cases own : used = lane
  · exact other (own ▸ here.symm)
  · exact sound.other_cell own _ _ here

theorem Sound.added {s' : TileBuffers} {new : Lane → TileBuffer}
    (turns : A.Turns left right moved steps t k)
    (beside : t.buffers.Beside s' (A.kernel steps).current.names)
    (more : ∀ lane, lane ≠ .sum → steps < (k lane).filled)
    (free : ∀ j, (k .sum).Live j → (A.channel .sum).cell j ≠ (A.channel .sum).cell (k .sum).filled)
    (stored : ∀ lane, s'.items[(A.channel lane).cell steps]? = some (new lane))
    (size : ∀ lane, (new lane).byteLength = 4 * A.words) (cursor : ∀ lane, (new lane).cursor = 0)
    (lock : ∀ lane, (new lane).full = decide (lane = .sum))
    (begins : ∀ lane,
      (new lane).Begins (values left right lane) (4 * A.words * steps) (4 * A.words)) :
    ∃ k', A.Turns left right moved (steps + 1)
      { t with kernels := [A.kernel (steps + 1)], buffers := s' } k' := by
  obtain ⟨filled, part⟩ := turns.filled
  let k' (lane : Lane) : Marks :=
    if lane = .sum then { k .sum with filled := (k .sum).filled + 1, part := 0 }
    else { k lane with drained := (k lane).drained + 1, taken := 0 }
  have output : k' .sum = { k .sum with filled := (k .sum).filled + 1, part := 0 } := if_pos rfl
  have input {lane : Lane} (input : lane ≠ .sum) :
      k' lane = { k lane with drained := (k lane).drained + 1, taken := 0 } := if_neg input
  refine ⟨k', fun lane => ?_, fun lane other => ?_, ?_, fun lane other => ?_, ?_, rfl,
    fun lane block => (beside.positions _).trans (turns.named lane block)⟩
  · by_cases here : lane = .sum
    · subst here
      rw [output]
      rw [← filled] at stored
      refine (turns.holds .sum).completed free (stored .sum) ((size _).trans (sound.sizes _ _).symm)
        (fun block other => ?_) (sound.proper _) (by rw [lock]; rfl) (cursor _) ?_
      · exact sound.spared turns beside .sum block (filled ▸ other)
      · rw [sound.sizes, sound.start_eq, filled]
        exact begins .sum
    · obtain ⟨drained, _⟩ := turns.drained lane here
      rw [input here]
      rw [← drained] at stored
      refine (turns.holds lane).emptied (drained ▸ more lane here) (stored lane)
        ((size _).trans (sound.sizes _ _).symm) (fun block other => ?_) ?_ (sound.proper _)
        (by rw [lock]; simpa using here) (cursor _)
      · exact sound.spared turns beside lane block (drained ▸ other)
      · rw [sound.sizes, sound.start_eq, drained]
        exact begins lane
  · rw [input other]
    exact (turns.feeds lane other).congr ⟨rfl, rfl⟩ rfl
  · rw [output]
    exact turns.taps.congr ⟨rfl, rfl⟩ rfl
  · obtain ⟨drained, _⟩ := turns.drained lane other
    rw [input other, drained]
    exact ⟨rfl, rfl⟩
  · rw [output, filled]
    exact ⟨rfl, rfl⟩

theorem Sound.input_lock (turns : A.Turns left right moved steps t k) {lane : Lane}
    (input : lane ≠ .sum) {b : TileBuffer}
    (found : t.buffers.items[(A.channel lane).cell steps]? = some b) :
    ((k lane).filled = steps ∧ b.full = false) ∨
      steps < (k lane).filled ∧ b.full = true ∧
        b.Begins (values left right lane) (4 * A.words * steps) (4 * A.words) := by
  obtain ⟨drained, _⟩ := turns.drained lane input
  have lock := (turns.holds lane).drain_lock (b := b) (by rw [drained]; exact found)
  rw [drained, sound.start_eq, sound.sizes] at lock
  rcases lock with ⟨level, _, off⟩ | ⟨more, on, _, begins⟩
  · exact .inl ⟨level.symm, off⟩
  · exact .inr ⟨more, on, begins⟩

theorem Sound.addition (turns : A.Turns left right moved steps t k) {a b c : TileBuffer}
    (foundA : t.buffers.items[(A.channel .left).cell steps]? = some a)
    (foundB : t.buffers.items[(A.channel .right).cell steps]? = some b)
    (foundC : t.buffers.items[(A.channel .sum).cell steps]? = some c)
    (sizeA : a.byteLength = 4 * A.words) (sizeB : b.byteLength = 4 * A.words)
    (sizeC : c.byteLength = 4 * A.words)
    (moreA : steps < (k .left).filled) (moreB : steps < (k .right).filled)
    (beginsA : a.Begins left (4 * A.words * steps) (4 * A.words))
    (beginsB : b.Begins right (4 * A.words * steps) (4 * A.words))
    (free : ∀ j, (k .sum).Live j → (A.channel .sum).cell j ≠ (A.channel .sum).cell (k .sum).filled) :
    ∃ k', A.Turns left right moved (steps + 1) { t with
      kernels := [A.kernel (steps + 1)]
      buffers := AddKernel.added (A.kernel steps).current
        (List.zipWith (· + ·) a.words b.words) t.buffers } k' := by
  have apart {lane other : Lane} (different : lane ≠ other) := sound.other_cell different steps steps
  obtain ⟨storedA, storedB, storedC⟩ := AddKernel.added_get (k := A.kernel steps)
    (turns.named .left steps) (turns.named .right steps) (turns.named .sum steps) foundA foundB foundC
    ⟨apart (by decide), apart (by decide), apart (by decide)⟩
    (List.zipWith (· + ·) a.words b.words)
  have total : List.zipWith (· + ·) a.words b.words = (List.range A.words).map fun i =>
      wordAt left (A.words * steps + i) + wordAt right (A.words * steps + i) := by
    rw [beginsA.words_eq sizeA, beginsB.words_eq sizeB, List.zipWith_map, List.zipWith_self]
  let new : Lane → TileBuffer
    | .left => a.setFull false
    | .right => b.setFull false
    | .sum => (c.load (List.zipWith (· + ·) a.words b.words)).setFull true
  have stored : ∀ lane, (AddKernel.added (A.kernel steps).current
      (List.zipWith (· + ·) a.words b.words) t.buffers).items[(A.channel lane).cell steps]? =
        some (new lane) := by
    rintro (_ | _ | _)
    exacts [storedA, storedB, storedC]
  refine sound.added turns (AddKernel.added_beside _ _ _)
    (by rintro (_ | _ | _) input; exacts [moreA, moreB, absurd rfl input]) free stored
    (by rintro (_ | _ | _); exacts [sizeA, sizeB, (ByteStore.size_write _ _ _).trans sizeC])
    (by rintro (_ | _ | _) <;> rfl) (by rintro (_ | _ | _) <;> rfl) ?_
  have stored : (c.load (List.zipWith (· + ·) a.words b.words)).Begins (sumBytes left right)
      (4 * A.words * steps) (4 * A.words) := by
    rw [total]
    exact c.load_begins (fun i => wordAt left i + wordAt right i) sizeC
  rintro (_ | _ | _)
  exacts [beginsA, beginsB, stored]

theorem Sound.runKernels (turns : A.Turns left right moved steps t k) :
    (∃ k', t.runKernels.1 = true ∧ A.Turns left right moved (steps + 1) t.runKernels.2 k') ∨
      t.runKernels = (false, t) ∧
        ((∃ lane, lane ≠ .sum ∧ (k lane).filled = steps) ∨ (k .sum).drained < steps) := by
  obtain ⟨filled, part⟩ := turns.filled
  -- The three buffers that are next.
  obtain ⟨a, foundA, sizeA⟩ := (turns.holds .left).sized steps
  obtain ⟨b, foundB, sizeB⟩ := (turns.holds .right).sized steps
  obtain ⟨c, foundC, sizeC⟩ := (turns.holds .sum).sized steps
  rw [sound.sizes] at sizeA sizeB sizeC
  have step := AddKernel.step_eq (k := A.kernel steps) (turns.named .left steps)
    (turns.named .right steps) (turns.named .sum steps) foundA foundB foundC
  have waits (off : (A.kernel steps).step t.buffers = none) : t.runKernels = (false, t) := by
    simp only [TileArray.runKernels, turns.kernels, AddKernel.stepAll, off]
    rw [← turns.kernels]
  rcases sound.input_lock turns (by decide) foundA with ⟨level, off⟩ | ⟨moreA, onA, beginsA⟩
  · refine .inr ⟨waits ?_, .inl ⟨.left, by decide, level⟩⟩
    rw [step, off]
    rfl
  rcases sound.input_lock turns (by decide) foundB with ⟨level, off⟩ | ⟨moreB, onB, beginsB⟩
  · refine .inr ⟨waits ?_, .inl ⟨.right, by decide, level⟩⟩
    rw [step, off, Bool.and_false]
    rfl
  rcases (turns.holds .sum).fill_lock (b := c) (by rw [filled]; exact foundC) with
    ⟨on, j, live, _⟩ | ⟨free, offC, _, _⟩
  · refine .inr ⟨waits ?_, .inr ?_⟩
    · rw [step, on, Bool.not_true, Bool.and_false]
      rfl
    · exact filled ▸ Nat.lt_of_le_of_lt live.1 live.2
  -- All three locks allow it.
  rw [onA, onB, offC] at step
  have ran : t.runKernels = (true, { t with
      kernels := [A.kernel (steps + 1)]
      buffers := AddKernel.added (A.kernel steps).current
        (List.zipWith (· + ·) a.words b.words) t.buffers }) := by
    simp only [TileArray.runKernels, turns.kernels, AddKernel.stepAll, step, Bool.and_self,
      Bool.not_false, if_true, kernel_turn]
  obtain ⟨k', after⟩ := sound.addition turns foundA foundB foundC sizeA sizeB sizeC moreA moreB
    beginsA beginsB free
  exact .inl ⟨k', by rw [ran], by rw [ran]; exact after⟩

section Blocks

variable {blocks : Nat} (turns : A.Turns left right moved steps t k)
  (within : ∀ lane, moved (A.endpoint lane) ≤ 4 * A.words * blocks)

include turns within

theorem Sound.filled_le {lane : Lane} (input : lane ≠ .sum) :
    steps ≤ (k lane).filled ∧ (k lane).filled ≤ blocks := by
  have count := (turns.feeds lane input).count
  have bound := within lane
  rw [Channel.written, sound.start_eq] at count
  have positive : 0 < 4 * A.words := Nat.mul_pos (by decide) sound.words
  exact ⟨(turns.drained lane input).1 ▸ (turns.holds lane).ordered,
    Nat.le_of_mul_le_mul_left (by omega) positive⟩

omit within in
theorem Sound.taken_all {lane : Lane} (input : lane ≠ .sum)
    (through : moved (A.endpoint lane) = 4 * A.words * blocks) :
    (k lane).filled = blocks ∧ (k lane).part = 0 := by
  have count := (turns.feeds lane input).count
  rw [through, ← sound.start_eq lane] at count
  exact (sound.proper lane).block_eq (turns.holds lane).part count

omit within in
theorem Sound.added_all (through : moved (A.endpoint .sum) = 4 * A.words * blocks) :
    blocks ≤ steps := by
  have count := turns.taps.count
  rw [through, ← sound.start_eq .sum] at count
  obtain ⟨drained, _⟩ := (sound.proper .sum).block_eq (turns.holds .sum).taken count
  have behind := (turns.holds .sum).ordered
  rwa [turns.filled.1, drained] at behind

theorem Sound.ended
    (stuck : ∀ lane, moved (A.endpoint lane) = 4 * A.words * blocks ∨ t.Barred (A.endpoint lane))
    (waits : (∃ lane, lane ≠ .sum ∧ (k lane).filled = steps) ∨ (k .sum).drained < steps)
    (lane : Lane) : moved (A.endpoint lane) = 4 * A.words * blocks := by
  have positive : 0 < 4 * A.words := Nat.mul_pos (by decide) sound.words
  obtain ⟨filled, part⟩ := turns.filled
  -- An input that took in no more than was added is not barred.
  have whole {lane : Lane} (input : lane ≠ .sum) (level : (k lane).filled = steps) :
      steps = blocks := by
    rcases stuck lane with all | barred
    · exact level.symm.trans (sound.taken_all turns input all).1
    · have behind := (turns.holds lane).behind_of_barred (turns.feeds lane input).route
        (sound.inbound lane input) barred
      rw [(turns.drained lane input).1] at behind
      omega
  have last : steps = blocks := by
    rcases waits with ⟨lane, input, level⟩ | behind
    · exact whole input level
    · rcases stuck .sum with all | barred
      · have added := sound.added_all turns all
        obtain ⟨low, high⟩ := sound.filled_le turns within (by decide : Lane.left ≠ .sum)
        omega
      · have level := (turns.holds .sum).level_of_barred turns.taps.route sound.outbound barred
        omega
  by_cases input : lane = .sum
  · subst input
    rcases stuck .sum with all | barred
    · exact all
    · have level := (turns.holds .sum).level_of_barred turns.taps.route sound.outbound barred
      have bound := within .sum
      have count := turns.taps.count
      rw [Channel.read, sound.start_eq, level, filled, last] at count
      omega
  · have bound := within lane
    have count := (turns.feeds lane input).count
    obtain ⟨low, high⟩ := sound.filled_le turns within input
    rw [Channel.written, sound.start_eq, show (k lane).filled = blocks by omega] at count
    omega

theorem Sound.sum_last (through : moved (A.endpoint .sum) = 4 * A.words * blocks) (lane : Lane) :
    moved (A.endpoint lane) = 4 * A.words * blocks := by
  by_cases input : lane = .sum
  · rw [input, through]
  have behind := sound.added_all turns through
  obtain ⟨low, high⟩ := sound.filled_le turns within input
  have bound := within lane
  have fed := (turns.feeds lane input).count
  rw [Channel.written, sound.start_eq, show (k lane).filled = blocks by omega] at fed
  omega

end Blocks

theorem Sound.content {blocks : Nat} (turns : A.Turns left right moved steps t k)
    (ended : ∀ lane, moved (A.endpoint lane) = 4 * A.words * blocks) (lane : Lane) {block : Nat}
    (below : block < blocks)
    (last : ∀ later, block < later → later < blocks →
      (A.channel lane).cell later ≠ (A.channel lane).cell block) :
    ∃ b, t.buffers.items[(A.channel lane).cell block]? = some b ∧ b.byteLength = 4 * A.words ∧
      b.Begins (values left right lane) (4 * A.words * block) (4 * A.words) := by
  have input {lane : Lane} (input : lane ≠ .sum) : (k lane).filled = blocks ∧ (k lane).part = 0 :=
    sound.taken_all turns input (ended lane)
  have level : (k lane).filled = blocks ∧ (k lane).part = 0 := by
    by_cases output : lane = .sum
    · have behind := sound.added_all turns (ended .sum)
      obtain ⟨filled, part⟩ := turns.filled
      have added := (turns.holds .left).ordered
      rw [(turns.drained .left (by decide)).1, (input (by decide : Lane.left ≠ .sum)).1] at added
      rw [output]
      exact ⟨by omega, part⟩
    · exact input output
  obtain ⟨filled, part⟩ := level
  obtain ⟨b, found, size⟩ := (turns.holds lane).sized block
  have begins := (turns.holds lane).kept block b ⟨by omega, fun later above under =>
    last later above (by omega), fun some => by omega⟩ found
  rw [sound.sizes, sound.start_eq] at begins
  exact ⟨b, found, size.trans (sound.sizes lane block), begins⟩

theorem Sound.still {blocks : Nat} (turns : A.Turns left right moved steps t k)
    (ended : ∀ lane, moved (A.endpoint lane) = 4 * A.words * blocks) : t.runKernels.1 = false := by
  have behind := sound.added_all turns (ended .sum)
  rcases sound.runKernels turns with ⟨k', _, after⟩ | ⟨ran, _⟩
  · obtain ⟨low, high⟩ := sound.filled_le after (fun lane => Nat.le_of_eq (ended lane))
      (by decide : Lane.left ≠ .sum)
    omega
  · rw [ran]

end Sound

structure Conveys (A : Adder) (T : Traffic) (left right : Nat → UInt8) (blocks : Nat) : Prop where
  only : ∀ packet ∈ T.packets, ∃ lane, packet.2.endpoint = A.endpoint lane
  every : ∀ lane, ∃ packet ∈ T.packets, packet.2.endpoint = A.endpoint lane
  length : ∀ packet ∈ T.packets, packet.2.addresses.length = 4 * A.words * blocks
  value : ∀ lane, T.value (A.endpoint lane) = values left right lane

theorem Conveys.ended {T : Traffic} {blocks : Nat} (conveys : A.Conveys T left right blocks)
    (ended : ∀ packet ∈ T.packets, Traffic.Ended moved packet) (lane : Lane) :
    moved (A.endpoint lane) = 4 * A.words * blocks := by
  obtain ⟨packet, member, here⟩ := conveys.every lane
  have all := ended packet member
  rwa [Traffic.Ended, here, conveys.length packet member] at all

theorem Sound.conducts (sound : A.Sound) {T : Traffic} {blocks : Nat}
    (conveys : A.Conveys T left right blocks) :
    T.Conducts blocks fun moved steps t => ∃ k, A.Turns left right moved steps t k := by
  refine ⟨?fill, ?drain, ?kernels⟩
  case fill =>
    rintro moved steps t ⟨k, turns⟩ packet member direction bytes nonempty next -
    obtain ⟨lane, here⟩ := conveys.only packet member
    have input : lane ≠ .sum := by
      rintro rfl
      have inbound : packet.2.endpoint.direction = .hostToDevice := direction
      rw [here, sound.outbound] at inbound
      cases inbound
    rw [here, conveys.value] at next
    rw [here]
    obtain ⟨count, t', k', filled, bound, after, still⟩ := sound.fill turns input nonempty next
    exact ⟨count, t', filled, bound, ⟨k', after⟩, still⟩
  case drain =>
    rintro moved steps t ⟨k, turns⟩ packet member direction limit positive -
    obtain ⟨lane, here⟩ := conveys.only packet member
    obtain rfl : lane = .sum := by
      by_contra input
      have outbound : packet.2.endpoint.direction = .deviceToHost := direction
      rw [here, sound.inbound lane input] at outbound
      cases outbound
    rw [here, conveys.value]
    obtain ⟨bytes, t', k', drained, bound, next, after, still⟩ := sound.drain turns positive
    exact ⟨bytes, t', drained, bound, next, ⟨k', after⟩, still⟩
  case kernels =>
    rintro moved steps t ⟨k, turns⟩ within
    have bound (lane : Lane) : moved (A.endpoint lane) ≤ 4 * A.words * blocks := by
      obtain ⟨packet, member, here⟩ := conveys.every lane
      have bound := within packet member
      rwa [here, conveys.length packet member] at bound
    have few {steps : Nat} {t : TileArray} {k : Lane → Marks}
        (turns : A.Turns left right moved steps t k) : steps ≤ blocks := by
      obtain ⟨low, high⟩ := sound.filled_le turns bound (by decide : Lane.left ≠ .sum)
      exact Nat.le_trans low high
    rcases sound.runKernels turns with ⟨k', ran, after⟩ | ⟨ran, waits⟩
    · refine ⟨steps + 1, Nat.le_succ _, few after, ⟨k', after⟩, fun none => ?_,
        fun _ => .inl (Nat.lt_succ_self _)⟩
      rw [ran] at none
      cases none
    · rw [ran]
      refine ⟨steps, Nat.le_refl _, few turns, ⟨k, turns⟩, fun _ => rfl, fun stuck => .inr ?_⟩
      have ended := sound.ended turns bound (fun lane => ?_) waits
      · intro packet member
        obtain ⟨lane, here⟩ := conveys.only packet member
        rw [Traffic.Ended, here, conveys.length packet member]
        exact ended lane
      · obtain ⟨packet, member, here⟩ := conveys.every lane
        have ended := stuck packet member
        rwa [Traffic.Ended, here, conveys.length packet member] at ended

theorem Sound.begun (sound : A.Sound) (left right : Nat → UInt8)
    (vacant : ∀ lane, (A.channel lane).Vacant t.buffers)
    (routed : ∀ lane, t.routeOf (A.endpoint lane) = some ⟨(A.channel lane).cells, 0⟩)
    (kernels : t.kernels = [A.kernel 0])
    (named : ∀ lane block, t.buffers.position? ((A.kernel block).current.on lane) =
      some ((A.channel lane).cell block)) :
    A.Turns left right (fun _ => 0) 0 t fun _ => {} := by
  have start (lane : Lane) : t.routeOf (A.endpoint lane) = some ((A.channel lane).route 0) := by
    rw [routed, Channel.route, Nat.zero_mod]
  exact ⟨fun lane => (vacant lane).holds (sound.proper lane) _, fun lane _ => ⟨start lane, rfl⟩,
    ⟨start .sum, rfl⟩, fun _ _ => ⟨rfl, rfl⟩, ⟨rfl, rfl⟩, kernels, named⟩

end Adder

end FabricQueue
