import FabricQueue.Proofs.Kernels
import FabricQueue.Proofs.Traffic

set_option autoImplicit false

namespace FabricQueue

namespace Channel

variable {ch : Channel} {value : Nat → UInt8} {s : TileBuffers} {t t' : TileArray} {k k' : Marks}
  {e e' : Endpoint} {moved : Counts} {cells : List Nat}

-- The cycle that some buffers make.
def of (s : TileBuffers) (cells : List Nat) : Channel :=
  ⟨cells, fun i => (s.items[i]?.map TileBuffer.byteLength).getD 0⟩

def Vacant (ch : Channel) (s : TileBuffers) : Prop :=
  ∀ block, ∃ b, s.items[ch.cell block]? = some b ∧ b.byteLength = ch.blockSize block ∧
    b.full = false ∧ b.cursor = 0

theorem Vacant.holds (vacant : ch.Vacant s) (proper : ch.Proper) (value : Nat → UInt8) :
    ch.Holds value s {} := by
  have idle (j : Nat) : ¬Marks.Live {} j := fun live => Nat.not_lt_zero _ live.2
  refine ⟨Nat.le_refl _, proper.positive _, proper.positive _, fun some => absurd some (by decide),
    fun block => ?_, fun i _ live => absurd live (idle i), fun some => absurd some (by decide),
    fun j _ live => absurd live (idle j), fun i b _ found => ?_,
    fun _ _ latest => absurd latest.filled (Nat.not_lt_zero _)⟩
  · obtain ⟨b, found, size, _⟩ := vacant block
    exact ⟨b, found, size⟩
  · obtain ⟨_, known, _, lock, cursor⟩ := vacant i
    cases found.symm.trans known
    refine ⟨lock, by rw [cursor, ite_self], ?_⟩
    rw [cursor]
    exact fun _ below => absurd below (Nat.not_lt_zero _)

theorem of_vacant (cycle : cells ≠ []) (empty : ∀ i ∈ cells, ∃ b, s.items[i]? = some b ∧
    0 < b.byteLength ∧ b.full = false ∧ b.cursor = 0) : (of s cells).Proper ∧ (of s cells).Vacant s := by
  have buffer (block : Nat) : ∃ b, s.items[(of s cells).cell block]? = some b ∧
      b.byteLength = (of s cells).blockSize block ∧ 0 < b.byteLength ∧ b.full = false ∧
        b.cursor = 0 := by
    have some : (of s cells).cells ≠ [] := cycle
    obtain ⟨b, found, known⟩ := empty _ (cell_mem some block)
    refine ⟨b, found, ?_, known⟩
    change b.byteLength = (s.items[(of s cells).cell block]?.map TileBuffer.byteLength).getD 0
    rw [found]
    rfl
  refine ⟨⟨cycle, fun block => ?_⟩, fun block => ?_⟩
  · obtain ⟨b, _, size, some, _⟩ := buffer block
    exact size ▸ some
  · obtain ⟨b, found, size, _, lock, cursor⟩ := buffer block
    exact ⟨b, found, size, lock, cursor⟩

-- Where no block is left, all locks say so.
theorem Holds.unlocked (holds : ch.Holds value s k) (level : k.drained = k.filled) (block : Nat) :
    ∃ b, s.items[ch.cell block]? = some b ∧ b.full = false := by
  obtain ⟨b, found, _⟩ := holds.sized block
  refine ⟨b, found, (holds.empty block b (fun j live => ?_) found).1⟩
  obtain ⟨low, high⟩ := live
  omega

structure Feeds (ch : Channel) (e : Endpoint) (moved : Counts) (t : TileArray) (k : Marks) :
    Prop where
  route : t.routeOf e = some (ch.route k.filled)
  count : ch.written k = moved e

structure Taps (ch : Channel) (e : Endpoint) (moved : Counts) (t : TileArray) (k : Marks) :
    Prop where
  route : t.routeOf e = some (ch.route k.drained)
  count : ch.read k = moved e

theorem Feeds.beside (feeds : ch.Feeds e moved t k) (streamed : t.Streamed t' e' cells)
    (other : e ≠ e') (count : Nat) : ch.Feeds e (Function.update moved e' count) t' k :=
  ⟨(streamed.routes e other).trans feeds.route,
    feeds.count.trans (Function.update_of_ne other _ _).symm⟩

theorem Taps.beside (taps : ch.Taps e moved t k) (streamed : t.Streamed t' e' cells)
    (other : e ≠ e') (count : Nat) : ch.Taps e (Function.update moved e' count) t' k :=
  ⟨(streamed.routes e other).trans taps.route,
    taps.count.trans (Function.update_of_ne other _ _).symm⟩

theorem Feeds.congr (feeds : ch.Feeds e moved t k) (same : k'.filled = k.filled ∧ k'.part = k.part)
    (routes : t'.routeOf e = t.routeOf e) : ch.Feeds e moved t' k' := by
  refine ⟨by rw [routes, feeds.route, same.1], ?_⟩
  rw [← feeds.count, written, written, same.1, same.2]

theorem Taps.congr (taps : ch.Taps e moved t k)
    (same : k'.drained = k.drained ∧ k'.taken = k.taken)
    (routes : t'.routeOf e = t.routeOf e) : ch.Taps e moved t' k' := by
  refine ⟨by rw [routes, taps.route, same.1], ?_⟩
  rw [← taps.count, read, read, same.1, same.2]

theorem Holds.beside (holds : ch.Holds value t.buffers k) (streamed : t.Streamed t' e cells)
    (cycle : ch.cells ≠ []) (apart : ∀ i ∈ ch.cells, i ∉ cells) : ch.Holds value t'.buffers k :=
  holds.congr fun block => streamed.buffers _ (apart _ (cell_mem cycle block))

theorem Feeds.fill (proper : ch.Proper) (holds : ch.Holds value t.buffers k)
    (feeds : ch.Feeds e moved t k) (inbound : e.direction = .hostToDevice) {bytes : List UInt8}
    (nonempty : bytes ≠ [])
    (next : bytes = (List.range' (moved e) bytes.length).map value) :
    ∃ count k' t', t.fill e bytes = .ok (count, t') ∧ count ≤ bytes.length ∧
      ch.Holds value t'.buffers k' ∧ ch.Feeds e (Function.update moved e (moved e + count)) t' k' ∧
      (k'.drained = k.drained ∧ k'.taken = k.taken) ∧ t.Streamed t' e ch.cells ∧
      (count = 0 → t' = t ∧ t.Barred e) := by
  rw [← feeds.count] at next ⊢
  obtain ⟨count, k', t', filled, bound, after, route, more, same, streamed, still⟩ :=
    holds.fill_ok proper feeds.route inbound nonempty next
  exact ⟨count, k', t', filled, bound, after,
    ⟨route, by rw [Function.update_self, more]⟩, same, streamed, still⟩

theorem Taps.drain (proper : ch.Proper) (holds : ch.Holds value t.buffers k)
    (taps : ch.Taps e moved t k) (outbound : e.direction = .deviceToHost) {limit : Nat}
    (positive : 0 < limit) :
    ∃ bytes k' t', t.drain e limit = .ok (bytes, t') ∧ bytes.length ≤ limit ∧
      bytes = (List.range' (moved e) bytes.length).map value ∧
      ch.Holds value t'.buffers k' ∧
      ch.Taps e (Function.update moved e (moved e + bytes.length)) t' k' ∧
      (k'.filled = k.filled ∧ k'.part = k.part) ∧ t.Streamed t' e ch.cells ∧
      (bytes = [] → t' = t ∧ t.Barred e) := by
  rw [← taps.count]
  obtain ⟨bytes, k', t', drained, bound, next, after, route, more, same, streamed, still⟩ :=
    holds.drain_ok proper taps.route outbound positive
  exact ⟨bytes, k', t', drained, bound, next, after,
    ⟨route, by rw [Function.update_self, more]⟩, same, streamed, still⟩

structure Between (ch : Channel) (value : Nat → UInt8) (inlet outlet : Endpoint) (moved : Counts)
    (t : TileArray) (k : Marks) : Prop where
  holds : ch.Holds value t.buffers k
  feeds : ch.Feeds inlet moved t k
  taps : ch.Taps outlet moved t k
  kernels : ∀ name ∈ t.kernels.flatMap AddKernel.names, ∀ i,
    t.buffers.position? name = some i → i ∉ ch.cells

variable {inlet outlet : Endpoint}

theorem Vacant.between (vacant : ch.Vacant t.buffers) (proper : ch.Proper) (value : Nat → UInt8)
    (feeds : t.routeOf inlet = some ⟨ch.cells, 0⟩) (drains : t.routeOf outlet = some ⟨ch.cells, 0⟩)
    (kernels : ∀ name ∈ t.kernels.flatMap AddKernel.names, ∀ i,
      t.buffers.position? name = some i → i ∉ ch.cells) :
    ch.Between value inlet outlet (fun _ => 0) t {} := by
  have start : ch.route 0 = ⟨ch.cells, 0⟩ := by rw [route, Nat.zero_mod]
  exact ⟨vacant.holds proper value, ⟨feeds.trans (congrArg some start.symm), rfl⟩,
    ⟨drains.trans (congrArg some start.symm), rfl⟩, kernels⟩

theorem Between.runKernels (between : ch.Between value inlet outlet moved t k)
    (cycle : ch.cells ≠ []) : ch.Between value inlet outlet moved t.runKernels.2 k := by
  obtain ⟨beside, names⟩ := AddKernel.stepAll_beside t.kernels t.buffers
  have kept : t.runKernels.2.kernels.flatMap AddKernel.names =
      t.kernels.flatMap AddKernel.names := by
    rw [List.flatMap_def, List.flatMap_def]
    exact congrArg _ names
  refine ⟨between.holds.congr fun block => beside.others _ fun name member found => ?_,
    between.feeds.congr ⟨rfl, rfl⟩ rfl, between.taps.congr ⟨rfl, rfl⟩ rfl,
    fun name member i found => ?_⟩
  · exact between.kernels name member _ found (cell_mem cycle block)
  · rw [kept] at member
    exact between.kernels name member i ((beside.positions name).symm.trans found)

theorem Between.congr_kernels (between : ch.Between value inlet outlet moved t k)
    (streamed : t.Streamed t' e cells) : ∀ name ∈ t'.kernels.flatMap AddKernel.names, ∀ i,
      t'.buffers.position? name = some i → i ∉ ch.cells := by
  intro name member i found
  rw [streamed.kernels] at member
  exact between.kernels name member i ((streamed.names name).symm.trans found)

theorem Between.beside (between : ch.Between value inlet outlet moved t k)
    (streamed : t.Streamed t' e cells) (cycle : ch.cells ≠ []) (apart : ∀ i ∈ ch.cells, i ∉ cells)
    (ends : inlet ≠ e ∧ outlet ≠ e) (count : Nat) :
    ch.Between value inlet outlet (Function.update moved e count) t' k :=
  ⟨between.holds.beside streamed cycle apart, between.feeds.beside streamed ends.1 count,
    between.taps.beside streamed ends.2 count, between.congr_kernels streamed⟩

theorem Between.fill (between : ch.Between value inlet outlet moved t k) (proper : ch.Proper)
    (inbound : inlet.direction = .hostToDevice) (apart : outlet ≠ inlet) {bytes : List UInt8}
    (nonempty : bytes ≠ [])
    (next : bytes = (List.range' (moved inlet) bytes.length).map value) :
    ∃ count k' t', t.fill inlet bytes = .ok (count, t') ∧ count ≤ bytes.length ∧
      ch.Between value inlet outlet (Function.update moved inlet (moved inlet + count)) t' k' ∧
      t.Streamed t' inlet ch.cells ∧ (count = 0 → t' = t ∧ t.Barred inlet) := by
  obtain ⟨count, k', t', filled, bound, holds, feeds, same, streamed, still⟩ :=
    between.feeds.fill proper between.holds inbound nonempty next
  exact ⟨count, k', t', filled, bound, ⟨holds, feeds,
    (between.taps.beside streamed apart _).congr same rfl, between.congr_kernels streamed⟩,
    streamed, still⟩

theorem Between.drain (between : ch.Between value inlet outlet moved t k) (proper : ch.Proper)
    (outbound : outlet.direction = .deviceToHost) (apart : inlet ≠ outlet) {limit : Nat}
    (positive : 0 < limit) :
    ∃ bytes k' t', t.drain outlet limit = .ok (bytes, t') ∧ bytes.length ≤ limit ∧
      bytes = (List.range' (moved outlet) bytes.length).map value ∧
      ch.Between value inlet outlet
        (Function.update moved outlet (moved outlet + bytes.length)) t' k' ∧
      t.Streamed t' outlet ch.cells ∧ (bytes = [] → t' = t ∧ t.Barred outlet) := by
  obtain ⟨bytes, k', t', drained, bound, next, holds, taps, same, streamed, still⟩ :=
    between.taps.drain proper between.holds outbound positive
  exact ⟨bytes, k', t', drained, bound, next, ⟨holds,
    (between.feeds.beside streamed apart _).congr same rfl, taps, between.congr_kernels streamed⟩,
    streamed, still⟩

theorem Between.ended (between : ch.Between value inlet outlet moved t k) (proper : ch.Proper)
    (inbound : inlet.direction = .hostToDevice) (outbound : outlet.direction = .deviceToHost)
    {blocks : Nat} (within : moved inlet ≤ ch.start blocks ∧ moved outlet ≤ ch.start blocks)
    (fill : moved inlet = ch.start blocks ∨ t.Barred inlet)
    (drain : moved outlet = ch.start blocks ∨ t.Barred outlet) :
    moved inlet = ch.start blocks ∧ moved outlet = ch.start blocks := by
  obtain ⟨holds, feeds, taps, _⟩ := between
  have begun := holds.begun
  rcases fill with whole | barred
  · refine ⟨whole, drain.elim id fun barred => ?_⟩
    have level := holds.level_of_barred taps.route outbound barred
    obtain ⟨filled, _⟩ := proper.block_eq holds.part (feeds.count.trans whole)
    rw [← taps.count, read, level, filled]
    omega
  · have behind := holds.behind_of_barred feeds.route inbound barred
    rcases drain with whole | barred'
    · -- All was taken out, so nothing can stand in the way of what comes in.
      obtain ⟨drained, _⟩ := proper.block_eq holds.taken (taps.count.trans whole)
      have more := ch.start_mono (show blocks + 1 ≤ k.filled by omega)
      have some := proper.positive blocks
      have count := feeds.count
      rw [written] at count
      rw [start] at more
      omega
    · have level := holds.level_of_barred taps.route outbound barred'
      omega

end Channel

end FabricQueue
