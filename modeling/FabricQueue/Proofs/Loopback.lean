import FabricQueue.Proofs.Conduits

set_option autoImplicit false

namespace FabricQueue

-- A route that has buffers, and none of some cells.
def Route.Outside (r : Route) (cells : List Nat) : Prop :=
  r.next < r.buffers.length ∧ ∀ i ∈ r.buffers, i ∉ cells

theorem Route.Outside.current {r : Route} {cells : List Nat} (outside : r.Outside cells) :
    r.current ∉ cells := by
  rw [Route.current, List.getD, List.getElem?_eq_getElem outside.1]
  exact outside.2 _ (List.getElem_mem _)

theorem Route.Outside.advance {r : Route} {cells : List Nat} (outside : r.Outside cells) :
    r.advance.Outside cells :=
  ⟨Nat.mod_lt _ (Nat.lt_of_le_of_lt (Nat.zero_le _) outside.1), outside.2⟩

namespace TileArray

variable {t t' : TileArray} {e : Endpoint} {r : Route}

theorem Barred.fill (barred : t.Barred e) (bytes : List UInt8) : t.fill e bytes = .ok (0, t) := by
  obtain ⟨r, b, known, found, closed⟩ := barred
  exact fill_barred known found closed bytes

theorem Barred.drain (barred : t.Barred e) (limit : Nat) : t.drain e limit = .ok ([], t) := by
  obtain ⟨r, b, known, found, closed⟩ := barred
  exact drain_barred known found closed limit

theorem fill_passes {bytes : List UInt8} {count : Nat} (known : t.routeOf e = some r)
    (filled : t.fill e bytes = .ok (count, t')) :
    t' = t ∨ ∃ ended, t' = t.pass e r ended fun b => b.fill (bytes.take count) := by
  simp only [fill, known] at filled
  split at filled
  · cases filled; exact .inl rfl
  · cases filled; exact .inr ⟨_, rfl⟩

theorem drain_passes {bytes : List UInt8} {limit : Nat} (known : t.routeOf e = some r)
    (drained : t.drain e limit = .ok (bytes, t')) :
    t' = t ∨ ∃ ended count, t' = t.pass e r ended fun b => b.drain count := by
  simp only [drain, known] at drained
  split at drained
  · cases drained; exact .inl rfl
  · cases drained; exact .inr ⟨_, _, rfl⟩

end TileArray

theorem TileBuffer.Begins.agree {b : TileBuffer} {value value' : Nat → UInt8} {start count : Nat}
    (begins : b.Begins value start count) (same : ∀ i < start + count, value' i = value i) :
    b.Begins value' start count :=
  fun i below => (begins i below).trans (same _ (by omega)).symm

namespace Channel

variable {ch : Channel} {value value' : Nat → UInt8} {s : TileBuffers} {t : TileArray} {k : Marks}
  {inlet outlet : Endpoint} {moved : Counts}

def Completes (ch : Channel) (count blocks : Nat) : Prop :=
  ch.start blocks ≤ count ∧ count < ch.start (blocks + 1)

instance (ch : Channel) (count blocks : Nat) : Decidable (ch.Completes count blocks) :=
  inferInstanceAs (Decidable (_ ∧ _))

theorem Completes.unique {count i j : Nat} (first : ch.Completes count i)
    (second : ch.Completes count j) : i = j := by
  rcases Nat.lt_trichotomy i j with below | same | above
  · have next := ch.start_mono below
    exact absurd (Nat.lt_of_lt_of_le first.2 (Nat.le_trans next second.1)) (Nat.lt_irrefl _)
  · exact same
  · have next := ch.start_mono above
    exact absurd (Nat.lt_of_lt_of_le second.2 (Nat.le_trans next first.1)) (Nat.lt_irrefl _)

def Occupied (ch : Channel) (block drained : Nat) : Prop :=
  ∃ j < block, ch.cell j = ch.cell block ∧ drained < ch.start (j + 1)

instance (ch : Channel) (block drained : Nat) : Decidable (ch.Occupied block drained) :=
  inferInstanceAs (Decidable (∃ j < block, ch.cell j = ch.cell block ∧ drained < ch.start (j + 1)))

theorem cell_cycle (ch : Channel) (block : Nat) :
    ch.cell (block + ch.cells.length) = ch.cell block := by
  rw [cell, cell, Nat.add_mod_right]

theorem start_cycle (ch : Channel) (block : Nat) :
    ch.start (block + ch.cells.length) = ch.start block + ch.start ch.cells.length := by
  induction block with
  | zero => rw [Nat.zero_add, start, Nat.zero_add]
  | succ block ih =>
    rw [Nat.add_right_comm, start, start, ih, blockSize, blockSize, cell_cycle]
    omega

namespace Holds

variable (holds : ch.Holds value s k)

include holds

theorem agree (same : ∀ i < ch.written k, value' i = value i) : ch.Holds value' s k where
  ordered := holds.ordered
  part := holds.part
  taken := holds.taken
  begun := holds.begun
  sized := holds.sized
  apart := holds.apart
  fresh := holds.fresh
  full j b live found := by
    obtain ⟨lock, cursor, begins⟩ := holds.full j b live found
    have before := ch.start_mono live.2
    refine ⟨lock, cursor, begins.agree fun i below => same i ?_⟩
    rw [start] at before
    rw [written]
    omega
  empty i b free found := by
    obtain ⟨lock, cursor, begins⟩ := holds.empty i b free found
    refine ⟨lock, cursor, begins.agree fun i below => same i ?_⟩
    rw [written]
    split at cursor <;> omega
  kept i b latest found := by
    have before := ch.start_mono latest.filled
    refine (holds.kept i b latest found).agree fun i below => same i ?_
    rw [start] at before
    rw [written]
    omega

theorem completes_written : ch.Completes (ch.written k) k.filled := by
  have part := holds.part
  rw [Completes, written, start]
  omega

theorem completes_read : ch.Completes (ch.read k) k.drained := by
  have taken := holds.taken
  rw [Completes, read, start]
  omega

theorem read_le_written : ch.read k ≤ ch.written k := by
  have ordered := holds.ordered
  rcases Nat.lt_or_eq_of_le ordered with behind | level
  · have next : ch.start (k.drained + 1) ≤ ch.start k.filled := ch.start_mono behind
    have inside := holds.completes_read.2
    rw [written]
    omega
  · rw [read, written, level, holds.untouched level]
    omega

theorem written_le (cycle : ch.cells ≠ []) :
    ch.written k ≤ ch.read k + ch.start ch.cells.length := by
  have some := List.length_pos_iff.mpr cycle
  have ahead : k.filled ≤ k.drained + ch.cells.length := by
    by_contra further
    have twice := holds.apart k.drained (k.drained + ch.cells.length) ⟨Nat.le_refl _, by omega⟩
      ⟨by omega, by omega⟩ (ch.cell_cycle _).symm
    omega
  have round := ch.start_cycle k.drained
  rcases Nat.lt_or_eq_of_le ahead with short | whole
  · have next : ch.start (k.filled + 1) ≤ ch.start (k.drained + ch.cells.length) :=
      ch.start_mono short
    have inside := holds.completes_written.2
    rw [read]
    omega
  · have none : k.part = 0 := by
      by_contra begun
      refine holds.fresh (Nat.pos_of_ne_zero begun) k.drained ⟨Nat.le_refl _, by omega⟩ ?_
      rw [whole, cell_cycle]
    rw [read, written, none, whole]
    omega

theorem live_iff {j : Nat} (filled : j < k.filled) :
    k.Live j ↔ ch.read k < ch.start (j + 1) := by
  obtain ⟨low, high⟩ := holds.completes_read
  refine ⟨fun live => ?_, fun more => ⟨?_, filled⟩⟩
  · have next := ch.start_mono (Nat.succ_le_succ live.1)
    exact Nat.lt_of_lt_of_le high next
  · by_contra gone
    have before : ch.start (j + 1) ≤ ch.start k.drained := ch.start_mono (Nat.not_le.mp gone)
    omega

theorem occupied_iff : ch.Occupied k.filled (ch.read k) ↔
    ∃ j, k.Live j ∧ ch.cell j = ch.cell k.filled := by
  constructor
  · rintro ⟨j, filled, same, more⟩
    exact ⟨j, (holds.live_iff filled).mpr more, same⟩
  · rintro ⟨j, live, same⟩
    exact ⟨j, live.2, same, (holds.live_iff live.2).mp live⟩

theorem level_iff (proper : ch.Proper) : ch.read k = ch.start k.filled ↔ k.drained = k.filled := by
  refine ⟨fun whole => (proper.block_eq holds.taken whole).1, fun level => ?_⟩
  rw [read, holds.untouched level, level, Nat.add_zero]

theorem distinct (free : ¬ch.Occupied k.filled (ch.read k)) (behind : k.drained ≠ k.filled) :
    ch.cell k.filled ≠ ch.cell k.drained := by
  intro same
  have ordered := holds.ordered
  exact free (holds.occupied_iff.mpr ⟨k.drained, ⟨Nat.le_refl _, by omega⟩, same.symm⟩)

theorem free_of_begun (begun : ch.start k.filled < ch.written k) :
    ¬ch.Occupied k.filled (ch.read k) := by
  intro used
  obtain ⟨j, live, same⟩ := holds.occupied_iff.mp used
  rw [written] at begun
  exact holds.fresh (by omega) j live same

theorem behind_of_tapped (tapped : ch.start k.drained < ch.read k) : k.drained ≠ k.filled := by
  intro level
  have none := holds.untouched level
  rw [read] at tapped
  omega

end Holds

section Barred

variable (between : ch.Between value inlet outlet moved t k)

include between

theorem Between.barred_inlet_iff (inbound : inlet.direction = .hostToDevice) :
    t.Barred inlet ↔ ch.Occupied k.filled (moved outlet) := by
  obtain ⟨holds, feeds, taps, _⟩ := between
  rw [← taps.count, holds.occupied_iff]
  constructor
  · rintro ⟨r, b, known, found, closed⟩
    cases feeds.route.symm.trans known
    rcases holds.fill_lock found with ⟨_, used⟩ | ⟨_, lock, _⟩
    · exact used
    · simp [TileArray.ready, inbound, lock] at closed
  · rintro ⟨j, live, same⟩
    obtain ⟨b, found, _⟩ := holds.sized k.filled
    refine ⟨_, b, feeds.route, found, ?_⟩
    rcases holds.fill_lock found with ⟨lock, _⟩ | ⟨free, _⟩
    · simp [TileArray.ready, inbound, lock]
    · exact absurd same (free j live)

theorem Between.barred_outlet_iff (proper : ch.Proper) (outbound : outlet.direction = .deviceToHost) :
    t.Barred outlet ↔ moved outlet = ch.start k.filled := by
  obtain ⟨holds, _, taps, _⟩ := between
  rw [← taps.count, holds.level_iff proper]
  refine ⟨holds.level_of_barred taps.route outbound, fun level => ?_⟩
  obtain ⟨b, found, lock⟩ := holds.unlocked level k.drained
  exact ⟨_, b, taps.route, found, by simp [TileArray.ready, outbound, lock]⟩

end Barred

theorem Between.agree (between : ch.Between value inlet outlet moved t k)
    (same : ∀ i < moved inlet, value' i = value i) :
    ch.Between value' inlet outlet moved t k :=
  { between with
    holds := between.holds.agree fun i below => same i (between.feeds.count ▸ below) }

end Channel

-- Two ports that are about to fill and to drain the same cycle of empty buffers, which nobody else
-- uses.
structure Loopback (t : TileArray) (cells : List Nat) (inlet outlet : Endpoint) : Prop where
  cycle : cells ≠ []
  empty : ∀ i ∈ cells, ∃ b, t.buffers.items[i]? = some b ∧ 0 < b.byteLength ∧ b.full = false ∧
    b.cursor = 0
  feeds : t.routeOf inlet = some ⟨cells, 0⟩
  drains : t.routeOf outlet = some ⟨cells, 0⟩
  inbound : inlet.direction = .hostToDevice
  outbound : outlet.direction = .deviceToHost
  routes : ∀ e r, e ≠ inlet → e ≠ outlet → t.routeOf e = some r → r.Outside cells
  kernels : ∀ name ∈ t.kernels.flatMap AddKernel.names, ∀ i,
    t.buffers.position? name = some i → i ∉ cells

namespace Loopback

-- The bytes that two ports accepted and gave out, and the tiles after that, with calls on other
-- ports and steps of the kernels in between.
inductive Run (inlet outlet : Endpoint) (start : TileArray) :
    List UInt8 → List UInt8 → TileArray → Prop where
  | start : Run inlet outlet start [] [] start
  | fill {accepted drained bytes : List UInt8} {t t' : TileArray} {count : Nat} :
      Run inlet outlet start accepted drained t → bytes ≠ [] →
      t.fill inlet bytes = .ok (count, t') →
      Run inlet outlet start (accepted ++ bytes.take count) drained t'
  | drain {accepted drained bytes : List UInt8} {t t' : TileArray} {limit : Nat} :
      Run inlet outlet start accepted drained t → 0 < limit →
      t.drain outlet limit = .ok (bytes, t') →
      Run inlet outlet start accepted (drained ++ bytes) t'
  | fillOther {accepted drained bytes : List UInt8} {t t' : TileArray} {e : Endpoint}
      {count : Nat} : Run inlet outlet start accepted drained t → e ≠ inlet → e ≠ outlet →
      t.fill e bytes = .ok (count, t') → Run inlet outlet start accepted drained t'
  | drainOther {accepted drained bytes : List UInt8} {t t' : TileArray} {e : Endpoint}
      {limit : Nat} : Run inlet outlet start accepted drained t → e ≠ inlet → e ≠ outlet →
      t.drain e limit = .ok (bytes, t') → Run inlet outlet start accepted drained t'
  | kernels {accepted drained : List UInt8} {t : TileArray} :
      Run inlet outlet start accepted drained t →
      Run inlet outlet start accepted drained t.runKernels.2

-- The two ports as a queue: after how many whole blocks they are, and what a call on them does.
structure Fifo (ch : Channel) (inlet outlet : Endpoint) (accepted drained : List UInt8)
    (t : TileArray) (filled emptied : Nat) : Prop where
  inside : ch.Completes accepted.length filled ∧ ch.Completes drained.length emptied
  -- Each port has the buffer of its next block in use.
  routes : t.routeOf inlet = some (ch.route filled) ∧ t.routeOf outlet = some (ch.route emptied)
  ordered : drained <+: accepted
  bounded : accepted.length ≤ drained.length + ch.start ch.cells.length
  fill : ∀ bytes, bytes ≠ [] → ∃ count t', t.fill inlet bytes = .ok (count, t') ∧
    count ≤ bytes.length ∧ (count = 0 ↔ ch.Occupied filled drained.length)
  drain : ∀ limit, 0 < limit → ∃ bytes t', t.drain outlet limit = .ok (bytes, t') ∧
    bytes.length ≤ limit ∧ (bytes = [] ↔ drained.length = ch.start filled)
  -- Ports that both move bytes work on two buffers, and a port goes on with what it began.
  apart : ¬ch.Occupied filled drained.length → drained.length ≠ ch.start filled →
    ch.cell filled ≠ ch.cell emptied
  begun : ch.start filled < accepted.length → ¬ch.Occupied filled drained.length
  tapped : ch.start emptied < drained.length → drained.length ≠ ch.start filled

structure Underway (ch : Channel) (inlet outlet : Endpoint) (accepted drained : List UInt8)
    (t : TileArray) : Prop where
  ordered : drained <+: accepted
  between : ∃ moved k, ch.Between (accepted.getD · 0) inlet outlet moved t k ∧
    moved inlet = accepted.length ∧ moved outlet = drained.length
  routes : ∀ e r, e ≠ inlet → e ≠ outlet → t.routeOf e = some r → r.Outside ch.cells

variable {ch : Channel} {inlet outlet e : Endpoint} {accepted drained bytes : List UInt8}
  {start t t' : TileArray} {r : Route}

theorem getD_range (list : List UInt8) {first count : Nat} (fits : first + count ≤ list.length) :
    (List.range' first count).map (list.getD · 0) = (list.drop first).take count := by
  apply List.ext_getElem
  · simp only [List.length_map, List.length_range', List.length_take, List.length_drop]
    omega
  · intro i _ below
    simp only [List.length_take, List.length_drop] at below
    have inside : first + i < list.length := by omega
    simp [inside]

theorem getD_longer {list longer : List UInt8} (longer_of : list <+: longer) {i : Nat}
    (below : i < list.length) : longer.getD i 0 = list.getD i 0 := by
  obtain ⟨rest, rfl⟩ := longer_of
  rw [List.getD_eq_getElem?_getD, List.getD_eq_getElem?_getD, List.getElem?_append_left below]

section Steps

variable (underway : Underway ch inlet outlet accepted drained t)

include underway

theorem Underway.fill (proper : ch.Proper) (inbound : inlet.direction = .hostToDevice)
    (apart : outlet ≠ inlet) (nonempty : bytes ≠ []) :
    ∃ count t', t.fill inlet bytes = .ok (count, t') ∧ count ≤ bytes.length ∧
      (count = 0 → t.Barred inlet) ∧
      Underway ch inlet outlet (accepted ++ bytes.take count) drained t' := by
  obtain ⟨ordered, ⟨moved, k, between, came, went⟩, routes⟩ := underway
  -- The bytes that are offered come next, whether they are accepted or not.
  have offered := between.agree fun i below =>
    getD_longer (List.prefix_append accepted bytes) (came ▸ below)
  have next := getD_range (accepted ++ bytes) (Nat.le_of_eq List.length_append.symm)
  rw [List.drop_left, List.take_length, ← came] at next
  obtain ⟨count, k', t', filled, bound, after, streamed, still⟩ :=
    offered.fill proper inbound apart nonempty next.symm
  have length : (bytes.take count).length = count := by rw [List.length_take]; omega
  have part : accepted ++ bytes.take count <+: accepted ++ bytes :=
    (List.prefix_append_right_inj _).mpr (List.take_prefix _ _)
  refine ⟨count, t', filled, bound, fun none => (still none).2,
    ordered.trans (List.prefix_append _ _), ⟨_, k', after.agree fun i below => ?_, ?_, ?_⟩,
    fun e r other other' known => routes e r other other' (streamed.routes e other ▸ known)⟩
  · rw [Function.update_self, came] at below
    refine (getD_longer part ?_).symm
    rwa [List.length_append, length]
  · rw [Function.update_self, came, List.length_append, length]
  · rw [Function.update_of_ne apart, went]

theorem Underway.drain (proper : ch.Proper) (outbound : outlet.direction = .deviceToHost)
    (apart : inlet ≠ outlet) {limit : Nat} (positive : 0 < limit) :
    ∃ bytes t', t.drain outlet limit = .ok (bytes, t') ∧ bytes.length ≤ limit ∧
      (bytes = [] → t.Barred outlet) ∧
      Underway ch inlet outlet accepted (drained ++ bytes) t' := by
  obtain ⟨ordered, ⟨moved, k, between, came, went⟩, routes⟩ := underway
  obtain ⟨bytes, k', t', took, bound, next, after, streamed, still⟩ :=
    between.drain proper outbound apart positive
  have further := after.holds.read_le_written
  rw [after.taps.count, after.feeds.count, Function.update_self, Function.update_of_ne apart,
    came, went] at further
  refine ⟨bytes, t', took, bound, fun none => (still none).2, ?_, ⟨_, k', after, ?_, ?_⟩,
    fun e r other other' known => routes e r other other' (streamed.routes e other' ▸ known)⟩
  · rw [went, getD_range accepted further] at next
    rw [List.prefix_iff_eq_take.mp ordered, next, ← List.take_add]
    exact List.take_prefix _ _
  · rw [Function.update_of_ne apart, came]
  · rw [Function.update_self, went, List.length_append]

theorem Underway.pass (cycle : ch.cells ≠ []) (other : e ≠ inlet) (other' : e ≠ outlet)
    (known : t.routeOf e = some r) (ended : Bool) {change : TileBuffer → TileBuffer}
    (keeps : ∀ b, (change b).name = b.name) :
    Underway ch inlet outlet accepted drained (t.pass e r ended change) := by
  obtain ⟨ordered, ⟨moved, k, between, came, went⟩, routes⟩ := underway
  have outside := routes e r other other' known
  obtain ⟨streamed, route⟩ :=
    TileArray.pass_streamed known (List.mem_singleton_self r.current) ended keeps
  have after := between.beside streamed cycle (fun i member => by
    rw [List.mem_singleton]
    rintro rfl
    exact outside.current member) ⟨other.symm, other'.symm⟩ (moved e)
  rw [Function.update_eq_self] at after
  refine ⟨ordered, ⟨moved, k, after, came, went⟩, fun e' r' apart apart' found => ?_⟩
  by_cases same : e' = e
  · subst same
    cases found.symm.trans route
    cases ended with
    | true => exact outside.advance
    | false => exact outside
  · exact routes e' r' apart apart' (streamed.routes e' same ▸ found)

theorem Underway.fillOther (cycle : ch.cells ≠ []) (other : e ≠ inlet) (other' : e ≠ outlet)
    {count : Nat} (filled : t.fill e bytes = .ok (count, t')) :
    Underway ch inlet outlet accepted drained t' := by
  cases known : t.routeOf e with
  | none => simp only [TileArray.fill, known] at filled; cases filled
  | some r =>
    obtain rfl | ⟨ended, rfl⟩ := TileArray.fill_passes known filled
    · exact underway
    · exact underway.pass cycle other other' known ended fun b => b.name_fill _

theorem Underway.drainOther (cycle : ch.cells ≠ []) (other : e ≠ inlet) (other' : e ≠ outlet)
    {limit : Nat} (took : t.drain e limit = .ok (bytes, t')) :
    Underway ch inlet outlet accepted drained t' := by
  cases known : t.routeOf e with
  | none => simp only [TileArray.drain, known] at took; cases took
  | some r =>
    obtain rfl | ⟨ended, count, rfl⟩ := TileArray.drain_passes known took
    · exact underway
    · exact underway.pass cycle other other' known ended fun b => b.name_drain count

theorem Underway.kernels (cycle : ch.cells ≠ []) :
    Underway ch inlet outlet accepted drained t.runKernels.2 := by
  obtain ⟨ordered, ⟨moved, k, between, came, went⟩, routes⟩ := underway
  exact ⟨ordered, ⟨moved, k, between.runKernels cycle, came, went⟩, routes⟩

theorem Underway.fifo (proper : ch.Proper) (inbound : inlet.direction = .hostToDevice)
    (outbound : outlet.direction = .deviceToHost) (apart : inlet ≠ outlet) :
    ∃ filled emptied, Fifo ch inlet outlet accepted drained t filled emptied := by
  have ⟨ordered, ⟨moved, k, between, came, went⟩, _⟩ := underway
  have ⟨holds, feeds, taps, _⟩ := between
  have written := feeds.count.trans came
  have read := taps.count.trans went
  have barred := between.barred_inlet_iff inbound
  have barred' := between.barred_outlet_iff proper outbound
  have level := holds.level_iff proper
  rw [went] at barred barred'
  rw [read] at level
  refine ⟨k.filled, k.drained, ?_⟩
  constructor
  case inside => exact ⟨written ▸ holds.completes_written, read ▸ holds.completes_read⟩
  case routes => exact ⟨feeds.route, taps.route⟩
  case ordered => exact ordered
  case bounded => exact written ▸ read ▸ holds.written_le proper.cycle
  case fill =>
    intro bytes nonempty
    obtain ⟨count, t', filled, bound, still, _⟩ :=
      underway.fill proper inbound apart.symm nonempty
    refine ⟨count, t', filled, bound, fun none => barred.mp (still none), fun used => ?_⟩
    cases filled.symm.trans ((barred.mpr used).fill bytes)
    rfl
  case drain =>
    intro limit positive
    obtain ⟨bytes, t', took, bound, still, _⟩ := underway.drain proper outbound apart positive
    refine ⟨bytes, t', took, bound, fun none => barred'.mp (still none), fun all => ?_⟩
    cases took.symm.trans ((barred'.mpr all).drain limit)
    rfl
  case apart =>
    intro free more
    exact holds.distinct (read ▸ free) fun all => more (level.mpr all)
  case begun =>
    intro some
    exact read ▸ holds.free_of_begun (written ▸ some)
  case tapped =>
    intro some all
    exact holds.behind_of_tapped (read ▸ some) (level.mp all)

end Steps

variable {cells : List Nat}

section Loop

variable (loop : Loopback start cells inlet outlet)

include loop

theorem different : inlet ≠ outlet := by
  rintro rfl
  cases loop.inbound.symm.trans loop.outbound

theorem begins : (Channel.of start.buffers cells).Proper ∧
    Underway (Channel.of start.buffers cells) inlet outlet [] [] start := by
  obtain ⟨proper, vacant⟩ := Channel.of_vacant loop.cycle loop.empty
  exact ⟨proper, List.prefix_rfl,
    ⟨_, {}, vacant.between proper _ loop.feeds loop.drains loop.kernels, rfl, rfl⟩, loop.routes⟩

-- By induction on the run, one lemma for each kind of call.
theorem Run.underway (run : Run inlet outlet start accepted drained t) :
    Underway (Channel.of start.buffers cells) inlet outlet accepted drained t := by
  obtain ⟨proper, begins⟩ := loop.begins
  have apart := loop.different
  induction run with
  | start => exact begins
  | fill _ nonempty filled ih =>
    obtain ⟨_, _, filled', _, _, after⟩ := ih.fill proper loop.inbound apart.symm nonempty
    cases filled.symm.trans filled'
    exact after
  | drain _ positive took ih =>
    obtain ⟨_, _, took', _, _, after⟩ := ih.drain proper loop.outbound apart positive
    cases took.symm.trans took'
    exact after
  | fillOther _ other other' filled ih => exact ih.fillOther proper.cycle other other' filled
  | drainOther _ other other' took ih => exact ih.drainOther proper.cycle other other' took
  | kernels _ ih => exact ih.kernels proper.cycle

theorem run_fifo (run : Run inlet outlet start accepted drained t) : ∃ filled emptied,
    Fifo (Channel.of start.buffers cells) inlet outlet accepted drained t filled emptied :=
  (Run.underway loop run).fifo loop.begins.1 loop.inbound loop.outbound loop.different

end Loop

def sampleInlet : Endpoint :=
  ⟨7, 0, .hostToDevice⟩

def sampleOutlet : Endpoint :=
  ⟨7, 0, .deviceToHost⟩

-- Two buffers of one word each.
def samplePair : TileArray where
  buffers := ⟨#[TileBuffer.zeroed "ping" 1, TileBuffer.zeroed "pong" 1]⟩
  routes := [(sampleInlet, ⟨[0, 1], 0⟩), (sampleOutlet, ⟨[0, 1], 0⟩)]

theorem samplePair_loop : Loopback samplePair [0, 1] sampleInlet sampleOutlet where
  cycle := by decide
  empty i member := by
    have size (name : String) : 0 < (TileBuffer.zeroed name 1).byteLength :=
      (TileBuffer.Sound.zeroed name (by decide)).nonempty
    simp only [List.mem_cons, List.not_mem_nil, or_false] at member
    rcases member with rfl | rfl
    · exact ⟨_, rfl, size _, rfl, rfl⟩
    · exact ⟨_, rfl, size _, rfl, rfl⟩
  feeds := rfl
  drains := rfl
  inbound := rfl
  outbound := rfl
  routes e r other other' known := by
    have none : samplePair.routeOf e = none := by
      simp only [TileArray.routeOf, samplePair, List.lookup_cons, beq_eq_false_iff_ne.mpr other,
        beq_eq_false_iff_ne.mpr other', List.lookup_nil]
    cases none.symm.trans known
  kernels := nofun

-- Of six bytes four go to the first buffer and fill it. The next ones would go to the second, and
-- the first can be drained meanwhile.
theorem run_fifo_sample : ∃ t, Loopback samplePair [0, 1] sampleInlet sampleOutlet ∧
    Run sampleInlet sampleOutlet samplePair [1, 2, 3, 4] [] t ∧
    Fifo (Channel.of samplePair.buffers [0, 1]) sampleInlet sampleOutlet [1, 2, 3, 4] [] t 1 0 := by
  have four : (TileBuffer.zeroed "ping" 1).room = 4 := by decide +kernel
  have offered : 0 < min [(1 : UInt8), 2, 3, 4, 5, 6].length (TileBuffer.zeroed "ping" 1).room := by
    rw [four]
    decide
  have filled := TileArray.fill_ready (t := samplePair) (e := sampleInlet) (r := ⟨[0, 1], 0⟩)
    (b := TileBuffer.zeroed "ping" 1) rfl rfl rfl offered
  rw [four] at filled
  have run : Run sampleInlet sampleOutlet samplePair [1, 2, 3, 4] [] _ :=
    Run.fill .start (by decide) filled
  obtain ⟨blocks, blocks', fifo⟩ := run_fifo samplePair_loop run
  obtain rfl : blocks = 1 := fifo.inside.1.unique (by decide +kernel)
  obtain rfl : blocks' = 0 := fifo.inside.2.unique (by decide +kernel)
  exact ⟨_, samplePair_loop, run, fifo⟩

end Loopback

end FabricQueue
