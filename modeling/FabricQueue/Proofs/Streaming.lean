import FabricQueue.Fabric.Stream
import FabricQueue.Proofs.Access
import FabricQueue.Proofs.Jobs
import Mathlib.Data.List.Nodup

set_option autoImplicit false

namespace FabricQueue

abbrev Moves := List (UInt64 × Nat)

namespace Moves

def of (moves : Moves) (index : UInt64) : Nat :=
  moves.foldr (fun move sum => (if move.1 = index then move.2 else 0) + sum) 0

def total (moves : Moves) : Nat :=
  moves.foldr (fun move sum => move.2 + sum) 0

theorem total_append (first second : Moves) :
    total (first ++ second) = total first + total second := by
  induction first with
  | nil => simp [total]
  | cons move first ih =>
    simp only [total, List.cons_append, List.foldr_cons] at ih ⊢
    omega

variable {index : UInt64}

theorem of_append (first second : Moves) :
    of (first ++ second) index = of first index + of second index := by
  induction first with
  | nil => simp [of]
  | cons move first ih =>
    simp only [of, List.cons_append, List.foldr_cons] at ih ⊢
    omega

theorem of_single (index : UInt64) (count : Nat) : of [(index, count)] index = count := by
  simp [of]

theorem of_other {moves : Moves} (other : ∀ move ∈ moves, move.1 ≠ index) :
    of moves index = 0 := by
  induction moves with
  | nil => rfl
  | cons move moves ih =>
    have rest := ih fun move member => other move (List.mem_cons_of_mem _ member)
    simpa [of, other move List.mem_cons_self] using rest

end Moves

namespace TileArray

variable {t t' : TileArray} {e : Endpoint}

theorem capacity_le (t : TileArray) (e : Endpoint) (r : Route) (limit : Nat) :
    (t.capacity e r limit).1 ≤ limit := by
  unfold capacity
  split
  · split
    · exact Nat.min_le_left _ _
    · exact Nat.zero_le _
  · exact Nat.zero_le _

theorem fill_le {bytes : List UInt8} {count : Nat} (filled : t.fill e bytes = .ok (count, t')) :
    count ≤ bytes.length := by
  unfold fill at filled
  split at filled
  · cases filled
  next r _ =>
    have bound := t.capacity_le e r bytes.length
    split at filled
    · cases filled; exact Nat.zero_le _
    next _ counted =>
      cases filled
      rw [counted] at bound
      exact bound

theorem drain_le {bytes : List UInt8} {limit : Nat} (drained : t.drain e limit = .ok (bytes, t')) :
    bytes.length ≤ limit := by
  unfold drain at drained
  split at drained
  · cases drained
  next r _ =>
    have bound := t.capacity_le e r limit
    split at drained
    · cases drained; exact Nat.zero_le _
    next _ counted =>
      cases drained
      rw [counted] at bound
      cases t.buffers.items[r.current]? with
      | none => exact Nat.zero_le _
      | some b => simpa [TileBuffer.front] using bound

end TileArray

namespace Plant

variable {α β : Type} {p p' : Plant}

-- A step that ends well or with an error. Nothing is said where the arithmetic gives out.
def Yields (good : α → Plant → Prop) (bad : Plant → Prop) : EStateM.Result Failure Plant α → Prop
  | .ok a p => good a p
  | .error (.error _) p => bad p
  | .error (.overflow _) _ => True
  | .error .stillWaiting _ => False

theorem Yields.mono {good good' : α → Plant → Prop} {bad bad' : Plant → Prop}
    {result : EStateM.Result Failure Plant α} (yields : Yields good bad result)
    (better : ∀ a p, good a p → good' a p) (worse : ∀ p, bad p → bad' p) :
    Yields good' bad' result := by
  match result with
  | .ok a p => exact better a p yields
  | .error (.error _) p => exact worse p yields
  | .error (.overflow _) _ => trivial

theorem Yields.bind {R : α → Plant → Prop} {good : β → Plant → Prop} {bad : Plant → Prop}
    {x : Work α} {next : α → Work β} (first : Yields R bad (x p))
    (rest : ∀ a p', R a p' → Yields good bad (next a p')) : Yields good bad ((x >>= next) p) := by
  cases run : x p with
  | ok a p' =>
    rw [run] at first
    rw [bind_ok run]
    exact rest a p' first
  | error failure p' =>
    rw [run] at first
    rw [bind_error run]
    match failure with
    | .error _ => exact first
    | .overflow _ => trivial

theorem Yields.after {good : β → Plant → Prop} {bad : Plant → Prop} {x : Work α}
    {next : α → Work β} {a : α} (done : x p = .ok a p') (rest : Yields good bad (next a p')) :
    Yields good bad ((x >>= next) p) := by
  rw [bind_ok done]
  exact rest

theorem Yields.known {good : α → Plant → Prop} {bad : Plant → Prop}
    {result : EStateM.Result Failure Plant α} (yields : Yields good bad result) :
    Yields (fun a p => result = .ok a p ∧ good a p) bad result := by
  match result with
  | .ok a p => exact ⟨rfl, yields⟩
  | .error (.error _) p => exact yields
  | .error (.overflow _) _ => trivial

-- A step that cannot fail comes to its end unless the arithmetic gives out.
theorem Yields.calm {good : α → Plant → Prop} {result : EStateM.Result Failure Plant α}
    (yields : Yields good (fun _ => False) result)
    (calm : ∀ cause p, result ≠ .error (.overflow cause) p) :
    ∃ a p, result = .ok a p ∧ good a p := by
  match result with
  | .ok a p => exact ⟨a, p, rfl, yields⟩
  | .error (.overflow cause) p => exact absurd rfl (calm cause p)

theorem attempt_ok {x : Work α} {a : α} (done : x p = .ok a p') :
    attempt x p = .ok (.ok a) p' := by
  simp only [attempt, done]

theorem attempt_error {x : Work α} {e : Error} (failed : x p = .error (.error e) p') :
    attempt x p = .ok (.error e) p' := by
  simp only [attempt, failed]

theorem attempt_cases {α : Type} {x : Work α} {result : Except Error α}
    (ran : attempt x p = .ok result p') :
    (∃ e, result = .error e ∧ x p = .error (.error e) p') ∨ ∃ a, result = .ok a ∧ x p = .ok a p' := by
  unfold attempt at ran
  split at ran
  next done => cases ran; exact .inr ⟨_, rfl, done⟩
  next failed => cases ran; exact .inl ⟨_, rfl, failed⟩
  · cases ran

theorem attempt_overflow {x : Work α} {cause : Overflow}
    (failed : x p = .error (.overflow cause) p') :
    attempt x p = .error (.overflow cause) p' := by
  simp only [attempt, failed]

theorem count_yields (a b : Nat) (bad : Plant → Prop) :
    Yields (fun n p' => n = a + b ∧ p' = p) bad (count a b p) := by
  unfold count
  split
  · exact ⟨rfl, rfl⟩
  · trivial

-- A result that can only be missing because the arithmetic gave out.
def OnlyOverflows (x : Except Failure α) : Prop :=
  ∀ failure, x = .error failure → ∃ cause, failure = .overflow cause

theorem lift_yields {x : Except Failure α} {good : α → Plant → Prop} {bad : Plant → Prop}
    (overflows : OnlyOverflows x) (known : ∀ a, x = .ok a → good a p) :
    Yields good bad (lift x p) := by
  cases x with
  | ok a => exact known a rfl
  | error failure =>
    obtain ⟨cause, rfl⟩ := overflows failure rfl
    trivial

theorem addWord_overflows (a : UInt64) (n : Nat) : OnlyOverflows (addWord a n) := by
  intro failure failed
  unfold addWord at failed
  split at failed <;> cases failed
  exact ⟨_, rfl⟩

theorem take_overflows (job : Job) : OnlyOverflows job.take := by
  intro failure failed
  unfold Job.take at failed
  split at failed
  · cases failed
  · split at failed <;> cases failed
    exact ⟨_, rfl⟩

structure Beside (p p' : Plant) : Prop where
  fabric : p'.fabric = { p.fabric with tiles := p'.fabric.tiles }
  size : p'.memory.size = p.memory.size
  outside : ∀ i, (∀ r ∈ p.fabric.hosts.regions, i < r.origin ∨ r.origin + r.size ≤ i) →
    p'.memory.get i = p.memory.get i

theorem Beside.refl (p : Plant) : p.Beside p :=
  ⟨rfl, rfl, fun _ _ => rfl⟩

theorem Beside.hosts (beside : p.Beside p') : p'.fabric.hosts = p.fabric.hosts := by
  rw [beside.fabric]

theorem Beside.trans {p'' : Plant} (first : p.Beside p') (second : p'.Beside p'') :
    p.Beside p'' := by
  refine ⟨?_, second.size.trans first.size, fun i apart => ?_⟩
  · rw [second.fabric, first.fabric]
  · rw [second.outside i (by rw [first.hosts]; exact apart), first.outside i apart]

theorem onTiles_yields {use : TileArray → Except StateFault (α × TileArray)} {good : α → Prop}
    (known : ∀ t a t', use t = .ok (a, t') → good a) :
    Yields (fun a p' => p.Beside p' ∧ good a) p.Beside (onTiles use p) := by
  obtain ⟨fabric, memory⟩ := p
  simp only [onTiles]
  cases run : use fabric.tiles with
  | ok result => exact ⟨⟨rfl, rfl, fun _ _ => rfl⟩, known _ _ _ run⟩
  | error fault => exact Beside.refl _

theorem resolve_yields (address : UInt64) (want : Nat) :
    Yields (fun place p' => p' = p ∧ place.1 ∈ p.fabric.hosts.regions) p.Beside
      (liftError (p.fabric.hosts.resolve address want) p) := by
  unfold liftError HostMap.resolve
  cases found : p.fabric.hosts.regions.find? fun r => r.contains address want with
  | none => exact Beside.refl p
  | some r => exact ⟨rfl, List.mem_of_find?_eq_some found⟩

theorem locate_yields (r : Region) (offset len alignment : Nat)
    (use : Nat → Memory → α × Memory) {good : α → Plant → Prop}
    (known : ∀ a memory, use (r.origin + offset) p.memory = (a, memory) → offset + len ≤ r.size →
      good a ⟨p.fabric, memory⟩) :
    Yields good p.Beside (onMemory (r.access offset len alignment use) p) := by
  unfold onMemory Region.access Region.locate Region.physAddr addWord
  split_ifs with outside misaligned fits
  · exact Beside.refl p
  · exact Beside.refl p
  · trivial
  · exact known _ _ rfl (Nat.not_lt.mp outside)

theorem exchange_yields (endpoint : Endpoint) (address : UInt64) (want : Nat) :
    Yields (fun moved p' => p.Beside p' ∧ moved ≤ want) p.Beside
      (exchange endpoint address want p) := by
  unfold exchange
  refine Yields.bind (R := fun q p' => q = p ∧ p' = p) ⟨rfl, rfl⟩ ?_
  rintro _ _ ⟨rfl, rfl⟩
  apply (resolve_yields address want).bind
  rintro ⟨region, offset⟩ q ⟨rfl, member⟩
  cases endpoint.direction with
  | hostToDevice =>
    refine Yields.bind (R := fun bytes p' => q.Beside p' ∧ bytes.length = want)
      (locate_yields region offset want 1 _ fun bytes memory read _ => ?_) ?_
    · cases read
      exact ⟨Beside.refl _, ByteStore.read_length _ _ _⟩
    · rintro bytes p₁ ⟨beside, rfl⟩
      exact (onTiles_yields fun t a t' filled => TileArray.fill_le filled).mono
        (fun _ _ after => ⟨beside.trans after.1, after.2⟩) fun _ after => beside.trans after
  | deviceToHost =>
    refine (onTiles_yields fun t a t' drained => TileArray.drain_le drained).bind ?_
    rintro bytes p₁ ⟨beside, bound⟩
    refine Yields.bind (R := fun _ p' => q.Beside p') ?_ fun _ p₂ after => ⟨after, bound⟩
    refine (locate_yields _ _ _ _ _ fun a memory written inside => ?_).mono
      (fun _ _ after => beside.trans after) fun _ after => beside.trans after
    cases written
    refine ⟨rfl, ByteStore.size_write _ _ _, fun i apart => ?_⟩
    have away := apart region (by rw [beside.hosts]; exact member)
    exact ByteStore.get_write_apart _ _ _ _ (by omega)

def Accounts (job : Job) : Beat → Prop
  | .finished => job.bytesLeft = 0
  | .stalled later => job.Continues later ∧ later.bytesLeft = job.bytesLeft
  | .moved count later => job.Continues later ∧ count + later.bytesLeft = job.bytesLeft

theorem beat_yields {job : Job} (inRange : job.chunks.InRange) :
    Yields (fun result p' => p.Beside p' ∧ Accounts job result) p.Beside (beat job p) := by
  unfold beat
  refine Yields.bind (R := fun next p' => p' = p ∧ job.take = .ok next)
    (lift_yields (take_overflows job) fun next taken => ⟨rfl, taken⟩) ?_
  rintro next q ⟨rfl, taken⟩
  cases next with
  | none => exact ⟨Beside.refl q, Job.take_none taken⟩
  | some next =>
  obtain ⟨run, later⟩ := next
  obtain ⟨rest, continues, counted⟩ := Job.take_some inRange taken
  have more (begun : Run) : Job.bytesLeft { later with rest := some begun } =
      begun.length.toNat + later.bytesLeft := by
    simp [Job.bytesLeft, rest]
  have onward (begun : Run) : job.Continues { later with rest := some begun } :=
    ⟨continues.index, continues.endpoint, continues.inRange⟩
  apply (exchange_yields later.endpoint run.address (min run.length.toNat beatLimit)).bind
  rintro moved p' ⟨beside, bound⟩
  split
  · exact ⟨beside, onward run, by rw [more, counted]⟩
  split
  next part =>
    refine Yields.bind (R := fun _ p'' => p'' = p')
      (lift_yields (addWord_overflows run.address moved) fun _ _ => rfl) ?_
    rintro address _ rfl
    refine ⟨beside, onward _, ?_⟩
    have length := run.length.toNat_lt
    rw [more, UInt32.toNat_ofNat_of_lt' (by simp only [UInt32.size]; omega)]
    omega
  next whole => exact ⟨beside, continues, by omega⟩

def Remains (job : Job) (bytes : Nat) : Option Job → Prop
  | none => bytes = job.bytesLeft
  | some later => job.Continues later ∧ bytes + later.bytesLeft = job.bytesLeft

theorem stream_yields (moved beats : Nat) {job : Job} (inRange : job.chunks.InRange) :
    Yields (fun result p' => p.Beside p' ∧
      ∃ bytes, result.1 = moved + bytes ∧ Remains job bytes result.2) p.Beside
      (stream moved beats job p) := by
  -- A beat that moves bytes leaves the same job, further on, to the beats after it.
  induction beats generalizing moved job p with
  | zero => exact ⟨Beside.refl p, 0, rfl, Job.Continues.refl job, Nat.zero_add _⟩
  | succ beats ih =>
    unfold stream
    apply (beat_yields inRange).bind
    rintro result p₁ ⟨beside, accounts⟩
    cases result with
    | finished => exact ⟨beside, 0, rfl, accounts.symm⟩
    | stalled later => exact ⟨beside, 0, rfl, accounts.1, by rw [accounts.2, Nat.zero_add]⟩
    | moved more later =>
      obtain ⟨continues, counted⟩ := accounts
      apply (count_yields moved more _).bind
      rintro _ _ ⟨rfl, rfl⟩
      refine (ih (moved + more) (continues.inRange inRange)).mono ?_ fun _ => beside.trans
      rintro ⟨total, left⟩ p₂ ⟨after, bytes, sum, remains⟩
      refine ⟨beside.trans after, more + bytes, sum.trans (Nat.add_assoc _ _ _), ?_⟩
      cases left with
      | none =>
        simp only [Remains] at remains ⊢
        omega
      | some last =>
        refine ⟨continues.trans remains.1, ?_⟩
        have rest := remains.2
        omega

theorem advance_yields {job : Job} (inRange : job.chunks.InRange) :
    Yields (fun result p' => p.Beside p' ∧ Remains job result.1 result.2) p.Beside
      (advance job p) := by
  refine (stream_yields 0 _ inRange).mono ?_ fun _ => id
  rintro ⟨total, left⟩ p' ⟨beside, bytes, sum, remains⟩
  rw [Nat.zero_add] at sum
  exact ⟨beside, sum ▸ remains⟩

-- Each of the jobs is finished, failed or left, and the moves are theirs.
structure Outcome (jobs : List Job) (moves : Moves) (finished failed : List UInt64)
    (left : List Job) : Prop where
  sorted : (finished ++ failed ++ left.map (·.index)).Perm (jobs.map (·.index))
  paid : ∀ job ∈ jobs, job.index ∈ finished → moves.of job.index = job.bytesLeft
  owed : ∀ later ∈ left, ∃ job ∈ jobs, job.Continues later ∧
    moves.of job.index + later.bytesLeft = job.bytesLeft
  own : ∀ move ∈ moves, move.1 ∈ jobs.map (·.index)

namespace Outcome

variable {jobs jobs' left left' : List Job} {moves moves' : Moves}
  {finished finished' failed failed' : List UInt64}

theorem untouched (jobs : List Job) : Outcome jobs [] [] [] jobs where
  sorted := List.Perm.refl _
  paid _ _ done := absurd done List.not_mem_nil
  owed later member := ⟨later, member, Job.Continues.refl later, Nat.zero_add _⟩
  own _ member := absurd member List.not_mem_nil

theorem quiet (outcome : Outcome jobs moves finished failed left) {index : UInt64}
    (other : index ∉ jobs.map (·.index)) : moves.of index = 0 :=
  Moves.of_other fun move member same => other (same ▸ outcome.own move member)

theorem done_own (outcome : Outcome jobs moves finished failed left) {index : UInt64}
    (done : index ∈ finished) : index ∈ jobs.map (·.index) :=
  outcome.sorted.subset (List.mem_append_left _ (List.mem_append_left _ done))

theorem append (first : Outcome jobs moves finished failed left)
    (second : Outcome jobs' moves' finished' failed' left')
    (distinct : ((jobs ++ jobs').map (·.index)).Nodup) :
    Outcome (jobs ++ jobs') (moves ++ moves') (finished ++ finished') (failed ++ failed')
      (left ++ left') := by
  rw [List.map_append] at distinct
  have apart := List.disjoint_of_nodup_append distinct
  have mine {job : Job} (member : job ∈ jobs) : job.index ∉ jobs'.map (·.index) :=
    apart (List.mem_map_of_mem member)
  have yours {job : Job} (member : job ∈ jobs') : job.index ∉ jobs.map (·.index) :=
    fun old => apart old (List.mem_map_of_mem member)
  constructor
  case sorted =>
    apply List.perm_iff_count.mpr
    intro index
    have low := List.perm_iff_count.mp first.sorted index
    have high := List.perm_iff_count.mp second.sorted index
    simp only [List.map_append, List.count_append] at low high ⊢
    omega
  case paid =>
    intro job member done
    rw [Moves.of_append]
    rcases List.mem_append.mp member with old | new
    · rcases List.mem_append.mp done with done | other
      · rw [first.paid job old done, second.quiet (mine old), Nat.add_zero]
      · exact absurd (second.done_own other) (mine old)
    · rcases List.mem_append.mp done with other | done
      · exact absurd (first.done_own other) (yours new)
      · rw [second.paid job new done, first.quiet (yours new), Nat.zero_add]
  case owed =>
    intro later member
    rcases List.mem_append.mp member with old | new
    · obtain ⟨job, among, continues, counted⟩ := first.owed later old
      refine ⟨job, List.mem_append_left _ among, continues, ?_⟩
      rw [Moves.of_append, second.quiet (mine among), Nat.add_zero, counted]
    · obtain ⟨job, among, continues, counted⟩ := second.owed later new
      refine ⟨job, List.mem_append_right _ among, continues, ?_⟩
      rw [Moves.of_append, first.quiet (yours among), Nat.zero_add, counted]
  case own =>
    intro move member
    rw [List.map_append]
    rcases List.mem_append.mp member with old | new
    · exact List.mem_append_left _ (first.own move old)
    · exact List.mem_append_right _ (second.own move new)

section Single

variable {job : Job} {bytes : Nat}

theorem own_single : ∀ move ∈ [(job.index, bytes)], move.1 ∈ [job].map (·.index) := by
  simp

theorem finish (leaves : Remains job bytes none) :
    Outcome [job] [(job.index, bytes)] [job.index] [] [] where
  sorted := List.Perm.refl _
  paid := by simpa [Moves.of_single, Remains] using leaves
  owed _ member := absurd member List.not_mem_nil
  own := own_single

theorem stall {later : Job} (leaves : Remains job bytes (some later)) :
    Outcome [job] [(job.index, bytes)] [] [] [later] where
  sorted := by simp [leaves.1.index]
  paid _ _ done := absurd done List.not_mem_nil
  owed := by simpa [Moves.of_single, Remains] using leaves
  own := own_single

theorem fail (job : Job) : Outcome [job] [] [] [job.index] [] where
  sorted := List.Perm.refl _
  paid _ _ done := absurd done List.not_mem_nil
  owed _ member := absurd member List.not_mem_nil
  own _ member := absurd member List.not_mem_nil

end Single

end Outcome

-- Bytes that the jobs of a FIFO move in one pass. As for the status, those of a job that fails in
-- this pass do not count.
def jobsMoves : List Job → Plant → Moves
  | [], _ => []
  | job :: later, p =>
    match advance job p with
    | .ok (moved, none) p' => (job.index, moved) :: jobsMoves later p'
    | .ok (moved, some _) _ => [(job.index, moved)]
    | .error (.error _) p' => jobsMoves later p'
    | .error _ _ => []

def Gathers (tally after : Tally) (jobs : List Job) (moves : Moves) (left : List Job) : Prop :=
  ∃ finished failed, after.finished = tally.finished ++ finished ∧
    after.failed = tally.failed ++ failed ∧ after.bytes = tally.bytes + moves.total ∧
      Outcome jobs moves finished (failed.map Prod.fst) left

theorem streamJobs_yields (jobs : List Job) (tally : Tally)
    (inRange : ∀ job ∈ jobs, job.chunks.InRange) (distinct : (jobs.map (·.index)).Nodup) :
    Yields (fun result p' => p.Beside p' ∧
      Gathers tally result.2 jobs (jobsMoves jobs p) result.1) (fun _ => False)
      (streamJobs jobs tally p) := by
  -- A job that stalls keeps the later ones from streaming; one that fails does not.
  induction jobs generalizing tally p with
  | nil => exact ⟨Beside.refl p, [], [], by simp, by simp, rfl, Outcome.untouched []⟩
  | cons job later ih =>
    have after := advance_yields (p := p) (inRange job List.mem_cons_self)
    have rest (tally : Tally) (q : Plant) := ih (p := q) tally
      (fun job member => inRange job (List.mem_cons_of_mem _ member)) distinct.of_cons
    unfold streamJobs
    cases ran : advance job p with
    | error failure p₁ =>
      rw [ran] at after
      match failure with
      | .error e =>
        rw [bind_ok (attempt_error ran)]
        simp only [jobsMoves, ran]
        refine (rest _ p₁).mono ?_ fun _ => id
        rintro ⟨left, tally'⟩ p₂ ⟨beside, finished, failed, done, errors, bytes, outcome⟩
        refine ⟨after.trans beside, finished, (job.index, e) :: failed, done, ?_, bytes, ?_⟩
        · rw [errors, List.append_assoc]; rfl
        · exact (Outcome.fail job).append outcome distinct
      | .overflow cause =>
        rw [bind_error (attempt_overflow ran)]
        trivial
    | ok result p₁ =>
      obtain ⟨moved, left⟩ := result
      rw [ran] at after
      obtain ⟨beside, remains⟩ := after
      rw [bind_ok (attempt_ok ran)]
      apply (count_yields tally.bytes moved _).bind
      rintro bytes _ ⟨rfl, rfl⟩
      cases left with
      | some unfinished =>
        simp only [jobsMoves, ran]
        refine ⟨beside, [], [], (List.append_nil _).symm, (List.append_nil _).symm, rfl, ?_⟩
        exact (Outcome.stall remains).append (Outcome.untouched later) distinct
      | none =>
        simp only [jobsMoves, ran]
        refine (rest _ _).mono ?_ fun _ => id
        rintro ⟨left, tally'⟩ p₂ ⟨further, finished, failed, done, errors, sum, outcome⟩
        refine ⟨beside.trans further, job.index :: finished, failed, ?_, errors, ?_, ?_⟩
        · rw [done, List.append_assoc]; rfl
        · rw [sum]; exact Nat.add_assoc _ _ _
        · exact (Outcome.finish remains).append outcome distinct

def fifosMoves : List Fifo → Tally → Plant → Moves
  | [], _, _ => []
  | fifo :: rest, tally, p =>
    jobsMoves fifo.jobs p ++
      match streamJobs fifo.jobs tally p with
      | .ok (_, tally) p' => fifosMoves rest tally p'
      | .error _ _ => []

theorem streamFifos_yields (fifos : List Fifo) (tally : Tally)
    (inRange : ∀ job ∈ fifos.flatMap (·.jobs), job.chunks.InRange)
    (distinct : ((fifos.flatMap (·.jobs)).map (·.index)).Nodup) :
    Yields (fun result p' => p.Beside p' ∧
      result.1.map (·.endpoint) = fifos.map (·.endpoint) ∧
      Gathers tally result.2 (fifos.flatMap (·.jobs)) (fifosMoves fifos tally p)
        (result.1.flatMap (·.jobs))) (fun _ => False) (streamFifos fifos tally p) := by
  induction fifos generalizing tally p with
  | nil => exact ⟨Beside.refl p, rfl, [], [], by simp, by simp, rfl, Outcome.untouched []⟩
  | cons fifo rest ih =>
    rw [List.flatMap_cons] at inRange distinct
    have parts := List.nodup_append.mp (List.map_append ▸ distinct)
    have first := streamJobs_yields (p := p) fifo.jobs tally
      (fun job member => inRange job (List.mem_append_left _ member)) parts.1
    unfold streamFifos
    apply first.known.bind
    rintro ⟨jobs, tally₁⟩ p₁ ⟨ran, beside, finished, failed, done, errors, bytes, outcome⟩
    have second := ih (p := p₁) tally₁
      (fun job member => inRange job (List.mem_append_right _ member)) parts.2.1
    apply second.bind
    rintro ⟨fifos, tally₂⟩ p₂ ⟨further, endpoints, gathers⟩
    obtain ⟨finished', failed', done', errors', bytes', outcome'⟩ := gathers
    simp only at done errors bytes done' errors' bytes' endpoints
    simp only [fifosMoves, ran]
    refine ⟨beside.trans further, ?_, finished ++ finished', failed ++ failed', ?_, ?_, ?_, ?_⟩
    · simp only [List.map_cons, endpoints]
    · rw [done', done, List.append_assoc]
    · rw [errors', errors, List.append_assoc]
    · rw [bytes', bytes, Moves.total_append, Nat.add_assoc]
    · rw [List.map_append]
      exact outcome.append outcome' distinct

end Plant

end FabricQueue
