import FabricQueue.Proofs.Addresses
import FabricQueue.Proofs.Streaming

set_option autoImplicit false

namespace FabricQueue

namespace HostMap

variable {h : HostMap} {address : UInt64} {len : Nat}

def Holds (h : HostMap) (address : UInt64) (len : Nat) : Prop :=
  ∃ r ∈ h.regions, r.contains address len = true

theorem Holds.resolve_ok (holds : h.Holds address len) :
    ∃ r ∈ h.regions, r.contains address len = true ∧
      h.resolve address len = .ok (r, address.toNat - r.base.toNat) := by
  obtain ⟨r, member, inside⟩ := holds
  cases found : h.regions.find? fun r => r.contains address len with
  | none => exact absurd inside (List.find?_eq_none.mp found r member)
  | some first =>
    have sound := List.find?_some found
    refine ⟨first, List.mem_of_find?_eq_some found, sound, ?_⟩
    rw [resolve, found]

end HostMap

theorem Region.contains_iff {r : Region} {address : UInt64} {len : Nat} :
    r.contains address len = true ↔
      r.base.toNat ≤ address.toNat ∧ address.toNat - r.base.toNat + len ≤ r.size := by
  simp [contains]

namespace TileArray

variable {t t' : TileArray} {e : Endpoint} {r : Route}

theorem routeOf_setRoute (t : TileArray) (e : Endpoint) (r : Route) :
    (t.setRoute e r).routeOf e = some r := by
  simp [routeOf, setRoute]

theorem pass_hasRoute (routed : t.routeOf e = some r) (ended : Bool)
    (change : TileBuffer → TileBuffer) : (t.pass e r ended change).hasRoute e = true := by
  unfold hasRoute pass
  split
  · rw [routeOf_setRoute]; rfl
  · exact congrArg Option.isSome routed

theorem fill_routed (routed : t.hasRoute e = true) (bytes : List UInt8) :
    ∃ count t', t.fill e bytes = .ok (count, t') ∧ t'.hasRoute e = true := by
  obtain ⟨r, known⟩ := Option.isSome_iff_exists.mp routed
  unfold fill
  simp only [known]
  split
  · exact ⟨_, _, rfl, routed⟩
  · exact ⟨_, _, rfl, pass_hasRoute known _ _⟩

theorem drain_routed (routed : t.hasRoute e = true) (limit : Nat) :
    ∃ bytes t', t.drain e limit = .ok (bytes, t') ∧ t'.hasRoute e = true := by
  obtain ⟨r, known⟩ := Option.isSome_iff_exists.mp routed
  unfold drain
  simp only [known]
  split
  · exact ⟨_, _, rfl, routed⟩
  · exact ⟨_, _, rfl, pass_hasRoute known _ _⟩

theorem fill_unrouted (unrouted : t.hasRoute e = false) (bytes : List UInt8) :
    t.fill e bytes = .error (.noRoute e) := by
  have none : t.routeOf e = none := by simpa [hasRoute] using unrouted
  rw [fill, none]

theorem drain_unrouted (unrouted : t.hasRoute e = false) (limit : Nat) :
    t.drain e limit = .error (.noRoute e) := by
  have none : t.routeOf e = none := by simpa [hasRoute] using unrouted
  rw [drain, none]

end TileArray

namespace Plant

variable {p p' : Plant} {e : Endpoint} {address : UInt64} {want : Nat} {r : Region}

section Resolved

variable (found : p.fabric.hosts.resolve address want = .ok (r, address.toNat - r.base.toNat))
  (inside : r.contains address want = true)

include found inside

theorem exchange_fill (inbound : e.direction = .hostToDevice) :
    exchange e address want p = onTiles (fun t => t.fill e
      (p.memory.read (r.origin + (address.toNat - r.base.toNat)) want)) p := by
  have bounds := (Region.contains_iff.mp inside).2
  have placed : r.locate (address.toNat - r.base.toNat) want 1 =
      .ok (r.origin + (address.toNat - r.base.toNat)) := Region.locate_ok bounds (Nat.mod_one _)
  have resolved : liftError (p.fabric.hosts.resolve address want) p =
      .ok (r, address.toNat - r.base.toNat) p := by simp only [liftError, found]
  unfold exchange
  refine (bind_ok rfl).trans ((bind_ok resolved).trans ?_)
  simp only [inbound]
  refine bind_ok ?_
  obtain ⟨fabric, memory⟩ := p
  simp only [onMemory, Region.readBytes, Region.access, placed]

theorem exchange_drain (outbound : e.direction = .deviceToHost) :
    exchange e address want p = match p.fabric.tiles.drain e want with
      | .error fault => .error (.error (.invalidState fault)) p
      | .ok (bytes, tiles) => .ok bytes.length ⟨{ p.fabric with tiles },
          p.memory.write (r.origin + (address.toNat - r.base.toNat)) bytes⟩ := by
  have bounds := (Region.contains_iff.mp inside).2
  have resolved : liftError (p.fabric.hosts.resolve address want) p =
      .ok (r, address.toNat - r.base.toNat) p := by simp only [liftError, found]
  unfold exchange
  refine (bind_ok rfl).trans ((bind_ok resolved).trans ?_)
  obtain ⟨fabric, memory⟩ := p
  simp only [outbound]
  cases drained : fabric.tiles.drain e want with
  | error fault => exact bind_error (by simp only [onTiles, drained])
  | ok result =>
    obtain ⟨bytes, tiles⟩ := result
    have bound := TileArray.drain_le drained
    have placed : r.locate (address.toNat - r.base.toNat) bytes.length 1 =
        .ok (r.origin + (address.toNat - r.base.toNat)) :=
      Region.locate_ok (by omega) (Nat.mod_one _)
    have streamed : onTiles (fun t => t.drain e want) ⟨fabric, memory⟩ =
        .ok bytes ⟨{ fabric with tiles }, memory⟩ := by simp only [onTiles, drained]
    refine (bind_ok streamed).trans (bind_ok (a := ()) ?_)
    simp only [onMemory, Region.writeBytes, Region.access, placed]

end Resolved

theorem exchange_unrouted (holds : p.fabric.hosts.Holds address want)
    (unrouted : p.fabric.tiles.hasRoute e = false) :
    exchange e address want p = .error (.error (.invalidState (.noRoute e))) p := by
  obtain ⟨r, _, inside, found⟩ := holds.resolve_ok
  obtain ⟨fabric, memory⟩ := p
  cases direction : e.direction with
  | hostToDevice =>
    rw [exchange_fill found inside direction]
    simp only [onTiles, TileArray.fill_unrouted unrouted]
  | deviceToHost =>
    rw [exchange_drain found inside direction]
    simp only [TileArray.drain_unrouted unrouted]

theorem exchange_routed (holds : p.fabric.hosts.Holds address want)
    (routed : p.fabric.tiles.hasRoute e = true) :
    ∃ moved p', exchange e address want p = .ok moved p' ∧ moved ≤ want ∧ p.Beside p' ∧
      p'.fabric.tiles.hasRoute e = true := by
  have bound := exchange_yields (p := p) e address want
  obtain ⟨r, _, inside, found⟩ := holds.resolve_ok
  suffices ran : ∃ moved p', exchange e address want p = .ok moved p' ∧
      p'.fabric.tiles.hasRoute e = true by
    obtain ⟨moved, p', ran, after⟩ := ran
    rw [ran] at bound
    exact ⟨moved, p', ran, bound.2, bound.1, after⟩
  obtain ⟨fabric, memory⟩ := p
  cases direction : e.direction with
  | hostToDevice =>
    obtain ⟨count, tiles, filled, after⟩ := TileArray.fill_routed routed
      (memory.read (r.origin + (address.toNat - r.base.toNat)) want)
    refine ⟨count, ⟨{ fabric with tiles }, memory⟩, ?_, after⟩
    rw [exchange_fill found inside direction]
    simp only [onTiles, filled]
  | deviceToHost =>
    obtain ⟨bytes, tiles, drained, after⟩ := TileArray.drain_routed routed want
    have moved := exchange_drain found inside direction
    simp only [drained] at moved
    exact ⟨_, _, moved, after⟩

end Plant

structure Asks (addresses : List Nat) (low high : Nat) (address : UInt64) (want : Nat) :
    Prop where
  some : 0 < want
  low : low ≤ address.toNat
  high : address.toNat + want ≤ high
  first : addresses.take want = List.range' address.toNat want

namespace Asks

variable {addresses : List Nat} {low high : Nat} {address : UInt64} {want : Nat}

theorem want_le (asks : Asks addresses low high address want) : want ≤ addresses.length := by
  have counted := congrArg List.length asks.first
  rw [List.length_take, List.length_range'] at counted
  omega

theorem some_left {all : List Nat} {bytes : Nat}
    (asks : Asks (all.drop bytes) low high address want) : all ≠ [] := by
  rintro rfl
  have available := asks.want_le
  have positive := asks.some
  simp only [List.drop_nil, List.length_nil] at available
  omega

theorem take_eq (asks : Asks addresses low high address want) {count : Nat} (le : count ≤ want) :
    addresses.take count = List.range' address.toNat count := by
  have shorter := congrArg (List.take count) asks.first
  rwa [List.take_take, Nat.min_eq_left le, List.take_range'_of_length_ge le] at shorter

end Asks

structure Job.Resumes (job later : Job) (low high moved : Nat) : Prop where
  index : later.index = job.index
  endpoint : later.endpoint = job.endpoint
  addresses : later.addresses = job.addresses.drop moved
  within : later.Within low high

theorem Job.Resumes.trans {job later last : Job} {low high first second : Nat}
    (before : job.Resumes later low high first) (after : later.Resumes last low high second) :
    job.Resumes last low high (first + second) where
  index := after.index.trans before.index
  endpoint := after.endpoint.trans before.endpoint
  addresses := by rw [after.addresses, before.addresses, List.drop_drop]
  within := after.within

def Job.putBack (later : Job) (run : Run) (moved : Nat) : Job :=
  if moved < run.length.toNat then
    let left : Run :=
      ⟨UInt64.ofNat (run.address.toNat + moved), UInt32.ofNat (run.length.toNat - moved)⟩
    { later with rest := some left }
  else later

theorem Job.putBack_resumes {job later : Job} {run : Run} {low high moved : Nat}
    (taken : job.Resumes later low high run.length.toNat)
    (whole : job.addresses = run.addresses ++ later.addresses) (fresh : later.rest = none)
    (bounds : low ≤ run.address.toNat ∧ run.address.toNat + run.length.toNat ≤ high)
    (addressable : high ≤ UInt64.size) (bound : moved ≤ run.length.toNat) :
    job.Resumes (later.putBack run moved) low high moved := by
  obtain ⟨above, below⟩ := bounds
  have length := run.length.toNat_lt
  unfold Job.putBack
  split
  next part =>
    have address : (UInt64.ofNat (run.address.toNat + moved)).toNat = run.address.toNat + moved :=
      UInt64.toNat_ofNat_of_lt' (by omega)
    have left : (UInt32.ofNat (run.length.toNat - moved)).toNat = run.length.toNat - moved :=
      UInt32.toNat_ofNat_of_lt' (by simp only [UInt32.size]; omega)
    refine ⟨taken.index, taken.endpoint, ?_, taken.within.chunks, ?_⟩
    · have again (begun : Run) : Job.addresses { later with rest := some begun } =
          begun.addresses ++ later.addresses := by
        simp [Job.addresses, Job.runs, fresh]
      rw [whole, List.drop_append_of_le_length (by rw [Run.addresses_length]; omega), again,
        Run.addresses, Run.addresses, address, left, List.drop_range', Nat.mul_one]
    · rintro _ ⟨⟩
      rw [address, left]
      omega
  next ended =>
    have all : moved = run.length.toNat := by omega
    rw [all]
    exact taken

namespace Plant

variable {p p' : Plant} {job : Job} {low high : Nat}

def beatTouches (job : Job) (p : Plant) : List Nat :=
  match job.take with
  | .ok (some (run, later)) =>
    match exchange later.endpoint run.address (min run.length.toNat beatLimit) p with
    | .ok moved _ => List.range' run.address.toNat moved
    | .error _ _ => []
  | _ => []

theorem beat_ok {run : Run} {later : Job} {moved : Nat} (taken : job.take = .ok (some (run, later)))
    (done : exchange later.endpoint run.address (min run.length.toNat beatLimit) p = .ok moved p')
    (positive : 0 < run.length.toNat)
    (addressable : run.address.toNat + run.length.toNat ≤ UInt64.size) :
    beat job p = .ok (if moved = 0 then .stalled (later.putBack run moved)
      else .moved moved (later.putBack run moved)) p' := by
  unfold beat Job.putBack
  rw [taken]
  refine (bind_ok rfl).trans ((bind_ok done).trans ?_)
  split_ifs with none some part
  · simp [none]; rfl
  · omega
  · rw [addWord_ok (by omega)]
    rfl
  · rfl

section Beat

variable (within : job.Within low high) (addressable : high ≤ UInt64.size)

include within addressable

theorem beat_empty (empty : job.addresses = []) :
    beat job p = .ok .finished p ∧ beatTouches job p = [] := by
  rcases within.take_ok addressable with ⟨_, taken⟩ | ⟨run, later, _, runs, _⟩
  · unfold beat beatTouches
    rw [taken]
    exact ⟨rfl, rfl⟩
  · have positive := (within.runs_within addressable (runs ▸ List.mem_cons_self)).1
    have counted := congrArg List.length empty
    rw [Job.addresses, runs, List.flatMap_cons, List.length_append, Run.addresses_length] at counted
    simp only [List.length_nil] at counted
    omega

theorem beat_asks (more : job.addresses ≠ []) : ∃ address want,
    Asks job.addresses low high address want ∧ ∀ p : Plant,
      (∀ failure p', exchange job.endpoint address want p = .error failure p' →
        beat job p = .error failure p' ∧ beatTouches job p = []) ∧
      (∀ moved p', exchange job.endpoint address want p = .ok moved p' → moved ≤ want →
        beatTouches job p = job.addresses.take moved ∧
          ∃ later, job.Resumes later low high moved ∧
            beat job p = .ok (if moved = 0 then .stalled later else .moved moved later) p') := by
  rcases within.take_ok addressable with
    ⟨none, _⟩ | ⟨run, later, taken, runs, rest, index, endpoint, inside⟩
  · rw [Job.addresses, none] at more
    exact absurd rfl more
  obtain ⟨positive, above, below⟩ :=
    within.runs_within addressable (runs ▸ List.mem_cons_self)
  have whole : job.addresses = run.addresses ++ later.addresses := by
    rw [Job.addresses, runs, List.flatMap_cons]
    rfl
  have used : job.Resumes later low high run.length.toNat := by
    refine ⟨index, endpoint, ?_, inside⟩
    rw [whole, ← Run.addresses_length, List.drop_left]
  have narrow : min run.length.toNat beatLimit ≤ run.length.toNat := Nat.min_le_left _ _
  have asks : Asks job.addresses low high run.address (min run.length.toNat beatLimit) := by
    refine ⟨Nat.lt_min.mpr ⟨positive, by decide⟩, above, by omega, ?_⟩
    rw [whole, List.take_append_of_le_length (by rw [Run.addresses_length]; exact narrow),
      Run.addresses, List.take_range'_of_length_ge narrow]
  refine ⟨_, _, asks, fun p => ⟨?_, ?_⟩⟩
  · intro failure p' failed
    rw [← endpoint] at failed
    refine ⟨?_, by simp only [beatTouches, taken, failed]⟩
    unfold beat
    rw [taken]
    exact (bind_ok rfl).trans (bind_error failed)
  · intro moved p' done bound
    rw [← endpoint] at done
    refine ⟨?_, ?_⟩
    · simp only [beatTouches, taken, done]
      exact (asks.take_eq bound).symm
    exact ⟨_, Job.putBack_resumes used whole rest ⟨above, below⟩ addressable (by omega),
      beat_ok taken done positive (by omega)⟩

end Beat

-- Addresses that a job moves in so many beats.
def streamTouches : (beats : Nat) → Job → Plant → List Nat
  | 0, _, _ => []
  | beats + 1, job, p =>
    beatTouches job p ++
      match beat job p with
      | .ok (.moved _ later) p' => streamTouches beats later p'
      | _ => []

def Stops (job : Job) (low high bytes : Nat) (stuck : Plant → Prop) (p : Plant) :
    Option Job → Prop
  | none => bytes = job.addresses.length
  | some later => job.Resumes later low high bytes ∧ bytes < job.addresses.length ∧ stuck p

theorem stream_steps {I : Nat → Plant → Prop} {S : Plant → Prop} (beats moved : Nat)
    (within : job.Within low high) (addressable : high ≤ UInt64.size)
    (enough : job.addresses.length < beats)
    (narrow : moved + job.addresses.length < UInt64.size) (begun : I 0 p)
    (step : ∀ bytes q address want, I bytes q →
      Asks (job.addresses.drop bytes) low high address want →
      ∃ more q', exchange job.endpoint address want q = .ok more q' ∧ more ≤ want ∧
        I (bytes + more) q' ∧ (more = 0 → S q')) :
    ∃ bytes left p', stream moved beats job p = .ok (moved + bytes, left) p' ∧
      bytes ≤ job.addresses.length ∧ I bytes p' ∧
      streamTouches beats job p = job.addresses.take bytes ∧
      Stops job low high bytes S p' left := by
  induction beats generalizing job moved p I with
  | zero => exact absurd enough (Nat.not_lt_zero _)
  | succ beats ih =>
    by_cases empty : job.addresses = []
    · obtain ⟨finished, still⟩ := beat_empty (p := p) within addressable empty
      refine ⟨0, none, p, ?_, Nat.zero_le _, begun, ?_, by rw [Stops, empty]; rfl⟩
      · unfold stream
        exact bind_ok finished
      · simp only [streamTouches, finished, still, List.append_nil, List.take_zero]
    obtain ⟨address, want, asks, answers⟩ := beat_asks within addressable empty
    obtain ⟨more, p₁, exchanged, bound, after, stalls⟩ := step 0 p address want begun asks
    obtain ⟨touched, later, resumes, ran⟩ := (answers p).2 more p₁ exchanged bound
    have available := asks.want_le
    by_cases none : more = 0
    · rw [if_pos none] at ran
      refine ⟨0, some later, p₁, ?_, Nat.zero_le _, ?_, ?_, ?_, ?_, stalls none⟩
      · unfold stream
        exact bind_ok ran
      · rw [none] at after; exact after
      · simp only [streamTouches, touched, ran, none, List.append_nil]
      · rw [none] at resumes; exact resumes
      · exact List.length_pos_iff.mpr empty
    · rw [if_neg none] at ran
      have rest : later.addresses.length = job.addresses.length - more := by
        rw [resumes.addresses, List.length_drop]
      have onward : ∀ bytes q address want, I (more + bytes) q →
          Asks (later.addresses.drop bytes) low high address want →
          ∃ again q', exchange later.endpoint address want q = .ok again q' ∧ again ≤ want ∧
            I (more + (bytes + again)) q' ∧ (again = 0 → S q') := by
        intro bytes q address want holds asks
        rw [resumes.addresses, List.drop_drop] at asks
        obtain ⟨again, q', done, le, further, stalls⟩ :=
          step (more + bytes) q address want holds asks
        rw [Nat.add_assoc] at further
        exact ⟨again, q', resumes.endpoint ▸ done, le, further, stalls⟩
      obtain ⟨bytes, left, p₂, streamed, le, further, touches, stops⟩ :=
        ih (I := fun bytes => I (more + bytes)) (moved + more) resumes.within (by omega) (by omega)
          (by simpa using after) onward
      refine ⟨more + bytes, left, p₂, ?_, by omega, further, ?_, ?_⟩
      · have counted : count moved more p₁ = .ok (moved + more) p₁ := by
          rw [count, if_pos (by omega)]
          rfl
        unfold stream
        rw [← Nat.add_assoc]
        exact (bind_ok ran).trans ((bind_ok counted).trans streamed)
      · simp only [streamTouches, touched, ran, touches, resumes.addresses]
        rw [List.take_add]
      · cases left with
        | none => simp only [Stops] at stops ⊢; omega
        | some last =>
          obtain ⟨resumed, short, stuck⟩ := stops
          exact ⟨resumes.trans resumed, by omega, stuck⟩

def advanceTouches (job : Job) (p : Plant) : List Nat :=
  streamTouches (job.bytesLeft + 1) job p

theorem advance_steps {I : Nat → Plant → Prop} {S : Plant → Prop}
    (within : job.Within low high) (addressable : high ≤ UInt64.size)
    (narrow : job.addresses.length < UInt64.size) (begun : I 0 p)
    (step : ∀ bytes q address want, I bytes q →
      Asks (job.addresses.drop bytes) low high address want →
      ∃ more q', exchange job.endpoint address want q = .ok more q' ∧ more ≤ want ∧
        I (bytes + more) q' ∧ (more = 0 → S q')) :
    ∃ bytes left p', advance job p = .ok (bytes, left) p' ∧ bytes ≤ job.addresses.length ∧
      I bytes p' ∧ advanceTouches job p = job.addresses.take bytes ∧
      Stops job low high bytes S p' left := by
  have counted := within.addresses_length addressable
  obtain ⟨bytes, left, p', streamed, rest⟩ := stream_steps (job.bytesLeft + 1) 0 within addressable
    (by omega) (by omega) begun step
  rw [Nat.zero_add] at streamed
  exact ⟨bytes, left, p', streamed, rest⟩

end Plant

def Job.Hosted (hosts : HostMap) (job : Job) : Prop :=
  ∃ low high, high ≤ UInt64.size ∧ job.Within low high ∧
    ∀ address want, low ≤ address.toNat → address.toNat + want ≤ high → hosts.Holds address want

namespace Plant

variable {p : Plant} {job : Job}

theorem advance_unrouted (hosted : job.Hosted p.fabric.hosts) (more : job.addresses ≠ [])
    (unrouted : p.fabric.tiles.hasRoute job.endpoint = false) :
    advance job p = .error (.error (.invalidState (.noRoute job.endpoint))) p ∧
      advanceTouches job p = [] := by
  obtain ⟨low, high, addressable, within, holds⟩ := hosted
  obtain ⟨address, want, asks, answers⟩ := Plant.beat_asks within addressable more
  have refused := exchange_unrouted (holds address want asks.low asks.high) unrouted
  obtain ⟨failed, still⟩ := (answers p).1 _ _ refused
  refine ⟨bind_error failed, ?_⟩
  simp only [advanceTouches, streamTouches, still, failed, List.append_nil]

theorem advance_routed (hosted : job.Hosted p.fabric.hosts)
    (narrow : job.addresses.length < UInt64.size)
    (routed : job.addresses ≠ [] → p.fabric.tiles.hasRoute job.endpoint = true) :
    ∃ left p', advance job p = .ok ((advanceTouches job p).length, left) p' ∧ p.Beside p' ∧
      match left with
      | none => advanceTouches job p = job.addresses
      | some later => later.index = job.index ∧ later.endpoint = job.endpoint ∧
          later.Hosted p.fabric.hosts ∧
            job.addresses = advanceTouches job p ++ later.addresses := by
  obtain ⟨low, high, addressable, within, holds⟩ := hosted
  obtain ⟨bytes, left, p', advanced, le, ⟨beside, _⟩, touched, stops⟩ := advance_steps
    (I := fun _ q => p.Beside q ∧ (job.addresses ≠ [] → q.fabric.tiles.hasRoute job.endpoint = true))
    (S := fun _ => True) within addressable narrow ⟨Beside.refl p, routed⟩ (by
      rintro _ q address want ⟨beside, routed⟩ asks
      obtain ⟨more, q', done, bound, after, still⟩ := exchange_routed
        (beside.hosts ▸ holds address want asks.low asks.high) (routed asks.some_left)
      exact ⟨more, q', done, bound, ⟨beside.trans after, fun _ => still⟩, fun _ => trivial⟩)
  have counted : (advanceTouches job p).length = bytes := by
    rw [touched, List.length_take, Nat.min_eq_left le]
  refine ⟨left, p', counted.symm ▸ advanced, beside, ?_⟩
  cases left with
  | none =>
    simp only [Stops] at stops
    rw [touched, stops, List.take_length]
  | some later =>
    obtain ⟨resumes, _, _⟩ := stops
    refine ⟨resumes.index, resumes.endpoint, ⟨low, high, addressable, resumes.within, holds⟩, ?_⟩
    rw [touched, resumes.addresses, List.take_append_drop]

end Plant

end FabricQueue
