import FabricQueue.Proofs.Carriage
import FabricQueue.Proofs.Completion

set_option autoImplicit false

namespace FabricQueue

theorem Log.publishNext_all (count : Nat) (l : Log)
    (written : ∀ j, l.published ≤ j → j < l.published + count → (l.written j).isSome) :
    l.publishNext count = { l with published := l.published + count } := by
  induction count generalizing l with
  | zero => rfl
  | succ count ih =>
    rw [publishNext, if_pos (written _ (Nat.le_refl _) (by omega)), ih]
    · simp only [Nat.add_assoc, Nat.add_comm 1]
    · intro j low high
      simp only at low high
      exact written j (by omega) (by omega)

structure Log.Batched (l l' : Log) (commands : List Command) : Prop where
  retired : l'.retired = l.retired
  published : l'.published = l.published
  writeIndex : l'.writeIndex.toNat = l.writeIndex.toNat + commands.length
  written : ∀ k command, commands[k]? = some command →
    l'.written (l.writeIndex.toNat + k) = some command.encode
  kept : ∀ j < l.writeIndex.toNat, l'.written j = l.written j

namespace Ring

variable {s s' s'' : Ring} {l : Log} {policy : WaitPolicy} {seen : Observation Ring}

structure Keeps (s s' : Ring) : Prop where
  port : s'.port = s.port
  region : s'.queue.region = s.queue.region
  capacity : s'.queue.capacity = s.queue.capacity
  leaves : s.queue.footprint.Leaves s.memory s'.memory

theorem Keeps.refl (s : Ring) : s.Keeps s :=
  ⟨rfl, rfl, rfl, Region.Leaves.refl _ _⟩

theorem Keeps.footprint (keeps : s.Keeps s') : s'.queue.footprint = s.queue.footprint := by
  rw [Queue.footprint, Queue.footprint, keeps.region, keeps.capacity]

theorem Keeps.trans (first : s.Keeps s') (second : s'.Keeps s'') : s.Keeps s'' :=
  ⟨second.port.trans first.port, second.region.trans first.region,
    second.capacity.trans first.capacity, first.leaves.trans (first.footprint ▸ second.leaves)⟩

theorem enqueue_ok (command : Command) (shows : s.queue.Shows s.memory l)
    (waiting : l.published ≤ l.writeIndex.toNat)
    (room : l.writeIndex.toNat < l.retired + s.queue.capacity)
    (fits : l.retired + s.queue.capacity < UInt64.size) :
    ∃ slot s', handle.enqueue command policy seen s = .ok ⟨l.writeIndex, slot⟩ s' ∧
      s'.queue.Shows s'.memory
        (Log.store { l with writeIndex := l.writeIndex + 1 } l.writeIndex.toNat command.encode) ∧
      s.Keeps s' := by
  have next : (l.writeIndex + 1).toNat = l.writeIndex.toNat + 1 := toNat_succ (by omega)
  have free {m : Memory} {l' : Log} (shows : s.queue.Shows m l') (retired : l'.retired = l.retired) :
      handle.ask (fun q => q.hasRoom l.writeIndex) { s with memory := m } =
        .ok true { s with memory := m } := by
    apply ask_ok
    rw [shows.hasRoom_ok, retired, if_pos fits, decide_eq_true room]
  have asked : handle.ask (fun q => q.writeIndex) s = .ok l.writeIndex s :=
    ask_ok (shows.writeIndex ▸ shows.carries.writeIndex_ok)
  obtain ⟨m, reserved, shows₁, leaves₁⟩ := shows.reserve_ok 1
  have reserves : handle.ask (fun q => q.reserve 1) s = .ok l.writeIndex { s with memory := m } :=
    use_ok (bind_ok reserved)
  have accepts : Log.refusal { l with writeIndex := l.writeIndex + 1 } s.queue.capacity
      l.writeIndex = none := by
    rw [Log.refusal, if_neg, if_neg, if_neg, if_neg]
    · simp only; omega
    · simp only; omega
    · simp only; omega
    · rw [UInt64.le_iff_toNat_le]
      simp only [next]
      omega
  obtain ⟨queue, memory, written, shows₂, region, capacity, leaves₂⟩ :=
    shows₁.writeRecord_accepted l.writeIndex command.encode accepts
  have writes : handle.use (fun q => q.writePacket l.writeIndex command) { s with memory := m } =
      .ok ⟨l.writeIndex, slotOf s.queue.capacity l.writeIndex⟩ { s with queue, memory } :=
    use_ok written
  refine ⟨slotOf s.queue.capacity l.writeIndex, { s with queue, memory }, ?_, shows₂, rfl, region,
    capacity, leaves₁.trans leaves₂⟩
  unfold QueueHandle.enqueue
  refine (bind_ok asked).trans ((bind_ok (free shows rfl)).trans ?_)
  refine (bind_ok reserves).trans ((bind_ok (free shows₁ rfl)).trans ?_)
  exact writes

theorem enqueueAll_ok (commands : List Command) (shows : s.queue.Shows s.memory l)
    (waiting : l.published ≤ l.writeIndex.toNat)
    (room : l.writeIndex.toNat + commands.length ≤ l.retired + s.queue.capacity)
    (fits : l.retired + s.queue.capacity < UInt64.size) :
    ∃ packets s' l', handle.enqueueAll policy seen commands s = .ok packets s' ∧
      s'.queue.Shows s'.memory l' ∧ l.Batched l' commands ∧ s.Keeps s' ∧
      packets.map (·.index.toNat) = List.range' l.writeIndex.toNat commands.length := by
  induction commands generalizing s l with
  | nil =>
    exact ⟨[], s, l, rfl, shows, ⟨rfl, rfl, rfl, nofun, fun _ _ => rfl⟩, Keeps.refl s, rfl⟩
  | cons command rest ih =>
    rw [List.length_cons] at room
    obtain ⟨slot, s₁, enqueued, shows₁, keeps₁⟩ :=
      @enqueue_ok s l policy seen command shows waiting (by omega) fits
    have next : (l.writeIndex + 1).toNat = l.writeIndex.toNat + 1 := toNat_succ (by omega)
    have capacity := keeps₁.capacity
    obtain ⟨packets, s', l', ran, shows', batched, keeps', numbers⟩ := ih shows₁
      (by simp only [Log.store, next]; omega) (by simp only [Log.store, next, capacity]; omega)
      (by simp only [Log.store, capacity]; omega)
    simp only [Log.store, next] at numbers
    refine ⟨⟨l.writeIndex, slot⟩ :: packets, s', l', (bind_ok enqueued).trans (bind_ok ran), shows',
      ⟨batched.retired, batched.published, ?_, ?_, ?_⟩, keeps₁.trans keeps', ?_⟩
    · rw [batched.writeIndex, List.length_cons]
      simp only [Log.store, next]
      omega
    · intro k other found
      cases k with
      | zero =>
        obtain rfl : command = other := Option.some.inj found
        rw [Nat.add_zero, batched.kept _ (by simp only [Log.store, next]; omega)]
        simp only [Log.store, Function.update_self]
      | succ k =>
        have entry := batched.written k other found
        simp only [Log.store, next] at entry
        rw [← entry]
        congr 1
        omega
    · intro j below
      rw [batched.kept j (by simp only [Log.store, next]; omega)]
      simp only [Log.store, Function.update_of_ne (Nat.ne_of_lt below)]
    · rw [List.map_cons, numbers, List.length_cons, List.range'_succ]

-- Commands enqueued one after the other and dispatched together.
def issue (policy : WaitPolicy) (seen : Observation Ring) (commands : List Command) :
    EStateM Failure Ring (List PacketRef) := do
  let packets ← handle.enqueueAll policy seen commands
  if let some newest := packets.getLast? then
    handle.dispatch newest.index
  return packets

structure Issued (s s' : Ring) (l l' : Log) (commands : List Command) : Prop where
  shows : s'.queue.Shows s'.memory l'
  keeps : s.Keeps s'
  retired : l'.retired = l.retired
  published : l'.published = l.published + commands.length
  level : l'.writeIndex.toNat = l'.published
  written : ∀ k command, commands[k]? = some command →
    l'.written (l.published + k) = some command.encode

theorem Issued.pending {l l' : Log} {commands : List Command} (issued : s.Issued s' l l' commands)
    (level : l.published = l.retired) : l'.Pending := by
  intro j record low high written
  have retired := issued.retired
  have published := issued.published
  obtain ⟨k, rfl⟩ := Nat.exists_eq_add_of_le (show l.published ≤ j by omega)
  have below : k < commands.length := by omega
  rw [issued.written k commands[k] (List.getElem?_eq_getElem below), Option.some.injEq] at written
  rw [← written, Command.encode_signal]
  decide

theorem issue_ok (commands : List Command) (shows : s.queue.Shows s.memory l)
    (level : l.writeIndex.toNat = l.published)
    (room : l.published + commands.length ≤ l.retired + s.queue.capacity)
    (fits : l.retired + s.queue.capacity < UInt64.size) :
    ∃ packets s' l', issue policy seen commands s = .ok packets s' ∧
      s.Issued s' l l' commands ∧
      packets.map (·.index.toNat) = List.range' l.published commands.length := by
  obtain ⟨packets, s₁, l₁, ran, shows₁, batched, keeps, numbers⟩ := @enqueueAll_ok s l policy seen
    commands shows (Nat.le_of_eq level.symm) (by omega) fits
  have written := batched.written
  have reserved := batched.writeIndex
  rw [level] at written numbers reserved
  have length := congrArg List.length numbers
  rw [List.length_map, List.length_range'] at length
  cases newest : packets.getLast? with
  | none =>
    rw [List.getLast?_eq_none_iff] at newest
    rw [newest, List.length_nil] at length
    have published : l₁.published = l.published + commands.length := by
      rw [batched.published, ← length, Nat.add_zero]
    refine ⟨packets, s₁, l₁, ?_, ⟨shows₁, keeps, batched.retired, published, ?_, written⟩, numbers⟩
    · unfold issue
      refine (bind_ok ran).trans ?_
      simp only [newest, List.getLast?_nil]
      rfl
    · rw [reserved, published]
  | some packet =>
    have positive : 0 < commands.length := by
      rw [List.length_pos_iff]
      rintro rfl
      rw [List.length_eq_zero_iff.mp length] at newest
      cases newest
    have last : packet.index.toNat + 1 = l.published + commands.length := by
      rw [List.getLast?_eq_getElem?] at newest
      have entry := congrArg (fun list : List Nat => list[packets.length - 1]?) numbers
      simp only [List.getElem?_map, newest, Option.map_some] at entry
      rw [List.getElem?_range' (by omega), Option.some.injEq] at entry
      omega
    have whole := Log.publishNext_all commands.length l₁ (by
      rw [batched.published]
      intro j low high
      obtain ⟨k, rfl⟩ := Nat.exists_eq_add_of_le low
      have below : k < commands.length := by omega
      rw [written k commands[k] (List.getElem?_eq_getElem below)]
      rfl)
    have below : ¬l₁.writeIndex ≤ packet.index := by
      rw [UInt64.le_iff_toNat_le, reserved]
      omega
    obtain ⟨queue, memory, rung, shows', region, capacity, leaves⟩ := shows₁.publish_ok below
    have count : packet.index.toNat + 1 - l₁.published = commands.length := by
      rw [batched.published]
      omega
    rw [count, whole, batched.published] at shows'
    refine ⟨packets, { s₁ with queue, memory }, _, ?_, ⟨shows', keeps.trans ⟨rfl, region, capacity,
      leaves⟩, batched.retired, rfl, reserved, written⟩, numbers⟩
    unfold issue
    refine (bind_ok ran).trans ?_
    simp only [newest]
    exact bind_ok (bind_ok (use_ok rung))

end Ring

namespace Fabric

variable {f : Fabric} {packets : List Admitted}

structure Lined (f : Fabric) (packets : List Admitted) : Prop where
  endpoints : (f.fifos.map (·.endpoint)).Nodup
  served : ∀ packet ∈ packets, packet.2.endpoint ∈ f.fifos.map (·.endpoint)
  jobs : ∀ fifo ∈ f.fifos,
    fifo.jobs = [] ∧ (∀ packet ∈ packets, packet.2.endpoint ≠ fifo.endpoint) ∨
      ∃ packet ∈ packets, packet.2.endpoint = fifo.endpoint ∧
        fifo.jobs = [freshJob packet.1 packet.2]
  all : f.jobs.Perm (packets.map fun packet => freshJob packet.1 packet.2)

theorem Lined.push (lined : f.Lined packets) (packet : Admitted)
    (fresh : packet.2.endpoint ∉ packets.map (·.2.endpoint)) :
    (f.push (freshJob packet.1 packet.2)).Lined (packets ++ [packet]) := by
  have older {other : Admitted} (member : other ∈ packets) :
      other.2.endpoint ≠ packet.2.endpoint :=
    fun same => fresh (same ▸ List.mem_map_of_mem member)
  have last : packet ∈ packets ++ [packet] := List.mem_append_right _ List.mem_cons_self
  -- The FIFO that takes the job was empty, the others stay as they are.
  have kept {fifo : Fifo} (member : fifo ∈ f.fifos) (other : fifo.endpoint ≠ packet.2.endpoint) :
      fifo.jobs = [] ∧ (∀ packet' ∈ packets ++ [packet], packet'.2.endpoint ≠ fifo.endpoint) ∨
        ∃ packet' ∈ packets ++ [packet], packet'.2.endpoint = fifo.endpoint ∧
          fifo.jobs = [freshJob packet'.1 packet'.2] := by
    rcases lined.jobs fifo member with ⟨none, away⟩ | ⟨packet', among, here, jobs⟩
    · refine .inl ⟨none, fun packet' among => ?_⟩
      rcases List.mem_append.mp among with old | new
      · exact away packet' old
      · rw [List.mem_singleton.mp new]
        exact other.symm
    · exact .inr ⟨packet', List.mem_append_left _ among, here, jobs⟩
  obtain ⟨fifos, pushed, all, endpoints⟩ := push_spec (freshJob packet.1 packet.2) lined.endpoints
  have whole : (f.push (freshJob packet.1 packet.2)).jobs.Perm
      ((packets ++ [packet]).map fun packet => freshJob packet.1 packet.2) := by
    rw [pushed, List.map_append]
    exact all.trans ((lined.all.cons _).trans (List.perm_append_singleton _ _).symm)
  by_cases known : packet.2.endpoint ∈ f.fifos.map (·.endpoint)
  · have pushed' : (f.push (freshJob packet.1 packet.2)).fifos = f.fifos.map fun q =>
        if q.endpoint = packet.2.endpoint then
          { q with jobs := q.jobs ++ [freshJob packet.1 packet.2] } else q := by
      rw [Fabric.push, if_pos (by simpa [freshJob] using known)]
      rfl
    have names : (f.push (freshJob packet.1 packet.2)).fifos.map (·.endpoint) =
        f.fifos.map (·.endpoint) := by
      rw [pushed']
      exact push_endpoints _ (freshJob packet.1 packet.2)
    refine ⟨names ▸ lined.endpoints, fun other member => ?_, fun fifo member => ?_, whole⟩
    · rw [names]
      rcases List.mem_append.mp member with old | new
      · exact lined.served other old
      · rw [List.mem_singleton.mp new]
        exact known
    · rw [pushed'] at member
      obtain ⟨old, among, rfl⟩ := List.mem_map.mp member
      by_cases here : old.endpoint = packet.2.endpoint
      · have empty : old.jobs = [] := by
          rcases lined.jobs old among with ⟨none, _⟩ | ⟨other, member', same, _⟩
          · exact none
          · exact absurd (same.trans here) (older member')
        rw [if_pos here]
        exact .inr ⟨packet, last, here.symm, by simp only [empty, List.nil_append]⟩
      · rw [if_neg here]
        exact kept among here
  · have pushed' : (f.push (freshJob packet.1 packet.2)).fifos =
        f.fifos ++ [⟨packet.2.endpoint, [freshJob packet.1 packet.2]⟩] := by
      rw [Fabric.push, if_neg (by simpa [freshJob] using known)]
      rfl
    have away {fifo : Fifo} (member : fifo ∈ f.fifos) : fifo.endpoint ≠ packet.2.endpoint :=
      fun same => known (same ▸ List.mem_map_of_mem member)
    refine ⟨by rw [pushed]; exact endpoints, fun other member => ?_, fun fifo member => ?_, whole⟩
    · rw [pushed', List.map_append]
      rcases List.mem_append.mp member with old | new
      · exact List.mem_append_left _ (lined.served other old)
      · rw [List.mem_singleton.mp new]
        exact List.mem_append_right _ List.mem_cons_self
    · rw [pushed'] at member
      rcases List.mem_append.mp member with old | new
      · exact kept old (away old)
      · rw [List.mem_singleton.mp new]
        exact .inr ⟨packet, last, rfl, rfl⟩

theorem push_rest (f : Fabric) (job : Job) : f.push job = { f with fifos := (f.push job).fifos } := by
  unfold push
  split <;> rfl

end Fabric

namespace Plant

variable {p : Plant} {q : Queue} {l : Log}

theorem fetchNext_batch {f : Fabric} (packets : List Admitted) (earlier : List Admitted)
    (shows : q.Shows p.memory l)
    (same : p.fabric = { f with
      fifos := p.fabric.fifos, inFlight := p.fabric.inFlight, nextFetch := p.fabric.nextFetch })
    (port : f.consumer = q.port) (lined : p.fabric.Lined earlier)
    (distinct : ((earlier ++ packets).map (·.2.endpoint)).Nodup)
    (low : l.retired ≤ p.fabric.nextFetch.toNat)
    (numbers : packets.map (·.1.toNat) =
      List.range' p.fabric.nextFetch.toNat packets.length)
    (published : p.fabric.nextFetch.toNat + packets.length ≤ l.published)
    (admitted : ∀ packet ∈ packets, ∃ record, l.written packet.1.toNat = some record ∧
      f.admits record.activated = some packet.2 ∧ packet.2.totalBytes ≠ 0 ∧
        packet.2.totalBytes < UInt64.size) :
    ∃ fetched p', fetchNext packets.length p = .ok fetched p' ∧ p'.memory = p.memory ∧
      p'.fabric = { f with
        fifos := p'.fabric.fifos, nextFetch := p'.fabric.nextFetch
        inFlight := p.fabric.inFlight ++ packets.map fun packet => ⟨packet.1, .running⟩ } ∧
      p'.fabric.nextFetch.toNat = p.fabric.nextFetch.toNat + packets.length ∧
      p'.fabric.Lined (earlier ++ packets) := by
  induction packets generalizing p earlier with
  | nil =>
    refine ⟨false, p, rfl, rfl, ?_, rfl, by rwa [List.append_nil]⟩
    rw [List.map_nil, List.append_nil]
    exact same
  | cons packet rest ih =>
    simp only [List.map_cons, List.length_cons, List.range'_succ, List.cons.injEq] at numbers
    rw [List.length_cons] at published
    obtain ⟨record, written, admits, moves, narrow⟩ := admitted packet List.mem_cons_self
    have index : p.fabric.nextFetch = packet.1 := UInt64.toNat_inj.mp numbers.1.symm
    have below : p.fabric.nextFetch.toNat < l.published := by omega
    have consumer : p.fabric.consumer = q.port := by rw [same]; exact port
    have found := onMemory_ok (fetch_found shows consumer low below (index ▸ written))
    have accepted := Fabric.accept_admitted (f := p.fabric) p.fabric.nextFetch
      (show p.fabric.admits record.activated = some packet.2 by rw [same]; exact admits)
    rw [if_neg moves, if_pos narrow, index] at accepted
    have word := shows.sound.published_word
    have next : (packet.1 + 1).toNat = p.fabric.nextFetch.toNat + 1 := by
      rw [← index]
      exact toNat_succ (by omega)
    have lined' := lined.push packet (by
      rw [List.map_append, List.nodup_append] at distinct
      exact fun old => distinct.2.2 _ old _ List.mem_cons_self rfl)
    rw [index] at found
    obtain ⟨fetched, p', done, memory, fabric, further, lined''⟩ := ih
      (p := ⟨{ p.fabric.push (Fabric.freshJob packet.1 packet.2) with
        inFlight := (p.fabric.push (Fabric.freshJob packet.1 packet.2)).inFlight ++
          [⟨packet.1, .running⟩]
        nextFetch := packet.1 + 1 }, p.memory⟩)
      (earlier ++ [packet]) shows (by rw [Fabric.push_rest, same])
      ⟨lined'.endpoints, lined'.served, lined'.jobs, lined'.all⟩ (by simpa using distinct)
      (by simp only [next]; omega) (by simp only [next]; exact numbers.2)
      (by simp only [next]; omega)
      (fun other member => admitted other (List.mem_cons_of_mem _ member))
    refine ⟨true, p', ?_, memory, ?_, ?_, by simpa using lined''⟩
    · rw [← index] at found accepted
      have step : fetchNext (rest.length + 1) p = _ := fetchNext_some found accepted
      rw [index] at step
      exact step.trans (bind_ok done)
    · rw [fabric, Fabric.push_rest]
      simp
    · simp only [next] at further
      rw [further, List.length_cons]
      omega

end Plant

end FabricQueue
