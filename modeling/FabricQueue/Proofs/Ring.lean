import FabricQueue.Dispatch
import FabricQueue.Proofs.History
import FabricQueue.Proofs.Opening

set_option autoImplicit false

namespace FabricQueue

namespace Queue

-- What an operation answers, and the queue and the memory after it.
def answer {α : Type} (say : α → Reply) (use : Queue → Access (α × Queue)) (q : Queue)
    (m : Memory) : Reply × Queue × Memory :=
  match use q m with
  | .ok (a, q') m' => (say a, q', m')
  | .error failure m' => (.failed failure, q, m')

def produce : Production → Queue → Memory → Reply × Queue × Memory
  | .reserve count => answer .index fun q => do return (← q.reserve count, q)
  | .write index record => answer .packet fun q => q.writeRecord index record
  | .writePacket index command => answer .packet fun q => q.writePacket index command
  | .dispatch index => answer .published fun q => q.publish index

variable {q : Queue} {m : Memory} {l : Log}

structure Follows (q : Queue) (m : Memory) (result : Reply × Queue × Memory)
    (expected : Reply × Log) : Prop where
  reply : result.1 = expected.1
  shows : result.2.1.Shows result.2.2 expected.2
  region : result.2.1.region = q.region
  capacity : result.2.1.capacity = q.capacity
  leaves : q.footprint.Leaves m result.2.2

theorem answer_ok {α : Type} {say : α → Reply} {use : Queue → Access (α × Queue)} {a : α}
    {q' : Queue} {m' : Memory} (done : use q m = .ok (a, q') m') :
    answer say use q m = (say a, q', m') := by
  simp only [answer, done]

theorem answer_error {α : Type} {say : α → Reply} {use : Queue → Access (α × Queue)}
    {failure : Failure} {m' : Memory} (failed : use q m = .error failure m') :
    answer say use q m = (.failed failure, q, m') := by
  simp only [answer, failed]

theorem Shows.refused_follows (shows : q.Shows m l) (failure : Failure) :
    q.Follows m (.failed failure, q, m) (.failed failure, l) :=
  ⟨rfl, shows, rfl, rfl, Region.Leaves.refl _ _⟩

theorem Shows.write_follows (shows : q.Shows m l) (index : UInt64) (record : Record) :
    q.Follows m (answer .packet (fun q => q.writeRecord index record) q m)
      (l.write q.capacity index record) := by
  unfold Log.write
  split
  next failure refused =>
    rw [answer_error (shows.writeRecord_refused index record refused)]
    exact shows.refused_follows failure
  next accepts =>
    obtain ⟨q', m', done, shows', region, capacity, leaves⟩ :=
      shows.writeRecord_accepted index record accepts
    rw [answer_ok done]
    exact ⟨rfl, shows', region, capacity, leaves⟩

theorem Shows.produce_follows (shows : q.Shows m l) (a : Production) :
    q.Follows m (q.produce a m) (l.produce q.capacity a) := by
  cases a with
  | reserve count =>
    obtain ⟨m', done, shows', leaves⟩ := shows.reserve_ok count
    rw [produce, answer_ok (bind_ok done)]
    exact ⟨rfl, shows', rfl, rfl, leaves⟩
  | write index record => exact shows.write_follows index record
  | writePacket index command => exact shows.write_follows index command.encode
  | dispatch index =>
    simp only [produce, Log.produce, Log.publish]
    split
    next beyond =>
      rw [answer_error (shows.publish_refused beyond)]
      exact shows.refused_follows _
    next reserved =>
      obtain ⟨q', m', done, shows', region, capacity, leaves⟩ := shows.publish_ok reserved
      rw [answer_ok done]
      exact ⟨rfl, shows', region, capacity, leaves⟩

end Queue

structure Ring where
  queue : Queue
  port : Consumer
  memory : Memory

namespace Ring

def consume {α : Type} (s : Ring) (say : α → Reply) (use : Consumer → Access α) : Reply × Ring :=
  match use s.port s.memory with
  | .ok a memory => (say a, { s with memory })
  | .error failure memory => (.failed failure, { s with memory })

def perform (s : Ring) : Act → Reply × Ring
  | .produce a =>
    match s.queue.produce a s.memory with
    | (reply, queue, memory) => (reply, { s with queue, memory })
  | .fetch index => s.consume .found fun port => port.fetch index
  | .retire index => s.consume (fun _ => .retired) fun port => port.retire index

-- The queue was laid out in memory that backs its region, and the consumer attached to it.
def Opened (s : Ring) : Prop :=
  ∃ id capacity kind r m, Region.Backed r m ∧
    Queue.create id capacity kind r m = .ok s.queue s.memory ∧
      Consumer.attach r s.memory = .ok s.port s.memory

end Ring

namespace Ring

-- The rule of the consumer.
def Allowed (h : History) (s : Ring) : Act → Prop
  | .retire index =>
    s.port.readIndex s.memory = .ok index s.memory → h.Fetched s.port.capacity index
  | _ => True

-- The histories and states to which operations lead from a start.
inductive Run (start : Ring) : History → Ring → Prop where
  | start : Run start [] start
  | next {h : History} {s : Ring} (a : Act) : Run start h s → s.Allowed h a →
      Run start (⟨a, (s.perform a).1⟩ :: h) (s.perform a).2

-- What even a consumer owes that fetches nothing: to retire only what is published.
def Due (s : Ring) : Act → Prop
  | .retire index =>
    s.port.readIndex s.memory = .ok index s.memory →
      ∃ count, s.port.published s.memory = .ok count s.memory ∧ index < count
  | _ => True

inductive Orderly (start : Ring) : History → Ring → Prop where
  | start : Orderly start [] start
  | next {h : History} {s : Ring} (a : Act) : Orderly start h s → s.Due a →
      Orderly start (⟨a, (s.perform a).1⟩ :: h) (s.perform a).2

structure Follows (s : Ring) (inReach : Prop) (result : Reply × Ring)
    (expected : Reply × Log) : Prop where
  reply : inReach → result.1 = expected.1
  shows : result.2.queue.Shows result.2.memory expected.2
  port : result.2.port = s.port
  region : result.2.queue.region = s.queue.region
  capacity : result.2.queue.capacity = s.queue.capacity
  leaves : s.queue.footprint.Leaves s.memory result.2.memory

variable {s : Ring} {l : Log}

theorem consume_ok {α : Type} {say : α → Reply} {use : Consumer → Access α} {a : α} {m : Memory}
    (done : use s.port s.memory = .ok a m) :
    s.consume say use = (say a, { s with memory := m }) := by
  simp only [consume, done]

theorem consume_error {α : Type} {say : α → Reply} {use : Consumer → Access α} {failure : Failure}
    {m : Memory} (failed : use s.port s.memory = .error failure m) :
    s.consume say use = (.failed failure, { s with memory := m }) := by
  simp only [consume, failed]

theorem perform_follows (shows : s.queue.Shows s.memory l) (port : s.port = s.queue.port) (a : Act)
    (legal : ∀ index, a = .retire index → index.toNat = l.retired → l.retired < l.published) :
    s.Follows (l.InReach s.queue.capacity a) (s.perform a) (l.perform s.queue.capacity a) := by
  cases a with
  | produce a =>
    obtain ⟨reply, shows', region, capacity, leaves⟩ := shows.produce_follows a
    exact ⟨fun _ => reply, shows', rfl, region, capacity, leaves⟩
  | fetch index =>
    have done := shows.fetch_cell index
    rw [← port] at done
    rw [perform, consume_ok done]
    refine ⟨fun inReach => ?_, shows, rfl, rfl, rfl, Region.Leaves.refl _ _⟩
    have expected := shows.fetch_ok inReach
    rw [← port, done] at expected
    simp only [EStateM.Result.ok.injEq, and_true] at expected
    exact congrArg Reply.found expected
  | retire index =>
    rw [perform, Log.perform, Log.retire]
    by_cases current : index.toNat = l.retired
    · obtain ⟨m, done, shows', leaves⟩ := shows.retire_ok current (legal index rfl current)
      rw [← port] at done
      rw [consume_ok done, if_pos current]
      exact ⟨fun _ => rfl, shows', rfl, rfl, rfl, leaves⟩
    · have failed := shows.retire_refused current
      rw [← port] at failed
      rw [consume_error failed, if_neg current]
      exact ⟨fun _ => rfl, shows, rfl, rfl, rfl, Region.Leaves.refl _ _⟩

theorem fetch_reply (s : Ring) (index : UInt64) : (s.perform (.fetch index)).1 ≠ .retired := by
  change (s.consume .found fun port => port.fetch index).1 ≠ .retired
  unfold consume
  split <;> exact Reply.noConfusion

structure Tracks (s : Ring) (h : History) : Prop where
  shows : s.queue.Shows s.memory (h.log s.queue.capacity)
  port : s.port = s.queue.port
  retired : (h.log s.queue.capacity).retired = h.retired
  written : (h.log s.queue.capacity).written = h.written
  -- What was found in the window of its time is published.
  found : ∀ (later : History) (index : UInt64) (record : Record) (earlier : History),
    h = later ++ ⟨.fetch index, .found (some record)⟩ :: earlier →
    earlier.retired ≤ index.toNat → index.toNat < earlier.retired + s.queue.capacity →
    index.toNat < (h.log s.queue.capacity).published

theorem Opened.tracks (opened : s.Opened) : s.Tracks [] := by
  obtain ⟨id, capacity, kind, r, m, backed, created, attached⟩ := opened
  obtain ⟨shows, same, _⟩ := Queue.create_shows backed created
  have port : s.port = s.queue.port := by
    have region : s.queue.region = r := by rw [same]; rfl
    have found := shows.attach_ok
    rw [region, attached] at found
    simpa using found
  refine ⟨shows, port, rfl, rfl, fun later index record earlier eq => ?_⟩
  simp at eq

variable {h : History}

theorem Tracks.fetched {index : UInt64} (tracks : s.Tracks h)
    (allowed : s.Allowed h (.retire index))
    (current : index.toNat = (h.log s.queue.capacity).retired) :
    h.Fetched s.queue.capacity index := by
  have shows := tracks.shows
  have read : s.port.readIndex s.memory = .ok index s.memory := by
    have done := shows.carries.readIndex_ok
    rw [shows.readIndex_eq, ← current, UInt64.ofNat_toNat] at done
    rw [tracks.port]
    exact done
  have fetched := allowed read
  rw [tracks.port] at fetched
  exact fetched

-- A packet retired in its turn was fetched within the window, so it is published.
theorem Tracks.legal {index : UInt64} (tracks : s.Tracks h) (allowed : s.Allowed h (.retire index))
    (current : index.toNat = (h.log s.queue.capacity).retired) :
    (h.log s.queue.capacity).retired < (h.log s.queue.capacity).published := by
  obtain ⟨later, record, earlier, whole, few⟩ := tracks.fetched allowed current
  have split : h.retired = History.retired later + History.retired earlier := by
    rw [whole]
    simp [History.retired]
  rw [tracks.retired] at current ⊢
  rw [← current]
  exact tracks.found later index record earlier whole (by omega) (by omega)

def Legal (l : Log) (a : Act) : Prop :=
  ∀ index, a = .retire index → index.toNat = l.retired → l.retired < l.published

theorem Tracks.legal_of_allowed {a : Act} (tracks : s.Tracks h) (allowed : s.Allowed h a) :
    Legal (h.log s.queue.capacity) a := by
  intro index same current
  subst same
  exact tracks.legal allowed current

theorem Tracks.perform_follows (tracks : s.Tracks h) (a : Act) (allowed : s.Allowed h a) :
    s.Follows ((h.log s.queue.capacity).InReach s.queue.capacity a) (s.perform a)
      ((h.log s.queue.capacity).perform s.queue.capacity a) :=
  Ring.perform_follows tracks.shows tracks.port a (tracks.legal_of_allowed allowed)

theorem Tracks.perform_legal (tracks : s.Tracks h) (a : Act)
    (legal : Legal (h.log s.queue.capacity) a) : (s.perform a).2.Tracks (⟨a, (s.perform a).1⟩ :: h) := by
  have follows := Ring.perform_follows tracks.shows tracks.port a legal
  have reply : Entry.stored? ⟨a, (s.perform a).1⟩ =
      Entry.stored? ⟨a, ((h.log s.queue.capacity).perform s.queue.capacity a).1⟩ ∧
      ((s.perform a).1 = .retired ↔
        ((h.log s.queue.capacity).perform s.queue.capacity a).1 = .retired) := by
    cases a with
    | fetch index =>
      rw [Entry.fetch_stored, Entry.fetch_stored]
      exact ⟨rfl, iff_of_false (fetch_reply s index) Reply.noConfusion⟩
    | produce a => rw [follows.reply trivial]; exact ⟨rfl, Iff.rfl⟩
    | retire index => rw [follows.reply trivial]; exact ⟨rfl, Iff.rfl⟩
  constructor
  case shows => rw [follows.capacity]; exact follows.shows
  case port => rw [follows.port, tracks.port, Queue.port, Queue.port, follows.region, follows.capacity]
  case retired =>
    rw [follows.capacity, History.log, (Log.perform_step _ _).retired_eq, tracks.retired,
      History.retired_cons]
    simp only [reply.2]
  case written =>
    funext j
    rw [follows.capacity, History.log, (Log.perform_step _ _).written_eq, History.written, reply.1,
      tracks.written]
  case found =>
    intro later index record earlier whole above below
    rw [follows.capacity] at below ⊢
    cases later with
    | nil =>
      simp only [List.nil_append, List.cons.injEq, Entry.mk.injEq] at whole
      obtain ⟨⟨rfl, answered⟩, rfl⟩ := whole
      rw [← tracks.retired] at above below
      have found := (follows.reply ⟨above, below⟩).symm.trans answered
      simp only [Log.perform, Reply.found.injEq, Log.fetch] at found
      split at found
      next published => exact published
      · cases found
    | cons first later =>
      simp only [List.cons_append, List.cons.injEq] at whole
      have published := tracks.found later index record earlier whole.2 above below
      exact Nat.lt_of_lt_of_le published (Log.perform_step a _).published_le

theorem Tracks.perform (tracks : s.Tracks h) (a : Act) (allowed : s.Allowed h a) :
    (s.perform a).2.Tracks (⟨a, (s.perform a).1⟩ :: h) :=
  tracks.perform_legal a (tracks.legal_of_allowed allowed)

theorem Tracks.due_iff (tracks : s.Tracks h) (a : Act) :
    s.Due a ↔ Legal (h.log s.queue.capacity) a := by
  cases a with
  | produce a => exact ⟨nofun, fun _ => trivial⟩
  | fetch index => exact ⟨nofun, fun _ => trivial⟩
  | retire index =>
    have shows := tracks.shows
    have read : s.port.readIndex s.memory = .ok index s.memory ↔
        index.toNat = (h.log s.queue.capacity).retired := by
      rw [tracks.port]
      have done : s.queue.port.readIndex s.memory = _ := shows.carries.readIndex_ok
      rw [done, EStateM.Result.ok.injEq, and_iff_left rfl, ← shows.readIndex, UInt64.toNat_inj,
        eq_comm]
    have published (index : UInt64) :
        (∃ count, s.port.published s.memory = .ok count s.memory ∧ index < count) ↔
          index.toNat < (h.log s.queue.capacity).published := by
      rw [tracks.port]
      have done : s.queue.port.published s.memory = _ := shows.carries.published_ok
      simp only [done, EStateM.Result.ok.injEq, and_true, exists_eq_left', UInt64.lt_iff_toNat_lt,
        shows.doorbell]
    constructor
    · rintro due _ ⟨⟩ current
      exact current ▸ (published index).mp (due (read.mpr current))
    · intro legal current
      rw [published, read.mp current]
      exact legal index rfl (read.mp current)

theorem Orderly.tracks {start : Ring} (opened : start.Opened) (orderly : Orderly start h s) :
    s.Tracks h ∧ s.queue.capacity = start.queue.capacity ∧
      s.queue.region = start.queue.region := by
  induction orderly with
  | start => exact ⟨opened.tracks, rfl, rfl⟩
  | next a _ due ih =>
    obtain ⟨tracks, capacity, region⟩ := ih
    have legal := (tracks.due_iff a).mp due
    have follows := Ring.perform_follows tracks.shows tracks.port a legal
    exact ⟨tracks.perform_legal a legal, follows.capacity.trans capacity,
      follows.region.trans region⟩

theorem Run.orderly {start : Ring} (opened : start.Opened) (run : Run start h s) :
    Orderly start h s := by
  induction run with
  | start => exact .start
  | next a _ allowed ih =>
    obtain ⟨tracks, _⟩ := ih.tracks opened
    exact ih.next a ((tracks.due_iff a).mpr (tracks.legal_of_allowed allowed))

theorem Run.tracks {start : Ring} (opened : start.Opened) (run : Run start h s) :
    s.Tracks h ∧ s.queue.capacity = start.queue.capacity ∧
      s.queue.region = start.queue.region :=
  (run.orderly opened).tracks opened

theorem Orderly.last {start : Ring} {e : Entry} (orderly : Orderly start (e :: h) s) :
    ∃ before, Orderly start h before ∧ before.Due e.act ∧ e.reply = (before.perform e.act).1 ∧
      s = (before.perform e.act).2 := by
  cases orderly with
  | next a earlier due => exact ⟨_, earlier, due, rfl, rfl⟩

theorem Run.last {start : Ring} {e : Entry} (run : Run start (e :: h) s) :
    ∃ before, Run start h before ∧ before.Allowed h e.act ∧ e.reply = (before.perform e.act).1 ∧
      s = (before.perform e.act).2 := by
  cases run with
  | next a earlier allowed => exact ⟨_, earlier, allowed, rfl, rfl⟩

theorem Run.earlier {start : Ring} {later : History} (run : Run start (later ++ h) s) :
    ∃ before, Run start h before := by
  induction later generalizing s with
  | nil => exact ⟨s, run⟩
  | cons e later ih =>
    obtain ⟨before, run, _⟩ := Run.last run
    exact ih run

theorem Run.reply {start : Ring} (opened : start.Opened) (run : Run start h s) (a : Act)
    (allowed : s.Allowed h a)
    (inReach : (h.log start.queue.capacity).InReach start.queue.capacity a) :
    (s.perform a).1 =
      ((h.log start.queue.capacity).perform start.queue.capacity a).1 := by
  obtain ⟨tracks, capacity, _⟩ := run.tracks opened
  rw [← capacity] at inReach ⊢
  exact (tracks.perform_follows a allowed).reply inReach

theorem Run.produce {start : Ring} (opened : start.Opened) (run : Run start h s)
    (a : Production) (reply : Reply)
    (answers : ((h.log start.queue.capacity).produce start.queue.capacity a).1 = reply) :
    ∃ s', Run start (⟨.produce a, reply⟩ :: h) s' := by
  have same := (run.reply opened (.produce a) trivial trivial).trans answers
  exact ⟨_, same ▸ run.next (.produce a) trivial⟩

theorem Run.allowed {start : Ring} {index : UInt64} {record : Record} (opened : start.Opened)
    (run : Run start (⟨.fetch index, .found (some record)⟩ :: h) s) :
    s.Allowed (⟨.fetch index, .found (some record)⟩ :: h) (.retire index) := by
  obtain ⟨tracks, _⟩ := run.tracks opened
  have positive := tracks.shows.capacity_pos
  refine fun _ => ⟨[], record, h, rfl, ?_⟩
  rw [tracks.port]
  exact positive

theorem Run.deliver {start : Ring} (opened : start.Opened) (run : Run start h s) (index : UInt64)
    (record : Record) (current : index.toNat = (h.log start.queue.capacity).retired)
    (found : (h.log start.queue.capacity).fetch index = some record) :
    (s.perform (.fetch index)).1 = .found (some record) ∧
      Run start (⟨.retire index, .retired⟩ :: ⟨.fetch index, .found (some record)⟩ :: h)
        ((s.perform (.fetch index)).2.perform (.retire index)).2 := by
  obtain ⟨tracks, capacity, _⟩ := run.tracks opened
  have positive := tracks.shows.capacity_pos
  have reply : (s.perform (.fetch index)).1 = .found (some record) := by
    rw [run.reply opened (.fetch index) trivial ⟨by omega, by omega⟩, Log.perform, found]
  have fetched := run.next (.fetch index) trivial
  rw [reply] at fetched
  have allowed := fetched.allowed opened
  have retired := fetched.next (.retire index) allowed
  rw [fetched.reply opened (.retire index) allowed trivial] at retired
  simp only [History.log, Log.perform, Log.retire, current, if_pos] at retired
  exact ⟨reply, retired⟩

def lay (r : Region) (capacity : Nat) (m : Memory) : Option Ring :=
  match Queue.create 0 capacity .multi r m with
  | .ok queue memory =>
    match Consumer.attach r memory with
    | .ok port _ => some ⟨queue, port, memory⟩
    | .error _ _ => none
  | .error _ _ => none

theorem lay_queue {r : Region} {capacity : Nat} {m : Memory} (backed : r.Backed m)
    (laid : lay r capacity m = some s) : s.queue = Queue.opened 0 capacity .multi r := by
  unfold lay at laid
  split at laid
  next created =>
    obtain ⟨_, same, _⟩ := Queue.create_shows backed created
    split at laid
    · cases laid; exact same
    · cases laid
  · cases laid

theorem lay_opened {r : Region} {capacity : Nat} {m : Memory} (backed : r.Backed m)
    (laid : lay r capacity m = some s) : s.Opened := by
  unfold lay at laid
  cases created : Queue.create 0 capacity .multi r m with
  | error failure memory =>
    rw [created] at laid
    cases laid
  | ok queue memory =>
    obtain ⟨shows, same, _⟩ := Queue.create_shows backed created
    have attached : Consumer.attach r memory = .ok queue.port memory := by
      have found := shows.attach_ok
      rw [same] at found ⊢
      exact found
    rw [created] at laid
    simp only [attached] at laid
    cases laid
    exact ⟨0, capacity, .multi, r, m, backed, created, attached⟩

def sample : Ring :=
  (lay ⟨0, 0, 192, false⟩ 2 (ByteStore.zeros 192)).get (by decide +kernel)

theorem sample_backed : Region.Backed ⟨0, 0, 192, false⟩ (ByteStore.zeros 192) := by
  rw [Region.Backed, ByteStore.size_zeros]
  decide

theorem sample_opened : sample.Opened :=
  lay_opened sample_backed (Option.some_get _).symm

theorem sample_capacity : sample.queue.capacity = 2 :=
  congrArg Queue.capacity (lay_queue sample_backed (s := sample) (Option.some_get _).symm)

-- Three packets, written out of order, through two slots: one delivered, two published.
def sampleHistory : History :=
  [⟨.produce (.dispatch 2), .published 3⟩,
    ⟨.produce (.writePacket 2 (.deviceInit 3)), .packet ⟨2, 0⟩⟩,
    ⟨.retire 0, .retired⟩,
    ⟨.fetch 0, .found (some (Command.encode (.deviceInit 1)).activated)⟩,
    ⟨.produce (.dispatch 1), .published 2⟩,
    ⟨.produce (.writePacket 0 (.deviceInit 1)), .packet ⟨0, 0⟩⟩,
    ⟨.produce (.writePacket 1 (.deviceInit 2)), .packet ⟨1, 1⟩⟩,
    ⟨.produce (.reserve 3), .index 0⟩]

theorem sample_run : ∃ s, Run sample sampleHistory s := by
  have two := sample_capacity
  obtain ⟨_, reserved⟩ := Run.start.produce sample_opened (.reserve 3) (.index 0)
    (by rw [two]; decide)
  obtain ⟨_, second⟩ := reserved.produce sample_opened (.writePacket 1 (.deviceInit 2))
    (.packet ⟨1, 1⟩) (by rw [two]; decide)
  obtain ⟨_, first⟩ := second.produce sample_opened (.writePacket 0 (.deviceInit 1))
    (.packet ⟨0, 0⟩) (by rw [two]; decide)
  obtain ⟨_, published⟩ := first.produce sample_opened (.dispatch 1) (.published 2)
    (by rw [two]; decide)
  have ⟨_, delivered⟩ := published.deliver sample_opened 0
    (Command.encode (.deviceInit 1)).activated (by rw [two]; decide)
    (by rw [two]; decide)
  obtain ⟨_, third⟩ := delivered.produce sample_opened (.writePacket 2 (.deviceInit 3))
    (.packet ⟨2, 0⟩) (by rw [two]; decide)
  exact third.produce sample_opened (.dispatch 2) (.published 3) (by rw [two]; decide)

end Ring

end FabricQueue
