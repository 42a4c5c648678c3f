import FabricQueue.Proofs.Waits
import Mathlib.Order.Bounds.Basic

set_option autoImplicit false

namespace FabricQueue

-- What a wait meets at its calls, counted from one: the answer, and the token and the clock then.
structure Samples where
  answer : Nat → Except Failure Bool
  cancelled : Nat → Bool
  elapsed : Nat → Nat

-- What a poll says, whatever state it leaves.
def said {σ α : Type} : EStateM.Result Failure σ α → Except Failure α
  | .ok a _ => .ok a
  | .error failure _ => .error failure

-- The state it leaves, whatever it says.
def left {σ α : Type} : EStateM.Result Failure σ α → σ
  | .ok _ s => s
  | .error _ s => s

theorem ok_of_said {σ α : Type} {result : EStateM.Result Failure σ α} {a : α}
    (tells : said result = .ok a) : ∃ s, result = .ok a s := by
  cases result with
  | ok a' s =>
    cases tells
    exact ⟨s, rfl⟩
  | error failure s => cases tells

namespace Samples

-- A condition that answers so, and counts its calls.
def probe (x : Samples) : EStateM Failure Nat Bool := fun calls =>
  match x.answer (calls + 1) with
  | .ok held => .ok held (calls + 1)
  | .error failure => .error failure (calls + 1)

def tick (x : Samples) (call : Nat) : Tick Nat :=
  { elapsed := x.elapsed call, cancelled := x.cancelled call }

def ticks (x : Samples) (count : Nat) : List (Tick Nat) :=
  (List.range' 1 count).map x.tick

-- The end of a wait at a call that is its last, with a cause if the condition does not hold.
def ending (x : Samples) (cause : Failure) (call : Nat) : EStateM.Result Failure Nat Nat :=
  match x.answer call with
  | .ok true => .ok call call
  | .ok false => .error cause call
  | .error failure => .error failure call

variable {x : Samples} {call calls : Nat}

theorem probe_ok {held : Bool} (tells : x.answer (calls + 1) = .ok held) :
    x.probe calls = .ok held (calls + 1) := by
  rw [probe, tells]

theorem probe_error {failure : Failure} (tells : x.answer (calls + 1) = .error failure) :
    x.probe calls = .error failure (calls + 1) := by
  rw [probe, tells]

end Samples

namespace WaitPolicy

-- A call after which the wait is not going on.
def Settles (p : WaitPolicy) (x : Samples) (call : Nat) : Prop :=
  x.answer call ≠ .ok false ∨ p.cancelled = true ∨ x.cancelled call = true ∨
    ∃ timeout, p.timeout = some timeout ∧ timeout ≤ x.elapsed call

-- The cause to give up at a call that settles the wait.
def cause (p : WaitPolicy) (x : Samples) (call : Nat) : Failure :=
  if p.cancelled || x.cancelled call then .error .cancelled
  else .error (.timeout (milliseconds (p.timeout.getD 0)))

variable {p : WaitPolicy} {x : Samples}

section Step

variable {calls backoff : Nat} {rest : List (Tick Nat)}

theorem go_answered (tells : x.answer (calls + 1) ≠ .ok false) (cause : Failure) :
    pollUntil.go p x.probe (calls + 1) backoff rest calls = x.ending cause (calls + 1) := by
  cases answer : x.answer (calls + 1) with
  | error failure => rw [p.go_failed _ _ (Samples.probe_error answer), Samples.ending, answer]
  | ok held =>
    cases held with
    | true => rw [p.go_done _ _ (Samples.probe_ok answer), Samples.ending, answer]
    | false => exact absurd answer tells

theorem go_last (p : WaitPolicy) (x : Samples) (calls backoff : Nat) :
    pollUntil.go p x.probe (calls + 1) backoff [] calls = x.ending .stillWaiting (calls + 1) := by
  by_cases tells : x.answer (calls + 1) = .ok false
  · rw [p.go_gives_up _ _ (Samples.probe_ok tells), Samples.ending, tells]
  · exact go_answered tells _

theorem go_settled (settles : p.Settles x (calls + 1)) :
    pollUntil.go p x.probe (calls + 1) backoff (x.tick (calls + 1) :: rest) calls =
      x.ending (p.cause x (calls + 1)) (calls + 1) := by
  by_cases tells : x.answer (calls + 1) = .ok false
  · simp only [p.go_again _ _ (Samples.probe_ok tells), Samples.ending, tells, cause, Samples.tick]
    by_cases cancelled : (p.cancelled || x.cancelled (calls + 1)) = true
    · rw [if_pos cancelled, if_pos cancelled]
    -- The deadline is what is left.
    · rw [if_neg cancelled, if_neg cancelled]
      rw [Bool.or_eq_true, not_or] at cancelled
      obtain asked | own | token | ⟨timeout, deadline, late⟩ := settles
      · exact absurd tells asked
      · exact absurd own cancelled.1
      · exact absurd token cancelled.2
      · simp only [expired, deadline, if_pos late, Option.getD_some]
  · exact go_answered tells _

theorem go_unsettled (goesOn : ¬p.Settles x (calls + 1)) :
    pollUntil.go p x.probe (calls + 1) backoff (x.tick (calls + 1) :: rest) calls =
      pollUntil.go p x.probe (calls + 2) (p.nextBackoff (calls + 1) backoff) rest (calls + 1) := by
  simp only [Settles, not_or, not_exists, not_and, ne_eq, not_not] at goesOn
  obtain ⟨tells, own, token, early⟩ := goesOn
  have waits : p.expired (x.elapsed (calls + 1)) = none := by
    unfold expired
    split
    next timeout deadline => rw [if_neg (early timeout deadline)]
    · rfl
  rw [p.go_again _ _ (Samples.probe_ok tells), if_neg (by simp [Samples.tick, own, token])]
  simp only [Samples.tick, waits]

end Step

theorem go_sampled (p : WaitPolicy) (x : Samples) (count calls backoff : Nat) :
    (∃ k, calls < k ∧ k ≤ calls + count ∧ p.Settles x k ∧
      (∀ earlier, calls < earlier → earlier < k → ¬p.Settles x earlier) ∧
      pollUntil.go p x.probe (calls + 1) backoff ((List.range' (calls + 1) count).map x.tick) calls =
        x.ending (p.cause x k) k) ∨
    (∀ earlier, calls < earlier → earlier ≤ calls + count → ¬p.Settles x earlier) ∧
      pollUntil.go p x.probe (calls + 1) backoff ((List.range' (calls + 1) count).map x.tick) calls =
        x.ending .stillWaiting (calls + count + 1) := by
  induction count generalizing calls backoff with
  | zero => exact .inr ⟨fun earlier above below => by omega, p.go_last x calls backoff⟩
  | succ count ih =>
    rw [List.range'_succ, List.map_cons]
    by_cases settles : p.Settles x (calls + 1)
    · exact .inl ⟨calls + 1, by omega, by omega, settles, fun earlier above below => by omega,
        go_settled settles⟩
    have goesOn {earlier : Nat} (above : calls < earlier)
        (later : calls + 1 < earlier → ¬p.Settles x earlier) : ¬p.Settles x earlier := by
      rcases Nat.lt_or_eq_of_le (Nat.succ_le_of_lt above) with further | rfl
      · exact later further
      · exact settles
    rw [go_unsettled settles]
    obtain ⟨k, above, below, ends, before, same⟩ | ⟨before, same⟩ :=
      ih (calls + 1) (p.nextBackoff (calls + 1) backoff)
    · exact .inl ⟨k, by omega, by omega, ends,
        fun earlier after low => goesOn after fun further => before earlier further low, same⟩
    · refine .inr ⟨fun earlier after low => goesOn after fun further => before earlier further ?_, ?_⟩
      · omega
      · rw [same]
        congr 1
        omega

-- A wait that neither its token nor its deadline ends otherwise goes the same way.
theorem go_alike {p' : WaitPolicy} (timeout : p'.timeout = p.timeout)
    (cancelled : p'.cancelled = p.cancelled) (x : Samples) (count calls backoff backoff' : Nat) :
    pollUntil.go p' x.probe (calls + 1) backoff' ((List.range' (calls + 1) count).map x.tick) calls =
      pollUntil.go p x.probe (calls + 1) backoff ((List.range' (calls + 1) count).map x.tick)
        calls := by
  have settles (call : Nat) : p'.Settles x call ↔ p.Settles x call := by
    rw [Settles, Settles, timeout, cancelled]
  induction count generalizing calls backoff backoff' with
  | zero => rw [List.range'_zero, List.map_nil, go_last, go_last]
  | succ count ih =>
    rw [List.range'_succ, List.map_cons]
    by_cases ends : p.Settles x (calls + 1)
    · rw [go_settled ends, go_settled ((settles _).mpr ends), cause, cause, timeout, cancelled]
    · rw [go_unsettled ends, go_unsettled (mt (settles _).mp ends)]
      exact ih (calls + 1) _ _

-- How long the wait would sleep after call `n + 1`.
def backoffAt (p : WaitPolicy) : Nat → Nat
  | 0 => 1000
  | n + 1 => p.nextBackoff (n + 1) (p.backoffAt n)

-- The time slept after the first `n` calls.
def slept (p : WaitPolicy) : Nat → Nat
  | 0 => 0
  | n + 1 => p.slept n + match p.pause (n + 1) (p.backoffAt n) with
    | .sleep time => time
    | _ => 0

-- The longest time that there are words for, 2 ^ 64 seconds less a nanosecond.
def longest : Nat :=
  UInt64.size * 1000000000 - 1

theorem sleepAfter_lt (p : WaitPolicy) : p.sleepAfter < UInt64.size := by
  have spin := p.spinPolls.toNat_lt
  have interval := p.yieldInterval.toNat_lt
  simp only [sleepAfter, WaitPolicy.interval, UInt64.size]
  omega

theorem pause_sleeps {n : Nat} (sleeps : p.sleepAfter ≤ n) (backoff : Nat) :
    p.pause n backoff = .sleep backoff := by
  have later : p.spinPolls.toNat ≤ p.sleepAfter := Nat.le_add_right _ _
  rw [pause, if_neg (by omega), if_neg (by omega)]

theorem slept_sleeps {n : Nat} (sleeps : p.sleepAfter ≤ n + 1) :
    p.slept (n + 1) = p.slept n + p.backoffAt n := by
  rw [slept, pause_sleeps sleeps]

theorem slept_awake {n : Nat} (awake : n + 1 < p.sleepAfter) : p.slept (n + 1) = p.slept n := by
  rw [slept, pause, if_pos awake]
  split_ifs <;> rfl

-- The sleeps double until the longest one, so together they come to the next one less a microsecond.
theorem backoffAt_slept (p : WaitPolicy) (n : Nat) :
    (∃ e, p.backoffAt n ≤ 1000 * 2 ^ e ∧ p.slept n + 1000 = 1000 * 2 ^ e ∧
      (p.backoffAt n = 1000 * 2 ^ e ∨ p.backoffAt n = p.maxBackoff)) ∨
    p.backoffAt n ≤ p.slept n := by
  induction n with
  | zero => exact .inl ⟨0, Nat.le_refl _, rfl, .inl rfl⟩
  | succ n ih =>
    by_cases awake : n + 1 < p.sleepAfter
    · rw [slept_awake awake, backoffAt, nextBackoff, if_pos awake]
      exact ih
    rw [slept_sleeps (Nat.not_lt.mp awake), backoffAt, nextBackoff, if_neg awake]
    obtain ⟨e, _, slept, doubled | capped⟩ | passed := ih
    · have twice : 1000 * 2 ^ (e + 1) = 2 * p.backoffAt n := by
        rw [pow_succ]
        omega
      exact .inl ⟨e + 1, by omega, by omega, by omega⟩
    · right
      omega
    · right
      omega

theorem backoffAt_doubles {n : Nat} (sleeps : p.sleepAfter ≤ n + 1)
    (told : p.slept (n + 1) ≤ longest) : 2 * p.backoffAt n ≤ longest := by
  rw [slept_sleeps sleeps] at told
  rw [longest, UInt64.size] at told ⊢
  obtain ⟨e, backoff, slept, _⟩ | passed := p.backoffAt_slept n
  · rcases Nat.lt_or_ge e 83 with short | long
    · have power := Nat.pow_le_pow_right (show 0 < 2 by decide) (Nat.le_of_lt_succ short)
      omega
    · have power := Nat.pow_le_pow_right (show 0 < 2 by decide) long
      omega
  · omega

section Probe

variable {σ : Type} (p : WaitPolicy) (probe : EStateM Failure σ Bool) (ticks : Nat → Tick σ) (s : σ)

def stateAt : Nat → σ
  | 0 => s
  | n + 1 => (ticks n).evolve (p.pause (n + 1) (p.backoffAt n)) (left (probe (stateAt n)))

-- What a wait meets with some condition, from some state on.
def met : Samples where
  answer call := said (probe (p.stateAt probe ticks s (call - 1)))
  cancelled call := (ticks (call - 1)).cancelled
  elapsed call := (ticks (call - 1)).elapsed

-- The same end in the state that its last call left.
def endingAt : EStateM.Result Failure Nat Nat → EStateM.Result Failure σ Nat
  | .ok polls calls => .ok polls (left (probe (p.stateAt probe ticks s (calls - 1))))
  | .error failure calls => .error failure (left (probe (p.stateAt probe ticks s (calls - 1))))

variable {p probe ticks s}

theorem met_answer {calls : Nat} {result : EStateM.Result Failure σ Bool}
    (poll : probe (p.stateAt probe ticks s calls) = result) :
    (p.met probe ticks s).answer (calls + 1) = said result :=
  congrArg said poll

theorem go_met_answered {calls backoff : Nat} {rest : List (Tick σ)} {rest' : List (Tick Nat)}
    (ends : said (probe (p.stateAt probe ticks s calls)) ≠ .ok false) :
    pollUntil.go p probe (calls + 1) backoff rest (p.stateAt probe ticks s calls) =
      p.endingAt probe ticks s
        (pollUntil.go p (p.met probe ticks s).probe (calls + 1) backoff rest' calls) := by
  cases poll : probe (p.stateAt probe ticks s calls) with
  | error failure s' =>
    rw [p.go_failed _ _ poll, p.go_failed _ _ (Samples.probe_error (met_answer poll))]
    simp only [endingAt, Nat.add_sub_cancel, poll, left]
  | ok held s' =>
    cases held with
    | true =>
      rw [p.go_done _ _ poll, p.go_done _ _ (Samples.probe_ok (met_answer poll))]
      simp only [endingAt, Nat.add_sub_cancel, poll, left]
    | false => exact absurd (congrArg said poll) ends

theorem go_met (count calls : Nat) :
    pollUntil.go p probe (calls + 1) (p.backoffAt calls) ((List.range' calls count).map ticks)
      (p.stateAt probe ticks s calls) =
    p.endingAt probe ticks s (pollUntil.go p (p.met probe ticks s).probe (calls + 1)
      (p.backoffAt calls) ((List.range' (calls + 1) count).map (p.met probe ticks s).tick) calls) := by
  induction count generalizing calls with
  | zero =>
    by_cases waits : said (probe (p.stateAt probe ticks s calls)) = .ok false
    · obtain ⟨s', poll⟩ := ok_of_said waits
      rw [List.range'_zero, List.map_nil, List.range'_zero, List.map_nil, p.go_gives_up _ _ poll,
        p.go_gives_up _ _ (Samples.probe_ok (met_answer poll))]
      simp only [endingAt, Nat.add_sub_cancel, poll, left]
    · exact go_met_answered waits
  | succ count ih =>
    by_cases waits : said (probe (p.stateAt probe ticks s calls)) = .ok false
    · obtain ⟨s', poll⟩ := ok_of_said waits
      have next : (ticks calls).evolve (p.pause (calls + 1) (p.backoffAt calls)) s' =
          p.stateAt probe ticks s (calls + 1) := by
        rw [stateAt, poll, left]
      have same : (p.met probe ticks s).tick (calls + 1) =
          { elapsed := (ticks calls).elapsed, cancelled := (ticks calls).cancelled } := rfl
      rw [List.range'_succ, List.map_cons, List.range'_succ, List.map_cons, p.go_again _ _ poll,
        p.go_again _ _ (Samples.probe_ok (met_answer poll)), next, same]
      cases p.cancelled || (ticks calls).cancelled with
      | true => simp only [if_true, endingAt, Nat.add_sub_cancel, poll, left]
      | false =>
        simp only [Bool.false_eq_true, if_false]
        cases p.expired (ticks calls).elapsed with
        | some cause => simp only [endingAt, Nat.add_sub_cancel, poll, left]
        | none => exact ih (calls + 1)
    · exact go_met_answered waits

end Probe

-- What a wait makes of its samples.
structure Decides (p : WaitPolicy) (x : Samples) : Prop where
  -- The first call that settles the wait is its last one, and the answer comes before the causes.
  first : ∀ k, IsLeast {call | 0 < call ∧ p.Settles x call} k → ∀ count, k ≤ count →
    p.pollUntil x.probe (x.ticks count) 0 = x.ending (p.cause x k) k
  never : (∀ call, 0 < call → ¬p.Settles x call) → ∀ count,
    p.pollUntil x.probe (x.ticks count) 0 = .error .stillWaiting (count + 1)
  holding : ∀ count failure calls,
    p.pollUntil x.probe (x.ticks count) 0 = .error failure calls → x.answer calls ≠ .ok true
  -- The ways to pause have no part in it.
  alike : ∀ p' : WaitPolicy, p'.timeout = p.timeout → p'.cancelled = p.cancelled → ∀ count,
    p'.pollUntil x.probe (x.ticks count) 0 = p.pollUntil x.probe (x.ticks count) 0

theorem ending_ne {calls : Nat} {failure cause : Failure} {call : Nat}
    (ends : x.ending cause call = .error failure calls) : x.answer calls ≠ .ok true := by
  unfold Samples.ending at ends
  split at ends
  · cases ends
  next tells => cases ends; rw [tells]; exact nofun
  next tells => cases ends; rw [tells]; exact nofun

theorem decides (p : WaitPolicy) (x : Samples) : p.Decides x := by
  have sampled (count : Nat) := p.go_sampled x count 0 1000
  simp only [Nat.zero_add] at sampled
  constructor
  case first =>
    intro k least count within
    obtain ⟨⟨positive, settles⟩, lower⟩ := least
    obtain ⟨k', above, _, settles', before, same⟩ | ⟨before, _⟩ := sampled count
    · have low := lower ⟨above, settles'⟩
      have high : k' ≤ k := Nat.not_lt.mp fun below => before k positive below settles
      obtain rfl := Nat.le_antisymm low high
      exact same
    · exact absurd settles (before k positive within)
  case never =>
    intro unsettled count
    obtain ⟨k, above, _, settles, _⟩ | ⟨_, same⟩ := sampled count
    · exact absurd settles (unsettled k above)
    · have tells : x.answer (count + 1) = .ok false := by
        by_contra answered
        exact unsettled _ (Nat.succ_pos _) (.inl answered)
      refine same.trans ?_
      rw [Samples.ending, tells]
  case holding =>
    intro count failure calls ended
    obtain ⟨_, _, _, _, _, same⟩ | ⟨_, same⟩ := sampled count
    · exact ending_ne (same.symm.trans ended)
    · exact ending_ne (same.symm.trans ended)
  case alike =>
    intro p' timeout cancelled count
    exact go_alike timeout cancelled x count 0 1000 1000

theorem pollUntil_decides (p : WaitPolicy) :
    (∀ x : Samples, p.Decides x) ∧
    (∀ {σ : Type} (probe : EStateM Failure σ Bool) (ticks : Nat → Tick σ) (s : σ) (count : Nat),
      p.pollUntil probe ((List.range count).map ticks) s = p.endingAt probe ticks s
        (p.pollUntil (p.met probe ticks s).probe ((p.met probe ticks s).ticks count) 0)) ∧
    (∀ timeout < 1000000 * UInt64.size, milliseconds timeout = timeout / 1000000) ∧
    p.sleepAfter < UInt64.size ∧
    ∀ n, p.sleepAfter ≤ n + 1 → p.slept (n + 1) ≤ longest → 2 * p.backoffAt n ≤ longest := by
  refine ⟨p.decides, fun probe ticks s count => ?_, fun timeout short => ?_, p.sleepAfter_lt,
    fun n => backoffAt_doubles⟩
  · rw [List.range_eq_range']
    exact go_met count 0
  · rw [milliseconds]
    omega

-- The third call comes when the token is cancelled and the deadline is over.
def sampleSamples (third : Except Failure Bool) : Samples where
  answer call := if call < 3 then .ok false else third
  cancelled call := decide (3 ≤ call)
  elapsed call := if call < 3 then 0 else 5000000

theorem sampleSamples_least (third : Except Failure Bool) :
    IsLeast {call | 0 < call ∧ (bounded 5000000).Settles (sampleSamples third) call} 3 := by
  refine ⟨⟨by decide, .inr (.inr (.inl rfl))⟩, fun call ⟨_, settles⟩ => ?_⟩
  by_contra early
  have before : call < 3 := Nat.not_le.mp early
  simp [Settles, sampleSamples, bounded, before, Nat.not_le.mpr before] at settles

-- The answer comes before the token, and the token before the deadline.
theorem pollUntil_decides_sample :
    IsLeast {call | 0 < call ∧ (bounded 5000000).Settles (sampleSamples (.ok true)) call} 3 ∧
    (bounded 5000000).pollUntil (sampleSamples (.ok true)).probe ((sampleSamples (.ok true)).ticks 4) 0 =
      .ok 3 3 ∧
    IsLeast {call | 0 < call ∧ (bounded 5000000).Settles (sampleSamples (.ok false)) call} 3 ∧
    (bounded 5000000).pollUntil (sampleSamples (.ok false)).probe
      ((sampleSamples (.ok false)).ticks 4) 0 = .error (.error .cancelled) 3 := by
  have decides (x : Samples) := (bounded 5000000).pollUntil_decides.1 x
  exact ⟨sampleSamples_least _, (decides _).first 3 (sampleSamples_least _) 4 (by decide),
    sampleSamples_least _, (decides _).first 3 (sampleSamples_least _) 4 (by decide)⟩

end WaitPolicy

end FabricQueue
