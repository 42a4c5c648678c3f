import FabricQueue.Proofs.Additions
import FabricQueue.Proofs.Blocks
import FabricQueue.Proofs.Unattended
import FabricQueue.Scenario.Scenario

set_option autoImplicit false

namespace FabricQueue

namespace Scenario

-- Bytes of the staging buffer that a scenario needs.
def staging : Scenario → Nat
  | shimDma => ShimDma.stagingBytes
  | matrixAdd => MatrixAdd.stagingBytes

def packets : Scenario → Nat
  | shimDma => 9
  | matrixAdd => 5

-- Bytes that its transfers move.
def bytes : Scenario → Nat
  | shimDma => 8 * ShimDma.blockBytes
  | matrixAdd => MatrixAdd.stagingBytes

-- Words that it compares.
def words : Scenario → Nat
  | shimDma => 256
  | matrixAdd => 2304

-- Passes that are enough for each of its waits.
def passes : Scenario → Nat
  | shimDma => 8 * ShimDma.blockBytes + 1
  | matrixAdd => MatrixAdd.stagingBytes + 16 + 1

variable {d : Device} {m : Machine} {s : Site} {retired moved : Nat} (scenario : Scenario)

theorem run_ok (rests : d.Rests retired moved s) (stands : d.Stands m s)
    (large : scenario.staging ≤ d.staging.size) (room : 8 ≤ d.config.queueCapacity.toNat)
    (indices : retired + 2 + d.config.queueCapacity.toNat < UInt64.size)
    (narrow : moved + scenario.bytes < UInt64.size) {policy : WaitPolicy}
    {seen : Observation Machine} (patient : Machine.Patient policy scenario.passes (seen policy)) :
    ∃ report m' s', scenario.run d policy seen m = .ok report m' ∧ d.Stands m' s' ∧
      d.Rests (retired + scenario.packets) (moved + scenario.bytes) s' ∧
      Checked report.checks scenario.words := by
  cases scenario with
  | shimDma => exact ShimDma.run_ok rests stands large room (by omega) narrow patient
  | matrixAdd => exact MatrixAdd.run_ok rests stands large (by omega) indices narrow patient

theorem run_refused (small : d.staging.size < scenario.staging) (policy : WaitPolicy)
    (seen : Observation Machine) (m : Machine) : scenario.run d policy seen m =
      .error (.error (.invalidConfig (.stagingTooSmall scenario.staging d.staging.size))) m := by
  have refused : d.ensureStaging scenario.staging m =
      .error (.error (.invalidConfig (.stagingTooSmall scenario.staging d.staging.size))) m := by
    unfold Device.ensureStaging
    rw [if_pos small]
    rfl
  cases scenario <;> exact bind_error refused

theorem packets_le (done : List Scenario) :
    100 * (done.map packets).sum ≤ (done.map bytes).sum := by
  induction done with
  | nil => exact Nat.le_refl 0
  | cons scenario rest ih =>
    have one : 100 * scenario.packets ≤ scenario.bytes := by cases scenario <;> decide
    simp only [List.map_cons, List.sum_cons]
    omega

end Scenario

namespace Device

-- Runs of scenarios on a device, each of whose waits is patient, with passes between them. The list
-- holds those that were completed. A run that needs more staging bytes than there are is refused.
inductive Course (d : Device) (start : Machine) : List Scenario → Machine → Prop where
  | opened : Course d start [] start
  | passes {done : List Scenario} {m m' : Machine} {count : Nat} {quiet : Bool}
      (course : Course d start done m) (passes : Machine.Passes count quiet m m') :
      Course d start done m'
  | completed {done : List Scenario} {m m' : Machine} {scenario : Scenario} {report : Report}
      {policy : WaitPolicy} {seen : Observation Machine} (course : Course d start done m)
      (patient : Machine.Patient policy scenario.passes (seen policy))
      (ran : scenario.run d policy seen m = .ok report m') : Course d start (scenario :: done) m'
  | refused {done : List Scenario} {m m' : Machine} {scenario : Scenario} {failure : Failure}
      {policy : WaitPolicy} {seen : Observation Machine} (course : Course d start done m)
      (small : d.config.stagingSize.toNat < scenario.staging)
      (ran : scenario.run d policy seen m = .error failure m') : Course d start done m'

variable {d : Device} {start m m' : Machine} {s : Site} {done : List Scenario}

theorem Rests.passed {packets bytes count : Nat} {quiet : Bool} (rests : d.Rests packets bytes s)
    (stands : d.Stands m s) (passes : Machine.Passes count quiet m m') :
    ∃ s', d.Stands m' s' ∧ d.Rests packets bytes s' := by
  induction passes generalizing s with
  | none => exact ⟨s, stands, rests⟩
  | pass visits _ ih => exact ih (rests.poll visits) (stands.pass _).1

abbrev RestsAfter (d : Device) (done : List Scenario) : Site → Prop :=
  d.Rests (done.map Scenario.packets).sum (done.map Scenario.bytes).sum

section Next

variable (room : 8 ≤ d.config.queueCapacity.toNat)

include room

theorem RestsAfter.next (rests : d.RestsAfter done s) (stands : d.Stands m s) {scenario : Scenario}
    (large : scenario.staging ≤ d.staging.size)
    (narrow : (done.map Scenario.bytes).sum + scenario.bytes < UInt64.size) {policy : WaitPolicy}
    {seen : Observation Machine} (patient : Machine.Patient policy scenario.passes (seen policy)) :
    ∃ report m' s', scenario.run d policy seen m = .ok report m' ∧ d.Stands m' s' ∧
      d.RestsAfter (scenario :: done) s' ∧ Checked report.checks scenario.words := by
  obtain ⟨l, idle, _⟩ := rests.idle
  have bounds := Layout.supports_bounds idle.shows.supported
  have few := Scenario.packets_le done
  have capacity := rests.capacity
  have word : UInt64.size = 18446744073709551616 := rfl
  obtain ⟨report, m', s', ran, stands', rests', checked⟩ :=
    scenario.run_ok rests stands large room (by omega) narrow patient
  refine ⟨report, m', s', ran, stands', ?_, checked⟩
  rw [Nat.add_comm _ scenario.packets, Nat.add_comm _ scenario.bytes] at rests'
  exact rests'

theorem Course.rests (opened : d.Stands start s) (fresh : d.Rests 0 0 s)
    (staging : d.staging.size = d.config.stagingSize.toNat) (course : d.Course start done m)
    (narrow : (done.map Scenario.bytes).sum < UInt64.size) :
    ∃ s', d.Stands m s' ∧ d.RestsAfter done s' := by
  induction course with
  | opened => exact ⟨s, opened, fresh⟩
  | passes course passes ih =>
    obtain ⟨s₁, stands, rests⟩ := ih narrow
    exact rests.passed stands passes
  | @completed done m₁ m' scenario report policy seen course patient ran ih =>
    rw [List.map_cons, List.sum_cons, Nat.add_comm] at narrow
    obtain ⟨s₁, stands, rests⟩ := ih (by omega)
    by_cases small : d.staging.size < scenario.staging
    · cases ran.symm.trans (scenario.run_refused small policy seen m₁)
    · obtain ⟨report', m₂, s₂, ran', stands', rests', _⟩ :=
        RestsAfter.next room rests stands (Nat.not_lt.mp small) narrow patient
      cases ran.symm.trans ran'
      exact ⟨s₂, stands', rests'⟩
  | @refused done m₁ m' scenario failure policy seen course small ran ih =>
    obtain ⟨s₁, stands, rests⟩ := ih narrow
    cases ran.symm.trans (scenario.run_refused (staging.symm ▸ small) policy seen m₁)
    exact ⟨s₁, stands, rests⟩

end Next

end Device

end FabricQueue
