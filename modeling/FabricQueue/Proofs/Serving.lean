import FabricQueue.Machine

set_option autoImplicit false

namespace FabricQueue

namespace Machine

variable {m m' : Machine} {order : Order}

inductive Passes : Nat → Bool → Machine → Machine → Prop where
  | none (m : Machine) : Passes 0 false m m
  | pass {count : Nat} {quiet : Bool} {order : Order} {m m' : Machine}
      (visits : ∀ fifos, (order fifos).Perm fifos) (later : Passes count quiet (m.pass order).2 m') :
      Passes (count + 1) (!(m.pass order).1 || quiet) m m'

def Serves (least : Nat) (m m' : Machine) : Prop :=
  ∃ count quiet, Passes count quiet m m' ∧ (quiet = true ∨ least ≤ count)

-- What a wait sees that is not broken off before so many passes.
inductive Patient (policy : WaitPolicy) : Nat → List (Tick Machine) → Prop where
  | enough (ticks : List (Tick Machine)) : Patient policy 0 ticks
  | tick {needed least : Nat} {tick : Tick Machine} {rest : List (Tick Machine)}
      (going : (policy.cancelled || tick.cancelled) = false)
      (early : policy.expired tick.elapsed = none)
      (serves : ∀ pause m, Serves least m (tick.evolve pause m))
      (later : Patient policy (needed - least) rest) : Patient policy needed (tick :: rest)

theorem Patient.fewer {policy : WaitPolicy} {needed less : Nat} {ticks : List (Tick Machine)}
    (patient : Patient policy needed ticks) (le : less ≤ needed) : Patient policy less ticks := by
  induction patient generalizing less with
  | enough ticks =>
    obtain rfl := Nat.le_zero.mp le
    exact .enough ticks
  | tick going early serves _ ih => exact .tick going early serves (ih (by omega))

theorem settleIn_passes (visits : ∀ fifos, (order fifos).Perm fifos) (rounds : Nat) (m : Machine) :
    ∃ count quiet, Passes count quiet m { m with
        fabrics := (settleIn order rounds m.fabrics m.memory).1
        memory := (settleIn order rounds m.fabrics m.memory).2 } ∧
      (quiet = true ∨ rounds ≤ count) := by
  induction rounds generalizing m with
  | zero => exact ⟨0, false, .none m, .inr (Nat.le_refl 0)⟩
  | succ rounds ih =>
    cases polled : pollFabrics order m.fabrics m.memory with
    | mk moved after =>
      obtain ⟨fabrics, memory⟩ := after
      have next : m.pass order = (moved, { m with fabrics, memory }) := by
        simp only [pass, polled]
      cases moved with
      | true =>
        obtain ⟨count, quiet, passes, enough⟩ := ih (m.pass order).2
        have step := Passes.pass visits passes
        rw [next] at step
        refine ⟨count + 1, quiet, ?_, enough.imp id Nat.succ_le_succ⟩
        simp only [settleIn, polled]
        exact step
      | false =>
        have step := Passes.pass visits (.none (m.pass order).2)
        rw [next] at step
        refine ⟨1, true, ?_, .inl rfl⟩
        simp only [settleIn, polled]
        exact step

theorem rounds_large (m : Machine) : UInt64.size ≤ m.rounds := by
  unfold rounds
  induction m.fabrics with
  | nil => exact Nat.le_refl _
  | cons entry rest ih => exact Nat.le_trans ih (Nat.le_add_left _ _)

theorem settle_serves (visits : ∀ fifos, (order fifos).Perm fifos) {least : Nat}
    (bound : least ≤ UInt64.size) (m : Machine) : Serves least m (m.settle order) := by
  obtain ⟨count, quiet, passes, enough⟩ := settleIn_passes visits m.rounds m
  have large := m.rounds_large
  exact ⟨count, quiet, passes, enough.imp id fun many => by omega⟩

theorem seen_patient (visits : ∀ fifos, (order fifos).Perm fifos) {policy : WaitPolicy} {needed : Nat}
    (bound : needed ≤ UInt64.size) (going : policy.cancelled = false)
    (early : policy.expired 0 = none) : Patient policy needed (seen order policy) := by
  refine @Patient.tick policy needed needed _ _ ?_ early (fun _ m => settle_serves visits bound m) ?_
  · rw [going]
    rfl
  · rw [Nat.sub_self]
    exact .enough _

end Machine

end FabricQueue
