import FabricQueue.Dispatch
import FabricQueue.Proofs.Access

set_option autoImplicit false

namespace FabricQueue

variable {σ α β : Type} {P : σ → Prop}

def Ends (P : σ → Prop) (Q : α → σ → Prop) : EStateM.Result Failure σ α → Prop
  | .ok a s => P s ∧ Q a s
  | .error _ s => P s

def Leads (P : σ → Prop) (Q : α → σ → Prop) (x : EStateM Failure σ α) : Prop :=
  ∀ s, P s → Ends P Q (x s)

theorem leads_bind {Q : α → σ → Prop} {R : β → σ → Prop} {x : EStateM Failure σ α}
    {next : α → EStateM Failure σ β} (first : Leads P Q x)
    (rest : ∀ a s, P s → Q a s → Ends P R (next a s)) : Leads P R (x >>= next) := by
  intro s holds
  have after := first s holds
  cases run : x s with
  | ok a s' =>
    rw [run] at after
    rw [bind_ok run]
    exact rest a s' after.1 after.2
  | error failure s' =>
    rw [run] at after
    rw [bind_error run]
    exact after

theorem Leads.mono {Q R : α → σ → Prop} {x : EStateM Failure σ α} (leads : Leads P Q x)
    (weaker : ∀ a s, Q a s → R a s) : Leads P R x := by
  intro s holds
  have after := leads s holds
  cases run : x s with
  | ok a s' => rw [run] at after; exact ⟨after.1, weaker a s' after.2⟩
  | error failure s' => rw [run] at after; exact after

namespace WaitPolicy

variable {condition : EStateM Failure σ Bool} {ticks : List (Tick σ)}

theorem go_again (p : WaitPolicy) {tick : Tick σ} {rest : List (Tick σ)} {s s' : σ}
    (polls backoff : Nat) (poll : condition s = .ok false s') :
    pollUntil.go p condition polls backoff (tick :: rest) s =
      if p.cancelled || tick.cancelled then .error (.error .cancelled) s'
      else match p.expired tick.elapsed with
        | some cause => .error (.error cause) s'
        | none => pollUntil.go p condition (polls + 1) (p.nextBackoff polls backoff) rest
            (tick.evolve (p.pause polls backoff) s') := by
  change (condition >>= _) s = _
  rw [bind_ok poll]
  cases p.cancelled || tick.cancelled with
  | true => rfl
  | false => cases p.expired tick.elapsed <;> rfl

theorem go_done (p : WaitPolicy) {s s' : σ} (polls backoff : Nat)
    (poll : condition s = .ok true s') :
    pollUntil.go p condition polls backoff ticks s = .ok polls s' := by
  cases ticks with
  | nil => change (condition >>= _) s = _; rw [bind_ok poll]; rfl
  | cons tick rest => change (condition >>= _) s = _; rw [bind_ok poll]; rfl

theorem go_failed (p : WaitPolicy) {s s' : σ} {failure : Failure} (polls backoff : Nat)
    (poll : condition s = .error failure s') :
    pollUntil.go p condition polls backoff ticks s = .error failure s' := by
  cases ticks with
  | nil => change (condition >>= _) s = _; rw [bind_error poll]
  | cons tick rest => change (condition >>= _) s = _; rw [bind_error poll]

theorem go_gives_up (p : WaitPolicy) {s s' : σ} (polls backoff : Nat)
    (poll : condition s = .ok false s') :
    pollUntil.go p condition polls backoff [] s = .error .stillWaiting s' := by
  change (condition >>= _) s = _
  rw [bind_ok poll]
  rfl

theorem go_poll (p : WaitPolicy) {Q : σ → Prop} {s : σ}
    (asks : Leads P (fun held s => held = true → Q s) condition) (polls backoff : Nat) (holds : P s)
    (goesOn : ∀ s', condition s = .ok false s' → P s' →
      Ends P (fun _ s => Q s) (pollUntil.go p condition polls backoff ticks s)) :
    Ends P (fun _ s => Q s) (pollUntil.go p condition polls backoff ticks s) := by
  have after := asks s holds
  cases poll : condition s with
  | error failure s' =>
    rw [poll] at after
    rw [go_failed p polls backoff poll]
    exact after
  | ok held s' =>
    rw [poll] at after
    cases held with
    | true => rw [go_done p polls backoff poll]; exact ⟨after.1, after.2 rfl⟩
    | false => exact goesOn s' poll after.1

theorem go_leads (p : WaitPolicy) {Q : σ → Prop}
    (asks : Leads P (fun held s => held = true → Q s) condition)
    (evolves : ∀ tick ∈ ticks, ∀ pause s, P s → P (tick.evolve pause s)) (polls backoff : Nat) :
    Leads P (fun _ s => Q s) (pollUntil.go p condition polls backoff ticks) := by
  -- The state after a poll that did not end the wait is the start of the rest of it.
  induction ticks generalizing polls backoff with
  | nil =>
    intro s holds
    apply p.go_poll asks polls backoff holds
    intro s' poll after
    rw [go_gives_up p polls backoff poll]
    exact after
  | cons tick rest ih =>
    intro s holds
    apply p.go_poll asks polls backoff holds
    intro s' poll after
    have next := evolves tick List.mem_cons_self (p.pause polls backoff) s' after
    have later := ih (fun tick member => evolves tick (List.mem_cons_of_mem _ member))
      (polls + 1) (p.nextBackoff polls backoff) _ next
    rw [go_again p polls backoff poll]
    cases p.cancelled || tick.cancelled with
    | true => exact after
    | false =>
      cases p.expired tick.elapsed with
      | some cause => exact after
      | none => exact later

inductive GivesUp (p : WaitPolicy) : Failure → Prop where
  | cancelled : GivesUp p (.error .cancelled)
  | expired {timeout : Nat} (deadline : p.timeout = some timeout) :
      GivesUp p (.error (.timeout (milliseconds timeout)))
  | unobserved : GivesUp p .stillWaiting

theorem expired_givesUp {p : WaitPolicy} {elapsed : Nat} {cause : Error}
    (late : p.expired elapsed = some cause) : p.GivesUp (.error cause) := by
  unfold expired at late
  split at late
  next timeout deadline =>
    split at late
    · cases late
      exact .expired deadline
    · cases late
  · cases late

theorem go_concludes (p : WaitPolicy) {Q : σ → Prop} {s : σ}
    (asks : ∀ s, P s → ∃ held s', condition s = .ok held s' ∧ P s' ∧ (held = true → Q s'))
    (evolves : ∀ tick ∈ ticks, ∀ pause s, P s → P (tick.evolve pause s)) (polls backoff : Nat)
    (holds : P s) :
    (∃ count s', pollUntil.go p condition polls backoff ticks s = .ok count s' ∧ P s' ∧ Q s') ∨
      ∃ failure s', pollUntil.go p condition polls backoff ticks s = .error failure s' ∧ P s' ∧
        p.GivesUp failure := by
  induction ticks generalizing s polls backoff with
  | nil =>
    obtain ⟨held, s', poll, after, known⟩ := asks s holds
    cases held with
    | true => exact .inl ⟨polls, s', p.go_done polls backoff poll, after, known rfl⟩
    | false => exact .inr ⟨_, s', p.go_gives_up polls backoff poll, after, .unobserved⟩
  | cons tick rest ih =>
    obtain ⟨held, s', poll, after, known⟩ := asks s holds
    cases held with
    | true => exact .inl ⟨polls, s', p.go_done polls backoff poll, after, known rfl⟩
    | false =>
      rw [go_again p polls backoff poll]
      cases p.cancelled || tick.cancelled with
      | true => exact .inr ⟨_, s', rfl, after, .cancelled⟩
      | false =>
        cases late : p.expired tick.elapsed with
        | some cause => exact .inr ⟨_, s', rfl, after, expired_givesUp late⟩
        | none =>
          exact ih (fun tick member => evolves tick (List.mem_cons_of_mem _ member)) _ _
            (evolves tick List.mem_cons_self _ s' after)

end WaitPolicy

namespace QueueHandle

variable {h : QueueHandle σ} {seen : Observation σ}

theorem wait_leads {Q : σ → Prop} (packet : PacketRef) (policy : WaitPolicy)
    (asks : Leads P (fun held s => held = true → Q s) (h.ask fun q => q.isComplete packet.index))
    (evolves : ∀ tick ∈ seen policy, ∀ pause s, P s → P (tick.evolve pause s)) :
    Leads P (fun _ s => Q s) (h.wait packet policy seen) :=
  leads_bind (policy.go_leads asks evolves 1 1000) fun _ _ holds complete => ⟨holds, complete⟩

theorem dispatchAndWait_leads {Q : σ → Prop} (index : UInt64) (packet : PacketRef)
    (policy : WaitPolicy) (dispatches : Leads P (fun _ _ => True) (h.dispatch index))
    (asks : Leads P (fun held s => held = true → Q s) (h.ask fun q => q.isComplete packet.index))
    (evolves : ∀ tick ∈ seen policy, ∀ pause s, P s → P (tick.evolve pause s)) :
    Leads P (fun _ s => Q s) (h.dispatchAndWait index packet policy seen) := by
  apply leads_bind dispatches
  intro _ s holds _
  refine leads_bind asks (fun held s holds complete => ?_) s holds
  cases held with
  | true => exact ⟨holds, complete rfl⟩
  | false => exact wait_leads packet policy asks evolves s holds

theorem unwritten_leads (index : UInt64) {work : EStateM Failure σ Unit}
    (keeps : Leads P (fun _ _ => True) work) :
    Leads P (fun _ _ => True) (enqueue.unwritten index work) := by
  intro s holds
  have after := keeps s holds
  cases run : work s with
  | ok a s' =>
    rw [run] at after
    simp only [enqueue.unwritten, run]
    exact after
  | error failure s' =>
    rw [run] at after
    cases failure <;> simp only [enqueue.unwritten, run] <;> exact after

theorem enqueue_leads {command : Command} (policy : WaitPolicy)
    (index : Leads P (fun _ _ => True) (h.ask fun q => q.writeIndex))
    (room : ∀ i, Leads P (fun _ _ => True) (h.ask fun q => q.hasRoom i))
    (next : Leads P (fun _ _ => True) (h.ask fun q => do q.hasRoom (← q.writeIndex)))
    (reserves : Leads P (fun _ _ => True) (h.ask fun q => q.reserve 1))
    (writes : ∀ i, Leads P (fun _ _ => True) (h.use fun q => q.writePacket i command))
    (evolves : ∀ tick ∈ seen policy, ∀ pause s, P s → P (tick.evolve pause s)) :
    Leads P (fun _ _ => True) (h.enqueue command policy seen) := by
  have polls (condition : EStateM Failure σ Bool) (asks : Leads P (fun _ _ => True) condition) :
      Leads P (fun _ _ => True) (policy.pollUntil condition (seen policy)) :=
    policy.go_leads (asks.mono fun _ _ _ _ => trivial) evolves 1 1000
  have write (i : UInt64) : Leads P (fun _ _ => True) (do
      if !(← h.ask fun q => q.hasRoom i) then
        enqueue.unwritten i do
          let _ ← policy.pollUntil (h.ask fun q => q.hasRoom i) (seen policy)
      h.use fun q => q.writePacket i command) := by
    apply leads_bind (room i)
    intro free s holds _
    cases free with
    | true => exact writes i s holds
    | false =>
      have waits : Leads P (fun _ _ => True) (do
          let _ ← policy.pollUntil (h.ask fun q => q.hasRoom i) (seen policy)) :=
        leads_bind (polls _ (room i)) fun _ _ holds _ => ⟨holds, trivial⟩
      exact leads_bind (unwritten_leads i waits) (fun _ s holds _ => writes i s holds) s holds
  apply leads_bind index
  intro first s holds _
  refine leads_bind (room first) (fun free s holds _ => ?_) s holds
  have rest := leads_bind reserves fun i s holds _ => write i s holds
  cases free with
  | true => exact rest s holds
  | false => exact leads_bind (polls _ next) (fun _ s holds _ => rest s holds) s holds

end QueueHandle

end FabricQueue
