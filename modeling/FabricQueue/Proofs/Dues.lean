import FabricQueue.Proofs.Settling
import Mathlib.Algebra.BigOperators.Group.List.Basic

set_option autoImplicit false

namespace FabricQueue

theorem Moves.sum_of_le (moves : Moves) {indices : List UInt64} (distinct : indices.Nodup) :
    (indices.map moves.of).sum ≤ moves.total := by
  induction moves with
  | nil =>
    have none : indices.map (of []) = indices.map fun _ => 0 := rfl
    simp [none]
  | cons move moves ih =>
    have single : (indices.map fun index => if move.1 = index then move.2 else 0).sum ≤ move.2 := by
      clear ih
      induction indices with
      | nil => exact Nat.zero_le _
      | cons index indices ih =>
        obtain ⟨alone, rest⟩ := List.nodup_cons.mp distinct
        rw [List.map_cons, List.sum_cons]
        by_cases here : move.1 = index
        · have others : (indices.map fun other => if move.1 = other then move.2 else 0) =
              indices.map fun _ => 0 :=
            List.map_congr_left fun other member => if_neg fun same => alone (by rwa [← here, same])
          rw [others, if_pos here]
          simp
        · rw [if_neg here, Nat.zero_add]
          exact ih rest
    have split : (indices.map (of (move :: moves))).sum =
        (indices.map fun index => if move.1 = index then move.2 else 0).sum +
          (indices.map (of moves)).sum :=
      List.sum_map_add
    change _ ≤ move.2 + total moves
    omega

namespace Admitted

structure Listed (packets : List Admitted) (written : Nat → Option Record) (first limit : Nat) :
    Prop where
  numbered : packets.Pairwise (·.1 < ·.1)
  bounds : ∀ packet ∈ packets, first ≤ packet.1.toNat ∧ packet.1.toNat < limit
  known : ∀ packet ∈ packets, commandAt written packet.1.toNat = some (.transfer packet.2)

variable {packets packets' : List Admitted} {written written' : Nat → Option Record}
  {first middle limit : Nat}

theorem Listed.nil : Listed [] written first limit :=
  ⟨.nil, nofun, nofun⟩

theorem Listed.append (listed : Listed packets written first middle)
    (listed' : Listed packets' written middle limit) (low : first ≤ middle) (high : middle ≤ limit) :
    Listed (packets ++ packets') written first limit := by
  refine ⟨List.pairwise_append.mpr ⟨listed.numbered, listed'.numbered, ?_⟩, ?_, ?_⟩
  · intro packet member other member'
    have before := listed.bounds packet member
    have behind := listed'.bounds other member'
    rw [UInt64.lt_iff_toNat_lt]
    omega
  · intro packet member
    rcases List.mem_append.mp member with old | new
    · have bounds := listed.bounds packet old
      omega
    · have bounds := listed'.bounds packet new
      omega
  · intro packet member
    rcases List.mem_append.mp member with old | new
    · exact listed.known packet old
    · exact listed'.known packet new

theorem Listed.congr (listed : Listed packets written first limit)
    (same : ∀ j < limit, written' j = written j) : Listed packets written' first limit :=
  ⟨listed.numbered, listed.bounds, fun packet member =>
    (commandAt_congr (same _ (listed.bounds packet member).2)).trans (listed.known packet member)⟩

theorem bytes_filter (packets : List Admitted) (keeps : Admitted → Bool) :
    bytes packets = bytes (packets.filter keeps) + bytes (packets.filter (!keeps ·)) := by
  have parts := (List.filter_append_perm keeps packets).map (·.2.totalBytes)
  rw [← bytes_append, bytes, bytes, parts.sum_nat]

end Admitted

namespace Plant

open Admitted (Listed)

variable {p : Plant} {q : Queue} {first limit : Nat} {moved : Moves} {l : Log}
  {packets : List Admitted}

theorem Serves.bytes_le (serves : p.Serves q first moved l)
    (listed : Listed packets l.written first limit) :
    Admitted.bytes packets ≤ p.fabric.status.bytesMoved +
      Admitted.bytes (packets.filter (l.retired ≤ ·.1.toNat)) := by
  let gone := packets.filter fun packet => !decide (l.retired ≤ packet.1.toNat)
  have paid : gone.map (·.2.totalBytes) = (gone.map (·.1)).map moved.of := by
    rw [List.map_map]
    apply List.map_congr_left
    intro packet member
    obtain ⟨among, early⟩ := List.mem_filter.mp member
    have executed := serves.executed packet.1 (listed.bounds packet among).1 (by simpa using early)
    rw [Function.comp_apply, executed.paid, dueAt, listed.known packet among]
  have distinct : (gone.map (·.1)).Nodup :=
    (List.pairwise_map.mpr (listed.numbered.filter _)).imp fun less => UInt64.ne_of_lt less
  have moves := moved.sum_of_le distinct
  rw [← paid, ← serves.bytes] at moves
  rw [Admitted.bytes_filter packets (l.retired ≤ ·.1.toNat), Nat.add_comm]
  exact Nat.add_le_add_right moves _

theorem arrivals_listed (count : Nat) (shows : q.Shows p.memory l)
    (port : p.fabric.consumer = q.port) (behind : l.retired ≤ p.fabric.nextFetch.toNat)
    (room : p.fabric.nextFetch.toNat + count ≤ l.published) :
    Listed (arrivals count p) l.written p.fabric.nextFetch.toNat
      (p.fabric.nextFetch.toNat + count) := by
  induction count generalizing p with
  | zero => exact .nil
  | succ count ih =>
    have word := shows.sound.published_word
    have below : p.fabric.nextFetch.toNat < l.published := by omega
    obtain ⟨written, known⟩ := Option.isSome_iff_exists.mp (shows.sound.covered _ below)
    have found := onMemory_ok (fetch_found shows port behind below known)
    have next : (p.fabric.nextFetch + 1).toNat = p.fabric.nextFetch.toNat + 1 :=
      toNat_succ (by omega)
    have later := ih (p := ⟨{ p.fabric with nextFetch := p.fabric.nextFetch + 1 }, p.memory⟩)
      shows port (by simp only [next]; omega) (by simp only [next]; omega)
    simp only [next, Nat.add_assoc, Nat.add_comm 1 count] at later
    rw [arrivals, found]
    have single : Listed ((p.fabric.admits written.activated).toList.map (p.fabric.nextFetch, ·))
        l.written p.fabric.nextFetch.toNat (p.fabric.nextFetch.toNat + 1) := by
      cases admits : p.fabric.admits written.activated with
      | none => exact .nil
      | some t =>
        refine ⟨List.pairwise_singleton _ _, fun packet member => ?_, fun packet member => ?_⟩
        · rw [List.mem_singleton.mp member]
          exact ⟨Nat.le_refl _, Nat.lt_succ_self _⟩
        · rw [List.mem_singleton.mp member]
          have decoded := (Fabric.admits_cases admits).1
          rw [Command.decode_activated] at decoded
          simp only [commandAt, known, Option.bind_some, decoded]
          rfl
    exact single.append later (by omega) (by omega)

theorem Serves.passArrivals_listed (serves : p.Serves q first moved l) :
    Listed (passArrivals p) l.written p.fabric.nextFetch.toNat l.published := by
  have bound := serves.published
  have listed := arrivals_listed (l.published - p.fabric.nextFetch.toNat) serves.shows serves.port
    serves.behind (by omega)
  rw [Nat.add_sub_cancel' bound] at listed
  rwa [serves.passArrivals_eq]

theorem Serves.pass_ok {order : Order} {some : Bool} {p' : Plant} (serves : p.Serves q first moved l)
    (visits : ∀ fifos, (order fifos).Perm fifos) (ran : pass order p = .ok some p') :
    p'.fabric.nextFetch.toNat = l.published ∧
      ∃ moved' n, p'.Serves q first moved' { l with retired := n } := by
  have kept := pass_carries (.nothing order) visits serves trivial
  rw [ran] at kept
  obtain ⟨⟨n, _, after, _⟩, _, all⟩ := kept
  exact ⟨all, _, n, after⟩

end Plant

namespace Site

open Admitted (Listed)

variable {start s s' : Site} {admitted arrived : List Admitted} {touches new : Touches}
  {first : Nat}

-- A fabric that runs and admitted packets of the log.
def Lists (s : Site) (first : Nat) (admitted : List Admitted) : Prop :=
  ∃ moved l, s.plant.Serves s.queue first moved l ∧
    Listed admitted l.written first s.plant.fabric.nextFetch.toNat

theorem Shift.lists (shift : Shift s arrived new s') (running : s'.plant.fabric.running = true)
    (lists : s.Lists first admitted) : s'.Lists first (admitted ++ arrived) := by
  obtain ⟨moved, l, serves, listed⟩ := lists
  cases shift with
  | produce a =>
    rw [List.append_nil]
    exact ⟨moved, _, (produce_serves serves a).1, listed.congr fun j below =>
      (Log.perform_step _ _).settled (Nat.lt_of_lt_of_le below serves.published)⟩
  | configure change =>
    rw [List.append_nil]
    exact ⟨moved, l, serves.retiled _, listed⟩
  | store outside =>
    rw [List.append_nil]
    exact ⟨moved, l, { serves with shows := serves.shows.of_bytes outside.size outside.kept }, listed⟩
  | poll order visits =>
    cases ran : s.plant.pass order with
    | error failure p =>
      simp only [Site.poll, Plant.poll, serves.running, ran, if_true] at running
      cases running
    | ok some p =>
      obtain ⟨fetched, moved', n, after⟩ := serves.pass_ok visits ran
      rw [poll_done serves.running ran]
      refine ⟨moved', _, after, ?_⟩
      rw [fetched]
      exact listed.append serves.passArrivals_listed
        (Nat.le_trans serves.started serves.behind) serves.published

theorem Shift.running (shift : Shift s arrived new s') (running : s'.plant.fabric.running = true) :
    s.plant.fabric.running = true := by
  cases shift with
  | produce a => exact running
  | configure change => exact running
  | store outside => exact running
  | poll order visits =>
    by_contra stopped
    have still : s.poll order = s := by
      simp only [Site.poll, Plant.poll, if_neg stopped]
    exact stopped (still ▸ running)

theorem Life.lists (life : Life start arrived new s) (running : s.plant.fabric.running = true)
    (lists : start.Lists first admitted) : s.Lists first (admitted ++ arrived) := by
  induction life with
  | start => rwa [List.append_nil]
  | next _ shift ih =>
    rw [← List.append_assoc]
    exact shift.lists running (ih (shift.running running))

-- The packets that are published and not retired.
def pending (s : Site) (admitted : List Admitted) : List Admitted :=
  (admitted ++ s.plant.passArrivals).filter (s.ring.read ≤ ·.1.toNat)

theorem Lists.bytes_le (lists : s.Lists first admitted) :
    Admitted.bytes (admitted ++ s.plant.passArrivals) ≤
      s.status.bytesMoved + Admitted.bytes (s.pending admitted) := by
  obtain ⟨moved, l, serves, listed⟩ := lists
  have read : s.ring.read = l.retired := serves.shows.readIndex
  rw [pending, read]
  exact serves.bytes_le (listed.append serves.passArrivals_listed
    (Nat.le_trans serves.started serves.behind) serves.published)

end Site

end FabricQueue
