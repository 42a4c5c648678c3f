import FabricQueue.Proofs.Endurance
import FabricQueue.Proofs.Places

set_option autoImplicit false

namespace FabricQueue

theorem Region.locate_eq {r : Region} {offset len alignment start : Nat}
    (located : r.locate offset len alignment = .ok start) : start = r.origin + offset := by
  unfold locate at located
  split_ifs at located with outside misaligned
  · cases address : r.physAddr offset <;> rw [address] at located <;> cases located
  · exact (Except.ok.inj located).symm

theorem Region.Leaves.symm {r : Region} {m m' : Memory} (leaves : r.Leaves m m') : r.Leaves m' m :=
  ⟨leaves.size.symm, fun i apart => (leaves.outside i apart).symm⟩

namespace Site

variable {q : Queue} {m m' m'' : Memory}

theorem Outside.refl (q : Queue) (m : Memory) : Outside q m m :=
  ⟨rfl, fun _ _ _ => rfl⟩

theorem Outside.symm (outside : Outside q m m') : Outside q m' m :=
  ⟨outside.size.symm, fun i low high => (outside.kept i low high).symm⟩

theorem Outside.trans (first : Outside q m m') (second : Outside q m' m'') : Outside q m m'' :=
  ⟨second.size.trans first.size,
    fun i low high => (second.kept i low high).trans (first.kept i low high)⟩

theorem Outside.ext (outside : Outside q m m') (leaves : q.footprint.Leaves m m') : m' = m := by
  have bytes (i : Nat) : m'.get i = m.get i := by
    by_cases inside : q.region.origin ≤ i ∧ i < q.region.origin + Layout.regionSize q.capacity
    · exact outside.kept i inside.1 inside.2
    · refine leaves.outside i ?_
      change i < q.region.origin ∨ q.region.origin + Layout.regionSize q.capacity ≤ i
      omega
  have size : m'.bytes.data.size = m.bytes.data.size := outside.size
  have data : m'.bytes.data = m.bytes.data := by
    refine Array.ext size fun i below below' => ?_
    have same := bytes i
    rwa [ByteStore.get_eq, ByteStore.get_eq, Array.getElem?_eq_getElem below,
      Array.getElem?_eq_getElem below'] at same
  exact congrArg (fun data => (⟨⟨data⟩⟩ : ByteStore)) data

end Site

namespace Queue

open Site (Outside)

def Confines {α : Type} (q : Queue) (x : Access α) : Prop :=
  ∀ m m' a m₁, Outside q m m' → x m = .ok a m₁ → ∃ m₁', x m' = .ok a m₁' ∧ Outside q m₁ m₁'

namespace Confines

variable {α β : Type} {q : Queue}

theorem bind {x : Access α} {next : α → Access β} (first : q.Confines x)
    (rest : ∀ a, q.Confines (next a)) : q.Confines (x >>= next) := by
  intro m m' b m₂ outside done
  obtain ⟨a, m₁, ran, ended⟩ := bind_cases done
  obtain ⟨m₁', ran', outside₁⟩ := first m m' a m₁ outside ran
  obtain ⟨m₂', ended', outside₂⟩ := rest a m₁ m₁' b m₂ outside₁ ended
  exact ⟨m₂', (bind_ok ran').trans ended', outside₂⟩

theorem pure (a : α) : q.Confines (Pure.pure a : Access α) := by
  intro m m' a' m₁ outside done
  cases done
  exact ⟨m', rfl, outside⟩

theorem throw (failure : Failure) : q.Confines (MonadExcept.throw failure : Access α) :=
  fun _ _ _ _ _ done => nomatch done

theorem lifted (x : Except Failure α) : q.Confines (lift x : Access α) := by
  cases x with
  | ok a => exact pure a
  | error failure => exact throw failure

theorem access {offset : Nat} (inside : offset + 8 ≤ Layout.regionSize q.capacity)
    {use : Nat → Memory → α × Memory}
    (local_ : ∀ start m m', q.region.origin ≤ start →
      start + 8 ≤ q.region.origin + Layout.regionSize q.capacity → Outside q m m' →
      (use start m').1 = (use start m).1 ∧ Outside q (use start m).2 (use start m').2) :
    q.Confines (q.region.access offset 8 8 use) := by
  intro m m' a m₁ outside done
  unfold Region.access at done ⊢
  cases located : q.region.locate offset 8 8 with
  | error failure => rw [located] at done; cases done
  | ok start =>
    rw [located] at done
    cases done
    have same := Region.locate_eq located
    obtain ⟨value, outside'⟩ := local_ start m m' (by omega) (by omega) outside
    exact ⟨_, congrArg (fun a => EStateM.Result.ok a _) value, outside'⟩

section Words

variable {offset : Nat} (inside : offset + 8 ≤ Layout.regionSize q.capacity)

include inside

theorem read64 : q.Confines (q.region.read64 offset) :=
  access inside fun start m m' low high outside => ⟨ByteStore.read64_congr _ _ _
    fun i above below => outside.kept i (by omega) (by omega), outside⟩

theorem write64 (w : UInt64) : q.Confines (q.region.write64 offset w) := by
  refine access inside fun start m m' low high outside => ⟨rfl, ?_, fun i above below => ?_⟩
  · rw [ByteStore.size_write64, ByteStore.size_write64, outside.size]
  · rw [ByteStore.write64, ByteStore.write64, ByteStore.write_eq_scatter,
      ByteStore.write_eq_scatter]
    exact ByteStore.get_scatter_congr outside.size (outside.kept i above below) _ _

end Words

theorem retire (some : 0 < q.capacity) (index : UInt64) : q.Confines (q.port.retire index) := by
  have slot : q.port.slot index < q.capacity := Nat.mod_lt _ some
  have first := Layout.slot_within slot (by decide : 0 < 8)
  have last := Layout.slot_within slot (by decide : 7 < 8)
  have header (capacity : Nat) : Layout.readIndexAt + 8 ≤ Layout.regionSize capacity :=
    Layout.header_within capacity (by decide)
  have rest : q.Confines (do
      q.region.setHeader (q.port.slot index) Header.pending
      q.region.setSignal (q.port.slot index) signalDone
      let next ← lift (addWord index 1)
      q.region.write64 Layout.readIndexAt next) :=
    ((read64 first).bind fun _ => write64 first _).bind fun _ => (write64 last _).bind fun _ =>
      (lifted _).bind fun _ => write64 (header _) _
  unfold Consumer.retire
  refine (read64 (header _)).bind fun readIndex => ?_
  split
  · exact (throw _).bind fun _ => rest
  · exact rest

end Confines

def settled (q : Queue) (m : Memory) (first : Nat) : (count : Nat) → Memory
  | 0 => m
  | count + 1 =>
    match q.port.retire (UInt64.ofNat (first + count)) (q.settled m first count) with
    | .ok _ m' => m'
    | .error _ m' => m'

end Queue

namespace Plant

open Site (Outside)

structure Retires (p : Plant) (q : Queue) (m : Memory) (start count : Nat) (more : Nat) (p' : Plant) :
    Prop where
  fabric : ∃ rest, p'.fabric = { p.fabric with
    status := { p.fabric.status with retired := p.fabric.status.retired + more }
    inFlight := rest }
  settled : Outside q (q.settled m start (count + more)) p'.memory
  leaves : q.footprint.Leaves p.memory p'.memory

variable {p : Plant} {q : Queue} {first : Nat} {moved : Moves} {l : Log} {m : Memory}
  {start count : Nat}

theorem Retires.refl (outside : Outside q (q.settled m start count) p.memory) :
    p.Retires q m start count 0 p :=
  ⟨⟨p.fabric.inFlight, rfl⟩, outside, .refl _ _⟩

theorem retireFront_settles (flight : List InFlight) (serves : p.Serves q first moved l)
    (same : p.fabric.inFlight = flight) (outside : Outside q (q.settled m start count) p.memory)
    (number : l.retired = start + count) :
    ∃ some p' more, retireFront flight p = .ok some p' ∧ p.Retires q m start count more p' := by
  induction flight generalizing p l count with
  | nil => exact ⟨false, p, 0, rfl, .refl outside⟩
  | cons e rest ih =>
    obtain ⟨index, progress⟩ := e
    cases progress with
    | running => exact ⟨false, p, 0, rfl, .refl outside⟩
    | faulted => exact ⟨false, p, 0, rfl, .refl outside⟩
    | done =>
      obtain ⟨current, behind, _⟩ := serves.front same
      have published := serves.published
      obtain ⟨memory, done, shows, leaves⟩ := serves.shows.retire_ok current (by omega)
      obtain ⟨memory', done', outside'⟩ := Queue.Confines.retire serves.shows.capacity_pos index
        p.memory (q.settled m start count) () memory outside.symm done
      rw [← serves.port] at done
      have settled : q.settled m start (count + 1) = memory' := by
        rw [Queue.settled, ← number, ← current, UInt64.ofNat_toNat, done']
      obtain ⟨some, p', more, ran, ⟨left, fabric⟩, further, leaves'⟩ :=
        ih (serves.retired same shows) rfl (settled ▸ outside'.symm) (by simp only [number]; omega)
      refine ⟨true, p', 1 + more, ?_, ⟨left, ?_⟩, ?_, leaves.trans leaves'⟩
      · exact retireFront_done done ran
      · rw [fabric, ← Nat.add_assoc]
      · rwa [← Nat.add_assoc]

end Plant

end FabricQueue
