import FabricQueue.Proofs.Bytes
import FabricQueue.Queue.Slot

set_option autoImplicit false

namespace FabricQueue

section Steps

variable {ε σ α β : Type} {s s' : σ}

theorem bind_ok {x : EStateM ε σ α} {next : α → EStateM ε σ β} {a : α} (done : x s = .ok a s') :
    (x >>= next) s = next a s' := by
  simp [bind, EStateM.bind, done]

theorem bind_error {x : EStateM ε σ α} {next : α → EStateM ε σ β} {failure : ε}
    (failed : x s = .error failure s') : (x >>= next) s = .error failure s' := by
  simp [bind, EStateM.bind, failed]

theorem bind_cases {x : EStateM ε σ α} {next : α → EStateM ε σ β} {b : β}
    (done : (x >>= next) s = .ok b s') : ∃ a t, x s = .ok a t ∧ next a t = .ok b s' := by
  cases ran : x s with
  | ok a t => exact ⟨a, t, rfl, (bind_ok ran).symm.trans done⟩
  | error failure t => cases (bind_error ran).symm.trans done

theorem map_ok {x : EStateM ε σ α} {change : α → β} {a : α} (done : x s = .ok a s') :
    (change <$> x) s = .ok (change a) s' := by
  simp [Functor.map, EStateM.map, done]

theorem except_bind_iff {x : Except ε α} {next : α → Except ε β} {b : β} :
    (x >>= next) = .ok b ↔ ∃ a, x = .ok a ∧ next a = .ok b := by
  cases x <;> simp [bind, Except.bind]

theorem except_map_iff {x : Except ε α} {change : α → β} {b : β} :
    x.map change = .ok b ↔ ∃ a, x = .ok a ∧ change a = b := by
  cases x <;> simp [Except.map]

theorem except_mapM {f : α → Except ε β} {g : α → β} (list : List α)
    (each : ∀ a ∈ list, f a = .ok (g a)) : list.mapM f = .ok (list.map g) := by
  induction list with
  | nil => rfl
  | cons a rest ih =>
    rw [List.mapM_cons, each a List.mem_cons_self,
      ih fun b member => each b (List.mem_cons_of_mem _ member)]
    rfl

theorem guard_cases {refused : Prop} [Decidable refused] {failure : ε}
    {next : Unit → EStateM ε σ α} {a : α}
    (done : (if refused then throw failure >>= next else next ()) s = .ok a s') :
    ¬refused ∧ next () s = .ok a s' := by
  by_cases fails : refused
  · rw [if_pos fails] at done; cases done
  · rw [if_neg fails] at done; exact ⟨fails, done⟩

theorem lift_cases {x : Except Failure α} {a : α} (done : lift x s = .ok a s') :
    x = .ok a ∧ s' = s := by
  cases x with
  | ok b => cases done; exact ⟨rfl, rfl⟩
  | error failure => cases done

end Steps

theorem addWord_ok {a : UInt64} {n : Nat} (fits : a.toNat + n < UInt64.size) :
    addWord a n = .ok (UInt64.ofNat (a.toNat + n)) :=
  if_pos fits

theorem addWord_overflow {a : UInt64} {n : Nat} (wide : UInt64.size ≤ a.toNat + n) :
    addWord a n = .error (.overflow .addition) :=
  if_neg (Nat.not_lt.mpr wide)

namespace Region

-- Every byte of the region is a byte of the store: none lies behind the end of a mapped file.
def Backed (r : Region) (m : Memory) : Prop :=
  r.origin + r.size ≤ m.size

-- The stores agree outside the region.
structure Leaves (r : Region) (m m' : Memory) : Prop where
  size : m'.size = m.size
  outside : ∀ i, i < r.origin ∨ r.origin + r.size ≤ i → m'.get i = m.get i

theorem Leaves.refl (r : Region) (m : Memory) : r.Leaves m m :=
  ⟨rfl, fun _ _ => rfl⟩

theorem Leaves.trans {r : Region} {m m' m'' : Memory} (first : r.Leaves m m')
    (second : r.Leaves m' m'') : r.Leaves m m'' :=
  ⟨second.size.trans first.size,
    fun i apart => (second.outside i apart).trans (first.outside i apart)⟩

def footprint (r : Region) (capacity : Nat) : Region :=
  { r with size := Layout.regionSize capacity }

theorem Backed.of_leaves {r q : Region} {m m' : Memory} (backed : r.Backed m)
    (leaves : q.Leaves m m') : r.Backed m' := by
  rw [Backed, leaves.size]
  exact backed

@[irreducible]
def word (r : Region) (m : Memory) (offset : Nat) : UInt64 :=
  m.read64 (r.origin + offset)

@[irreducible]
def put (r : Region) (m : Memory) (offset : Nat) (w : UInt64) : Memory :=
  m.write64 (r.origin + offset) w

variable {r : Region} {m : Memory} {offset : Nat}

theorem locate_ok {len alignment : Nat} (inside : offset + len ≤ r.size)
    (aligned : (r.phase + offset) % alignment = 0) :
    r.locate offset len alignment = .ok (r.origin + offset) := by
  rw [locate, if_neg (by omega), if_neg (by omega)]

theorem read64_word (inside : offset + 8 ≤ r.size) (aligned : (r.phase + offset) % 8 = 0) :
    r.read64 offset m = .ok (r.word m offset) m := by
  simp [read64, access, locate_ok inside aligned, word]

theorem write64_word (w : UInt64) (inside : offset + 8 ≤ r.size)
    (aligned : (r.phase + offset) % 8 = 0) :
    r.write64 offset w m = .ok () (r.put m offset w) := by
  simp [write64, access, locate_ok inside aligned, put]

theorem fetchAdd_word (w : UInt64) (inside : offset + 8 ≤ r.size)
    (aligned : (r.phase + offset) % 8 = 0) :
    r.fetchAdd offset w m = .ok (r.word m offset) (r.put m offset (r.word m offset + w)) := by
  simp [fetchAdd, access, locate_ok inside aligned, put, word]

theorem word_put (w : UInt64) {other : Nat} (backed : r.origin + offset + 8 ≤ m.size)
    (grid : offset % 8 = 0) (otherGrid : other % 8 = 0) :
    r.word (r.put m offset w) other = if other = offset then w else r.word m other := by
  by_cases same : other = offset
  · subst same
    rw [if_pos rfl, word, put]
    exact ByteStore.read64_write64 m _ w backed
  · rw [if_neg same, word, word, put]
    exact ByteStore.read64_write64_apart m _ _ w (by omega)

theorem put_leaves (w : UInt64) {capacity : Nat}
    (inside : offset + 8 ≤ Layout.regionSize capacity) :
    (r.footprint capacity).Leaves m (r.put m offset w) := by
  rw [put]
  refine ⟨ByteStore.size_write64 _ _ _, fun i apart => ByteStore.get_write64_apart m _ i w ?_⟩
  simp only [footprint] at apart
  omega

end Region

end FabricQueue
