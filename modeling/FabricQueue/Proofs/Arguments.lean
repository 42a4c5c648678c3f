import FabricQueue.CommandLine.Invocation
import FabricQueue.Proofs.Access
import Mathlib.Data.List.Basic
import Mathlib.Tactic.SplitIfs

set_option autoImplicit false

namespace FabricQueue.CommandLine

/-- The name in an argument that spells an option, and the value attached to it. -/
def spelled? (token : String) : Option (List Char × Option (List Char)) :=
  match token.toList with
  | '-' :: '-' :: c :: body => some (Grammar.splitFlag (c :: body))
  | _ => none

/-- The options that arguments spell, as names and values. -/
def options : List String → List (List Char × String)
  | [] => []
  | token :: rest =>
    match spelled? token with
    | some (name, some value) => (name, String.ofList value) :: options rest
    | some (name, none) =>
      match rest with
      | value :: rest => (name, value) :: options rest
      | [] => []
    | none => options rest

/-- The values of the options with a name, in order. -/
def valuesOf (name : String) (given : List (List Char × String)) : List String :=
  (given.filter (·.1 = name.toList)).map (·.2)

example : valuesOf "dim" (options ["--dim", "2:64", "--col=3", "--dim=4:128"]) =
    ["2:64", "4:128"] := by rfl

theorem Flag.set_ok {S : Type} {f : Flag S} {value : String} {s s' : S}
    (set : f.set value s = .ok s') : f.taken s = false ∧ f.store value s = .ok s' := by
  rw [Flag.set] at set
  split_ifs at set with taken
  exact ⟨by simpa using taken, set⟩

section Values

variable {name : String} {name' : List Char} {value : String} {given : List (List Char × String)}

theorem valuesOf_own :
    valuesOf name ((name.toList, value) :: given) = value :: valuesOf name given := by
  simp [valuesOf]

theorem valuesOf_other (differs : name' ≠ name.toList) :
    valuesOf name ((name', value) :: given) = valuesOf name given := by
  simp [valuesOf, differs]

end Values

namespace Grammar

variable {S : Type} {g : Grammar S} {used : Nat} {s s' s₁ s₂ : S}

inductive Stores (g : Grammar S) : S → List (List Char × String) → S → Prop where
  | nil {s : S} : g.Stores s [] s
  | cons {s s₁ s' : S} {f : Flag S} {name : List Char} {value : String}
      {rest : List (List Char × String)} (known : g.flag? name = some f)
      (set : f.set value s = .ok s₁) (stores : g.Stores s₁ rest s') :
      g.Stores s ((name, value) :: rest) s'

inductive Taken (g : Grammar S) (used : Nat) (s s' : S) :
    Pending S → String → List String → Prop where
  | value {f : Flag S} {token : String} {rest : List String}
      (taken : g.take used s (.flag f (some token)) rest = .ok s') :
      g.Taken used s s' (.flag f none) token rest
  | joined {pending : Pending S} {token : String} {rest : List String} {name value : List Char}
      {f : Flag S} {s₁ s₂ : S} (spelled : spelled? token = some (name, some value))
      (known : g.flag? name = some f) (resolved : g.resolve s pending = .ok s₁)
      (set : f.set (String.ofList value) s₁ = .ok s₂)
      (taken : g.take used s₂ .nothing rest = .ok s') : g.Taken used s s' pending token rest
  | named {pending : Pending S} {token : String} {rest : List String} {name : List Char}
      {f : Flag S} {s₁ : S} (spelled : spelled? token = some (name, none))
      (known : g.flag? name = some f) (resolved : g.resolve s pending = .ok s₁)
      (taken : g.take used s₁ (.flag f none) rest = .ok s') : g.Taken used s s' pending token rest
  | closing {pending : Pending S} {token : String} (spelled : spelled? token = none)
      (resolved : g.resolve s pending = .ok s') : g.Taken used s s' pending token []

theorem word_refused (wordless : g.words = 0) (token : String) (pending : Pending S) :
    g.word used token s pending = .error (.unexpected token) := by
  have full : g.words ≤ used := by omega
  cases pending <;> simp [word, full] <;> rfl

theorem takeWords_wordless (wordless : g.words = 0) {pending : Pending S} {rest : List String}
    (taken : g.takeWords used s pending rest = .ok s') :
    rest = [] ∧ g.resolve s pending = .ok s' := by
  cases rest with
  | nil => exact ⟨rfl, taken⟩
  | cons token rest =>
    rw [takeWords, word_refused wordless] at taken
    cases taken

theorem help_fails {pending : Pending S} (helped : g.help s pending = .ok s') : False := by
  obtain ⟨_, _, fails⟩ := except_bind_iff.mp helped
  cases fails

theorem take_cons (wordless : g.words = 0) {pending : Pending S} {token : String}
    {rest : List String} (taken : g.take used s pending (token :: rest) = .ok s') :
    g.Taken used s s' pending token rest := by
  unfold take at taken
  split at taken
  next dashes =>
    obtain ⟨rfl, resolved⟩ := takeWords_wordless wordless taken
    exact .closing (by simp [spelled?, dashes]) resolved
  next body other dashes =>
    have spelled : spelled? token = some (splitFlag body) := by
      cases body with
      | nil => exact absurd rfl other
      | cons c body => simp [spelled?, dashes]
    generalize splitFlag body = option at spelled taken
    obtain ⟨name, value⟩ := option
    simp only at taken
    split at taken
    · split_ifs at taken
      cases value with
      | some value => cases taken
      | none => exact (help_fails taken).elim
    next f known =>
      obtain ⟨s₁, resolved, taken⟩ := except_bind_iff.mp taken
      cases value with
      | some value =>
        obtain ⟨s₂, set, taken⟩ := except_bind_iff.mp taken
        exact .joined spelled known resolved set taken
      | none => exact .named spelled known resolved taken
  · exact (help_fails taken).elim
  · cases taken
  · split at taken
    next f => exact .value taken
    · rw [word_refused wordless] at taken
      cases taken

def Owes (g : Grammar S) (s : S) (pending : Pending S) (rest : List String) (s' : S) : Prop :=
  match pending with
  | .flag f none =>
    ∃ value more s₁, rest = value :: more ∧ f.set value s = .ok s₁ ∧ g.Stores s₁ (options more) s'
  | pending => ∃ s₁, g.resolve s pending = .ok s₁ ∧ g.Stores s₁ (options rest) s'

theorem Owes.resolved {pending : Pending S} {rest : List String}
    (resolved : g.resolve s pending = .ok s₁) (stores : g.Stores s₁ (options rest) s') :
    g.Owes s pending rest s' := by
  unfold Owes
  split
  · cases resolved
  · exact ⟨s₁, resolved, stores⟩

theorem take_owes (wordless : g.words = 0) {pending : Pending S} {rest : List String}
    (taken : g.take used s pending rest = .ok s') : g.Owes s pending rest s' := by
  induction rest generalizing s pending with
  | nil =>
    unfold take at taken
    exact .resolved taken .nil
  | cons token rest ih =>
    cases take_cons wordless taken with
    | value taken =>
      obtain ⟨s₁, set, stores⟩ := ih taken
      exact ⟨token, rest, s₁, rfl, set, stores⟩
    | joined spelled known resolved set taken =>
      obtain ⟨_, ⟨⟩, stores⟩ := ih taken
      apply Owes.resolved resolved
      simp only [options, spelled]
      exact .cons known set stores
    | named spelled known resolved taken =>
      obtain ⟨value, more, s₂, rfl, set, stores⟩ := ih taken
      apply Owes.resolved resolved
      simp only [options, spelled]
      exact .cons known set stores
    | closing spelled resolved =>
      apply Owes.resolved resolved
      simp only [options, spelled]
      exact .nil

theorem parse_stores (wordless : g.words = 0) {arguments : List String}
    (parsed : g.parse s arguments = .ok s') : g.Stores s (options arguments) s' := by
  obtain ⟨_, ⟨⟩, stores⟩ := take_owes wordless parsed
  exact stores

/-- An argument that starts no flag. -/
def Plain (token : String) : Prop :=
  token.toList.head? ≠ some '-'

theorem take_plain {token : String} (plain : Plain token) {pending : Pending S}
    (full : ∀ f, pending ≠ .flag f none) (rest : List String) :
    g.take used s pending (token :: rest) =
      (g.word used token s pending >>= fun next => g.take (used + 1) next.1 next.2 rest) := by
  have other {body : List Char} (dashes : token.toList = '-' :: body) : False := by
    simp [Plain, dashes] at plain
  conv_lhs => unfold take
  split
  next dashes => exact (other dashes).elim
  next dashes => exact (other dashes).elim
  next dashes => exact (other dashes).elim
  next dashes => exact (other dashes).elim
  · split
    next f => exact absurd rfl (full f)
    · rfl

theorem take_words {tokens values : List String} (room : used + tokens.length ≤ g.words)
    (plain : ∀ token ∈ tokens, Plain token) :
    g.take used s (.words values) tokens = g.storeWords (values ++ tokens) s := by
  induction tokens generalizing used values with
  | nil => rw [take, resolve, List.append_nil]
  | cons token rest ih =>
    rw [List.length_cons] at room
    have space : ¬g.words ≤ used := by omega
    have next : g.word used token s (.words values) = .ok (s, .words (values ++ [token])) := by
      simp [word, space]
    rw [take_plain (plain token List.mem_cons_self) (by simp), next]
    change g.take (used + 1) s (.words (values ++ [token])) rest = _
    rw [ih (by omega) fun token member => plain token (List.mem_cons_of_mem _ member),
      List.append_assoc, List.singleton_append]

theorem parse_words {token : String} {rest : List String} (room : rest.length < g.words)
    (plain : ∀ word ∈ token :: rest, Plain word) :
    g.parse s (token :: rest) = g.storeWords (token :: rest) s := by
  have space : ¬g.words ≤ 0 := by omega
  have next : g.word 0 token s .nothing = .ok (s, .words [token]) := by
    simp [word, space, resolve, bind, Except.bind, pure, Except.pure]
  rw [parse, take_plain (plain token List.mem_cons_self) (by simp), next]
  change g.take 1 s (.words [token]) rest = _
  exact take_words (by omega) fun word member => plain word (List.mem_cons_of_mem _ member)

end Grammar

/-- What the values of an option come to: the one value that is there, or the default. -/
inductive Given {α : Type} (Reads : String → α → Prop) : Option α → List String → α → Prop where
  | once {default : Option α} {text : String} {a : α} (reads : Reads text a) :
      Given Reads default [text] a
  | absent {a : α} : Given Reads (some a) [] a

inductive Kept {α : Type} (Reads : String → α → Prop) : List String → Option α → Prop where
  | once {text : String} {a : α} (reads : Reads text a) : Kept Reads [text] (some a)
  | absent : Kept Reads [] none

theorem Kept.given {α : Type} {Reads : String → α → Prop} {texts : List String} {a : α}
    (kept : Kept Reads texts (some a)) (default : Option α) : Given Reads default texts a := by
  cases kept with
  | once reads => exact .once reads

theorem Kept.default {α : Type} {Reads : String → α → Prop} {texts : List String} {o : Option α}
    (kept : Kept Reads texts o) (a : α) : Given Reads (some a) texts (o.getD a) := by
  cases kept with
  | once reads => exact .once reads
  | absent => exact .absent

namespace Grammar

variable {S α : Type} {g : Grammar S} {s s' : S}

structure Keeps (g : Grammar S) (name : String) (get : S → Option α)
    (Reads : String → α → Prop) : Prop where
  own {f : Flag S} (known : g.flag? name.toList = some f) {value : String} {s s' : S}
    (set : f.set value s = .ok s') : get s = none ∧ ∃ a, Reads value a ∧ get s' = some a
  other {f : Flag S} (known : f ∈ g.flags) (differs : f.name ≠ name) {value : String} {s s' : S}
    (set : f.set value s = .ok s') : get s' = get s

theorem flag?_own {name : String} {f : Flag S} (known : g.flag? name.toList = some f) :
    f ∈ g.flags ∧ f.name = name := by
  have spelled : f.name.toList = name.toList := by simpa using List.find?_some known
  exact ⟨List.mem_of_find?_eq_some known, String.toList_inj.mp spelled⟩

theorem flag?_other {name : String} {name' : List Char} {f : Flag S}
    (known : g.flag? name' = some f) (differs : name' ≠ name.toList) :
    f ∈ g.flags ∧ f.name ≠ name := by
  refine ⟨List.mem_of_find?_eq_some known, ?_⟩
  rintro rfl
  have spelled : f.name.toList = name' := by simpa using List.find?_some known
  exact differs spelled.symm

theorem Stores.kept {name : String} {get : S → Option α} {Reads : String → α → Prop}
    (keeps : g.Keeps name get Reads) {given : List (List Char × String)}
    (stores : g.Stores s given s') :
    (get s = none → Kept Reads (valuesOf name given) (get s')) ∧
      (get s ≠ none → valuesOf name given = [] ∧ get s' = get s) := by
  induction stores with
  | nil =>
    refine ⟨fun fresh => ?_, fun _ => ⟨rfl, rfl⟩⟩
    rw [fresh]
    exact .absent
  | @cons s s₁ s' f name' value rest known set _ ih =>
    by_cases same : name' = name.toList
    · subst same
      obtain ⟨fresh, a, reads, kept⟩ := keeps.own known set
      obtain ⟨nothing, last⟩ := ih.2 (by rw [kept]; simp)
      refine ⟨fun _ => ?_, fun taken => absurd fresh taken⟩
      rw [valuesOf_own, nothing, last, kept]
      exact .once reads
    · obtain ⟨member, differs⟩ := flag?_other known same
      rw [valuesOf_other same, ← keeps.other member differs set]
      exact ih

structure Collects (g : Grammar S) (name : String) (get : S → List α)
    (Reads : String → α → Prop) : Prop where
  own {f : Flag S} (known : g.flag? name.toList = some f) {value : String} {s s' : S}
    (set : f.set value s = .ok s') : ∃ a, Reads value a ∧ get s' = get s ++ [a]
  other {f : Flag S} (known : f ∈ g.flags) (differs : f.name ≠ name) {value : String} {s s' : S}
    (set : f.set value s = .ok s') : get s' = get s

theorem Stores.collected {name : String} {get : S → List α} {Reads : String → α → Prop}
    (collects : g.Collects name get Reads) {given : List (List Char × String)}
    (stores : g.Stores s given s') :
    ∃ all, List.Forall₂ Reads (valuesOf name given) all ∧ get s' = get s ++ all := by
  induction stores with
  | nil => exact ⟨[], .nil, (List.append_nil _).symm⟩
  | @cons s s₁ s' f name' value rest known set _ ih =>
    obtain ⟨all, reads, collected⟩ := ih
    by_cases same : name' = name.toList
    · subst same
      obtain ⟨a, read, added⟩ := collects.own known set
      rw [valuesOf_own, collected, added, List.append_assoc, List.singleton_append]
      exact ⟨a :: all, .cons read reads, rfl⟩
    · obtain ⟨member, differs⟩ := flag?_other known same
      rw [valuesOf_other same, collected, collects.other member differs set]
      exact ⟨all, reads, rfl⟩

theorem Keeps.single {name label : String} {read : String → String → Except UsageError α}
    {get : S → Option α} {set : S → α → S} {Reads : String → α → Prop}
    (first : g.flag? name.toList = some (CommandLine.single name label read get set))
    (reads : ∀ {argument value : String} {a : α}, read argument value = .ok a → Reads value a)
    (gets : ∀ s a, get (set s a) = some a)
    (others : ∀ f ∈ g.flags, f.name ≠ name →
      ∀ value s s', f.store value s = .ok s' → get s' = get s) : g.Keeps name get Reads where
  own := by
    intro f known value s s' set
    cases first.symm.trans known
    obtain ⟨taken, stored⟩ := Flag.set_ok set
    obtain ⟨a, known, rfl⟩ := except_map_iff.mp stored
    exact ⟨by simpa [CommandLine.single] using taken, a, reads known, gets s a⟩
  other := by
    intro f member differs value s s' set
    exact others f member differs value s s' (Flag.set_ok set).2

end Grammar

end FabricQueue.CommandLine
