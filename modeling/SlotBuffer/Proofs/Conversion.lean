import Mathlib.Data.List.Forall2
import SlotBuffer.Script.Runtime

/-! What is assumed of a runtime. `Lawful` is stated by what can be read off an object, which is the
integer that it stands for, what it holds, a strategy, a policy, or nothing. A call takes its
arguments by position or by name, a word is an integer within the words, and of the elements of a
list the first that is no word decides. From this it follows for each kind of call which arguments
it takes, what they come to, and which exception stands in their way. -/

namespace SlotBuffer.Script

/-! ### Conversions -/

/-- `Ok` says when a conversion succeeds and with which value, and `Err` when it raises and what. -/
structure Decided {α : Type} (r : Except Exception α) (Ok : α → Prop) (Err : Exception → Prop) :
    Prop where
  ok_iff : ∀ a, r = .ok a ↔ Ok a
  error_iff : ∀ e, r = .error e ↔ Err e

variable {α β : Type} {r : Except Exception α} {Ok : α → Prop} {Err : Exception → Prop}

theorem exists_of_bind_eq_ok {f : α → Except Exception β} {b : β} (h : r >>= f = .ok b) :
    ∃ a, r = .ok a ∧ f a = .ok b := by
  cases r with
  | ok a => exact ⟨a, rfl, h⟩
  | error e => cases h

theorem error_or_exists_of_bind_eq_error {f : α → Except Exception β} {e : Exception}
    (h : r >>= f = .error e) : r = .error e ∨ ∃ a, r = .ok a ∧ f a = .error e := by
  cases r with
  | ok a => exact .inr ⟨a, rfl, h⟩
  | error e' =>
    cases h
    exact .inl rfl

/-- One of the two is the case, so that it is enough to know what follows from each. -/
theorem Decided.of_cases (hok : ∀ a, Ok a → r = .ok a) (herr : ∀ e, Err e → r = .error e)
    (h : (∃ a, Ok a) ∨ ∃ e, Err e) : Decided r Ok Err := by
  rcases h with ⟨a, ha⟩ | ⟨e, he⟩
  · have hr := hok a ha
    constructor
    · intro b
      refine ⟨fun hb => ?_, hok b⟩
      rw [hr] at hb
      cases hb
      exact ha
    · intro e
      refine ⟨fun he => ?_, herr e⟩
      rw [hr] at he
      cases he
  · have hr := herr e he
    constructor
    · intro a
      refine ⟨fun ha => ?_, hok a⟩
      rw [hr] at ha
      cases ha
    · intro e'
      refine ⟨fun he' => ?_, herr e'⟩
      rw [hr] at he'
      cases he'
      exact he

/-- Where there is one thing to raise and it is raised whenever no value is found. -/
theorem Decided.of_else {e₀ : Exception} (hok : ∀ a, Ok a → r = .ok a)
    (helse : (∀ a, ¬ Ok a) → r = .error e₀) : Decided r Ok fun e => e = e₀ ∧ ∀ a, ¬ Ok a := by
  apply Decided.of_cases hok
  · rintro e ⟨rfl, hnone⟩
    exact helse hnone
  · by_cases h : ∃ a, Ok a
    · exact .inl h
    · exact .inr ⟨e₀, rfl, not_exists.1 h⟩

theorem Decided.cases (h : Decided r Ok Err) : (∃ a, Ok a) ∨ ∃ e, Err e := by
  cases hr : r with
  | ok a => exact .inl ⟨a, (h.ok_iff a).1 hr⟩
  | error e => exact .inr ⟨e, (h.error_iff e).1 hr⟩

theorem Decided.bind {f : α → Except Exception β} {Ok' : α → β → Prop}
    {Err' : α → Exception → Prop} (h : Decided r Ok Err)
    (hf : ∀ a, Decided (f a) (Ok' a) (Err' a)) :
    Decided (r >>= f) (fun b => ∃ a, Ok a ∧ Ok' a b) fun e => Err e ∨ ∃ a, Ok a ∧ Err' a e := by
  apply Decided.of_cases
  · rintro b ⟨a, ha, hb⟩
    rw [(h.ok_iff a).2 ha]
    exact ((hf a).ok_iff b).2 hb
  · rintro e (he | ⟨a, ha, he⟩)
    · rw [(h.error_iff e).2 he]
      rfl
    · rw [(h.ok_iff a).2 ha]
      exact ((hf a).error_iff e).2 he
  · rcases h.cases with ⟨a, ha⟩ | ⟨e, he⟩
    · rcases (hf a).cases with ⟨b, hb⟩ | ⟨e, he⟩
      · exact .inl ⟨b, a, ha, hb⟩
      · exact .inr ⟨e, .inr ⟨a, ha, he⟩⟩
    · exact .inr ⟨e, .inl he⟩

theorem Decided.map (h : Decided r Ok Err) (f : α → β) :
    Decided (r >>= fun a => pure (f a)) (fun b => ∃ a, Ok a ∧ f a = b) Err := by
  apply Decided.of_cases
  · rintro b ⟨a, ha, rfl⟩
    rw [(h.ok_iff a).2 ha]
    rfl
  · intro e he
    rw [(h.error_iff e).2 he]
    rfl
  · exact h.cases.imp_left fun ⟨a, ha⟩ => ⟨f a, a, ha, rfl⟩

/-! ### Objects -/

/-- What can be read off the objects of a language. -/
class Reading (Object : Type) where
  /-- The integer that an object stands for. -/
  integer? : Object → Option Int
  /-- What a list holds, or another sequence that is taken for one. -/
  elements? : Object → Option (List Object)
  strategy? : Object → Option Strategy
  policy? : Object → Option Policy
  /-- The object stands for nothing. -/
  isNull : Object → Bool

section Objects

variable {Object : Type} [Reading Object]

/-- The object stands for no integer, or for one that is not within the bounds. -/
inductive NoInteger (low high : Int) (v : Object) : Exception → Prop
  | type (h : Reading.integer? v = none) : NoInteger low high v .badType
  | range {n : Int} (h : Reading.integer? v = some n) (hn : n < low ∨ high ≤ n) :
      NoInteger low high v .intRange

/-- The object stands for the word. -/
def IsWord (v : Object) (w : UInt64) : Prop := Reading.integer? v = some (w.toNat : Int)

def NoWord : Object → Exception → Prop := NoInteger 0 UInt64.size

/-- The object stands for the integer, and a signed word can hold it. -/
def IsIndex (v : Object) (i : Int) : Prop :=
  Reading.integer? v = some i ∧ -(UInt64.size / 2) ≤ i ∧ i < UInt64.size / 2

def NoIndex : Object → Exception → Prop := NoInteger (-(UInt64.size / 2)) (UInt64.size / 2)

/-- The object holds the words, in order. -/
def IsWords (v : Object) (ws : List UInt64) : Prop :=
  ∃ xs, Reading.elements? v = some xs ∧ List.Forall₂ IsWord xs ws

/-- The object is no list, or the first of its elements that is no word decides. -/
inductive NoWords (v : Object) : Exception → Prop
  | type (h : Reading.elements? v = none) : NoWords v .badType
  | element {good rest : List Object} {x : Object} {e : Exception}
      (h : Reading.elements? v = some (good ++ x :: rest)) (hgood : ∀ y ∈ good, ∃ w, IsWord y w)
      (hx : NoWord x e) : NoWords v e

def IsStrategy (v : Object) (s : Strategy) : Prop := Reading.strategy? v = some s

def IsPolicy (v : Object) (p : Policy) : Prop := Reading.policy? v = some p

end Objects

/-! ### Parameters -/

/-- The arguments fill the parameters, each by position or, after those, by name, and none is left
over. Only what is not required may be left out. -/
inductive Fills {α : Type} :
    List Parameter → List α → List (String × α) → List (Option α) → Prop
  | nil : Fills [] [] [] []
  | positional {p : Parameter} {ps : List Parameter} {v : α} {vs : List α}
      {named : List (String × α)} {ws : List (Option α)} (hp : named.lookup p.name = none)
      (h : Fills ps vs named ws) : Fills (p :: ps) (v :: vs) named (some v :: ws)
  | named {p : Parameter} {ps : List Parameter} {v : α} {named : List (String × α)}
      {ws : List (Option α)} (hp : named.lookup p.name = some v)
      (h : Fills ps [] (named.filter (·.1 ≠ p.name)) ws) :
      Fills (p :: ps) [] named (some v :: ws)
  | omitted {p : Parameter} {ps : List Parameter} {named : List (String × α)}
      {ws : List (Option α)} (hp : named.lookup p.name = none) (hopt : p.required = false)
      (h : Fills ps [] named ws) : Fills (p :: ps) [] named (none :: ws)

theorem fills_nil_iff {α : Type} {vs : List α} {named : List (String × α)}
    {ws : List (Option α)} : Fills [] vs named ws ↔ vs = [] ∧ named = [] ∧ ws = [] := by
  constructor
  · intro h
    cases h
    exact ⟨rfl, rfl, rfl⟩
  · rintro ⟨rfl, rfl, rfl⟩
    exact .nil

namespace Arguments

variable {Object : Type}

/-- The call has the argument `v`, by position or by name, and no other. -/
inductive Gives (name : String) : Arguments Object → Object → Prop
  | positional (v : Object) : Gives name ⟨[v], []⟩ v
  | named {named : List (String × Object)} {v : Object} (hv : named.lookup name = some v)
      (hnames : ∀ p ∈ named, p.1 = name) : Gives name ⟨[], named⟩ v

/-- The call has the argument `v`, by position, and no other. -/
def GivesUnnamed (args : Arguments Object) (v : Object) : Prop := args = ⟨[v], []⟩

def Empty (args : Arguments Object) : Prop := args = ⟨[], []⟩

theorem fills_one_iff {args : Arguments Object} {name : String} {ws : List (Option Object)} :
    Fills [⟨name, true⟩] args.positional args.named ws ↔
      ∃ v, args.Gives name v ∧ ws = [some v] := by
  obtain ⟨positional, named⟩ := args
  constructor
  · intro h
    cases h with
    | positional hp h =>
      obtain ⟨rfl, rfl, rfl⟩ := fills_nil_iff.1 h
      exact ⟨_, .positional _, rfl⟩
    | named hp h =>
      obtain ⟨-, hnames, rfl⟩ := fills_nil_iff.1 h
      exact ⟨_, .named hp (by simpa [List.filter_eq_nil_iff] using hnames), rfl⟩
    | omitted hp hopt => cases hopt
  · rintro ⟨v, h, rfl⟩
    cases h with
    | positional => exact .positional rfl .nil
    | named hv hnames =>
      refine .named hv (fills_nil_iff.2 ⟨rfl, ?_, rfl⟩)
      simpa [List.filter_eq_nil_iff] using hnames

theorem fills_none_iff {args : Arguments Object} {ws : List (Option Object)} :
    Fills [] args.positional args.named ws ↔ args.Empty ∧ ws = [] := by
  obtain ⟨positional, named⟩ := args
  rw [fills_nil_iff, Empty, Arguments.mk.injEq, and_assoc]

end Arguments

/-! ### Assumptions -/

/-- What is assumed of a runtime. Arguments that do not fit a call are refused before any of them is
converted, and a conversion either gives what the object stands for or raises. -/
structure Lawful (Object : Type) [Runtime Object] [Reading Object] : Prop where
  bind (parameters : List Parameter) (args : Arguments Object) :
    Decided (Runtime.bind parameters args) (Fills parameters args.positional args.named) fun e =>
      e = .badArguments ∧ ∀ vs, ¬ Fills parameters args.positional args.named vs
  operand (args : Arguments Object) :
    Decided (Runtime.operand args) args.GivesUnnamed fun e =>
      e = .badArguments ∧ ∀ v, ¬ args.GivesUnnamed v
  toWord (v : Object) : Decided (Runtime.toWord v) (IsWord v) (NoWord v)
  toWords (v : Object) : Decided (Runtime.toWords v) (IsWords v) (NoWords v)
  toIndex (v : Object) : Decided (Runtime.toIndex v) (IsIndex v) (NoIndex v)
  toStrategy (v : Object) : Decided (Runtime.toStrategy v) (IsStrategy v) fun e =>
    e = .badType ∧ ∀ s, ¬ IsStrategy v s
  toPolicy (v : Object) : Decided (Runtime.toPolicy v) (IsPolicy v) fun e =>
    e = .badType ∧ ∀ p, ¬ IsPolicy v p
  option {α : Type} (convert : Object → Except Exception α) (v : Object) :
    Runtime.option convert v = if Reading.isNull v then .ok none else (convert v).map some
  /-- What stands for nothing is neither an integer nor a list nor a policy. -/
  null (v : Object) (h : Reading.isNull v = true) : Reading.integer? v = none ∧
    Reading.elements? v = none ∧ Reading.policy? v = none

namespace Lawful

variable {Object : Type} [Runtime Object] [Reading Object]

theorem one_decided (laws : Lawful Object) (args : Arguments Object) (name : String) :
    Decided (args.one name) (args.Gives name) fun e =>
      e = .badArguments ∧ ∀ v, ¬ args.Gives name v := by
  have hbind := laws.bind [⟨name, true⟩] args
  apply Decided.of_else
  · intro v hv
    rw [Arguments.one, (hbind.ok_iff [some v]).2 (Arguments.fills_one_iff.2 ⟨v, hv, rfl⟩)]
    rfl
  · intro hnone
    have hmisfit : ∀ vs, ¬ Fills [⟨name, true⟩] args.positional args.named vs := by
      intro vs h
      obtain ⟨v, hv, -⟩ := Arguments.fills_one_iff.1 h
      exact hnone v hv
    rw [Arguments.one, (hbind.error_iff _).2 ⟨rfl, hmisfit⟩]
    rfl

theorem nothing_decided (laws : Lawful Object) (args : Arguments Object) :
    Decided args.nothing (fun _ => args.Empty) fun e => e = .badArguments ∧ ¬ args.Empty := by
  have h := (laws.bind [] args).map fun _ => ()
  constructor
  · intro u
    rw [Arguments.nothing, h.ok_iff]
    simp [Arguments.fills_none_iff]
  · intro e
    rw [Arguments.nothing, h.error_iff]
    simp [Arguments.fills_none_iff]

/-- A call that takes nothing and answers `a` whenever it is a call of that kind. -/
theorem nothing_then_decided (laws : Lawful Object) (args : Arguments Object) (a : α) :
    Decided (args.nothing >>= fun _ => pure a) (fun b => args.Empty ∧ a = b) fun e =>
      e = .badArguments ∧ ¬ args.Empty where
  ok_iff b := by
    rw [((laws.nothing_decided args).map fun _ => a).ok_iff, exists_const]
  error_iff := ((laws.nothing_decided args).map fun _ => a).error_iff

end Lawful

/-! ### Exceptions of conversions -/

/-- What a call raises whose arguments do not fit. -/
def Exception.OfArguments : Exception → Prop
  | .badArguments | .badType | .intRange => True
  | _ => False

theorem Exception.OfArguments.kind {e : Exception} (h : e.OfArguments) :
    e.kind = .type ∨ e.kind = .overflow := by
  cases e with
  | badArguments | badType => exact .inl rfl
  | intRange => exact .inr rfl
  | _ => cases h

variable {Object : Type}

section Objects

variable [Reading Object] {v : Object} {e : Exception}

theorem NoInteger.ofArguments {low high : Int} (h : NoInteger low high v e) : e.OfArguments := by
  cases h <;> trivial

theorem NoWords.ofArguments (h : NoWords v e) : e.OfArguments := by
  cases h with
  | type => trivial
  | element _ _ hx => exact NoInteger.ofArguments hx

end Objects

/-! ### One argument -/

/-- The one argument, as `Given` tells it, stands for `a`. -/
def Accepted (Given : Object → Prop) (Is : Object → α → Prop) (a : α) : Prop :=
  ∃ v, Given v ∧ Is v a

/-- There is no such argument, or it stands for nothing. -/
inductive Rejected (Given : Object → Prop) (No : Object → Exception → Prop) : Exception → Prop
  | call (h : ∀ v, ¬ Given v) : Rejected Given No .badArguments
  | value {v : Object} {e : Exception} (hv : Given v) (h : No v e) : Rejected Given No e

theorem Rejected.ofArguments {Given : Object → Prop} {No : Object → Exception → Prop}
    {e : Exception} (h : Rejected Given No e) (hno : ∀ {v e}, No v e → e.OfArguments) :
    e.OfArguments := by
  cases h with
  | call => trivial
  | value _ he => exact hno he

theorem Decided.convert {given : Except Exception Object} {convert : Object → Except Exception α}
    {Given : Object → Prop} {Is : Object → α → Prop} {No : Object → Exception → Prop}
    (h : Decided given Given fun e => e = .badArguments ∧ ∀ v, ¬ Given v)
    (hconvert : ∀ v, Decided (convert v) (Is v) (No v)) :
    Decided (given >>= convert) (Accepted Given Is) (Rejected Given No) where
  ok_iff := (h.bind hconvert).ok_iff
  error_iff e := by
    rw [(h.bind hconvert).error_iff]
    constructor
    · rintro (⟨rfl, hnone⟩ | ⟨v, hv, he⟩)
      · exact .call hnone
      · exact .value hv he
    · rintro (hnone | ⟨hv, he⟩)
      · exact .inl ⟨rfl, hnone⟩
      · exact .inr ⟨_, hv, he⟩

namespace Lawful

variable [Runtime Object] [Reading Object]

theorem word_decided (laws : Lawful Object) (args : Arguments Object) (name : String) :
    Decided (args.word name) (Accepted (args.Gives name) IsWord)
      (Rejected (args.Gives name) NoWord) :=
  (laws.one_decided args name).convert laws.toWord

theorem words_decided (laws : Lawful Object) (args : Arguments Object) (name : String) :
    Decided (args.words name) (Accepted (args.Gives name) IsWords)
      (Rejected (args.Gives name) NoWords) :=
  (laws.one_decided args name).convert laws.toWords

theorem operand_word_decided (laws : Lawful Object) (args : Arguments Object) :
    Decided (Runtime.operand args >>= Runtime.toWord) (Accepted args.GivesUnnamed IsWord)
      (Rejected args.GivesUnnamed NoWord) :=
  (laws.operand args).convert laws.toWord

theorem operand_index_decided (laws : Lawful Object) (args : Arguments Object) :
    Decided (Runtime.operand args >>= Runtime.toIndex) (Accepted args.GivesUnnamed IsIndex)
      (Rejected args.GivesUnnamed NoIndex) :=
  (laws.operand args).convert laws.toIndex

end Lawful

end SlotBuffer.Script
