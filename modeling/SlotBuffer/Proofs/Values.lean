import SlotBuffer.Proofs.Conversion
import SlotBuffer.Script.Call

/-! The runtime of scripts that pass values is lawful. A truth value stands for zero or one, a
fraction for no integer at all, and a tuple is taken for a list. -/

namespace SlotBuffer.Script

variable {α β : Type}

/-! ### Binding -/

section Binding

variable {ps : List Parameter} {vs : List α} {named : List (String × α)} {ws : List (Option α)}

theorem bind_of_fills (h : Fills ps vs named ws) : bind ps vs named = .ok ws := by
  induction h with
  | nil => rfl
  | positional hp _ ih =>
    rw [bind, hp, ih]
    rfl
  | named hp _ ih =>
    simp only [bind, hp, ih]
    rfl
  | omitted hp hopt _ ih =>
    simp only [bind, hp, hopt, ih]
    rfl

/-- Arguments that are bound fill the parameters, and others are refused in one way. -/
theorem fills_or_bind_eq_error (ps : List Parameter) (vs : List α) (named : List (String × α)) :
    (∃ ws, Fills ps vs named ws) ∨ bind ps vs named = .error .badArguments := by
  induction ps generalizing vs named with
  | nil =>
    match vs, named with
    | [], [] => exact .inl ⟨[], .nil⟩
    | _ :: _, _ => exact .inr rfl
    | [], _ :: _ => exact .inr rfl
  | cons p ps ih =>
    match vs, hp : named.lookup p.name with
    | v :: vs, none =>
      rcases ih vs named with ⟨ws, h⟩ | h
      · exact .inl ⟨_, .positional hp h⟩
      · right
        rw [bind, hp, h]
        rfl
    | v :: vs, some w =>
      right
      rw [bind, hp]
      rfl
    | [], some v =>
      rcases ih [] (named.filter (·.1 ≠ p.name)) with ⟨ws, h⟩ | h
      · exact .inl ⟨_, .named hp h⟩
      · right
        simp only [bind, hp, h]
        rfl
    | [], none =>
      cases hopt : p.required with
      | true =>
        right
        simp only [bind, hp, hopt]
        rfl
      | false =>
        rcases ih [] named with ⟨ws, h⟩ | h
        · exact .inl ⟨_, .omitted hp hopt h⟩
        · right
          simp only [bind, hp, hopt, h]
          rfl

theorem bind_decided (ps : List Parameter) (vs : List α) (named : List (String × α)) :
    Decided (bind ps vs named) (Fills ps vs named) fun e =>
      e = .badArguments ∧ ∀ ws, ¬ Fills ps vs named ws := by
  apply Decided.of_else
  · intro ws
    exact bind_of_fills
  · intro hnone
    exact (fills_or_bind_eq_error ps vs named).resolve_left (not_exists.2 hnone)

theorem operand_decided (args : Arguments) :
    Decided (operand args) args.GivesUnnamed fun e =>
      e = .badArguments ∧ ∀ v, ¬ args.GivesUnnamed v := by
  obtain ⟨positional, named⟩ := args
  apply Decided.of_else
  · rintro v ⟨⟩
    rfl
  · intro h
    unfold operand
    split
    next v hpositional hnamed => exact absurd (congrArg₂ Arguments.mk hpositional hnamed) (h v)
    next => rfl

end Binding

/-! ### Lists of conversions -/

section Sequence

variable {f : α → Except Exception β} {Ok : α → β → Prop} {Err : α → Exception → Prop}
  {x : α} {xs : List α}

theorem mapM_cons_of_error {e : Exception} (hx : f x = .error e) :
    (x :: xs).mapM f = .error e := by
  rw [List.mapM_cons, hx]
  rfl

theorem mapM_cons_of_ok {y : β} (hx : f x = .ok y) :
    (x :: xs).mapM f = (xs.mapM f).map (y :: ·) := by
  rw [List.mapM_cons, hx]
  cases xs.mapM f <;> rfl

/-- Of the elements of a list, the first that cannot be converted decides. -/
theorem mapM_decided (hf : ∀ x, Decided (f x) (Ok x) (Err x)) (xs : List α) :
    Decided (xs.mapM f) (List.Forall₂ Ok xs) fun e =>
      ∃ good x rest, xs = good ++ x :: rest ∧ (∀ y ∈ good, ∃ z, Ok y z) ∧ Err x e := by
  apply Decided.of_cases
  · intro ys h
    induction h with
    | nil => rfl
    | cons hx _ ih =>
      rw [mapM_cons_of_ok (((hf _).ok_iff _).2 hx), ih]
      rfl
  · rintro e ⟨good, x, rest, rfl, hgood, hx⟩
    induction good with
    | nil => exact mapM_cons_of_error (((hf x).error_iff e).2 hx)
    | cons y good ih =>
      obtain ⟨⟨z, hy⟩, hgood⟩ := List.forall_mem_cons.1 hgood
      rw [List.cons_append, mapM_cons_of_ok (((hf y).ok_iff z).2 hy), ih hgood]
      rfl
  · induction xs with
    | nil => exact .inl ⟨[], .nil⟩
    | cons x xs ih =>
      rcases (hf x).cases with ⟨y, hx⟩ | ⟨e, hx⟩
      · rcases ih with ⟨ys, hys⟩ | ⟨e, good, z, rest, rfl, hgood, hz⟩
        · exact .inl ⟨y :: ys, .cons hx hys⟩
        · exact .inr ⟨e, x :: good, z, rest, rfl, List.forall_mem_cons.2 ⟨⟨y, hx⟩, hgood⟩, hz⟩
      · exact .inr ⟨e, [], x, xs, rfl, by simp, hx⟩

end Sequence

/-! ### Reading -/

section Reading

variable {Object : Type} [Reading Object]

/-- What is read off an object is what it is converted to. -/
theorem read_decided (read? : Option α) :
    Decided (match read? with
        | some a => .ok a
        | none => .error .badType)
      (fun a => read? = some a) fun e => e = .badType ∧ ∀ a, read? ≠ some a := by
  apply Decided.of_else
  · rintro a rfl
    rfl
  · intro hnone
    rw [Option.eq_none_iff_forall_ne_some.2 hnone]

/-- An integer that is read and within the bounds is converted. -/
theorem integer_decided (low high : Int) (v : Object) (convert : Int → α) :
    Decided (match Reading.integer? v with
        | some n => if low ≤ n ∧ n < high then .ok (convert n) else .error .intRange
        | none => .error .badType)
      (fun a => ∃ n, Reading.integer? v = some n ∧ (low ≤ n ∧ n < high) ∧ convert n = a)
      (NoInteger low high v) := by
  apply Decided.of_cases
  · rintro a ⟨n, h, hn, rfl⟩
    simp only [h, if_pos hn]
  · rintro e (h | ⟨h, hn⟩)
    · simp only [h]
    · simp only [h, ite_eq_right_iff, reduceCtorEq]
      omega
  · cases hv : Reading.integer? v with
    | none => exact .inr ⟨_, .type hv⟩
    | some n =>
      by_cases hn : low ≤ n ∧ n < high
      · exact .inl ⟨_, n, rfl, hn, rfl⟩
      · exact .inr ⟨_, .range hv (by omega)⟩

/-- A list that is read is converted element by element. -/
theorem elements_decided {toWord : Object → Except Exception UInt64}
    (hword : ∀ v, Decided (toWord v) (IsWord v) (NoWord v)) (v : Object) :
    Decided (match Reading.elements? v with
        | some xs => xs.mapM toWord
        | none => .error .badType)
      (IsWords v) (NoWords v) := by
  cases hxs : Reading.elements? v with
  | none =>
    apply Decided.of_cases
    · rintro ws ⟨xs, hys, _⟩
      rw [hxs] at hys
      cases hys
    · rintro e (_ | ⟨hys, _, _⟩)
      · rfl
      · rw [hxs] at hys
        cases hys
    · exact .inr ⟨_, .type hxs⟩
  | some xs =>
    have h := mapM_decided hword xs
    apply Decided.of_cases
    · rintro ws ⟨ys, hys, hws⟩
      obtain rfl : xs = ys := Option.some.inj (hxs.symm.trans hys)
      exact (h.ok_iff ws).2 hws
    · rintro e (hys | ⟨hys, hgood, hx⟩)
      · rw [hxs] at hys
        cases hys
      · obtain rfl := Option.some.inj (hxs.symm.trans hys)
        exact (h.error_iff e).2 ⟨_, _, _, rfl, hgood, hx⟩
    · rcases h.cases with ⟨ws, hws⟩ | ⟨e, good, x, rest, rfl, hgood, hx⟩
      · exact .inl ⟨ws, xs, hxs, hws⟩
      · exact .inr ⟨e, .element hxs hgood hx⟩

end Reading

/-! ### Values -/

namespace Value

/-- What a list or a tuple holds. -/
def elements? : Value → Option (List Value)
  | .list vs | .tuple vs => some vs
  | _ => none

def strategy? : Value → Option Strategy
  | .strategy s => some s
  | _ => none

def policy? : Value → Option Policy
  | .policy p => some p
  | _ => none

def isNull : Value → Bool
  | .null => true
  | _ => false

instance : Reading Value where
  integer? := int?
  elements? := elements?
  strategy? := strategy?
  policy? := policy?
  isNull := isNull

theorem toWord_decided (v : Value) : Decided v.toWord (IsWord v) (NoWord v) where
  ok_iff w := by
    refine ((integer_decided 0 UInt64.size v fun n => UInt64.ofNat n.toNat).ok_iff w).trans ?_
    constructor
    · rintro ⟨n, hv, hn, rfl⟩
      rw [IsWord, hv, UInt64.toNat_ofNat_of_lt' (by omega), Int.toNat_of_nonneg hn.1]
    · intro hv
      have hlt : (w.toNat : Int) < UInt64.size := by exact_mod_cast w.toNat_lt
      exact ⟨w.toNat, hv, ⟨Int.natCast_nonneg _, hlt⟩, by simp⟩
  error_iff := (integer_decided 0 UInt64.size v _).error_iff

theorem toIndex_decided (v : Value) : Decided v.toIndex (IsIndex v) (NoIndex v) where
  ok_iff i := by
    refine ((integer_decided _ _ v fun n => n).ok_iff i).trans ?_
    constructor
    · rintro ⟨n, hv, hn, rfl⟩
      exact ⟨hv, hn⟩
    · rintro ⟨hv, hn⟩
      exact ⟨i, hv, hn, rfl⟩
  error_iff := (integer_decided _ _ v _).error_iff

theorem toWords_decided (v : Value) : Decided v.toWords (IsWords v) (NoWords v) := by
  have h := elements_decided toWord_decided v
  cases v <;> exact h

theorem toStrategy_decided (v : Value) : Decided v.toStrategy (IsStrategy v) fun e =>
    e = .badType ∧ ∀ s, ¬ IsStrategy v s := by
  have h := read_decided v.strategy?
  cases v <;> exact h

theorem toPolicy_decided (v : Value) : Decided v.toPolicy (IsPolicy v) fun e =>
    e = .badType ∧ ∀ p, ¬ IsPolicy v p := by
  have h := read_decided v.policy?
  cases v <;> exact h

theorem lawful : Lawful Value where
  bind parameters args := bind_decided parameters args.positional args.named
  operand := operand_decided
  toWord := toWord_decided
  toWords := toWords_decided
  toIndex := toIndex_decided
  toStrategy := toStrategy_decided
  toPolicy := toPolicy_decided
  option convert v := by cases v <;> rfl
  null v h := by
    cases v with
    | null => exact ⟨rfl, rfl, rfl⟩
    | _ => cases h

end Value

end SlotBuffer.Script
