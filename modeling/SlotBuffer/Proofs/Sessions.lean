import SlotBuffer.Proofs.Calls
import SlotBuffer.Proofs.FailureConditions
import SlotBuffer.Proofs.Values

/-! Sessions of a script with a buffer. Only the four methods that may need more slots can fail once
their arguments are converted, and they fail with the causes that asking for room has. However long
a session has been, its next step either has the result and effect of the operation that it stands
for, or raises without having touched the buffer. All of this is so for every lawful runtime,
whatever objects its scripts pass. -/

namespace SlotBuffer.Script

variable {Object : Type} {memory : Memory} {b : Buffer} {s : Step Object}
  {args : Arguments Object} {op : Buffer.Op} {takes : Signature} {gives : Form} {e : Exception}

/-! ### Failures -/

section Failures

variable [Reading Object]

theorem Declares.failure {name : String} {cause : Failure} {c d : Contents}
    (h : Declares name takes gives) (hargs : takes.Reads args op)
    (hrule : Contents.Step memory c op (.error cause) d) :
    name ∈ ["append", "extend", "reserve", "set_insert"] ∧
      ((∃ len n, cause = .lengthOverflow len n) ∨ cause.OfGrowth) := by
  have hroom {n : Nat} (room : Contents.Room memory c n (.error cause)) :
      (∃ len n, cause = .lengthOverflow len n) ∨ cause.OfGrowth :=
    (Contents.room_error_iff.1 room).lengthOverflow_or_ofGrowth
  -- an operation fails by the rules of room or by that of committing, and no method commits
  cases h with
  | append =>
    obtain ⟨w, -, rfl⟩ := hargs
    cases hrule with
    | push_error room => exact ⟨by simp, hroom room⟩
  | extend =>
    obtain ⟨ws, -, rfl⟩ := hargs
    cases hrule with
    | append_error _ room => exact ⟨by simp, hroom room⟩
  | reserve =>
    obtain ⟨w, -, rfl⟩ := hargs
    cases hrule with
    | reserve_error room => exact ⟨by simp, hroom room⟩
  | setInsert =>
    obtain ⟨w, -, rfl⟩ := hargs
    cases hrule with
    | insert_error _ room => exact ⟨by simp, hroom room⟩
  | find | removeUnordered | removeFirstMatch | moveToEnd | moveToFront | contains =>
    obtain ⟨w, -, rfl⟩ := hargs
    cases hrule
  | destroy | clear | toList | len | repr =>
    obtain ⟨-, rfl⟩ := hargs
    cases hrule

theorem Step.Means.failure {cause : Failure} (h : s.Means b args op gives)
    (hop : (b.step memory op).result = .error cause) :
    (∃ name terms, s = .call name terms ∧ name ∈ ["append", "extend", "reserve", "set_insert"]) ∧
      ((∃ len n, cause = .lengthOverflow len n) ∨ cause.OfGrowth) := by
  cases h with
  | declared h hargs =>
    cases h with
    | method h =>
      have hrule := b.rule_step memory op
      rw [hop] at hrule
      obtain ⟨hname, hcause⟩ := h.failure hargs hrule
      exact ⟨⟨_, _, rfl, hname⟩, hcause⟩
    | query h =>
      cases h with
      | len | truth | text | read | capacity =>
        obtain ⟨-, rfl⟩ := hargs
        cases hop
      | contains =>
        obtain ⟨w, -, rfl⟩ := hargs
        cases hop
  | item => cases hop

variable [Runtime Object]

/-- Apart from arguments that do not fit, a step raises before the operation where there is nothing
to call, or where an index speaks of no position. -/
theorem Step.Raises.cause (h : s.Raises b args e) :
    e = .noMethod ∨ e = .notCallable ∨ e.OfArguments ∨
      ∃ i, s.Subscripts ∧ e = .badIndex i ∧ Accepted args.GivesUnnamed IsIndex i ∧
        (i < -b.len ∨ (b.len : Int) ≤ i) := by
  cases h with
  | noMethod => exact .inl rfl
  | notCallable => exact .inr (.inl rfl)
  | rejected _ hargs => exact .inr (.inr (.inl hargs.ofArguments))
  | noIndex _ he => exact .inr (.inr (.inl (he.ofArguments NoInteger.ofArguments)))
  | readBackwards => exact .inr (.inr (.inl trivial))
  | outOfRange h hi hrange => exact .inr (.inr (.inr ⟨_, h, rfl, hi, hrange⟩))

end Failures

/-! ### Sessions -/

variable [Runtime Object] (memory)

/-- The buffer that a session leaves. -/
def after (b : Buffer) (steps : List (Step Object)) : Buffer :=
  steps.foldl (fun b s => (step memory b s).buffer) b

theorem answers_append_singleton (b : Buffer) (steps : List (Step Object)) (s : Step Object) :
    answers memory b (steps ++ [s]) =
      answers memory b steps ++ [step memory (after memory b steps) s] := by
  induction steps generalizing b with
  | nil => rfl
  | cons t steps ih => exact congrArg (step memory b t :: ·) (ih _)

/-- Whether or not its arguments can be made, a step that does not carry an operation out leaves
the buffer alone. -/
theorem step_cases (b : Buffer) (s : Step Object) :
    (∃ op f, step memory b s = operate memory b op f) ∨ ∃ r, step memory b s = ⟨r, b⟩ := by
  cases s with
  | call name terms =>
    simp only [step]
    cases resolve name terms with
    | error e => exact .inr ⟨_, rfl⟩
    | ok resolved =>
      obtain ⟨member, args⟩ := resolved
      cases member with
      | method m =>
        simp only [Member.call, call]
        cases m.operation args with
        | error e => exact .inr ⟨_, rfl⟩
        | ok op => exact .inl ⟨op, _, rfl⟩
      | special | property | inherited => exact .inr ⟨_, rfl⟩
  | ask query terms => exact .inr ⟨_, rfl⟩

theorem buffer_step_of_error (h : (step memory b s).result = .error e) :
    (step memory b s).buffer = b := by
  rcases step_cases memory b s with ⟨op, f, hstep⟩ | ⟨r, hstep⟩
  · cases hop : (b.step memory op).result with
    | ok reply =>
      rw [hstep, operate_of_ok hop] at h
      cases h
    | error cause => rw [hstep, operate_of_error hop]
  · rw [hstep]

theorem reachable_step (h : b.Reachable memory) (s : Step Object) :
    (step memory b s).buffer.Reachable memory := by
  rcases step_cases memory b s with ⟨op, f, hstep⟩ | ⟨r, hstep⟩
  · rw [hstep]
    exact h.next op
  · rwa [hstep]

/-- Every step keeps the buffer or carries out an operation, so a session reaches nothing that
commands do not reach. -/
theorem reachable_after (h : b.Reachable memory) (steps : List (Step Object)) :
    (after memory b steps).Reachable memory := by
  induction steps generalizing b with
  | nil => exact h
  | cons s steps ih => exact ih (reachable_step memory h s)

/-- A constructor appends to an empty buffer. -/
theorem reachable_newBuffer (h : newBuffer memory args = .ok b) : b.Reachable memory := by
  obtain ⟨_, -, h⟩ := exists_of_bind_eq_ok h
  obtain ⟨values, -, h⟩ := exists_of_bind_eq_ok h
  obtain ⟨policy, -, h⟩ := exists_of_bind_eq_ok h
  obtain ⟨_, -, rfl⟩ := exists_of_orRaise_map_eq_ok h
  exact (Buffer.reachable_empty memory (policy.getD {})).next (.append (values.getD []))

/-! ### Refinement -/

variable [Reading Object]

/-- The answer to a step with these arguments is that of the operation for which the step stands, in
the form that is declared, or the exception that stands in its way. Only methods that are not of the
class are answered otherwise, and those leave the buffer alone. -/
structure Refines (b : Buffer) (args : Arguments Object) (s : Step Object) (answer : Answer) :
    Prop where
  exhaustive : ((∃ op gives, s.Means b args op gives) ∨ ∃ e, s.Raises b args e) ∨
    ∃ f, s.Inherits f
  of_ok : ∀ op gives reply, s.Means b args op gives → (b.step memory op).result = .ok reply →
    ∃ v, (∀ w, Receives gives reply w ↔ w = v) ∧ answer = ⟨.ok v, (b.step memory op).state⟩
  of_error : ∀ op gives cause, s.Means b args op gives →
    (b.step memory op).result = .error cause → answer = ⟨.error (.failure cause), b⟩
  of_raises : ∀ e, s.Raises b args e → answer = ⟨.error e, b⟩
  of_inherits : ∀ f, s.Inherits f → answer = ⟨f b args, b⟩
  /-- A failure of the operation keeps its text, and only asking for room can fail. -/
  failure : ∀ op gives cause, s.Means b args op gives →
    (b.step memory op).result = .error cause →
    (∃ name terms, s = .call name terms ∧ name ∈ ["append", "extend", "reserve", "set_insert"]) ∧
    (Exception.failure cause).message? = some cause.message ∧
    ((∃ len n, cause = .lengthOverflow len n) ∧ (Exception.failure cause).kind = .overflow ∨
      cause.OfGrowth ∧ (Exception.failure cause).kind = .memory)
  index : ∀ e, answer.result = .error e → (∃ f, s.Inherits f) ∨
    (e.kind = .index ↔ ∃ i, s.Subscripts ∧ e = .badIndex i ∧
      Accepted args.GivesUnnamed IsIndex i ∧ (i < -b.len ∨ (b.len : Int) ≤ i))
  value : ∀ e, answer.result = .error e → e.kind = .value → ∃ f, s.Inherits f

variable {memory}

theorem exception_cases (laws : Lawful Object) (h : (perform memory b args s).result = .error e) :
    ((∃ op gives cause, s.Means b args op gives ∧ (b.step memory op).result = .error cause ∧
      e = .failure cause) ∨ s.Raises b args e) ∨ ∃ f, s.Inherits f := by
  rcases means_or_raises_or_inherits laws b s args with (⟨op, gives, hmeans⟩ | ⟨e', hraises⟩) | hinh
  · obtain ⟨f, -, hperform⟩ := perform_of_means memory laws hmeans
    rw [hperform] at h
    cases hop : (b.step memory op).result with
    | ok reply =>
      rw [operate_of_ok hop] at h
      cases h
    | error cause =>
      rw [operate_of_error hop] at h
      cases h
      exact .inl (.inl ⟨op, gives, cause, hmeans, hop, rfl⟩)
  · rw [perform_of_raises laws hraises] at h
    cases h
    exact .inl (.inr hraises)
  · exact .inr hinh

theorem kind_of_cause {cause : Failure}
    (h : (∃ len n, cause = .lengthOverflow len n) ∨ cause.OfGrowth) :
    (∃ len n, cause = .lengthOverflow len n) ∧ (Exception.failure cause).kind = .overflow ∨
      cause.OfGrowth ∧ (Exception.failure cause).kind = .memory := by
  rcases h with ⟨len, n, rfl⟩ | h
  · exact .inl ⟨⟨len, n, rfl⟩, rfl⟩
  · cases cause with
    | overLimit | allocation => exact .inr ⟨h, rfl⟩
    | _ => cases h

/-- An index error names an index of no position, and there are no value errors. -/
theorem kind_or_badIndex (laws : Lawful Object)
    (h : (perform memory b args s).result = .error e) :
    (∃ f, s.Inherits f) ∨ (e.kind ≠ .index ∧ e.kind ≠ .value) ∨
      ∃ i, s.Subscripts ∧ e = .badIndex i ∧ Accepted args.GivesUnnamed IsIndex i ∧
        (i < -b.len ∨ (b.len : Int) ≤ i) := by
  rcases exception_cases laws h with (⟨op, gives, cause, hmeans, hop, rfl⟩ | hraises) | hinherits
  · right
    left
    rcases kind_of_cause (hmeans.failure hop).2 with ⟨-, hkind⟩ | ⟨-, hkind⟩
    all_goals
      rw [hkind]
      decide
  · right
    rcases hraises.cause with rfl | rfl | hargs | hindex
    · exact .inl (by decide)
    · exact .inl (by decide)
    · left
      rcases hargs.kind with hkind | hkind
      all_goals
        rw [hkind]
        decide
    · exact .inr hindex
  · exact .inl hinherits

variable (memory)

theorem refines_step (laws : Lawful Object) (hmade : s.terms.eval = .ok args) :
    Refines memory b args s (step memory b s) := by
  rw [step_of_made memory b hmade]
  constructor
  case exhaustive => exact means_or_raises_or_inherits laws b s args
  case of_ok =>
    intro op gives reply hmeans hop
    obtain ⟨f, hf, hperform⟩ := perform_of_means memory laws hmeans
    have hv := hf reply hop
    refine ⟨f reply, fun w => ⟨fun hw => hw.unique hv, ?_⟩, by rw [hperform, operate_of_ok hop]⟩
    rintro rfl
    exact hv
  case of_error =>
    intro op gives cause hmeans hop
    obtain ⟨f, -, hperform⟩ := perform_of_means memory laws hmeans
    rw [hperform, operate_of_error hop]
  case of_raises =>
    intro e hraises
    exact perform_of_raises laws hraises
  case of_inherits =>
    intro f hinherits
    exact perform_of_inherits hinherits
  case failure =>
    intro op gives cause hmeans hop
    obtain ⟨hname, hcause⟩ := hmeans.failure hop
    exact ⟨hname, rfl, kind_of_cause hcause⟩
  case index =>
    intro e h
    rcases kind_or_badIndex laws h with hinherits | hne | hindex
    · exact .inl hinherits
    · refine .inr (iff_of_false hne.1 ?_)
      rintro ⟨i, -, rfl, -⟩
      exact hne.1 rfl
    · refine .inr (iff_of_true ?_ hindex)
      obtain ⟨i, -, rfl, -⟩ := hindex
      rfl
  case value =>
    intro e h hkind
    rcases kind_or_badIndex laws h with hinherits | hne | ⟨i, -, rfl, -⟩
    · exact hinherits
    · exact absurd hkind hne.2
    · cases hkind

/-- A special method can be called by its name, and a property cannot. -/
example (b : Buffer) : (step memory b (.call "__len__" {} : Step)).result = .ok (.int b.len) := rfl

example (b : Buffer) : (step memory b (.call "capacity" {} : Step)).result = .error .notCallable :=
  rfl

/-- However a buffer was made and whatever was done to it before, the next step of a session is
answered as the operations of the buffer answer, for every lawful runtime. A step that raises leaves
the buffer as it was, slot by slot, even where its arguments cannot be made. This holds of any
buffer and in any memory, so the steps of a session need not all have the same memory. -/
theorem session_refines (laws : Lawful Object) {given : Arguments Object} {b₀ : Buffer}
    (h : newBuffer memory given = .ok b₀) (before : List (Step Object)) (s : Step Object) :
    let b := after memory b₀ before
    b.Reachable memory ∧
    answers memory b₀ (before ++ [s]) = answers memory b₀ before ++ [step memory b s] ∧
    (∀ m c e, (step m c s).result = .error e → (step m c s).buffer = c) ∧
    (∀ m c e, s.terms.eval = .error e →
      step m c s = ⟨.error e, c⟩ ∨ step m c s = ⟨.error .noMethod, c⟩) ∧
    ∀ m c args, s.terms.eval = .ok args → Refines m c args s (step m c s) := by
  refine ⟨reachable_after memory (reachable_newBuffer memory h) before,
    answers_append_singleton memory b₀ before s, ?_, ?_, ?_⟩
  · intro m c e
    exact buffer_step_of_error m
  · intro m c e
    exact step_of_unmade m c
  · intro m c args
    exact refines_step m laws

/-- Two items, and a limit of seven slots. -/
def crampedArguments : Arguments where
  positional := [.list [.int 5, .int 9]]
  named := [("config", .policy ⟨.copying, some ⟨7, by decide, by decide⟩⟩)]

def cramped : Buffer :=
  ((Buffer.empty ⟨.copying, some ⟨7, by decide, by decide⟩⟩).append (.upTo 8) [5, 9]).state

/-- A truth value is a word, and a bad element deep in a list spoils the call. -/
def crampedSteps : List Step :=
  [.call "append" { positional := [.value (.bool true)] },
    .call "extend" { positional := [.list [.value (.int 4), .value .null]] }]

theorem session_refines_cramped :
    let b := after (.upTo 8) cramped crampedSteps
    let s : Step := .call "reserve" { named := [("additional", .value (.int 5))] }
    newBuffer (.upTo 8) crampedArguments = .ok cramped ∧ b.items = [5, 9, 1] ∧
      b.Reachable (.upTo 8) ∧
      step (.upTo 8) b s = ⟨.error (.failure (.overLimit 8 7)), b⟩ := by
  intro b s
  have hnew : newBuffer (.upTo 8) crampedArguments = .ok cramped := rfl
  obtain ⟨hreach, -, -, -, hrefines⟩ := session_refines (.upTo 8) Value.lawful hnew crampedSteps s
  have hreads : Signature.Reads (⟨[], [("additional", .int 5)]⟩ : Arguments)
      (.word "additional" fun w => .reserve w.toNat []) (.reserve 5 []) :=
    ⟨5, ⟨.int 5, .named rfl (by simp), rfl⟩, rfl⟩
  refine ⟨hnew, by decide +kernel, hreach, ?_⟩
  refine (hrefines _ b _ rfl).of_error _ _ _ (.declared (.method .reserve) hreads) ?_
  decide +kernel

end SlotBuffer.Script
