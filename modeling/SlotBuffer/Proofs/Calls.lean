import SlotBuffer.Proofs.Atomicity
import SlotBuffer.Proofs.Signatures

/-! The code against what is declared. Whatever the runtime, as long as it is lawful, each declared
name is found, the arguments that its signature reads carry its operation out and give the reply in
its form, and those that it rejects raise. Hence every step with its arguments either carries out
what it means, or raises, or answers for a method that all objects have. -/

namespace SlotBuffer.Script

/-! ### Items -/

theorem item_of_isPosition {b : Buffer} {i : Int} {k : Nat} (h : IsPosition b.len i k) :
    ∃ w, b.get? k = some w ∧ item b i = .ok w := by
  obtain ⟨hk, hi⟩ := h
  have hpos : position? b.len i = some k := by
    unfold position?
    split
    · rw [Option.some.injEq]
      omega
    · rw [if_pos (by omega), Option.some.injEq]
      omega
  have hlt : k < b.items.length := by rwa [Buffer.length_items]
  have hw : b.get? k = some b.items[k] := List.getElem?_eq_getElem hlt
  refine ⟨_, hw, ?_⟩
  rw [item, hpos, Option.bind_some, hw]

theorem item_of_outOfRange {b : Buffer} {i : Int} (h : i < -b.len ∨ (b.len : Int) ≤ i) :
    item b i = .error (.badIndex i) := by
  have hpos : (position? b.len i).bind b.get? = none := by
    unfold position?
    split
    · exact List.getElem?_eq_none_iff.2 (by rw [Buffer.length_items]; omega)
    · rw [if_neg (by omega), Option.bind_none]
  rw [item, hpos]

variable {Object : Type} [Runtime Object] {memory : Memory} {b : Buffer}

theorem ask_contains_eq (b : Buffer) (args : Arguments Object) :
    ask b .contains args = (Runtime.operand args >>= Runtime.toWord) >>= fun w =>
      pure (.bool (b.contains w)) :=
  (bind_assoc ..).symm

theorem ask_item_eq (b : Buffer) (args : Arguments Object) :
    ask b .item args = (Runtime.operand args >>= Runtime.toIndex) >>= fun i =>
      item b i >>= fun w => pure (.word w) :=
  (bind_assoc ..).symm

/-! ### Operations -/

theorem operate_of_ok {op : Buffer.Op} {reply : Reply} (h : (b.step memory op).result = .ok reply)
    (f : Reply → Value) :
    operate memory b op f = ⟨.ok (f reply), (b.step memory op).state⟩ := by
  simp only [operate, h]
  rfl

theorem operate_of_error {op : Buffer.Op} {cause : Failure}
    (h : (b.step memory op).result = .error cause) (f : Reply → Value) :
    operate memory b op f = ⟨.error (.failure cause), b⟩ := by
  simp only [operate, h, Buffer.state_step_of_error h]
  rfl

/-! ### Names -/

/-- A name that is not of the class is left to what all objects have. -/
theorem ofName?_of_not_ofClass (Object : Type) [Runtime Object] {name : String}
    (h : ¬ OfClass name) :
    (Member.ofName? name : Option (Member Object)) =
      (Runtime.inherited? name).map .inherited := by
  have hmethod : Method.ofName? name = none := by
    unfold Method.ofName?
    split
    all_goals first | rfl | exact absurd (.method (by constructor)) h
  unfold Member.ofName?
  split
  all_goals
    first
      | rw [hmethod]
      | exact absurd OfClass.item h
      | exact absurd OfClass.capacity h
      | exact absurd (.method (by constructor)) h

/-- What a step comes to once its arguments are made. -/
def perform (memory : Memory) (b : Buffer) (args : Arguments Object) : Step Object → Answer
  | .call name _ =>
    match Member.ofName? name with
    | some member => member.call memory b args
    | none => ⟨.error .noMethod, b⟩
  | .ask query _ => ⟨ask b query args, b⟩

theorem step_of_made (memory : Memory) (b : Buffer) {s : Step Object} {args : Arguments Object}
    (hmade : s.terms.eval = .ok args) : step memory b s = perform memory b args s := by
  cases s with
  | call name terms =>
    obtain ⟨vs, hpositional, hmade⟩ :=
      exists_of_bind_eq_ok (show terms.eval = .ok args from hmade)
    obtain ⟨ps, hnamed, hmade⟩ := exists_of_bind_eq_ok hmade
    cases hmade
    -- the name is looked up between the two, which makes no difference when both succeed
    simp only [step, resolve, hpositional, hnamed, perform]
    cases (Member.ofName? name : Option (Member Object)) <;> rfl
  | ask query terms =>
    simp only [step, perform, show terms.eval = .ok args from hmade]
    rfl

/-- A step whose arguments cannot be made raises for that, or before that for its name. -/
theorem step_of_unmade (memory : Memory) (b : Buffer) {s : Step Object} {e : Exception}
    (h : s.terms.eval = .error e) :
    step memory b s = ⟨.error e, b⟩ ∨ step memory b s = ⟨.error .noMethod, b⟩ := by
  cases s with
  | call name terms =>
    rcases error_or_exists_of_bind_eq_error (show terms.eval = .error e from h) with
      hpositional | ⟨vs, hpositional, h⟩
    · left
      simp only [step, resolve, hpositional]
      rfl
    · cases hmember : (Member.ofName? name : Option (Member Object)) with
      | none =>
        right
        simp only [step, resolve, hpositional, hmember]
        rfl
      | some member =>
        left
        rcases error_or_exists_of_bind_eq_error h with hnamed | ⟨ps, -, ⟨⟩⟩
        simp only [step, resolve, hpositional, hmember, hnamed]
        rfl
  | ask query terms =>
    left
    simp only [step, show terms.eval = .error e from h]
    rfl

/-! ### Declared calls -/

variable [Reading Object]

/-- What `act` does with its arguments is what the signature and the form declare. -/
structure Carries (memory : Memory) (b : Buffer) (takes : Signature) (gives : Form)
    (act : Arguments Object → Answer) : Prop where
  of_reads : ∀ args op, takes.Reads args op → ∃ f,
    (∀ reply, (b.step memory op).result = .ok reply → Receives gives reply (f reply)) ∧
      act args = operate memory b op f
  of_rejects : ∀ args e, takes.Rejects args e → act args = ⟨.error e, b⟩

variable {takes : Signature} {gives : Form}

theorem carries_call (laws : Lawful Object) {method : Method}
    (hop : ∀ args : Arguments Object, method.operation args = takes.parse args)
    (hreply : ∀ (args : Arguments Object) op reply, takes.Reads args op →
      (b.step memory op).result = .ok reply → Receives gives reply (method.answer reply)) :
    Carries memory b takes gives fun args : Arguments Object => call memory b method args where
  of_reads args op h := by
    refine ⟨method.answer, fun reply => hreply args op reply h, ?_⟩
    simp only [call, hop, ((takes.parse_decided laws args).ok_iff op).2 h]
  of_rejects args e h := by
    simp only [call, hop, ((takes.parse_decided laws args).error_iff e).2 h]

/-- A query that takes nothing has its answer at once. -/
theorem carries_ask (laws : Lawful Object) {query : Query} {op : Buffer.Op} {reply : Reply}
    {v : Value} (hstep : b.step memory op = .done b reply) (hv : Receives gives reply v)
    (hask : ∀ args : Arguments Object, ask b query args = args.nothing >>= fun _ => pure v) :
    Carries memory b (.nothing op) gives fun args : Arguments Object =>
      ⟨ask b query args, b⟩ where
  of_reads args op' h := by
    obtain ⟨hargs, rfl⟩ := h
    refine ⟨fun _ => v, ?_, ?_⟩
    · intro reply' hreply
      rw [hstep] at hreply
      cases hreply
      exact hv
    · rw [hask, ((laws.nothing_decided args).ok_iff ()).2 hargs, operate, hstep]
      rfl
  of_rejects args e h := by
    rw [hask, ((laws.nothing_decided args).error_iff e).2 h]
    rfl

theorem carries_contains (laws : Lawful Object) :
    Carries memory b (.operand .contains) .truth fun args : Arguments Object =>
      ⟨ask b .contains args, b⟩ where
  of_reads args op h := by
    obtain ⟨w, hw, rfl⟩ := h
    refine ⟨fun _ => .bool (b.contains w), ?_, ?_⟩
    · rintro reply ⟨⟩
      exact .truth _
    · rw [ask_contains_eq, ((laws.operand_word_decided args).ok_iff w).2 hw]
      rfl
  of_rejects args e h := by
    rw [ask_contains_eq, ((laws.operand_word_decided args).error_iff e).2 h]
    rfl

/-! ### Members -/

theorem receives_index (i : Option Nat) :
    Receives .position (.index i) (.ofReply (.index i)) := by
  cases i with
  | none => exact .notFound
  | some k => exact .found k

theorem receives_nonzero (n : Nat) : Receives .nonzero (.count n) (.bool (n != 0)) := by
  cases n with
  | zero => exact .zero
  | succ n => exact .nonzero n

theorem Query.Declares.carries {query : Query} (h : query.Declares takes gives)
    (laws : Lawful Object) :
    Carries memory b takes gives fun args : Arguments Object => ⟨ask b query args, b⟩ := by
  cases h with
  | len => exact carries_ask laws rfl (.count _) fun _ => rfl
  | truth => exact carries_ask laws rfl (receives_nonzero _) fun _ => rfl
  | text => exact carries_ask laws rfl (.text _) fun _ => rfl
  | read =>
    refine carries_ask laws rfl (.list _) fun args => ?_
    rw [ask, readFrom_eq_drop]
    rfl
  | capacity => exact carries_ask laws rfl (.count _) fun _ => rfl
  | contains => exact carries_contains laws

theorem Declares.exists_member {name : String} (h : Declares name takes gives)
    (laws : Lawful Object) :
    ∃ member : Member Object, Member.ofName? name = some member ∧
      Carries memory b takes gives (member.call memory b) := by
  cases h with
  | append =>
    refine ⟨.method .push, rfl, carries_call laws (fun _ => rfl) ?_⟩
    rintro args _ reply ⟨w, -, rfl⟩ hreply
    obtain ⟨_, -, rfl⟩ := Outcome.result_map_eq_ok.1 hreply
    exact .nothing _
  | extend =>
    refine ⟨.method .append, rfl, carries_call laws (fun _ => rfl) ?_⟩
    rintro args _ reply ⟨ws, -, rfl⟩ hreply
    obtain ⟨_, -, rfl⟩ := Outcome.result_map_eq_ok.1 hreply
    exact .nothing _
  | reserve =>
    refine ⟨.method .reserve, rfl, carries_call laws (fun _ => rfl) ?_⟩
    intro args op reply _ _
    exact .nothing reply
  | find =>
    refine ⟨.method .find, rfl, carries_call laws (fun _ => rfl) ?_⟩
    rintro args _ _ ⟨w, -, rfl⟩ ⟨⟩
    exact receives_index _
  | removeUnordered =>
    refine ⟨.method .swapErase, rfl, carries_call laws (fun _ => rfl) ?_⟩
    rintro args _ _ ⟨w, -, rfl⟩ ⟨⟩
    exact .nothing _
  | setInsert =>
    refine ⟨.method .insert, rfl, carries_call laws (fun _ => rfl) ?_⟩
    rintro args _ reply ⟨w, -, rfl⟩ hreply
    obtain ⟨k, -, rfl⟩ := Outcome.result_map_eq_ok.1 hreply
    exact .found k
  | removeFirstMatch =>
    refine ⟨.method .erase, rfl, carries_call laws (fun _ => rfl) ?_⟩
    rintro args _ _ ⟨w, -, rfl⟩ ⟨⟩
    exact receives_index _
  | moveToEnd =>
    refine ⟨.method .moveToBack, rfl, carries_call laws (fun _ => rfl) ?_⟩
    rintro args _ _ ⟨w, -, rfl⟩ ⟨⟩
    exact .nothing _
  | moveToFront =>
    refine ⟨.method .moveToFront, rfl, carries_call laws (fun _ => rfl) ?_⟩
    rintro args _ _ ⟨w, -, rfl⟩ ⟨⟩
    exact .nothing _
  | destroy =>
    refine ⟨.method .destroy, rfl, carries_call laws (fun _ => rfl) ?_⟩
    rintro args _ _ ⟨-, rfl⟩ ⟨⟩
    exact .nothing _
  | clear =>
    refine ⟨.method .clear, rfl, carries_call laws (fun _ => rfl) ?_⟩
    rintro args _ _ ⟨-, rfl⟩ ⟨⟩
    exact .nothing _
  | toList =>
    refine ⟨.method .items, rfl, carries_call laws (fun _ => rfl) ?_⟩
    rintro args _ _ ⟨-, rfl⟩ ⟨⟩
    exact .list _
  | len => exact ⟨.special .len, rfl, Query.Declares.len.carries laws⟩
  | repr => exact ⟨.special .text, rfl, Query.Declares.text.carries laws⟩
  | contains => exact ⟨.special .contains, rfl, Query.Declares.contains.carries laws⟩

/-! ### Steps -/

variable {s : Step Object} {args : Arguments Object} {op : Buffer.Op} {e : Exception}

theorem Step.Declares.carries (h : s.Declares takes gives) (laws : Lawful Object) :
    Carries memory b takes gives fun args => perform memory b args s := by
  cases h with
  | method h =>
    obtain ⟨member, hmember, hcarries⟩ := h.exists_member laws
    simpa only [perform, hmember] using hcarries
  | query h => exact h.carries laws

omit [Reading Object] in
theorem Step.Subscripts.perform_eq (h : s.Subscripts) (args : Arguments Object) :
    perform memory b args s = ⟨Script.ask b .item args, b⟩ := by
  cases h <;> rfl

/-- A step that stands for an operation carries it out. -/
theorem perform_of_means (memory : Memory) (laws : Lawful Object)
    (h : s.Means b args op gives) : ∃ f,
    (∀ reply, (b.step memory op).result = .ok reply → Receives gives reply (f reply)) ∧
      perform memory b args s = operate memory b op f := by
  cases h with
  | declared h hargs => exact (h.carries laws).of_reads args op hargs
  | @item i k h hi hk =>
    obtain ⟨w, hget, hitem⟩ := item_of_isPosition hk
    have hstep : b.step memory (.get k) = .done b (.value (some w)) := by rw [Buffer.step, hget]
    refine ⟨fun _ => .word w, ?_, ?_⟩
    · intro reply hreply
      rw [hstep] at hreply
      cases hreply
      exact .word w
    · rw [h.perform_eq, ask_item_eq, ((laws.operand_index_decided args).ok_iff i).2 hi, operate,
        hstep]
      show Answer.mk (Script.item b i >>= fun w => pure (.word w)) b = _
      rw [hitem]
      rfl

theorem perform_of_raises (laws : Lawful Object) (h : s.Raises b args e) :
    perform memory b args s = ⟨.error e, b⟩ := by
  cases h with
  | rejected h hargs => exact (h.carries laws).of_rejects args e hargs
  | noIndex h he =>
    rw [h.perform_eq, ask_item_eq, ((laws.operand_index_decided args).error_iff e).2 he]
    rfl
  | @outOfRange _ i h hi hrange =>
    rw [h.perform_eq, ask_item_eq, ((laws.operand_index_decided args).ok_iff i).2 hi]
    show Answer.mk (Script.item b i >>= fun w => pure (.word w)) b = _
    rw [item_of_outOfRange hrange]
    rfl
  | readBackwards => rfl
  | notCallable => rfl
  | noMethod h hnone =>
    simp only [perform, ofName?_of_not_ofClass Object h, hnone, Option.map_none]

omit [Reading Object] in
theorem perform_of_inherits {answer : Inherited Object}
    (h : s.Inherits answer) : perform memory b args s = ⟨answer b args, b⟩ := by
  cases h with
  | method h hsome =>
    simp only [perform, ofName?_of_not_ofClass Object h, hsome, Option.map_some]
    rfl

theorem Step.Declares.means_or_raises (h : s.Declares takes gives) (laws : Lawful Object)
    (b : Buffer) (args : Arguments Object) :
    (∃ op gives, s.Means b args op gives) ∨ ∃ e, s.Raises b args e := by
  rcases (takes.parse_decided laws args).cases with ⟨op, hop⟩ | ⟨e, he⟩
  · exact .inl ⟨op, gives, .declared h hop⟩
  · exact .inr ⟨e, .rejected h he⟩

theorem Step.Subscripts.means_or_raises (h : s.Subscripts) (laws : Lawful Object)
    (b : Buffer) (args : Arguments Object) :
    (∃ op gives, s.Means b args op gives) ∨ ∃ e, s.Raises b args e := by
  rcases (laws.operand_index_decided args).cases with ⟨i, hi⟩ | ⟨e, he⟩
  · rcases position_or_outOfRange b.len i with ⟨k, hk⟩ | hrange
    · exact .inl ⟨_, _, .item h hi hk⟩
    · exact .inr ⟨_, .outOfRange h hi hrange⟩
  · exact .inr ⟨e, .noIndex h he⟩

theorem means_or_raises_or_inherits (laws : Lawful Object) (b : Buffer) (s : Step Object)
    (args : Arguments Object) :
    ((∃ op gives, s.Means b args op gives) ∨ ∃ e, s.Raises b args e) ∨
      ∃ answer, s.Inherits answer := by
  cases s with
  | call name terms =>
    by_cases hname : OfClass name
    · left
      cases hname with
      | method h => exact (Step.Declares.method h).means_or_raises laws b args
      | item => exact Step.Subscripts.method.means_or_raises laws b args
      | capacity => exact .inr ⟨_, .notCallable⟩
    · cases hinherited : (Runtime.inherited? name : Option (Inherited Object)) with
      | none => exact .inl (.inr ⟨_, .noMethod hname hinherited⟩)
      | some answer => exact .inr ⟨answer, .method hname hinherited⟩
  | ask query terms =>
    left
    have declared {takes : Signature} {gives : Form} (h : query.Declares takes gives) :=
      Step.Declares.means_or_raises (s := .ask query terms) (.query h) laws b args
    cases query with
    | len => exact declared .len
    | truth => exact declared .truth
    | text => exact declared .text
    | read => exact declared .read
    | readBackwards => exact .inr ⟨_, .readBackwards⟩
    | capacity => exact declared .capacity
    | item => exact Step.Subscripts.query.means_or_raises laws b args
    | contains => exact declared .contains

end SlotBuffer.Script
