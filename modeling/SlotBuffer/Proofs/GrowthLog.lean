import SlotBuffer.Proofs.FailureConditions
import SlotBuffer.Proofs.Handles

/-! The log tells the truth about growth. An operation logs one event at most: that the buffer grew
just when its capacity changed by growing, and that it could not grow just when that is why the
operation failed. Every growth is in the log, so the log can be read from one end to the other: each
growth starts from the capacity at which the one before it ended. -/

namespace SlotBuffer

/-! ### Texts -/

namespace Event

theorem failed_text_ne (why : AllocationError) :
    "index buffer growth exceeds capacity limit" ≠
      "index buffer growth failed: " ++ why.message := by
  cases why <;> decide

variable {e : Event}

theorem says_grew_iff :
    e.level = .trace ∧ e.message = "grew index buffer" ↔
      ∃ before after strategy, e = .grew before after strategy := by
  constructor
  · rintro ⟨hlevel, -⟩
    cases e with
    | grew before after strategy => exact ⟨before, after, strategy, rfl⟩
    | overLimit | refused => cases hlevel
  · rintro ⟨before, after, strategy, rfl⟩
    exact ⟨rfl, rfl⟩

theorem says_overLimit_iff :
    e.level = .debug ∧ e.message = "index buffer growth exceeds capacity limit" ↔
      ∃ target limit, e = .overLimit target limit := by
  constructor
  · rintro ⟨hlevel, htext⟩
    cases e with
    | grew => cases hlevel
    | overLimit target limit => exact ⟨target, limit, rfl⟩
    | refused why => exact absurd htext.symm (failed_text_ne why)
  · rintro ⟨target, limit, rfl⟩
    exact ⟨rfl, rfl⟩

theorem says_refused_iff {why : AllocationError} :
    e.level = .debug ∧ e.message = "index buffer growth failed: " ++ why.message ↔
      ∃ capacity, e = .refused why capacity := by
  constructor
  · rintro ⟨hlevel, htext⟩
    cases e with
    | grew => cases hlevel
    | overLimit => exact absurd htext (failed_text_ne why)
    | refused cause capacity =>
      have hwhy : cause = why :=
        AllocationError.message_injective ((String.append_right_inj _).1 htext)
      exact ⟨capacity, by rw [hwhy]⟩
  · rintro ⟨capacity, rfl⟩
    exact ⟨rfl, rfl⟩

end Event

/-! ### What a step tells -/

namespace Buffer

/-- The number of items for which the operation asks room, where it is one that asks. -/
def Op.asks : Op → Option Nat
  | .push _ | .insert _ => some 1
  | .append vs => some vs.length
  | .reserve additional _ => some additional
  | _ => none

section

variable {α β : Type}

/-- What an operation on `b` logs, going by its result and by the capacity after it. -/
inductive Told (memory : Memory) (b : Buffer) :
    Option Nat → Except Failure α → Nat → List Event → Prop
  | kept {asked : Option Nat} (a : α) : Told memory b asked (.ok a) b.capacity []
  | grown {n : Nat} (a : α) (h : b.contents.Grows memory n) :
      Told memory b (some n) (.ok a) (b.grownCapacity n)
        [.grew b.capacity (b.grownCapacity n) b.policy.strategy]
  | overLimit {n : Nat} (requested limit : Nat) :
      Told memory b (some n) (.error (.overLimit requested limit)) b.capacity
        [.overLimit requested limit]
  | refused {n : Nat} (why : AllocationError) :
      Told memory b (some n) (.error (.allocation why)) b.capacity
        [.refused why (b.grownCapacity n)]
  | failed {asked : Option Nat} {cause : Failure} (h : ¬ cause.OfGrowth) :
      Told memory b asked (.error cause) b.capacity []

/-- The log read against what the operation did: `asked` is the number of items for which it asked
room, `capacity` the capacity after it. -/
structure Truthful (b : Buffer) (asked : Option Nat) (result : Except Failure α) (capacity : Nat)
    (log : List Event) : Prop where
  length_le : log.length ≤ 1
  grew_iff : ∀ before after strategy, .grew before after strategy ∈ log ↔
    (asked.isSome ∧ capacity ≠ b.capacity) ∧
      before = b.capacity ∧ after = capacity ∧ strategy = b.policy.strategy
  lt_of_grew : ∀ before after strategy, .grew before after strategy ∈ log → before < after
  overLimit_iff : ∀ target limit, .overLimit target limit ∈ log ↔
    result = .error (.overLimit target limit)
  refused_iff : ∀ why slots, .refused why slots ∈ log ↔
    result = .error (.allocation why) ∧ ∃ n ∈ asked, slots = b.grownCapacity n
  log_eq_nil : asked = none ∨ capacity = b.capacity →
    (∀ cause, result = .error cause → ¬ cause.OfGrowth) → log = []

variable {memory : Memory} {b : Buffer} {asked : Option Nat} {result : Except Failure α}
  {capacity : Nat} {log : List Event}

theorem Told.map (h : Told memory b asked result capacity log) (f : α → β) :
    Told memory b asked (result.map f) capacity log := by
  cases h with
  | kept a => exact .kept (f a)
  | grown a h => exact .grown (f a) h
  | overLimit requested limit => exact .overLimit requested limit
  | refused why => exact .refused why
  | failed h => exact .failed h

/-- What is done after a success logs nothing more. -/
theorem Told.andThen {o : Outcome Buffer α} {f : Buffer → Buffer × β}
    (h : Told memory b asked o.result o.state.capacity o.log)
    (hf : ∀ c, (f c).1.capacity = c.capacity) :
    Told memory b asked (o.andThen f).result (o.andThen f).state.capacity (o.andThen f).log := by
  have hmap := h.map fun _ => (f o.state).2
  unfold Outcome.andThen
  cases hres : o.result with
  | ok a =>
    rw [hres, ← hf o.state] at hmap
    exact hmap
  | error cause =>
    rw [hres] at hmap
    exact hmap

/-- An operation that says nothing has nothing to say. -/
theorem truthful_nil (hasked : asked = none ∨ capacity = b.capacity)
    (hcause : ∀ cause, result = .error cause → ¬ cause.OfGrowth) :
    Truthful b asked result capacity [] where
  length_le := Nat.zero_le _
  grew_iff := by
    intro before after strategy
    rcases hasked with rfl | rfl <;> simp
  lt_of_grew := by simp
  overLimit_iff := by
    intro target limit
    have hno : result ≠ .error (.overLimit target limit) := fun h => hcause _ h trivial
    simp [hno]
  refused_iff := by
    intro why slots
    have hno : result ≠ .error (.allocation why) := fun h => hcause _ h trivial
    simp [hno]
  log_eq_nil _ _ := rfl

theorem Told.truthful (h : Told memory b asked result capacity log) :
    Truthful b asked result capacity log := by
  cases h with
  | kept a => exact truthful_nil (.inr rfl) (by simp)
  | failed h =>
    refine truthful_nil (.inr rfl) ?_
    rintro cause ⟨⟩
    exact h
  | @grown n a h =>
    have hlt := capacity_lt_of_grows h
    have hne : b.grownCapacity n ≠ b.capacity := Nat.ne_of_gt hlt
    constructor
    · exact Nat.le_refl 1
    · simp [hne]
    · intro before after strategy hmem
      obtain ⟨rfl, rfl, rfl⟩ : before = b.capacity ∧ after = b.grownCapacity n ∧ _ := by
        simpa using hmem
      exact hlt
    · simp
    · simp
    · rintro (hnone | hsame)
      · cases hnone
      · exact absurd hsame hne
  | overLimit requested limit =>
    constructor
    · exact Nat.le_refl 1
    · simp
    · simp
    · simp [eq_comm]
    · simp
    · intro _ hcause
      exact absurd trivial (hcause _ rfl)
  | @refused n why =>
    constructor
    · exact Nat.le_refl 1
    · simp
    · simp
    · simp
    · simp [eq_comm]
    · intro _ hcause
      exact absurd trivial (hcause _ rfl)

end

/-- Where neither the word nor the limit forbids it, the memory decides whether `b` grows. -/
theorem makeRoom_of_allocate {memory : Memory} {b : Buffer} {n : Nat} {why : AllocationError}
    (short : b.contents.Short n) (within : b.contents.Within n)
    (h : memory.allocate (b.contents.grownCapacity n) = .error why) :
    b.makeRoom memory n = ⟨.error (.allocation why), b, [.refused why (b.grownCapacity n)]⟩ := by
  have hexceeded := Policy.exceeded?_eq_none_iff.2 (within_contents.1 within)
  have hle : b.capacity ≤ b.policy.nextCapacity b.capacity (b.len + n) :=
    Nat.le_trans (Nat.le_of_lt (short_contents.1 short).2) (Policy.le_nextCapacity hexceeded)
  rw [grownCapacity_contents, ← nextCapacity_eq_grownCapacity] at h
  rw [makeRoom_of_short short,
    grow_of_refused memory hexceeded ((Strategy.request_eq_allocate _ _ hle).trans h),
    nextCapacity_eq_grownCapacity]

variable (memory : Memory) (b : Buffer)

/-- Asking for room has the three ends of `Contents.Room`, and growing logs something in each of
its branches. -/
theorem told_makeRoom (n : Nat) :
    Told memory b (some n) (b.makeRoom memory n).result (b.makeRoom memory n).state.capacity
      (b.makeRoom memory n).log := by
  have hlength := length_items_contents b
  obtain ⟨r, hroom⟩ := Contents.exists_room memory b.contents n
  cases hroom with
  | enough hlen hcap =>
    rw [hlength] at hlen hcap
    rw [capacity_contents] at hcap
    rw [makeRoom_of_le memory hlen hcap]
    exact .kept ()
  | grown h =>
    rw [makeRoom_of_grows h, capacity_enlarge_of_grows h]
    exact .grown () h
  | refused h =>
    cases h with
    | lengthOverflow h =>
      rw [hlength] at h
      rw [makeRoom_of_overflow memory h]
      exact .failed id
    | @overLimit limit short hl h =>
      rw [hlength] at h
      have hexceeded := Policy.exceeded?_eq_some_iff.2 ⟨hl, h⟩
      rw [makeRoom_of_short short, grow_of_exceeded memory hexceeded]
      exact .overLimit (b.len + n) limit.slots
    | tooLarge short within h =>
      rw [makeRoom_of_allocate short within (Memory.allocate_of_maxSlots_lt h)]
      exact .refused .tooLarge
    | exhausted short within h hs =>
      rw [makeRoom_of_allocate short within (Memory.allocate_of_not_serves h hs)]
      exact .refused .exhausted

theorem told_append (vs : List UInt64) :
    Told memory b (some vs.length) (b.append memory vs).result (b.append memory vs).state.capacity
      (b.append memory vs).log := by
  unfold append
  split
  next => exact .kept ()
  next => exact (told_makeRoom memory b vs.length).andThen fun c => capacity_fill c vs

theorem told_insert (v : UInt64) :
    Told memory b (some 1) (b.insert memory v).result (b.insert memory v).state.capacity
      (b.insert memory v).log := by
  cases hf : b.firstIndex? v with
  | some i =>
    rw [insert_of_mem memory hf]
    exact .kept i
  | none =>
    rw [insert_of_not_mem memory (firstIndex?_eq_none_iff.1 hf)]
    exact (told_append memory b [v]).andThen fun _ => rfl

theorem told_commit (count : Nat) :
    Told memory b none (b.commit count).result (b.commit count).state.capacity
      (b.commit count).log := by
  unfold commit
  split
  next => exact .kept ()
  next => exact .failed id

/-- Whatever is done to a buffer, short of destroying it, logs what became of its slots. -/
theorem told_step {op : Op} (hop : op ≠ .destroy) :
    Told memory b op.asks (b.step memory op).result (b.step memory op).state.capacity
      (b.step memory op).log := by
  have kept {c : Buffer} (r : Reply) (hcap : c.capacity = b.capacity) :
      Told memory b none (Except.ok r) c.capacity [] := hcap ▸ .kept r
  cases op with
  | destroy => exact absurd rfl hop
  | push v => exact (told_append memory b [v]).map _
  | append vs => exact (told_append memory b vs).map _
  | reserve additional vs =>
    have h := (told_makeRoom memory b additional).andThen
      (f := fun c => (c.fill (vs.take additional), c.spare.take additional))
      fun c => capacity_fill c _
    exact h.map _
  | commit count => exact (told_commit memory b count).map _
  | insert v => exact (told_insert memory b v).map _
  | swapErase v => exact kept _ (capacity_swapErase b v)
  | erase v => exact kept _ (capacity_erase b v)
  | moveToBack v => exact kept _ (capacity_moveToBack b v)
  | moveToFront v => exact kept _ (capacity_moveToFront b v)
  | policy | len | capacity | isEmpty | items | get | contains | find | clear | display
  | describe => exact .kept _

theorem truthful_step (op : Op) :
    Truthful b op.asks (b.step memory op).result (b.step memory op).state.capacity
      (b.step memory op).log := by
  by_cases hop : op = .destroy
  · subst hop
    exact truthful_nil (.inl rfl) (by rintro cause ⟨⟩)
  · exact (told_step memory b hop).truthful

end Buffer

/-! ### Handles and registers -/

namespace ListLike

variable (memory : Memory)

/-- A handle logs what its buffer logs. While it is absent it is as good as a buffer without slots
that never grows. -/
theorem truthful_step_handle (h : Handle) (op : Op) :
    Buffer.Truthful (h.getD .empty) op.onBuffer.asks (step memory h op).result
      (capacity (step memory h op).state) (step memory h op).log := by
  cases h with
  | none =>
    rw [step_none memory {}]
    unfold absentOutcome
    split
    next => exact Buffer.truthful_nil (.inr rfl) (by rintro cause ⟨⟩; exact id)
    next hop =>
      have hempty := Buffer.truthful_step memory (.empty {}) op.onBuffer
      rw [← step_buffer, (step_of_not_inserts memory {} hop).1] at hempty
      exact hempty
  | some b =>
    by_cases hop : op = .destroy
    · subst hop
      exact Buffer.truthful_nil (.inl rfl) (by rintro cause ⟨⟩)
    · rw [step_some memory b hop]
      exact Buffer.truthful_step memory b op.onBuffer

end ListLike

namespace Command

variable {memory : Memory} {regs : Registers} {cmd : Command}

/-- What is no operation on a buffer logs nothing. -/
theorem log_step_of_ne_on (hcmd : ∀ r op, cmd ≠ .on r op) : (cmd.step memory regs).log = [] := by
  obtain ⟨-, -, hlog, -⟩ := rel_step (R := Eq) (fun _ => rfl) (fun h => congrArg _ h)
    (fun i => Eq.refl (regs i)) memory cmd hcmd
  exact hlog

/-- A step of which only what concerns register `r` is logged. -/
def stepAt (memory : Memory) (r : Nat) (regs : Registers) (cmd : Command) :
    Outcome Registers Reply :=
  { cmd.step memory regs with log := if cmd.register = r then (cmd.step memory regs).log else [] }

@[simp] theorem log_stepAt_on (memory : Memory) (regs : Registers) (r : Nat) (op : Buffer.Op) :
    ((on r op).stepAt memory r regs).log = ((regs r).step memory op).log := if_pos rfl

theorem log_stepAt_of_ne_on {r : Nat} (hcmd : ∀ op, cmd ≠ .on r op) :
    (cmd.stepAt memory r regs).log = [] := by
  unfold stepAt
  split
  next hr =>
    apply log_step_of_ne_on
    rintro _ op rfl
    exact hcmd op (congrArg (on · op) hr)
  next => rfl

end Command

/-! ### Runs -/

/-- The two capacities of a growth. -/
def Event.growth? : Event → Option (Nat × Nat)
  | .grew before after _ => some (before, after)
  | _ => none

def growths (log : List Event) : List (Nat × Nat) := log.filterMap Event.growth?

/-- Each growth starts where the one before it ended, from `first` on up to `last`. -/
def Chained : Nat → List (Nat × Nat) → Nat → Prop
  | first, [], last => first = last
  | first, (before, after) :: rest, last => before = first ∧ before < after ∧ Chained after rest last

theorem Chained.append {a b c : Nat} {gs hs : List (Nat × Nat)} (hab : Chained a gs b)
    (hbc : Chained b hs c) : Chained a (gs ++ hs) c := by
  induction gs generalizing a with
  | nil =>
    obtain rfl : a = b := hab
    exact hbc
  | cons g gs ih =>
    obtain ⟨hbefore, hlt, hrest⟩ := hab
    exact ⟨hbefore, hlt, ih hrest⟩

namespace Run

variable {σ ι α : Type} (step : σ → ι → Outcome σ α)

/-- All that the operations of a run log, in order. -/
def log (s : σ) (ops : List ι) : List Event := (outcomes step s ops).flatMap (·.log)

@[simp] theorem log_nil (s : σ) : log step s [] = [] := rfl

@[simp] theorem log_cons (s : σ) (op : ι) (ops : List ι) :
    log step s (op :: ops) = (step s op).log ++ log step (step s op).state ops := rfl

/-- If what each operation logs leads from the capacity before it to the one after it, then so does
what a run logs. -/
theorem chained_log (capacity : σ → Nat) {ops : List ι}
    (h : ∀ s, ∀ op ∈ ops,
      Chained (capacity s) (growths (step s op).log) (capacity (step s op).state)) (s : σ) :
    Chained (capacity s) (growths (log step s ops)) (capacity (final step s ops)) := by
  induction ops generalizing s with
  | nil => rfl
  | cons op ops ih =>
    rw [log_cons, growths, List.filterMap_append]
    apply (h s op List.mem_cons_self).append
    exact ih (fun t op' hop' => h t op' (List.mem_cons_of_mem _ hop')) (step s op).state

end Run

theorem Buffer.Told.chained {memory : Memory} {b : Buffer} {asked : Option Nat} {α : Type}
    {result : Except Failure α} {capacity : Nat} {log : List Event}
    (h : Told memory b asked result capacity log) : Chained b.capacity (growths log) capacity := by
  cases h with
  | kept | overLimit | refused | failed => rfl
  | @grown n _ h =>
    exact ⟨rfl, capacity_lt_of_grows h, rfl⟩

namespace ListLike

variable (memory : Memory)

theorem log_step_none (op : Op) : (step memory (none : Handle) op).log = [] := by
  cases op with
  | reserve additional vs =>
    simp only [step, reserve, Handle.reserve]
    split <;> rfl
  | append vs =>
    simp only [step, append, Handle.append]
    split <;> rfl
  | _ => rfl

theorem chained_step_handle (h : Handle) {op : Op} (hop : op ≠ .destroy) :
    Chained (capacity h) (growths (step memory h op).log) (capacity (step memory h op).state) := by
  cases h with
  | none =>
    rw [log_step_none, state_step_none]
    rfl
  | some b =>
    have hbuffer : op.onBuffer ≠ .destroy := by cases op <;> simp_all [Op.onBuffer]
    rw [step_some memory b hop]
    exact (Buffer.told_step memory b hbuffer).chained

end ListLike

theorem Command.chained_stepAt (memory : Memory) (regs : Registers) {r : Nat} {cmd : Command}
    (hreplaces : ¬ cmd.Replaces r) (hdestroy : cmd ≠ .on r .destroy) :
    Chained (regs r).capacity (growths (cmd.stepAt memory r regs).log)
      ((cmd.stepAt memory r regs).state r).capacity := by
  by_cases hon : ∃ op, cmd = .on r op
  · obtain ⟨op, rfl⟩ := hon
    have hop : op ≠ .destroy := fun h => hdestroy (congrArg (on r) h)
    have hstate : ((on r op).stepAt memory r regs).state r = ((regs r).step memory op).state :=
      Registers.set_self ..
    rw [log_stepAt_on, hstate]
    exact (Buffer.told_step memory (regs r) hop).chained
  · have hstate : (cmd.step memory regs).state r = regs r := by
      rcases register_cases hreplaces with h | ⟨op, h, -⟩
      · exact h
      · exact absurd ⟨op, h⟩ hon
    rw [log_stepAt_of_ne_on fun op h => hon ⟨op, h⟩]
    exact (congrArg Buffer.capacity hstate).symm

/-- An operation, on a buffer or through a handle, logs what became of the slots and nothing else,
whoever reads the texts learns from them what it was, and nothing but an operation logs anything.
Where the buffer in question is neither destroyed nor replaced, the growths that a run logs lead
from its first capacity to its last one. -/
theorem log_truthful (memory : Memory) :
    (∀ e : Event,
      (e.level = .trace ∧ e.message = "grew index buffer" ↔
        ∃ before after strategy, e = .grew before after strategy) ∧
      (e.level = .debug ∧ e.message = "index buffer growth exceeds capacity limit" ↔
        ∃ target limit, e = .overLimit target limit) ∧
      ∀ why : AllocationError,
        e.level = .debug ∧ e.message = "index buffer growth failed: " ++ why.message ↔
          ∃ capacity, e = .refused why capacity) ∧
    (∀ why, (Failure.allocation why).message = "Failed to grow index buffer: " ++ why.message) ∧
    (∀ (b : Buffer) (op : Buffer.Op), Buffer.Truthful b op.asks (b.step memory op).result
      (b.step memory op).state.capacity (b.step memory op).log) ∧
    (∀ (h : Handle) (op : ListLike.Op),
      Buffer.Truthful (h.getD .empty) op.onBuffer.asks (ListLike.step memory h op).result
        (ListLike.capacity (ListLike.step memory h op).state) (ListLike.step memory h op).log) ∧
    (∀ (regs : Registers) (cmd : Command), (∀ r op, cmd ≠ .on r op) →
      (cmd.step memory regs).log = []) ∧
    (∀ (b : Buffer) (calls : List (Memory × Buffer.Op)), (∀ call ∈ calls, call.2 ≠ .destroy) →
      Chained b.capacity (growths (Run.log Buffer.stepIn b calls))
        (Run.final Buffer.stepIn b calls).capacity) ∧
    (∀ (h : Handle) (ops : List ListLike.Op), .destroy ∉ ops →
      Chained (ListLike.capacity h) (growths (Run.log (ListLike.step memory) h ops))
        (ListLike.capacity (Run.final (ListLike.step memory) h ops))) ∧
    ∀ (regs : Registers) (r : Nat) (cmds : List Command),
      (∀ cmd ∈ cmds, ¬ cmd.Replaces r ∧ cmd ≠ .on r .destroy) →
      Chained (regs r).capacity (growths (Run.log (Command.stepAt memory r) regs cmds))
        (Run.final (Command.step memory) regs cmds r).capacity := by
  refine ⟨?_, fun _ => rfl, Buffer.truthful_step memory, ListLike.truthful_step_handle memory,
    fun _ _ => Command.log_step_of_ne_on, ?_, ?_, ?_⟩
  · intro e
    exact ⟨Event.says_grew_iff, Event.says_overLimit_iff, fun _ => Event.says_refused_iff⟩
  · intro b calls hcalls
    apply Run.chained_log Buffer.stepIn Buffer.capacity
    intro c call hcall
    exact (Buffer.told_step call.1 c (hcalls call hcall)).chained
  · intro h ops hops
    apply Run.chained_log (ListLike.step memory) ListLike.capacity
    intro h' op hop
    exact ListLike.chained_step_handle memory h' (ne_of_mem_of_not_mem hop hops)
  · intro regs r cmds hcmds
    apply Run.chained_log (Command.stepAt memory r) fun regs : Registers => (regs r).capacity
    intro regs' cmd hcmd
    obtain ⟨hreplaces, hdestroy⟩ := hcmds cmd hcmd
    exact Command.chained_stepAt memory regs' hreplaces hdestroy

/-- Room for two more is refused once and granted the next time. In the registers, what is logged
about another buffer is no part of the chain, and the buffer outlives a policy that is turned
down. -/
theorem log_truthful_regrown :
    let calls : List (Memory × Buffer.Op) :=
      [(.upTo 8, .push 5), (.upTo 2, .append [9, 4]), (.upTo 8, .append [9, 4])]
    let ops : List ListLike.Op := [.push 7, .erase 9, .push 7]
    let cmds : List Command :=
      [.on 0 (.push 5), .configure 0 .copying (some 0), .on 1 (.append [1, 2]), .on 0 (.push 9)]
    (∀ call ∈ calls, call.2 ≠ .destroy) ∧ .destroy ∉ ops ∧
      (∀ cmd ∈ cmds, ¬ cmd.Replaces 0 ∧ cmd ≠ .on 0 .destroy) ∧
      Run.log Buffer.stepIn .empty calls =
        [.grew 0 1 .inPlace, .refused .exhausted 3, .grew 1 3 .inPlace] ∧
      Chained 0 [(0, 1), (1, 3)] 3 ∧
      Run.log (ListLike.step (.upTo 8)) (some (Registers.clamped 1) : Handle) ops =
        [.overLimit 4 3] ∧
      Chained 3 [] 3 ∧
      Run.log (Command.step (.upTo 8)) .initial cmds =
        [.grew 0 1 .inPlace, .grew 0 2 .inPlace, .grew 1 2 .inPlace] ∧
      Chained 0 [(0, 1), (1, 2)] 2 := by
  intro calls ops cmds
  have hcalls : ∀ call ∈ calls, call.2 ≠ .destroy := by simp [calls]
  have hops : .destroy ∉ ops := by decide
  have hcmds : ∀ cmd ∈ cmds, ¬ cmd.Replaces 0 ∧ cmd ≠ .on 0 .destroy := by
    have hmake (p : Policy) : Policy.make .copying (some 0) ≠ .ok p := by rintro ⟨⟩
    simp [cmds, Command.Replaces, hmake]
  obtain ⟨-, -, -, -, -, hbuffer, hhandle, hregs⟩ := log_truthful (.upTo 8)
  exact ⟨hcalls, hops, hcmds, rfl, hbuffer .empty calls hcalls, rfl,
    hhandle (some (Registers.clamped 1)) ops hops, rfl, hregs .initial 0 cmds hcmds⟩

end SlotBuffer
