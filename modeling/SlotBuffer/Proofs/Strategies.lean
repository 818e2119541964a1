import SlotBuffer.Proofs.Invariant

/-! Two strategies, one behaviour. A buffer that extends its allocation and one that copies itself
into a new one ask the memory for the same capacity and end up with the same slots. Put another
strategy into a buffer, and every operation does what it did, save that growing is logged under the
new label and that an operation which shows the policy shows the new strategy. -/

namespace SlotBuffer

/-! ### Another strategy -/

def Policy.withStrategy (policy : Policy) (s : Strategy) : Policy := { policy with strategy := s }

/-- Only growing names a strategy. -/
def Event.relabel (s : Strategy) : Event → Event
  | .grew before after _ => .grew before after s
  | event => event

namespace Buffer

def withStrategy (b : Buffer) (s : Strategy) : Buffer :=
  { b with policy := b.policy.withStrategy s }

@[simp] theorem items_withStrategy (b : Buffer) (s : Strategy) :
    (b.withStrategy s).items = b.items := rfl

/-- The new slots come out the same. -/
theorem enlarge_withStrategy (b : Buffer) (s : Strategy) (extra : Nat) :
    (b.withStrategy s).enlarge extra = (b.enlarge extra).withStrategy s := by
  apply ext_views
  · rw [items_enlarge, items_withStrategy, items_withStrategy, items_enlarge]
  · rw [spare_enlarge, show ((b.enlarge extra).withStrategy s).spare = (b.enlarge extra).spare
      from rfl, spare_enlarge]
    rfl
  · rfl

end Buffer

/-- The outcome as the other strategy has it. -/
def Outcome.relabel {α : Type} (s : Strategy) (o : Outcome Buffer α) : Outcome Buffer α :=
  ⟨o.result, o.state.withStrategy s, o.log.map (·.relabel s)⟩

theorem Outcome.andThen_relabel {α β : Type} {s : Strategy} {o : Outcome Buffer α}
    {f : Buffer → Buffer × β} (hf : ∀ b, f (b.withStrategy s) = ((f b).1.withStrategy s, (f b).2)) :
    (o.relabel s).andThen f = (o.andThen f).relabel s := by
  cases hres : o.result with
  | ok a => simp [andThen, relabel, hres, hf]
  | error cause => simp [andThen, relabel, hres]

namespace Buffer

variable (memory : Memory)

/-! ### Operations -/

/-- The one strategy asks for the slots that are missing and the other for all of them, which comes
to the same capacity. -/
theorem grow_withStrategy (b : Buffer) (s : Strategy) {target : Nat} (h : b.capacity < target) :
    (b.withStrategy s).grow memory target = (b.grow memory target).relabel s := by
  cases he : b.policy.exceeded? target with
  | some limit =>
    have he' : (b.withStrategy s).policy.exceeded? target = some limit := he
    rw [grow_of_exceeded memory he, grow_of_exceeded memory he']
    rfl
  | none =>
    have he' : (b.withStrategy s).policy.exceeded? target = none := he
    have hle : b.capacity ≤ b.policy.nextCapacity b.capacity target :=
      Nat.le_trans (Nat.le_of_lt h) (Policy.le_nextCapacity he)
    have hr := b.policy.strategy.request_eq_allocate memory hle
    have hr' := s.request_eq_allocate memory hle
    cases ha : memory.allocate (b.policy.nextCapacity b.capacity target) with
    | error cause =>
      rw [grow_of_refused memory he (hr.trans ha), grow_of_refused memory he' (hr'.trans ha)]
      rfl
    | ok =>
      rw [grow_of_granted memory he (hr.trans ha), grow_of_granted memory he' (hr'.trans ha),
        enlarge_withStrategy]
      rfl

theorem makeRoom_withStrategy (b : Buffer) (s : Strategy) (additional : Nat) :
    (b.withStrategy s).makeRoom memory additional = (b.makeRoom memory additional).relabel s := by
  rcases Nat.lt_or_ge maxLength (b.len + additional) with hlen | hlen
  · rw [makeRoom_of_overflow memory hlen]
    exact makeRoom_of_overflow memory hlen
  rcases Nat.lt_or_ge b.capacity (b.len + additional) with hcap | hcap
  · rw [makeRoom_of_gt memory hlen hcap, ← grow_withStrategy memory b s hcap]
    exact makeRoom_of_gt memory hlen hcap
  · rw [makeRoom_of_le memory hlen hcap]
    exact makeRoom_of_le memory hlen hcap

theorem reserve_withStrategy (b : Buffer) (s : Strategy) (additional : Nat) (vs : List UInt64) :
    (b.withStrategy s).reserve memory additional vs =
      (b.reserve memory additional vs).relabel s := by
  rw [reserve, makeRoom_withStrategy]
  exact Outcome.andThen_relabel fun _ => rfl

theorem append_withStrategy (b : Buffer) (s : Strategy) (vs : List UInt64) :
    (b.withStrategy s).append memory vs = (b.append memory vs).relabel s := by
  unfold append
  split
  next => rfl
  next =>
    rw [makeRoom_withStrategy]
    exact Outcome.andThen_relabel fun _ => rfl

theorem insert_withStrategy (b : Buffer) (s : Strategy) (v : UInt64) :
    (b.withStrategy s).insert memory v = (b.insert memory v).relabel s := by
  cases h : b.firstIndex? v with
  | some i =>
    have h' : (b.withStrategy s).firstIndex? v = some i := h
    rw [insert_of_mem memory h, insert_of_mem memory h']
    rfl
  | none =>
    have hv : v ∉ b.items := firstIndex?_eq_none_iff.1 h
    have hv' : v ∉ (b.withStrategy s).items := hv
    rw [insert_of_not_mem memory hv, insert_of_not_mem memory hv', push, append_withStrategy]
    exact Outcome.andThen_relabel fun _ => rfl

theorem commit_withStrategy (b : Buffer) (s : Strategy) (count : Nat) :
    (b.withStrategy s).commit count = (b.commit count).relabel s := by
  unfold commit
  rw [show (b.withStrategy s).len = b.len from rfl,
    show (b.withStrategy s).capacity = b.capacity from rfl]
  split <;> rfl

theorem swapErase_withStrategy (b : Buffer) (s : Strategy) (v : UInt64) :
    (b.withStrategy s).swapErase v = (b.swapErase v).withStrategy s := by
  unfold swapErase
  rw [show (b.withStrategy s).lastIndex? v = b.lastIndex? v from rfl]
  split <;> rfl

theorem erase_withStrategy (b : Buffer) (s : Strategy) (v : UInt64) :
    (b.withStrategy s).erase v = ((b.erase v).1, (b.erase v).2.withStrategy s) := by
  unfold erase
  rw [show (b.withStrategy s).firstIndex? v = b.firstIndex? v from rfl]
  split <;> rfl

theorem moveToBack_withStrategy (b : Buffer) (s : Strategy) (v : UInt64) :
    (b.withStrategy s).moveToBack v = (b.moveToBack v).withStrategy s := by
  unfold moveToBack
  rw [items_withStrategy]
  split <;> rfl

theorem moveToFront_withStrategy (b : Buffer) (s : Strategy) (v : UInt64) :
    (b.withStrategy s).moveToFront v = (b.moveToFront v).withStrategy s := by
  unfold moveToFront
  rw [show (b.withStrategy s).firstIndex? v = b.firstIndex? v from rfl]
  split <;> rfl

/-! ### Steps -/

/-- The operation answers with the policy or with a text that shows it. -/
def Op.ShowsPolicy : Op → Prop
  | .policy | .describe _ => True
  | _ => False

theorem step_withStrategy (b : Buffer) (s : Strategy) {op : Op} (h : ¬ op.ShowsPolicy) :
    (b.withStrategy s).step memory op = (b.step memory op).relabel s := by
  cases op with
  | policy | describe => exact absurd trivial h
  | push v =>
    rw [step, push, append_withStrategy]
    rfl
  | append vs =>
    rw [step, append_withStrategy]
    rfl
  | reserve additional vs =>
    rw [step, reserve_withStrategy]
    rfl
  | commit count =>
    rw [step, commit_withStrategy]
    rfl
  | insert v =>
    rw [step, insert_withStrategy]
    rfl
  | swapErase v =>
    rw [step, swapErase_withStrategy]
    rfl
  | erase v =>
    rw [step, erase_withStrategy]
    rfl
  | moveToBack v =>
    rw [step, moveToBack_withStrategy]
    rfl
  | moveToFront v =>
    rw [step, moveToFront_withStrategy]
    rfl
  | len | capacity | isEmpty | items | get | contains | find | clear | destroy | display => rfl

/-- Replies to one operation where the strategies are `s` and `t`. They are equal unless the
operation shows the policy, and then the strategy is all that differs in what is shown. -/
inductive SameReply (s t : Strategy) : Op → Except Failure Reply → Except Failure Reply → Prop
  | equal {op : Op} (h : ¬ op.ShowsPolicy) (r : Except Failure Reply) : SameReply s t op r r
  | policy (limit : Option CapacityLimit) :
      SameReply s t .policy (.ok (.policy ⟨s, limit⟩)) (.ok (.policy ⟨t, limit⟩))
  | describe (layout : Layout) (items : List UInt64) (capacity : Nat)
      (limit : Option CapacityLimit) :
      SameReply s t (.describe layout)
        (.ok (.text (describeParts layout items capacity ⟨s, limit⟩)))
        (.ok (.text (describeParts layout items capacity ⟨t, limit⟩)))

theorem SameReply.eq {s t : Strategy} {op : Op} {r r' : Except Failure Reply}
    (h : SameReply s t op r r') (hop : ¬ op.ShowsPolicy) : r = r' := by
  cases h with
  | equal => rfl
  | policy | describe => exact absurd trivial hop

/-- Slot by slot the same, with the same length and limit. -/
structure Alike (a b : Buffer) : Prop where
  slots : a.slots = b.slots
  len : a.len = b.len
  limit : a.policy.limit = b.policy.limit

/-- Two outcomes of one operation differ in nothing but the strategy. -/
structure StepAlike (op : Op) (o p : Outcome Buffer Reply) : Prop where
  reply : SameReply o.state.policy.strategy p.state.policy.strategy op o.result p.result
  state : o.state.Alike p.state
  log : p.log = o.log.map (·.relabel p.state.policy.strategy)

theorem Alike.eq_withStrategy {a b : Buffer} (h : a.Alike b) :
    b = a.withStrategy b.policy.strategy := by
  obtain ⟨slots, len, ⟨s, limit⟩, _⟩ := a
  obtain ⟨slots', len', ⟨t, limit'⟩, _⟩ := b
  obtain ⟨rfl, rfl, rfl⟩ := h
  rfl

theorem alike_withStrategy (b : Buffer) (s : Strategy) : b.Alike (b.withStrategy s) :=
  ⟨rfl, rfl, rfl⟩

theorem Alike.refl (b : Buffer) : b.Alike b := ⟨rfl, rfl, rfl⟩

theorem Alike.items_eq {a b : Buffer} (h : a.Alike b) : a.items = b.items := by
  rw [items, items, h.slots, h.len]

theorem Alike.step {a b : Buffer} (h : a.Alike b) (op : Op) :
    StepAlike op (a.step memory op) (b.step memory op) := by
  rw [h.eq_withStrategy]
  generalize b.policy.strategy = s
  by_cases hop : op.ShowsPolicy
  · cases op with
    | policy => exact ⟨.policy a.policy.limit, a.alike_withStrategy s, rfl⟩
    | describe layout =>
      exact ⟨.describe layout a.items a.capacity a.policy.limit, a.alike_withStrategy s, rfl⟩
    | _ => exact absurd hop id
  · rw [step_withStrategy memory a s hop]
    exact ⟨.equal hop _, alike_withStrategy _ s, rfl⟩

theorem Alike.lockstep {a b : Buffer} (h : a.Alike b) (ops : List Op) :
    Run.Lockstep (Buffer.step memory) (Buffer.step memory) StepAlike a b ops := by
  refine Run.lockstep_of_step _ _ ?_ h
  intro a b op _ hab
  have hstep := hab.step memory op
  exact ⟨hstep, hstep.state⟩

end Buffer

/-! ### Registers -/

namespace Command

/-- Two outcomes of one command differ in nothing but the strategies of the buffers. -/
structure StepAlike (cmd : Command) (o p : Outcome Registers Reply) : Prop where
  reply : match cmd with
    | .on r op =>
      Buffer.SameReply (o.state r).policy.strategy (p.state r).policy.strategy op o.result p.result
    | _ => o.result = p.result
  state : ∀ r, (o.state r).Alike (p.state r)
  log : p.log = o.log.map (·.relabel (p.state cmd.register).policy.strategy)

variable (memory : Memory) {regs regs' : Registers}

theorem stepAlike (h : ∀ i, (regs i).Alike (regs' i)) (cmd : Command) :
    StepAlike cmd (cmd.step memory regs) (cmd.step memory regs') := by
  have hrel := rel_step .refl Buffer.Alike.items_eq h memory cmd
  cases cmd with
  | on r op =>
    obtain ⟨hreply, hstate, hlog⟩ := (h r).step memory op
    refine ⟨?_, Registers.rel_set h hstate r, ?_⟩
    · simpa only [step, Outcome.within, Registers.set_self] using hreply
    · simpa only [step, Outcome.within, register, Registers.set_self] using hlog
  | _ =>
    obtain ⟨hreply, hstate, hlog, hlog'⟩ := hrel (by rintro _ _ ⟨⟩)
    refine ⟨hreply, hstate, ?_⟩
    rw [hlog, hlog']
    rfl

theorem lockstep (h : ∀ i, (regs i).Alike (regs' i)) (cmds : List Command) :
    Run.Lockstep (step memory) (step memory) StepAlike regs regs' cmds := by
  refine Run.lockstep_of_step (P := fun regs regs' : Registers => ∀ i, (regs i).Alike (regs' i))
    _ _ ?_ h
  intro regs regs' cmd _ hregs
  have hstep := stepAlike memory hregs cmd
  exact ⟨hstep, hstep.state⟩

end Command

/-- Buffers that are alike but for their strategies go through every run together, on their own and
in a register among others: the same replies, slots, lengths and limits at every step, and the same
events but for the strategy in which growing is logged. -/
theorem Buffer.Alike.runs {a b : Buffer} (h : a.Alike b) (memory : Memory) :
    (∀ ops, Run.Lockstep (Buffer.step memory) (Buffer.step memory) StepAlike a b ops) ∧
    ∀ (regs : Registers) (r : Nat) (cmds : List Command),
      Run.Lockstep (Command.step memory) (Command.step memory) Command.StepAlike
        (regs.set r a) (regs.set r b) cmds := by
  refine ⟨h.lockstep memory, ?_⟩
  intro regs r cmds
  have hregs : ∀ i, (regs.set r a i).Alike (regs.set r b i) :=
    Registers.rel_set (fun i => .refl (regs i)) h r
  exact Command.lockstep memory hregs cmds

/-- Two items in two slots, with a limit of three. -/
def Buffer.pair (s : Strategy) : Buffer where
  slots := #[5, 9]
  len := 2
  policy := ⟨s, some ⟨3, by decide, by decide⟩⟩

/-- Under either strategy the third slot comes by growing and the fourth is refused. -/
theorem Buffer.runs_pair :
    (pair .inPlace).Alike (pair .copying) ∧
      ((pair .inPlace).step (.upTo 8) (.push 4)).log = [.grew 2 3 .inPlace] ∧
      ((pair .copying).step (.upTo 8) (.push 4)).log = [.grew 2 3 .copying] ∧
      (((pair .copying).step (.upTo 8) (.push 4)).state.step (.upTo 8) (.push 7)).result =
        .error (.overLimit 4 3) := by
  have h : (pair .inPlace).Alike (pair .copying) := ⟨rfl, rfl, rfl⟩
  obtain ⟨hruns, -⟩ := Alike.runs h (.upTo 8)
  obtain ⟨hgrown, hrefused, -⟩ := hruns [.push 4, .push 7]
  refine ⟨h, rfl, ?_, ?_⟩
  · rw [hgrown.log]
    rfl
  · rw [← hrefused.reply.eq id]
    rfl

end SlotBuffer
