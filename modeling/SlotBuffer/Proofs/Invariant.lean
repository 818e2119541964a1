import SlotBuffer.Checked.Total
import SlotBuffer.Proofs.Refinement
import SlotBuffer.Registers

/-! What is true of every buffer that commands can bring about. No capacity exceeds an allocation
or the limit of its policy. That this can be kept up at all hangs on the policy, which stays with a
buffer for as long as the buffer does: a limit never comes to bear on slots that were there before
it. -/

namespace SlotBuffer

/-! ### Policy and capacity across a step -/

namespace Contents

variable {memory : Memory} {c d : Contents} {op : Buffer.Op} {r : Except Failure Reply}

theorem Step.policy_eq (h : Step memory c op r d) : d.policy = c.policy := by
  cases h with
  | append_ok _ room | push_ok room | insert_ok _ room | reserve_ok room =>
    exact room.policy_eq
  | _ => rfl

/-- The capacity is that of `c`, or the one to which `c` grows for some number of items. -/
def KeptOrGrown (memory : Memory) (c : Contents) (capacity : Nat) : Prop :=
  capacity = c.capacity ∨
    ∃ additional, c.Grows memory additional ∧ capacity = c.grownCapacity additional

/-- Spare slots with values laid over the first of them are as many as before. -/
theorem Room.keptOrGrown_fill {n : Nat} {vs : List UInt64} (h : Room memory c n (.ok d))
    (hvs : vs.length ≤ n) :
    KeptOrGrown memory c (capacity { d with spare := vs ++ d.spare.drop vs.length }) := by
  obtain ⟨hroom, hcap⟩ := h.capacity_cases
  have heq : capacity { d with spare := vs ++ d.spare.drop vs.length } = d.capacity := by
    have hitems := h.items_eq
    simp only [capacity, hitems, List.length_append, List.length_drop] at hroom ⊢
    omega
  rw [heq]
  exact hcap.imp_right fun hgrown => ⟨n, hgrown⟩

/-- Spare slots that become items are slots still. -/
theorem Room.keptOrGrown_append (vs : List UInt64) (h : Room memory c vs.length (.ok d)) :
    KeptOrGrown memory c
      (capacity { d with items := c.items ++ vs, spare := d.spare.drop vs.length }) := by
  have heq : capacity { d with items := c.items ++ vs, spare := d.spare.drop vs.length } =
      capacity { d with spare := vs ++ d.spare.drop vs.length } := by
    simp only [capacity, h.items_eq, List.length_append]
    omega
  rw [heq]
  exact h.keptOrGrown_fill (Nat.le_refl _)

/-- A capacity changes in two ways only: destroying gives the slots back, and making room grows the
buffer to the capacity that its policy says. -/
theorem Step.capacity_cases (h : Step memory c op r d) :
    op = .destroy ∧ d.capacity = 0 ∨ KeptOrGrown memory c d.capacity := by
  cases h with
  | append_ok _ room => exact .inr (room.keptOrGrown_append _)
  | push_ok room | insert_ok _ room => exact .inr (Room.keptOrGrown_append [_] room)
  | reserve_ok room => exact .inr (room.keptOrGrown_fill (List.length_take_le ..))
  | destroy => exact .inl ⟨rfl, rfl⟩
  | commit_ok h | swapErase_last h | swapErase_mem h _ | erase_mem h _ _ | moveToBack_mem h _ _
  | moveToFront_mem h _ =>
    refine .inr (.inl ?_)
    simp only [Contents.capacity, h, List.length_append, List.length_cons, List.length_nil,
      List.length_take, List.length_drop]
    omega
  | clear =>
    refine .inr (.inl ?_)
    simp [Contents.capacity]
  | _ => exact .inr (.inl rfl)

end Contents

/-! ### Bounded buffers -/

namespace Buffer

variable (memory : Memory)

theorem policy_step (b : Buffer) (op : Op) : (b.step memory op).state.policy = b.policy :=
  (b.rule_step memory op).policy_eq

theorem capacity_step (b : Buffer) (op : Op) :
    op = .destroy ∧ (b.step memory op).state.capacity = 0 ∨
      Contents.KeptOrGrown memory b.contents (b.step memory op).state.capacity := by
  have h := (b.rule_step memory op).capacity_cases
  rwa [capacity_contents] at h

theorem capacity_le_step (b : Buffer) {op : Op} (hop : op ≠ .destroy) :
    b.capacity ≤ (b.step memory op).state.capacity := by
  rcases b.capacity_step memory op with ⟨hd, _⟩ | hkept | ⟨n, hgrows, hcap⟩
  · exact absurd hd hop
  · exact Nat.le_of_eq (by rw [hkept, capacity_contents])
  · have hlt := hgrows.capacity_lt
    rw [capacity_contents] at hlt
    omega

/-- The capacity is that of some allocation and within the limit. -/
structure Bounded (b : Buffer) : Prop where
  le_maxSlots : b.capacity ≤ maxSlots
  le_limit : ∀ limit ∈ b.policy.limit, b.capacity ≤ limit.slots

theorem Bounded.len_le_maxLength {b : Buffer} (h : b.Bounded) : b.len ≤ maxLength := by
  have hlen := b.len_le_capacity
  have hmax := h.le_maxSlots
  have hword := two_mul_maxSlots_le
  omega

theorem bounded_of_capacity_eq_zero {b : Buffer} (h : b.capacity = 0) : b.Bounded := by
  constructor
  · omega
  · intro limit _
    omega

theorem bounded_empty (policy : Policy) : (empty policy).Bounded :=
  bounded_of_capacity_eq_zero rfl

theorem bounded_ofList {vs : List UInt64} (h : vs.length ≤ maxSlots) : (ofList vs).Bounded where
  le_maxSlots := by simpa [capacity, ofList] using h
  le_limit := by
    intro limit hl
    cases hl

theorem Bounded.step {b : Buffer} (h : b.Bounded) (op : Op) :
    (b.step memory op).state.Bounded := by
  rcases b.capacity_step memory op with ⟨_, hzero⟩ | hkept | ⟨n, hgrows, hcap⟩
  · exact bounded_of_capacity_eq_zero hzero
  · rw [capacity_contents] at hkept
    constructor
    · rw [hkept]
      exact h.le_maxSlots
    · rw [hkept, policy_step]
      exact h.le_limit
  · constructor
    · rw [hcap]
      exact hgrows.le_maxSlots
    · intro limit hl
      rw [policy_step] at hl
      rw [hcap]
      exact CapacityLimit.clamp_le_limit hl _

end Buffer

/-! ### Registers -/

namespace Command

/-- No list is taken over that no allocation could hold. -/
def Feasible : Command → Prop
  | .adopt _ vs => vs.length ≤ maxSlots
  | _ => True

instance : DecidablePred Feasible
  | .adopt _ vs => inferInstanceAs (Decidable (vs.length ≤ maxSlots))
  | .on .. | .create _ | .configure .. | .drain _ | .copy .. | .compare .. =>
    inferInstanceAs (Decidable True)

/-- Puts another buffer into register `i`. -/
def Replaces : Command → Nat → Prop
  | .create r, i | .adopt r _, i | .drain r, i | .copy r _, i => i = r
  | .configure r strategy limit, i => i = r ∧ ∃ policy, Policy.make strategy limit = .ok policy
  | .on .., _ | .compare .., _ => False

variable {memory : Memory} {regs : Registers} {cmd : Command}

theorem bounded_set {r : Nat} {b : Buffer} (h : ∀ i, (regs i).Bounded) (hb : b.Bounded) (i : Nat) :
    (regs.set r b i).Bounded := by
  by_cases hi : i = r
  · subst hi
    rwa [Registers.set_self]
  · rw [Registers.set_of_ne regs b hi]
    exact h i

theorem bounded_step (hcmd : cmd.Feasible) (h : ∀ i, (regs i).Bounded) (i : Nat) :
    ((cmd.step memory regs).state i).Bounded := by
  cases cmd with
  | on r op => exact bounded_set h ((h r).step memory op) i
  | create r => exact bounded_set h (Buffer.bounded_empty _) i
  | configure r strategy limit =>
    cases hp : Policy.make strategy limit with
    | ok p =>
      rw [step_configure_of_ok memory regs r hp]
      exact bounded_set h (Buffer.bounded_empty p) i
    | error cause =>
      rw [step_configure_of_error memory regs r hp]
      exact h i
  | adopt r vs => exact bounded_set h (Buffer.bounded_ofList hcmd) i
  | drain r => exact bounded_set h (Buffer.bounded_empty _) i
  | copy r source => exact bounded_set h (h source) i
  | compare r other => exact h i

/-- A register that is not replaced is operated on or keeps its buffer. -/
theorem register_cases {i : Nat} (h : ¬ cmd.Replaces i) :
    (cmd.step memory regs).state i = regs i ∨
      ∃ op, cmd = .on i op ∧ (cmd.step memory regs).state i = ((regs i).step memory op).state := by
  have other {r : Nat} (b : Buffer) (hi : i ≠ r) : regs.set r b i = regs i :=
    Registers.set_of_ne regs b hi
  cases cmd with
  | on r op =>
    by_cases hi : i = r
    · subst hi
      exact .inr ⟨op, rfl, Registers.set_self ..⟩
    · exact .inl (other _ hi)
  | configure r strategy limit =>
    cases hp : Policy.make strategy limit with
    | ok p =>
      rw [step_configure_of_ok memory regs r hp]
      exact .inl (other _ fun hi => h ⟨hi, p, hp⟩)
    | error cause =>
      rw [step_configure_of_error memory regs r hp]
      exact .inl rfl
  | create r | adopt r _ | drain r | copy r _ => exact .inl (other _ h)
  | compare r other => exact .inl rfl

theorem policy_step {i : Nat} (h : ¬ cmd.Replaces i) :
    ((cmd.step memory regs).state i).policy = (regs i).policy := by
  rcases register_cases h with hkept | ⟨op, _, hop⟩
  · rw [hkept]
  · rw [hop, Buffer.policy_step]

theorem capacity_le_step {i : Nat} (h : ¬ cmd.Replaces i) (hd : cmd ≠ .on i .destroy) :
    (regs i).capacity ≤ ((cmd.step memory regs).state i).capacity := by
  rcases register_cases h with hkept | ⟨op, hcmd, hop⟩
  · exact Nat.le_of_eq (by rw [hkept])
  · rw [hop]
    apply Buffer.capacity_le_step
    rintro rfl
    exact hd hcmd

end Command

/-! ### Reachable states -/

/-- Some commands lead from unwritten registers to `regs`. -/
def Registers.Reachable (memory : Memory) (regs : Registers) : Prop :=
  ∃ cmds : List Command, (∀ cmd ∈ cmds, cmd.Feasible) ∧
    Run.final (Command.step memory) .initial cmds = regs

/-- The buffer stands in a register after some commands. -/
def Buffer.Reachable (memory : Memory) (b : Buffer) : Prop :=
  ∃ regs r, Registers.Reachable memory regs ∧ regs r = b

theorem Registers.Reachable.bounded {memory : Memory} {regs : Registers}
    (h : Registers.Reachable memory regs) (i : Nat) : (regs i).Bounded := by
  obtain ⟨cmds, hcmds, rfl⟩ := h
  have hstart : ∀ i, (Registers.initial i).Bounded := fun _ => Buffer.bounded_empty _
  refine Run.final_induction (P := fun regs : Registers => ∀ i, (regs i).Bounded) _ ?_ hstart i
  intro regs cmd hcmd hregs
  exact Command.bounded_step (hcmds cmd hcmd) hregs

theorem Buffer.Reachable.bounded {memory : Memory} {b : Buffer}
    (h : Buffer.Reachable memory b) : b.Bounded := by
  obtain ⟨regs, r, hregs, rfl⟩ := h
  exact hregs.bounded r

theorem Registers.reachable_initial (memory : Memory) : Registers.Reachable memory .initial :=
  ⟨[], by simp, rfl⟩

theorem Registers.Reachable.next {memory : Memory} {regs : Registers} {cmd : Command}
    (h : Registers.Reachable memory regs) (hcmd : cmd.Feasible) :
    Registers.Reachable memory (cmd.step memory regs).state := by
  obtain ⟨cmds, hcmds, rfl⟩ := h
  refine ⟨cmds ++ [cmd], ?_, Run.final_append ..⟩
  rw [List.forall_mem_append]
  exact ⟨hcmds, by simpa using hcmd⟩

theorem Buffer.reachable_empty (memory : Memory) (policy : Policy) :
    Buffer.Reachable memory (.empty policy) := by
  let cmd : Command := .configure 0 policy.strategy (policy.limit.map (·.slots))
  have hstep : Registers.Reachable memory (cmd.step memory .initial).state :=
    (Registers.reachable_initial memory).next trivial
  refine ⟨_, 0, hstep, ?_⟩
  rw [Command.step_configure_of_ok memory _ 0 policy.make_parts]
  exact Registers.set_self .initial 0 _

theorem Buffer.Reachable.next {memory : Memory} {b : Buffer} (h : Buffer.Reachable memory b)
    (op : Op) : Buffer.Reachable memory (b.step memory op).state := by
  obtain ⟨regs, r, hregs, rfl⟩ := h
  have hstep : Registers.Reachable memory ((Command.on r op).step memory regs).state :=
    hregs.next trivial
  exact ⟨_, r, hstep, Registers.set_self ..⟩

/-- In every register of a reachable state the length is within the capacity, and the capacity
within an allocation and within the limit. An operation cannot break the first of these bounds even
where nothing ties a length to the slots. Only giving the slots back or replacing the buffer lowers
a capacity, and only replacing the buffer changes a policy. -/
theorem Registers.Reachable.invariant {memory : Memory} {regs : Registers}
    (h : Registers.Reachable memory regs) :
    (∀ i, (regs i).len ≤ (regs i).capacity ∧ (regs i).capacity ≤ maxSlots ∧
      ∀ limit ∈ (regs i).policy.limit, (regs i).capacity ≤ limit.slots) ∧
    (∀ i op, ∃ o, Checked.step? memory (Checked.state (regs i)) op = some o ∧
      o.state.len ≤ o.state.slots.size) ∧
    ∀ (cmd : Command) (i : Nat), ¬ cmd.Replaces i →
      ((cmd.step memory regs).state i).policy = (regs i).policy ∧
      (cmd ≠ .on i .destroy →
        (regs i).capacity ≤ ((cmd.step memory regs).state i).capacity) := by
  refine ⟨?_, ?_, ?_⟩
  · intro i
    obtain ⟨hmax, hlimit⟩ := h.bounded i
    exact ⟨(regs i).len_le_capacity, hmax, hlimit⟩
  · intro i op
    refine ⟨_, Checked.step?_state memory (h.bounded i).le_maxSlots op, ?_⟩
    exact ((regs i).step memory op).state.len_le
  · intro cmd i hreplaces
    exact ⟨Command.policy_step hreplaces, Command.capacity_le_step hreplaces⟩

/-- Doubling two slots would pass the limit of three, and a copy of the buffer has the limit too. -/
def Registers.clamped : Registers :=
  Run.final (Command.step (.upTo 8)) .initial
    [.configure 0 .copying (some 3), .on 0 (.append [5, 9]), .on 0 (.push 4), .adopt 1 [7],
      .copy 1 0, .on 0 (.erase 9)]

theorem Registers.reachable_clamped : Registers.Reachable (.upTo 8) .clamped :=
  ⟨_, by decide, rfl⟩

theorem Registers.invariant_clamped :
    Registers.Reachable (.upTo 8) .clamped ∧ (Registers.clamped 1).capacity = 3 ∧
      (Registers.clamped 1).capacity ≤ maxSlots ∧
      ∀ i, ((Command.step (.upTo 8) .clamped (.on 1 .clear)).state i).policy =
        (Registers.clamped i).policy := by
  obtain ⟨hbounds, -, hkept⟩ := Registers.Reachable.invariant Registers.reachable_clamped
  refine ⟨Registers.reachable_clamped, by decide, (hbounds 1).2.1, ?_⟩
  intro i
  exact (hkept (.on 1 .clear) i (by simp [Command.Replaces])).1

end SlotBuffer
