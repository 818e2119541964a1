import SlotBuffer.Registers
import SlotBuffer.Run

/-! What the spare slots hold is of no consequence. Values that were removed, cleared or written
into a window stay in the slots behind the items, but only a window shows them and only a commit
makes items of them. Two buffers that differ in nothing else go through every run without a commit
side by side, and what their windows hold is all that tells them apart. -/

namespace SlotBuffer

namespace Buffer

/-- The same but for what the spare slots hold. -/
structure UpToSpare (a b : Buffer) : Prop where
  items : a.items = b.items
  capacity : a.capacity = b.capacity
  policy : a.policy = b.policy

end Buffer

/-- The same but for what the spare slots of the two states hold. -/
structure Outcome.UpToSpare {α : Type} (o p : Outcome Buffer α) : Prop where
  result : o.result = p.result
  state : o.state.UpToSpare p.state
  log : o.log = p.log

namespace Outcome.UpToSpare

variable {α β : Type} {o p : Outcome Buffer α}

theorem map (h : o.UpToSpare p) (f : α → β) : (o.map f).UpToSpare (p.map f) where
  result := congrArg (Except.map f) h.result
  state := h.state
  log := h.log

theorem andThen (h : o.UpToSpare p) {f : Buffer → Buffer × β}
    (hf : ∀ a b : Buffer, a.UpToSpare b → (f a).1.UpToSpare (f b).1 ∧ (f a).2 = (f b).2) :
    (o.andThen f).UpToSpare (p.andThen f) := by
  obtain ⟨hres, hstate, hlog⟩ := h
  obtain ⟨hnext, hvalue⟩ := hf _ _ hstate
  unfold Outcome.andThen
  rw [hres]
  cases p.result with
  | ok => exact ⟨congrArg Except.ok hvalue, hnext, hlog⟩
  | error cause => exact ⟨rfl, hstate, hlog⟩

end Outcome.UpToSpare

namespace Buffer

/-! ### Views and slots -/

/-- Of the values that are laid over spare slots, those become items for which there are slots. -/
theorem items_fill_advance (b : Buffer) (vs : List UInt64) :
    ((b.fill vs).advance vs.length).items = b.items ++ vs.take (b.capacity - b.len) := by
  rw [items_advance, items_fill, spare_fill, length_spare]
  congr 1
  rcases Nat.le_total vs.length (b.capacity - b.len) with h | h
  · rw [List.take_of_length_le h, List.take_left]
  · have hspare : b.spare.drop vs.length = [] := by
      rw [List.drop_eq_nil_iff, length_spare]
      exact h
    rw [hspare, List.append_nil, List.take_take, Nat.min_eq_right h]

namespace UpToSpare

variable {a b : Buffer}

theorem refl (b : Buffer) : b.UpToSpare b := ⟨rfl, rfl, rfl⟩

theorem len (h : a.UpToSpare b) : a.len = b.len := by
  rw [← length_items, h.items, length_items]

theorem display (h : a.UpToSpare b) : a.display = b.display :=
  congrArg (showItems .inline 0) h.items

theorem describe (h : a.UpToSpare b) (layout : Layout) : a.describe layout = b.describe layout := by
  rw [Buffer.describe, h.items, h.capacity, h.policy, Buffer.describe]

theorem enlarge (h : a.UpToSpare b) (extra : Nat) :
    (a.enlarge extra).UpToSpare (b.enlarge extra) where
  items := by rw [items_enlarge, items_enlarge, h.items]
  capacity := by rw [capacity_enlarge, capacity_enlarge, h.capacity]
  policy := h.policy

theorem fill (h : a.UpToSpare b) (vs : List UInt64) : (a.fill vs).UpToSpare (b.fill vs) where
  items := by rw [items_fill, items_fill, h.items]
  capacity := by rw [capacity_fill, capacity_fill, h.capacity]
  policy := h.policy

theorem fill_advance (h : a.UpToSpare b) (vs : List UInt64) :
    ((a.fill vs).advance vs.length).UpToSpare ((b.fill vs).advance vs.length) where
  items := by rw [items_fill_advance, items_fill_advance, h.items, h.capacity, h.len]
  capacity := (h.fill vs).capacity
  policy := h.policy

/-! ### Operations -/

theorem done {α : Type} (h : a.UpToSpare b) {x y : α} (hxy : x = y) :
    (Outcome.done a x).UpToSpare (.done b y) :=
  ⟨congrArg Except.ok hxy, h, rfl⟩

variable (memory : Memory)

/-- Whether and how far a buffer grows hangs on its capacity and its policy alone. -/
theorem grow (h : a.UpToSpare b) (target : Nat) :
    (a.grow memory target).UpToSpare (b.grow memory target) := by
  simp only [Buffer.grow, h.policy, h.capacity]
  cases b.policy.exceeded? target with
  | some limit => exact ⟨rfl, h, rfl⟩
  | none =>
    cases b.policy.strategy.request memory b.capacity
        (b.policy.nextCapacity b.capacity target) with
    | error cause => exact ⟨rfl, h, rfl⟩
    | ok => exact ⟨rfl, h.enlarge _, rfl⟩

theorem makeRoom (h : a.UpToSpare b) (additional : Nat) :
    (a.makeRoom memory additional).UpToSpare (b.makeRoom memory additional) := by
  simp only [Buffer.makeRoom, h.len, h.capacity]
  split
  · exact ⟨rfl, h, rfl⟩
  split
  · exact h.done rfl
  · exact h.grow memory _

theorem append (h : a.UpToSpare b) (vs : List UInt64) :
    (a.append memory vs).UpToSpare (b.append memory vs) := by
  unfold Buffer.append
  split
  · exact h.done rfl
  · apply (h.makeRoom memory vs.length).andThen
    intro c d hcd
    exact ⟨hcd.fill_advance vs, rfl⟩

theorem insert (h : a.UpToSpare b) (v : UInt64) :
    (a.insert memory v).UpToSpare (b.insert memory v) := by
  have hfirst : a.firstIndex? v = b.firstIndex? v := by rw [firstIndex?, h.items, firstIndex?]
  simp only [Buffer.insert, hfirst, h.len]
  split
  · exact h.done rfl
  · apply (h.append memory [v]).andThen
    intro c d hcd
    exact ⟨hcd, rfl⟩

theorem swapErase (h : a.UpToSpare b) (v : UInt64) :
    (a.swapErase v).UpToSpare (b.swapErase v) where
  items := by rw [items_swapErase, items_swapErase, h.items]
  capacity := by rw [capacity_swapErase, capacity_swapErase, h.capacity]
  policy := by rw [policy_swapErase, policy_swapErase, h.policy]

theorem erase (h : a.UpToSpare b) (v : UInt64) : (a.erase v).2.UpToSpare (b.erase v).2 where
  items := by rw [items_erase, items_erase, h.items]
  capacity := by rw [capacity_erase, capacity_erase, h.capacity]
  policy := by rw [policy_erase, policy_erase, h.policy]

theorem moveToBack (h : a.UpToSpare b) (v : UInt64) :
    (a.moveToBack v).UpToSpare (b.moveToBack v) where
  items := by rw [items_moveToBack, items_moveToBack, h.items]
  capacity := by rw [capacity_moveToBack, capacity_moveToBack, h.capacity]
  policy := by rw [policy_moveToBack, policy_moveToBack, h.policy]

theorem moveToFront (h : a.UpToSpare b) (v : UInt64) :
    (a.moveToFront v).UpToSpare (b.moveToFront v) where
  items := by rw [items_moveToFront, items_moveToFront, h.items]
  capacity := by rw [capacity_moveToFront, capacity_moveToFront, h.capacity]
  policy := by rw [policy_moveToFront, policy_moveToFront, h.policy]

theorem clear (h : a.UpToSpare b) : a.clear.UpToSpare b.clear where
  items := by rw [items_clear, items_clear]
  capacity := h.capacity
  policy := h.policy

theorem destroy (h : a.UpToSpare b) : a.destroy.UpToSpare b.destroy := by
  rw [Buffer.destroy, h.policy, Buffer.destroy]
  exact .refl _

end UpToSpare

/-! ### Steps -/

/-- A window is there to be written: of what it holds, only the number of slots is told. -/
def Op.veil : Op → Reply → Reply
  | .reserve .., .values vs => .count vs.length
  | _, reply => reply

/-- Two outcomes of one operation that differ at most in what spare slots hold. -/
structure StepUpToSpare (op : Op) (o p : Outcome Buffer Reply) : Prop where
  reply : o.result.map op.veil = p.result.map op.veil
  state : o.state.UpToSpare p.state
  len : o.state.len = p.state.len
  display : o.state.display = p.state.display
  describe : ∀ layout, o.state.describe layout = p.state.describe layout
  log : o.log = p.log

theorem stepUpToSpare {op : Op} {o p : Outcome Buffer Reply}
    (hreply : o.result.map op.veil = p.result.map op.veil) (hstate : o.state.UpToSpare p.state)
    (hlog : o.log = p.log) : StepUpToSpare op o p :=
  ⟨hreply, hstate, hstate.len, hstate.display, hstate.describe, hlog⟩

variable {a b : Buffer} (memory : Memory)

/-- Two windows have the same slots, whatever these hold. -/
theorem UpToSpare.reserve (h : a.UpToSpare b) (additional : Nat) (vs : List UInt64) :
    StepUpToSpare (.reserve additional vs) (a.step memory (.reserve additional vs))
      (b.step memory (.reserve additional vs)) := by
  obtain ⟨hres, hstate, hlog⟩ := h.makeRoom memory additional
  rw [step, step]
  cases hb : (b.makeRoom memory additional).result with
  | error cause =>
    rw [reserve_of_error memory hb, reserve_of_error memory (hres.trans hb)]
    exact stepUpToSpare rfl hstate hlog
  | ok =>
    rw [reserve_of_ok memory hb, reserve_of_ok memory (hres.trans hb)]
    refine stepUpToSpare ?_ (hstate.fill _) hlog
    have hwindow : ((a.makeRoom memory additional).state.spare.take additional).length =
        ((b.makeRoom memory additional).state.spare.take additional).length := by
      rw [List.length_take, List.length_take, length_spare, length_spare, hstate.capacity,
        hstate.len]
    exact congrArg (fun n => Except.ok (Reply.count n)) hwindow

theorem UpToSpare.step (h : a.UpToSpare b) {op : Op} (hop : ∀ count, op ≠ .commit count) :
    StepUpToSpare op (a.step memory op) (b.step memory op) := by
  have veiled {o p : Outcome Buffer Reply} (h : o.UpToSpare p) : StepUpToSpare op o p :=
    stepUpToSpare (congrArg _ h.result) h.state h.log
  cases op with
  | commit count => exact absurd rfl (hop count)
  | reserve additional vs => exact h.reserve memory additional vs
  | push v => exact veiled ((h.append memory [v]).map _)
  | append vs => exact veiled ((h.append memory vs).map _)
  | insert v => exact veiled ((h.insert memory v).map _)
  | swapErase v => exact veiled ((h.swapErase v).done rfl)
  | erase v =>
    have hindex : (a.erase v).1 = (b.erase v).1 := by
      rw [erase_index, erase_index, firstIndex?, h.items, firstIndex?]
    exact veiled ((h.erase v).done (congrArg Reply.index hindex))
  | moveToBack v => exact veiled ((h.moveToBack v).done rfl)
  | moveToFront v => exact veiled ((h.moveToFront v).done rfl)
  | clear => exact veiled (h.clear.done rfl)
  | destroy => exact veiled (h.destroy.done rfl)
  | policy => exact veiled (h.done (congrArg Reply.policy h.policy))
  | len => exact veiled (h.done (congrArg Reply.count h.len))
  | capacity => exact veiled (h.done (congrArg Reply.count h.capacity))
  | isEmpty => exact veiled (h.done (congrArg (fun n => Reply.flag (n == 0)) h.len))
  | items => exact veiled (h.done (congrArg Reply.values h.items))
  | get i => exact veiled (h.done (congrArg (fun xs => Reply.value xs[i]?) h.items))
  | contains v =>
    exact veiled (h.done (congrArg (fun xs => Reply.flag (lastIdxOf? v xs).isSome) h.items))
  | find v => exact veiled (h.done (congrArg (fun xs => Reply.index (lastIdxOf? v xs)) h.items))
  | display => exact veiled (h.done (congrArg Reply.text h.display))
  | describe layout => exact veiled (h.done (congrArg Reply.text (h.describe layout)))

theorem UpToSpare.lockstep (h : a.UpToSpare b) {ops : List Op}
    (hops : ∀ count, .commit count ∉ ops) :
    Run.Lockstep (Buffer.step memory) (Buffer.step memory) StepUpToSpare a b ops := by
  refine Run.lockstep_of_step _ _ ?_ h
  intro a b op hop hab
  have hstep := hab.step memory fun count => ne_of_mem_of_not_mem hop (hops count)
  exact ⟨hstep, hstep.state⟩

end Buffer

/-! ### Registers -/

namespace Command

def veil : Command → Reply → Reply
  | .on _ op => op.veil
  | _ => id

/-- Two outcomes of one command that differ at most in what spare slots hold. -/
structure StepUpToSpare (cmd : Command) (o p : Outcome Registers Reply) : Prop where
  reply : o.result.map cmd.veil = p.result.map cmd.veil
  state : ∀ r, (o.state r).UpToSpare (p.state r)
  log : o.log = p.log

variable (memory : Memory) {regs regs' : Registers}

theorem stepUpToSpare (h : ∀ i, (regs i).UpToSpare (regs' i)) {cmd : Command}
    (hcmd : ∀ r count, cmd ≠ .on r (.commit count)) :
    StepUpToSpare cmd (cmd.step memory regs) (cmd.step memory regs') := by
  have hrel := rel_step .refl Buffer.UpToSpare.items h memory cmd
  cases cmd with
  | on r op =>
    have hop : ∀ count, op ≠ .commit count := by
      rintro count rfl
      exact hcmd r count rfl
    have hstep := (h r).step memory hop
    exact ⟨hstep.reply, Registers.rel_set h hstep.state r, hstep.log⟩
  | _ =>
    obtain ⟨hreply, hstate, hlog, hlog'⟩ := hrel (by rintro _ _ ⟨⟩)
    exact ⟨congrArg _ hreply, hstate, hlog.trans hlog'.symm⟩

theorem lockstep_upToSpare (h : ∀ i, (regs i).UpToSpare (regs' i)) {cmds : List Command}
    (hcmds : ∀ r count, .on r (.commit count) ∉ cmds) :
    Run.Lockstep (step memory) (step memory) StepUpToSpare regs regs' cmds := by
  refine Run.lockstep_of_step
    (P := fun regs regs' : Registers => ∀ i, (regs i).UpToSpare (regs' i)) _ _ ?_ h
  intro regs regs' cmd hcmd hregs
  have hstep := stepUpToSpare memory hregs fun r count => ne_of_mem_of_not_mem hcmd (hcmds r count)
  exact ⟨hstep, hstep.state⟩

end Command

/-- Buffers that differ only in what their spare slots hold go through every run without a commit
together, on their own and in a register among others: the same replies but for what windows hold,
the same items, capacities, texts and events at every step. -/
theorem Buffer.UpToSpare.runs_agree {a b : Buffer} (h : a.UpToSpare b) (memory : Memory) :
    (∀ ops : List Op, (∀ count, .commit count ∉ ops) →
      Run.Lockstep (Buffer.step memory) (Buffer.step memory) StepUpToSpare a b ops) ∧
    ∀ (regs : Registers) (r : Nat) (cmds : List Command),
      (∀ i count, .on i (.commit count) ∉ cmds) →
      Run.Lockstep (Command.step memory) (Command.step memory) Command.StepUpToSpare
        (regs.set r a) (regs.set r b) cmds := by
  refine ⟨fun ops hops => h.lockstep memory hops, ?_⟩
  intro regs r cmds hcmds
  have hregs : ∀ i, (regs.set r a i).UpToSpare (regs.set r b i) :=
    Registers.rel_set (fun i => .refl (regs i)) h r
  exact Command.lockstep_upToSpare memory hregs hcmds

/-- Two items, and two spare slots that hold `x` and `y`. -/
def Buffer.stale (x y : UInt64) : Buffer where
  slots := #[5, 9, x, y]
  len := 2

/-- The windows tell these two apart, but neither the next items nor the texts nor what is drained
from them do. -/
theorem Buffer.runs_agree_stale :
    let ops := [.reserve 2 [4], .push 6, .erase 5]
    let cmds := [.on 0 (.append [6, 3, 8]), .on 0 (.swapErase 5), .drain 0]
    (stale 1 2).UpToSpare (stale 7 9) ∧ (∀ count, .commit count ∉ ops) ∧
      (∀ i count, .on i (.commit count) ∉ cmds) ∧
      ((stale 1 2).step (.upTo 8) (.reserve 2 [4])).result = .ok (.values [1, 2]) ∧
      ((stale 7 9).step (.upTo 8) (.reserve 2 [4])).result = .ok (.values [7, 9]) ∧
      (Run.final (Buffer.step (.upTo 8)) (stale 7 9) ops).display = "[9, 6]" ∧
      Run.Lockstep (Command.step (.upTo 8)) (Command.step (.upTo 8)) Command.StepUpToSpare
        (Registers.initial.set 0 (stale 1 2)) (Registers.initial.set 0 (stale 7 9)) cmds := by
  intro ops cmds
  have h : (stale 1 2).UpToSpare (stale 7 9) := ⟨rfl, rfl, rfl⟩
  have hops : ∀ count, .commit count ∉ ops := by simp [ops]
  have hcmds : ∀ i count, .on i (.commit count) ∉ cmds := by simp [cmds]
  obtain ⟨hruns, hregs⟩ := h.runs_agree (.upTo 8)
  obtain ⟨-, -, herased, -⟩ := hruns ops hops
  exact ⟨h, hops, hcmds, rfl, rfl, herased.display.symm, hregs _ 0 cmds hcmds⟩

end SlotBuffer
