import SlotBuffer.Registers
import SlotBuffer.Run

/-! Equality of buffers is equality of their items, and no operation on items can tell equal buffers
apart. Capacities, leftovers and policies may differ, so that one buffer grows where the other
writes in place; as long as every insertion succeeds in both, they answer alike and stay equal. -/

namespace SlotBuffer

namespace Buffer

/-! ### The relation -/

theorem beq_iff {a b : Buffer} : a == b ↔ a.items = b.items := by
  have hbeq : (a == b) = (a.items == b.items) := rfl
  rw [hbeq, beq_iff_eq]

theorem equivalence_beq : Equivalence fun a b : Buffer => (a == b) = true where
  refl _ := beq_iff.2 rfl
  symm h := beq_iff.2 (beq_iff.1 h).symm
  trans h h' := beq_iff.2 ((beq_iff.1 h).trans (beq_iff.1 h'))

/-- The buffer with these items and spare slots. -/
def ofViews (items spare : List UInt64) (policy : Policy) : Buffer where
  slots := (items ++ spare).toArray
  len := items.length
  policy := policy

theorem views_ofViews (items spare : List UInt64) (policy : Policy) :
    (ofViews items spare policy).items = items ∧ (ofViews items spare policy).spare = spare :=
  views_eq rfl rfl

/-! ### Steps -/

/-- The operation works on the items: it shows neither spare slots nor their number, and does not
show the policy. -/
def Op.OnItems : Op → Prop
  | .policy | .capacity | .reserve .. | .commit _ | .describe _ => False
  | _ => True

/-- The operation adds items. -/
def Op.Inserts : Op → Prop
  | .push _ | .append _ | .insert _ => True
  | _ => False

end Buffer

namespace Outcome

variable {σ α β : Type} {E : σ → σ → Prop} {o p : Outcome σ α}

/-- The same result, and states that are equal in the sense of `E`. -/
structure Agree (E : σ → σ → Prop) (o p : Outcome σ α) : Prop where
  result : o.result = p.result
  state : E o.state p.state

def BothSucceed (o p : Outcome σ α) : Prop :=
  (∃ x, o.result = .ok x) ∧ ∃ y, p.result = .ok y

theorem Agree.map (h : Agree E o p) (f : α → β) : Agree E (o.map f) (p.map f) :=
  ⟨congrArg (Except.map f) h.result, h.state⟩

theorem BothSucceed.of_map {f : α → β} (h : BothSucceed (o.map f) (p.map f)) :
    BothSucceed o p := by
  obtain ⟨⟨x, hx⟩, y, hy⟩ := h
  obtain ⟨x', ho, -⟩ := result_map_eq_ok.1 hx
  obtain ⟨y', hp, -⟩ := result_map_eq_ok.1 hy
  exact ⟨⟨x', ho⟩, y', hp⟩

end Outcome

namespace Buffer

open Outcome (Agree BothSucceed)

variable {a b : Buffer} {memory memory' : Memory}

theorem agree_done {α : Type} {x y : α} (h : a.items = b.items) (hxy : x = y) :
    Agree (· == ·) (Outcome.done a x) (.done b y) :=
  ⟨congrArg Except.ok hxy, beq_iff.2 h⟩

theorem len_congr (h : a.items = b.items) : a.len = b.len := by
  rw [← length_items, h, length_items]

theorem firstIndex?_congr (h : a.items = b.items) (v : UInt64) :
    a.firstIndex? v = b.firstIndex? v := by
  rw [firstIndex?, h, firstIndex?]

/-- One buffer may have grown for the values and the other not: behind the items they are the same. -/
theorem agree_append (h : a.items = b.items) {vs : List UInt64}
    (hok : BothSucceed (a.append memory vs) (b.append memory' vs)) :
    Agree (· == ·) (a.append memory vs) (b.append memory' vs) := by
  obtain ⟨⟨_, ha⟩, _, hb⟩ := hok
  refine ⟨ha.trans hb.symm, beq_iff.2 ?_⟩
  rw [items_append memory ha, items_append memory' hb, h]

/-- An insertion answers with the first position of the value or with the length before it. -/
theorem agree_insert (h : a.items = b.items) {v : UInt64}
    (hok : BothSucceed (a.insert memory v) (b.insert memory' v)) :
    Agree (· == ·) (a.insert memory v) (b.insert memory' v) := by
  obtain ⟨⟨i, ha⟩, j, hb⟩ := hok
  have hitems : (a.insert memory v).state.items = (b.insert memory' v).state.items := by
    rw [items_insert memory ha, items_insert memory' hb, h]
  refine ⟨?_, beq_iff.2 hitems⟩
  cases hf : a.firstIndex? v with
  | some k =>
    rw [insert_of_mem memory hf, insert_of_mem memory' ((firstIndex?_congr h v).symm.trans hf)]
    rfl
  | none =>
    have hv : v ∉ a.items := firstIndex?_eq_none_iff.1 hf
    obtain ⟨rfl, -⟩ := insert_new_of_ok memory hv ha
    obtain ⟨rfl, -⟩ := insert_new_of_ok memory' (h ▸ hv) hb
    rw [ha, hb, len_congr h]

theorem agree_step (memory memory' : Memory) {op : Op} (hop : op.OnItems) (h : a.items = b.items)
    (hok : op.Inserts → BothSucceed (a.step memory op) (b.step memory' op)) :
    Agree (· == ·) (a.step memory op) (b.step memory' op) := by
  cases op with
  | policy | capacity | reserve | commit | describe => exact hop.elim
  | push v => exact (agree_append h (hok trivial).of_map).map _
  | append vs => exact (agree_append h (hok trivial).of_map).map _
  | insert v => exact (agree_insert h (hok trivial).of_map).map _
  | swapErase v => exact agree_done (by rw [items_swapErase, items_swapErase, h]) rfl
  | erase v =>
    have hindex : (a.erase v).1 = (b.erase v).1 := by
      rw [erase_index, erase_index, firstIndex?_congr h]
    exact agree_done (by rw [items_erase, items_erase, h]) (congrArg Reply.index hindex)
  | moveToBack v => exact agree_done (by rw [items_moveToBack, items_moveToBack, h]) rfl
  | moveToFront v => exact agree_done (by rw [items_moveToFront, items_moveToFront, h]) rfl
  | clear => exact agree_done (by rw [items_clear, items_clear]) rfl
  | destroy => exact agree_done rfl rfl
  | len => exact agree_done h (congrArg Reply.count (len_congr h))
  | isEmpty => exact agree_done h (congrArg (fun n => Reply.flag (n == 0)) (len_congr h))
  | items => exact agree_done h (congrArg Reply.values h)
  | get i => exact agree_done h (congrArg (fun xs => Reply.value xs[i]?) h)
  | contains v =>
    exact agree_done h (congrArg (fun xs => Reply.flag (lastIdxOf? v xs).isSome) h)
  | find v => exact agree_done h (congrArg (fun xs => Reply.index (lastIdxOf? v xs)) h)
  | display => exact agree_done h (congrArg (fun xs => Reply.text (showItems .inline 0 xs)) h)

end Buffer

/-! ### Registers -/

namespace Command

open Outcome (Agree BothSucceed)

/-- The command works on items. -/
def OnItems : Command → Prop
  | .on _ op => op.OnItems
  | _ => True

def Inserts : Command → Prop
  | .on _ op => op.Inserts
  | _ => False

variable {regs regs' : Registers}

theorem agree_step (memory memory' : Memory) {cmd : Command} (hcmd : cmd.OnItems)
    (h : ∀ i, regs i == regs' i)
    (hok : cmd.Inserts → BothSucceed (cmd.step memory regs) (cmd.step memory' regs')) :
    Agree (fun s t => ∀ i, s i == t i) (cmd.step memory regs) (cmd.step memory' regs') := by
  by_cases hon : ∃ r op, cmd = .on r op
  · obtain ⟨r, op, rfl⟩ := hon
    obtain ⟨hresult, hstate⟩ :=
      Buffer.agree_step memory memory' hcmd (Buffer.beq_iff.1 (h r)) hok
    exact ⟨hresult, Registers.rel_set (R := fun a b => (a == b) = true) h hstate r⟩
  · have hne : ∀ r op, cmd ≠ .on r op := fun r op hcmd => hon ⟨r, op, hcmd⟩
    obtain ⟨hresult, hstate, -⟩ := rel_step (R := fun a b => (a == b) = true)
      Buffer.equivalence_beq.refl Buffer.beq_iff.1 h memory cmd hne
    rw [step_congr_memory hne memory' memory]
    exact ⟨hresult, hstate⟩

end Command

/-! ### Runs -/

namespace Run

variable {σ ι α : Type}

/-- A step in the first of the two memories that come with the operation. -/
def inFirst (step : Memory → σ → ι → Outcome σ α) (s : σ) (call : ι × Memory × Memory) :
    Outcome σ α := step call.2.1 s call.1

def inSecond (step : Memory → σ → ι → Outcome σ α) (s : σ) (call : ι × Memory × Memory) :
    Outcome σ α := step call.2.2 s call.1

end Run

open Outcome (Agree BothSucceed) in
/-- Equality of buffers is an equivalence, and buffers that are equal may have any spare slots and
any policy. It is a congruence: as long as every insertion succeeds in both, two equal buffers give
the same answers and are equal after every step, on their own and in registers, where the items can
be drained from them too. -/
theorem Buffer.beq_congruence :
    (Equivalence fun a b : Buffer => (a == b) = true) ∧
    (∀ (a : Buffer) (spare : List UInt64) (policy : Policy),
      ∃ b : Buffer, b.spare = spare ∧ b.policy = policy ∧ a == b) ∧
    (∀ a b : Buffer, a == b → ∀ calls : List (Op × Memory × Memory),
      (∀ call ∈ calls, call.1.OnItems) →
      Run.Lockstep (Run.inFirst Buffer.step) (Run.inSecond Buffer.step)
        (fun call o p => call.1.Inserts → BothSucceed o p) a b calls →
      Run.Lockstep (Run.inFirst Buffer.step) (Run.inSecond Buffer.step)
        (fun _ => Agree (· == ·)) a b calls) ∧
    ∀ regs regs' : Registers, (∀ i, regs i == regs' i) →
      ∀ calls : List (Command × Memory × Memory), (∀ call ∈ calls, call.1.OnItems) →
      Run.Lockstep (Run.inFirst Command.step) (Run.inSecond Command.step)
        (fun call o p => call.1.Inserts → BothSucceed o p) regs regs' calls →
      Run.Lockstep (Run.inFirst Command.step) (Run.inSecond Command.step)
        (fun _ => Agree fun s t => ∀ i, s i == t i) regs regs' calls := by
  refine ⟨equivalence_beq, ?_, ?_, ?_⟩
  · intro a spare policy
    obtain ⟨hitems, hspare⟩ := views_ofViews a.items spare policy
    exact ⟨ofViews a.items spare policy, hspare, rfl, beq_iff.2 hitems.symm⟩
  · intro a b hab calls hcalls
    refine Run.Lockstep.of_condition _ _ (P := fun a b : Buffer => (a == b) = true) ?_ hab
    intro a b call hcall hab hok
    have hagree := agree_step call.2.1 call.2.2 (hcalls call hcall) (beq_iff.1 hab) hok
    exact ⟨hagree, hagree.state⟩
  · intro regs regs' hregs calls hcalls
    refine Run.Lockstep.of_condition _ _
      (P := fun regs regs' : Registers => ∀ i, (regs i == regs' i) = true) ?_ hregs
    intro regs regs' call hcall hregs hok
    have hagree := Command.agree_step call.2.1 call.2.2 (hcalls call hcall) hregs hok
    exact ⟨hagree, hagree.state⟩

open Outcome (Agree BothSucceed) in
/-- The one buffer grows where the other, which could not grow, has leftovers to write over. -/
theorem Buffer.beq_congruence_cramped :
    let a : Buffer := ofViews [5, 9] [] {}
    let b : Buffer := ofViews [5, 9] [1, 2, 3] ⟨.copying, some ⟨5, by decide, by decide⟩⟩
    let calls : List (Op × Memory × Memory) :=
      [(.insert 5, .upTo 8, .upTo 0), (.append [9, 4], .upTo 8, .upTo 0),
        (.find 9, .upTo 8, .upTo 0), (.swapErase 9, .upTo 8, .upTo 0)]
    let cmds : List (Command × Memory × Memory) :=
      [(.on 0 (.push 4), .upTo 8, .upTo 0), (.compare 0 1, .upTo 8, .upTo 0),
        (.drain 0, .upTo 8, .upTo 0)]
    a == b ∧ a ≠ b ∧ (∀ call ∈ calls, call.1.OnItems) ∧ (∀ call ∈ cmds, call.1.OnItems) ∧
      Run.Lockstep (Run.inFirst Buffer.step) (Run.inSecond Buffer.step)
        (fun _ => Agree (· == ·)) a b calls ∧
      (Run.final (Run.inFirst Buffer.step) a calls).display = "[5, 9, 4]" ∧
      Run.Lockstep (Run.inFirst Command.step) (Run.inSecond Command.step)
        (fun _ => Agree fun s t => ∀ i, s i == t i) (Registers.initial.set 0 a)
        (Registers.initial.set 0 b) cmds := by
  intro a b calls cmds
  have hab : a == b := rfl
  have hcalls : ∀ call ∈ calls, call.1.OnItems := by simp [calls, Op.OnItems]
  have hcmds : ∀ call ∈ cmds, call.1.OnItems := by simp [cmds, Command.OnItems, Op.OnItems]
  have hregs : ∀ i, Registers.initial.set 0 a i == Registers.initial.set 0 b i :=
    Registers.rel_set (R := fun a b => (a == b) = true) (fun _ => rfl) hab 0
  have succeed {σ α : Type} {o p : Outcome σ α} {x y : α} (ho : o.result = .ok x)
      (hp : p.result = .ok y) : BothSucceed o p := ⟨⟨x, ho⟩, y, hp⟩
  obtain ⟨-, -, hruns, hcommands⟩ := beq_congruence
  have hlockstep := hruns a b hab calls hcalls
    ⟨fun _ => succeed rfl rfl, fun _ => succeed rfl rfl, False.elim, False.elim, trivial⟩
  exact ⟨hab, by decide, hcalls, hcmds, hlockstep, by decide,
    hcommands _ _ hregs cmds hcmds ⟨fun _ => succeed rfl rfl, False.elim, False.elim, trivial⟩⟩

end SlotBuffer
