import SlotBuffer.Proofs.Meaning
import SlotBuffer.Run

/-! Runs of operations on a buffer, seen as runs on two lists. `Trace` follows the rules of
`Contents.Step` from one pair of lists to the next; the results of a run on the array of slots and
the lists that every step of it leaves are the one trace that the rules allow. -/

namespace SlotBuffer

namespace Contents

/-- A run by the rules: what every operation answers and the lists it leaves, in order. -/
inductive Trace (memory : Memory) :
    Contents → List Buffer.Op → List (Except Failure Reply × Contents) → Prop
  | nil (c : Contents) : Trace memory c [] []
  | cons {c d : Contents} {op : Buffer.Op} {r : Except Failure Reply} {ops : List Buffer.Op}
      {rest : List (Except Failure Reply × Contents)} (h : Step memory c op r d)
      (ht : Trace memory d ops rest) : Trace memory c (op :: ops) ((r, d) :: rest)

end Contents

namespace Buffer

variable (memory : Memory)

/-- What a step answers, and the lists that it leaves. -/
def observed (o : Outcome Buffer Reply) : Except Failure Reply × Contents :=
  (o.result, o.state.contents)

/-- One step of a buffer is the one step that the rules allow. -/
theorem rule_iff_observed (b : Buffer) (op : Op) (r : Except Failure Reply) (d : Contents) :
    Contents.Step memory b.contents op r d ↔ (r, d) = observed (b.step memory op) := by
  rw [Contents.step_iff, contents_step]
  exact eq_comm

theorem rule_step (b : Buffer) (op : Op) :
    Contents.Step memory b.contents op (b.step memory op).result
      (b.step memory op).state.contents :=
  (b.rule_iff_observed memory op ..).2 rfl

theorem items_of_rule {memory : Memory} {b : Buffer} {op : Op} {r : Except Failure Reply}
    {d : Contents} (h : Contents.Step memory b.contents op r d) :
    (b.step memory op).state.items = d.items :=
  congrArg (fun o => o.2.items) ((b.rule_iff_observed memory op r d).1 h).symm

theorem trace_outcomes (b : Buffer) (ops : List Op) :
    Contents.Trace memory b.contents ops ((Run.outcomes (step memory) b ops).map observed) := by
  induction ops generalizing b with
  | nil => exact .nil _
  | cons op ops ih => exact .cons (b.rule_step memory op) (ih _)

theorem eq_outcomes_of_trace {b : Buffer} {ops : List Op}
    {trace : List (Except Failure Reply × Contents)}
    (h : Contents.Trace memory b.contents ops trace) :
    trace = (Run.outcomes (step memory) b ops).map observed := by
  induction ops generalizing b trace with
  | nil =>
    cases h
    rfl
  | cons op ops ih =>
    cases h with
    | cons hop hrest =>
      have hstep := (b.rule_iff_observed memory op ..).1 hop
      obtain ⟨rfl, rfl⟩ := Prod.mk.inj hstep
      rw [ih hrest]
      rfl

/-- Items and spare slots are the two parts of the array, a new buffer has neither, and one made
from a list has that list for items. From there on, and from any other buffer, a run answers and
leaves just what the rules for two lists say. -/
theorem trace_iff_outcomes :
    (∀ b : Buffer, b.slots.toList = b.contents.items ++ b.contents.spare ∧
      b.contents.items.length = b.len) ∧
    (∀ policy, (empty policy).contents = ⟨[], [], policy⟩) ∧
    (∀ vs, (ofList vs).contents = ⟨vs, [], {}⟩) ∧
    ∀ (b : Buffer) (ops : List Op) (trace : List (Except Failure Reply × Contents)),
      Contents.Trace memory b.contents ops trace ↔
        trace = (Run.outcomes (step memory) b ops).map fun o => (o.result, o.state.contents) := by
  refine ⟨?_, ?_, ?_, ?_⟩
  · intro b
    exact ⟨b.items_append_spare.symm, b.length_items⟩
  · intro policy
    rfl
  · intro vs
    rw [contents, items_ofList, spare_ofList]
    rfl
  · intro b ops trace
    constructor
    · exact eq_outcomes_of_trace memory
    · rintro rfl
      exact b.trace_outcomes memory ops

end Buffer

end SlotBuffer
