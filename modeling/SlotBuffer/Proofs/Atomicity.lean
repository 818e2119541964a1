import SlotBuffer.ListLike
import SlotBuffer.Proofs.Refinement
import SlotBuffer.Registers

/-! Failures leave no trace. An operation that fails leaves the state as it was, down to the spare
slots, so the failing operations of a run can be struck out: what is left of the run ends in the
same state, and every operation in it has the outcome that it had before. -/

namespace SlotBuffer

/-! ### Striking out failures -/

namespace Run

variable {σ ι α : Type} (step : σ → ι → Outcome σ α)

/-- The operations that succeed in a run. -/
def successes (s : σ) (ops : List ι) : List ι :=
  ((ops.zip (outcomes step s ops)).filter (·.2.result.isOk)).map Prod.fst

/-- Failing operations leave the state that they found. -/
def Atomic : Prop :=
  ∀ s op cause, (step s op).result = .error cause → (step s op).state = s

/-- Failing operations change nothing, and nothing hangs on whether they are in a run. -/
structure FailureSafe : Prop where
  atomic : Atomic step
  final_eq : ∀ s ops, final step s (successes step s ops) = final step s ops
  outcomes_eq : ∀ s ops,
    outcomes step s (successes step s ops) = (outcomes step s ops).filter (·.result.isOk)

variable {step}

theorem successes_cons_of_ok {s : σ} {op : ι} {a : α} (h : (step s op).result = .ok a)
    (ops : List ι) :
    successes step s (op :: ops) = op :: successes step (step s op).state ops := by
  simp [successes, h, Except.isOk, Except.toBool]

theorem successes_cons_of_error {s : σ} {op : ι} {cause : Failure}
    (h : (step s op).result = .error cause) (ops : List ι) :
    successes step s (op :: ops) = successes step (step s op).state ops := by
  simp [successes, h, Except.isOk, Except.toBool]

theorem Atomic.final_successes (h : Atomic step) (s : σ) (ops : List ι) :
    final step s (successes step s ops) = final step s ops := by
  induction ops generalizing s with
  | nil => rfl
  | cons op ops ih =>
    cases hres : (step s op).result with
    | ok a => rw [successes_cons_of_ok hres, final_cons, final_cons, ih]
    | error cause =>
      rw [successes_cons_of_error hres, final_cons, h s op cause hres]
      exact ih s

theorem Atomic.outcomes_successes (h : Atomic step) (s : σ) (ops : List ι) :
    outcomes step s (successes step s ops) = (outcomes step s ops).filter (·.result.isOk) := by
  induction ops generalizing s with
  | nil => rfl
  | cons op ops ih =>
    cases hres : (step s op).result with
    | ok a =>
      rw [successes_cons_of_ok hres, outcomes_cons, outcomes_cons, ih,
        List.filter_cons_of_pos (by rw [hres]; rfl)]
    | error cause =>
      rw [successes_cons_of_error hres, outcomes_cons, h s op cause hres,
        List.filter_cons_of_neg (by rw [hres]; exact Bool.false_ne_true)]
      exact ih s

/-- A step that is atomic in every memory is so when each call brings its own. -/
theorem atomic_calls {μ : Type} {step : μ → σ → ι → Outcome σ α} (h : ∀ m, Atomic (step m)) :
    Atomic fun s (call : μ × ι) => step call.1 s call.2 := by
  intro s call cause
  exact h call.1 s call.2 cause

/-- It is enough to look at single steps. -/
theorem Atomic.failureSafe (h : Atomic step) : FailureSafe step where
  atomic := h
  final_eq := h.final_successes
  outcomes_eq := h.outcomes_successes

end Run

/-! ### Single steps -/

variable {memory : Memory} {cause : Failure}

theorem Contents.Step.eq_of_error {c d : Contents} {op : Buffer.Op}
    (h : Step memory c op (.error cause) d) : d = c := by
  cases h <;> rfl

theorem Buffer.state_step_of_error {b : Buffer} {op : Op}
    (h : (b.step memory op).result = .error cause) : (b.step memory op).state = b := by
  have hrule := b.rule_step memory op
  rw [h] at hrule
  exact contents_inj.1 hrule.eq_of_error

theorem Registers.set_eq_self (regs : Registers) (r : Nat) : regs.set r (regs r) = regs := by
  funext i
  by_cases hi : i = r
  · subst hi
    exact set_self ..
  · exact set_of_ne _ _ hi

theorem Command.state_step_of_error {regs : Registers} {cmd : Command}
    (h : (cmd.step memory regs).result = .error cause) : (cmd.step memory regs).state = regs := by
  cases cmd with
  | on r op =>
    have hstate : ((regs r).step memory op).state = regs r := Buffer.state_step_of_error h
    exact (congrArg (regs.set r) hstate).trans (regs.set_eq_self r)
  | configure r strategy limit =>
    cases hp : Policy.make strategy limit with
    | ok p =>
      rw [step_configure_of_ok memory regs r hp] at h
      cases h
    | error cause => rw [step_configure_of_error memory regs r hp, Outcome.failed]
  | create | adopt | drain | copy | compare => cases h

namespace ListLike

theorem state_step_of_error_buffer {b : Buffer} {op : Op}
    (h : (step memory b op).result = .error cause) : (step memory b op).state = b := by
  rw [step_buffer] at h ⊢
  exact Buffer.state_step_of_error h

/-- An absent handle stays absent whatever is tried on it. -/
theorem state_step_none (memory : Memory) (op : Op) :
    (step memory (none : Handle) op).state = none := by
  cases op with
  | reserve additional vs =>
    simp only [step, reserve, Handle.reserve]
    split <;> rfl
  | append vs =>
    simp only [step, append, Handle.append]
    split <;> rfl
  | _ => rfl

theorem state_step_of_error_handle {h : Handle} {op : Op}
    (herror : (step memory h op).result = .error cause) : (step memory h op).state = h := by
  cases h with
  | none => exact state_step_none memory op
  | some b =>
    by_cases hop : op = .destroy
    · subst hop
      cases herror
    · rw [step_some memory b hop] at herror ⊢
      exact congrArg some (Buffer.state_step_of_error herror)

/-- Putting another list in place never fails. -/
theorem atomic_command {σ : Type} [ListLike σ]
    (h : Run.Atomic fun (s : σ) (op : Op) => step memory s op) :
    Run.Atomic fun (s : σ) (cmd : Command σ) => cmd.step memory s := by
  intro s cmd cause hcause
  cases cmd with
  | on op => exact h s op cause hcause
  | replace t => cases hcause

end ListLike

/-- On a buffer, on registers of buffers, and through what buffers and handles share, failing
operations change nothing and can be struck out of every run, be it in one memory or with another
memory for every call. -/
theorem failureSafe_steps (memory : Memory) :
    Run.FailureSafe (Buffer.step memory) ∧
    Run.FailureSafe (Command.step memory) ∧
    Run.FailureSafe (fun (b : Buffer) (cmd : ListLike.Command Buffer) => cmd.step memory b) ∧
    Run.FailureSafe (fun (h : Handle) (cmd : ListLike.Command Handle) => cmd.step memory h) ∧
    Run.FailureSafe Buffer.stepIn ∧
    Run.FailureSafe (fun (regs : Registers) (call : Memory × Command) =>
      call.2.step call.1 regs) ∧
    Run.FailureSafe (fun (b : Buffer) (call : Memory × ListLike.Command Buffer) =>
      call.2.step call.1 b) ∧
    Run.FailureSafe (fun (h : Handle) (call : Memory × ListLike.Command Handle) =>
      call.2.step call.1 h) := by
  have hbuffer (memory : Memory) : Run.Atomic (Buffer.step memory) :=
    fun _ _ _ => Buffer.state_step_of_error
  have hregs (memory : Memory) : Run.Atomic (Command.step memory) :=
    fun _ _ _ => Command.state_step_of_error
  have hlist (memory : Memory) :
      Run.Atomic fun (b : Buffer) (cmd : ListLike.Command Buffer) => cmd.step memory b := by
    apply ListLike.atomic_command
    intro b op cause
    exact ListLike.state_step_of_error_buffer
  have hhandle (memory : Memory) :
      Run.Atomic fun (h : Handle) (cmd : ListLike.Command Handle) => cmd.step memory h := by
    apply ListLike.atomic_command
    intro h op cause
    exact ListLike.state_step_of_error_handle
  exact ⟨(hbuffer memory).failureSafe, (hregs memory).failureSafe, (hlist memory).failureSafe,
    (hhandle memory).failureSafe, (Run.atomic_calls hbuffer).failureSafe,
    (Run.atomic_calls hregs).failureSafe, (Run.atomic_calls hlist).failureSafe,
    (Run.atomic_calls hhandle).failureSafe⟩

end SlotBuffer
