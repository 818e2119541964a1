import SlotBuffer.Outcome

/-! Runs of operations. A failing operation does not end a run: the next one starts from the state
that it left. -/

namespace SlotBuffer.Run

variable {σ ι α : Type} (step : σ → ι → Outcome σ α)

/-- The outcomes of the operations, in order. -/
def outcomes : σ → List ι → List (Outcome σ α)
  | _, [] => []
  | s, op :: ops =>
    let outcome := step s op
    outcome :: outcomes outcome.state ops

def final (s : σ) (ops : List ι) : σ :=
  ops.foldl (fun s op => (step s op).state) s

@[simp] theorem outcomes_nil (s : σ) : outcomes step s [] = [] := rfl

@[simp] theorem outcomes_cons (s : σ) (op : ι) (ops : List ι) :
    outcomes step s (op :: ops) = step s op :: outcomes step (step s op).state ops := rfl

@[simp] theorem final_nil (s : σ) : final step s [] = s := rfl

@[simp] theorem final_cons (s : σ) (op : ι) (ops : List ι) :
    final step s (op :: ops) = final step (step s op).state ops := rfl

theorem final_append (s : σ) (ops ops' : List ι) :
    final step s (ops ++ ops') = final step (final step s ops) ops' := List.foldl_append

theorem outcomes_append (s : σ) (ops ops' : List ι) :
    outcomes step s (ops ++ ops') =
      outcomes step s ops ++ outcomes step (final step s ops) ops' := by
  induction ops generalizing s with
  | nil => rfl
  | cons op ops ih => simp [ih]

@[simp] theorem length_outcomes (s : σ) (ops : List ι) :
    (outcomes step s ops).length = ops.length := by
  induction ops generalizing s with
  | nil => rfl
  | cons op ops ih => simp [ih]

/-- What every operation of a run keeps, the run keeps. -/
theorem final_induction {P : σ → Prop} {ops : List ι}
    (h : ∀ s, ∀ op ∈ ops, P s → P (step s op).state) {s : σ} (hs : P s) :
    P (final step s ops) := by
  induction ops generalizing s with
  | nil => exact hs
  | cons op ops ih =>
    apply ih
    · intro t op' hop'
      exact h t op' (List.mem_cons_of_mem _ hop')
    · exact h s op List.mem_cons_self hs

/-- Where every operation of a run keeps a property, its outcomes show what an operation shows from
states with that property. -/
theorem forall_outcomes {P : σ → Prop} {Q : Outcome σ α → Prop} {ops : List ι}
    (h : ∀ s, ∀ op ∈ ops, P s → Q (step s op) ∧ P (step s op).state) {s : σ} (hs : P s) :
    ∀ o ∈ outcomes step s ops, Q o := by
  induction ops generalizing s with
  | nil => simp
  | cons op ops ih =>
    obtain ⟨hshown, hkept⟩ := h s op List.mem_cons_self hs
    rw [outcomes_cons, List.forall_mem_cons]
    refine ⟨hshown, ih ?_ hkept⟩
    intro t op' hop'
    exact h t op' (List.mem_cons_of_mem _ hop')

/-- What every operation of a run keeps holds after each of them. -/
theorem outcomes_induction {P : σ → Prop} {ops : List ι}
    (h : ∀ s, ∀ op ∈ ops, P s → P (step s op).state) {s : σ} (hs : P s) :
    ∀ o ∈ outcomes step s ops, P o.state := by
  have hshown (t : σ) (op : ι) (hop : op ∈ ops) (ht : P t) :
      P (step t op).state ∧ P (step t op).state := ⟨h t op hop ht, h t op hop ht⟩
  exact forall_outcomes step hshown hs

/-- As long as no operation leaves a state, each has the outcome there that it has at first. -/
theorem outcomes_of_fixed {s : σ} {ops : List ι} (h : ∀ op ∈ ops, (step s op).state = s) :
    outcomes step s ops = ops.map (step s) := by
  induction ops with
  | nil => rfl
  | cons op ops ih =>
    rw [outcomes_cons, h op List.mem_cons_self, List.map_cons,
      ih fun op' hop' => h op' (List.mem_cons_of_mem _ hop')]

/-- What the steps of a run yield, in order, where a step yields by the state it starts from and by
its result. -/
def collect {β : Type} (f : σ → ι → Except Failure α → List β) : σ → List ι → List β
  | _, [] => []
  | s, op :: ops => f s op (step s op).result ++ collect f (step s op).state ops

@[simp] theorem collect_nil {β : Type} (f : σ → ι → Except Failure α → List β) (s : σ) :
    collect step f s [] = [] := rfl

@[simp] theorem collect_cons {β : Type} (f : σ → ι → Except Failure α → List β) (s : σ) (op : ι)
    (ops : List ι) :
    collect step f s (op :: ops) =
      f s op (step s op).result ++ collect step f (step s op).state ops := rfl

/-! ### Runs that end with a failure -/

/-- Carries the operations out up to the first that fails, and fails with it. -/
def untilFailure : σ → List ι → Outcome σ Unit
  | s, [] => .done s ()
  | s, op :: ops => (step s op).followedBy fun t => untilFailure t ops

@[simp] theorem untilFailure_nil (s : σ) : untilFailure step s [] = .done s () := rfl

theorem untilFailure_cons (s : σ) (op : ι) (ops : List ι) :
    untilFailure step s (op :: ops) = (step s op).followedBy fun t => untilFailure step t ops := rfl

/-- Such a run succeeds when every operation of it does, and then it leaves what any run leaves. -/
theorem untilFailure_ok_iff {s : σ} {ops : List ι} :
    (untilFailure step s ops).result = .ok () ↔
      ∀ o ∈ outcomes step s ops, ∃ a, o.result = .ok a := by
  induction ops generalizing s with
  | nil => simp [Outcome.done]
  | cons op ops ih =>
    rw [untilFailure_cons, outcomes_cons, List.forall_mem_cons]
    cases h : (step s op).result with
    | ok a => simp [Outcome.followedBy_of_ok h, ih]
    | error cause => simp [Outcome.followedBy_of_error h]

theorem state_untilFailure {s : σ} {ops : List ι}
    (h : (untilFailure step s ops).result = .ok ()) :
    (untilFailure step s ops).state = final step s ops := by
  induction ops generalizing s with
  | nil => rfl
  | cons op ops ih =>
    rw [untilFailure_cons] at h ⊢
    cases hop : (step s op).result with
    | ok a =>
      rw [Outcome.followedBy_of_ok hop] at h ⊢
      exact ih h
    | error cause =>
      rw [Outcome.followedBy_of_error hop] at h
      cases h

/-! ### Two runs of the same operations -/

/-- Operations under other names. -/
theorem outcomes_map {κ : Type} (name : κ → ι) (s : σ) (ops : List κ) :
    outcomes step s (ops.map name) = outcomes (fun s op => step s (name op)) s ops := by
  induction ops generalizing s with
  | nil => rfl
  | cons op ops ih => simp [ih]

/-- Where each operation does to a larger state what it does to the state inside, so does a run. -/
theorem run_within {τ : Type} {step' : τ → ι → Outcome τ α} {f : σ → τ} {ops : List ι}
    (h : ∀ s, ∀ op ∈ ops, step' (f s) op = (step s op).within f) (s : σ) :
    outcomes step' (f s) ops = (outcomes step s ops).map (·.within f) ∧
      final step' (f s) ops = f (final step s ops) := by
  induction ops generalizing s with
  | nil => exact ⟨rfl, rfl⟩
  | cons op ops ih =>
    have hop : step' (f s) op = (step s op).within f := h s op List.mem_cons_self
    have hstate : (step' (f s) op).state = f (step s op).state := by rw [hop]; rfl
    obtain ⟨houtcomes, hfinal⟩ :=
      ih (fun t op' hop' => h t op' (List.mem_cons_of_mem _ hop')) (step s op).state
    rw [outcomes_cons, final_cons, hstate, houtcomes, hfinal, hop]
    exact ⟨rfl, rfl⟩

variable {τ β : Type} (step' : τ → ι → Outcome τ β)

/-- Every step of the one run stands in a relation to the same step of the other. -/
def Lockstep (R : ι → Outcome σ α → Outcome τ β → Prop) : σ → τ → List ι → Prop
  | _, _, [] => True
  | s, t, op :: ops =>
    R op (step s op) (step' t op) ∧ Lockstep R (step s op).state (step' t op).state ops

/-- A relation of states that every step keeps holds all along two runs. -/
theorem lockstep_of_step {P : σ → τ → Prop} {R : ι → Outcome σ α → Outcome τ β → Prop}
    {ops : List ι}
    (h : ∀ s t, ∀ op ∈ ops, P s t →
      R op (step s op) (step' t op) ∧ P (step s op).state (step' t op).state)
    {s : σ} {t : τ} (hst : P s t) : Lockstep step step' R s t ops := by
  induction ops generalizing s t with
  | nil => trivial
  | cons op ops ih =>
    obtain ⟨hop, hnext⟩ := h s t op List.mem_cons_self hst
    refine ⟨hop, ih ?_ hnext⟩
    intro s t op' hop'
    exact h s t op' (List.mem_cons_of_mem _ hop')

/-- Where a relation of states is kept by every step that meets a condition, it is kept all along
two runs whose steps meet it. -/
theorem Lockstep.of_condition {P : σ → τ → Prop} {C R : ι → Outcome σ α → Outcome τ β → Prop}
    {ops : List ι}
    (h : ∀ s t, ∀ op ∈ ops, P s t → C op (step s op) (step' t op) →
      R op (step s op) (step' t op) ∧ P (step s op).state (step' t op).state)
    {s : σ} {t : τ} (hst : P s t) (hc : Lockstep step step' C s t ops) :
    Lockstep step step' R s t ops := by
  induction ops generalizing s t with
  | nil => trivial
  | cons op ops ih =>
    obtain ⟨hcop, hcops⟩ := hc
    obtain ⟨hop, hnext⟩ := h s t op List.mem_cons_self hst hcop
    refine ⟨hop, ih ?_ hnext hcops⟩
    intro s t op' hop'
    exact h s t op' (List.mem_cons_of_mem _ hop')

end SlotBuffer.Run
