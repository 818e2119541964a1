import Mathlib.Algebra.Group.Nat.Defs
import SlotBuffer.Proofs.GrowthLog

/-! Growing is geometric. A growth doubles the capacity unless the limit cuts it short, and at its
limit a buffer grows no more. So all growths of a run but the last one double, and their number is
logarithmic in the capacity to which they lead. -/

namespace SlotBuffer

/-! ### Growths under a limit -/

theorem CapacityLimit.clamp_cases (limit : Option CapacityLimit) (slots : Nat) :
    slots ≤ clamp limit slots ∨ ∃ l ∈ limit, clamp limit slots = l.slots := by
  cases limit with
  | none => exact .inl (Nat.le_refl _)
  | some l =>
    rcases Nat.le_total slots l.slots with hle | hge
    · exact .inl (Nat.le_min.2 ⟨Nat.le_refl _, hle⟩)
    · exact .inr ⟨l, rfl, Nat.min_eq_right hge⟩

/-- The capacity doubles or reaches the limit, and never passes it. -/
structure Doubling (limit : Option CapacityLimit) (growth : Nat × Nat) : Prop where
  le_limit : ∀ l ∈ limit, growth.2 ≤ l.slots
  doubles : 2 * growth.1 ≤ growth.2 ∨ ∃ l ∈ limit, growth.2 = l.slots

/-- Only the last growth of a chain may fall short of doubling, as none can start from the limit.
From no slots at all the first growth gains at least one. -/
theorem Chained.pow_lt {limit : Option CapacityLimit} {first last : Nat} {gs : List (Nat × Nat)}
    (h : Chained first gs last) (hgs : ∀ g ∈ gs, Doubling limit g) (hne : gs ≠ []) :
    max 1 (2 * first) * 2 ^ gs.length < 4 * last := by
  induction gs generalizing first with
  | nil => exact absurd rfl hne
  | cons g gs ih =>
    obtain ⟨before, after⟩ := g
    obtain ⟨rfl, hlt, hrest⟩ := h
    cases gs with
    | nil =>
      obtain rfl : after = last := hrest
      rw [List.length_singleton]
      omega
    | cons g' gs =>
      have hdoubles : 2 * before ≤ after := by
        have hnext : g' ∈ (before, after) :: g' :: gs := List.mem_cons_of_mem _ List.mem_cons_self
        rcases (hgs _ List.mem_cons_self).doubles with hdoubles | ⟨l, hl, hlimit⟩
        · exact hdoubles
        · have hle := (hgs g' hnext).le_limit l hl
          have hbefore : g'.1 = after := hrest.1
          have hafter : g'.1 < g'.2 := hrest.2.1
          omega
      calc max 1 (2 * before) * 2 ^ ((before, after) :: g' :: gs).length
          = max 1 (2 * before) * 2 * 2 ^ (g' :: gs).length := by
            rw [List.length_cons, Nat.pow_succ', Nat.mul_assoc]
        _ ≤ max 1 (2 * after) * 2 ^ (g' :: gs).length := Nat.mul_le_mul_right _ (by omega)
        _ < 4 * last := ih hrest (fun g hg => hgs g (List.mem_cons_of_mem _ hg)) (by simp)

theorem mem_growths_iff {log : List Event} {before after : Nat} :
    (before, after) ∈ growths log ↔ ∃ strategy, .grew before after strategy ∈ log := by
  rw [growths, List.mem_filterMap]
  constructor
  · rintro ⟨e, he, hgrowth⟩
    cases e with
    | grew before' after' strategy =>
      obtain ⟨rfl, rfl⟩ : before' = before ∧ after' = after := by simpa [Event.growth?] using hgrowth
      exact ⟨strategy, he⟩
    | overLimit | refused => cases hgrowth
  · rintro ⟨strategy, he⟩
    exact ⟨_, he, rfl⟩

/-! ### Steps -/

namespace Buffer

variable {memory : Memory} {b : Buffer}

theorem doubling_grownCapacity (b : Buffer) (n : Nat) :
    Doubling b.policy.limit (b.capacity, b.grownCapacity n) where
  le_limit _ hl := CapacityLimit.clamp_le_limit hl _
  doubles := by
    rcases CapacityLimit.clamp_cases b.policy.limit (max (b.len + n) (2 * b.capacity)) with hle | hl
    · exact .inl (Nat.le_trans (Nat.le_max_right ..) hle)
    · exact .inr hl

/-- Whatever logs a growth asked for room and has grown for it. -/
theorem Told.exists_grows {α : Type} {asked : Option Nat} {result : Except Failure α}
    {capacity : Nat} {log : List Event} (h : Told memory b asked result capacity log)
    {before after : Nat} {strategy : Strategy} (he : .grew before after strategy ∈ log) :
    ∃ n ∈ asked, b.contents.Grows memory n ∧ before = b.capacity ∧ after = b.grownCapacity n ∧
      after = capacity := by
  cases h with
  | kept | overLimit | refused | failed => simp at he
  | @grown n a hgrows =>
    obtain ⟨rfl, rfl, -⟩ : before = b.capacity ∧ after = b.grownCapacity n ∧ _ := by simpa using he
    exact ⟨n, rfl, hgrows, rfl, rfl, rfl⟩

theorem exists_grows_of_grew {op : Op} {before after : Nat} {strategy : Strategy}
    (h : .grew before after strategy ∈ (b.step memory op).log) :
    ∃ n ∈ op.asks, b.contents.Grows memory n ∧ before = b.capacity ∧ after = b.grownCapacity n ∧
      after = (b.step memory op).state.capacity := by
  by_cases hop : op = .destroy
  · subst hop
    cases h
  · exact (told_step memory b hop).exists_grows h

theorem doubling_step (memory : Memory) (b : Buffer) (op : Op) :
    ∀ g ∈ growths (b.step memory op).log, Doubling b.policy.limit g := by
  rintro ⟨before, after⟩ hg
  obtain ⟨strategy, hgrew⟩ := mem_growths_iff.1 hg
  obtain ⟨n, -, -, rfl, rfl, -⟩ := exists_grows_of_grew hgrew
  exact doubling_grownCapacity b n

/-- The capacity is all that the limit allows. -/
structure AtLimit (b : Buffer) (l : CapacityLimit) : Prop where
  mem_limit : l ∈ b.policy.limit
  capacity_eq : b.capacity = l.slots

/-- At its limit a buffer cannot grow. -/
theorem AtLimit.step {l : CapacityLimit} (h : b.AtLimit l) (memory : Memory) {op : Op}
    (hop : op ≠ .destroy) : (b.step memory op).state.AtLimit l := by
  have hle : (b.step memory op).state.capacity ≤ l.slots := by
    rcases b.capacity_step memory op with ⟨hdestroy, -⟩ | hkept | ⟨n, -, hgrown⟩
    · exact absurd hdestroy hop
    · rw [hkept, capacity_contents]
      exact Nat.le_of_eq h.capacity_eq
    · rw [hgrown]
      exact CapacityLimit.clamp_le_limit h.mem_limit _
  have hge := b.capacity_le_step memory hop
  rw [h.capacity_eq] at hge
  constructor
  · rw [policy_step]
    exact h.mem_limit
  · exact Nat.le_antisymm hle hge

end Buffer

namespace Command

variable {memory : Memory} {regs : Registers} {r : Nat} {cmd : Command}

theorem doubling_stepAt (memory : Memory) (regs : Registers) (r : Nat) (cmd : Command) :
    ∀ g ∈ growths (cmd.stepAt memory r regs).log, Doubling (regs r).policy.limit g := by
  by_cases hon : ∃ op, cmd = .on r op
  · obtain ⟨op, rfl⟩ := hon
    rw [log_stepAt_on]
    exact Buffer.doubling_step memory (regs r) op
  · rw [log_stepAt_of_ne_on fun op h => hon ⟨op, h⟩]
    simp [growths]

theorem atLimit_step {l : CapacityLimit} (h : (regs r).AtLimit l) (hreplaces : ¬ cmd.Replaces r)
    (hdestroy : cmd ≠ .on r .destroy) : ((cmd.step memory regs).state r).AtLimit l := by
  rcases register_cases hreplaces with hkept | ⟨op, hon, hop⟩
  · rwa [hkept]
  · rw [hop]
    apply h.step memory
    rintro rfl
    exact hdestroy hon

end Command

/-! ### Runs -/

namespace Run

variable {σ ι α : Type} (step : σ → ι → Outcome σ α)

/-- A property of growths that each operation logs, wherever it is taken, is one of those that a
run logs. -/
theorem forall_growths {P : σ → Prop} {Q : Nat × Nat → Prop} {ops : List ι}
    (h : ∀ s, ∀ op ∈ ops, P s → (∀ g ∈ growths (step s op).log, Q g) ∧ P (step s op).state)
    {s : σ} (hs : P s) : ∀ g ∈ growths (log step s ops), Q g := by
  rw [growths, log, List.filterMap_flatMap]
  intro g hg
  obtain ⟨o, ho, hgo⟩ := List.mem_flatMap.1 hg
  exact forall_outcomes step (Q := fun o => ∀ g ∈ growths o.log, Q g) h hs o ho g hgo

/-- A run whose operations grow a buffer under one limit, as their logs say, takes the capacity
past a power of two for each growth. -/
theorem pow_lt_capacity (buffer : σ → Buffer) {ops : List ι}
    (hchained : ∀ s, ∀ op ∈ ops, Chained (buffer s).capacity (growths (step s op).log)
      (buffer (step s op).state).capacity)
    (hpolicy : ∀ s, ∀ op ∈ ops, (buffer (step s op).state).policy = (buffer s).policy)
    (hdoubling : ∀ s, ∀ op ∈ ops, ∀ g ∈ growths (step s op).log,
      Doubling (buffer s).policy.limit g)
    {s : σ} (hgrown : 1 ≤ (growths (log step s ops)).length) :
    max 1 (buffer s).capacity * 2 ^ (growths (log step s ops)).length <
      4 * (buffer (final step s ops)).capacity := by
  have hall : ∀ g ∈ growths (log step s ops), Doubling (buffer s).policy.limit g := by
    refine forall_growths step (P := fun t => (buffer t).policy = (buffer s).policy) ?_ rfl
    intro t op hop ht
    rw [← ht]
    exact ⟨hdoubling t op hop, hpolicy t op hop⟩
  calc max 1 (buffer s).capacity * 2 ^ (growths (log step s ops)).length
      ≤ max 1 (2 * (buffer s).capacity) * 2 ^ (growths (log step s ops)).length :=
        Nat.mul_le_mul_right _ (by omega)
    _ < 4 * (buffer (final step s ops)).capacity :=
        (chained_log step (fun t => (buffer t).capacity) hchained s).pow_lt hall
          (List.ne_nil_of_length_pos hgrown)

end Run

/-- Doubling a capacity never meets the end of the word. Along a run in which the buffer is neither
destroyed nor replaced, every growth but the last one doubles its capacity. Each growth gains slots,
has room for what was asked, and doubles unless it ends at the limit, from where on the capacity
stays. -/
theorem growth_geometric (memory : Memory) :
    (∀ b : Buffer, b.Reachable memory → min (2 * b.capacity) maxLength = 2 * b.capacity) ∧
    (∀ (b : Buffer) (calls : List (Memory × Buffer.Op)), (∀ call ∈ calls, call.2 ≠ .destroy) →
      1 ≤ (growths (Run.log Buffer.stepIn b calls)).length →
      max 1 b.capacity * 2 ^ (growths (Run.log Buffer.stepIn b calls)).length <
        4 * (Run.final Buffer.stepIn b calls).capacity) ∧
    (∀ (regs : Registers) (r : Nat) (cmds : List Command),
      (∀ cmd ∈ cmds, ¬ cmd.Replaces r ∧ cmd ≠ .on r .destroy) →
      1 ≤ (growths (Run.log (Command.stepAt memory r) regs cmds)).length →
      max 1 (regs r).capacity * 2 ^ (growths (Run.log (Command.stepAt memory r) regs cmds)).length <
        4 * (Run.final (Command.step memory) regs cmds r).capacity) ∧
    (∀ (b : Buffer) (op : Buffer.Op) (before after : Nat) (strategy : Strategy),
      .grew before after strategy ∈ (b.step memory op).log →
      before = b.capacity ∧ after = (b.step memory op).state.capacity ∧ before < after ∧
        (∃ n ∈ op.asks, b.len + n ≤ after) ∧
        (2 * before ≤ after ∨ ∃ l, (b.step memory op).state.AtLimit l)) ∧
    (∀ (b : Buffer) (l : CapacityLimit), b.AtLimit l →
      ∀ calls : List (Memory × Buffer.Op), (∀ call ∈ calls, call.2 ≠ .destroy) →
        ∀ o ∈ Run.outcomes Buffer.stepIn b calls, o.state.AtLimit l) ∧
    ∀ (regs : Registers) (r : Nat) (l : CapacityLimit), (regs r).AtLimit l →
      ∀ cmds : List Command, (∀ cmd ∈ cmds, ¬ cmd.Replaces r ∧ cmd ≠ .on r .destroy) →
        ∀ o ∈ Run.outcomes (Command.step memory) regs cmds, (o.state r).AtLimit l := by
  refine ⟨?_, ?_, ?_, ?_, ?_, ?_⟩
  · intro b hb
    have hdouble := Nat.mul_le_mul_left 2 hb.bounded.le_maxSlots
    exact Nat.min_eq_left (Nat.le_trans hdouble two_mul_maxSlots_le)
  · intro b calls hcalls
    apply Run.pow_lt_capacity Buffer.stepIn id
    · intro c call hcall
      exact (Buffer.told_step call.1 c (hcalls call hcall)).chained
    · intro c call _
      exact Buffer.policy_step call.1 c call.2
    · intro c call _
      exact Buffer.doubling_step call.1 c call.2
  · intro regs r cmds hcmds
    apply Run.pow_lt_capacity (Command.stepAt memory r) fun regs : Registers => regs r
    · intro regs' cmd hcmd
      obtain ⟨hreplaces, hdestroy⟩ := hcmds cmd hcmd
      exact Command.chained_stepAt memory regs' hreplaces hdestroy
    · intro regs' cmd hcmd
      exact Command.policy_step (hcmds cmd hcmd).1
    · intro regs' cmd _
      exact Command.doubling_stepAt memory regs' r cmd
  · intro b op before after strategy hgrew
    obtain ⟨n, hn, hgrows, rfl, rfl, hcapacity⟩ := Buffer.exists_grows_of_grew hgrew
    have hroom := hgrows.le_grownCapacity
    rw [Buffer.grownCapacity_contents, Buffer.length_items_contents] at hroom
    refine ⟨rfl, hcapacity, Buffer.capacity_lt_of_grows hgrows, ⟨n, hn, hroom⟩, ?_⟩
    rcases (b.doubling_grownCapacity n).doubles with hdoubles | ⟨l, hl, hlimit⟩
    · exact .inl hdoubles
    · refine .inr ⟨l, ?_, hcapacity.symm.trans hlimit⟩
      rwa [Buffer.policy_step]
  · intro b l hlimit calls hcalls
    refine Run.outcomes_induction Buffer.stepIn (P := (·.AtLimit l)) ?_ hlimit
    intro c call hcall hc
    exact hc.step call.1 (hcalls call hcall)
  · intro regs r l hlimit cmds hcmds
    refine Run.outcomes_induction (Command.step memory)
      (P := fun regs : Registers => (regs r).AtLimit l) ?_ hlimit
    intro regs' cmd hcmd h
    exact Command.atLimit_step h (hcmds cmd hcmd).1 (hcmds cmd hcmd).2

/-- Three growths, of which the last is cut short by the limit and tried twice. -/
theorem growth_geometric_clamped :
    let limit : CapacityLimit := ⟨3, by decide, by decide⟩
    let b : Buffer := .empty ⟨.copying, some limit⟩
    let calls : List (Memory × Buffer.Op) :=
      [(.upTo 8, .push 5), (.upTo 8, .push 9), (.upTo 2, .push 4), (.upTo 8, .push 4)]
    let cmds : List Command := [.on 0 (.push 5), .on 1 (.append [1, 2]), .on 0 (.append [9, 4])]
    let full : Buffer := Run.final Buffer.stepIn b calls
    Buffer.Reachable (.upTo 8) (Registers.clamped 1) ∧
      min (2 * (Registers.clamped 1).capacity) maxLength = 2 * (Registers.clamped 1).capacity ∧
      (∀ call ∈ calls, call.2 ≠ .destroy) ∧
      (∀ cmd ∈ cmds, ¬ cmd.Replaces 0 ∧ cmd ≠ .on 0 .destroy) ∧
      growths (Run.log Buffer.stepIn b calls) = [(0, 1), (1, 2), (2, 3)] ∧
      max 1 0 * 2 ^ 3 < 4 * full.capacity ∧
      growths (Run.log (Command.stepAt (.upTo 8) 0) .initial cmds) = [(0, 1), (1, 3)] ∧
      max 1 0 * 2 ^ 2 < 4 * (Run.final (Command.step (.upTo 8)) .initial cmds 0).capacity ∧
      .grew 0 1 .copying ∈ (b.step (.upTo 8) (.push 5)).log ∧ (∃ n ∈ some 1, 0 + n ≤ 1) ∧
      full.AtLimit limit ∧
      ∀ o ∈ Run.outcomes Buffer.stepIn full calls, o.state.AtLimit limit := by
  intro limit b calls cmds full
  have hreachable : Buffer.Reachable (.upTo 8) (Registers.clamped 1) :=
    ⟨_, 1, Registers.reachable_clamped, rfl⟩
  have hcalls : ∀ call ∈ calls, call.2 ≠ .destroy := by simp [calls]
  have hcmds : ∀ cmd ∈ cmds, ¬ cmd.Replaces 0 ∧ cmd ≠ .on 0 .destroy := by
    simp [cmds, Command.Replaces]
  have hthree : growths (Run.log Buffer.stepIn b calls) = [(0, 1), (1, 2), (2, 3)] := by decide
  have htwo : growths (Run.log (Command.stepAt (.upTo 8) 0) .initial cmds) = [(0, 1), (1, 3)] := by
    decide
  have hgrew : .grew 0 1 .copying ∈ (b.step (.upTo 8) (.push 5)).log := by decide
  have hfull : full.AtLimit limit := ⟨by decide, by decide⟩
  obtain ⟨hexact, hrun, hregs, hgrowth, hstays, -⟩ := growth_geometric (.upTo 8)
  have hpast := hrun b calls hcalls (by rw [hthree]; decide)
  have hpast' := hregs .initial 0 cmds hcmds (by rw [htwo]; decide)
  rw [hthree] at hpast
  rw [htwo] at hpast'
  obtain ⟨-, -, -, hroom, -⟩ := hgrowth b (.push 5) 0 1 .copying hgrew
  exact ⟨hreachable, hexact _ hreachable, hcalls, hcmds, hthree, hpast, htwo, hpast', hgrew, hroom,
    hfull, hstays full limit hfull calls hcalls⟩

end SlotBuffer
