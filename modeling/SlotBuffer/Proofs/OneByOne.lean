import Mathlib.Algebra.Group.Nat.Defs
import Mathlib.Data.Nat.Log
import Mathlib.Order.Bounds.Defs
import SlotBuffer.Proofs.Budget

/-! Items that come one by one. A buffer that starts without slots and is given one item after the
other doubles whenever it is full, so that its capacity is the least power of two that is enough, or
the limit where that is less. Under a limit it takes in as many items as the limit allows, and then
nothing more. -/

namespace SlotBuffer

/-! ### Powers of two -/

/-- The slots that `n` items have when they came one by one: a power of two, but none beyond the
limit. -/
def slotsFor (limit : Option CapacityLimit) (n : Nat) : Nat :=
  if n = 0 then 0 else CapacityLimit.clamp limit (2 ^ Nat.clog 2 n)

theorem isLeast_pow_clog (n : Nat) :
    IsLeast {p : Nat | p.isPowerOfTwo ∧ n ≤ p} (2 ^ Nat.clog 2 n) := by
  refine ⟨⟨⟨_, rfl⟩, Nat.le_pow_clog (by decide) n⟩, ?_⟩
  rintro p ⟨⟨k, rfl⟩, hk⟩
  exact Nat.pow_le_pow_right (by decide) (Nat.clog_le_of_le_pow hk)

/-- Past a power of two the next one is twice as large, and up to there it is the same. -/
theorem pow_clog_succ {n : Nat} (hn : 0 < n) :
    2 ^ Nat.clog 2 (n + 1) = if n < 2 ^ Nat.clog 2 n then 2 ^ Nat.clog 2 n else 2 * n := by
  have hle : n ≤ 2 ^ Nat.clog 2 n := Nat.le_pow_clog (by decide) n
  split
  next hlt => rw [← Nat.clog_eq_clog_succ_iff (by decide) |>.2 (Nat.ne_of_gt hlt)]
  next hge =>
    have heq : 2 ^ Nat.clog 2 n = n := Nat.le_antisymm (Nat.not_lt.1 hge) hle
    have hdouble : 2 ^ (Nat.clog 2 n + 1) = 2 * n := by rw [Nat.pow_succ', heq]
    have hup : Nat.clog 2 n < Nat.clog 2 (n + 1) := (Nat.clog_lt_clog_succ_iff (by decide)).2 heq
    have hdown : Nat.clog 2 (n + 1) ≤ Nat.clog 2 n + 1 := by
      apply Nat.clog_le_of_le_pow
      omega
    rw [← hdouble, Nat.le_antisymm hdown hup]

section

variable {limit : Option CapacityLimit} {n : Nat}

theorem slotsFor_succ_eq (limit : Option CapacityLimit) (n : Nat) :
    slotsFor limit (n + 1) = CapacityLimit.clamp limit (2 ^ Nat.clog 2 (n + 1)) := by
  rw [slotsFor, if_neg (Nat.succ_ne_zero n)]

theorem slotsFor_le_limit {l : CapacityLimit} (hl : l ∈ limit) (n : Nat) :
    slotsFor limit n ≤ l.slots := by
  unfold slotsFor
  split
  · exact Nat.zero_le _
  · exact CapacityLimit.clamp_le_limit hl _

theorem le_slotsFor (h : ∀ l ∈ limit, n ≤ l.slots) : n ≤ slotsFor limit n := by
  unfold slotsFor
  split
  next hn => exact Nat.le_of_eq hn
  next => exact CapacityLimit.le_clamp h (Nat.le_pow_clog (by decide) n)

/-- One more item goes into a spare slot where there is one, and else the slots are doubled. -/
theorem slotsFor_succ (h : ∀ l ∈ limit, n + 1 ≤ l.slots) :
    slotsFor limit (n + 1) =
      if n < slotsFor limit n then slotsFor limit n
      else CapacityLimit.clamp limit (max (n + 1) (2 * slotsFor limit n)) := by
  rcases Nat.eq_zero_or_pos n with rfl | hn
  · simp [slotsFor]
  have hslots : slotsFor limit n = CapacityLimit.clamp limit (2 ^ Nat.clog 2 n) := by
    rw [slotsFor, if_neg (Nat.ne_of_gt hn)]
  have hspare : n < slotsFor limit n ↔ n < 2 ^ Nat.clog 2 n := by
    rw [hslots]
    cases limit with
    | none => rfl
    | some l =>
      have hl := h l rfl
      simp only [CapacityLimit.clamp, Nat.lt_min]
      omega
  rw [slotsFor_succ_eq, pow_clog_succ hn]
  simp only [hspare]
  split
  next => exact hslots.symm
  next hge =>
    have hfull : slotsFor limit n = n := by
      have hge' : ¬ n < slotsFor limit n := mt hspare.1 hge
      have hle : n ≤ slotsFor limit n :=
        le_slotsFor fun l hl => Nat.le_of_succ_le (h l hl)
      omega
    rw [hfull, Nat.max_eq_right (by omega)]

end

/-! ### Single additions -/

namespace Buffer.Op

/-- The operation adds the value as one more item. -/
inductive AddsOne (items : List UInt64) : Op → UInt64 → Prop
  | push (v : UInt64) : AddsOne items (.push v) v
  | insert {v : UInt64} (hv : v ∉ items) : AddsOne items (.insert v) v

/-- The operations add the values one by one behind the items. -/
inductive AddEach : List UInt64 → List Op → List UInt64 → Prop
  | nil (items : List UInt64) : AddEach items [] []
  | cons {items vs : List UInt64} {op : Op} {v : UInt64} {ops : List Op}
      (hop : op.AddsOne items v) (hops : AddEach (items ++ [v]) ops vs) :
      AddEach items (op :: ops) (v :: vs)

theorem addEach_push (items vs : List UInt64) : AddEach items (vs.map .push) vs := by
  induction vs generalizing items with
  | nil => exact .nil items
  | cons v vs ih => exact .cons (.push v) (ih _)

theorem addEach_insert {items vs : List UInt64} (h : (items ++ vs).Nodup) :
    AddEach items (vs.map .insert) vs := by
  induction vs generalizing items with
  | nil => exact .nil items
  | cons v vs ih =>
    have hv : v ∉ items := fun hmem => (List.nodup_append.1 h).2.2 v hmem v List.mem_cons_self rfl
    exact .cons (.insert hv) (ih (by rwa [← List.append_cons]))

end Buffer.Op

/-- An addition is decided by the room for one more item. -/
theorem Contents.Step.addsOne {memory : Memory} {c d : Contents} {op : Buffer.Op} {v : UInt64}
    {r : Except Failure Reply} (h : Step memory c op r d) (hop : op.AddsOne c.items v) :
    (∃ reply e, r = .ok reply ∧ Room memory c 1 (.ok e) ∧
        d = { e with items := c.items ++ [v], spare := e.spare.drop 1 }) ∨
      ∃ cause, r = .error cause ∧ Room memory c 1 (.error cause) ∧ d = c := by
  cases hop with
  | push v =>
    cases h with
    | push_ok room => exact .inl ⟨_, _, rfl, room, rfl⟩
    | push_error room => exact .inr ⟨_, rfl, room, rfl⟩
  | insert hv =>
    cases h with
    | insert_mem h _ => exact absurd (by rw [h]; simp) hv
    | insert_ok _ room => exact .inl ⟨_, _, rfl, room, rfl⟩
    | insert_error _ room => exact .inr ⟨_, rfl, room, rfl⟩

/-! ### Buffers that grew item by item -/

namespace Contents

variable {memory : Memory} {c d : Contents}

/-- The slots are those to which one item after the other leads, and of the spare ones none was
written yet. -/
structure OneByOne (c : Contents) : Prop where
  within : ∀ l ∈ c.policy.limit, c.items.length ≤ l.slots
  capacity_eq : c.capacity = slotsFor c.policy.limit c.items.length
  spare_zero : ∀ x ∈ c.spare, x = 0

theorem OneByOne.grownCapacity_eq (h : c.OneByOne) (hwithin : c.Within 1)
    (hfull : c.capacity ≤ c.items.length) :
    c.grownCapacity 1 = slotsFor c.policy.limit (c.items.length + 1) := by
  rw [h.capacity_eq] at hfull
  rw [slotsFor_succ hwithin, if_neg (Nat.not_lt.2 hfull), grownCapacity, h.capacity_eq]

theorem OneByOne.capacity_eq_succ (h : c.OneByOne) (hroom : c.items.length < c.capacity) :
    c.Within 1 ∧ c.capacity = slotsFor c.policy.limit (c.items.length + 1) := by
  rw [h.capacity_eq] at hroom ⊢
  have hwithin : c.Within 1 := fun l hl => Nat.le_trans hroom (slotsFor_le_limit hl _)
  exact ⟨hwithin, by rw [slotsFor_succ hwithin, if_pos hroom]⟩

/-- Room for one more item is within the limit, in the slots for that many items. -/
theorem OneByOne.room (h : c.OneByOne) (room : Room memory c 1 (.ok d)) :
    c.Within 1 ∧ d.capacity = slotsFor c.policy.limit (c.items.length + 1) ∧
      ∀ x ∈ d.spare, x = 0 := by
  cases room with
  | enough _ hroom =>
    obtain ⟨hwithin, hcap⟩ := h.capacity_eq_succ hroom
    exact ⟨hwithin, hcap, h.spare_zero⟩
  | grown hgrows =>
    have hfull : c.capacity ≤ c.items.length := Nat.lt_succ_iff.1 hgrows.short.capacity_lt
    refine ⟨hgrows.within, ?_, ?_⟩
    · rw [capacity_growTo (Nat.le_of_lt hgrows.capacity_lt), h.grownCapacity_eq hgrows.within hfull]
    · intro x hx
      rcases List.mem_append.1 hx with hold | hnew
      · exact h.spare_zero x hold
      · exact List.eq_of_mem_replicate hnew

/-- Memory is needed only where the number of slots changes. -/
theorem OneByOne.exists_room_iff (h : c.OneByOne) (hmax : c.capacity ≤ maxSlots) :
    (∃ d, Room memory c 1 (.ok d)) ↔
      c.Within 1 ∧
        (slotsFor c.policy.limit c.items.length < slotsFor c.policy.limit (c.items.length + 1) →
          memory.allocate (slotsFor c.policy.limit (c.items.length + 1)) = .ok ()) := by
  have hword := two_mul_maxSlots_le
  rw [← h.capacity_eq]
  constructor
  · rintro ⟨d, room⟩
    refine ⟨(h.room room).1, fun hmore => ?_⟩
    cases room with
    | enough _ hroom =>
      rw [← (h.capacity_eq_succ hroom).2] at hmore
      exact absurd hmore (Nat.lt_irrefl _)
    | grown hgrows =>
      have hfull : c.capacity ≤ c.items.length := Nat.lt_succ_iff.1 hgrows.short.capacity_lt
      rw [← h.grownCapacity_eq hgrows.within hfull]
      exact Memory.allocate_of_serves hgrows.le_maxSlots hgrows.serves
  · rintro ⟨hwithin, hmore⟩
    rcases Nat.lt_or_ge c.items.length c.capacity with hroom | hfull
    · exact ⟨c, .enough (by omega) hroom⟩
    · have hle : c.items.length + 1 ≤ slotsFor c.policy.limit (c.items.length + 1) :=
        le_slotsFor hwithin
      obtain ⟨hslots, hserves⟩ := Memory.allocate_eq_ok_iff.1 (hmore (by omega))
      have hshort : c.Short 1 := ⟨by omega, by omega⟩
      rw [← h.grownCapacity_eq hwithin hfull] at hslots hserves
      exact ⟨_, .grown ⟨hshort, hwithin, hslots, hserves⟩⟩

/-- The item takes the first spare slot. -/
theorem OneByOne.next (h : c.OneByOne) (room : Room memory c 1 (.ok d)) (v : UInt64) :
    OneByOne { d with items := c.items ++ [v], spare := d.spare.drop 1 } := by
  obtain ⟨hwithin, hcap, hzero⟩ := h.room room
  have hitems := room.items_eq
  have hpolicy := room.policy_eq
  have hroom := room.capacity_cases.1
  constructor
  · intro l hl
    rw [hpolicy] at hl
    simpa using hwithin l hl
  · simp only [capacity, hitems, hpolicy, List.length_append, List.length_drop,
      List.length_singleton] at hcap hroom ⊢
    omega
  · intro x hx
    exact hzero x (List.mem_of_mem_drop hx)

end Contents

namespace Buffer

variable {memory : Memory} {b : Buffer} {v : UInt64} {vs : List UInt64} {op : Op}
  {calls : List (Memory × Op)}

theorem oneByOne_empty (policy : Policy) : (empty policy).contents.OneByOne where
  within _ _ := Nat.zero_le _
  capacity_eq := rfl
  spare_zero _ hx := by cases hx

theorem oneByOne_step (hb : b.contents.OneByOne) (hop : op.AddsOne b.items v) {reply : Reply}
    (hok : (b.step memory op).result = .ok reply) :
    (b.step memory op).state.contents.OneByOne ∧
      (b.step memory op).state.items = b.items ++ [v] := by
  rcases (b.rule_step memory op).addsOne hop with ⟨_, d, -, room, hstate⟩ | ⟨cause, herror, -, -⟩
  · rw [hstate]
    exact ⟨hb.next room v, congrArg Contents.items hstate⟩
  · rw [hok] at herror
    cases herror

/-- An addition succeeds within the limit, where the memory has the slots that are new. -/
theorem step_addsOne_ok_iff (hb : b.contents.OneByOne) (hmax : b.capacity ≤ maxSlots)
    (hop : op.AddsOne b.items v) :
    (∃ reply, (b.step memory op).result = .ok reply) ↔
      (∀ l ∈ b.policy.limit, b.len + 1 ≤ l.slots) ∧
        (slotsFor b.policy.limit b.len < slotsFor b.policy.limit (b.len + 1) →
          memory.allocate (slotsFor b.policy.limit (b.len + 1)) = .ok ()) := by
  have hroom : (∃ d, Contents.Room memory b.contents 1 (.ok d)) ↔ _ :=
    hb.exists_room_iff (by rwa [capacity_contents])
  rw [← b.length_items]
  refine Iff.trans ?_ hroom
  rcases (b.rule_step memory op).addsOne hop with ⟨reply, d, hok, room, -⟩ | ⟨cause, herror, room, -⟩
  · exact iff_of_true ⟨reply, hok⟩ ⟨d, room⟩
  · rw [herror]
    refine iff_of_false (by simp) ?_
    rintro ⟨d, hd⟩
    rw [Contents.room_iff] at room hd
    cases hd.symm.trans room

/-- At the limit an addition is refused for it, whatever the memory has. -/
theorem step_addsOne_of_full (hb : b.contents.OneByOne) {l : CapacityLimit}
    (hl : l ∈ b.policy.limit) (hfull : b.len = l.slots) (hop : op.AddsOne b.items v) :
    (b.step memory op).result = .error (.overLimit (l.slots + 1) l.slots) ∧
      (b.step memory op).state = b := by
  have hlen : b.contents.items.length = l.slots := b.length_items.trans hfull
  have hout : ¬ b.contents.Within 1 := by
    intro hwithin
    have hle := hwithin l hl
    omega
  rcases (b.rule_step memory op).addsOne hop with ⟨_, d, -, room, -⟩ | ⟨cause, herror, room, hstate⟩
  · exact absurd (hb.room room).1 hout
  · refine ⟨?_, contents_inj.1 hstate⟩
    rw [herror]
    cases room with
    | refused h =>
      cases h with
      | lengthOverflow h =>
        have hpos := l.pos
        have hmax := l.le_max
        have hword := two_mul_maxSlots_le
        omega
      | overLimit _ hl' _ =>
        cases hl.symm.trans hl'
        rw [hlen]
      | tooLarge _ hwithin _ | exhausted _ hwithin _ _ => exact absurd hwithin hout

/-! ### Runs -/

/-- Where the items are as many as `len` before the first of the calls, the memory of each call that
leads to more slots has them. -/
def HasSlots (limit : Option CapacityLimit) (len : Nat) (calls : List (Memory × Op)) : Prop :=
  ∀ p ∈ calls.zipIdx len, slotsFor limit p.2 < slotsFor limit (p.2 + 1) →
    p.1.1.allocate (slotsFor limit (p.2 + 1)) = .ok ()

theorem hasSlots_cons {limit : Option CapacityLimit} {len : Nat} {call : Memory × Op} :
    HasSlots limit len (call :: calls) ↔
      (slotsFor limit len < slotsFor limit (len + 1) →
        call.1.allocate (slotsFor limit (len + 1)) = .ok ()) ∧
      HasSlots limit (len + 1) calls := by
  rw [HasSlots, List.zipIdx_cons, List.forall_mem_cons]
  rfl

/-- No call needs more slots than the limit has. -/
theorem hasSlots_of_covers {limit : Option CapacityLimit} {l : CapacityLimit} (hl : l ∈ limit)
    (h : ∀ call ∈ calls, call.1.Covers l) (len : Nat) : HasSlots limit len calls := by
  intro p hp _
  have hslots : slotsFor limit (p.2 + 1) ≤ l.slots := slotsFor_le_limit hl _
  exact Memory.allocate_of_serves (Nat.le_trans hslots l.le_max)
    (h p.1 (List.fst_mem_of_mem_zipIdx hp) _ hslots)

theorem policy_final (b : Buffer) (calls : List (Memory × Op)) :
    (Run.final stepIn b calls).policy = b.policy := by
  refine Run.final_induction (P := fun c : Buffer => c.policy = b.policy) _ ?_ rfl
  intro c call _ hc
  rw [stepIn, policy_step, hc]

/-- As long as every addition succeeds, the values become items. -/
theorem oneByOne_final (hb : b.contents.OneByOne)
    (h : Op.AddEach b.items (calls.map Prod.snd) vs)
    (hok : ∀ o ∈ Run.outcomes stepIn b calls, ∃ reply, o.result = .ok reply) :
    (Run.final stepIn b calls).contents.OneByOne ∧
      (Run.final stepIn b calls).items = b.items ++ vs := by
  induction calls generalizing b vs with
  | nil =>
    cases h
    exact ⟨hb, (List.append_nil _).symm⟩
  | cons call calls ih =>
    rw [Run.outcomes_cons, List.forall_mem_cons] at hok
    obtain ⟨⟨reply, hfirst⟩, hrest⟩ := hok
    rw [List.map_cons] at h
    cases h with
    | cons hop hops =>
      obtain ⟨hnext, hitems⟩ := oneByOne_step hb hop hfirst
      rw [← hitems] at hops
      obtain ⟨hfinal, hall⟩ := ih hnext hops hrest
      exact ⟨hfinal, by rw [List.append_cons, ← hitems]; exact hall⟩

/-- All additions of a run succeed within the limit, where each that leads to more slots has the
memory for them. -/
theorem outcomes_ok_iff (hb : b.contents.OneByOne) (hbounded : b.Bounded)
    (h : Op.AddEach b.items (calls.map Prod.snd) vs) :
    (∀ o ∈ Run.outcomes stepIn b calls, ∃ reply, o.result = .ok reply) ↔
      (∀ l ∈ b.policy.limit, b.len + vs.length ≤ l.slots) ∧
        HasSlots b.policy.limit b.len calls := by
  induction calls generalizing b vs with
  | nil =>
    cases h
    have hwithin : ∀ l ∈ b.policy.limit, b.len ≤ l.slots := by
      rw [← length_items]
      exact hb.within
    simpa [HasSlots] using hwithin
  | cons call calls ih =>
    rw [List.map_cons] at h
    cases h with
    | @cons _ vs _ v _ hop hops =>
      have hfirst : (∃ reply, (b.stepIn call).result = .ok reply) ↔ _ :=
        step_addsOne_ok_iff hb hbounded.le_maxSlots hop
      have hrest (hok : ∃ reply, (b.stepIn call).result = .ok reply) :
          (∀ o ∈ Run.outcomes stepIn (b.stepIn call).state calls, ∃ reply, o.result = .ok reply) ↔
            (∀ l ∈ b.policy.limit, b.len + 1 + vs.length ≤ l.slots) ∧
              HasSlots b.policy.limit (b.len + 1) calls := by
        obtain ⟨reply, hok⟩ := hok
        obtain ⟨hnext, hitems⟩ := oneByOne_step hb hop hok
        have hlen : (b.stepIn call).state.len = b.len + 1 := by
          rw [← length_items, stepIn, hitems, List.length_append, length_items]
          rfl
        have hpolicy : (b.stepIn call).state.policy = b.policy := b.policy_step call.1 call.2
        rw [← hlen, ← hpolicy]
        rw [← hitems] at hops
        exact ih hnext (hbounded.step call.1 call.2) hops
      rw [Run.outcomes_cons, List.forall_mem_cons, and_congr_right hrest, hasSlots_cons,
        List.length_cons, hfirst]
      constructor
      · rintro ⟨⟨-, hmemory⟩, hlimit, hrest⟩
        refine ⟨?_, hmemory, hrest⟩
        intro l hl
        have := hlimit l hl
        omega
      · rintro ⟨hlimit, hmemory, hrest⟩
        refine ⟨⟨?_, hmemory⟩, ?_, hrest⟩
        all_goals
          intro l hl
          have := hlimit l hl
          omega

/-- Additions at the limit all fail for it and change nothing. -/
theorem outcomes_of_full (hb : b.contents.OneByOne) {l : CapacityLimit}
    (hl : l ∈ b.policy.limit) (hfull : b.len = l.slots)
    (hcalls : ∀ call ∈ calls, ∃ v, call.2.AddsOne b.items v) :
    ∀ o ∈ Run.outcomes stepIn b calls,
      o.result = .error (.overLimit (l.slots + 1) l.slots) ∧ o.state = b := by
  have hstep : ∀ call ∈ calls,
      (b.stepIn call).result = .error (.overLimit (l.slots + 1) l.slots) ∧
        (b.stepIn call).state = b := by
    intro call hcall
    obtain ⟨v, hv⟩ := hcalls call hcall
    exact step_addsOne_of_full hb hl hfull hv
  rw [Run.outcomes_of_fixed stepIn fun call hcall => (hstep call hcall).2]
  intro o ho
  obtain ⟨call, hcall, rfl⟩ := List.mem_map.1 ho
  exact hstep call hcall

/-- The run starts without slots and all its additions succeed. -/
theorem oneByOne_run {policy : Policy} (h : Op.AddEach [] (calls.map Prod.snd) vs)
    (hok : ∀ o ∈ Run.outcomes stepIn (empty policy) calls, ∃ reply, o.result = .ok reply) :
    let b := Run.final stepIn (empty policy) calls
    b.contents.OneByOne ∧ b.items = vs ∧ b.policy = policy ∧
      b.capacity = slotsFor policy.limit vs.length := by
  intro b
  obtain ⟨hb, hitems⟩ := oneByOne_final (oneByOne_empty policy) h hok
  replace hitems : b.items = vs := hitems
  have hpolicy : b.policy = policy := policy_final (empty policy) calls
  have hcap : b.capacity = slotsFor b.policy.limit b.items.length := by
    rw [← capacity_contents]
    exact hb.capacity_eq
  rw [hpolicy, hitems] at hcap
  exact ⟨hb, hitems, hpolicy, hcap⟩

/-- At the limit there are as many slots as items. -/
theorem slots_of_full {limit : Option CapacityLimit} {l : CapacityLimit} (hl : l ∈ limit)
    (hcap : b.capacity = slotsFor limit b.len) (hfull : b.len = l.slots) :
    b.capacity = l.slots ∧ b.spare = [] := by
  have hle : b.capacity ≤ l.slots := by
    rw [hcap]
    exact slotsFor_le_limit hl _
  have hge := b.len_le_capacity
  have hslots : b.capacity = l.slots := by omega
  refine ⟨hslots, ?_⟩
  rw [← List.length_eq_zero_iff, length_spare, hslots, hfull, Nat.sub_self]

/-! ### The closed form -/

/-- However pushes and insertions of new values are mixed, what they come to is told by their
number. They all succeed within the limit, as long as the memory has the slots at each that needs
more of them, and then the capacity is the least power of two that is enough, or the limit, with
nothing but zeros in the spare slots. Under a limit as many items go in as it allows, filling just as
many slots, and every further addition is refused. -/
theorem one_by_one_growth (policy : Policy) :
    (∀ items vs : List UInt64, Op.AddEach items (vs.map .push) vs ∧
      ((items ++ vs).Nodup → Op.AddEach items (vs.map .insert) vs)) ∧
    ∀ (calls : List (Memory × Op)) (vs : List UInt64), Op.AddEach [] (calls.map Prod.snd) vs →
      let outcomes := Run.outcomes stepIn (empty policy) calls
      let b := Run.final stepIn (empty policy) calls
      ((∀ o ∈ outcomes, ∃ reply, o.result = .ok reply) ↔
        (∀ l ∈ policy.limit, vs.length ≤ l.slots) ∧ HasSlots policy.limit 0 calls) ∧
      ((∀ o ∈ outcomes, ∃ reply, o.result = .ok reply) → 1 ≤ vs.length →
        b.items = vs ∧ (∀ x ∈ b.spare, x = 0) ∧
          ∃ p, IsLeast {p : Nat | p.isPowerOfTwo ∧ vs.length ≤ p} p ∧
            b.capacity = CapacityLimit.clamp policy.limit p) ∧
      ∀ l ∈ policy.limit, HasSlots policy.limit 0 calls → vs.length = l.slots →
        (∀ o ∈ outcomes, ∃ reply, o.result = .ok reply) ∧
          b.items = vs ∧ b.spare = [] ∧ b.capacity = l.slots ∧
          ∀ rest : List (Memory × Op), (∀ call ∈ rest, ∃ v, call.2.AddsOne vs v) →
            ∀ o ∈ Run.outcomes stepIn b rest,
              o.result = .error (.overLimit (l.slots + 1) l.slots) ∧ o.state = b := by
  refine ⟨fun items vs => ⟨Op.addEach_push items vs, Op.addEach_insert⟩, ?_⟩
  intro calls vs h outcomes b
  have hiff := outcomes_ok_iff (oneByOne_empty policy) (bounded_empty policy) h
  rw [show (empty policy).len = 0 from rfl, Nat.zero_add] at hiff
  refine ⟨hiff, ?_, ?_⟩
  · intro hok hpos
    obtain ⟨hb, hitems, -, hcap⟩ := oneByOne_run h hok
    refine ⟨hitems, hb.spare_zero, _, isLeast_pow_clog vs.length, ?_⟩
    rw [hcap, slotsFor, if_neg (Nat.ne_of_gt hpos)]
  · intro l hl hslots hlen
    have hok : ∀ o ∈ outcomes, ∃ reply, o.result = .ok reply := by
      refine hiff.2 ⟨?_, hslots⟩
      intro l' hl'
      cases hl.symm.trans hl'
      exact Nat.le_of_eq hlen
    obtain ⟨hb, hitems, hpolicy, hcap⟩ := oneByOne_run h hok
    have hitems' : b.items = vs := hitems
    have hcount : b.len = vs.length := by rw [← length_items, hitems']
    obtain ⟨hcap', hspare⟩ := slots_of_full hl (by rwa [hcount]) (hcount.trans hlen)
    refine ⟨hok, hitems, hspare, hcap', ?_⟩
    intro rest hrest
    rw [← hitems'] at hrest
    exact outcomes_of_full hb (by rwa [hpolicy]) (hcount.trans hlen) hrest

/-- Three items take four slots, and the limit of five is no power of two. The value `7` is pushed
twice, while the values that are inserted are new. -/
theorem one_by_one_growth_clamped :
    let policy : Policy := ⟨.copying, some ⟨5, by decide, by decide⟩⟩
    let calls : List (Memory × Op) :=
      [.push 7, .insert 5, .push 7, .insert 9, .insert 4].map (.upTo 5, ·)
    let first := calls.take 3
    let rest : List (Memory × Op) := [.push 4, .insert 8].map (.upTo 64, ·)
    let three := Run.final stepIn (empty policy) first
    let five := Run.final stepIn (empty policy) calls
    Op.AddEach [] (first.map Prod.snd) [7, 5, 7] ∧
      Op.AddEach [] (calls.map Prod.snd) [7, 5, 7, 9, 4] ∧
      (∃ p, IsLeast {p : Nat | p.isPowerOfTwo ∧ 3 ≤ p} p ∧
        three.capacity = CapacityLimit.clamp policy.limit p) ∧ three.capacity = 4 ∧
      five.items = [7, 5, 7, 9, 4] ∧ five.capacity = 5 ∧
      ∀ o ∈ Run.outcomes stepIn five rest,
        o.result = .error (.overLimit 6 5) ∧ o.state = five := by
  intro policy calls first rest three five
  have hlast : Op.AddEach [7, 5, 7] [.insert 9, .insert 4] [9, 4] :=
    .cons (.insert (by decide)) (.cons (.insert (by decide)) (.nil _))
  have hfirst : Op.AddEach [] (first.map Prod.snd) [7, 5, 7] :=
    .cons (.push 7) (.cons (.insert (by decide)) (.cons (.push 7) (.nil _)))
  have hcalls : Op.AddEach [] (calls.map Prod.snd) [7, 5, 7, 9, 4] :=
    .cons (.push 7) (.cons (.insert (by decide)) (.cons (.push 7) hlast))
  have hcovers : ∀ call ∈ calls, call.1.Covers ⟨5, by decide, by decide⟩ := by
    intro call hcall slots hslots
    obtain ⟨op, -, rfl⟩ := List.mem_map.1 hcall
    exact Memory.serves_upTo.2 hslots
  have hnew : ∀ call ∈ rest, ∃ v, call.2.AddsOne [7, 5, 7, 9, 4] v :=
    List.forall_mem_cons.2 ⟨⟨4, .push 4⟩, List.forall_mem_singleton.2 ⟨8, .insert (by decide)⟩⟩
  obtain ⟨-, hrun⟩ := one_by_one_growth policy
  obtain ⟨hiff, hthree, -⟩ := hrun first _ hfirst
  obtain ⟨-, -, hfive⟩ := hrun calls _ hcalls
  have hwithin : ∀ l ∈ policy.limit, 3 ≤ l.slots := by
    rintro l ⟨⟩
    decide
  have hcoversFirst : HasSlots policy.limit 0 first :=
    hasSlots_of_covers rfl (fun call hcall => hcovers call (List.mem_of_mem_take hcall)) 0
  obtain ⟨-, -, hleast⟩ := hthree (hiff.2 ⟨hwithin, hcoversFirst⟩) (by decide)
  obtain ⟨-, hitems, -, hcap, hrefused⟩ := hfive _ rfl (hasSlots_of_covers rfl hcovers 0) rfl
  have hfour : three.capacity = 4 := by decide
  exact ⟨hfirst, hcalls, hleast, hfour, hitems, hcap, hrefused rest hnew⟩

end Buffer

end SlotBuffer
