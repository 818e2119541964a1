import SlotBuffer.Proofs.Invariant

/-! A limit is a budget of items. Whether a buffer has to grow hangs on its capacity, and so on all
that was ever done to it. What an insertion is answered does not: where the memory can hold as many
slots as the limit allows, the length decides alone, and two buffers of one length accept and refuse
the same requests. A buffer can therefore be filled up to its limit, item by item or all at once. -/

namespace SlotBuffer

/-! ### Verdicts -/

namespace Outcome

variable {σ α β : Type}

/-- Whether the operation succeeded, and why it did not. -/
def verdict (o : Outcome σ α) : Except Failure Unit := o.result.map fun _ => ()

theorem verdict_eq_ok_iff {o : Outcome σ α} : o.verdict = .ok () ↔ ∃ a, o.result = .ok a := by
  unfold verdict
  cases o.result <;> simp [Except.map]

theorem verdict_map (f : α → β) (o : Outcome σ α) : (o.map f).verdict = o.verdict := by
  unfold verdict map
  cases o.result <;> rfl

theorem verdict_andThen (o : Outcome σ α) (f : σ → σ × β) : (o.andThen f).verdict = o.verdict := by
  unfold verdict andThen
  cases o.result <;> rfl

end Outcome

namespace CapacityLimit

/-- What a budget of so many items says to `n` more on top of `len`. -/
def verdict (limit : CapacityLimit) (len n : Nat) : Except Failure Unit :=
  if len + n ≤ limit.slots then .ok ()
  else if maxLength < len + n then .error (.lengthOverflow len n)
  else .error (.overLimit (len + n) limit.slots)

variable {limit : CapacityLimit} {len n : Nat}

theorem verdict_eq_ok_iff : limit.verdict len n = .ok () ↔ len + n ≤ limit.slots := by
  unfold verdict
  split
  next h => simp [h]
  next h => split <;> simp [h]

theorem slots_le_maxLength (limit : CapacityLimit) : limit.slots ≤ maxLength := by
  have hmax := limit.le_max
  have hword := two_mul_maxSlots_le
  omega

end CapacityLimit

/-- The memory has room for as many slots as the limit allows. -/
def Memory.Covers (memory : Memory) (limit : CapacityLimit) : Prop :=
  ∀ slots ≤ limit.slots, memory.serves slots = true

namespace Buffer

/-- The limit is all that stands in the way of growing. -/
structure Limited (memory : Memory) (limit : CapacityLimit) (b : Buffer) : Prop where
  covers : memory.Covers limit
  bounded : b.Bounded
  limit_eq : b.policy.limit = some limit

variable {memory : Memory} {limit : CapacityLimit} {b : Buffer}

theorem Limited.capacity_le (h : b.Limited memory limit) : b.capacity ≤ limit.slots :=
  h.bounded.le_limit limit h.limit_eq

theorem Limited.len_le (h : b.Limited memory limit) : b.len ≤ limit.slots :=
  Nat.le_trans b.len_le_capacity h.capacity_le

theorem Limited.step (h : b.Limited memory limit) (op : Op) :
    (b.step memory op).state.Limited memory limit where
  covers := h.covers
  bounded := h.bounded.step memory op
  limit_eq := by rw [policy_step, h.limit_eq]

/-- Doubling is clamped to the limit, so the memory is never what stands in the way. -/
theorem verdict_grow (h : b.Limited memory limit) {target : Nat}
    (hcap : b.capacity < target) :
    (b.grow memory target).verdict =
      if target ≤ limit.slots then .ok () else .error (.overLimit target limit.slots) := by
  split
  next hle =>
    have he : b.policy.exceeded? target = none := by
      rw [Policy.exceeded?_eq_none_iff, h.limit_eq]
      rintro l ⟨⟩
      exact hle
    have hnext : b.policy.nextCapacity b.capacity target ≤ limit.slots :=
      Policy.nextCapacity_le h.limit_eq
    rw [grow_of_serves memory (Nat.le_of_lt hcap) he (Nat.le_trans hnext limit.le_max)
      (h.covers _ hnext)]
    rfl
  next hle =>
    rw [grow_of_exceeded memory (Policy.exceeded?_eq_some_iff.2 ⟨h.limit_eq, Nat.not_le.1 hle⟩)]
    rfl

/-- Spare slots are within the limit already, so it makes no difference whether there are any. -/
theorem verdict_makeRoom (h : b.Limited memory limit) (n : Nat) :
    (b.makeRoom memory n).verdict = limit.verdict b.len n := by
  have hmax : limit.slots ≤ maxLength := limit.slots_le_maxLength
  unfold CapacityLimit.verdict
  rcases Nat.lt_or_ge maxLength (b.len + n) with hlen | hlen
  · rw [makeRoom_of_overflow memory hlen, if_neg (by omega), if_pos hlen]
    rfl
  rcases Nat.lt_or_ge b.capacity (b.len + n) with hcap | hcap
  · rw [makeRoom_of_gt memory hlen hcap, verdict_grow h hcap, if_neg (Nat.not_lt.2 hlen)]
  · rw [makeRoom_of_le memory hlen hcap, if_pos (Nat.le_trans hcap h.capacity_le)]
    rfl

theorem verdict_reserve (h : b.Limited memory limit) (n : Nat) (vs : List UInt64) :
    (b.reserve memory n vs).verdict = limit.verdict b.len n := by
  rw [reserve, Outcome.verdict_andThen, verdict_makeRoom h]

theorem verdict_append (h : b.Limited memory limit) (vs : List UInt64) :
    (b.append memory vs).verdict = limit.verdict b.len vs.length := by
  by_cases hvs : vs = []
  · subst hvs
    exact (CapacityLimit.verdict_eq_ok_iff.2 h.len_le).symm
  · rw [append, if_neg (by simpa using hvs), Outcome.verdict_andThen, verdict_makeRoom h]

theorem verdict_insert (h : b.Limited memory limit) (v : UInt64) :
    (b.insert memory v).verdict = if v ∈ b.items then .ok () else limit.verdict b.len 1 := by
  cases hi : b.firstIndex? v with
  | some i =>
    rw [insert_of_mem memory hi, if_pos (mem_of_firstIndex? hi)]
    rfl
  | none =>
    have hv : v ∉ b.items := firstIndex?_eq_none_iff.1 hi
    rw [insert_of_not_mem memory hv, Outcome.verdict_andThen, push, verdict_append h,
      if_neg hv]
    rfl

/-! ### Filling -/

/-- The operation adds values behind the items. -/
def Op.Supplies : Op → Prop
  | .append _ | .push _ | .insert _ => True
  | _ => False

/-- The items after an operation that adds values. -/
def Op.supply (items : List UInt64) : Op → List UInt64
  | .append vs => items ++ vs
  | .push v => items ++ [v]
  | .insert v => if v ∈ items then items else items ++ [v]
  | _ => items

theorem Op.length_le_supply (items : List UInt64) (op : Op) :
    items.length ≤ (op.supply items).length := by
  unfold supply
  split
  next => simp
  next => simp
  next => split <;> simp
  next => exact Nat.le_refl _

theorem Op.length_le_foldl_supply (items : List UInt64) (ops : List Op) :
    items.length ≤ (ops.foldl supply items).length := by
  induction ops generalizing items with
  | nil => exact Nat.le_refl _
  | cons op ops ih => exact Nat.le_trans (op.length_le_supply items) (ih (op.supply items))

theorem Op.foldl_supply_append (items : List UInt64) (chunks : List (List UInt64)) :
    (chunks.map append).foldl supply items = items ++ chunks.flatten := by
  induction chunks generalizing items with
  | nil => simp
  | cons vs chunks ih => simpa [supply] using ih (items ++ vs)

theorem Op.supplies_of_mem_map_append {chunks : List (List UInt64)} {op : Op}
    (h : op ∈ chunks.map append) : op.Supplies := by
  obtain ⟨vs, _, rfl⟩ := List.mem_map.1 h
  trivial

theorem verdict_step_eq_ok_iff (h : b.Limited memory limit) {op : Op} (hop : op.Supplies) :
    (b.step memory op).verdict = .ok () ↔ (op.supply b.items).length ≤ limit.slots := by
  cases op with
  | append vs =>
    rw [step, Outcome.verdict_map, verdict_append h, CapacityLimit.verdict_eq_ok_iff]
    simp [Op.supply]
  | push v =>
    rw [step, Outcome.verdict_map, push, verdict_append h, CapacityLimit.verdict_eq_ok_iff]
    simp [Op.supply]
  | insert v =>
    rw [step, Outcome.verdict_map, verdict_insert h, Op.supply]
    by_cases hv : v ∈ b.items
    · simpa [hv] using h.len_le
    · rw [if_neg hv, if_neg hv, CapacityLimit.verdict_eq_ok_iff]
      simp
  | _ => exact absurd hop id

theorem items_step_of_ok {op : Op} (hop : op.Supplies) (hok : (b.step memory op).verdict = .ok ()) :
    (b.step memory op).state.items = op.supply b.items := by
  cases op with
  | append vs =>
    rw [step, Outcome.verdict_map] at hok
    obtain ⟨_, hres⟩ := Outcome.verdict_eq_ok_iff.1 hok
    exact items_append memory hres
  | push v =>
    rw [step, Outcome.verdict_map] at hok
    obtain ⟨_, hres⟩ := Outcome.verdict_eq_ok_iff.1 hok
    exact items_append memory hres
  | insert v =>
    rw [step, Outcome.verdict_map] at hok
    obtain ⟨_, hres⟩ := Outcome.verdict_eq_ok_iff.1 hok
    exact items_insert memory hres
  | _ => exact absurd hop id

/-- A run of additions succeeds as a whole when there is room for what it adds in all, however that
is split up. -/
theorem verdict_outcomes_iff (h : b.Limited memory limit) {ops : List Op}
    (hops : ∀ op ∈ ops, op.Supplies) :
    (∀ o ∈ Run.outcomes (step memory) b ops, o.verdict = .ok ()) ↔
      (ops.foldl Op.supply b.items).length ≤ limit.slots := by
  induction ops generalizing b with
  | nil => simpa using h.len_le
  | cons op ops ih =>
    obtain ⟨hop, hops⟩ := List.forall_mem_cons.1 hops
    rw [Run.outcomes_cons, List.forall_mem_cons, ih (h.step op) hops, verdict_step_eq_ok_iff h hop,
      List.foldl_cons]
    constructor
    · rintro ⟨hroom, hrest⟩
      rwa [items_step_of_ok hop ((verdict_step_eq_ok_iff h hop).2 hroom)] at hrest
    · -- items only become more, so where there is room for all there is room for the first
      intro hrest
      have hroom : (op.supply b.items).length ≤ limit.slots :=
        Nat.le_trans (Op.length_le_foldl_supply _ ops) hrest
      rw [items_step_of_ok hop ((verdict_step_eq_ok_iff h hop).2 hroom)]
      exact ⟨hroom, hrest⟩

theorem items_final (h : b.Limited memory limit) {ops : List Op}
    (hops : ∀ op ∈ ops, op.Supplies)
    (hroom : (ops.foldl Op.supply b.items).length ≤ limit.slots) :
    (Run.final (step memory) b ops).items = ops.foldl Op.supply b.items := by
  induction ops generalizing b with
  | nil => rfl
  | cons op ops ih =>
    obtain ⟨hop, hops⟩ := List.forall_mem_cons.1 hops
    have hfirst : (op.supply b.items).length ≤ limit.slots :=
      Nat.le_trans (Op.length_le_foldl_supply _ ops) hroom
    have hitems : (b.step memory op).state.items = op.supply b.items :=
      items_step_of_ok hop ((verdict_step_eq_ok_iff h hop).2 hfirst)
    rw [Run.final_cons, List.foldl_cons, ← hitems]
    apply ih (h.step op) hops
    rwa [hitems]

/-! ### The budget -/

/-- Insertions are answered by the limit, and all of it can be used. -/
structure Budgeted (memory : Memory) (limit : CapacityLimit) (b : Buffer) : Prop where
  reserve : ∀ n vs, (b.reserve memory n vs).verdict = limit.verdict b.len n
  append : ∀ vs, (b.append memory vs).verdict = limit.verdict b.len vs.length
  push : ∀ v, (b.push memory v).verdict = limit.verdict b.len 1
  insert : ∀ v, (b.insert memory v).verdict =
    if v ∈ b.items then .ok () else limit.verdict b.len 1
  add : ∀ ops : List Op, (∀ op ∈ ops, op.Supplies) →
    ((∀ o ∈ Run.outcomes (step memory) b ops, o.verdict = .ok ()) ↔
      (ops.foldl Op.supply b.items).length ≤ limit.slots) ∧
    ((ops.foldl Op.supply b.items).length ≤ limit.slots →
      (Run.final (step memory) b ops).items = ops.foldl Op.supply b.items)
  fill : ∀ chunks : List (List UInt64), b.len + chunks.flatten.length = limit.slots →
    (∀ o ∈ Run.outcomes (step memory) b (chunks.map .append), o.verdict = .ok ()) ∧
    (Run.final (step memory) b (chunks.map .append)).len = limit.slots

theorem Limited.budgeted (h : b.Limited memory limit) : b.Budgeted memory limit where
  reserve := verdict_reserve h
  append := verdict_append h
  push v := verdict_append h [v]
  insert := verdict_insert h
  add _ hops := ⟨verdict_outcomes_iff h hops, items_final h hops⟩
  fill := by
    intro chunks hfull
    have hops : ∀ op ∈ chunks.map Op.append, op.Supplies := fun _ => Op.supplies_of_mem_map_append
    have hlen : ((chunks.map Op.append).foldl Op.supply b.items).length = limit.slots := by
      rw [Op.foldl_supply_append, List.length_append, length_items, hfull]
    refine ⟨(verdict_outcomes_iff h hops).2 (Nat.le_of_eq hlen), ?_⟩
    rw [← length_items, items_final h hops (Nat.le_of_eq hlen), hlen]

/-- However two buffers with one limit came about, each is budgeted by that limit. So at one length
they accept the same requests, and refuse the same ones for the same cause. -/
theorem Reachable.budgets {memory memory' : Memory} {limit : CapacityLimit} {a b : Buffer}
    (ha : a.Reachable memory) (hb : b.Reachable memory') (hla : a.policy.limit = some limit)
    (hlb : b.policy.limit = some limit) (hm : memory.Covers limit) (hm' : memory'.Covers limit) :
    a.Budgeted memory limit ∧ b.Budgeted memory' limit ∧
    (a.len = b.len →
      (∀ n vs ws, (a.reserve memory n vs).verdict = (b.reserve memory' n ws).verdict) ∧
      (∀ vs ws : List UInt64, vs.length = ws.length →
        (a.append memory vs).verdict = (b.append memory' ws).verdict) ∧
      ∀ v w, (v ∈ a.items ↔ w ∈ b.items) →
        (a.insert memory v).verdict = (b.insert memory' w).verdict) := by
  have hbudget : a.Budgeted memory limit := Limited.budgeted ⟨hm, ha.bounded, hla⟩
  have hbudget' : b.Budgeted memory' limit := Limited.budgeted ⟨hm', hb.bounded, hlb⟩
  refine ⟨hbudget, hbudget', fun hlen => ⟨?_, ?_, ?_⟩⟩
  · intro n vs ws
    rw [hbudget.reserve, hbudget'.reserve, hlen]
  · intro vs ws hvs
    rw [hbudget.append, hbudget'.append, hlen, hvs]
  · intro v w hvw
    simp only [hbudget.insert, hbudget'.insert, hlen, hvw]

end Buffer

/-- Two items that were appended at once, and have no spare slot behind them. -/
def Registers.tight : Registers :=
  Run.final (Command.step (.upTo 3)) .initial
    [.configure 0 .inPlace (some 3), .on 0 (.append [7, 7])]

theorem Registers.reachable_tight : Registers.Reachable (.upTo 3) .tight := ⟨_, by decide, rfl⟩

/-- Of two buffers with two items and a limit of three, one has to grow for the third item. -/
theorem Buffer.budgets_tight :
    (Registers.clamped 0).Reachable (.upTo 8) ∧ (Registers.tight 0).Reachable (.upTo 3) ∧
      (Registers.clamped 0).capacity = 3 ∧ (Registers.tight 0).capacity = 2 ∧
      ((Registers.clamped 0).append (.upTo 8) [1, 2]).verdict = .error (.overLimit 4 3) ∧
      ((Registers.tight 0).append (.upTo 3) [1, 2]).verdict = .error (.overLimit 4 3) ∧
      (Run.final (Buffer.step (.upTo 3)) (Registers.tight 0)
        [.append [], .append [6]]).len = 3 := by
  have ha : (Registers.clamped 0).Reachable (.upTo 8) := ⟨_, 0, Registers.reachable_clamped, rfl⟩
  have hb : (Registers.tight 0).Reachable (.upTo 3) := ⟨_, 0, Registers.reachable_tight, rfl⟩
  have hm : (Memory.upTo 8).Covers ⟨3, by decide, by decide⟩ := by
    intro slots hslots
    exact Memory.serves_upTo.2 (Nat.le_trans hslots (by decide))
  have hm' : (Memory.upTo 3).Covers ⟨3, by decide, by decide⟩ := by
    intro slots hslots
    exact Memory.serves_upTo.2 hslots
  obtain ⟨hbudget, hbudget', hsame⟩ := Reachable.budgets ha hb rfl rfl hm hm'
  obtain ⟨-, happend, -⟩ := hsame rfl
  have hrefused : ((Registers.clamped 0).append (.upTo 8) [1, 2]).verdict =
      .error (.overLimit 4 3) := by
    rw [hbudget.append]
    rfl
  refine ⟨ha, hb, rfl, rfl, hrefused, ?_, ?_⟩
  · rw [← happend [1, 2] [1, 2] rfl, hrefused]
  · exact (hbudget'.fill [[], [6]] rfl).2

end SlotBuffer
