import SlotBuffer.Buffer.Op
import SlotBuffer.Run

/-! A reservation is a promise of slots. Once room for `n` items was made, operations that use up no
more than `n` slots all succeed, in whatever order they come and whatever else is done to the buffer
in between: none of them grows it, so neither its limit nor the memory is asked again. What carries
a run is that the items and the slots not yet used up fit into the capacity. -/

namespace SlotBuffer.Buffer

/-! ### What is drawn from a reservation -/

namespace Op

/-- The slots that an operation is charged for, used or not. -/
def charge : Op → Nat
  | .append vs => vs.length
  | .push _ | .insert _ => 1
  | .commit count => count
  | _ => 0

/-- The slots that have to be left for it: a window is not charged for, but it has to be there. -/
def demand : Op → Nat
  | .reserve additional _ => additional
  | op => op.charge

/-- Where `n` slots are left at first, every operation finds what it asks for among those that are
left when its turn comes, and the slots are not given back. -/
def Covers : Nat → List Op → Prop
  | _, [] => True
  | n, op :: ops => op ≠ .destroy ∧ op.demand ≤ n ∧ Covers (n - op.charge) ops

instance decidableCovers : (n : Nat) → (ops : List Op) → Decidable (Covers n ops)
  | _, [] => inferInstanceAs (Decidable True)
  | n, op :: ops =>
    have := decidableCovers (n - op.charge) ops
    inferInstanceAs (Decidable (op ≠ .destroy ∧ op.demand ≤ n ∧ Covers (n - op.charge) ops))

end Op

/-! ### Single operations -/

/-- Room for `n` more items is there already. -/
structure Reserved (n : Nat) (b : Buffer) : Prop where
  le_maxLength : b.len + n ≤ maxLength
  le_capacity : b.len + n ≤ b.capacity

/-- A success that logs nothing, keeps the capacity and leaves room for `n` more items. -/
structure Honours {α : Type} (b : Buffer) (n : Nat) (o : Outcome Buffer α) : Prop where
  ok : ∃ a, o.result = .ok a
  log : o.log = []
  capacity : o.state.capacity = b.capacity
  reserved : o.state.Reserved n

variable {b c : Buffer} {m n : Nat}

theorem Honours.map {α β : Type} {o : Outcome Buffer α} (h : b.Honours n o) (f : α → β) :
    b.Honours n (o.map f) := by
  obtain ⟨⟨a, hres⟩, hlog, hcap, hroom⟩ := h
  refine ⟨⟨f a, ?_⟩, hlog, hcap, hroom⟩
  rw [Outcome.map, hres]
  rfl

theorem Reserved.honours_done {α : Type} {a : α} (h : b.Reserved n) (hcap : c.capacity = b.capacity)
    (hlen : c.len + m ≤ b.len + n) : b.Honours m (.done c a) where
  ok := ⟨a, rfl⟩
  log := rfl
  capacity := hcap
  reserved := by
    obtain ⟨hmax, hle⟩ := h
    constructor
    · exact Nat.le_trans hlen hmax
    · exact Nat.le_trans hlen (Nat.le_trans hle (Nat.le_of_eq hcap.symm))

variable (memory : Memory)

/-- No slots are needed but those that are there. -/
theorem Reserved.makeRoom_eq (h : b.Reserved n) (hm : m ≤ n) :
    b.makeRoom memory m = .done b () := by
  obtain ⟨hmax, hle⟩ := h
  apply makeRoom_of_le memory <;> omega

theorem Reserved.honours_reserve (h : b.Reserved n) (hm : m ≤ n) (vs : List UInt64) :
    b.Honours n (b.reserve memory m vs) := by
  rw [reserve, h.makeRoom_eq memory hm]
  exact h.honours_done (capacity_fill ..) (Nat.le_refl _)

/-- Values for which there are slots are laid over these. -/
theorem Reserved.append_eq (h : b.Reserved n) {vs : List UInt64} (hvs : vs.length ≤ n) :
    b.append memory vs = .done ((b.fill vs).advance vs.length) () := by
  by_cases hne : vs = []
  · subst hne
    have hnil : (b.fill []).advance 0 = b := ext_views (by simp) (by simp) rfl
    rw [append_nil, List.length_nil, hnil]
  · rw [append, if_neg (by simpa using hne), h.makeRoom_eq memory hvs]
    rfl

theorem Reserved.honours_append (h : b.Reserved n) (vs : List UInt64) (hvs : vs.length ≤ n) :
    b.Honours (n - vs.length) (b.append memory vs) := by
  have hlen : ((b.fill vs).advance vs.length).len ≤ b.len + vs.length := Nat.min_le_left ..
  have hroom : ((b.fill vs).advance vs.length).len + (n - vs.length) ≤ b.len + n := by omega
  rw [h.append_eq memory hvs]
  exact h.honours_done (capacity_fill ..) hroom

theorem Reserved.honours_insert (h : b.Reserved n) (hn : 1 ≤ n) (v : UInt64) :
    b.Honours (n - 1) (b.insert memory v) := by
  cases hf : b.firstIndex? v with
  | some i =>
    rw [insert_of_mem memory hf]
    exact h.honours_done rfl (by omega)
  | none =>
    obtain ⟨⟨_, hres⟩, hlog, hcap, hroom⟩ := h.honours_append memory [v] hn
    rw [insert_of_not_mem memory (firstIndex?_eq_none_iff.1 hf), push, Outcome.andThen, hres]
    exact ⟨⟨_, rfl⟩, hlog, hcap, hroom⟩

/-- Slots that are there can be made live. -/
theorem Reserved.commit_eq (h : b.Reserved n) (hm : m ≤ n) :
    b.commit m = .done (b.advance m) () := by
  have hle : b.len + m ≤ b.capacity := Nat.le_trans (Nat.add_le_add_left hm _) h.le_capacity
  rw [commit, if_pos hle]

theorem Reserved.honours_commit (h : b.Reserved n) (hm : m ≤ n) :
    b.Honours (n - m) (b.commit m) := by
  have hlen : (b.advance m).len ≤ b.len + m := Nat.min_le_left ..
  rw [h.commit_eq hm]
  exact h.honours_done rfl (by omega)

/-- An operation that is covered succeeds, and uses up what it is charged for at most. -/
theorem Reserved.step (h : b.Reserved n) {op : Op} (hop : op ≠ .destroy) (hn : op.demand ≤ n) :
    b.Honours (n - op.charge) (b.step memory op) := by
  cases op with
  | destroy => exact absurd rfl hop
  | push v => exact (h.honours_append memory [v] hn).map _
  | append vs => exact (h.honours_append memory vs hn).map _
  | reserve additional vs => exact (h.honours_reserve memory hn vs).map _
  | commit count => exact (h.honours_commit hn).map _
  | insert v => exact (h.honours_insert memory hn v).map _
  | swapErase v =>
    exact h.honours_done (capacity_swapErase b v) (Nat.add_le_add_right (b.len_swapErase_le v) n)
  | erase v =>
    exact h.honours_done (capacity_erase b v) (Nat.add_le_add_right (b.len_erase_le v) n)
  | moveToBack v =>
    exact h.honours_done (capacity_moveToBack b v) (Nat.le_of_eq (by rw [len_moveToBack]; rfl))
  | moveToFront v =>
    exact h.honours_done (capacity_moveToFront b v) (Nat.le_of_eq (by rw [len_moveToFront]; rfl))
  | clear => exact h.honours_done rfl (Nat.add_le_add_right (Nat.zero_le b.len) n)
  | policy | len | capacity | isEmpty | items | get | contains | find | display | describe =>
    exact h.honours_done rfl (Nat.le_refl _)

/-! ### Runs -/

theorem Reserved.outcomes (h : b.Reserved n) {calls : List (Memory × Op)}
    (hcalls : Op.Covers n (calls.map Prod.snd)) :
    ∀ o ∈ Run.outcomes stepIn b calls,
      (∃ reply, o.result = .ok reply) ∧ o.log = [] ∧ o.state.capacity = b.capacity := by
  induction calls generalizing b n with
  | nil => simp
  | cons call calls ih =>
    obtain ⟨hop, hdemand, hrest⟩ := hcalls
    obtain ⟨hok, hlog, hcap, hroom⟩ := h.step call.1 hop hdemand
    rw [Run.outcomes_cons, List.forall_mem_cons]
    refine ⟨⟨hok, hlog, hcap⟩, ?_⟩
    intro o ho
    obtain ⟨hok', hlog', hcap'⟩ := ih hroom hrest o ho
    exact ⟨hok', hlog', hcap'.trans hcap⟩

theorem reserved_of_reserve {vs window : List UInt64}
    (h : (b.reserve memory n vs).result = .ok window) :
    (b.reserve memory n vs).state.Reserved n := by
  obtain ⟨⟨_, hres⟩, -⟩ := Outcome.result_andThen_eq_ok.1 h
  have hmax : b.len + n ≤ maxLength := le_maxLength_of_makeRoom memory hres
  obtain ⟨hroom, -⟩ := makeRoom_of_ok memory hres
  rw [← len_makeRoom memory b n] at hmax hroom
  rw [reserve_of_ok memory hres]
  exact ⟨hmax, Nat.le_trans hroom (Nat.le_of_eq (capacity_fill ..).symm)⟩

/-- After `n` slots were reserved, no operation of a run that they cover fails, logs anything or
changes the capacity, whatever the policy is and whatever memory each operation meets. -/
theorem reservation_honoured {vs window : List UInt64}
    (h : (b.reserve memory n vs).result = .ok window) {calls : List (Memory × Op)}
    (hcalls : Op.Covers n (calls.map Prod.snd)) :
    ∀ o ∈ Run.outcomes stepIn (b.reserve memory n vs).state calls,
      (∃ reply, o.result = .ok reply) ∧ o.log = [] ∧
        o.state.capacity = (b.reserve memory n vs).state.capacity :=
  (reserved_of_reserve memory h).outcomes hcalls

/-- Four slots last through a run in which no memory is left. Of the two that are appended one is
freed again, and the value that is inserted was there before, but both stay charged for. -/
theorem reservation_honoured_without_memory :
    let ops := [.append [5, 9], .erase 5, .reserve 2 [7, 4], .insert 9, .moveToFront 9, .commit 1,
      .clear]
    let calls : List (Memory × Op) := ops.map (.upTo 0, ·)
    (empty.reserve (.upTo 8) 4 []).result = .ok [0, 0, 0, 0] ∧ Op.Covers 4 ops ∧
      ∀ o ∈ Run.outcomes stepIn (empty.reserve (.upTo 8) 4 []).state calls,
        (∃ reply, o.result = .ok reply) ∧ o.log = [] ∧ o.state.capacity = 4 := by
  intro ops calls
  have hres : (empty.reserve (.upTo 8) 4 []).result = .ok [0, 0, 0, 0] := rfl
  have hcover : Op.Covers 4 ops := by decide
  exact ⟨hres, hcover, reservation_honoured (.upTo 8) hres hcover⟩

end SlotBuffer.Buffer
