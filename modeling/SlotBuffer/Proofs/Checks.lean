import SlotBuffer.Proofs.Invariant

/-! Runs with every check made. On a reachable buffer all ranges of slots that the operations reach
are there, and every sum and difference of words is the number that it stands for. A run of the
checked operations is therefore never cut short, and has the outcomes of the run itself. -/

namespace SlotBuffer

/-! ### Checked runs -/

theorem Buffer.capacity_step_le_maxSlots (memory : Memory) {b : Buffer}
    (h : b.capacity ≤ maxSlots) (op : Op) : (b.step memory op).state.capacity ≤ maxSlots := by
  rcases b.capacity_step memory op with ⟨_, hzero⟩ | hkept | ⟨n, hgrows, hcap⟩
  · omega
  · rw [hkept, capacity_contents]
    exact h
  · rw [hcap]
    exact hgrows.le_maxSlots

namespace Checked

variable (memory : Memory)

/-- The outcomes of the checked operations, in order. A check that fails leaves none of them. -/
def outcomes? : State → List Buffer.Op → Option (List (Outcome State Reply))
  | _, [] => some []
  | s, op :: ops => do
    let outcome ← step? memory s op
    let rest ← outcomes? outcome.state ops
    return outcome :: rest

theorem outcomes?_state {b : Buffer} (h : b.capacity ≤ maxSlots) (ops : List Buffer.Op) :
    outcomes? memory (state b) ops =
      some ((Run.outcomes (Buffer.step memory) b ops).map (·.within state)) := by
  induction ops generalizing b with
  | nil => rfl
  | cons op ops ih =>
    have hrest : outcomes? memory ((b.step memory op).within state).state ops = _ :=
      ih (Buffer.capacity_step_le_maxSlots memory h op)
    rw [outcomes?, step?_state memory h op, Option.bind_eq_bind, Option.bind_some, hrest]
    rfl

end Checked

/-! ### Words -/

/-- The word that holds `n`, if one does. -/
def word (n : Nat) : UInt64 := .ofNat n

theorem toNat_word {n : Nat} (h : n ≤ maxLength) : (word n).toNat = n := by
  apply UInt64.toNat_ofNat_of_lt'
  unfold maxLength at h
  have : 0 < UInt64.size := by decide
  omega

theorem toNat_word_add {m n : Nat} (h : m + n ≤ maxLength) :
    (word m + word n).toNat = m + n := by
  have hsize : m + n < 2 ^ 64 := by
    unfold maxLength at h
    have : UInt64.size = 2 ^ 64 := rfl
    omega
  rw [UInt64.toNat_add, toNat_word (by omega), toNat_word (by omega), Nat.mod_eq_of_lt hsize]

theorem toNat_word_sub {m n : Nat} (hm : m ≤ maxLength) (h : n ≤ m) :
    (word m - word n).toNat + n = m := by
  have hle : word n ≤ word m := by
    rw [UInt64.le_iff_toNat_le, toNat_word hm, toNat_word (by omega)]
    exact h
  rw [UInt64.toNat_sub_of_le _ _ hle, toNat_word hm, toNat_word (by omega)]
  omega

namespace Buffer

/-! ### Ranges of slots -/

/-- The slots from `start` up to `stop` are there. -/
def Spans (b : Buffer) (start stop : Nat) : Prop := start ≤ stop ∧ stop ≤ b.slots.size

/-- The slots that the operations read, write and copy are there. -/
structure InRange (memory : Memory) (b : Buffer) : Prop where
  items : b.Spans 0 b.len
  /-- The window that is handed out has the slots that were asked for. -/
  window : ∀ n, (b.makeRoom memory n).result = .ok () →
    let c := (b.makeRoom memory n).state
    c.Spans c.len (c.len + n) ∧ (c.spare.take n).length = n
  /-- The last item takes the place of the one that is found. -/
  swapErase : ∀ v i, b.lastIndex? v = some i → i < b.slots.size ∧ b.len - 1 < b.slots.size
  /-- The items behind the one that is found move down by one slot. -/
  erase : ∀ v i, b.firstIndex? v = some i →
    b.Spans (i + 1) b.len ∧ b.Spans i (i + (b.len - (i + 1)))
  moveToBack : 0 < b.len → b.Spans 0 (b.len - 1) ∧
    ∀ v i, b.items.dropLast.idxOf? v = some i →
      b.Spans (i + 1) b.len ∧ b.Spans i (i + (b.len - (i + 1))) ∧ b.len - 1 < b.slots.size
  /-- The items before the one that is found move up by one slot. -/
  moveToFront : ∀ v i, b.firstIndex? v = some i →
    b.Spans 0 i ∧ b.Spans 1 (1 + i) ∧ 0 < b.slots.size

theorem spans_behind (b : Buffer) {i : Nat} (h : i < b.len) :
    b.Spans (i + 1) b.len ∧ b.Spans i (i + (b.len - (i + 1))) := by
  have hle := b.len_le
  exact ⟨⟨h, hle⟩, Nat.le_add_right .., by omega⟩

theorem inRange (memory : Memory) (b : Buffer) : b.InRange memory where
  items := ⟨Nat.zero_le _, b.len_le⟩
  window := by
    intro n hn
    obtain ⟨hlen, _, hroom⟩ := Checked.room_facts memory hn
    rw [← hlen] at hroom
    refine ⟨⟨Nat.le_add_right .., hroom⟩, ?_⟩
    rw [List.length_take, length_spare, capacity]
    omega
  swapErase := by
    intro v i hi
    have hlt := lastIndex?_lt hi
    have hle := b.len_le
    constructor <;> omega
  erase := by
    intro v i hi
    exact b.spans_behind (firstIndex?_lt hi)
  moveToBack := by
    intro hpos
    have hle := b.len_le
    refine ⟨⟨Nat.zero_le _, by omega⟩, ?_⟩
    intro v i hi
    obtain ⟨hsource, htarget⟩ := b.spans_behind (firstIndex?_lt (firstIndex?_of_dropLast hi))
    exact ⟨hsource, htarget, by omega⟩
  moveToFront := by
    intro v i hi
    have hlt := firstIndex?_lt hi
    have hle := b.len_le
    exact ⟨⟨Nat.zero_le _, by omega⟩, ⟨Nat.le_add_right .., by omega⟩, by omega⟩

/-! ### Sums and differences -/

/-- The sums and differences that the operations take without a check are those of the numbers. -/
structure WordsExact (memory : Memory) (b : Buffer) : Prop where
  doubled : 2 * b.capacity ≤ maxLength
  /-- The slots that growing adds. -/
  extra : ∀ n, b.len + n ≤ maxLength → b.capacity < b.len + n →
    b.policy.exceeded? (b.len + n) = none →
    let grown := b.policy.nextCapacity b.capacity (b.len + n)
    (word grown - word b.capacity).toNat + b.capacity = grown
  append : ∀ vs, vs ≠ [] → (b.append memory vs).result = .ok () →
    (word b.len + word vs.length).toNat = (b.append memory vs).state.len
  /-- A new value stands in the last place. -/
  insert : ∀ v i, v ∉ b.items → (b.insert memory v).result = .ok i →
    (word (b.insert memory v).state.len - word 1).toNat = i
  remove : ∀ v i, b.firstIndex? v = some i ∨ b.lastIndex? v = some i →
    (word b.len - word 1).toNat + 1 = b.len
  next : ∀ v i, b.firstIndex? v = some i → (word i + word 1).toNat = i + 1

theorem Bounded.doubled_le {b : Buffer} (h : b.Bounded) : 2 * b.capacity ≤ maxLength :=
  Nat.le_trans (Nat.mul_le_mul_left 2 h.le_maxSlots) two_mul_maxSlots_le

theorem Bounded.nextCapacity_le_maxLength {b : Buffer} (h : b.Bounded) {target : Nat}
    (ht : target ≤ maxLength) : b.policy.nextCapacity b.capacity target ≤ maxLength := by
  have hmax : max target (2 * b.capacity) ≤ maxLength := Nat.max_le.2 ⟨ht, h.doubled_le⟩
  rw [Policy.nextCapacity_eq]
  cases b.policy.limit with
  | none => exact hmax
  | some limit => exact Nat.le_trans (Nat.min_le_left ..) hmax

theorem Bounded.wordsExact {b : Buffer} (memory : Memory) (h : b.Bounded) :
    b.WordsExact memory where
  doubled := h.doubled_le
  extra := by
    intro n hlen hcap hlimit
    have hgrown : b.len + n ≤ b.policy.nextCapacity b.capacity (b.len + n) :=
      Policy.le_nextCapacity hlimit
    exact toNat_word_sub (h.nextCapacity_le_maxLength hlen) (by omega)
  append := by
    intro vs hvs hok
    have hlen : (b.append memory vs).state.len = b.len + vs.length := by
      rw [← length_items, items_append memory hok, List.length_append, length_items]
    have hmax : (b.append memory vs).state.len ≤ maxLength :=
      (h.step memory (.append vs)).len_le_maxLength
    rw [hlen] at hmax ⊢
    exact toNat_word_add hmax
  insert := by
    intro v i hv hok
    obtain ⟨rfl, hitems⟩ := insert_new_of_ok memory hv hok
    have hlen : (b.insert memory v).state.len = b.len + 1 := by
      rw [← length_items, hitems, List.length_append, length_items]
      rfl
    have hmax : (b.insert memory v).state.len ≤ maxLength :=
      (h.step memory (.insert v)).len_le_maxLength
    have hsub := toNat_word_sub hmax (show 1 ≤ (b.insert memory v).state.len by omega)
    omega
  remove := by
    intro v i hi
    have hpos : i < b.len := hi.elim firstIndex?_lt lastIndex?_lt
    exact toNat_word_sub h.len_le_maxLength (by omega)
  next := by
    intro v i hi
    have hlt := firstIndex?_lt hi
    exact toNat_word_add (Nat.le_trans hlt h.len_le_maxLength)

/-! ### Runs -/

theorem Bounded.final {b : Buffer} (memory : Memory) (h : b.Bounded) (ops : List Op) :
    (Run.final (Buffer.step memory) b ops).Bounded :=
  Run.final_induction _ (fun _ op _ hb => hb.step memory op) h

/-- Wherever a run leads from a reachable buffer, every slot that is reached is there and no word
wraps around, so that the checked run has all of its outcomes, and they are those of the run. -/
theorem Reachable.checks_pass {memory : Memory} {b : Buffer} (h : b.Reachable memory)
    (ops : List Op) :
    (Run.final (step memory) b ops).InRange memory ∧
    (Run.final (step memory) b ops).WordsExact memory ∧
    Checked.outcomes? memory (Checked.state b) ops =
      some ((Run.outcomes (step memory) b ops).map (·.within Checked.state)) := by
  have hb : b.Bounded := h.bounded
  refine ⟨inRange memory _, (hb.final memory ops).wordsExact memory, ?_⟩
  exact Checked.outcomes?_state memory hb.le_maxSlots ops

/-- A full buffer gives up its first item, moves another one over the slot that is left, takes a
value into it and refuses one more. -/
theorem checks_pass_clamped :
    let ops := [.erase 5, .moveToBack 9, .push 7, .insert 8, .insert 7]
    (Registers.clamped 1).Reachable (.upTo 8) ∧
      (Run.final (step (.upTo 8)) (Registers.clamped 1) ops).WordsExact (.upTo 8) ∧
      ((Checked.outcomes? (.upTo 8) (Checked.state (Registers.clamped 1)) ops).map
        (·.map (·.result))) =
        some [.ok (.index (some 0)), .ok .unit, .ok .unit, .error (.overLimit 4 3),
          .ok (.index (some 2))] := by
  intro ops
  have hfull : (Registers.clamped 1).Reachable (.upTo 8) :=
    ⟨_, 1, Registers.reachable_clamped, rfl⟩
  obtain ⟨-, hwords, hrun⟩ := hfull.checks_pass ops
  refine ⟨hfull, hwords, ?_⟩
  rw [hrun]
  rfl

end Buffer

end SlotBuffer
