import SlotBuffer.Proofs.Invariant
import SlotBuffer.Proofs.Reservation

/-! A move to the back is a removal and an addition. The value is added to the slot that taking it
out has freed, so that no room is made for it, however full the buffer is and whatever its limit. A
move does not look at the last item, and need not: were that the first occurrence, it would be taken
out and put back where it was. -/

namespace SlotBuffer.Buffer

/-- Takes the first occurrence of `v` out and, where there was one, adds `v` again. -/
def reinsert (memory : Memory) (b : Buffer) (v : UInt64) : Outcome Buffer Unit :=
  match b.erase v with
  | (none, c) => .done c ()
  | (some _, c) => c.push memory v

/-- Moves the first occurrence of `v` to the end. The last item is a candidate like any other. -/
def moveAnyToBack (b : Buffer) (v : UInt64) : Buffer :=
  match b.firstIndex? v with
  | none => b
  | some i => b.write i (b.items.drop (i + 1) ++ [v])

variable {b : Buffer} {v : UInt64} {i : Nat}

/-! ### The slot that is freed -/

theorem len_erase (hv : v ∈ b.items) : (b.erase v).2.len + 1 = b.len := by
  have hpos : 0 < b.items.length := List.length_pos_of_mem hv
  rw [← length_items, items_erase, List.length_erase_of_mem hv, Nat.sub_add_cancel hpos,
    length_items]

/-- What was one item is room for one. -/
theorem reserved_erase (hlen : b.len ≤ maxLength) (hv : v ∈ b.items) :
    (b.erase v).2.Reserved 1 where
  le_maxLength := by rwa [len_erase hv]
  le_capacity := by
    rw [len_erase hv, capacity_erase]
    exact b.len_le_capacity

/-- The freed slot comes first among the spare ones. -/
theorem drop_spare_erase (hv : v ∈ b.items) : (b.erase v).2.spare.drop 1 = b.spare := by
  have hlast : (b.items.drop (b.len - 1)).length = 1 := by
    have := len_erase hv
    rw [List.length_drop, length_items]
    omega
  rw [spare_erase, if_pos hv, List.drop_append_of_le_length (Nat.le_of_eq hlast.symm),
    List.drop_of_length_le (Nat.le_of_eq hlast), List.nil_append]

/-! ### The two ways to the back -/

/-- Adding the value again needs no memory, and leaves what the move leaves. -/
theorem push_erase (hlen : b.len ≤ maxLength) (hv : v ∈ b.items) (memory : Memory) :
    (b.erase v).2.push memory v = .done (b.moveToBack v) () := by
  have hroom := reserved_erase hlen hv
  have hfits : (b.erase v).2.len + [v].length ≤ (b.erase v).2.capacity := hroom.le_capacity
  obtain ⟨hitems, hspare⟩ := (b.erase v).2.views_fill_advance hfits
  have hstate : ((b.erase v).2.fill [v]).advance [v].length = b.moveToBack v := by
    apply ext_views
    · rw [hitems, items_erase, items_moveToBack_eq_erase, if_pos hv]
    · rw [hspare, spare_moveToBack]
      exact drop_spare_erase hv
    · rw [policy_moveToBack]
      exact policy_erase b v
  rw [push, hroom.append_eq memory (Nat.le_refl _), hstate]

theorem reinsert_eq (hlen : b.len ≤ maxLength) (memory : Memory) (v : UInt64) :
    b.reinsert memory v = .done (b.moveToBack v) () := by
  cases hf : b.firstIndex? v with
  | none =>
    rw [moveToBack_of_not_mem (firstIndex?_eq_none_iff.1 hf)]
    simp [reinsert, erase, hf]
  | some i =>
    have hpush := push_erase hlen (mem_of_firstIndex? hf) memory
    simp only [erase, hf] at hpush
    simp only [reinsert, erase, hf, hpush]

theorem moveAnyToBack_eq (b : Buffer) (v : UInt64) : b.moveAnyToBack v = b.moveToBack v := by
  cases hf : b.firstIndex? v with
  | none =>
    rw [moveToBack_of_not_mem (firstIndex?_eq_none_iff.1 hf)]
    simp [moveAnyToBack, hf]
  | some i =>
    obtain ⟨hitems, hspare⟩ := views_shiftToBack hf
    simp only [moveAnyToBack, hf]
    apply ext_views
    · rw [hitems, items_moveToBack_eq_erase, if_pos (mem_of_firstIndex? hf)]
    · rw [hspare, spare_moveToBack]
    · rw [policy_moveToBack]
      rfl

/-- A move to the back leaves the buffer, slot by slot, as taking the value out and adding it again
would. The addition finds its slot in whatever memory, keeps the capacity and logs nothing. To look
at the last item as well would change nothing. -/
theorem Reachable.reinsertion {memory : Memory} (h : b.Reachable memory) (memory' : Memory)
    (v : UInt64) :
    b.reinsert memory' v = .done (b.moveToBack v) () ∧
    (∀ i c, b.erase v = (some i, c) →
      c.push memory' v = .done (b.moveToBack v) () ∧ (b.moveToBack v).capacity = c.capacity) ∧
    b.moveAnyToBack v = b.moveToBack v := by
  have hlen := h.bounded.len_le_maxLength
  refine ⟨reinsert_eq hlen memory' v, ?_, moveAnyToBack_eq b v⟩
  intro i c herase
  have hfirst : b.firstIndex? v = some i := by rw [← erase_index, herase]
  have hstate : c = (b.erase v).2 := by rw [herase]
  rw [hstate, capacity_moveToBack, capacity_erase]
  exact ⟨push_erase hlen (mem_of_firstIndex? hfirst) memory', rfl⟩

end Buffer

/-- Five items in five slots, which is all that the limit allows. -/
def Registers.brimful : Registers :=
  Run.final (Command.step (.upTo 5)) .initial
    [.configure 0 .copying (some 5), .on 0 (.append [7, 5, 7]), .on 0 (.append [9, 4])]

theorem Registers.reachable_brimful : Registers.Reachable (.upTo 5) .brimful :=
  ⟨_, by decide, rfl⟩

/-- No memory is left. Of the values that move, `7` is an item twice and `4` is the last one. -/
theorem Buffer.reinsertion_brimful :
    let b := Registers.brimful 0
    b.Reachable (.upTo 5) ∧ b.items = [7, 5, 7, 9, 4] ∧ b.capacity = 5 ∧
      b.policy.limit.map (·.slots) = some 5 ∧
      b.reinsert (.upTo 0) 7 = .done (b.moveToBack 7) () ∧
      (b.moveToBack 7).items = [5, 7, 9, 4, 7] ∧
      (b.erase 4).2.push (.upTo 0) 4 = .done b () ∧ b.moveAnyToBack 4 = b := by
  intro b
  have hb : b.Reachable (.upTo 5) := ⟨_, 0, Registers.reachable_brimful, rfl⟩
  have hlast : b.moveToBack 4 = b := rfl
  obtain ⟨hreinsert, -, -⟩ := hb.reinsertion (.upTo 0) 7
  obtain ⟨-, hpush, hany⟩ := hb.reinsertion (.upTo 0) 4
  rw [hlast] at hpush hany
  exact ⟨hb, rfl, rfl, rfl, hreinsert, rfl, (hpush 4 _ rfl).1, hany⟩

end SlotBuffer
