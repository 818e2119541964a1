import SlotBuffer.Buffer.Lemmas

/-! Moves of one occurrence of a value to either end. The items that it passes move by one place. -/

namespace SlotBuffer.Buffer

/-- Moves the first occurrence of `v` to the end. The last item is no candidate: an item that is
already last stays where it is. -/
def moveToBack (b : Buffer) (v : UInt64) : Buffer :=
  match b.items.dropLast.idxOf? v with
  | none => b
  | some i => b.write i (b.items.drop (i + 1) ++ [v])

/-- Moves the first occurrence of `v` to the start. -/
def moveToFront (b : Buffer) (v : UInt64) : Buffer :=
  match b.firstIndex? v with
  | none => b
  | some i => b.write 0 (v :: b.items.take i)

@[simp] theorem policy_moveToBack (b : Buffer) (v : UInt64) :
    (b.moveToBack v).policy = b.policy := by
  unfold moveToBack
  split <;> rfl

@[simp] theorem policy_moveToFront (b : Buffer) (v : UInt64) :
    (b.moveToFront v).policy = b.policy := by
  unfold moveToFront
  split <;> rfl

@[simp] theorem len_moveToBack (b : Buffer) (v : UInt64) : (b.moveToBack v).len = b.len := by
  unfold moveToBack
  split <;> rfl

@[simp] theorem len_moveToFront (b : Buffer) (v : UInt64) : (b.moveToFront v).len = b.len := by
  unfold moveToFront
  split <;> rfl

@[simp] theorem capacity_moveToBack (b : Buffer) (v : UInt64) :
    (b.moveToBack v).capacity = b.capacity := by
  unfold moveToBack
  split <;> simp

@[simp] theorem capacity_moveToFront (b : Buffer) (v : UInt64) :
    (b.moveToFront v).capacity = b.capacity := by
  unfold moveToFront
  split <;> simp

theorem moveToBack_of_not_mem {b : Buffer} {v : UInt64} (hv : v ∉ b.items) :
    b.moveToBack v = b := by
  have hn : b.items.dropLast.idxOf? v = none :=
    List.idxOf?_eq_none_iff.2 fun h => hv (List.dropLast_subset _ h)
  simp [moveToBack, hn]

theorem moveToFront_of_not_mem {b : Buffer} {v : UInt64} (hv : v ∉ b.items) :
    b.moveToFront v = b := by
  simp [moveToFront, firstIndex?_eq_none_iff.2 hv]

/-! ### Items and spare slots -/

theorem firstIndex?_of_dropLast {b : Buffer} {v : UInt64} {i : Nat}
    (h : b.items.dropLast.idxOf? v = some i) : b.firstIndex? v = some i := by
  unfold firstIndex?
  rw [← List.take_append_drop (b.items.length - 1) b.items, ← List.dropLast_eq_take]
  unfold List.idxOf? at h ⊢
  rw [List.findIdx?_append, h, Option.some_or]

/-- The items behind `i` move down by one slot, and `v` takes the last one. -/
theorem views_shiftToBack {b : Buffer} {v : UInt64} {i : Nat} (h : b.firstIndex? v = some i) :
    (b.write i (b.items.drop (i + 1) ++ [v])).items = b.items.erase v ++ [v] ∧
      (b.write i (b.items.drop (i + 1) ++ [v])).spare = b.spare := by
  have hi := firstIndex?_lt h
  have hend : i + (b.items.drop (i + 1) ++ [v]).length = b.len := by simp; omega
  have hd : b.items.drop b.len = [] := by simp
  refine ⟨?_, spare_write b (by omega)⟩
  rw [items_write b (by omega), hend, hd, erase_items h, List.eraseIdx_eq_take_drop_succ]
  simp

theorem views_moveToBack {b : Buffer} {v : UInt64} {i : Nat}
    (h : b.items.dropLast.idxOf? v = some i) :
    (b.moveToBack v).items = b.items.erase v ++ [v] ∧ (b.moveToBack v).spare = b.spare := by
  simp only [moveToBack, h]
  exact views_shiftToBack (firstIndex?_of_dropLast h)

theorem items_moveToBack (b : Buffer) (v : UInt64) :
    (b.moveToBack v).items =
      if v ∈ b.items.dropLast then b.items.erase v ++ [v] else b.items := by
  cases h : b.items.dropLast.idxOf? v with
  | none => simp [moveToBack, h, List.idxOf?_eq_none_iff.1 h]
  | some i =>
    rw [if_pos (List.isSome_idxOf?.1 (by simp [h]))]
    exact (views_moveToBack h).1

/-- An item that is last already might as well be taken out and put back. -/
theorem items_moveToBack_eq_erase (b : Buffer) (v : UInt64) :
    (b.moveToBack v).items = if v ∈ b.items then b.items.erase v ++ [v] else b.items := by
  rw [items_moveToBack]
  by_cases hlast : v ∈ b.items.dropLast
  · rw [if_pos hlast, if_pos (List.dropLast_subset _ hlast)]
  · rw [if_neg hlast]
    split
    next hv =>
      rcases List.eq_nil_or_concat b.items with hx | ⟨xs, x, hx⟩
      · rw [hx] at hv
        cases hv
      · rw [List.concat_eq_append] at hx
        rw [hx, List.dropLast_concat] at hlast
        obtain rfl : v = x := by simpa [hx, hlast] using hv
        rw [hx, List.erase_append_right _ hlast, List.erase_cons_head, List.append_nil]
    next => rfl

@[simp] theorem spare_moveToBack (b : Buffer) (v : UInt64) :
    (b.moveToBack v).spare = b.spare := by
  cases h : b.items.dropLast.idxOf? v with
  | none => simp [moveToBack, h]
  | some i => exact (views_moveToBack h).2

theorem views_moveToFront {b : Buffer} {v : UInt64} {i : Nat} (h : b.firstIndex? v = some i) :
    (b.moveToFront v).items = v :: b.items.erase v ∧ (b.moveToFront v).spare = b.spare := by
  have hi := firstIndex?_lt h
  have hend : 0 + (v :: b.items.take i).length = i + 1 := by simp; omega
  simp only [moveToFront, h]
  refine ⟨?_, spare_write b (by omega)⟩
  rw [items_write b (by omega), hend, erase_items h, List.eraseIdx_eq_take_drop_succ]
  simp

theorem items_moveToFront (b : Buffer) (v : UInt64) :
    (b.moveToFront v).items = if v ∈ b.items then v :: b.items.erase v else b.items := by
  cases h : b.firstIndex? v with
  | none => simp [moveToFront, h, firstIndex?_eq_none_iff.1 h]
  | some i => simpa [mem_of_firstIndex? h] using (views_moveToFront h).1

@[simp] theorem spare_moveToFront (b : Buffer) (v : UInt64) :
    (b.moveToFront v).spare = b.spare := by
  cases h : b.firstIndex? v with
  | none => simp [moveToFront, h]
  | some i => exact (views_moveToFront h).2

end SlotBuffer.Buffer
