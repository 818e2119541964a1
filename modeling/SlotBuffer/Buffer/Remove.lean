import SlotBuffer.Buffer.Lemmas

/-! Removal of one occurrence of a value. The items that are left close the gap, and the last slot,
which becomes spare, keeps the last item. -/

namespace SlotBuffer.Buffer

/-- Removes the last occurrence of `v`, and puts the last item in its place. -/
def swapErase (b : Buffer) (v : UInt64) : Buffer :=
  match b.lastIndex? v with
  | none => b
  | some i => (b.write i b.items.getLast?.toList).retreat

/-- Removes the first occurrence of `v`, and moves the items behind it one place down. -/
def erase (b : Buffer) (v : UInt64) : Option Nat × Buffer :=
  match b.firstIndex? v with
  | none => (none, b)
  | some i => (some i, (b.write i (b.items.drop (i + 1))).retreat)

@[simp] theorem policy_swapErase (b : Buffer) (v : UInt64) :
    (b.swapErase v).policy = b.policy := by
  unfold swapErase
  split <;> rfl

@[simp] theorem policy_erase (b : Buffer) (v : UInt64) : (b.erase v).2.policy = b.policy := by
  unfold erase
  split <;> rfl

@[simp] theorem erase_index (b : Buffer) (v : UInt64) : (b.erase v).1 = b.firstIndex? v := by
  unfold erase
  split <;> simp [*]

@[simp] theorem capacity_swapErase (b : Buffer) (v : UInt64) :
    (b.swapErase v).capacity = b.capacity := by
  unfold swapErase
  split <;> simp

@[simp] theorem capacity_erase (b : Buffer) (v : UInt64) :
    (b.erase v).2.capacity = b.capacity := by
  unfold erase
  split <;> simp

theorem len_swapErase_le (b : Buffer) (v : UInt64) : (b.swapErase v).len ≤ b.len := by
  unfold swapErase
  split
  next => exact Nat.le_refl _
  next => exact Nat.sub_le b.len 1

theorem len_erase_le (b : Buffer) (v : UInt64) : (b.erase v).2.len ≤ b.len := by
  unfold erase
  split
  next => exact Nat.le_refl _
  next => exact Nat.sub_le b.len 1

theorem swapErase_of_not_mem {b : Buffer} {v : UInt64} (hv : v ∉ b.items) :
    b.swapErase v = b := by
  simp [swapErase, show b.lastIndex? v = none from lastIdxOf?_eq_none_iff.2 hv]

theorem erase_of_not_mem {b : Buffer} {v : UInt64} (hv : v ∉ b.items) :
    b.erase v = (none, b) := by
  simp [erase, firstIndex?_eq_none_iff.2 hv]

/-! ### Items and spare slots -/

/-- Closing the gap at `i` removes that item, and the last slot keeps the last item. -/
theorem views_closeGap (b : Buffer) {i : Nat} (h : i < b.len) :
    (b.write i (b.items.drop (i + 1))).retreat.items = b.items.eraseIdx i ∧
      (b.write i (b.items.drop (i + 1))).retreat.spare =
        b.items.drop (b.len - 1) ++ b.spare := by
  have hend : i + (b.items.drop (i + 1)).length = b.len - 1 := by simp; omega
  have hle : i + (b.items.drop (i + 1)).length ≤ b.len := by omega
  have hlen : (b.items.take i ++ b.items.drop (i + 1)).length = b.len - 1 := by simp; omega
  have hitems := b.items_write hle
  rw [hend] at hitems
  refine ⟨?_, ?_⟩
  · rw [items_retreat, List.dropLast_eq_take, length_items, hitems,
      show (b.write i (b.items.drop (i + 1))).len - 1 = b.len - 1 from rfl, ← hlen,
      List.take_left, List.eraseIdx_eq_take_drop_succ]
  · rw [spare_retreat, spare_write b hle, hitems,
      show (b.write i (b.items.drop (i + 1))).len - 1 = b.len - 1 from rfl]
    congr 1
    rw [List.drop_append, hlen, Nat.sub_self, List.drop_zero,
      List.drop_of_length_le (by omega), List.nil_append]

theorem items_erase (b : Buffer) (v : UInt64) : (b.erase v).2.items = b.items.erase v := by
  cases h : b.firstIndex? v with
  | none => simp [erase, h, List.erase_of_not_mem (firstIndex?_eq_none_iff.1 h)]
  | some i => simpa [erase, h, erase_items h] using (b.views_closeGap (firstIndex?_lt h)).1

theorem spare_erase (b : Buffer) (v : UInt64) :
    (b.erase v).2.spare =
      if v ∈ b.items then b.items.drop (b.len - 1) ++ b.spare else b.spare := by
  cases h : b.firstIndex? v with
  | none => simp [erase, h, firstIndex?_eq_none_iff.1 h]
  | some i =>
    simpa [erase, h, mem_of_firstIndex? h] using (b.views_closeGap (firstIndex?_lt h)).2

theorem views_swapErase {b : Buffer} {v x : UInt64} {xs : List UInt64} {i : Nat}
    (h : b.lastIndex? v = some i) (hx : b.items = xs ++ [x]) :
    (b.swapErase v).items = (b.items.set i x).dropLast ∧
      (b.swapErase v).spare = x :: b.spare := by
  have hi := lastIndex?_lt h
  have hlen : b.len = xs.length + 1 := by rw [← length_items, hx]; simp
  have hlast : b.items.getLast?.toList = [x] := by rw [hx]; simp
  have hle : i + [x].length ≤ b.len := hi
  have hset : (b.write i [x]).items = b.items.set i x := by
    rw [items_write b hle, List.set_eq_take_append_cons_drop, if_pos (by simpa using hi)]
    simp
  have hend : (b.items.set i x).drop (b.len - 1) = [x] := by
    rw [hx, hlen, Nat.add_sub_cancel, List.set_append]
    split
    next => simp
    next hn => simp [show i = xs.length by omega]
  simp only [swapErase, h, hlast, items_retreat, spare_retreat, hset, spare_write b hle]
  rw [show (b.write i [x]).len = b.len from rfl, hend]
  simp

theorem items_swapErase (b : Buffer) (v : UInt64) :
    (b.swapErase v).items =
      match lastIdxOf? v b.items, b.items.getLast? with
      | some i, some x => (b.items.set i x).dropLast
      | _, _ => b.items := by
  cases h : b.lastIndex? v with
  | none => simp [swapErase, h, show lastIdxOf? v b.items = none from h]
  | some i =>
    have hi := lastIndex?_lt h
    rcases List.eq_nil_or_concat b.items with hx | ⟨xs, x, hx⟩
    · rw [← length_items, hx] at hi
      exact absurd hi (Nat.not_lt_zero _)
    · rw [List.concat_eq_append] at hx
      rw [(views_swapErase h hx).1, show lastIdxOf? v b.items = some i from h,
        show b.items.getLast? = some x by rw [hx, List.getLast?_concat]]

end SlotBuffer.Buffer
