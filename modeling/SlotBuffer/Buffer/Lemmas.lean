import SlotBuffer.Buffer.Basic

/-! What the operations on whole buffers, on slots and on the boundary do to the items and to the
spare slots. -/

namespace SlotBuffer.Buffer

@[simp] theorem length_items (b : Buffer) : b.items.length = b.len := by
  simp [items, Nat.min_eq_left b.len_le]

@[simp] theorem length_spare (b : Buffer) : b.spare.length = b.capacity - b.len := by
  simp [spare, capacity]

theorem items_append_spare (b : Buffer) : b.items ++ b.spare = b.slots.toList :=
  List.take_append_drop ..

theorem views_eq {b : Buffer} {xs ys : List UInt64} (h : b.slots.toList = xs ++ ys)
    (hlen : b.len = xs.length) : b.items = xs ∧ b.spare = ys := by
  simp [items, spare, h, hlen]

/-- Items, spare slots and policy are all there is to a buffer. -/
theorem ext_views {a b : Buffer} (hi : a.items = b.items) (hs : a.spare = b.spare)
    (hp : a.policy = b.policy) : a = b := by
  have hslots : a.slots = b.slots := by
    rw [← Array.toList_inj, ← items_append_spare, ← items_append_spare, hi, hs]
  have hlen : a.len = b.len := by rw [← length_items, ← length_items, hi]
  cases a; cases b; simp_all

/-! ### Queries -/

theorem firstIndex?_eq_none_iff {b : Buffer} {v : UInt64} :
    b.firstIndex? v = none ↔ v ∉ b.items := List.idxOf?_eq_none_iff

theorem mem_of_firstIndex? {b : Buffer} {v : UInt64} {i : Nat} (h : b.firstIndex? v = some i) :
    v ∈ b.items := List.isSome_idxOf?.1 (by rw [show b.items.idxOf? v = some i from h]; rfl)

theorem mem_of_lastIndex? {b : Buffer} {v : UInt64} {i : Nat} (h : b.lastIndex? v = some i) :
    v ∈ b.items := isSome_lastIdxOf?.1 (by rw [show lastIdxOf? v b.items = some i from h]; rfl)

theorem firstIndex?_lt {b : Buffer} {v : UInt64} {i : Nat} (h : b.firstIndex? v = some i) :
    i < b.len := by
  obtain ⟨hi, _⟩ := List.idxOf?_eq_some_iff.1 h
  simpa using hi

theorem lastIndex?_lt {b : Buffer} {v : UInt64} {i : Nat} (h : b.lastIndex? v = some i) :
    i < b.len := by
  obtain ⟨ys, zs, hb, rfl, _⟩ := lastIdxOf?_eq_some_iff.1 h
  rw [← length_items, hb]
  simp

theorem contains_iff {b : Buffer} {v : UInt64} : b.contains v ↔ v ∈ b.items := isSome_lastIdxOf?

theorem erase_items {b : Buffer} {v : UInt64} {i : Nat} (h : b.firstIndex? v = some i) :
    b.items.erase v = b.items.eraseIdx i := by
  rw [List.erase_eq_eraseIdx, show b.items.idxOf? v = some i from h]

/-! ### Whole buffers -/

@[simp] theorem items_empty (policy : Policy) : (empty policy).items = [] := rfl

@[simp] theorem spare_empty (policy : Policy) : (empty policy).spare = [] := rfl

@[simp] theorem items_ofList (vs : List UInt64) : (ofList vs).items = vs := by simp [items, ofList]

@[simp] theorem spare_ofList (vs : List UInt64) : (ofList vs).spare = [] := by simp [spare, ofList]

@[simp] theorem items_clear (b : Buffer) : b.clear.items = [] := by simp [items, clear]

@[simp] theorem spare_clear (b : Buffer) : b.clear.spare = b.items ++ b.spare := by
  rw [items_append_spare]; simp [spare, clear]

/-! ### Writing and the boundary -/

@[simp] theorem capacity_write (b : Buffer) (start : Nat) (vs : List UInt64) :
    (b.write start vs).capacity = b.capacity := by simp [write, capacity]

theorem views_write (b : Buffer) {start : Nat} {vs : List UInt64} (h : start + vs.length ≤ b.len) :
    (b.write start vs).items =
        b.items.take start ++ vs ++ b.items.drop (start + vs.length) ∧
      (b.write start vs).spare = b.spare := by
  have hle := b.len_le
  have hv : vs.take (b.slots.size - start) = vs := List.take_of_length_le (by omega)
  refine views_eq ?_ ?_
  · simp only [write]
    rw [toList_overwrite _ _ _ (by omega), hv, ← items_append_spare,
      List.take_append_of_le_length (by rw [length_items]; omega),
      List.drop_append_of_le_length (by rw [length_items]; omega)]
    simp only [List.append_assoc]
  · simp only [write, List.length_append, List.length_take, List.length_drop, length_items]
    omega

theorem items_write (b : Buffer) {start : Nat} {vs : List UInt64} (h : start + vs.length ≤ b.len) :
    (b.write start vs).items =
      b.items.take start ++ vs ++ b.items.drop (start + vs.length) := (b.views_write h).1

theorem spare_write (b : Buffer) {start : Nat} {vs : List UInt64} (h : start + vs.length ≤ b.len) :
    (b.write start vs).spare = b.spare := (b.views_write h).2

@[simp] theorem capacity_fill (b : Buffer) (vs : List UInt64) :
    (b.fill vs).capacity = b.capacity := capacity_write ..

@[simp] theorem items_fill (b : Buffer) (vs : List UInt64) : (b.fill vs).items = b.items := by
  have := b.len_le
  simp [items, fill, write, toList_overwrite, this]

@[simp] theorem spare_fill (b : Buffer) (vs : List UInt64) :
    (b.fill vs).spare = vs.take b.spare.length ++ b.spare.drop vs.length := by
  have := b.len_le
  simp [spare, fill, write, toList_overwrite, this]

@[simp] theorem capacity_advance (b : Buffer) (count : Nat) :
    (b.advance count).capacity = b.capacity := rfl

@[simp] theorem items_advance (b : Buffer) (count : Nat) :
    (b.advance count).items = b.items ++ b.spare.take count := by
  have h : b.slots.toList.take (min (b.len + count) b.slots.toList.length) =
      b.slots.toList.take (b.len + count) := List.take_eq_take_min.symm
  simpa [items, spare, advance, capacity, List.take_add] using h

@[simp] theorem spare_advance (b : Buffer) (count : Nat) :
    (b.advance count).spare = b.spare.drop count := by
  simp [spare, advance, capacity]

@[simp] theorem capacity_retreat (b : Buffer) : b.retreat.capacity = b.capacity := rfl

theorem views_retreat (b : Buffer) :
    b.retreat.items = b.items.dropLast ∧
      b.retreat.spare = b.items.drop (b.len - 1) ++ b.spare := by
  refine views_eq ?_ (by simp [retreat])
  rw [← List.append_assoc, List.dropLast_eq_take, length_items, List.take_append_drop]
  exact b.items_append_spare.symm

@[simp] theorem items_retreat (b : Buffer) : b.retreat.items = b.items.dropLast :=
  b.views_retreat.1

@[simp] theorem spare_retreat (b : Buffer) :
    b.retreat.spare = b.items.drop (b.len - 1) ++ b.spare := b.views_retreat.2

end SlotBuffer.Buffer
