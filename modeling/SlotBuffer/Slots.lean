/-! Slots are kept in an array. Values are laid over the slots from a position on, and where the
array ends the rest of the values is dropped. -/

namespace SlotBuffer

/-- The slots with the values in place of those from `start` on. -/
def overwrite (slots : Array UInt64) (start : Nat) : List UInt64 → Array UInt64
  | [] => slots
  | v :: vs => overwrite (slots.setIfInBounds start v) (start + 1) vs

@[simp] theorem overwrite_nil (slots : Array UInt64) (start : Nat) :
    overwrite slots start [] = slots := rfl

@[simp] theorem overwrite_cons (slots : Array UInt64) (start : Nat) (v : UInt64)
    (vs : List UInt64) :
    overwrite slots start (v :: vs) = overwrite (slots.setIfInBounds start v) (start + 1) vs := rfl

@[simp] theorem size_overwrite (slots : Array UInt64) (start : Nat) (vs : List UInt64) :
    (overwrite slots start vs).size = slots.size := by
  induction vs generalizing slots start with
  | nil => rfl
  | cons v vs ih => simp [ih]

theorem overwrite_append (slots : Array UInt64) (start : Nat) (vs ws : List UInt64) :
    overwrite slots start (vs ++ ws) =
      overwrite (overwrite slots start vs) (start + vs.length) ws := by
  induction vs generalizing slots start with
  | nil => rfl
  | cons v vs ih => rw [List.cons_append, overwrite_cons, ih, overwrite_cons, List.length_cons,
      Nat.add_assoc, Nat.add_comm 1]

/-- A slot before those that are overwritten may be set first or last. -/
theorem overwrite_setIfInBounds (slots : Array UInt64) {i start : Nat} (v : UInt64)
    (vs : List UInt64) (h : i < start) :
    overwrite (slots.setIfInBounds i v) start vs =
      (overwrite slots start vs).setIfInBounds i v := by
  induction vs generalizing slots start with
  | nil => rfl
  | cons w vs ih =>
    rw [overwrite_cons, Array.setIfInBounds_comm _ _ (by omega), ih _ (by omega), overwrite_cons]

theorem overwrite_of_size_le (slots : Array UInt64) (start : Nat) (vs : List UInt64)
    (h : slots.size ≤ start) : overwrite slots start vs = slots := by
  induction vs generalizing start with
  | nil => rfl
  | cons v vs ih =>
    rw [overwrite_cons, Array.setIfInBounds_eq_of_size_le h, ih _ (by omega)]

/-- No slot behind the values is touched. -/
theorem getElem?_overwrite_of_le (slots : Array UInt64) {start i : Nat} (vs : List UInt64)
    (h : start + vs.length ≤ i) : (overwrite slots start vs)[i]? = slots[i]? := by
  induction vs generalizing slots start with
  | nil => rfl
  | cons v vs ih =>
    rw [List.length_cons] at h
    rw [overwrite_cons, ih _ (by omega), Array.getElem?_setIfInBounds_ne (by omega)]

theorem mem_of_mem_overwrite {slots : Array UInt64} {start : Nat} {vs : List UInt64} {x : UInt64}
    (h : x ∈ overwrite slots start vs) : x ∈ slots ∨ x ∈ vs := by
  induction vs generalizing slots start with
  | nil => exact .inl h
  | cons v vs ih =>
    rcases ih h with hset | hvs
    · rcases Array.mem_or_eq_of_mem_setIfInBounds hset with hold | rfl
      · exact .inl hold
      · exact .inr List.mem_cons_self
    · exact .inr (List.mem_cons_of_mem _ hvs)

/-- The values replace the slots from `start` on, and the other slots keep what they hold. -/
theorem toList_overwrite (slots : Array UInt64) (start : Nat) (vs : List UInt64)
    (h : start ≤ slots.size) :
    (overwrite slots start vs).toList =
      slots.toList.take start ++ vs.take (slots.size - start) ++
        slots.toList.drop (start + vs.length) := by
  induction vs generalizing slots start with
  | nil => simp
  | cons v vs ih =>
    rcases Nat.lt_or_ge start slots.size with hlt | hge
    · have hs : slots.size - start = slots.size - (start + 1) + 1 := by omega
      have ht : (slots.setIfInBounds start v).toList.take (start + 1) =
          slots.toList.take start ++ [v] := by
        rw [Array.toList_setIfInBounds, List.take_add_one, List.take_set_of_le (Nat.le_refl _),
          List.getElem?_set_self (by simpa using hlt), Option.toList_some]
      have hd : (slots.setIfInBounds start v).toList.drop (start + 1 + vs.length) =
          slots.toList.drop (start + (v :: vs).length) := by
        rw [Array.toList_setIfInBounds, List.drop_set_of_lt (by omega), List.length_cons]
        congr 1; omega
      rw [overwrite_cons, ih _ _ (by simpa using Nat.succ_le_of_lt hlt), ht, hd,
        Array.size_setIfInBounds, hs, List.take_succ_cons]
      simp
    · have he : start = slots.size := by omega
      subst he
      have hd : slots.toList.drop (slots.size + (v :: vs).length) = [] := by
        rw [List.drop_eq_nil_iff, Array.length_toList]; omega
      rw [overwrite_of_size_le _ _ _ (Nat.le_refl _), hd]
      simp [← Array.length_toList]

end SlotBuffer
