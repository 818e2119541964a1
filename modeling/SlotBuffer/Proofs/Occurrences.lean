import Mathlib.Tactic.TFAE
import SlotBuffer.Buffer.Insert
import SlotBuffer.Buffer.Remove
import SlotBuffer.Buffer.Reorder

/-! How the operations take the occurrences of a value. Some look for the first one, some for the
last, and a move to the back passes the last item over. They all agree on whether there is one, and
on which it is as far as they can: the first occurrence comes before the last, and is the last just
when there is no other. Copies behind the items are found by none of them. -/

namespace SlotBuffer

/-! ### Positions -/

section

variable {v : UInt64} {xs : List UInt64}

/-- The first and the last occurrence of a value are one, or stand apart. -/
theorem exists_first_last (h : v ∈ xs) :
    (∃ ys zs, xs = ys ++ v :: zs ∧ v ∉ ys ∧ v ∉ zs) ∨
      ∃ ys ms zs, xs = ys ++ v :: (ms ++ v :: zs) ∧ v ∉ ys ∧ v ∉ zs := by
  obtain ⟨ys, rest, rfl, hys⟩ := List.eq_append_cons_of_mem h
  cases hlast : lastIdxOf? v rest with
  | none => exact .inl ⟨ys, rest, rfl, hys, lastIdxOf?_eq_none_iff.1 hlast⟩
  | some i =>
    obtain ⟨ms, zs, rfl, -, hzs⟩ := lastIdxOf?_eq_some_iff.1 hlast
    exact .inr ⟨ys, ms, zs, rfl, hys, hzs⟩

theorem first_le_last {i j : Nat} (hi : xs.idxOf? v = some i) (hj : lastIdxOf? v xs = some j) :
    i ≤ j ∧ (i = j ↔ xs.count v = 1) := by
  have hv : v ∈ xs := List.isSome_idxOf?.1 (by rw [hi]; rfl)
  rcases exists_first_last hv with ⟨ys, zs, rfl, hys, hzs⟩ | ⟨ys, ms, zs, rfl, hys, hzs⟩
  · have hone : (ys ++ v :: zs).count v = 1 := by simp [List.count_eq_zero.2, hys, hzs]
    rw [idxOf?_append_cons hys] at hi
    rw [lastIdxOf?_eq_some_iff.2 ⟨ys, zs, rfl, rfl, hzs⟩] at hj
    cases hi.symm.trans hj
    exact ⟨Nat.le_refl _, iff_of_true rfl hone⟩
  · have htwo : (ys ++ v :: (ms ++ v :: zs)).count v ≠ 1 := by
      simp only [List.count_append, List.count_cons_self]
      omega
    have hlast : lastIdxOf? v (ys ++ v :: (ms ++ v :: zs)) = some (ys ++ v :: ms).length :=
      lastIdxOf?_eq_some_iff.2 ⟨ys ++ v :: ms, zs, by simp, rfl, hzs⟩
    rw [idxOf?_append_cons hys] at hi
    rw [hlast] at hj
    cases hi
    cases hj
    simp only [List.length_append, List.length_cons]
    exact ⟨by omega, iff_of_false (by omega) htwo⟩

/-- Seen from the end, the last occurrence is the first. -/
theorem idxOf?_reverse_of_last {j : Nat} (hj : lastIdxOf? v xs = some j) :
    ∃ k, xs.reverse.idxOf? v = some k ∧ j + 1 + k = xs.length := by
  obtain ⟨ys, zs, rfl, rfl, hzs⟩ := lastIdxOf?_eq_some_iff.1 hj
  have hrev : (ys ++ v :: zs).reverse = zs.reverse ++ v :: ys.reverse := by simp
  have hzs' : v ∉ zs.reverse := by simpa using hzs
  refine ⟨zs.reverse.length, ?_, by simp; omega⟩
  rw [hrev, idxOf?_append_cons hzs']

theorem concat_eq_cons_iff : xs ++ [v] = v :: xs ↔ ∀ x ∈ xs, x = v := by
  induction xs with
  | nil => simp
  | cons x xs ih =>
    rw [List.cons_append, List.cons.injEq, List.forall_mem_cons]
    refine and_congr_right ?_
    rintro rfl
    exact ih

end

namespace Buffer

variable {b : Buffer} {v : UInt64}

/-! ### Whether there is an occurrence -/

theorem isSome_erase_iff : (b.erase v).1.isSome ↔ v ∈ b.items := by
  rw [erase_index]
  exact List.isSome_idxOf?

theorem len_swapErase_iff : (b.swapErase v).len + 1 = b.len ↔ v ∈ b.items := by
  cases h : b.lastIndex? v with
  | none =>
    have hv : v ∉ b.items := lastIdxOf?_eq_none_iff.1 h
    rw [swapErase_of_not_mem hv]
    simp [hv]
  | some i =>
    have hi := lastIndex?_lt h
    have hlen : (b.swapErase v).len = b.len - 1 := by simp [swapErase, h, retreat, write]
    rw [hlen]
    exact iff_of_true (by omega) (mem_of_lastIndex? h)

/-- A value that is inserted again is found where it was, and a new one comes behind the items. -/
theorem insert_below_iff {memory : Memory} :
    (∃ i < b.len, (b.insert memory v).result = .ok i ∧ (b.insert memory v).state = b) ↔
      v ∈ b.items := by
  constructor
  · rintro ⟨i, hi, hok, -⟩
    apply Decidable.byContradiction
    intro hv
    obtain ⟨rfl, -⟩ := insert_new_of_ok memory hv hok
    exact Nat.lt_irrefl _ hi
  · intro hv
    obtain ⟨i, hi⟩ := Option.isSome_iff_exists.1 (List.isSome_idxOf?.2 hv)
    rw [insert_of_mem memory hi]
    exact ⟨i, firstIndex?_lt hi, rfl, rfl⟩

/-! ### What a move changes -/

variable {i : Nat}

theorem moveToFront_changes_iff (hi : b.firstIndex? v = some i) :
    (b.moveToFront v).items ≠ b.items ↔ 0 < i := by
  obtain ⟨ys, zs, hb, rfl, hys⟩ := idxOf?_eq_some_iff.1 hi
  rw [items_moveToFront, if_pos (mem_of_firstIndex? hi), hb, List.erase_append_right _ hys,
    List.erase_cons_head, List.length_pos_iff]
  refine not_congr ⟨?_, by rintro rfl; rfl⟩
  intro heq
  cases ys with
  | nil => rfl
  | cons y ys =>
    obtain ⟨rfl, -⟩ := List.cons.inj heq
    exact absurd List.mem_cons_self hys

theorem moveToBack_changes_iff (hi : b.firstIndex? v = some i) :
    (b.moveToBack v).items ≠ b.items ↔ ∃ x ∈ b.items.drop (i + 1), x ≠ v := by
  obtain ⟨ys, zs, hb, rfl, hys⟩ := idxOf?_eq_some_iff.1 hi
  have hdrop : b.items.drop (ys.length + 1) = zs := by simp [hb]
  rw [hdrop, items_moveToBack_eq_erase, if_pos (mem_of_firstIndex? hi), hb,
    List.erase_append_right _ hys, List.erase_cons_head, List.append_assoc, Ne,
    List.append_cancel_left_eq, concat_eq_cons_iff]
  simp

/-! ### All operations together -/

/-- Wherever the occurrences of `v` are, and whatever lies in the spare slots. -/
theorem occurrences_agree (memory : Memory) (b : Buffer) (v : UInt64) :
    List.TFAE [1 ≤ b.items.count v, b.contains v, (b.lastIndex? v).isSome, (b.erase v).1.isSome,
      (b.swapErase v).len + 1 = b.len,
      ∃ i < b.len, (b.insert memory v).result = .ok i ∧ (b.insert memory v).state = b] ∧
    (1 ≤ b.items.count v → ∃ i j,
      b.insert memory v = .done b i ∧ (b.erase v).1 = some i ∧ b.lastIndex? v = some j ∧
      i ≤ j ∧ (i = j ↔ b.items.count v = 1) ∧
      (∃ k, b.items.reverse.idxOf? v = some k ∧ k < b.len ∧ j = b.len - 1 - k) ∧
      ((b.moveToFront v).items ≠ b.items ↔ 0 < i) ∧
      ((b.moveToBack v).items ≠ b.items ↔ ∃ x ∈ b.items.drop (i + 1), x ≠ v)) ∧
    (b.items.count v = 0 →
      b.erase v = (none, b) ∧ b.swapErase v = b ∧ b.moveToBack v = b ∧ b.moveToFront v = b) := by
  refine ⟨?_, ?_, ?_⟩
  · have hcount : 1 ≤ b.items.count v ↔ v ∈ b.items := List.count_pos_iff
    tfae_have 1 ↔ 2 := hcount.trans contains_iff.symm
    tfae_have 2 ↔ 3 := Iff.rfl
    tfae_have 4 ↔ 1 := isSome_erase_iff.trans hcount.symm
    tfae_have 5 ↔ 1 := len_swapErase_iff.trans hcount.symm
    tfae_have 6 ↔ 1 := insert_below_iff.trans hcount.symm
    tfae_finish
  · intro hcount
    have hv : v ∈ b.items := List.count_pos_iff.1 hcount
    obtain ⟨i, hi⟩ := Option.isSome_iff_exists.1 (List.isSome_idxOf?.2 hv)
    obtain ⟨j, hj⟩ := Option.isSome_iff_exists.1 (isSome_lastIdxOf?.2 hv)
    obtain ⟨hle, heq⟩ := first_le_last hi hj
    obtain ⟨k, hk, hjk⟩ := idxOf?_reverse_of_last hj
    rw [length_items] at hjk
    exact ⟨i, j, insert_of_mem memory hi, (erase_index b v).trans hi, hj, hle, heq,
      ⟨k, hk, by omega, by omega⟩, moveToFront_changes_iff hi, moveToBack_changes_iff hi⟩
  · intro hcount
    have hv : v ∉ b.items := List.count_eq_zero.1 hcount
    exact ⟨erase_of_not_mem hv, swapErase_of_not_mem hv, moveToBack_of_not_mem hv,
      moveToFront_of_not_mem hv⟩

/-- The last item is no 7, and the first spare slot is one. -/
def leftovers : Buffer where
  slots := #[7, 5, 7, 9, 7, 3]
  len := 4

/-- The two occurrences of 7 stand first and third, and the 3 behind the items is none. -/
theorem occurrences_agree_leftovers :
    1 ≤ leftovers.items.count 7 ∧ leftovers.items.count 3 = 0 ∧ leftovers.contains 7 ∧
      (leftovers.moveToFront 7).items = leftovers.items ∧
      (leftovers.moveToBack 7).items ≠ leftovers.items ∧
      leftovers.swapErase 3 = leftovers ∧
      ∃ j, leftovers.lastIndex? 7 = some j ∧ 0 < j := by
  have hseven : 1 ≤ leftovers.items.count 7 := by decide
  have hthree : leftovers.items.count 3 = 0 := by decide
  have hfirst : leftovers.firstIndex? 7 = some 0 := by decide
  obtain ⟨hagree, hpositions, -⟩ := occurrences_agree (.upTo 8) leftovers 7
  obtain ⟨-, -, hthree'⟩ := occurrences_agree (.upTo 8) leftovers 3
  obtain ⟨i, j, -, herase, hj, hle, hone, -, hfront, hback⟩ := hpositions hseven
  obtain rfl : i = 0 := by
    rw [erase_index, hfirst] at herase
    exact (Option.some.inj herase).symm
  refine ⟨hseven, hthree, (hagree.out 0 1).1 hseven, ?_, ?_, (hthree' hthree).2.1, j, hj, ?_⟩
  · exact Decidable.not_not.1 fun hne => Nat.lt_irrefl 0 (hfront.1 hne)
  · exact hback.2 ⟨5, by decide, by decide⟩
  · exact Nat.pos_of_ne_zero fun h => absurd (hone.1 h.symm) (by decide)

end Buffer

end SlotBuffer
