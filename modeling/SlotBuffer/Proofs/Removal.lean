import Mathlib.Data.List.Count
import SlotBuffer.Proofs.Refinement

/-! Removals in any order. Erasing takes the first occurrence of a value and leaves the other items
where they are, so that only the number of removals of a value counts: of each, that many first
occurrences are gone in the end. Erasing by a swap takes the last occurrence and moves another item,
but removes one occurrence as well. -/

namespace SlotBuffer

/-! ### Removals -/

/-- How the gap that an item leaves is closed: by all items behind it, or by the last one. -/
inductive Closing
  | shift
  | swap
deriving DecidableEq

structure Removal where
  value : UInt64
  closing : Closing
deriving DecidableEq

def Removal.op : Removal → Buffer.Op
  | ⟨v, .shift⟩ => .erase v
  | ⟨v, .swap⟩ => .swapErase v

/-! ### What stays -/

/-- The items that stay when every value of `vs` takes an occurrence away, the first ones first.
These are the items that have as many equals before them as `vs` has. -/
def survivors (vs items : List UInt64) : List UInt64 :=
  (items.zipIdx.filter fun p => vs.count p.1 ≤ (items.take p.2).count p.1).map Prod.fst

/-- The first item stays if no removal is meant for it, and else uses one up. -/
theorem survivors_cons (vs : List UInt64) (x : UInt64) (xs : List UInt64) :
    survivors vs (x :: xs) =
      if x ∈ vs then survivors (vs.erase x) xs else x :: survivors vs xs := by
  have hrest (ws : List UInt64)
      (h : ∀ y n, vs.count y ≤ n + (if x = y then 1 else 0) ↔ ws.count y ≤ n) :
      ((xs.zipIdx 1).filter fun p => vs.count p.1 ≤ ((x :: xs).take p.2).count p.1).map Prod.fst =
        survivors ws xs := by
    rw [List.zipIdx_succ, List.filter_map, List.map_map, survivors]
    congr 1
    apply List.filter_congr
    rintro ⟨y, i⟩ -
    simp [← h, List.count_cons]
  rw [survivors, List.zipIdx_cons, List.filter_cons]
  by_cases hx : x ∈ vs
  · have hpos : 0 < vs.count x := List.count_pos_iff.2 hx
    rw [if_neg (by simpa using Nat.ne_of_gt hpos), if_pos hx]
    apply hrest
    intro y n
    by_cases hxy : x = y
    · subst hxy
      rw [List.count_erase_self, if_pos rfl]
      omega
    · rw [List.count_erase_of_ne (Ne.symm hxy), if_neg hxy, Nat.add_zero]
  · have hzero : vs.count x = 0 := List.count_eq_zero.2 hx
    rw [if_pos (by simp [hzero]), if_neg hx, List.map_cons]
    congr 1
    apply hrest
    intro y n
    by_cases hxy : x = y
    · subst hxy
      simp [hzero]
    · rw [if_neg hxy, Nat.add_zero]

/-- Taking the values away one after the other leaves the same items. -/
theorem diff_eq_survivors (vs items : List UInt64) : items.diff vs = survivors vs items := by
  induction items generalizing vs with
  | nil => simp [survivors]
  | cons x xs ih => rw [List.cons_diff, survivors_cons, ih, ih]

theorem diff_replicate {v : UInt64} {k : Nat} {items : List UInt64} (h : items.count v ≤ k) :
    items.diff (List.replicate k v) = items.filter (· ≠ v) := by
  induction items generalizing k with
  | nil => simp
  | cons x xs ih =>
    rw [List.cons_diff]
    by_cases hx : x = v
    · subst hx
      rw [List.count_cons_self] at h
      obtain ⟨n, rfl⟩ : ∃ n, k = n + 1 := ⟨k - 1, by omega⟩
      simp [List.replicate_succ, ih (Nat.le_of_succ_le_succ h)]
    · rw [List.count_cons_of_ne hx] at h
      have hne : x ∉ List.replicate k v := fun hmem => hx (List.eq_of_mem_replicate hmem)
      rw [if_neg hne, ih h, List.filter_cons_of_pos (by simpa using hx)]

namespace Buffer

variable {b : Buffer} {m : Removal} {v : UInt64} {xs ys : List UInt64} {ms : List Removal}
  (memory : Memory)

/-! ### Single steps -/

theorem items_step_shift (b : Buffer) (v : UInt64) :
    (b.step memory (.erase v)).state.items = b.items.erase v := b.items_erase v

/-- The last occurrence lies among the items behind, and so does the item that fills its place. -/
theorem exists_items_step_swap (h : b.items = xs ++ ys) (hv : v ∈ ys) :
    ∃ zs, (b.step memory (.swapErase v)).state.items = xs ++ zs ∧ zs.Perm (ys.erase v) := by
  obtain ⟨ps, qs, rfl, hqs⟩ := Contents.exists_last_occurrence hv
  rw [← List.append_assoc] at h
  rcases List.eq_nil_or_concat qs with rfl | ⟨qs, x, rfl⟩
  · refine ⟨ps, items_of_rule (.swapErase_last h), ?_⟩
    simpa using ((List.perm_append_singleton v ps).erase v).symm
  · rw [List.concat_eq_append] at h hqs ⊢
    have hlast : b.items = xs ++ ps ++ v :: qs ++ [x] := by simpa using h
    refine ⟨ps ++ x :: qs, ?_, ?_⟩
    · rw [items_of_rule (.swapErase_mem hlast hqs), List.append_assoc]
    · calc
        (ps ++ x :: qs).Perm (ps ++ (qs ++ [x])) :=
          (List.perm_append_singleton x qs).symm.append_left ps
        _ = (v :: (ps ++ (qs ++ [x]))).erase v := (List.erase_cons_head ..).symm
        List.Perm _ ((ps ++ v :: (qs ++ [x])).erase v) := List.perm_middle.symm.erase v

/-- Where the value is an item behind others, and none of those is taken, they stay as they are. -/
theorem exists_items_step_removal (h : b.items = xs ++ ys) (hv : m.value ∈ ys)
    (hshift : m.closing = .shift → m.value ∉ xs) :
    ∃ zs, (b.step memory m.op).state.items = xs ++ zs ∧ zs.Perm (ys.erase m.value) := by
  obtain ⟨v, closing⟩ := m
  cases closing with
  | shift =>
    refine ⟨ys.erase v, ?_, .refl _⟩
    rw [Removal.op, items_step_shift, h, List.erase_append_right _ (hshift rfl)]
  | swap => exact exists_items_step_swap memory h hv

/-- However the gap is closed, one occurrence is gone. -/
theorem perm_step_removal (b : Buffer) (m : Removal) :
    (b.step memory m.op).state.items.Perm (b.items.erase m.value) := by
  by_cases hv : m.value ∈ b.items
  · have hb : b.items = [] ++ b.items := rfl
    obtain ⟨zs, hitems, hperm⟩ := exists_items_step_removal memory hb hv fun _ => List.not_mem_nil
    rwa [hitems]
  · obtain ⟨v, closing⟩ := m
    rw [List.erase_of_not_mem hv]
    cases closing with
    | shift => rw [Removal.op, items_of_rule (.erase_not_mem hv)]; rfl
    | swap => rw [Removal.op, items_of_rule (.swapErase_not_mem hv)]; rfl

/-! ### Runs -/

theorem items_final_shift (b : Buffer) (vs : List UInt64) :
    (Run.final (step memory) b (vs.map .erase)).items = survivors vs b.items := by
  rw [← diff_eq_survivors]
  induction vs generalizing b with
  | nil => rfl
  | cons v vs ih => rw [List.map_cons, Run.final_cons, ih, items_step_shift, List.diff_cons]

theorem perm_final_removals (b : Buffer) (ms : List Removal) :
    (Run.final (step memory) b (ms.map Removal.op)).items.Perm
      (survivors (ms.map Removal.value) b.items) := by
  rw [← diff_eq_survivors]
  induction ms generalizing b with
  | nil => exact .refl _
  | cons m ms ih =>
    rw [List.map_cons, List.map_cons, Run.final_cons, List.diff_cons]
    exact (ih _).trans ((perm_step_removal memory b m).diff_right _)

/-- Whether the answer is a position. -/
def found : Outcome Buffer Reply → Bool
  | ⟨.ok (.index (some _)), _, _⟩ => true
  | _ => false

theorem found_erase : found (b.step memory (.erase v)) ↔ v ∈ b.items := by
  by_cases hv : v ∈ b.items
  · obtain ⟨i, hi⟩ := Option.isSome_iff_exists.1 (List.isSome_idxOf?.2 hv)
    have hindex : b.firstIndex? v = some i := hi
    simp [step, Outcome.done, hindex, found, hv]
  · simp [step, Outcome.done, firstIndex?_eq_none_iff.2 hv, found, hv]

/-- Each call that finds its value makes the buffer shorter by one. -/
theorem countP_found_add (b : Buffer) (vs : List UInt64) :
    (Run.outcomes (step memory) b (vs.map .erase)).countP found + (survivors vs b.items).length =
      b.len := by
  rw [← diff_eq_survivors]
  induction vs generalizing b with
  | nil => simp
  | cons v vs ih =>
    have hrest := ih (b.step memory (.erase v)).state
    rw [← length_items, items_step_shift] at hrest
    rw [List.map_cons, Run.outcomes_cons, List.diff_cons]
    by_cases hv : v ∈ b.items
    · have hpos : 0 < b.items.length := List.length_pos_of_mem hv
      rw [List.length_erase_of_mem hv, length_items] at hrest
      rw [List.countP_cons_of_pos ((found_erase memory).2 hv)]
      rw [length_items] at hpos
      omega
    · rw [List.erase_of_not_mem hv, length_items] at hrest
      rwa [List.countP_cons_of_neg (mt (found_erase memory).1 hv), List.erase_of_not_mem hv]

/-- The order of removals does not matter. Erasing the values of a list leaves the same items in
every order, with equally many values found; closing the gaps by swaps, at whichever of the calls,
leaves these items too, but in another order. A value can be erased just as often as it is an item,
and then the other items are left. -/
theorem removal_order_irrelevant (memory : Memory) (b : Buffer) (vs : List UInt64) :
    (∀ ws : List UInt64, ws.Perm vs →
      (Run.final (step memory) b (ws.map .erase)).items = survivors vs b.items ∧
      (Run.outcomes (step memory) b (ws.map .erase)).countP found + (survivors vs b.items).length =
        b.len) ∧
    (∀ ms : List Removal, (ms.map Removal.value).Perm vs →
      (Run.final (step memory) b (ms.map Removal.op)).items.Perm (survivors vs b.items)) ∧
    (∀ v, (survivors vs b.items).count v = b.items.count v - min (vs.count v) (b.items.count v)) ∧
    ∀ v k,
      let c := Run.final (step memory) b ((List.replicate k v).map .erase)
      (found (c.step memory (.erase v)) ↔ k < b.items.count v) ∧
      (b.items.count v ≤ k → c.items = b.items.filter (· ≠ v)) := by
  have hperm {ws : List UInt64} (h : ws.Perm vs) :
      survivors ws b.items = survivors vs b.items := by
    rw [← diff_eq_survivors, ← diff_eq_survivors, h.diff_left]
  refine ⟨?_, ?_, ?_, ?_⟩
  · intro ws hws
    rw [items_final_shift, ← hperm hws]
    exact ⟨rfl, countP_found_add memory b ws⟩
  · intro ms hms
    rw [← hperm hms]
    exact perm_final_removals memory b ms
  · intro v
    rw [← diff_eq_survivors, List.count_diff]
    omega
  · intro v k c
    have hitems : c.items = b.items.diff (List.replicate k v) := by
      rw [items_final_shift, diff_eq_survivors]
    refine ⟨?_, ?_⟩
    · rw [found_erase, hitems, ← List.count_pos_iff, List.count_diff, List.count_replicate_self]
      omega
    · intro hk
      rw [hitems, diff_replicate hk]

/-- Five items, with a copy of `5` left behind them. Of the values to remove, `5` is there twice and
`7` not at all. -/
theorem removal_order_irrelevant_leftover :
    let b : Buffer := { slots := #[5, 9, 4, 5, 9, 5], len := 5, len_le := by decide }
    let vs := [5, 7, 5, 9, 5]
    let ms : List Removal := [⟨9, .swap⟩, ⟨5, .shift⟩, ⟨5, .swap⟩, ⟨7, .shift⟩, ⟨5, .shift⟩]
    [9, 5, 5, 7, 5].Perm vs ∧ (ms.map Removal.value).Perm vs ∧ survivors vs b.items = [4, 9] ∧
      (Run.final (step (.upTo 8)) b ([9, 5, 5, 7, 5].map .erase)).items = [4, 9] ∧
      (Run.outcomes (step (.upTo 8)) b ([9, 5, 5, 7, 5].map .erase)).countP found + 2 = 5 ∧
      (Run.final (step (.upTo 8)) b (ms.map Removal.op)).items.Perm [4, 9] ∧
      (Run.final (step (.upTo 8)) b ([5, 5].map .erase)).items = [9, 4, 9] := by
  intro b vs ms
  have hws : [9, 5, 5, 7, 5].Perm vs := by decide
  have hms : (ms.map Removal.value).Perm vs := by decide
  have hleft : survivors vs b.items = [4, 9] := by decide
  obtain ⟨hshift, hmixed, -, hall⟩ := removal_order_irrelevant (.upTo 8) b vs
  obtain ⟨hitems, hfound⟩ := hshift _ hws
  rw [hleft] at hitems hfound hmixed
  exact ⟨hws, hms, hleft, hitems, hfound, hmixed ms hms, (hall 5 2).2 (by decide)⟩

end Buffer

end SlotBuffer
