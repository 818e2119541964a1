import SlotBuffer.Proofs.Removal

/-! Additions can be taken back. The values that were appended are the last items, so that erasing
by a swap finds each of them there, and fills its place from there. In whatever order they go, the
items that were there before never move. Values that were no items before may be taken back either
way, as no earlier item is mistaken for one of them. -/

namespace SlotBuffer.Buffer

variable (memory : Memory) {b : Buffer} {xs ys : List UInt64} {ms : List Removal}

/-- As long as no removal takes one of the items in front, they are what is left in the end. -/
theorem items_final_removals (h : b.items = xs ++ ys) (hperm : (ms.map Removal.value).Perm ys)
    (hshift : ∀ m ∈ ms, m.closing = .shift → m.value ∉ xs) :
    (Run.final (step memory) b (ms.map Removal.op)).items = xs := by
  induction ms generalizing b ys with
  | nil =>
    obtain rfl : ys = [] := List.nil_perm.1 hperm
    simpa using h
  | cons m ms ih =>
    obtain ⟨hm, hms⟩ := List.forall_mem_cons.1 hshift
    rw [List.map_cons, List.cons_perm_iff_perm_erase] at hperm
    obtain ⟨hmem, hrest⟩ := hperm
    obtain ⟨zs, hitems, hzs⟩ := exists_items_step_removal memory h hmem hm
    exact ih hitems (hrest.trans hzs.symm) hms

theorem items_final_swapErase (h : b.items = xs ++ ys) {zs : List UInt64} (hperm : zs.Perm ys) :
    (Run.final (step memory) b (zs.map .swapErase)).items = xs := by
  have hmap : zs.map Op.swapErase = (zs.map (Removal.mk · .swap)).map Removal.op := by
    rw [List.map_map]
    rfl
  rw [hmap]
  apply items_final_removals memory h
  · rwa [List.map_map, show Removal.value ∘ (Removal.mk · .swap) = id from rfl, List.map_id]
  · intro m hm hshift
    obtain ⟨v, -, rfl⟩ := List.mem_map.1 hm
    cases hshift

/-- New values that are inserted one by one come to stand behind the items in this order. -/
theorem items_final_insert {vs : List UInt64} (hvs : vs.Nodup) (hnew : ∀ v ∈ vs, v ∉ b.items)
    (hok : ∀ o ∈ Run.outcomes (step memory) b (vs.map .insert), ∃ reply, o.result = .ok reply) :
    (Run.final (step memory) b (vs.map .insert)).items = b.items ++ vs := by
  induction vs generalizing b with
  | nil => simp
  | cons v vs ih =>
    rw [List.map_cons, Run.outcomes_cons, List.forall_mem_cons] at hok
    obtain ⟨⟨reply, hreply⟩, hok⟩ := hok
    obtain ⟨hv, hnew⟩ := List.forall_mem_cons.1 hnew
    obtain ⟨hvvs, hvs⟩ := List.nodup_cons.1 hvs
    obtain ⟨i, hi, -⟩ := Outcome.result_map_eq_ok.1 hreply
    have hitems : (b.step memory (.insert v)).state.items = b.items ++ [v] :=
      (insert_new_of_ok memory hv hi).2
    have hstill : ∀ w ∈ vs, w ∉ (b.step memory (.insert v)).state.items := by
      intro w hw
      have hne : w ≠ v := ne_of_mem_of_not_mem hw hvvs
      simp [hitems, hnew w hw, hne]
    rw [List.map_cons, Run.final_cons, ih hvs hstill hok, hitems, List.append_assoc,
      List.singleton_append]

/-- Values that were appended can be erased by swaps in any order, however often they are items
already, and distinct new values that were inserted can be erased in any order and either way. What
is left is the items there were, in the order that they had. -/
theorem additions_undone (b : Buffer) :
    (∀ xs ys : List UInt64, ys.Perm xs → (b.step memory (.append xs)).result = .ok .unit →
      (Run.final (step memory) b (.append xs :: ys.map .swapErase)).items = b.items) ∧
    ∀ (vs : List UInt64) (ms : List Removal), vs.Nodup → (∀ v ∈ vs, v ∉ b.items) →
      (∀ o ∈ Run.outcomes (step memory) b (vs.map .insert), ∃ reply, o.result = .ok reply) →
      (ms.map Removal.value).Perm vs →
      (Run.final (step memory) b (vs.map .insert ++ ms.map Removal.op)).items = b.items := by
  constructor
  · intro xs ys hperm hok
    obtain ⟨_, happend, -⟩ := Outcome.result_map_eq_ok.1 hok
    exact items_final_swapErase memory (items_append memory happend) hperm
  · intro vs ms hvs hnew hok hms
    rw [Run.final_append]
    apply items_final_removals memory (items_final_insert memory hvs hnew hok) hms
    intro m hm _
    exact hnew _ (hms.mem_iff.1 (List.mem_map_of_mem hm))

/-- The values that are appended repeat each other and the items. -/
theorem additions_undone_repeated :
    let b := ofList [5, 9, 5]
    let xs : List UInt64 := [5, 5, 7, 9]
    let ys : List UInt64 := [5, 9, 5, 7]
    let vs : List UInt64 := [4, 7, 8]
    let ms : List Removal := [⟨8, .shift⟩, ⟨4, .swap⟩, ⟨7, .shift⟩]
    ys.Perm xs ∧ (b.step (.upTo 8) (.append xs)).result = .ok .unit ∧
      (Run.final (step (.upTo 8)) b (.append xs :: ys.map .swapErase)).items = [5, 9, 5] ∧
      vs.Nodup ∧ (∀ v ∈ vs, v ∉ b.items) ∧
      (∀ o ∈ Run.outcomes (step (.upTo 8)) b (vs.map .insert), ∃ reply, o.result = .ok reply) ∧
      (ms.map Removal.value).Perm vs ∧
      (Run.final (step (.upTo 8)) b (vs.map .insert ++ ms.map Removal.op)).items = [5, 9, 5] := by
  intro b xs ys vs ms
  have hperm : ys.Perm xs := by decide
  have happend : (b.step (.upTo 8) (.append xs)).result = .ok .unit := rfl
  have hnodup : vs.Nodup := by decide
  have hnew : ∀ v ∈ vs, v ∉ b.items := by simp [vs, b]
  have hresults : (Run.outcomes (step (.upTo 8)) b (vs.map .insert)).map (·.result) =
      [3, 4, 5].map fun i => .ok (.index (some i)) := by decide +kernel
  have hok : ∀ o ∈ Run.outcomes (step (.upTo 8)) b (vs.map .insert),
      ∃ reply, o.result = .ok reply := by
    intro o ho
    have hmem := List.mem_map_of_mem (f := (·.result)) ho
    rw [hresults] at hmem
    obtain ⟨i, -, hi⟩ := List.mem_map.1 hmem
    exact ⟨_, hi.symm⟩
  have hms : (ms.map Removal.value).Perm vs := by decide
  obtain ⟨hswap, hmixed⟩ := additions_undone (.upTo 8) b
  exact ⟨hperm, happend, hswap xs ys hperm happend, hnodup, hnew, hok, hms,
    hmixed vs ms hnodup hnew hok hms⟩

end SlotBuffer.Buffer
