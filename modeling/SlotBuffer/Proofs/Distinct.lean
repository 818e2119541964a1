import SlotBuffer.Proofs.Strategies

/-! A buffer as a set. As long as values are inserted and never appended, no value becomes an item
twice, whatever is removed, moved, reserved or refused in between. The first occurrence of an item
is then its last one, so that all who look for it find it in one place. Inserting a list value by
value keeps the first occurrence of each, and the position that an insertion answers is good to the
end. -/

namespace SlotBuffer

/-- The operation may add values that are items already. -/
def Buffer.Op.MayRepeat : Buffer.Op → Prop
  | .push _ | .append _ | .commit _ => True
  | _ => False

namespace Contents

variable {memory : Memory} {c d : Contents} {op : Buffer.Op} {r : Except Failure Reply}
  {v : UInt64}

/-! ### No item twice -/

theorem Step.nodup (h : Step memory c op r d) (hop : ¬ op.MayRepeat) (hc : c.items.Nodup) :
    d.items.Nodup := by
  cases h with
  | push_ok | push_error | append_nil | append_ok | append_error | commit_ok | commit_error =>
    exact absurd trivial hop
  | @insert_ok v _ hv =>
    exact (List.perm_append_singleton v c.items).nodup_iff.2 (List.nodup_cons.2 ⟨hv, hc⟩)
  | reserve_ok room => rwa [← room.items_eq] at hc
  | swapErase_last h =>
    rw [h] at hc
    exact hc.sublist (List.sublist_append_left ..)
  | @swapErase_mem v x xs ys h =>
    rw [h, List.append_assoc, List.cons_append, List.append_cons] at hc
    have hperm : (xs ++ x :: ys).Perm (xs ++ (ys ++ [x])) :=
      (List.perm_append_singleton x ys).symm.append_left xs
    exact hperm.nodup_iff.2 (hc.sublist ((List.sublist_append_left xs [v]).append_right _))
  | @erase_mem v _ xs ys h =>
    rw [h, List.append_cons] at hc
    exact hc.sublist ((List.sublist_append_left xs [v]).append_right ys)
  | @moveToBack_mem v xs ys h =>
    rw [h] at hc
    rw [List.append_assoc]
    exact ((List.perm_append_singleton v ys).append_left xs).nodup_iff.2 hc
  | moveToFront_mem h =>
    rw [h] at hc
    exact List.perm_middle.nodup_iff.1 hc
  | clear | destroy => exact List.nodup_nil
  | _ => exact hc

/-- An item that is there once has all others before or behind it. -/
theorem exists_only_occurrence {xs : List UInt64} (h : xs.Nodup) (hv : v ∈ xs) :
    ∃ ys zs, xs = ys ++ v :: zs ∧ v ∉ ys ∧ v ∉ zs := by
  obtain ⟨ys, zs, rfl, hys⟩ := List.eq_append_cons_of_mem hv
  have hzs : v ∉ zs := by
    have htail : (v :: zs).Nodup := h.sublist (List.sublist_append_right ..)
    exact (List.nodup_cons.1 htail).1
  exact ⟨ys, zs, rfl, hys, hzs⟩

/-! ### Inserting one by one -/

/-- A value that is inserted is behind the items if it was none of them, and its first position is
what the insertion answers. -/
theorem Step.items_insert {reply : Reply} (h : Step memory c (.insert v) (.ok reply) d) :
    d.items = (if v ∈ c.items then c.items else c.items ++ [v]) ∧
      reply = .index (some (d.items.idxOf v)) := by
  cases h with
  | @insert_mem _ xs ys h hv =>
    have hmem : v ∈ c.items := by rw [h]; simp
    have hpos : c.items.idxOf v = xs.length := by rw [h, List.idxOf_append, if_neg hv]; simp
    rw [if_pos hmem, hpos]
    exact ⟨rfl, rfl⟩
  | insert_ok hv =>
    have hpos : (c.items ++ [v]).idxOf v = c.items.length := by
      rw [List.idxOf_append, if_neg hv]; simp
    rw [if_neg hv, hpos]
    exact ⟨rfl, rfl⟩

end Contents

/-! ### First occurrences -/

section FirstOccurrences

variable {xs vs : List UInt64} {v : UInt64}

/-- A list without repetitions has none after a value is inserted, and the values that follow find
the same among it. -/
theorem eraseDups_insert (hxs : xs.eraseDups = xs) :
    let ys := if v ∈ xs then xs else xs ++ [v]
    ys.eraseDups = ys ∧ v ∈ ys ∧ ∀ vs, (ys ++ vs).eraseDups = (xs ++ v :: vs).eraseDups := by
  intro ys
  by_cases h : v ∈ xs
  · have hskip (vs : List UInt64) : (v :: vs).removeAll xs = vs.removeAll xs := by
      simp [List.removeAll, h]
    rw [show ys = xs from if_pos h]
    refine ⟨hxs, h, fun vs => ?_⟩
    rw [List.eraseDups_append, List.eraseDups_append, hskip]
  · have hkeep : [v].removeAll xs = [v] := by simp [List.removeAll, h]
    rw [show ys = xs ++ [v] from if_neg h]
    refine ⟨?_, by simp, fun vs => by rw [← List.append_cons]⟩
    rw [List.eraseDups_append, hkeep, hxs]
    rfl

/-- What comes later does not change the position of an item. -/
theorem idxOf_eraseDups_append (h : v ∈ xs) (hxs : xs.eraseDups = xs) :
    (xs ++ vs).eraseDups.idxOf v = xs.idxOf v := by
  rw [List.eraseDups_append, hxs, List.idxOf_append, if_pos h]

end FirstOccurrences

namespace Buffer

variable {b : Buffer} {v : UInt64}

theorem result_of_rule {memory : Memory} {op : Op} {r : Except Failure Reply} {d : Contents}
    (h : Contents.Step memory b.contents op r d) : (b.step memory op).result = r :=
  (congrArg Prod.fst ((b.rule_iff_observed memory op r d).1 h)).symm

/-- Whoever looks for the value finds it in one place. -/
def SamePosition (b : Buffer) (v : UInt64) : Prop :=
  ∃ i, b.items[i]? = some v ∧ ∀ memory,
    (b.step memory (.find v)).result = .ok (.index (some i)) ∧
    (b.step memory (.insert v)).result = .ok (.index (some i)) ∧
    (b.step memory (.erase v)).result = .ok (.index (some i))

theorem samePosition_of_nodup (h : b.items.Nodup) (hv : v ∈ b.items) : b.SamePosition v := by
  obtain ⟨xs, ys, heq, hxs, hys⟩ := Contents.exists_only_occurrence h hv
  have hlast := List.getLast?_eq_some_getLast (List.ne_nil_of_mem hv)
  refine ⟨xs.length, by rw [heq]; simp, ?_⟩
  intro memory
  exact ⟨result_of_rule (.find_mem heq hys), result_of_rule (.insert_mem heq hxs),
    result_of_rule (.erase_mem heq hxs hlast)⟩

theorem nodup_step {call : Memory × Op} (hop : ¬ call.2.MayRepeat) (h : b.items.Nodup) :
    (b.stepIn call).state.items.Nodup :=
  (b.rule_step call.1 call.2).nodup hop h

theorem stepIn_insert_of_ok {memory : Memory} {reply : Reply}
    (h : (b.stepIn (memory, .insert v)).result = .ok reply) :
    (b.stepIn (memory, .insert v)).state.items =
        (if v ∈ b.items then b.items else b.items ++ [v]) ∧
      reply = .index (some ((b.stepIn (memory, .insert v)).state.items.idxOf v)) := by
  have hrule := b.rule_step memory (.insert v)
  rw [show (b.step memory (.insert v)).result = .ok reply from h] at hrule
  exact hrule.items_insert

/-- Where no value is an item twice, inserting the values of a list one by one adds the first
occurrence of each that was no item, and answers where each of them ends up. -/
theorem insert_all {calls : List (Memory × Op)} {vs : List UInt64}
    (hcalls : calls.map Prod.snd = vs.map .insert) (hb : b.items.eraseDups = b.items)
    (hok : ∀ o ∈ Run.outcomes stepIn b calls, ∃ reply, o.result = .ok reply) :
    (Run.final stepIn b calls).items = (b.items ++ vs).eraseDups ∧
      (Run.outcomes stepIn b calls).map (·.result) =
        vs.map fun v => .ok (.index (some ((b.items ++ vs).eraseDups.idxOf v))) := by
  induction calls generalizing b vs with
  | nil =>
    obtain rfl : vs = [] := by simpa using hcalls.symm
    simp [hb]
  | cons call calls ih =>
    obtain ⟨v, vs, rfl⟩ := List.exists_cons_of_ne_nil (l := vs) (by rintro rfl; cases hcalls)
    obtain ⟨memory, op⟩ := call
    obtain ⟨rfl, hrest⟩ : op = .insert v ∧ calls.map Prod.snd = vs.map .insert :=
      List.cons.inj hcalls
    rw [Run.outcomes_cons, List.forall_mem_cons] at hok
    obtain ⟨⟨reply, hreply⟩, hok⟩ := hok
    obtain ⟨hitems, rfl⟩ := stepIn_insert_of_ok hreply
    obtain ⟨hdups, hmem, happend⟩ := eraseDups_insert (v := v) hb
    rw [← hitems] at hdups hmem happend
    obtain ⟨hfinal, hresults⟩ := ih hrest hdups hok
    rw [happend] at hfinal hresults
    refine ⟨hfinal, ?_⟩
    rw [Run.outcomes_cons, List.map_cons, List.map_cons, hresults, hreply, ← happend,
      idxOf_eraseDups_append hmem hdups]

/-- Without pushes, appends and commits, a buffer whose items are distinct stays one, and every item
has one position for all who look for it. The values of a list that are inserted one by one into a
buffer without items are in the end its items, each where it first occurred in the list and where
its insertion said. -/
theorem set_discipline :
    (∀ (b : Buffer) (calls : List (Memory × Op)), b.items.Nodup →
      (∀ call ∈ calls, ¬ call.2.MayRepeat) →
      ∀ o ∈ Run.outcomes stepIn b calls,
        o.state.items.Nodup ∧ ∀ v ∈ o.state.items, o.state.SamePosition v) ∧
    ∀ (b : Buffer) (calls : List (Memory × Op)) (vs : List UInt64), b.items = [] →
      calls.map Prod.snd = vs.map .insert →
      (∀ o ∈ Run.outcomes stepIn b calls, ∃ reply, o.result = .ok reply) →
      (Run.final stepIn b calls).items = vs.eraseDups ∧
        (Run.outcomes stepIn b calls).map (·.result) =
          vs.map fun v => .ok (.index (some (vs.eraseDups.idxOf v))) := by
  constructor
  · intro b calls hb hcalls o ho
    have hnodup : o.state.items.Nodup := by
      refine Run.outcomes_induction (P := fun b : Buffer => b.items.Nodup) _ ?_ hb o ho
      intro b call hcall
      exact nodup_step (hcalls call hcall)
    exact ⟨hnodup, fun v hv => samePosition_of_nodup hnodup hv⟩
  · intro b calls vs hb hcalls hok
    have hrun := insert_all hcalls (by rw [hb]; rfl) hok
    rwa [hb, List.nil_append] at hrun

/-- Two items in two slots, with a limit of three: one more value is let in, the next one is
refused, and a removal makes room for it. -/
theorem set_discipline_refusing :
    let calls : List (Memory × Op) :=
      [.insert 4, .insert 7, .moveToFront 9, .swapErase 9, .reserve 2 [], .insert 7].map
        (.upTo 8, ·)
    let vs := [7, 5, 7, 9, 5]
    let inserts : List (Memory × Op) := vs.map fun v => (.upTo 8, .insert v)
    (pair .copying).items.Nodup ∧ (∀ call ∈ calls, ¬ call.2.MayRepeat) ∧
      (Run.outcomes stepIn (pair .copying) calls).map (·.result) =
        [.ok (.index (some 2)), .error (.overLimit 4 3), .ok .unit, .ok .unit,
          .error (.overLimit 4 3), .ok (.index (some 2))] ∧
      (∀ o ∈ Run.outcomes stepIn (pair .copying) calls, ∀ v ∈ o.state.items,
        o.state.SamePosition v) ∧
      (∀ o ∈ Run.outcomes stepIn empty inserts, ∃ reply, o.result = .ok reply) ∧
      (Run.final stepIn empty inserts).items = [7, 5, 9] := by
  intro calls vs inserts
  have hb : (pair .copying).items.Nodup := by decide
  have hcalls : ∀ call ∈ calls, ¬ call.2.MayRepeat := by simp [calls, Op.MayRepeat]
  have hresults : (Run.outcomes stepIn empty inserts).map (·.result) =
      [0, 1, 0, 2, 1].map fun i => .ok (.index (some i)) := rfl
  have hok : ∀ o ∈ Run.outcomes stepIn empty inserts, ∃ reply, o.result = .ok reply := by
    intro o ho
    have hmem : o.result ∈ (Run.outcomes stepIn empty inserts).map (·.result) :=
      List.mem_map_of_mem ho
    rw [hresults] at hmem
    obtain ⟨i, -, hi⟩ := List.mem_map.1 hmem
    exact ⟨_, hi.symm⟩
  obtain ⟨hset, hinsert⟩ := set_discipline
  refine ⟨hb, hcalls, rfl, fun o ho => (hset _ calls hb hcalls o ho).2, hok, ?_⟩
  rw [(hinsert _ inserts vs rfl rfl hok).1]
  rfl

end Buffer

end SlotBuffer
