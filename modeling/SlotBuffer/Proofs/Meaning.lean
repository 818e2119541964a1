import SlotBuffer.Proofs.Room

/-! What every operation means for the items and the spare slots, as a relation with one rule for
each way that an operation can end. No rule searches: where the first or the last occurrence of a
value matters, the rule takes the items apart around it. `step_iff` says that the rules leave no
case open, contradict each other nowhere, and are what `Contents.step` computes. -/

namespace SlotBuffer.Contents

variable (memory : Memory)

inductive Step (c : Contents) : Buffer.Op → Except Failure Reply → Contents → Prop
  | policy : Step c .policy (.ok (.policy c.policy)) c
  | len : Step c .len (.ok (.count c.items.length)) c
  | capacity : Step c .capacity (.ok (.count (c.items.length + c.spare.length))) c
  | isEmpty : Step c .isEmpty (.ok (.flag (c.items = []))) c
  | items : Step c .items (.ok (.values c.items)) c
  | get (i : Nat) : Step c (.get i) (.ok (.value c.items[i]?)) c
  | contains (v : UInt64) : Step c (.contains v) (.ok (.flag (v ∈ c.items))) c
  | display : Step c .display (.ok (.text (showItems .inline 0 c.items))) c
  | describe (layout : Layout) :
      Step c (.describe layout)
        (.ok (.text (describeParts layout c.items (c.items.length + c.spare.length) c.policy))) c
  -- the last occurrence is the one with no other behind it
  | find_mem {v : UInt64} {xs ys : List UInt64} (h : c.items = xs ++ v :: ys) (hv : v ∉ ys) :
      Step c (.find v) (.ok (.index (some xs.length))) c
  | find_not_mem {v : UInt64} (h : v ∉ c.items) : Step c (.find v) (.ok (.index none)) c
  -- insertion: `d` is `c` with room made in it
  | append_nil : Step c (.append []) (.ok .unit) c
  | append_ok {vs : List UInt64} {d : Contents} (hvs : vs ≠ [])
      (room : Room memory c vs.length (.ok d)) :
      Step c (.append vs) (.ok .unit)
        { d with items := c.items ++ vs, spare := d.spare.drop vs.length }
  | append_error {vs : List UInt64} {cause : Failure} (hvs : vs ≠ [])
      (room : Room memory c vs.length (.error cause)) : Step c (.append vs) (.error cause) c
  | push_ok {v : UInt64} {d : Contents} (room : Room memory c 1 (.ok d)) :
      Step c (.push v) (.ok .unit) { d with items := c.items ++ [v], spare := d.spare.drop 1 }
  | push_error {v : UInt64} {cause : Failure} (room : Room memory c 1 (.error cause)) :
      Step c (.push v) (.error cause) c
  | insert_mem {v : UInt64} {xs ys : List UInt64} (h : c.items = xs ++ v :: ys) (hv : v ∉ xs) :
      Step c (.insert v) (.ok (.index (some xs.length))) c
  | insert_ok {v : UInt64} {d : Contents} (hv : v ∉ c.items) (room : Room memory c 1 (.ok d)) :
      Step c (.insert v) (.ok (.index (some c.items.length)))
        { d with items := c.items ++ [v], spare := d.spare.drop 1 }
  | insert_error {v : UInt64} {cause : Failure} (hv : v ∉ c.items)
      (room : Room memory c 1 (.error cause)) : Step c (.insert v) (.error cause) c
  -- windows
  | reserve_ok {additional : Nat} {vs : List UInt64} {d : Contents}
      (room : Room memory c additional (.ok d)) :
      Step c (.reserve additional vs) (.ok (.values (d.spare.take additional)))
        { d with spare := vs.take additional ++ d.spare.drop (vs.take additional).length }
  | reserve_error {additional : Nat} {vs : List UInt64} {cause : Failure}
      (room : Room memory c additional (.error cause)) :
      Step c (.reserve additional vs) (.error cause) c
  | commit_ok {count : Nat} (h : count ≤ c.spare.length) :
      Step c (.commit count) (.ok .unit)
        { c with items := c.items ++ c.spare.take count, spare := c.spare.drop count }
  | commit_error {count : Nat} (h : c.spare.length < count) :
      Step c (.commit count)
        (.error (.overcommit c.items.length count (c.items.length + c.spare.length))) c
  -- removal: the slot that falls free keeps the last item
  | swapErase_last {v : UInt64} {xs : List UInt64} (h : c.items = xs ++ [v]) :
      Step c (.swapErase v) (.ok .unit) { c with items := xs, spare := v :: c.spare }
  | swapErase_mem {v x : UInt64} {xs ys : List UInt64} (h : c.items = xs ++ v :: ys ++ [x])
      (hv : v ∉ ys ++ [x]) :
      Step c (.swapErase v) (.ok .unit) { c with items := xs ++ x :: ys, spare := x :: c.spare }
  | swapErase_not_mem {v : UInt64} (h : v ∉ c.items) : Step c (.swapErase v) (.ok .unit) c
  | erase_mem {v x : UInt64} {xs ys : List UInt64} (h : c.items = xs ++ v :: ys) (hv : v ∉ xs)
      (hx : c.items.getLast? = some x) :
      Step c (.erase v) (.ok (.index (some xs.length)))
        { c with items := xs ++ ys, spare := x :: c.spare }
  | erase_not_mem {v : UInt64} (h : v ∉ c.items) : Step c (.erase v) (.ok (.index none)) c
  -- moves
  | moveToBack_mem {v : UInt64} {xs ys : List UInt64} (h : c.items = xs ++ v :: ys)
      (hv : v ∉ xs) (hys : ys ≠ []) :
      Step c (.moveToBack v) (.ok .unit) { c with items := xs ++ ys ++ [v] }
  | moveToBack_last {v : UInt64} {xs : List UInt64} (h : c.items = xs ++ [v]) (hv : v ∉ xs) :
      Step c (.moveToBack v) (.ok .unit) c
  | moveToBack_not_mem {v : UInt64} (h : v ∉ c.items) : Step c (.moveToBack v) (.ok .unit) c
  | moveToFront_mem {v : UInt64} {xs ys : List UInt64} (h : c.items = xs ++ v :: ys)
      (hv : v ∉ xs) : Step c (.moveToFront v) (.ok .unit) { c with items := v :: (xs ++ ys) }
  | moveToFront_not_mem {v : UInt64} (h : v ∉ c.items) : Step c (.moveToFront v) (.ok .unit) c
  -- whole buffers
  | clear : Step c .clear (.ok .unit) { c with items := [], spare := c.items ++ c.spare }
  | destroy : Step c .destroy (.ok .unit) { c with items := [], spare := [] }

/-! ### The rules are what is computed -/

variable {memory} {c d : Contents} {op : Buffer.Op} {r : Except Failure Reply}

theorem append_of_room_ok {vs : List UInt64} (hvs : vs ≠ [])
    (room : Room memory c vs.length (.ok d)) :
    c.append memory vs =
      .ok { d with items := c.items ++ vs, spare := d.spare.drop vs.length } := by
  rw [append, if_neg (by simpa using hvs), room_iff.1 room, ← room.items_eq]
  rfl

theorem append_of_room_error {vs : List UInt64} {cause : Failure} (hvs : vs ≠ [])
    (room : Room memory c vs.length (.error cause)) : c.append memory vs = .error cause := by
  rw [append, if_neg (by simpa using hvs), room_iff.1 room]
  rfl

theorem reserve_of_room_ok {additional : Nat} {vs : List UInt64}
    (room : Room memory c additional (.ok d)) :
    c.reserve memory additional vs =
      .ok (d.spare.take additional,
        { d with spare := vs.take additional ++ d.spare.drop (vs.take additional).length }) := by
  rw [reserve, room_iff.1 room]
  rfl

theorem insert_of_first {v : UInt64} {xs ys : List UInt64} (h : c.items = xs ++ v :: ys)
    (hv : v ∉ xs) : c.insert memory v = .ok (xs.length, c) := by
  rw [insert, h, idxOf?_append_cons hv]

theorem insert_of_not_mem {v : UInt64} (hv : v ∉ c.items) :
    c.insert memory v = (c.append memory [v]).map fun d => (c.items.length, d) := by
  rw [insert, List.idxOf?_eq_none_iff.2 hv]
  cases c.append memory [v] <;> rfl

theorem swapErase_of_last {v x : UInt64} {xs ys : List UInt64}
    (h : c.items = xs ++ v :: ys) (hv : v ∉ ys) (hx : c.items.getLast? = some x) :
    c.swapErase v =
      { c with items := (xs ++ x :: ys).dropLast, spare := x :: c.spare } := by
  rw [swapErase, lastIdxOf?_eq_some_iff.2 ⟨xs, ys, h, rfl, hv⟩, hx, h]
  simp

theorem erase_of_first {v x : UInt64} {xs ys : List UInt64} (h : c.items = xs ++ v :: ys)
    (hv : v ∉ xs) (hx : c.items.getLast? = some x) :
    c.erase v = { c with items := xs ++ ys, spare := x :: c.spare } := by
  have hmem : v ∈ c.items := by simp [h]
  simp only [erase, hx, if_pos hmem]
  rw [h, List.erase_append_right _ hv, List.erase_cons_head]

theorem erase_of_not_mem {v : UInt64} (h : v ∉ c.items) : c.erase v = c := by
  unfold erase
  split <;> simp [h]

theorem swapErase_of_not_mem {v : UInt64} (h : v ∉ c.items) : c.swapErase v = c := by
  rw [swapErase, lastIdxOf?_eq_none_iff.2 h]

theorem moveToBack_of_first {v : UInt64} {xs ys : List UInt64} (h : c.items = xs ++ v :: ys)
    (hv : v ∉ xs) (hys : ys ≠ []) : c.moveToBack v = { c with items := xs ++ ys ++ [v] } := by
  have hmem : v ∈ c.items.dropLast := by
    rw [h, List.dropLast_append_of_ne_nil (by simp), List.dropLast_cons_of_ne_nil hys]
    simp
  rw [moveToBack, if_pos hmem, h, List.erase_append_right _ hv, List.erase_cons_head]

theorem moveToBack_of_not_mem {v : UInt64} (h : v ∉ c.items.dropLast) : c.moveToBack v = c :=
  if_neg h

theorem moveToFront_of_first {v : UInt64} {xs ys : List UInt64} (h : c.items = xs ++ v :: ys)
    (hv : v ∉ xs) : c.moveToFront v = { c with items := v :: (xs ++ ys) } := by
  have hmem : v ∈ c.items := by simp [h]
  rw [moveToFront, if_pos hmem, h, List.erase_append_right _ hv, List.erase_cons_head]

/-- Whatever the rules allow is what is computed. -/
theorem step_of_rule (h : Step memory c op r d) : c.step memory op = (r, d) := by
  cases h with
  | policy | len | capacity | items | get | display | describe | clear | destroy => rfl
  | isEmpty =>
    have h : c.items.isEmpty = decide (c.items = []) := by cases c.items <;> rfl
    rw [step, h]
  | contains v => simp [step]
  | find_mem h hv => rw [step, lastIdxOf?_eq_some_iff.2 ⟨_, _, h, rfl, hv⟩]
  | find_not_mem h => rw [step, lastIdxOf?_eq_none_iff.2 h]
  | append_nil => rfl
  | append_ok hvs room => rw [step, append_of_room_ok hvs room]; rfl
  | append_error hvs room => rw [step, append_of_room_error hvs room]; rfl
  | push_ok room => rw [step, append_of_room_ok (List.cons_ne_nil _ _) room]; rfl
  | push_error room => rw [step, append_of_room_error (List.cons_ne_nil _ _) room]; rfl
  | insert_mem h hv => rw [step, insert_of_first h hv]; rfl
  | insert_ok hv room =>
    rw [step, insert_of_not_mem hv, append_of_room_ok (List.cons_ne_nil _ _) room]; rfl
  | insert_error hv room =>
    rw [step, insert_of_not_mem hv, append_of_room_error (List.cons_ne_nil _ _) room]; rfl
  | reserve_ok room => rw [step, reserve_of_room_ok room]; rfl
  | reserve_error room => rw [step, reserve, room_iff.1 room]; rfl
  | commit_ok h => rw [step, commit, if_pos h]; rfl
  | commit_error h => rw [step, commit, if_neg (Nat.not_le.2 h)]; rfl
  | swapErase_last h =>
    rw [step, swapErase_of_last h (List.not_mem_nil) (by rw [h, List.getLast?_concat])]
    simp
  | swapErase_mem h hv =>
    rw [List.append_assoc, List.cons_append] at h
    rw [step, swapErase_of_last h hv (by rw [h, ← List.cons_append, ← List.append_assoc,
      List.getLast?_concat]), ← List.cons_append, ← List.append_assoc, List.dropLast_concat]
  | swapErase_not_mem h => rw [step, swapErase_of_not_mem h]
  | erase_mem h hv hx => rw [step, erase_of_first h hv hx, h, idxOf?_append_cons hv]
  | erase_not_mem h => rw [step, erase_of_not_mem h, List.idxOf?_eq_none_iff.2 h]
  | moveToBack_mem h hv hys => rw [step, moveToBack_of_first h hv hys]
  | moveToBack_last h hv => rw [step, moveToBack_of_not_mem (by rwa [h, List.dropLast_concat])]
  | moveToBack_not_mem h =>
    rw [step, moveToBack_of_not_mem fun hm => h (List.dropLast_subset _ hm)]
  | moveToFront_mem h hv => rw [step, moveToFront_of_first h hv]
  | moveToFront_not_mem h => rw [step, moveToFront, if_neg h]

/-! ### No case is open -/

theorem exists_last_occurrence {v : UInt64} {xs : List UInt64} (h : v ∈ xs) :
    ∃ ys zs, xs = ys ++ v :: zs ∧ v ∉ zs := by
  obtain ⟨i, hi⟩ := Option.isSome_iff_exists.1 (isSome_lastIdxOf?.2 h)
  obtain ⟨ys, zs, hxs, -, hz⟩ := lastIdxOf?_eq_some_iff.1 hi
  exact ⟨ys, zs, hxs, hz⟩

theorem exists_swapErase_rule (memory : Memory) (c : Contents) (v : UInt64) :
    ∃ d, Step memory c (.swapErase v) (.ok .unit) d := by
  by_cases hv : v ∈ c.items
  · obtain ⟨xs, ys, h, hlast⟩ := exists_last_occurrence hv
    rcases List.eq_nil_or_concat ys with rfl | ⟨zs, x, rfl⟩
    · exact ⟨_, .swapErase_last h⟩
    · rw [List.concat_eq_append] at h hlast
      exact ⟨_, .swapErase_mem (by simpa using h) hlast⟩
  · exact ⟨_, .swapErase_not_mem hv⟩

theorem exists_erase_rule (memory : Memory) (c : Contents) (v : UInt64) :
    ∃ r d, Step memory c (.erase v) r d := by
  by_cases hv : v ∈ c.items
  · obtain ⟨xs, ys, h, hfirst⟩ := List.eq_append_cons_of_mem hv
    have hx := List.getLast?_eq_some_getLast (List.ne_nil_of_mem hv)
    exact ⟨_, _, .erase_mem h hfirst hx⟩
  · exact ⟨_, _, .erase_not_mem hv⟩

theorem exists_moveToBack_rule (memory : Memory) (c : Contents) (v : UInt64) :
    ∃ d, Step memory c (.moveToBack v) (.ok .unit) d := by
  by_cases hv : v ∈ c.items
  · obtain ⟨xs, ys, h, hfirst⟩ := List.eq_append_cons_of_mem hv
    by_cases hys : ys = []
    · subst hys
      exact ⟨_, .moveToBack_last h hfirst⟩
    · exact ⟨_, .moveToBack_mem h hfirst hys⟩
  · exact ⟨_, .moveToBack_not_mem hv⟩

theorem exists_moveToFront_rule (memory : Memory) (c : Contents) (v : UInt64) :
    ∃ d, Step memory c (.moveToFront v) (.ok .unit) d := by
  by_cases hv : v ∈ c.items
  · obtain ⟨xs, ys, h, hfirst⟩ := List.eq_append_cons_of_mem hv
    exact ⟨_, .moveToFront_mem h hfirst⟩
  · exact ⟨_, .moveToFront_not_mem hv⟩

theorem exists_insert_rule (memory : Memory) (c : Contents) (v : UInt64) :
    ∃ r d, Step memory c (.insert v) r d := by
  by_cases hv : v ∈ c.items
  · obtain ⟨xs, ys, h, hfirst⟩ := List.eq_append_cons_of_mem hv
    exact ⟨_, _, .insert_mem h hfirst⟩
  · rcases room_ok_or_error memory c 1 with ⟨d, room⟩ | ⟨cause, room⟩
    · exact ⟨_, _, .insert_ok hv room⟩
    · exact ⟨_, _, .insert_error hv room⟩

theorem exists_append_rule (memory : Memory) (c : Contents) (vs : List UInt64) :
    ∃ r d, Step memory c (.append vs) r d := by
  by_cases hvs : vs = []
  · subst hvs
    exact ⟨_, _, .append_nil⟩
  · rcases room_ok_or_error memory c vs.length with ⟨d, room⟩ | ⟨cause, room⟩
    · exact ⟨_, _, .append_ok hvs room⟩
    · exact ⟨_, _, .append_error hvs room⟩

theorem exists_find_rule (memory : Memory) (c : Contents) (v : UInt64) :
    ∃ r, Step memory c (.find v) r c := by
  by_cases hv : v ∈ c.items
  · obtain ⟨xs, ys, h, hlast⟩ := exists_last_occurrence hv
    exact ⟨_, .find_mem h hlast⟩
  · exact ⟨_, .find_not_mem hv⟩

theorem exists_rule (memory : Memory) (c : Contents) (op : Buffer.Op) :
    ∃ r d, Step memory c op r d := by
  cases op with
  | policy => exact ⟨_, _, .policy⟩
  | len => exact ⟨_, _, .len⟩
  | capacity => exact ⟨_, _, .capacity⟩
  | isEmpty => exact ⟨_, _, .isEmpty⟩
  | items => exact ⟨_, _, .items⟩
  | get i => exact ⟨_, _, .get i⟩
  | contains v => exact ⟨_, _, .contains v⟩
  | find v =>
    obtain ⟨r, h⟩ := exists_find_rule memory c v
    exact ⟨r, c, h⟩
  | push v =>
    rcases room_ok_or_error memory c 1 with ⟨d, room⟩ | ⟨cause, room⟩
    · exact ⟨_, _, .push_ok room⟩
    · exact ⟨_, _, .push_error room⟩
  | append vs => exact exists_append_rule memory c vs
  | reserve additional vs =>
    rcases room_ok_or_error memory c additional with ⟨d, room⟩ | ⟨cause, room⟩
    · exact ⟨_, _, .reserve_ok room⟩
    · exact ⟨_, _, .reserve_error room⟩
  | commit count =>
    rcases Nat.lt_or_ge c.spare.length count with h | h
    · exact ⟨_, _, .commit_error h⟩
    · exact ⟨_, _, .commit_ok h⟩
  | insert v => exact exists_insert_rule memory c v
  | swapErase v =>
    obtain ⟨d, h⟩ := exists_swapErase_rule memory c v
    exact ⟨_, d, h⟩
  | erase v => exact exists_erase_rule memory c v
  | moveToBack v =>
    obtain ⟨d, h⟩ := exists_moveToBack_rule memory c v
    exact ⟨_, d, h⟩
  | moveToFront v =>
    obtain ⟨d, h⟩ := exists_moveToFront_rule memory c v
    exact ⟨_, d, h⟩
  | clear => exact ⟨_, _, .clear⟩
  | destroy => exact ⟨_, _, .destroy⟩
  | display => exact ⟨_, _, .display⟩
  | describe layout => exact ⟨_, _, .describe layout⟩

/-- The rules and the function agree. -/
theorem step_iff : Step memory c op r d ↔ c.step memory op = (r, d) := by
  constructor
  · exact step_of_rule
  · intro h
    obtain ⟨r', d', hrule⟩ := exists_rule memory c op
    obtain ⟨rfl, rfl⟩ : r' = r ∧ d' = d := by simpa [step_of_rule hrule] using h
    exact hrule

end SlotBuffer.Contents
