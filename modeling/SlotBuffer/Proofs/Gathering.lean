import Mathlib.Data.List.DropRight
import Mathlib.Logic.Function.Iterate
import SlotBuffer.Buffer.Remove
import SlotBuffer.Buffer.Reorder

/-! Moves of one value, again and again. Where the value is an item several times, a move to the back
takes its first copy past the others, and each such move makes the run of copies at the end longer by
one; only when all copies are in that run does a move change nothing. A move to the front has no more
to do after the first. -/

namespace SlotBuffer

/-! ### Copies at the end -/

/-- The length of the run of `v` with which a list ends. -/
def trailing (v : UInt64) (xs : List UInt64) : Nat := (xs.rtakeWhile (· = v)).length

/-- The values other than `v` in their order, and then every copy of `v`. -/
def gathered (v : UInt64) (xs : List UInt64) : List UInt64 :=
  xs.filter (· ≠ v) ++ List.replicate (xs.count v) v

section

variable {v : UInt64} {xs : List UInt64}

@[simp] theorem trailing_nil : trailing v [] = 0 := rfl

theorem trailing_concat (x : UInt64) :
    trailing v (xs ++ [x]) = if x = v then trailing v xs + 1 else 0 := by
  by_cases hx : x = v <;> simp [trailing, hx]

@[simp] theorem trailing_concat_self : trailing v (xs ++ [v]) = trailing v xs + 1 := by
  simp [trailing_concat]

theorem trailing_append_replicate (n : Nat) :
    trailing v (xs ++ List.replicate n v) = trailing v xs + n := by
  induction n with
  | zero => simp
  | succ n ih =>
    rw [List.replicate_succ', ← List.append_assoc, trailing_concat_self, ih, Nat.add_assoc]

-- The run is at the end, so these go through the list from there.
theorem trailing_le_count : trailing v xs ≤ xs.count v := by
  induction xs using List.reverseRecOn with
  | nil => simp
  | append_singleton xs x ih =>
    rw [trailing_concat, List.count_append]
    by_cases hx : x = v <;> simp [hx, ih]

theorem eq_gathered_of_trailing (h : trailing v xs = xs.count v) : xs = gathered v xs := by
  induction xs using List.reverseRecOn with
  | nil => rfl
  | append_singleton xs x ih =>
    rw [trailing_concat, List.count_append] at h
    by_cases hx : x = v
    · subst hx
      have hxs := ih (by simpa using h)
      unfold gathered at hxs ⊢
      conv_lhs => rw [hxs]
      simp [List.replicate_succ']
    · have hzero : xs.count v = 0 := by simp [hx] at h; omega
      have hv : v ∉ xs ++ [x] := by simp [List.count_eq_zero.1 hzero, Ne.symm hx]
      have hne : ∀ y ∈ xs ++ [x], y ≠ v := fun y hy => ne_of_mem_of_not_mem hy hv
      rw [gathered, List.count_eq_zero.2 hv, List.replicate_zero, List.append_nil]
      exact (List.filter_eq_self.2 (by simpa using hne)).symm

/-- All copies are at the end just when the values stand as they do gathered. -/
theorem trailing_eq_count_iff : trailing v xs = xs.count v ↔ xs = gathered v xs := by
  refine ⟨eq_gathered_of_trailing, fun h => ?_⟩
  have hle : trailing v xs ≤ xs.count v := trailing_le_count
  have hge : xs.count v ≤ trailing v xs := by
    conv_rhs => rw [h, gathered, trailing_append_replicate]
    exact Nat.le_add_left ..
  exact Nat.le_antisymm hle hge

/-- The first copy is in the run at the end only if no other is before that. -/
theorem trailing_erase : trailing v (xs.erase v) = min (trailing v xs) (xs.count v - 1) := by
  induction xs using List.reverseRecOn with
  | nil => simp
  | append_singleton xs x ih =>
    have hle : trailing v xs ≤ xs.count v := trailing_le_count
    rw [List.erase_append, trailing_concat, List.count_append]
    by_cases hv : v ∈ xs
    · have hpos : 0 < xs.count v := List.count_pos_iff.2 hv
      rw [if_pos hv, trailing_concat, ih]
      by_cases hx : x = v
      · simp only [hx, if_true, List.count_singleton_self]
        omega
      · simp [hx]
    · have hzero : xs.count v = 0 := List.count_eq_zero.2 hv
      by_cases hx : x = v
      · subst hx
        simp [hv, hzero]
        omega
      · simp [hv, hx, trailing_concat]

theorem filter_erase_self : (xs.erase v).filter (· ≠ v) = xs.filter (· ≠ v) := by
  induction xs with
  | nil => rfl
  | cons x xs ih =>
    by_cases hx : x = v
    · simp [hx]
    · simpa [List.erase_cons_tail, hx] using ih

end

namespace Buffer

variable {b : Buffer} {v : UInt64}

/-! ### Single moves -/

theorem count_moveToBack (b : Buffer) (v : UInt64) :
    (b.moveToBack v).items.count v = b.items.count v := by
  rw [items_moveToBack_eq_erase]
  split
  next hv =>
    have hpos : 0 < b.items.count v := List.count_pos_iff.2 hv
    rw [List.count_append, List.count_erase_self, List.count_singleton_self]
    omega
  next => rfl

theorem gathered_moveToBack (b : Buffer) (v : UInt64) :
    gathered v (b.moveToBack v).items = gathered v b.items := by
  rw [gathered, count_moveToBack, gathered, items_moveToBack_eq_erase]
  congr 1
  split
  next => rw [List.filter_append, filter_erase_self]; simp
  next => rfl

/-- A move to the back makes the run at the end longer, until it has all copies. -/
theorem trailing_moveToBack (b : Buffer) (v : UInt64) :
    trailing v (b.moveToBack v).items = min (trailing v b.items + 1) (b.items.count v) := by
  rw [items_moveToBack_eq_erase]
  split
  next hv =>
    have hpos : 0 < b.items.count v := List.count_pos_iff.2 hv
    rw [trailing_concat_self, trailing_erase]
    omega
  next hv =>
    have hzero : b.items.count v = 0 := List.count_eq_zero.2 hv
    have hle : trailing v b.items ≤ b.items.count v := trailing_le_count
    omega

theorem moveToBack_of_trailing (h : trailing v b.items = b.items.count v) :
    b.moveToBack v = b := by
  have htrailing : trailing v (b.moveToBack v).items = (b.moveToBack v).items.count v := by
    rw [trailing_moveToBack, count_moveToBack]
    omega
  have hitems : (b.moveToBack v).items = b.items := by
    rw [trailing_eq_count_iff.1 htrailing, gathered_moveToBack, ← trailing_eq_count_iff.1 h]
  exact ext_views hitems (spare_moveToBack b v) (policy_moveToBack b v)

theorem moveToFront_moveToFront (b : Buffer) (v : UInt64) :
    (b.moveToFront v).moveToFront v = b.moveToFront v := by
  have hitems : ((b.moveToFront v).moveToFront v).items = (b.moveToFront v).items := by
    rw [items_moveToFront (b.moveToFront v), items_moveToFront b]
    by_cases hv : v ∈ b.items <;> simp [hv]
  exact ext_views hitems (spare_moveToFront ..) (policy_moveToFront ..)

/-- What was moved to the front is found there. -/
theorem erase_moveToFront (hv : v ∈ b.items) :
    ((b.moveToFront v).erase v).1 = some 0 ∧
      ((b.moveToFront v).erase v).2.items = (b.erase v).2.items := by
  have hfront : (b.moveToFront v).items = v :: b.items.erase v := by
    rw [items_moveToFront, if_pos hv]
  constructor
  · rw [erase_index, firstIndex?, hfront]
    simp [List.idxOf?, List.findIdx?_cons]
  · rw [items_erase, items_erase, hfront, List.erase_cons_head]

/-! ### Repeated moves -/

theorem iterate_moveToBack (b : Buffer) (v : UInt64) (k : Nat) :
    let moved := (fun a : Buffer => a.moveToBack v)^[k] b
    gathered v moved.items = gathered v b.items ∧ moved.items.count v = b.items.count v ∧
      trailing v moved.items = min (trailing v b.items + k) (b.items.count v) := by
  induction k with
  | zero => exact ⟨rfl, rfl, (Nat.min_eq_left trailing_le_count).symm⟩
  | succ k ih =>
    intro moved
    obtain ⟨hgathered, hcount, htrailing⟩ := ih
    have hmoved : moved = ((fun a : Buffer => a.moveToBack v)^[k] b).moveToBack v :=
      Function.iterate_succ_apply' ..
    rw [hmoved, gathered_moveToBack, count_moveToBack, trailing_moveToBack]
    refine ⟨hgathered, hcount, ?_⟩
    rw [hcount, htrailing]
    omega

/-- Moved to the back again and again, the copies of a value are gathered at the end after as many
moves as there are copies outside the run that was there at first. None of these moves is in vain,
and no later one changes anything. Moved to the front a value stays there, and what it would be taken
out of is the same as before. -/
theorem repeated_moves (b : Buffer) (v : UInt64) :
    let copies := b.items.count v
    let run := trailing v b.items
    let moved (k : Nat) := (fun a : Buffer => a.moveToBack v)^[k] b
    run ≤ copies ∧
    (∀ k, (moved k).items = b.items.filter (· ≠ v) ++ List.replicate copies v ↔
      copies - run ≤ k) ∧
    (∀ k, copies - run ≤ k → (moved k).moveToBack v = moved k) ∧
    (∀ k, k < copies - run → (moved (k + 1)).items ≠ (moved k).items) ∧
    (b.moveToFront v).moveToFront v = b.moveToFront v ∧
    (v ∈ b.items → ((b.moveToFront v).erase v).1 = some 0 ∧
      ((b.moveToFront v).erase v).2.items = (b.erase v).2.items) := by
  intro copies run moved
  have hle : run ≤ copies := trailing_le_count
  have hrun (k : Nat) : trailing v (moved k).items = min (run + k) copies :=
    (iterate_moveToBack b v k).2.2
  have hcount (k : Nat) : (moved k).items.count v = copies := (iterate_moveToBack b v k).2.1
  refine ⟨hle, ?_, ?_, ?_, moveToFront_moveToFront b v, erase_moveToFront⟩
  · intro k
    have hgathered : gathered v (moved k).items = gathered v b.items := (iterate_moveToBack b v k).1
    calc
      (moved k).items = gathered v b.items ↔ (moved k).items = gathered v (moved k).items := by
        rw [hgathered]
      _ ↔ trailing v (moved k).items = (moved k).items.count v := trailing_eq_count_iff.symm
      _ ↔ copies - run ≤ k := by rw [hrun, hcount]; omega
  · intro k hk
    apply moveToBack_of_trailing
    rw [hrun, hcount]
    omega
  · intro k hk hsame
    have := congrArg (trailing v) hsame
    rw [hrun, hrun] at this
    omega

/-- Of four copies the last two are at the end already, before a spare slot that is like them. Two
moves gather the others. -/
theorem repeated_moves_scattered :
    let b : Buffer := { slots := #[7, 5, 7, 9, 7, 7, 7], len := 6, len_le := by decide }
    let moved (k : Nat) := (fun a : Buffer => a.moveToBack 7)^[k] b
    b.items.count 7 = 4 ∧ trailing 7 b.items = 2 ∧ (moved 1).items = [5, 7, 9, 7, 7, 7] ∧
      (moved 2).items = [5, 9, 7, 7, 7, 7] ∧ (moved 2).moveToBack 7 = moved 2 ∧
      (moved 1).items ≠ b.items ∧ ((b.moveToFront 7).erase 7).1 = some 0 ∧
      ((b.moveToFront 7).erase 7).2.items = [5, 7, 9, 7, 7] := by
  intro b moved
  have hcopies : b.items.count 7 = 4 := by decide
  have hrun : trailing 7 b.items = 2 := by decide
  obtain ⟨-, hgathered, hfixed, hchanged, -, hfront⟩ := repeated_moves b 7
  rw [hcopies, hrun] at hgathered hfixed hchanged
  obtain ⟨hindex, herase⟩ := hfront (by decide)
  exact ⟨hcopies, hrun, rfl, (hgathered 2).2 (by decide), hfixed 2 (by decide),
    hchanged 0 (by decide), hindex, herase⟩

end Buffer

end SlotBuffer
