import Mathlib.Algebra.BigOperators.Group.Finset.Basic
import Mathlib.Data.FinEnum
import SlotBuffer.Proofs.Refinement

/-! No item is lost and none is made up. Every step is entered in an account, with the values that it
adds to the items and those that it takes away; apart from these it only puts the items in another
order. Along a run the entries add up, so that the account of a value says how often it is an item
in the end. -/

namespace SlotBuffer.Buffer

/-! ### Entries -/

/-- The operation gives up items without looking at them. -/
def Op.Discards : Op → Prop
  | .clear | .destroy => True
  | _ => False

/-- The values that a step adds to the items, by the way they come, and those it takes away, by the
way they go. -/
structure Entry where
  appended : List UInt64 := []
  inserted : List UInt64 := []
  committed : List UInt64 := []
  erased : List UInt64 := []
  swapErased : List UInt64 := []

/-- The entry for a call that had this result on `b`. An insertion counts if it says that the value
is where the items ended, and a commit counts for what the spare slots held. -/
def entry (b : Buffer) : Memory × Op → Except Failure Reply → Entry
  | (_, .append vs), .ok _ => { appended := vs }
  | (_, .push v), .ok _ => { appended := [v] }
  | (_, .insert v), .ok (.index i) => if i = some b.len then { inserted := [v] } else {}
  | (_, .commit count), .ok _ => { committed := b.spare.take count }
  | (_, .erase v), .ok (.index (some _)) => { erased := [v] }
  | (_, .swapErase v), _ => if b.contains v then { swapErased := [v] } else {}
  | _, _ => {}

/-- All that the steps of a run have in one column of their entries. -/
def account (column : Entry → List UInt64) (b : Buffer) (calls : List (Memory × Op)) :
    List UInt64 :=
  Run.collect stepIn (fun b call r => column (b.entry call r)) b calls

/-! ### Single steps -/

variable {memory : Memory} {b : Buffer} {op : Op} {r : Except Failure Reply} {d : Contents}

/-- What the entry says is all that a step does to the items, up to their order. -/
theorem perm_of_rule (h : Contents.Step memory b.contents op r d) (hop : ¬ op.Discards) :
    let e := b.entry (memory, op) r
    (d.items ++ (e.erased ++ e.swapErased)).Perm
      (b.items ++ (e.appended ++ e.inserted ++ e.committed)) := by
  intro e
  have hlen : b.contents.items.length = b.len := b.length_items
  have hcontains (v : UInt64) : b.contains v ↔ v ∈ b.contents.items := contains_iff
  show (d.items ++ _).Perm (b.contents.items ++ _)
  cases h with
  | clear | destroy => exact absurd trivial hop
  | commit_ok => simp [e, entry, contents]
  | insert_ok => simp [e, entry, hlen]
  | insert_mem h => simp [e, entry, ← hlen, h]
  | reserve_ok room => simp [e, entry, room.items_eq]
  | swapErase_last h => simp [e, entry, hcontains, h]
  | swapErase_not_mem h => simp [e, entry, hcontains, h]
  | @swapErase_mem v x xs ys h =>
    have hmem : b.contains v := (hcontains v).2 (by simp [h])
    have hswap : (x :: (ys ++ [v])).Perm (v :: (ys ++ [x])) :=
      calc
        (x :: (ys ++ [v])).Perm (x :: v :: ys) := (List.perm_append_singleton v ys).cons x
        (x :: v :: ys).Perm (v :: x :: ys) := .swap ..
        (v :: x :: ys).Perm (v :: (ys ++ [x])) := (List.perm_append_singleton x ys).symm.cons v
    simpa [e, entry, hmem, h] using hswap.append_left xs
  | @erase_mem v x xs ys h =>
    have hlast : (ys ++ [v]).Perm (v :: ys) := List.perm_append_singleton v ys
    simpa [e, entry, h] using hlast.append_left xs
  | @moveToBack_mem v xs ys h =>
    have hlast : (ys ++ [v]).Perm (v :: ys) := List.perm_append_singleton v ys
    simpa [e, entry, h] using hlast.append_left xs
  | moveToFront_mem h => simpa [e, entry, h] using List.perm_middle.symm
  | _ => simp [e, entry]

theorem perm_step {call : Memory × Op} (hcall : ¬ call.2.Discards) :
    let o := b.stepIn call
    let e := b.entry call o.result
    (o.state.items ++ (e.erased ++ e.swapErased)).Perm
      (b.items ++ (e.appended ++ e.inserted ++ e.committed)) :=
  perm_of_rule (b.rule_step call.1 call.2) hcall

/-! ### Runs -/

theorem count_final {calls : List (Memory × Op)} (hcalls : ∀ call ∈ calls, ¬ call.2.Discards)
    (b : Buffer) (v : UInt64) :
    (Run.final stepIn b calls).items.count v + (account (·.erased) b calls).count v +
        (account (·.swapErased) b calls).count v =
      b.items.count v + (account (·.appended) b calls).count v +
        (account (·.inserted) b calls).count v + (account (·.committed) b calls).count v := by
  induction calls generalizing b with
  | nil => rfl
  | cons call calls ih =>
    obtain ⟨hcall, hcalls⟩ := List.forall_mem_cons.1 hcalls
    have hstep := (perm_step (b := b) hcall).count_eq v
    have hrest := ih hcalls (b.stepIn call).state
    simp only [account, Run.collect_cons, Run.final_cons, List.count_append] at hstep hrest ⊢
    omega

/-- The multiplicities of the items, over all values that there are, add up to their number. -/
theorem sum_count_items (b : Buffer) : ∑ v : UInt64, b.items.count v = b.len := by
  have hsub : b.items.toFinset ⊆ Finset.univ := Finset.subset_univ _
  rw [← length_items, ← List.sum_toFinset_count_eq_length]
  refine (Finset.sum_subset hsub ?_).symm
  intro v _ hv
  exact List.count_eq_zero.2 fun hmem => hv (List.mem_toFinset.2 hmem)

/-- Whatever is appended, inserted, committed, erased or moved in a run, and whatever fails, each
value is an item as often as its account says, and the length is the sum over all values. -/
theorem items_accounted_for (b : Buffer) {calls : List (Memory × Op)}
    (hcalls : ∀ call ∈ calls, ¬ call.2.Discards) :
    (∀ v, (Run.final stepIn b calls).items.count v + (account (·.erased) b calls).count v +
        (account (·.swapErased) b calls).count v =
      b.items.count v + (account (·.appended) b calls).count v +
        (account (·.inserted) b calls).count v + (account (·.committed) b calls).count v) ∧
    (Run.final stepIn b calls).len =
      ∑ v : UInt64, (Run.final stepIn b calls).items.count v :=
  ⟨count_final hcalls b, (sum_count_items _).symm⟩

/-- Two items and a leftover, with a limit of five. -/
def leftover : Buffer where
  slots := #[5, 9, 5]
  len := 2
  policy := ⟨.copying, some ⟨5, by decide, by decide⟩⟩

/-- The leftover is committed, the last two values are refused, and one of those to remove is not
there. -/
theorem items_accounted_for_leftover :
    let calls : List (Memory × Op) :=
      [.commit 1, .insert 9, .insert 4, .erase 5, .append [9, 9], .swapErase 9, .moveToFront 9,
        .swapErase 7, .reserve 1 [5], .append [5, 5]].map (.upTo 8, ·)
    (∀ call ∈ calls, ¬ call.2.Discards) ∧
      account (·.appended) leftover calls = [9, 9] ∧ account (·.inserted) leftover calls = [4] ∧
      account (·.committed) leftover calls = [5] ∧ account (·.erased) leftover calls = [5] ∧
      account (·.swapErased) leftover calls = [9] ∧
      (Run.final stepIn leftover calls).items.count 9 + [5].count 9 + [9].count 9 =
        [5, 9].count 9 + [9, 9].count 9 + [4].count 9 + [5].count 9 := by
  intro calls
  have hcalls : ∀ call ∈ calls, ¬ call.2.Discards := by simp [calls, Op.Discards]
  obtain ⟨hcount, -⟩ := items_accounted_for leftover hcalls
  exact ⟨hcalls, rfl, rfl, rfl, rfl, rfl, hcount 9⟩

end SlotBuffer.Buffer
