import Mathlib.Algebra.GroupWithZero.Nat
import SlotBuffer.Proofs.Invariant
import SlotBuffer.Proofs.Reservation

/-! Values can be added in two phases: they are written into a window of spare slots, and the slots
are then made live, at once or piece by piece. The pieces add up, and behind the items that were there
before come, after any piece, as many of the values as have been made live by then. Where the window
is just as long as the values are many, the two phases together are an append, down to the slots, the
log and the failures. -/

namespace SlotBuffer.Buffer

variable {b : Buffer} {n : Nat}

/-! ### Pieces -/

theorem advance_zero (b : Buffer) : b.advance 0 = b := ext_views (by simp) (by simp) rfl

theorem advance_advance (b : Buffer) (j k : Nat) : (b.advance j).advance k = b.advance (j + k) := by
  apply ext_views
  · simp [List.take_add, List.append_assoc]
  · simp
  · rfl

/-- Commits within what was reserved succeed, and come to one commit of their sum. -/
theorem Reserved.commits_eq (h : b.Reserved n) {ks : List Nat} (hks : ks.sum ≤ n) :
    Run.untilFailure commit b ks = .done (b.advance ks.sum) () := by
  induction ks generalizing b n with
  | nil => rw [Run.untilFailure_nil, List.sum_nil, advance_zero]
  | cons k ks ih =>
    rw [List.sum_cons] at hks
    have hk : k ≤ n := by omega
    have hrest : (b.advance k).Reserved (n - k) := by
      have hroom := (h.honours_commit hk).reserved
      rwa [h.commit_eq hk] at hroom
    rw [Run.untilFailure_cons, h.commit_eq hk, Outcome.done_followedBy, ih hrest (by omega),
      advance_advance, List.sum_cons]

theorem Reserved.outcomes_commits (h : b.Reserved n) {ks : List Nat} (hks : ks.sum ≤ n) :
    ∀ o ∈ Run.outcomes commit b ks, o.result = .ok () := by
  have hok : (Run.untilFailure commit b ks).result = .ok () := by
    rw [h.commits_eq hks]
    rfl
  intro o ho
  obtain ⟨⟨⟩, hres⟩ := (Run.untilFailure_ok_iff commit).1 hok o ho
  exact hres

theorem Reserved.final_commits (h : b.Reserved n) {ks : List Nat} (hks : ks.sum ≤ n) :
    Run.final commit b ks = b.advance ks.sum := by
  have hrun := h.commits_eq hks
  rw [← Run.state_untilFailure commit (by rw [hrun]; rfl), hrun]
  rfl

/-! ### Both phases -/

variable (memory : Memory)

/-- Of the values in a window, as many are items as were made live. -/
theorem items_advance_reserve {vs window : List UInt64} {k : Nat}
    (h : (b.reserve memory n vs).result = .ok window) (hvs : vs.length ≤ n) (hk : k ≤ vs.length) :
    ((b.reserve memory n vs).state.advance k).items = b.items ++ vs.take k := by
  obtain ⟨⟨_, hres⟩, -⟩ := Outcome.result_andThen_eq_ok.1 h
  obtain ⟨hroom, extra, hstate⟩ := makeRoom_of_ok memory hres
  rw [reserve_of_ok memory hres, List.take_of_length_le hvs]
  rw [hstate] at hroom ⊢
  have hfit : vs.take (b.enlarge extra).spare.length = vs := by
    apply List.take_of_length_le
    rw [length_spare, len_enlarge]
    omega
  rw [items_advance, items_fill, items_enlarge, spare_fill, hfit,
    List.take_append_of_le_length hk]

/-- No values are appended as any others would be, as there is room for none already. -/
theorem append_eq_andThen (hlen : b.len ≤ maxLength) (vs : List UInt64) :
    b.append memory vs =
      (b.makeRoom memory vs.length).andThen fun c => ((c.fill vs).advance vs.length, ()) := by
  by_cases hvs : vs = []
  · subst hvs
    have hroom : b.Reserved 0 := ⟨hlen, b.len_le_capacity⟩
    have hnone : ([] : List UInt64).length ≤ 0 := Nat.le_refl 0
    rw [hroom.append_eq memory hnone, hroom.makeRoom_eq memory hnone]
    rfl
  · rw [append, if_neg (by simpa using hvs)]

/-- A window as long as the values are many, and commits for all of it, are an append. -/
theorem reserve_commits (hlen : b.len ≤ maxLength) {vs : List UInt64} {ks : List Nat}
    (hks : ks.sum = vs.length) :
    ((b.reserve memory vs.length vs).followedBy fun staged => Run.untilFailure commit staged ks) =
      b.append memory vs := by
  rw [append_eq_andThen memory hlen]
  cases hres : (b.makeRoom memory vs.length).result with
  | error cause =>
    rw [reserve_of_error memory hres, Outcome.followedBy_of_error rfl]
    simp [Outcome.andThen, hres]
  | ok =>
    have hreserve : b.reserve memory vs.length vs = _ := reserve_of_ok memory hres
    have hroom : (b.reserve memory vs.length vs).state.Reserved vs.length :=
      reserved_of_reserve memory (by rw [hreserve])
    rw [hreserve, List.take_length] at hroom ⊢
    rw [Outcome.followedBy_of_ok rfl, hroom.commits_eq (Nat.le_of_eq hks), hks]
    simp [Outcome.andThen, Outcome.done, hres]

/-- Once a window has been handed out and values written to its start, the slots of the values can
be made live in any number of pieces: every piece succeeds, and the items after it are the earlier
ones and as many of the values as the pieces so far come to. With a window for the values alone the
whole is an append, and fails where the append does. -/
theorem Reachable.staged_append {origin : Memory} (h : b.Reachable origin) {vs : List UInt64}
    {ks : List Nat} (hks : ks.sum = vs.length) :
    (∀ n window, vs.length ≤ n → (b.reserve memory n vs).result = .ok window →
      let staged := (b.reserve memory n vs).state
      (∀ o ∈ Run.outcomes commit staged ks, o.result = .ok ()) ∧
        (Run.final commit staged ks).items = b.items ++ vs ∧
        ∀ js, js <+: ks → (Run.final commit staged js).items = b.items ++ vs.take js.sum) ∧
    ((b.reserve memory vs.length vs).followedBy fun staged => Run.untilFailure commit staged ks) =
      b.append memory vs := by
  refine ⟨?_, reserve_commits memory h.bounded.len_le_maxLength hks⟩
  intro n window hn hres staged
  have hroom : staged.Reserved n := reserved_of_reserve memory hres
  have hpieces (js : List Nat) (hjs : js <+: ks) :
      (Run.final commit staged js).items = b.items ++ vs.take js.sum := by
    obtain ⟨rest, rfl⟩ := hjs
    have hle : js.sum ≤ vs.length := by
      rw [← hks, List.sum_append]
      exact Nat.le_add_right ..
    rw [hroom.final_commits (Nat.le_trans hle hn)]
    exact items_advance_reserve memory hres hn hle
  refine ⟨hroom.outcomes_commits (Nat.le_trans (Nat.le_of_eq hks) hn), ?_, hpieces⟩
  rw [hpieces ks List.prefix_rfl, hks, List.take_length]

/-- The window of three has a slot in front that still holds a value taken out before, and two new
ones. With memory for no more than two slots the append fails, and reserving does. -/
theorem staged_append_dirty :
    let b := Run.final (step (.upTo 8)) .empty [.append [5, 9], .erase 5]
    let stage (memory : Memory) :=
      (b.reserve memory 2 [7, 8]).followedBy fun staged => Run.untilFailure commit staged [1, 0, 1]
    b.Reachable (.upTo 8) ∧ (b.reserve (.upTo 8) 3 [7, 8]).result = .ok [9, 0, 0] ∧
      (∀ o ∈ Run.outcomes commit (b.reserve (.upTo 8) 3 [7, 8]).state [1, 0, 1],
        o.result = .ok ()) ∧
      (Run.final commit (b.reserve (.upTo 8) 3 [7, 8]).state [1, 0]).items = [9, 7] ∧
      stage (.upTo 8) = b.append (.upTo 8) [7, 8] ∧
      (b.append (.upTo 8) [7, 8]).log = [.grew 2 4 .inPlace] ∧
      (stage (.upTo 2)).result = .error (.allocation .exhausted) := by
  intro b stage
  have hb : b.Reachable (.upTo 8) := ((reachable_empty _ {}).next (.append [5, 9])).next (.erase 5)
  have hwindow : (b.reserve (.upTo 8) 3 [7, 8]).result = .ok [9, 0, 0] := rfl
  have hsum : [1, 0, 1].sum = ([7, 8] : List UInt64).length := rfl
  obtain ⟨hstaged, happend⟩ := hb.staged_append (.upTo 8) hsum
  obtain ⟨hok, -, hitems⟩ := hstaged 3 _ (by decide) hwindow
  obtain ⟨-, hfail⟩ := hb.staged_append (.upTo 2) hsum
  have hcause : (b.append (.upTo 2) [7, 8]).result = .error (.allocation .exhausted) := rfl
  refine ⟨hb, hwindow, hok, hitems [1, 0] ⟨[1], rfl⟩, happend, rfl, ?_⟩
  rw [← hfail] at hcause
  exact hcause

end SlotBuffer.Buffer
