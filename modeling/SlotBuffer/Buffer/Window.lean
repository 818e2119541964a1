import SlotBuffer.Buffer.Growth

/-! Windows. `reserve` hands out a window of spare slots, which may be written, and `commit` makes
the first slots of it live. -/

namespace SlotBuffer.Buffer

variable (memory : Memory)

/-- Answers with the first `additional` spare slots, and then lays `vs` over the start of that
window. -/
def reserve (b : Buffer) (additional : Nat) (vs : List UInt64) :
    Outcome Buffer (List UInt64) :=
  (b.makeRoom memory additional).andThen fun b =>
    (b.fill (vs.take additional), b.spare.take additional)

def commit (b : Buffer) (count : Nat) : Outcome Buffer Unit :=
  if b.len + count ≤ b.capacity then .done (b.advance count) ()
  else .failed b (.overcommit b.len count b.capacity)

theorem reserve_of_error {b : Buffer} {additional : Nat} {vs : List UInt64} {cause : Failure}
    (h : (b.makeRoom memory additional).result = .error cause) :
    b.reserve memory additional vs =
      ⟨.error cause, (b.makeRoom memory additional).state,
        (b.makeRoom memory additional).log⟩ := by
  simp [reserve, Outcome.andThen, h]

theorem reserve_of_ok {b : Buffer} {additional : Nat} {vs : List UInt64}
    (h : (b.makeRoom memory additional).result = .ok ()) :
    b.reserve memory additional vs =
      ⟨.ok ((b.makeRoom memory additional).state.spare.take additional),
        (b.makeRoom memory additional).state.fill (vs.take additional),
        (b.makeRoom memory additional).log⟩ := by
  simp [reserve, Outcome.andThen, h]

theorem state_reserve_of_error {b : Buffer} {additional : Nat} {vs : List UInt64}
    {cause : Failure} (h : (b.reserve memory additional vs).result = .error cause) :
    (b.reserve memory additional vs).state = b := by
  rcases b.makeRoom_cases memory additional with ⟨_, hres, hstate⟩ | ⟨hres, _⟩
  · rw [reserve_of_error memory hres]
    exact hstate
  · rw [reserve_of_ok memory hres] at h
    cases h

theorem state_commit_of_error {b : Buffer} {count : Nat} {cause : Failure}
    (h : (b.commit count).result = .error cause) : (b.commit count).state = b := by
  unfold commit at h ⊢
  split
  next hle =>
    rw [if_pos hle] at h
    cases h
  next => rfl

end SlotBuffer.Buffer
