/-! Positions of a value in a list. The first one is `List.idxOf?`; this is the last one. -/

namespace SlotBuffer

/-- The position of the last occurrence of `v`. -/
def lastIdxOf? (v : UInt64) : List UInt64 → Option Nat
  | [] => none
  | x :: xs =>
    match lastIdxOf? v xs with
    | some i => some (i + 1)
    | none => if x = v then some 0 else none

theorem idxOf?_append_cons {v : UInt64} {xs ys : List UInt64} (h : v ∉ xs) :
    (xs ++ v :: ys).idxOf? v = some xs.length := by
  have hn : xs.findIdx? (· == v) = none := List.idxOf?_eq_none_iff.2 h
  rw [List.idxOf?, List.findIdx?_append, hn]
  simp [List.findIdx?_cons]

/-- The first position holds the value, and none before it does. -/
theorem idxOf?_eq_some_iff {v : UInt64} {xs : List UInt64} {i : Nat} :
    xs.idxOf? v = some i ↔ ∃ ys zs, xs = ys ++ v :: zs ∧ ys.length = i ∧ v ∉ ys := by
  constructor
  · intro h
    obtain ⟨ys, zs, rfl, hys⟩ :=
      List.eq_append_cons_of_mem (List.isSome_idxOf?.1 (by rw [h]; rfl))
    rw [idxOf?_append_cons hys] at h
    exact ⟨ys, zs, rfl, Option.some.inj h, hys⟩
  · rintro ⟨ys, zs, rfl, rfl, hys⟩
    exact idxOf?_append_cons hys

theorem isSome_lastIdxOf? {v : UInt64} {xs : List UInt64} :
    (lastIdxOf? v xs).isSome ↔ v ∈ xs := by
  induction xs with
  | nil => simp [lastIdxOf?]
  | cons x xs ih =>
    simp only [lastIdxOf?, List.mem_cons, ← ih]
    split
    · simp_all
    · by_cases h : x = v
      · simp [h]
      · simp_all [Ne.symm h]

@[simp] theorem lastIdxOf?_eq_none_iff {v : UInt64} {xs : List UInt64} :
    lastIdxOf? v xs = none ↔ v ∉ xs := by
  rw [← isSome_lastIdxOf?]; simp

/-- The last position holds the value, and none after it does. -/
theorem lastIdxOf?_eq_some_iff {v : UInt64} {xs : List UInt64} {i : Nat} :
    lastIdxOf? v xs = some i ↔ ∃ ys zs, xs = ys ++ v :: zs ∧ ys.length = i ∧ v ∉ zs := by
  induction xs generalizing i with
  | nil => simp [lastIdxOf?]
  | cons x xs ih =>
    constructor
    · intro h
      unfold lastIdxOf? at h
      split at h
      next j hj =>
        obtain ⟨ys, zs, rfl, rfl, hz⟩ := ih.1 hj
        exact ⟨x :: ys, zs, rfl, by simpa using h, hz⟩
      next hn =>
        split at h
        next hx => exact ⟨[], xs, by simp [hx], by simpa using h, by simpa using hn⟩
        next => simp at h
    · rintro ⟨ys, zs, hxs, rfl, hz⟩
      cases ys with
      | nil =>
        obtain ⟨rfl, rfl⟩ := List.cons.inj hxs
        simp [lastIdxOf?, lastIdxOf?_eq_none_iff.2 hz]
      | cons y ys =>
        obtain ⟨rfl, rfl⟩ : x = y ∧ xs = ys ++ v :: zs := by simpa using hxs
        simp [lastIdxOf?, ih.2 ⟨ys, zs, rfl, rfl, hz⟩]

end SlotBuffer
