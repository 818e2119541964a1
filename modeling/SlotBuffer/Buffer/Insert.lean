import SlotBuffer.Buffer.Growth

/-! Insertion at the end. Values are written into spare slots, which then become live. -/

namespace SlotBuffer.Buffer

variable (memory : Memory)

/-- Adds the values behind the items. No room is made for no values, so adding none never fails. -/
def append (b : Buffer) (vs : List UInt64) : Outcome Buffer Unit :=
  if vs.isEmpty then .done b ()
  else (b.makeRoom memory vs.length).andThen fun b => ((b.fill vs).advance vs.length, ())

def push (b : Buffer) (v : UInt64) : Outcome Buffer Unit := b.append memory [v]

/-- Adds the value unless it is an item, and answers with the position of its first occurrence. -/
def insert (b : Buffer) (v : UInt64) : Outcome Buffer Nat :=
  match b.firstIndex? v with
  | some i => .done b i
  | none => (b.push memory v).andThen fun grown => (grown, b.len)

/-! ### Items and spare slots -/

/-- Values laid over spare slots and made live are items, as long as there are slots for them. -/
theorem views_fill_advance (b : Buffer) {vs : List UInt64} (h : b.len + vs.length ≤ b.capacity) :
    ((b.fill vs).advance vs.length).items = b.items ++ vs ∧
      ((b.fill vs).advance vs.length).spare = b.spare.drop vs.length := by
  have hv : vs.take (b.capacity - b.len) = vs := List.take_of_length_le (by omega)
  simp [hv]

theorem append_nil (b : Buffer) : b.append memory [] = .done b () := rfl

theorem append_of_error {b : Buffer} {vs : List UInt64} {cause : Failure} (hvs : vs ≠ [])
    (h : (b.makeRoom memory vs.length).result = .error cause) :
    b.append memory vs =
      ⟨.error cause, (b.makeRoom memory vs.length).state, (b.makeRoom memory vs.length).log⟩ := by
  simp [append, hvs, Outcome.andThen, h]

theorem append_of_ok {b : Buffer} {vs : List UInt64} (hvs : vs ≠ [])
    (h : (b.makeRoom memory vs.length).result = .ok ()) :
    b.append memory vs =
      ⟨.ok (), ((b.makeRoom memory vs.length).state.fill vs).advance vs.length,
        (b.makeRoom memory vs.length).log⟩ := by
  simp [append, hvs, Outcome.andThen, h]

/-- Appending either fails and leaves the buffer as it was, or adds the values behind the items and
takes their slots from the spare ones, of which new ones may have been added. -/
theorem append_cases (b : Buffer) (vs : List UInt64) :
    (∃ cause, (b.append memory vs).result = .error cause ∧ (b.append memory vs).state = b) ∨
      (b.append memory vs).result = .ok () ∧
        (b.append memory vs).state.items = b.items ++ vs ∧
        ∃ extra, (b.append memory vs).state.spare =
          (b.spare ++ List.replicate extra 0).drop vs.length := by
  by_cases hvs : vs = []
  · subst hvs
    exact Or.inr ⟨rfl, by simp [append_nil, Outcome.done], 0, by simp [append_nil, Outcome.done]⟩
  rcases b.makeRoom_cases memory vs.length with ⟨cause, hres, hstate⟩ | ⟨hres, hroom, extra, hstate⟩
  · rw [append_of_error memory hvs hres]
    exact Or.inl ⟨cause, rfl, hstate⟩
  · rw [append_of_ok memory hvs hres]
    rw [hstate] at hroom ⊢
    obtain ⟨hitems, hspare⟩ := (b.enlarge extra).views_fill_advance hroom
    exact Or.inr ⟨rfl, by rw [hitems, items_enlarge], extra, by rw [hspare, spare_enlarge]⟩

theorem items_append {b : Buffer} {vs : List UInt64}
    (h : (b.append memory vs).result = .ok ()) :
    (b.append memory vs).state.items = b.items ++ vs := by
  rcases b.append_cases memory vs with ⟨_, hres, _⟩ | ⟨_, hitems, _⟩
  · rw [hres] at h
    cases h
  · exact hitems

theorem insert_of_mem {b : Buffer} {v : UInt64} {i : Nat} (h : b.firstIndex? v = some i) :
    b.insert memory v = .done b i := by
  simp [insert, h]

theorem insert_of_not_mem {b : Buffer} {v : UInt64} (h : v ∉ b.items) :
    b.insert memory v = (b.push memory v).andThen fun grown => (grown, b.len) := by
  simp [insert, firstIndex?_eq_none_iff.2 h]

/-- A value that was no item is added behind the items. -/
theorem insert_new_of_ok {b : Buffer} {v : UInt64} {i : Nat} (hv : v ∉ b.items)
    (h : (b.insert memory v).result = .ok i) :
    i = b.len ∧ (b.insert memory v).state.items = b.items ++ [v] := by
  rw [insert_of_not_mem memory hv, push, Outcome.andThen] at h ⊢
  rcases b.append_cases memory [v] with ⟨cause, hres, _⟩ | ⟨hres, hitems, _⟩
  · rw [hres] at h
    cases h
  · rw [hres] at h ⊢
    exact ⟨(Except.ok.inj h).symm, hitems⟩

theorem items_insert {b : Buffer} {v : UInt64} {i : Nat}
    (h : (b.insert memory v).result = .ok i) :
    (b.insert memory v).state.items = if v ∈ b.items then b.items else b.items ++ [v] := by
  cases hf : b.firstIndex? v with
  | some j =>
    rw [insert_of_mem memory hf, if_pos (mem_of_firstIndex? hf)]
    rfl
  | none =>
    have hv : v ∉ b.items := firstIndex?_eq_none_iff.1 hf
    rw [if_neg hv]
    exact (insert_new_of_ok memory hv h).2

theorem state_append_of_error {b : Buffer} {vs : List UInt64} {cause : Failure}
    (h : (b.append memory vs).result = .error cause) : (b.append memory vs).state = b := by
  rcases b.append_cases memory vs with ⟨_, _, hstate⟩ | ⟨hres, _⟩
  · exact hstate
  · rw [hres] at h
    cases h

theorem state_insert_of_error {b : Buffer} {v : UInt64} {cause : Failure}
    (h : (b.insert memory v).result = .error cause) : (b.insert memory v).state = b := by
  cases hf : b.firstIndex? v with
  | some i =>
    rw [insert_of_mem memory hf] at h
    cases h
  | none =>
    rw [insert_of_not_mem memory (firstIndex?_eq_none_iff.1 hf), push, Outcome.andThen] at h ⊢
    rcases b.append_cases memory [v] with ⟨cause, hres, hstate⟩ | ⟨hres, _⟩
    · rw [hres]
      exact hstate
    · rw [hres] at h
      cases h

end SlotBuffer.Buffer
