import SlotBuffer.Proofs.Atomicity

/-! How far the slots were used, and where their values come from. A history is kept beside the
buffer: how many slots from the start may have been written since the buffer was made or last
destroyed, and which values were supplied since then. The slots beyond that mark still hold the zero
with which they were added, and no slot holds anything but zero and the supplied values. -/

namespace SlotBuffer

namespace Buffer

/-! ### Histories -/

/-- The values that an operation supplies where it succeeds. -/
def Op.supplied : Op → List UInt64
  | .push v | .insert v => [v]
  | .append vs => vs
  | .reserve additional vs => vs.take additional
  | _ => []

/-- The number of slots that an operation writes without making them live. -/
def Op.written : Op → Nat
  | .reserve additional vs => (vs.take additional).length
  | _ => 0

/-- No slot from `mark` on was written, and no value supplied but `values`. -/
structure History where
  mark : Nat
  values : List UInt64

/-- The history of a buffer that was just made. -/
def History.start (b : Buffer) : History := ⟨b.len, b.items⟩

/-- The history after an operation on `b` with outcome `o`. -/
def History.next (h : History) (b : Buffer) (op : Op) (o : Outcome Buffer Reply) : History :=
  match op, o.result with
  | .destroy, _ => ⟨0, []⟩
  | _, .error _ => h
  | op, .ok _ => ⟨max h.mark (max o.state.len (b.len + op.written)), h.values ++ op.supplied⟩

/-- A step that takes the history of the buffer along. -/
def stepTracked (s : Buffer × History) (call : Memory × Op) : Outcome (Buffer × History) Reply :=
  (s.1.stepIn call).within fun b => (b, s.2.next s.1 call.2 (s.1.stepIn call))

namespace History

variable {h : History} {b : Buffer} {op : Op} {o : Outcome Buffer Reply}

theorem next_of_error {cause : Failure} (hop : op ≠ .destroy) (ho : o.result = .error cause) :
    h.next b op o = h := by
  unfold next
  rw [ho]
  cases op with
  | destroy => exact absurd rfl hop
  | _ => rfl

theorem next_of_ok {reply : Reply} (hop : op ≠ .destroy) (ho : o.result = .ok reply) :
    h.next b op o =
      ⟨max h.mark (max o.state.len (b.len + op.written)), h.values ++ op.supplied⟩ := by
  unfold next
  rw [ho]
  cases op with
  | destroy => exact absurd rfl hop
  | _ => rfl

theorem mem_values_next {v : UInt64} (hv : v ∈ (h.next b op o).values) :
    v ∈ h.values ∨ v ∈ op.supplied ∧ ∃ reply, o.result = .ok reply := by
  by_cases hop : op = .destroy
  · subst hop
    cases hv
  cases ho : o.result with
  | error cause =>
    rw [next_of_error hop ho] at hv
    exact .inl hv
  | ok reply =>
    rw [next_of_ok hop ho] at hv
    exact (List.mem_append.1 hv).imp_right fun hsupplied => ⟨hsupplied, reply, rfl⟩

end History

/-! ### Slots beyond the mark -/

/-- The live slots end before the mark, the slots beyond it hold zero, and every slot holds zero or
one of the values. -/
structure Marked (mark : Nat) (values : List UInt64) (b : Buffer) : Prop where
  len_le : b.len ≤ mark
  zero_of_ge : ∀ (i : Nat) (v : UInt64), b.slots[i]? = some v → mark ≤ i → v = 0
  zero_or_mem : ∀ v ∈ b.slots, v = 0 ∨ v ∈ values

theorem mem_slots_of_mem_items {b : Buffer} {v : UInt64} (h : v ∈ b.items) : v ∈ b.slots := by
  rw [← Array.mem_toList_iff]
  exact List.mem_of_mem_take h

theorem marked_empty (policy : Policy) : Marked 0 [] (empty policy) where
  len_le := Nat.le_refl _
  zero_of_ge _ _ hv _ := by cases hv
  zero_or_mem _ hv := absurd hv (Array.not_mem_empty _)

theorem marked_ofList (vs : List UInt64) : Marked vs.length vs (ofList vs) where
  len_le := Nat.le_refl _
  zero_of_ge i v hv hi := by
    have hlt : i < vs.length := by
      obtain ⟨hlt, -⟩ := List.getElem?_eq_some_iff.1 (List.getElem?_toArray.symm.trans hv)
      exact hlt
    exact absurd hi (Nat.not_le.2 hlt)
  zero_or_mem v hv := .inr (List.mem_toArray.1 hv)

namespace Marked

variable {mark : Nat} {values : List UInt64} {b : Buffer}

theorem mono (h : Marked mark values b) {mark' : Nat} {values' : List UInt64} (hmark : mark ≤ mark')
    (hvalues : values ⊆ values') : Marked mark' values' b where
  len_le := Nat.le_trans h.len_le hmark
  zero_of_ge i v hv hi := h.zero_of_ge i v hv (Nat.le_trans hmark hi)
  zero_or_mem v hv := (h.zero_or_mem v hv).imp_right fun hmem => hvalues hmem

/-- Moving the boundary leaves the slots alone. -/
theorem of_slots_eq (h : Marked mark values b) {c : Buffer} (hslots : c.slots = b.slots)
    (hlen : c.len ≤ mark) : Marked mark values c where
  len_le := hlen
  zero_of_ge := by
    rw [hslots]
    exact h.zero_of_ge
  zero_or_mem := by
    rw [hslots]
    exact h.zero_or_mem

theorem write (h : Marked mark values b) {start : Nat} {ws : List UInt64}
    (hend : start + ws.length ≤ mark) (hws : ∀ w ∈ ws, w = 0 ∨ w ∈ values) :
    Marked mark values (b.write start ws) where
  len_le := h.len_le
  zero_of_ge i v hv hi := by
    have hslot : (overwrite b.slots start ws)[i]? = b.slots[i]? :=
      getElem?_overwrite_of_le _ _ (Nat.le_trans hend hi)
    exact h.zero_of_ge i v (hslot.symm.trans hv) hi
  zero_or_mem v hv := by
    rcases mem_of_mem_overwrite hv with hold | hnew
    · exact h.zero_or_mem v hold
    · exact hws v hnew

/-- Items may change places. -/
theorem write_items (h : Marked mark values b) {start : Nat} {ws : List UInt64}
    (hend : start + ws.length ≤ b.len) (hws : ws ⊆ b.items) :
    Marked mark values (b.write start ws) := by
  apply h.write (Nat.le_trans hend h.len_le)
  intro w hw
  exact h.zero_or_mem w (mem_slots_of_mem_items (hws hw))

theorem fill (h : Marked mark values b) (ws : List UInt64) :
    Marked (max mark (b.len + ws.length)) (values ++ ws) (b.fill ws) := by
  have hmono : Marked (max mark (b.len + ws.length)) (values ++ ws) b :=
    h.mono (Nat.le_max_left ..) (List.subset_append_left ..)
  apply hmono.write (Nat.le_max_right ..)
  intro w hw
  exact .inr (List.mem_append_right _ hw)

/-- New slots hold zero. -/
theorem enlarge (h : Marked mark values b) (extra : Nat) : Marked mark values (b.enlarge extra) := by
  have hslots : (b.enlarge extra).slots.toList = b.slots.toList ++ List.replicate extra 0 :=
    Strategy.toList_enlarge ..
  constructor
  · exact h.len_le
  · intro i v hv hi
    rw [← Array.getElem?_toList, hslots] at hv
    rcases Nat.lt_or_ge i b.slots.toList.length with hlt | hge
    · rw [List.getElem?_append_left hlt, Array.getElem?_toList] at hv
      exact h.zero_of_ge i v hv hi
    · rw [List.getElem?_append_right hge] at hv
      exact List.eq_of_mem_replicate (List.mem_of_getElem? hv)
  · intro v hv
    rw [← Array.mem_toList_iff, hslots, List.mem_append, Array.mem_toList_iff] at hv
    rcases hv with hold | hnew
    · exact h.zero_or_mem v hold
    · exact .inl (List.eq_of_mem_replicate hnew)

/-! ### Operations -/

variable (memory : Memory)

theorem makeRoom (h : Marked mark values b) (n : Nat) :
    Marked mark values (b.makeRoom memory n).state := by
  rcases b.makeRoom_cases memory n with ⟨_, _, hstate⟩ | ⟨_, _, extra, hstate⟩
  · rwa [hstate]
  · rw [hstate]
    exact h.enlarge extra

theorem append (h : Marked mark values b) {vs : List UInt64}
    (hok : (b.append memory vs).result = .ok ()) :
    Marked (max mark (b.append memory vs).state.len) (values ++ vs) (b.append memory vs).state := by
  have hlen : (b.append memory vs).state.len = b.len + vs.length := by
    rw [← length_items, items_append memory hok, List.length_append, length_items]
  rw [hlen]
  by_cases hvs : vs = []
  · subst hvs
    exact h.mono (Nat.le_max_left ..) (List.subset_append_left ..)
  rw [Buffer.append, if_neg (by simpa using hvs)] at hok
  obtain ⟨⟨_, hroom⟩, -⟩ := Outcome.result_andThen_eq_ok.1 hok
  have hfill := (h.makeRoom memory vs.length).fill vs
  rw [len_makeRoom] at hfill
  rw [append_of_ok memory hvs hroom] at hlen ⊢
  exact hfill.of_slots_eq rfl (Nat.le_trans (Nat.le_of_eq hlen) (Nat.le_max_right ..))

theorem insert (h : Marked mark values b) {v : UInt64} {i : Nat}
    (hok : (b.insert memory v).result = .ok i) :
    Marked (max mark (b.insert memory v).state.len) (values ++ [v]) (b.insert memory v).state := by
  cases hf : b.firstIndex? v with
  | some j =>
    rw [insert_of_mem memory hf]
    exact h.mono (Nat.le_max_left ..) (List.subset_append_left ..)
  | none =>
    rw [insert_of_not_mem memory (firstIndex?_eq_none_iff.1 hf), push] at hok ⊢
    obtain ⟨⟨_, hres⟩, -⟩ := Outcome.result_andThen_eq_ok.1 hok
    rw [Outcome.andThen, hres]
    exact h.append memory hres

theorem reserve (h : Marked mark values b) {additional : Nat} {vs window : List UInt64}
    (hok : (b.reserve memory additional vs).result = .ok window) :
    Marked (max mark (b.len + (vs.take additional).length)) (values ++ vs.take additional)
      (b.reserve memory additional vs).state := by
  obtain ⟨⟨_, hroom⟩, -⟩ := Outcome.result_andThen_eq_ok.1 hok
  have hfill := (h.makeRoom memory additional).fill (vs.take additional)
  rw [len_makeRoom] at hfill
  rwa [reserve_of_ok memory hroom]

theorem commit (h : Marked mark values b) (count : Nat) :
    Marked (max mark (b.commit count).state.len) values (b.commit count).state := by
  have hmono : Marked (max mark (b.commit count).state.len) values b :=
    h.mono (Nat.le_max_left ..) (List.Subset.refl _)
  apply hmono.of_slots_eq _ (Nat.le_max_right ..)
  unfold Buffer.commit
  split <;> rfl

theorem retreat (h : Marked mark values b) : Marked mark values b.retreat :=
  h.of_slots_eq rfl (Nat.le_trans (Nat.sub_le ..) h.len_le)

theorem swapErase (h : Marked mark values b) (v : UInt64) : Marked mark values (b.swapErase v) := by
  unfold Buffer.swapErase
  split
  next => exact h
  next i hi =>
    have hlt := lastIndex?_lt hi
    have hone : b.items.getLast?.toList.length ≤ 1 := by cases b.items.getLast? <;> simp
    apply (h.write_items (by omega) _).retreat
    intro w hw
    exact List.mem_of_getLast? (Option.mem_toList.1 hw)

theorem erase (h : Marked mark values b) (v : UInt64) : Marked mark values (b.erase v).2 := by
  unfold Buffer.erase
  split
  next => exact h
  next i hi =>
    have hlt := firstIndex?_lt hi
    have hend : i + (b.items.drop (i + 1)).length ≤ b.len := by simp; omega
    exact (h.write_items hend (List.drop_subset ..)).retreat

theorem moveToBack (h : Marked mark values b) (v : UInt64) :
    Marked mark values (b.moveToBack v) := by
  unfold Buffer.moveToBack
  split
  next => exact h
  next i hi =>
    have hf := firstIndex?_of_dropLast hi
    have hlt := firstIndex?_lt hf
    have hend : i + (b.items.drop (i + 1) ++ [v]).length ≤ b.len := by simp; omega
    apply h.write_items hend
    rw [List.append_subset]
    exact ⟨List.drop_subset .., List.cons_subset.2 ⟨mem_of_firstIndex? hf, List.nil_subset _⟩⟩

theorem moveToFront (h : Marked mark values b) (v : UInt64) :
    Marked mark values (b.moveToFront v) := by
  unfold Buffer.moveToFront
  split
  next => exact h
  next i hi =>
    have hlt := firstIndex?_lt hi
    have hend : 0 + (v :: b.items.take i).length ≤ b.len := by simp; omega
    apply h.write_items hend
    exact List.cons_subset.2 ⟨mem_of_firstIndex? hi, List.take_subset ..⟩

theorem clear (h : Marked mark values b) : Marked mark values b.clear :=
  h.of_slots_eq rfl (Nat.zero_le _)

end Marked

/-! ### Steps -/

theorem Marked.step_of_ok {mark : Nat} {values : List UInt64} {b : Buffer}
    (hb : Marked mark values b) (memory : Memory) {op : Op} {reply : Reply}
    (hok : (b.step memory op).result = .ok reply) :
    Marked (max mark (max (b.step memory op).state.len (b.len + op.written)))
      (values ++ op.supplied) (b.step memory op).state := by
  -- What supplies nothing keeps the mark, what makes slots live raises it to the new boundary.
  have raise {m n : Nat} (h : m ≤ n) : max mark m ≤ max mark n := by omega
  have kept {c : Buffer} (hc : Marked mark values c) :
      Marked (max mark (max c.len (b.len + op.written))) (values ++ op.supplied) c :=
    hc.mono (Nat.le_max_left ..) (List.subset_append_left ..)
  have live {c : Buffer} {vs : List UInt64} (hc : Marked (max mark c.len) vs c)
      (hvs : vs ⊆ values ++ op.supplied) :
      Marked (max mark (max c.len (b.len + op.written))) (values ++ op.supplied) c :=
    hc.mono (raise (Nat.le_max_left ..)) hvs
  cases op with
  | push v | append vs =>
    obtain ⟨_, happend, -⟩ := Outcome.result_map_eq_ok.1 hok
    exact live (hb.append memory happend) (List.Subset.refl _)
  | insert v =>
    obtain ⟨_, hinsert, -⟩ := Outcome.result_map_eq_ok.1 hok
    exact live (hb.insert memory hinsert) (List.Subset.refl _)
  | reserve additional vs =>
    obtain ⟨_, hreserve, -⟩ := Outcome.result_map_eq_ok.1 hok
    exact (hb.reserve memory hreserve).mono (raise (Nat.le_max_right ..))
      (List.Subset.refl _)
  | commit count => exact live (hb.commit count) (List.subset_append_left ..)
  | swapErase v => exact kept (hb.swapErase v)
  | erase v => exact kept (hb.erase v)
  | moveToBack v => exact kept (hb.moveToBack v)
  | moveToFront v => exact kept (hb.moveToFront v)
  | clear => exact kept hb.clear
  | destroy => exact (marked_empty b.policy).mono (Nat.zero_le _) (List.nil_subset _)
  | policy | len | capacity | isEmpty | items | get | contains | find | display | describe =>
    exact kept hb

/-- A step writes no slot beyond the mark that it sets, and no value that it does not add. -/
theorem Marked.step {h : History} {b : Buffer} (hb : Marked h.mark h.values b) (memory : Memory)
    (op : Op) :
    Marked (h.next b op (b.step memory op)).mark (h.next b op (b.step memory op)).values
      (b.step memory op).state := by
  by_cases hop : op = .destroy
  · subst hop
    exact marked_empty b.policy
  cases hres : (b.step memory op).result with
  | error cause =>
    rw [History.next_of_error hop hres, state_step_of_error hres]
    exact hb
  | ok reply =>
    rw [History.next_of_ok hop hres]
    exact hb.step_of_ok memory hres

/-- Leaves no value behind the items: removes none of them, and writes nothing into a window. -/
def Op.Tidy : Op → Prop
  | .swapErase _ | .erase _ | .clear => False
  | .reserve additional vs => vs.take additional = []
  | _ => True

theorem len_le_append (memory : Memory) (b : Buffer) (vs : List UInt64) :
    b.len ≤ (b.append memory vs).state.len := by
  rcases b.append_cases memory vs with ⟨_, _, hstate⟩ | ⟨_, hitems, -⟩
  · exact Nat.le_of_eq (congrArg len hstate).symm
  · rw [← length_items, ← length_items, hitems, List.length_append]
    exact Nat.le_add_right ..

theorem len_le_insert (memory : Memory) (b : Buffer) (v : UInt64) :
    b.len ≤ (b.insert memory v).state.len := by
  cases hres : (b.insert memory v).result with
  | error cause => exact Nat.le_of_eq (congrArg len (state_insert_of_error memory hres)).symm
  | ok i =>
    have hitems := items_insert memory hres
    rw [← length_items, ← length_items, hitems]
    split
    next => exact Nat.le_refl _
    next =>
      rw [List.length_append]
      exact Nat.le_add_right ..

theorem len_reserve (memory : Memory) (b : Buffer) (additional : Nat) (vs : List UInt64) :
    (b.reserve memory additional vs).state.len = b.len := by
  cases hroom : (b.makeRoom memory additional).result with
  | error cause => rw [reserve_of_error memory hroom, len_makeRoom]
  | ok =>
    rw [reserve_of_ok memory hroom]
    exact len_makeRoom ..

theorem len_le_commit (b : Buffer) (count : Nat) : b.len ≤ (b.commit count).state.len := by
  unfold commit
  split
  next hle => exact Nat.le_min.2 ⟨Nat.le_add_right .., b.len_le_capacity⟩
  next => exact Nat.le_refl _

theorem len_le_step_of_tidy {op : Op} (hop : op ≠ .destroy) (htidy : op.Tidy) (memory : Memory)
    (b : Buffer) : b.len ≤ (b.step memory op).state.len := by
  cases op with
  | destroy => exact absurd rfl hop
  | swapErase | erase | clear => exact htidy.elim
  | push v => exact len_le_append memory b [v]
  | append vs => exact len_le_append memory b vs
  | insert v => exact len_le_insert memory b v
  | reserve additional vs => exact Nat.le_of_eq (len_reserve memory b additional vs).symm
  | commit count => exact len_le_commit b count
  | moveToBack v => exact Nat.le_of_eq (len_moveToBack b v).symm
  | moveToFront v => exact Nat.le_of_eq (len_moveToFront b v).symm
  | policy | len | capacity | isEmpty | items | get | contains | find | display | describe =>
    exact Nat.le_refl _

/-- Without leftovers the mark is the boundary. -/
theorem mark_next_of_tidy {h : History} {b : Buffer} {op : Op} (htidy : op.Tidy)
    (hmark : h.mark = b.len) (memory : Memory) :
    (h.next b op (b.step memory op)).mark = (b.step memory op).state.len := by
  by_cases hop : op = .destroy
  · subst hop
    rfl
  cases hres : (b.step memory op).result with
  | error cause => rw [History.next_of_error hop hres, state_step_of_error hres, hmark]
  | ok reply =>
    have hle := len_le_step_of_tidy hop htidy memory b
    have hwritten : op.written = 0 := by
      cases op with
      | reserve additional vs => exact List.length_eq_zero_iff.2 htidy
      | _ => rfl
    rw [History.next_of_ok hop hres, hwritten, hmark]
    exact (Nat.max_eq_right (Nat.le_trans hle (Nat.le_max_left ..))).trans (Nat.max_eq_left hle)

/-! ### Runs -/

/-- Made without slots, or from a list. -/
inductive Made : Buffer → Prop
  | empty (policy : Policy) : Made (.empty policy)
  | ofList (vs : List UInt64) : Made (.ofList vs)

theorem Made.marked {b : Buffer} (h : b.Made) :
    Marked (History.start b).mark (History.start b).values b := by
  cases h with
  | empty policy => exact marked_empty policy
  | ofList vs =>
    rw [History.start, items_ofList]
    exact marked_ofList vs

theorem Marked.final {s : Buffer × History} (hs : Marked s.2.mark s.2.values s.1)
    (calls : List (Memory × Op)) :
    Marked (Run.final stepTracked s calls).2.mark (Run.final stepTracked s calls).2.values
      (Run.final stepTracked s calls).1 := by
  refine Run.final_induction stepTracked
    (P := fun s : Buffer × History => Marked s.2.mark s.2.values s.1) ?_ hs
  intro s call _ hs
  exact hs.step call.1 call.2

/-- The history makes no difference to the buffer. -/
theorem final_stepTracked (s : Buffer × History) (calls : List (Memory × Op)) :
    (Run.final stepTracked s calls).1 = Run.final stepIn s.1 calls := by
  have hstep (t : Buffer × History) (call : Memory × Op) (_ : call ∈ calls) :
      stepIn t.1 call = (stepTracked t call).within Prod.fst := rfl
  obtain ⟨-, hfinal⟩ := Run.run_within stepTracked hstep s
  exact hfinal.symm

theorem mark_final_of_tidy {s : Buffer × History} (hs : s.2.mark = s.1.len)
    {calls : List (Memory × Op)} (hcalls : ∀ call ∈ calls, call.2.Tidy) :
    (Run.final stepTracked s calls).2.mark = (Run.final stepTracked s calls).1.len := by
  refine Run.final_induction stepTracked (P := fun s : Buffer × History => s.2.mark = s.1.len) ?_ hs
  intro s call hcall hs
  exact mark_next_of_tidy (hcalls call hcall) hs call.1

/-- A value of a history was there at first, or some operation that succeeded supplied it. -/
theorem exists_supplier {s : Buffer × History} {calls : List (Memory × Op)} {v : UInt64}
    (h : v ∈ (Run.final stepTracked s calls).2.values) :
    v ∈ s.2.values ∨
      ∃ before call after, calls = before ++ call :: after ∧ v ∈ call.2.supplied ∧
        ∃ reply, ((Run.final stepIn s.1 before).stepIn call).result = .ok reply := by
  induction calls generalizing s with
  | nil => exact .inl h
  | cons call calls ih =>
    rcases ih h with hnext | ⟨before, later, after, rfl, hv, hok⟩
    · rcases History.mem_values_next hnext with hfirst | ⟨hv, hok⟩
      · exact .inl hfirst
      · exact .inr ⟨[], call, calls, rfl, hv, hok⟩
    · exact .inr ⟨call :: before, later, after, rfl, hv, hok⟩

theorem Marked.spare_eq_zero {values : List UInt64} {b : Buffer} (h : Marked b.len values b) :
    ∀ v ∈ b.spare, v = 0 := by
  intro v hv
  obtain ⟨j, hj⟩ := List.mem_iff_getElem?.1 hv
  rw [spare, List.getElem?_drop, Array.getElem?_toList] at hj
  exact h.zero_of_ge _ v hj (Nat.le_add_right ..)

theorem Marked.window_eq_zeros {values : List UInt64} {b : Buffer} (h : Marked b.len values b)
    {memory : Memory} {additional : Nat} {vs window : List UInt64}
    (hok : (b.reserve memory additional vs).result = .ok window) :
    window = List.replicate additional 0 := by
  obtain ⟨⟨_, hroom⟩, rfl⟩ := Outcome.result_andThen_eq_ok.1 hok
  have hmarked := h.makeRoom memory additional
  rw [← len_makeRoom memory b additional] at hmarked
  obtain ⟨henough, -⟩ := makeRoom_of_ok memory hroom
  rw [List.eq_replicate_iff]
  constructor
  · rw [List.length_take, length_spare, len_makeRoom]
    omega
  · intro v hv
    exact hmarked.spare_eq_zero v (List.mem_of_mem_take hv)

/-- The slots beyond the mark hold zero in every state of a run, and no slot holds anything but zero
and what was supplied since the buffer was made or last destroyed. So a window shows zeros where
nothing was removed and no other window written, and what a buffer held when it was destroyed never
comes back. -/
theorem Made.high_water {b : Buffer} (h : b.Made) :
    (∀ calls : List (Memory × Op),
      (Run.final stepTracked (b, .start b) calls).1 = Run.final stepIn b calls ∧
      Marked (Run.final stepTracked (b, .start b) calls).2.mark
        (Run.final stepTracked (b, .start b) calls).2.values (Run.final stepIn b calls)) ∧
    (∀ calls : List (Memory × Op), (∀ call ∈ calls, call.2.Tidy) →
      ∀ (memory : Memory) (additional : Nat) (vs window : List UInt64),
        ((Run.final stepIn b calls).reserve memory additional vs).result = .ok window →
        window = List.replicate additional 0) ∧
    ∀ (c : Buffer) (memory : Memory) (calls : List (Memory × Op)),
      ∀ v ∈ (Run.final stepIn (c.step memory .destroy).state calls).slots, v = 0 ∨
        ∃ before call after, calls = before ++ call :: after ∧ v ∈ call.2.supplied ∧
          ∃ reply, ((Run.final stepIn (c.step memory .destroy).state before).stepIn call).result =
            .ok reply := by
  have hmarked (calls : List (Memory × Op)) := h.marked.final (s := (b, .start b)) calls
  simp only [final_stepTracked] at hmarked
  refine ⟨?_, ?_, ?_⟩
  · intro calls
    exact ⟨final_stepTracked _ calls, hmarked calls⟩
  · intro calls hcalls memory additional vs window hok
    have hmark := mark_final_of_tidy (s := (b, .start b)) rfl hcalls
    rw [final_stepTracked] at hmark
    have hlen := hmarked calls
    rw [hmark] at hlen
    exact hlen.window_eq_zeros hok
  · intro c memory calls v hv
    have hempty := (marked_empty c.policy).final (s := (c.destroy, ⟨0, []⟩)) calls
    rw [final_stepTracked] at hempty
    rcases hempty.zero_or_mem v hv with hzero | hvalue
    · exact .inl hzero
    · rcases exists_supplier hvalue with hnone | hsupplier
      · cases hnone
      · exact .inr hsupplier

/-- The swap leaves a `9` behind, the window is written over it and a commit takes in the next zero.
Tidy calls leave zeros to show, and after a destroy the same calls are all that counts. -/
theorem high_water_committed :
    let calls : List (Memory × Op) :=
      [(.upTo 8, .append [5, 9]), (.upTo 8, .swapErase 5), (.upTo 8, .reserve 3 [4]),
        (.upTo 8, .commit 2)]
    let tidy : List (Memory × Op) := [(.upTo 8, .append [5, 9]), (.upTo 8, .push 4)]
    Made .empty ∧ (∀ call ∈ tidy, call.2.Tidy) ∧
      Run.final stepIn .empty calls = ⟨#[9, 4, 0, 0], 3, {}, by decide⟩ ∧
      Marked 3 [5, 9, 4] (Run.final stepIn .empty calls) ∧
      ((Run.final stepIn .empty tidy).reserve (.upTo 8) 2 [6]).result = .ok [0, 0] ∧
      [0, 0] = List.replicate 2 (0 : UInt64) ∧
      4 ∈ (Run.final stepIn ((ofList [4]).step (.upTo 8) .destroy).state calls).slots ∧
      ((4 : UInt64) = 0 ∨ ∃ before call after, calls = before ++ call :: after ∧
        4 ∈ call.2.supplied ∧ ∃ reply, ((Run.final stepIn
          ((ofList [4]).step (.upTo 8) .destroy).state before).stepIn call).result = .ok reply) := by
  intro calls tidy
  have hmade : Made .empty := .empty {}
  have htidy : ∀ call ∈ tidy, call.2.Tidy := by
    rw [List.forall_mem_cons, List.forall_mem_singleton]
    exact ⟨trivial, trivial⟩
  have hwindow : ((Run.final stepIn .empty tidy).reserve (.upTo 8) 2 [6]).result = .ok [0, 0] := rfl
  have hslot : (Run.final stepIn ((ofList [4]).step (.upTo 8) .destroy).state calls).slots[1]? =
      some 4 := rfl
  have hfour := Array.mem_of_getElem? hslot
  obtain ⟨hmarked, hzeros, hdestroyed⟩ := hmade.high_water
  obtain ⟨-, hcalls⟩ := hmarked calls
  rw [show (Run.final stepTracked (empty, .start empty) calls).2 = ⟨3, [5, 9, 4]⟩ from rfl] at hcalls
  exact ⟨hmade, htidy, by decide, hcalls, hwindow, hzeros tidy htidy (.upTo 8) 2 [6] [0, 0] hwindow,
    hfour, hdestroyed (ofList [4]) (.upTo 8) calls 4 hfour⟩

end Buffer

end SlotBuffer
