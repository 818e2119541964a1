import SlotBuffer.Buffer.Op
import SlotBuffer.Run

/-! Items in order of use. A move takes an item out of its place and puts it at one end, so that
only the last move of a value counts. After any number of moves, the items that went to the front
last are first, those that no move names keep their order in the middle, and those that went to the
back last are at the end. -/

namespace SlotBuffer

/-- Where a move puts an item. -/
inductive End
  | front
  | back
deriving DecidableEq

structure Move where
  value : UInt64
  target : End
deriving DecidableEq

namespace Move

def op : Move → Buffer.Op
  | ⟨v, .front⟩ => .moveToFront v
  | ⟨v, .back⟩ => .moveToBack v

/-- The items after a move. -/
def act (m : Move) (items : List UInt64) : List UInt64 :=
  if m.value ∈ items then
    match m.target with
    | .front => m.value :: items.erase m.value
    | .back => items.erase m.value ++ [m.value]
  else items

theorem act_perm (m : Move) (items : List UInt64) : (m.act items).Perm items := by
  unfold act
  split
  next h =>
    have hperm := (List.perm_cons_erase h).symm
    cases m.target with
    | front => exact hperm
    | back => exact (List.perm_append_singleton _ _).trans hperm
  next => exact .refl _

theorem act_of_not_mem {m : Move} {items : List UInt64} (h : m.value ∉ items) :
    m.act items = items := if_neg h

end Move

/-! ### The order that a run of moves leaves -/

/-- The values whose last move was to this end, in the order of these moves. -/
def lastMovedTo (e : End) : List Move → List UInt64
  | [] => []
  | m :: moves =>
    if m.target = e ∧ m.value ∉ moves.map Move.value then m.value :: lastMovedTo e moves
    else lastMovedTo e moves

/-- The items after some moves: those that moved to the front last, the latest first, then those
that never moved, and then those that moved to the back last, the latest last. -/
def recencyOrder (items : List UInt64) (moves : List Move) : List UInt64 :=
  (lastMovedTo .front moves).reverse.filter (· ∈ items) ++
    items.filter (· ∉ moves.map Move.value) ++
    (lastMovedTo .back moves).filter (· ∈ items)

section

variable {items : List UInt64} {v : UInt64} {moves : List Move}

@[simp] theorem recencyOrder_nil : recencyOrder items [] = items := by
  simp [recencyOrder, lastMovedTo]

theorem filter_not_mem_cons (h : items.Nodup) (M : List UInt64) :
    items.filter (· ∉ v :: M) = (items.erase v).filter (· ∉ M) := by
  rw [h.erase_eq_filter, List.filter_filter]
  apply List.filter_congr
  intro x _
  by_cases hx : x = v <;> simp [hx]

theorem lastMovedTo_cons_of_mem {e e' : End} (h : v ∈ moves.map Move.value) :
    lastMovedTo e (⟨v, e'⟩ :: moves) = lastMovedTo e moves :=
  if_neg fun hlast => hlast.2 h

/-- A value that is not there has no part in the order. -/
theorem recencyOrder_cons_of_not_mem {m : Move} (hv : m.value ∉ items) :
    recencyOrder items (m :: moves) = recencyOrder items moves := by
  have hlast (e : End) :
      (lastMovedTo e (m :: moves)).filter (· ∈ items) =
        (lastMovedTo e moves).filter (· ∈ items) := by
    rw [lastMovedTo]
    split <;> simp [hv]
  have hmiddle : items.filter (· ∉ (m :: moves).map Move.value) =
      items.filter (· ∉ moves.map Move.value) := by
    apply List.filter_congr
    intro x hx
    have hne : x ≠ m.value := ne_of_mem_of_not_mem hx hv
    simp [hne]
  rw [recencyOrder, List.filter_reverse, hlast, hlast, hmiddle, ← List.filter_reverse]
  rfl

/-- A move that comes first might as well have been made before the run. If the value moves once
more, then neither the place that it left nor the one that it took is seen in the end. -/
theorem recencyOrder_cons (h : items.Nodup) (m : Move) :
    recencyOrder items (m :: moves) = recencyOrder (m.act items) moves := by
  by_cases hv : m.value ∈ items
  · obtain ⟨v, e⟩ := m
    replace hv : v ∈ items := hv
    have hmem (x : UInt64) : x ∈ Move.act ⟨v, e⟩ items ↔ x ∈ items := (Move.act_perm _ _).mem_iff
    simp only [recencyOrder, hmem, List.map_cons, filter_not_mem_cons h]
    by_cases hlater : v ∈ moves.map Move.value
    · have hmiddle : (Move.act ⟨v, e⟩ items).filter (· ∉ moves.map Move.value) =
          (items.erase v).filter (· ∉ moves.map Move.value) := by
        cases e <;> simp [Move.act, hv, hlater, -List.mem_map]
      rw [hmiddle, lastMovedTo_cons_of_mem hlater, lastMovedTo_cons_of_mem hlater]
    · -- The value is next to the items that never move, on the side it went to.
      cases e with
      | front => simp [lastMovedTo, Move.act, hv, hlater, -List.mem_map]
      | back => simp [lastMovedTo, Move.act, hv, hlater, -List.mem_map]
  · rw [recencyOrder_cons_of_not_mem hv, Move.act_of_not_mem hv]

end

namespace Buffer

variable {b : Buffer}

theorem items_step_move (memory : Memory) (b : Buffer) (m : Move) :
    (b.step memory m.op).state.items = m.act b.items := by
  obtain ⟨v, e⟩ := m
  cases e with
  | front => exact b.items_moveToFront v
  | back => exact b.items_moveToBack_eq_erase v

theorem frame_step_move (memory : Memory) (b : Buffer) (m : Move) :
    (b.step memory m.op).state.len = b.len ∧
      (b.step memory m.op).state.capacity = b.capacity ∧
      (b.step memory m.op).state.spare = b.spare := by
  obtain ⟨v, e⟩ := m
  cases e with
  | front => exact ⟨b.len_moveToFront v, b.capacity_moveToFront v, b.spare_moveToFront v⟩
  | back => exact ⟨b.len_moveToBack v, b.capacity_moveToBack v, b.spare_moveToBack v⟩

/-- Moving a value that is no item does nothing at all. -/
theorem step_move_of_not_mem (memory : Memory) {m : Move} (h : m.value ∉ b.items) :
    b.step memory m.op = .done b .unit := by
  obtain ⟨v, e⟩ := m
  cases e with
  | front => rw [Move.op, step, moveToFront_of_not_mem h]
  | back => rw [Move.op, step, moveToBack_of_not_mem h]

/-- Items that are distinct are ordered by the last move of each. The moves of a value that is no
item do nothing, wherever in the run they come, and the slots behind the items stay as they are. -/
theorem recency_order (memory : Memory) (h : b.items.Nodup) (moves : List Move) :
    let c := Run.final (step memory) b (moves.map Move.op)
    c.items = recencyOrder b.items moves ∧ c.len = b.len ∧ c.capacity = b.capacity ∧
      c.spare = b.spare ∧
      ∀ m : Move, m.value ∉ b.items → c.step memory m.op = .done c .unit := by
  induction moves generalizing b with
  | nil => exact ⟨recencyOrder_nil.symm, rfl, rfl, rfl, fun m => step_move_of_not_mem memory⟩
  | cons m moves ih =>
    obtain ⟨hlen, hcapacity, hspare⟩ := frame_step_move memory b m
    have hperm : (b.step memory m.op).state.items.Perm b.items := by
      rw [items_step_move]
      exact m.act_perm b.items
    obtain ⟨hitems, hrest⟩ := ih (hperm.nodup_iff.2 h)
    rw [items_step_move, ← recencyOrder_cons h] at hitems
    rw [hlen, hcapacity, hspare] at hrest
    obtain ⟨hlen', hcapacity', hspare', habsent⟩ := hrest
    refine ⟨hitems, hlen', hcapacity', hspare', ?_⟩
    intro m' hm'
    exact habsent m' (mt hperm.mem_iff.1 hm')

/-- Of four items, `9` changes its end, `5` goes to the back twice and `4` stays between the two.
The value `8` is no item. -/
theorem recency_order_spare :
    let b : Buffer := { slots := #[5, 9, 4, 7, 1, 2], len := 4, len_le := by decide }
    let moves : List Move :=
      [⟨9, .back⟩, ⟨5, .back⟩, ⟨8, .front⟩, ⟨7, .front⟩, ⟨9, .front⟩, ⟨5, .back⟩]
    b.items.Nodup ∧ recencyOrder b.items moves = [9, 7, 4, 5] ∧
      (Run.final (step (.upTo 8)) b (moves.map Move.op)).items = [9, 7, 4, 5] ∧
      (Run.final (step (.upTo 8)) b (moves.map Move.op)).spare = [1, 2] := by
  intro b moves
  have h : b.items.Nodup := by decide
  have horder : recencyOrder b.items moves = [9, 7, 4, 5] := by decide
  obtain ⟨hitems, -, -, hspare, -⟩ := recency_order (.upTo 8) h moves
  exact ⟨h, horder, hitems.trans horder, hspare⟩

end Buffer

end SlotBuffer
