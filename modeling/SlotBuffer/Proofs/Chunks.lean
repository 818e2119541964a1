import Mathlib.Data.List.Forall2
import SlotBuffer.Proofs.Budget

/-! Values appended in chunks. A buffer that takes values in chunks doubles where one that takes them
at once jumps, so the two need not agree on their capacity, nor on what the memory refuses them. The
items they end up with are the same all the same. Under a limit that the memory can cover the two
also fail together, the one with nothing done, the other behind the last chunk that still fitted. -/

namespace SlotBuffer

variable {memory : Memory} {limit : CapacityLimit}

namespace Buffer

variable {b : Buffer} {vs : List UInt64} {chunks : List (List UInt64)} {ops : List Op}

/-- The operation adds this chunk of values: any as a whole, a single value also by itself. -/
inductive Op.Appends : Op → List UInt64 → Prop
  | append (vs : List UInt64) : Appends (.append vs) vs
  | push (v : UInt64) : Appends (.push v) [v]

theorem Op.Appends.step_eq {op : Op} (h : op.Appends vs) (memory : Memory) (b : Buffer) :
    b.step memory op = (b.append memory vs).map fun _ => .unit := by
  cases h <;> rfl

/-- By which operations the chunks are added makes no difference. -/
theorem untilFailure_appends (h : List.Forall₂ Op.Appends ops chunks) (memory : Memory)
    (b : Buffer) :
    Run.untilFailure (step memory) b ops = Run.untilFailure (append memory) b chunks := by
  induction h generalizing b with
  | nil => rfl
  | cons hop _ ih =>
    rw [Run.untilFailure_cons, Run.untilFailure_cons, hop.step_eq, Outcome.map_followedBy]
    exact congrArg _ (funext ih)

theorem items_appends (h : (Run.untilFailure (append memory) b chunks).result = .ok ()) :
    (Run.untilFailure (append memory) b chunks).state.items = b.items ++ chunks.flatten := by
  induction chunks generalizing b with
  | nil => simp [Outcome.done]
  | cons vs chunks ih =>
    rw [Run.untilFailure_cons] at h ⊢
    cases hvs : (b.append memory vs).result with
    | error cause =>
      rw [Outcome.followedBy_of_error hvs] at h
      cases h
    | ok =>
      rw [Outcome.followedBy_of_ok hvs] at h ⊢
      rw [ih h, items_append memory hvs, List.flatten_cons, List.append_assoc]

/-! ### Chunks under a limit -/

theorem Limited.append (h : b.Limited memory limit) (vs : List UInt64) :
    (b.append memory vs).state.Limited memory limit := h.step (.append vs)

theorem append_ok_iff (h : b.Limited memory limit) :
    (b.append memory vs).result = .ok () ↔ b.len + vs.length ≤ limit.slots := by
  rw [← CapacityLimit.verdict_eq_ok_iff, ← verdict_append h, Outcome.verdict_eq_ok_iff]
  exact ⟨fun hok => ⟨(), hok⟩, fun ⟨_, hok⟩ => hok⟩

/-- Either all chunks fit, or the first that does not is where the run ends. -/
theorem Limited.appends_cases (h : b.Limited memory limit) (chunks : List (List UInt64)) :
    let run := Run.untilFailure (Buffer.append memory) b chunks
    (run.result = .ok () ∧ b.len + chunks.flatten.length ≤ limit.slots) ∨
    (∃ cause, run.result = .error cause) ∧
      ∃ done vs rest, chunks = done ++ vs :: rest ∧
        b.len + done.flatten.length ≤ limit.slots ∧
        limit.slots < b.len + done.flatten.length + vs.length ∧
        run.state.items = b.items ++ done.flatten := by
  induction chunks generalizing b with
  | nil => exact .inl ⟨rfl, h.len_le⟩
  | cons vs chunks ih =>
    intro run
    cases hvs : (b.append memory vs).result with
    | error cause =>
      have hrun : run = ⟨.error cause, _, _⟩ := Outcome.followedBy_of_error hvs
      have hroom : limit.slots < b.len + vs.length := by
        rw [← Nat.not_le, ← append_ok_iff h, hvs]
        simp
      rw [hrun]
      refine .inr ⟨⟨cause, rfl⟩, [], vs, chunks, rfl, h.len_le, hroom, ?_⟩
      simp [state_append_of_error memory hvs]
    | ok =>
      have hitems := items_append memory hvs
      have hlen : (b.append memory vs).state.len = b.len + vs.length := by
        rw [← length_items, hitems, List.length_append, length_items]
      have hrun : run = _ := Outcome.followedBy_of_ok hvs
      rw [hrun]
      rcases ih (h.append vs) with ⟨hok, hroom⟩ | ⟨hfail, done, vs', rest, rfl, hfit, hover, hdone⟩
      · refine .inl ⟨hok, ?_⟩
        simpa [hlen, Nat.add_assoc] using hroom
      · refine .inr ⟨hfail, vs :: done, vs', rest, rfl, ?_, ?_, ?_⟩
        · simpa [hlen, Nat.add_assoc] using hfit
        · simpa [hlen, Nat.add_assoc] using hover
        · simp [hdone, hitems]

/-- However values are cut into chunks, and whether single ones come as chunks or by themselves,
the items are in the end those before and the values. Where a limit is all that stands in the way,
the chunks are all added just when the values could be added at once. If not, the items are those
before and all chunks up to the one that passes the limit, while adding the values at once leaves
the buffer as it was. -/
theorem Reachable.chunking {origin : Memory} (h : b.Reachable origin) (memory : Memory)
    (hops : List.Forall₂ Op.Appends ops chunks) :
    let whole := b.append memory chunks.flatten
    let chunked := Run.untilFailure (step memory) b ops
    (whole.result = .ok () → whole.state.items = b.items ++ chunks.flatten) ∧
    (chunked.result = .ok () → chunked.state.items = b.items ++ chunks.flatten) ∧
    ∀ limit, b.policy.limit = some limit → memory.Covers limit →
      (whole.result = .ok () ↔ chunked.result = .ok ()) ∧
      ∀ cause, chunked.result = .error cause →
        ∃ done vs rest, chunks = done ++ vs :: rest ∧
          b.len + done.flatten.length ≤ limit.slots ∧
          limit.slots < b.len + done.flatten.length + vs.length ∧
          chunked.state.items = b.items ++ done.flatten ∧ whole.state = b := by
  intro whole chunked
  have hchunked : chunked = Run.untilFailure (Buffer.append memory) b chunks :=
    untilFailure_appends hops memory b
  rw [hchunked]
  refine ⟨items_append memory, items_appends, ?_⟩
  intro limit hlimit hcovers
  have hb : b.Limited memory limit := ⟨hcovers, h.bounded, hlimit⟩
  have hwhole : whole.result = .ok () ↔ b.len + chunks.flatten.length ≤ limit.slots :=
    append_ok_iff hb
  rcases hb.appends_cases chunks with
    ⟨hok, hfit⟩ | ⟨⟨cause, hfail⟩, done, vs, rest, hsplit, hfit, hover, hdone⟩
  · refine ⟨iff_of_true (hwhole.2 hfit) hok, ?_⟩
    intro cause hfail
    rw [hok] at hfail
    cases hfail
  · have hlong : limit.slots < b.len + chunks.flatten.length := by
      rw [hsplit, List.flatten_append, List.flatten_cons, List.length_append, List.length_append]
      omega
    have hrefused : whole.result ≠ .ok () := mt hwhole.1 (Nat.not_le.2 hlong)
    refine ⟨iff_of_false hrefused (by simp [hfail]), ?_⟩
    intro _ _
    refine ⟨done, vs, rest, hsplit, hfit, hover, hdone, ?_⟩
    cases hres : whole.result with
    | error cause => exact state_append_of_error memory hres
    | ok => exact absurd hres hrefused

/-- One of three values still fits behind two items, and is an item when the chunk of the other two
fails. Added at once not even that one is. -/
theorem chunking_clamped :
    let b := Registers.clamped 0
    let ops := [.append [], .push 6, .append [7, 8], .append []]
    let chunked := Run.untilFailure (step (.upTo 8)) b ops
    b.Reachable (.upTo 8) ∧ b.items = [5, 4] ∧ b.policy.limit.map (·.slots) = some 3 ∧
      List.Forall₂ Op.Appends ops [[], [6], [7, 8], []] ∧
      chunked.result = .error (.overLimit 5 3) ∧ chunked.state.items = [5, 4, 6] ∧
      (b.append (.upTo 8) [6, 7, 8]).result ≠ .ok () ∧
      (b.append (.upTo 8) [6, 7, 8]).state = b := by
  intro b ops chunked
  have hb : b.Reachable (.upTo 8) := ⟨_, 0, Registers.reachable_clamped, rfl⟩
  have hops : List.Forall₂ Op.Appends ops [[], [6], [7, 8], []] :=
    .cons (.append []) (.cons (.push 6) (.cons (.append [7, 8]) (.cons (.append []) .nil)))
  have hm : (Memory.upTo 8).Covers ⟨3, by decide, by decide⟩ := by
    intro slots hslots
    exact Memory.serves_upTo.2 (Nat.le_trans hslots (by decide))
  have hfail : chunked.result = .error (.overLimit 5 3) := rfl
  obtain ⟨-, -, hlimited⟩ := hb.chunking (.upTo 8) hops
  obtain ⟨hiff, hstop⟩ := hlimited _ rfl hm
  obtain ⟨-, -, -, -, -, -, -, hwhole⟩ := hstop _ hfail
  have hrefused : ¬ chunked.result = .ok () := by simp [hfail]
  have hitems : chunked.state.items = [5, 4, 6] := by decide
  have hflat : [[], [6], [7, 8], []].flatten = ([6, 7, 8] : List UInt64) := rfl
  rw [hflat] at hiff hwhole
  exact ⟨hb, rfl, rfl, hops, hfail, hitems, mt hiff.1 hrefused, hwhole⟩

end Buffer

end SlotBuffer
