import SlotBuffer.Proofs.Atomicity
import SlotBuffer.Proofs.Invariant

/-! A handle follows the buffer that it holds until the buffer is destroyed. Up to there a run is
the same on the buffer, on what a buffer shares with handles, and on the handle. From there on the
handle is absent: it answers as a buffer without slots does and turns every insertion down, while
the buffer may grow again under the policy that it had. -/

namespace SlotBuffer

/-! ### A buffer without slots -/

namespace Buffer

variable {memory : Memory} {policy : Policy} {vs : List UInt64}

theorem grow_empty {target : Nat} (hmax : target ≤ maxSlots)
    (hlimit : ∀ limit ∈ policy.limit, target ≤ limit.slots)
    (hserves : memory.serves target = true) :
    (empty policy).grow memory target =
      ⟨.ok (), (empty policy).enlarge target, [.grew 0 target policy.strategy]⟩ := by
  have hnext : (empty policy).policy.nextCapacity (empty policy).capacity target = target :=
    Policy.nextCapacity_zero hlimit
  rw [grow_of_serves memory (Nat.zero_le _) (Policy.exceeded?_eq_none_iff.2 hlimit)
    (by rwa [hnext]) (by rwa [hnext]), hnext]
  rfl

/-- It grows to just as many slots as are needed. -/
theorem append_empty (hvs : vs ≠ []) (hmax : vs.length ≤ maxSlots)
    (hlimit : ∀ limit ∈ policy.limit, vs.length ≤ limit.slots)
    (hserves : memory.serves vs.length = true) :
    (empty policy).append memory vs =
      ⟨.ok (), { ofList vs with policy }, [.grew 0 vs.length policy.strategy]⟩ := by
  have hpos : 0 < vs.length := List.length_pos_iff.2 hvs
  have hlen : (empty policy).len + vs.length = vs.length := Nat.zero_add _
  have hroom : (empty policy).makeRoom memory vs.length =
      ⟨.ok (), (empty policy).enlarge vs.length, [.grew 0 vs.length policy.strategy]⟩ := by
    have hword : vs.length ≤ maxLength := Nat.le_trans hmax (by decide)
    rw [makeRoom_of_gt memory (by rwa [hlen]) (by rwa [hlen]), hlen]
    exact grow_empty hmax hlimit hserves
  have hstate : (((empty policy).enlarge vs.length).fill vs).advance vs.length =
      { ofList vs with policy } := by
    obtain ⟨hitems, hspare⟩ := ((empty policy).enlarge vs.length).views_fill_advance
      (by rw [len_enlarge, capacity_enlarge, hlen]; exact Nat.le_add_left ..)
    apply ext_views
    · rw [hitems, items_enlarge]
      exact (items_ofList vs).symm
    · rw [hspare, spare_enlarge, spare_empty, List.nil_append, List.drop_replicate, Nat.sub_self]
      exact (spare_ofList vs).symm
    · rfl
  rw [append_of_ok memory hvs (by rw [hroom]), hroom, hstate]

end Buffer

namespace ListLike

/-! ### Without a buffer -/

/-- The operation asks for a slot at least. -/
def Op.Inserts : Op → Prop
  | .reserve additional _ => additional ≠ 0
  | .append vs => vs ≠ []
  | .push _ | .insert _ => True
  | _ => False

instance : DecidablePred Op.Inserts
  | .reserve additional _ => inferInstanceAs (Decidable (additional ≠ 0))
  | .append vs => inferInstanceAs (Decidable (vs ≠ []))
  | .push _ | .insert _ => inferInstanceAs (Decidable True)
  | .len | .capacity | .isEmpty | .destroy | .find _ | .swapErase _ | .erase _ | .moveToBack _
  | .moveToFront _ => inferInstanceAs (Decidable False)

variable (memory : Memory)

theorem step_none_of_inserts {op : Op} (h : op.Inserts) :
    step memory (none : Handle) op = .failed none .absent := by
  cases op with
  | reserve additional vs =>
    have hn : additional ≠ 0 := h
    simp only [step, reserve, Handle.reserve, if_neg hn]
    rfl
  | append vs =>
    have hvs : vs ≠ [] := h
    simp only [step, append, Handle.append, List.isEmpty_iff, if_neg hvs]
    rfl
  | push | insert => rfl
  | len | capacity | isEmpty | destroy | find | swapErase | erase | moveToBack | moveToFront =>
    exact absurd h id

/-- Where nothing is inserted, a buffer without slots stays as it is and an absent handle does as
it does. -/
theorem step_of_not_inserts (policy : Policy) {op : Op} (h : ¬ op.Inserts) :
    (step memory (Buffer.empty policy) op).state = .empty policy ∧
      step memory (none : Handle) op =
        (step memory (Buffer.empty policy) op).within fun _ => none := by
  cases op with
  | reserve additional vs =>
    obtain rfl : additional = 0 := Decidable.not_not.1 h
    exact ⟨rfl, rfl⟩
  | append vs =>
    obtain rfl : vs = [] := Decidable.not_not.1 h
    exact ⟨rfl, rfl⟩
  | push | insert => exact absurd trivial h
  | len | capacity | isEmpty | destroy | find | swapErase | erase | moveToBack | moveToFront =>
    exact ⟨rfl, rfl⟩

/-- Insertions are turned down without a word, and anything else is answered as a buffer without
slots answers it. -/
def absentOutcome (policy : Policy) (op : Op) : Outcome Handle Reply :=
  if op.Inserts then .failed none .absent
  else (step memory (Buffer.empty policy) op).within fun _ => none

theorem step_none (policy : Policy) (op : Op) :
    step memory (none : Handle) op = absentOutcome memory policy op := by
  unfold absentOutcome
  split
  next h => exact step_none_of_inserts memory h
  next h => exact (step_of_not_inserts memory policy h).2

/-! ### Runs -/

theorem outcomes_buffer (b : Buffer) (ops : List Op) :
    Run.outcomes (step memory) b ops =
      Run.outcomes (Buffer.step memory) b (ops.map Op.onBuffer) := by
  rw [Run.outcomes_map]
  congr 1
  funext b op
  exact step_buffer memory b op

theorem outcomes_none (policy : Policy) (ops : List Op) :
    Run.outcomes (step memory) (none : Handle) ops = ops.map (absentOutcome memory policy) := by
  rw [Run.outcomes_of_fixed _ fun op _ => state_step_none memory op]
  apply List.map_congr_left
  intro op _
  exact step_none memory policy op

variable {ops : List Op}

theorem run_some (h : .destroy ∉ ops) (b : Buffer) :
    Run.outcomes (step memory) (some b : Handle) ops =
        (Run.outcomes (step memory) b ops).map (·.within some) ∧
      Run.final (step memory) (some b : Handle) ops = some (Run.final (step memory) b ops) := by
  apply Run.run_within
  intro b op hop
  rw [step_some memory b (ne_of_mem_of_not_mem hop h), step_buffer]

theorem policy_final (b : Buffer) (ops : List Op) :
    (Run.final (step memory) b ops).policy = b.policy := by
  refine Run.final_induction (P := fun c : Buffer => c.policy = b.policy) _ ?_ rfl
  intro c op _ hc
  rw [step_buffer, Buffer.policy_step, hc]

/-- A run on a buffer is the same whether it is asked as a list or as a buffer, and so is a run on
the handle that holds it, until the buffer is destroyed. After that the handle is absent for good,
and the buffer is one without slots which has kept its policy and can grow under it. -/
theorem handle_follows (b : Buffer) :
    (∀ ops : List Op, Run.outcomes (step memory) b ops =
      Run.outcomes (Buffer.step memory) b (ops.map Op.onBuffer)) ∧
    (∀ ops : List Op, .destroy ∉ ops → Run.outcomes (step memory) (some b : Handle) ops =
      (Run.outcomes (step memory) b ops).map (·.within some)) ∧
    (∀ before after : List Op, .destroy ∉ before →
      Run.outcomes (step memory) (some b : Handle) (before ++ .destroy :: after) =
        (Run.outcomes (step memory) b before).map (·.within some) ++
          .done none .unit :: after.map (absentOutcome memory b.policy)) ∧
    (∀ before : List Op,
      Run.final (step memory) b (before ++ [.destroy]) = Buffer.empty b.policy) ∧
    (∀ op : Op, ¬ op.Inserts →
      (step memory (Buffer.empty b.policy) op).state = Buffer.empty b.policy) ∧
    ∀ vs : List UInt64, vs ≠ [] → vs.length ≤ maxSlots →
      (∀ limit ∈ b.policy.limit, vs.length ≤ limit.slots) → memory.serves vs.length = true →
      (Buffer.empty b.policy).append memory vs =
        ⟨.ok (), { Buffer.ofList vs with policy := b.policy },
          [.grew 0 vs.length b.policy.strategy]⟩ := by
  refine ⟨outcomes_buffer memory b, ?_, ?_, ?_, ?_, ?_⟩
  · intro ops hops
    exact (run_some memory hops b).1
  · intro before after hbefore
    obtain ⟨houtcomes, hfinal⟩ := run_some memory hbefore b
    rw [Run.outcomes_append, houtcomes, hfinal, Run.outcomes_cons]
    congr 2
    exact outcomes_none memory b.policy after
  · intro before
    rw [Run.final_append, ← policy_final memory b before]
    rfl
  · intro op hop
    exact (step_of_not_inserts memory b.policy hop).1
  · intro vs hvs hmax hlimit hserves
    exact Buffer.append_empty hvs hmax hlimit hserves

/-- The limit turns the third insertion down, and the handle the last one. -/
theorem handle_follows_clamped :
    .destroy ∉ [Op.erase 9, .push 7, .insert 6] ∧
      (Run.outcomes (step (.upTo 8)) (some (Registers.clamped 1) : Handle)
        ([.erase 9, .push 7, .insert 6] ++ .destroy :: [.find 5, .append [], .insert 5])).map
        (fun o => (o.result, o.log)) =
      [(.ok (.index (some 1)), []), (.ok .unit, []), (.error (.overLimit 4 3), [.overLimit 4 3]),
        (.ok .unit, []), (.ok (.index none), []), (.ok .unit, []), (.error .absent, [])] ∧
      ((Buffer.empty (Registers.clamped 1).policy).append (.upTo 8) [5, 9]).log =
        [.grew 0 2 .copying] := by
  have hbefore : .destroy ∉ [Op.erase 9, .push 7, .insert 6] := by decide
  obtain ⟨-, -, hrun, -, -, hgrow⟩ := handle_follows (.upTo 8) (Registers.clamped 1)
  refine ⟨hbefore, ?_, ?_⟩
  · rw [hrun _ _ hbefore]
    rfl
  · rw [hgrow [5, 9] (by decide) (by decide) (by decide) (by decide)]
    rfl

end ListLike

end SlotBuffer
