import SlotBuffer.Buffer.Insert
import SlotBuffer.Script.Runtime

/-! The two things a script can make: a policy, and a buffer with a policy and its first items. An
argument may be made in the call itself, and where that fails, so does the call. -/

namespace SlotBuffer.Script

def orRaise {α : Type} : Except Failure α → Except Exception α :=
  Except.mapError .failure

theorem exists_of_orRaise_map_eq_ok {α β : Type} {r : Except Failure α} {f : α → β} {b : β}
    (h : orRaise (r.map f) = .ok b) : ∃ a, r = .ok a ∧ f a = b := by
  cases r with
  | ok a => exact ⟨a, rfl, Except.ok.inj h⟩
  | error cause => cases h

variable {Object : Type} [Runtime Object]

/-- The strategy may be left out, but where it is given it is a strategy. -/
def newPolicy (args : Arguments Object) : Except Exception Policy := do
  let (strategy, limit) ← args.two "strategy" "max_capacity"
  let strategy ← (strategy.mapM Runtime.toStrategy : Except Exception (Option Strategy))
  let limit ← optional Runtime.toWord limit
  orRaise ((Policy.make (strategy.getD .inPlace) (limit.map (·.toNat))).mapError .invalidLimit)

def newBuffer (memory : Memory) (args : Arguments Object) : Except Exception Buffer := do
  let (values, policy) ← args.two "values" "config"
  let values ← optional Runtime.toWords values
  let policy ← optional Runtime.toPolicy policy
  let outcome := (Buffer.empty (policy.getD {})).append memory (values.getD [])
  orRaise (outcome.result.map fun _ => outcome.state)

/-! ### Terms -/

/-- An argument as written: an object, or a list, tuple or policy to be made first. -/
inductive Term (Object : Type := Value)
  | value (v : Object)
  | list (ts : List (Term Object))
  | tuple (ts : List (Term Object))
  | policy (positional : List (Term Object)) (named : List (String × Term Object))

mutual

def Term.eval : Term Object → Except Exception Object
  | .value v => .ok v
  | .list ts => return Runtime.ofList (← evalAll ts)
  | .tuple ts => return Runtime.ofTuple (← evalAll ts)
  | .policy positional named => do
    let positional ← evalAll positional
    let named ← evalNamed named
    return Runtime.ofPolicy (← newPolicy { positional, named })

def evalAll : List (Term Object) → Except Exception (List Object)
  | [] => .ok []
  | t :: ts => return (← t.eval) :: (← evalAll ts)

def evalNamed : List (String × Term Object) → Except Exception (List (String × Object))
  | [] => .ok []
  | (name, t) :: ts => return (name, ← t.eval) :: (← evalNamed ts)

end

structure TermArguments (Object : Type := Value) where
  positional : List (Term Object) := []
  named : List (String × Term Object) := []

def TermArguments.eval (args : TermArguments Object) : Except Exception (Arguments Object) := do
  let positional ← evalAll args.positional
  let named ← evalNamed args.named
  return { positional, named }

end SlotBuffer.Script
