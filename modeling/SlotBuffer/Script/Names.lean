import SlotBuffer.Script.Value

/-! What a script finds when it loads the library. Under each name there is one thing, a class or
the version of the compiler that built the library. The strategies are values of their class, which
a script can tell apart by text and by integer. -/

namespace SlotBuffer.Script

inductive Offer
  | buffer
  | policy
  | strategy
  | compilerVersion
deriving DecidableEq

namespace Offer

def name : Offer → String
  | .buffer => "IndexBuf"
  | .policy => "Config"
  | .strategy => "GrowthStrategy"
  | .compilerVersion => "__rustc_version__"

def isClass : Offer → Bool
  | .buffer | .policy | .strategy => true
  | .compilerVersion => false

end Offer

/-- In the order in which they are registered. -/
def offers : List Offer := [.buffer, .policy, .strategy, .compilerVersion]

/-- What the library offers under a name. -/
def offer? (name : String) : Option Offer := offers.find? (·.name = name)

theorem offer?_eq_some_iff {name : String} {o : Offer} : offer? name = some o ↔ o.name = name := by
  constructor
  · intro h
    simpa using List.find?_some h
  · rintro rfl
    cases o <;> decide

/-- The classes, in alphabetical order. -/
def classes : List String := ((offers.filter (·.isClass)).map (·.name)).mergeSort

theorem mem_classes {name : String} : name ∈ classes ↔ ∃ o, offer? name = some o ∧ o.isClass := by
  have hall (o : Offer) : o ∈ offers := by cases o <;> decide
  simp [classes, offer?_eq_some_iff, hall, and_comm]

def carriesCompilerVersion : Bool := (offer? "__rustc_version__").isSome

/-! ### Strategies -/

def strategies : List Strategy := [.inPlace, .copying]

/-- The integer that stands for a strategy. -/
def strategyCode : Strategy → Int
  | .inPlace => 0
  | .copying => 1

/-- It is the place of the strategy among all of them. -/
theorem getElem?_strategyCode (s : Strategy) : strategies[(strategyCode s).toNat]? = some s := by
  cases s <;> rfl

theorem strategyCode_inj {s t : Strategy} : strategyCode s = strategyCode t ↔ s = t := by
  cases s <;> cases t <;> decide

def strategyText (s : Strategy) : String := "GrowthStrategy." ++ s.name

theorem strategyText_inj {s t : Strategy} : strategyText s = strategyText t ↔ s = t :=
  (String.append_right_inj _).trans Strategy.name_inj

/-- A strategy equals itself and its integer. -/
def strategyEquals (s : Strategy) : Value → Bool
  | .strategy t => s = t
  | v => v.int? = some (strategyCode s)

theorem strategyEquals_iff {s : Strategy} {v : Value} :
    strategyEquals s v ↔ v = .strategy s ∨ v.int? = some (strategyCode s) := by
  cases v <;> simp [strategyEquals, Value.int?, eq_comm]

/-- No value equals two of them. -/
theorem eq_of_strategyEquals {s t : Strategy} {v : Value} (hs : strategyEquals s v)
    (ht : strategyEquals t v) : s = t := by
  rcases strategyEquals_iff.1 hs with rfl | hs
  · rcases strategyEquals_iff.1 ht with ht | ht
    · cases ht
      rfl
    · cases ht
  · rcases strategyEquals_iff.1 ht with rfl | ht
    · cases hs
    · exact strategyCode_inj.1 (Option.some.inj (hs.symm.trans ht))

end SlotBuffer.Script
