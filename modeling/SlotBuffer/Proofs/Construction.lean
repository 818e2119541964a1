import SlotBuffer.Proofs.Equality
import SlotBuffer.Proofs.FailureConditions
import SlotBuffer.Proofs.Handles
import SlotBuffer.Proofs.Values
import SlotBuffer.Script.Construct

/-! The ways to make a buffer of a list: to take the list over, to add it to a buffer without slots,
and to ask for it in a script, with or without a policy. All make the same buffer, which has the
list for its items and no spare slot. Turned into a list again, a buffer gives its items, and a
buffer made of them equals it. -/

namespace SlotBuffer

/-! ### Adding a list to a buffer without slots -/

namespace Buffer

variable {memory : Memory} {policy : Policy} {vs : List UInt64} {n : Nat}

theorem len_empty_add (policy : Policy) (n : Nat) : (empty policy).len + n = n := Nat.zero_add n

theorem short_empty (hpos : 0 < n) (hmax : n ≤ maxSlots) : (empty policy).contents.Short n := by
  rw [short_contents, len_empty_add]
  exact ⟨Nat.le_trans hmax (by decide), hpos⟩

theorem within_empty :
    (empty policy).contents.Within n ↔ ∀ limit ∈ policy.limit, n ≤ limit.slots := by
  rw [within_contents, len_empty_add]
  rfl

theorem grownCapacity_empty (h : ∀ limit ∈ policy.limit, n ≤ limit.slots) :
    (empty policy).contents.grownCapacity n = n := by
  rw [← Contents.nextCapacity_eq_grownCapacity, length_items_contents, len_empty_add]
  exact Policy.nextCapacity_zero h

theorem append_empty_refused (hvs : vs ≠ []) (hmax : vs.length ≤ maxSlots)
    (h : ¬ ((∀ limit ∈ policy.limit, vs.length ≤ limit.slots) ∧ memory.serves vs.length = true)) :
    ∃ cause, ((empty policy).append memory vs).result = .error cause := by
  suffices hrefused : ∃ cause, (empty policy).contents.Refused memory vs.length cause by
    obtain ⟨cause, hcause⟩ := hrefused
    exact ⟨cause, (append_eq_error_iff hvs).2 hcause⟩
  have hshort : (empty policy).contents.Short vs.length :=
    short_empty (List.length_pos_iff.2 hvs) hmax
  by_cases hlimit : ∀ limit ∈ policy.limit, vs.length ≤ limit.slots
  · have hgrown := grownCapacity_empty hlimit
    have hserves : memory.serves vs.length = false :=
      Bool.eq_false_iff.2 fun hserves => h ⟨hlimit, hserves⟩
    exact ⟨_, .exhausted hshort (within_empty.2 hlimit) (by rwa [hgrown]) (by rwa [hgrown])⟩
  · obtain ⟨limit, hl, hlt⟩ : ∃ limit ∈ policy.limit, limit.slots < vs.length := by
      simpa using hlimit
    refine ⟨_, .overLimit hshort hl ?_⟩
    rwa [length_items_contents, len_empty_add]

/-- No slots are needed for no values, and otherwise as many as there are values. -/
theorem append_empty_ok_iff (hmax : vs.length ≤ maxSlots) :
    ((empty policy).append memory vs).result = .ok () ↔
      (∀ limit ∈ policy.limit, vs.length ≤ limit.slots) ∧
        (vs = [] ∨ memory.serves vs.length = true) := by
  by_cases hvs : vs = []
  · subst hvs
    exact iff_of_true rfl ⟨fun limit _ => Nat.zero_le _, .inl rfl⟩
  · rw [or_iff_right hvs]
    constructor
    · intro hok
      apply Classical.byContradiction
      intro hnot
      obtain ⟨cause, herror⟩ := append_empty_refused hvs hmax hnot
      rw [hok] at herror
      cases herror
    · rintro ⟨hlimit, hserves⟩
      rw [append_empty hvs hmax hlimit hserves]

/-- The buffer that is left has the values and nothing else. -/
theorem state_append_empty (hmax : vs.length ≤ maxSlots)
    (hok : ((empty policy).append memory vs).result = .ok ()) :
    ((empty policy).append memory vs).state = { ofList vs with policy } := by
  obtain ⟨hlimit, hserves⟩ := (append_empty_ok_iff hmax).1 hok
  by_cases hvs : vs = []
  · subst hvs
    rfl
  · rw [append_empty hvs hmax hlimit (hserves.resolve_left hvs)]

end Buffer

namespace Script

variable {Object : Type}

/-! ### Arguments -/

/-- The arguments of two parameters that may be left out: by position, the one by position and the
other by name, or both by name. -/
inductive Arguments.GivesTwo (first second : String) :
    Arguments Object → Option Object → Option Object → Prop
  | positional (v w : Object) : GivesTwo first second ⟨[v, w], []⟩ (some v) (some w)
  | mixed (v : Object) {named : List (String × Object)} (hnames : ∀ p ∈ named, p.1 = second) :
      GivesTwo first second ⟨[v], named⟩ (some v) (named.lookup second)
  | named {named : List (String × Object)} (hnames : ∀ p ∈ named, p.1 = first ∨ p.1 = second) :
      GivesTwo first second ⟨[], named⟩ (named.lookup first) (named.lookup second)

/-- What an argument stands for that may be left out or be null. -/
inductive StandsFor [Reading Object] {α : Type} (Is : Object → α → Prop) (default : α) :
    Option Object → α → Prop
  | absent : StandsFor Is default none default
  | null {v : Object} (h : Reading.isNull v = true) : StandsFor Is default (some v) default
  | given {v : Object} {a : α} (h : Is v a) : StandsFor Is default (some v) a

/-- The call asks for a policy with this strategy and this limit. -/
def AsksForPolicy [Reading Object] (args : Arguments Object) (strategy : Strategy)
    (limit : Option UInt64) : Prop :=
  ∃ v w, args.GivesTwo "strategy" "max_capacity" v w ∧
    (v = none ∧ strategy = .inPlace ∨ ∃ o, v = some o ∧ IsStrategy o strategy) ∧
    StandsFor (fun o l => ∃ n, IsWord o n ∧ l = some n) none w limit

/-- The call asks for a buffer with these items and this policy. -/
def AsksFor [Reading Object] (args : Arguments Object) (vs : List UInt64)
    (policy : Policy) : Prop :=
  ∃ values config, args.GivesTwo "values" "config" values config ∧
    StandsFor IsWords [] values vs ∧ StandsFor IsPolicy {} config policy

section

variable {first second : String} {named : List (String × Object)}

theorem lookup_filter_ne (hne : first ≠ second) :
    (named.filter (·.1 ≠ first)).lookup second = named.lookup second := by
  induction named with
  | nil => rfl
  | cons p named ih =>
    rw [List.filter_cons, List.lookup_cons, ← ih]
    split
    next => exact List.lookup_cons
    next hp =>
      obtain rfl : p.1 = first := by simpa using hp
      rw [beq_eq_false_iff_ne.2 hne.symm]

/-- The last parameter takes what is left. -/
theorem fills_last (h : ∀ p ∈ named, p.1 = second) :
    Fills [⟨second, false⟩] [] named [named.lookup second] := by
  have hfilter : named.filter (·.1 ≠ second) = [] := by simpa [List.filter_eq_nil_iff] using h
  cases hw : named.lookup second with
  | none =>
    obtain rfl : named = [] := by
      rw [List.eq_nil_iff_forall_not_mem]
      intro p hp
      have := List.lookup_eq_none_iff.1 hw p hp
      simp [h p hp] at this
    exact .omitted hw rfl .nil
  | some w =>
    refine .named hw ?_
    rw [hfilter]
    exact .nil

/-- The first parameter is filled before the last one. -/
theorem fills_of_gives {args : Arguments Object} {v w : Option Object} (hne : first ≠ second)
    (h : args.GivesTwo first second v w) :
    Fills [⟨first, false⟩, ⟨second, false⟩] args.positional args.named [v, w] := by
  cases h with
  | positional v w => exact .positional rfl (.positional rfl .nil)
  | @mixed v named hnames =>
    -- what is given by position must not be given by name as well
    have hnone : named.lookup first = none := by
      rw [List.lookup_eq_none_iff]
      intro p hp
      rw [hnames p hp]
      exact bne_iff_ne.2 hne
    exact .positional hnone (fills_last hnames)
  | @named named hnames =>
    cases hv : named.lookup first with
    | none =>
      have hrest : ∀ p ∈ named, p.1 = second := by
        intro p hp
        have hne' := List.lookup_eq_none_iff.1 hv p hp
        exact (hnames p hp).resolve_left (bne_iff_ne.1 hne').symm
      exact .omitted hv rfl (fills_last hrest)
    | some v =>
      have hrest : ∀ p ∈ named.filter (·.1 ≠ first), p.1 = second := by
        intro p hp
        obtain ⟨hmem, hne'⟩ := List.mem_filter.1 hp
        exact (hnames p hmem).resolve_left (by simpa using hne')
      rw [← lookup_filter_ne hne]
      exact .named hv (fills_last hrest)

end

variable [Runtime Object] [Reading Object]

theorem two_of_gives (laws : Lawful Object) {first second : String} {args : Arguments Object}
    {v w : Option Object} (hne : first ≠ second) (h : args.GivesTwo first second v w) :
    args.two first second = .ok (v, w) := by
  rw [Arguments.two, ((laws.bind _ args).ok_iff _).2 (fills_of_gives hne h)]
  rfl

theorem optional_of_isNull (laws : Lawful Object) {α : Type}
    {convert : Object → Except Exception α} {v : Object} (h : Reading.isNull v = true) :
    optional convert (some v) = .ok none := by
  rw [optional, laws.option, if_pos h]

theorem optional_of_ok (laws : Lawful Object) {α : Type} {convert : Object → Except Exception α}
    {v : Object} {a : α} (hv : ¬ Reading.isNull v = true) (h : convert v = .ok a) :
    optional convert (some v) = .ok (some a) := by
  rw [optional, laws.option, if_neg hv, h]
  rfl

theorem optional_of_standsFor (laws : Lawful Object) {α : Type}
    {convert : Object → Except Exception α} {Is : Object → α → Prop}
    {No : Object → Exception → Prop} {default a : α} {v : Option Object}
    (hconvert : ∀ v, Decided (convert v) (Is v) (No v))
    (hnull : ∀ v, Reading.isNull v = true → ∀ a, ¬ Is v a) (h : StandsFor Is default v a) :
    ∃ o, optional convert v = .ok o ∧ o.getD default = a := by
  cases h with
  | absent => exact ⟨none, rfl, rfl⟩
  | null h => exact ⟨none, optional_of_isNull laws h, rfl⟩
  | @given v a h =>
    exact ⟨some a, optional_of_ok laws (fun hv => hnull v hv a h) (((hconvert v).ok_iff a).2 h),
      rfl⟩

theorem not_isWord_of_isNull (laws : Lawful Object) {v : Object} (hv : Reading.isNull v = true)
    (w : UInt64) : ¬ IsWord v w := by
  intro h
  rw [IsWord, (laws.null v hv).1] at h
  cases h

theorem not_isWords_of_isNull (laws : Lawful Object) (v : Object) (hv : Reading.isNull v = true)
    (ws : List UInt64) : ¬ IsWords v ws := by
  rintro ⟨xs, hxs, -⟩
  rw [(laws.null v hv).2.1] at hxs
  cases hxs

theorem not_isPolicy_of_isNull (laws : Lawful Object) (v : Object) (hv : Reading.isNull v = true)
    (p : Policy) : ¬ IsPolicy v p := by
  intro h
  rw [IsPolicy, (laws.null v hv).2.2] at h
  cases h

/-! ### Policies -/

theorem newPolicy_of_asksForPolicy (laws : Lawful Object) {args : Arguments Object}
    {strategy : Strategy} {limit : Option UInt64} (h : AsksForPolicy args strategy limit) :
    newPolicy args =
      orRaise ((Policy.make strategy (limit.map (·.toNat))).mapError .invalidLimit) := by
  obtain ⟨v, w, hargs, hstrategy, hlimit⟩ := h
  have hv : ∃ o, (v.mapM Runtime.toStrategy : Except Exception (Option Strategy)) = .ok o ∧
      o.getD .inPlace = strategy := by
    rcases hstrategy with ⟨rfl, rfl⟩ | ⟨o, rfl, ho⟩
    · exact ⟨none, rfl, rfl⟩
    · refine ⟨some strategy, ?_, rfl⟩
      rw [Option.mapM_some, ((laws.toStrategy o).ok_iff strategy).2 ho]
      rfl
  have hw : optional Runtime.toWord w = .ok limit := by
    cases hlimit with
    | absent => rfl
    | null h => exact optional_of_isNull laws h
    | given h =>
      obtain ⟨n, hn, rfl⟩ := h
      exact optional_of_ok laws (fun hnull => not_isWord_of_isNull laws hnull n hn)
        (((laws.toWord _).ok_iff n).2 hn)
  obtain ⟨o, ho, rfl⟩ := hv
  rw [newPolicy, two_of_gives laws (by decide) hargs]
  show (v.mapM Runtime.toStrategy >>= _) = _
  rw [ho]
  show (optional Runtime.toWord w >>= _) = _
  rw [hw]
  rfl

/-- A script gets the policy that it asks for, unless no allocation can have its limit. Then it gets
a value error, which keeps the text. -/
theorem newPolicy_decided (laws : Lawful Object) {args : Arguments Object} {strategy : Strategy}
    {limit : Option UInt64} (h : AsksForPolicy args strategy limit) :
    Decided (newPolicy args)
      (fun policy => policy.strategy = strategy ∧
        policy.limit.map (·.slots) = limit.map (·.toNat))
      fun e => ∃ cause, Policy.make strategy (limit.map (·.toNat)) = .error cause ∧
        e = .failure (.invalidLimit cause) ∧ e.kind = .value ∧ e.message? = some cause.message := by
  rw [newPolicy_of_asksForPolicy laws h]
  cases hmake : Policy.make strategy (limit.map (·.toNat)) with
  | ok policy =>
    constructor
    · intro p
      rw [← Policy.make_eq_ok_iff, hmake]
      exact ⟨fun h => congrArg Except.ok (Except.ok.inj h),
        fun h => congrArg Except.ok (Except.ok.inj h)⟩
    · intro e
      simp [orRaise, Except.mapError]
  | error cause =>
    constructor
    · intro p
      rw [← Policy.make_eq_ok_iff, hmake]
      simp [orRaise, Except.mapError]
    · intro e
      constructor
      · rintro ⟨⟩
        exact ⟨cause, rfl, rfl, rfl, rfl⟩
      · rintro ⟨_, ⟨⟩, rfl, -⟩
        rfl

/-! ### Constructions -/

variable {memory : Memory} {args : Arguments Object} {vs : List UInt64} {policy : Policy}

theorem newBuffer_of_asksFor (laws : Lawful Object) (h : AsksFor args vs policy) :
    newBuffer memory args =
      let outcome := (Buffer.empty policy).append memory vs
      orRaise (outcome.result.map fun _ => outcome.state) := by
  obtain ⟨values, config, hargs, hvalues, hconfig⟩ := h
  obtain ⟨ws, hws, rfl⟩ :=
    optional_of_standsFor laws laws.toWords (not_isWords_of_isNull laws) hvalues
  obtain ⟨p, hp, rfl⟩ :=
    optional_of_standsFor laws laws.toPolicy (not_isPolicy_of_isNull laws) hconfig
  rw [newBuffer, two_of_gives laws (by decide) hargs]
  show (optional Runtime.toWords values >>= _) = _
  rw [hws]
  show (optional Runtime.toPolicy config >>= _) = _
  rw [hp]
  rfl

theorem newBuffer_eq_ok_iff (laws : Lawful Object) (hmax : vs.length ≤ maxSlots)
    (h : AsksFor args vs policy) {b : Buffer} :
    newBuffer memory args = .ok b ↔
      ((∀ limit ∈ policy.limit, vs.length ≤ limit.slots) ∧
        (vs = [] ∨ memory.serves vs.length = true)) ∧
      b = { Buffer.ofList vs with policy } := by
  rw [newBuffer_of_asksFor laws h, ← Buffer.append_empty_ok_iff hmax]
  constructor
  · intro hok
    obtain ⟨_, hres, rfl⟩ := exists_of_orRaise_map_eq_ok hok
    exact ⟨hres, Buffer.state_append_empty hmax hres⟩
  · rintro ⟨hres, rfl⟩
    show orRaise (Except.map _ ((Buffer.empty policy).append memory vs).result) = _
    rw [← Buffer.state_append_empty hmax hres, hres]
    rfl

end Script

/-! ### Lists and buffers -/

theorem create_append {memory : Memory} {vs : List UInt64} (hmax : vs.length ≤ maxSlots)
    (hserves : vs = [] ∨ memory.serves vs.length = true) (regs : Registers) (r : Nat) :
    let cmds : List Command := [.create r, .on r (.append vs)]
    Run.final (Command.step memory) regs cmds r = .ofList vs ∧
      ∀ o ∈ Run.outcomes (Command.step memory) regs cmds, o.result = .ok .unit := by
  have hlimit : ∀ limit ∈ ({} : Policy).limit, vs.length ≤ limit.slots := nofun
  have hok := (Buffer.append_empty_ok_iff hmax).2 ⟨hlimit, hserves⟩
  have hempty : regs.set r .empty r = .empty := Registers.set_self regs r _
  refine ⟨?_, ?_⟩
  · show (regs.set r .empty).set r (((regs.set r .empty) r).append memory vs).state r = _
    rw [Registers.set_self, hempty]
    exact Buffer.state_append_empty hmax hok
  · simp only [Run.outcomes_cons, Run.outcomes_nil, List.forall_mem_cons]
    refine ⟨rfl, ?_, by simp⟩
    show (((regs.set r .empty r).append memory vs).map fun _ => Reply.unit).result = _
    rw [hempty]
    exact Outcome.result_map_eq_ok.2 ⟨(), hok, rfl⟩

/-- A copy is turned into a list and made anew, and is still equal to what it is a copy of. -/
theorem copy_rebuilt (memory : Memory) (regs : Registers) {r s : Nat} (hrs : r ≠ s) :
    let xs := (regs r).items
    let cmds : List Command := [.copy s r, .drain s, .adopt s xs, .compare s r]
    (Run.outcomes (Command.step memory) regs cmds).map (·.result) =
        [.ok .unit, .ok (.values xs), .ok .unit, .ok (.flag true)] ∧
      Run.final (Command.step memory) regs cmds s = .ofList xs := by
  intro xs cmds
  let copied := regs.set s (regs r)
  let rebuilt := (copied.set s .empty).set s (.ofList xs)
  have hcopied : copied s = regs r := Registers.set_self regs s _
  have hs : rebuilt s = .ofList xs := Registers.set_self _ s _
  have hr : rebuilt r = regs r := by
    show ((regs.set s (regs r)).set s .empty).set s (.ofList xs) r = _
    rw [Registers.set_of_ne _ _ hrs, Registers.set_of_ne _ _ hrs, Registers.set_of_ne _ _ hrs]
  have hequal : (rebuilt s == rebuilt r) = true := by
    rw [hs, hr]
    exact Buffer.beq_iff.2 (Buffer.items_ofList xs)
  refine ⟨?_, hs⟩
  show ([.ok .unit, .ok (.values (copied s).items), .ok .unit,
    .ok (.flag (rebuilt s == rebuilt r))] : List (Except Failure Reply)) = _
  rw [hcopied, hequal]

open Script

/-- A list that is taken over, added to a new buffer, or asked for in a script, makes one buffer, as
long as the memory has the slots. With a policy a script gets it just when the limit allows for as
many slots as there are values. Back from a buffer come its items, which end where the spare slots
start, and a buffer made of them equals the one that they are from. -/
theorem constructions_agree (memory : Memory) {vs : List UInt64} (hmax : vs.length ≤ maxSlots) :
    ((Buffer.ofList vs).items = vs ∧ (Buffer.ofList vs).capacity = vs.length ∧
      (Buffer.ofList vs).spare = [] ∧ (Buffer.ofList vs).policy = {}) ∧
    (vs = [] ∨ memory.serves vs.length = true →
      (∀ regs r, ((Command.adopt r vs).step memory regs).state r = .ofList vs) ∧
      (∀ regs r, let cmds : List Command := [.create r, .on r (.append vs)]
        Run.final (Command.step memory) regs cmds r = .ofList vs ∧
        ∀ o ∈ Run.outcomes (Command.step memory) regs cmds, o.result = .ok .unit) ∧
      ∀ args, AsksFor args vs {} → newBuffer memory args = .ok (.ofList vs)) ∧
    (∀ args policy, AsksFor args vs policy →
      ((∃ b, newBuffer memory args = .ok b) ↔
        (∀ limit ∈ policy.limit, vs.length ≤ limit.slots) ∧
          (vs = [] ∨ memory.serves vs.length = true)) ∧
      ∀ b, newBuffer memory args = .ok b → b = { Buffer.ofList vs with policy }) ∧
    (∀ regs r, (Run.outcomes (Command.step memory) regs [.adopt r vs, .drain r]).map (·.result) =
      [.ok .unit, .ok (.values vs)]) ∧
    ∀ (regs : Registers) (r s : Nat), r ≠ s →
      let xs := (regs r).items
      let cmds : List Command := [.copy s r, .drain s, .adopt s xs, .compare s r]
      let rebuilt := Run.final (Command.step memory) regs cmds s
      (∀ k, xs[k]? = if k < (regs r).len then (regs r).slots[k]? else none) ∧
      (Run.outcomes (Command.step memory) regs cmds).map (·.result) =
        [.ok .unit, .ok (.values xs), .ok .unit, .ok (.flag true)] ∧
      rebuilt.items = xs ∧ rebuilt.capacity = (regs r).len ∧ rebuilt.spare = [] := by
  refine ⟨?_, ?_, ?_, ?_, ?_⟩
  · exact ⟨Buffer.items_ofList vs, rfl, Buffer.spare_ofList vs, rfl⟩
  · intro hserves
    have hlimit : ∀ limit ∈ ({} : Policy).limit, vs.length ≤ limit.slots := nofun
    refine ⟨fun regs r => Registers.set_self regs r _, create_append hmax hserves, ?_⟩
    intro args h
    exact (newBuffer_eq_ok_iff Value.lawful hmax h).2 ⟨⟨hlimit, hserves⟩, rfl⟩
  · intro args policy h
    have hiff {b : Buffer} : newBuffer memory args = .ok b ↔ _ :=
      newBuffer_eq_ok_iff Value.lawful hmax h
    constructor
    · constructor
      · rintro ⟨b, hb⟩
        exact (hiff.1 hb).1
      · intro hfits
        exact ⟨_, hiff.2 ⟨hfits, rfl⟩⟩
    · intro b hb
      exact (hiff.1 hb).2
  · intro regs r
    show ([.ok .unit, .ok (.values (regs.set r (.ofList vs) r).items)] :
      List (Except Failure Reply)) = _
    rw [Registers.set_self, Buffer.items_ofList]
  · intro regs r s hrs xs cmds rebuilt
    obtain ⟨hresults, hfinal⟩ := copy_rebuilt memory regs hrs
    have hrebuilt : rebuilt = .ofList xs := hfinal
    refine ⟨?_, hresults, ?_⟩
    · intro k
      show ((regs r).slots.toList.take (regs r).len)[k]? = _
      rw [List.getElem?_take, Array.getElem?_toList]
    · rw [hrebuilt]
      exact ⟨Buffer.items_ofList xs, (regs r).length_items, Buffer.spare_ofList xs⟩

/-- Three values do not fit a limit of two slots, and a buffer that keeps a removed item in its third
slot is made anew with two. -/
theorem constructions_agree_clamped :
    let vs : List UInt64 := [5, 9, 5]
    let values : Value := .list [.int 5, .int 9, .int 5]
    let policy : Policy := ⟨.copying, some ⟨2, by decide, by decide⟩⟩
    vs.length ≤ maxSlots ∧ (Memory.upTo 8).serves vs.length = true ∧
      newBuffer (.upTo 8) ⟨[values], []⟩ = .ok (.ofList vs) ∧
      (¬ ∃ b, newBuffer (.upTo 8) ⟨[values], [("config", .policy policy)]⟩ = .ok b) ∧
      (Registers.clamped 0).capacity = 3 ∧
      (Run.outcomes (Command.step (.upTo 8)) .clamped
        [.copy 1 0, .drain 1, .adopt 1 (Registers.clamped 0).items, .compare 1 0]).map (·.result) =
        [.ok .unit, .ok (.values [5, 4]), .ok .unit, .ok (.flag true)] := by
  intro vs values policy
  have hmax : vs.length ≤ maxSlots := by decide
  have hserves : (Memory.upTo 8).serves vs.length = true := by decide
  have hwords : IsWords values vs := ⟨_, rfl, .cons rfl (.cons rfl (.cons rfl .nil))⟩
  have hplain : AsksFor ⟨[values], []⟩ vs {} :=
    ⟨some values, none, .mixed _ nofun, .given hwords, .absent⟩
  have hlimited : AsksFor ⟨[values], [("config", .policy policy)]⟩ vs policy :=
    ⟨some values, some (.policy policy), .mixed _ (by simp), .given hwords, .given rfl⟩
  obtain ⟨-, hroutes, hscript, -, hback⟩ := constructions_agree (.upTo 8) hmax
  obtain ⟨-, hresults, -⟩ := hback .clamped 0 1 (by decide)
  refine ⟨hmax, hserves, (hroutes (.inr hserves)).2.2 _ hplain, ?_, by decide, hresults⟩
  rw [(hscript _ _ hlimited).1]
  rintro ⟨hlimit, -⟩
  exact absurd (hlimit _ rfl) (by decide)

end SlotBuffer
