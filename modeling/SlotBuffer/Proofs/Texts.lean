import Mathlib
import SlotBuffer.Proofs.Equality
import SlotBuffer.Script.Session

/-! What the texts of a buffer tell. The text of its items can be read back: between the brackets it
is cut at every comma with a blank, and the pieces are the items in decimals. A description stands
on one line or in a block, but its words are the same, and they tell the items, the capacity and the
policy. Two buffers have the same text exactly when they agree in what it tells. -/

namespace SlotBuffer

namespace Text

/-! ### Reading items -/

/-- Reads a word of 64 bits in decimals. -/
def readWord? (s : String) : Option UInt64 :=
  (s.toNat?.filter (· < UInt64.size)).map UInt64.ofNat

/-- What stands between brackets. -/
def inner? : List Char → Option (List Char)
  | '[' :: cs => if cs.getLast? = some ']' then some cs.dropLast else none
  | _ => none

/-- Cuts a text at every comma with a blank behind it. -/
def pieces : List Char → List (List Char)
  | [] => [[]]
  | ',' :: ' ' :: cs => [] :: pieces cs
  | c :: cs => (pieces cs).modifyHead (c :: ·)

/-- Brackets that meet hold no items, and otherwise every piece between them is one. -/
def readItems? (s : String) : Option (List UInt64) :=
  (inner? s.toList).bind fun cs =>
    if cs = [] then some [] else (pieces cs).mapM fun piece => readWord? (String.ofList piece)

theorem isDigit_of_mem_repr {n : Nat} {c : Char} (h : c ∈ n.repr.toList) : c.isDigit = true := by
  rw [Nat.toList_repr] at h
  exact Nat.isDigit_of_mem_toDigits (by decide) (by decide) h

theorem readWord?_repr (v : UInt64) : readWord? v.toNat.repr = some v := by
  have hv : v.toNat < UInt64.size := v.toNat_lt
  simp [readWord?, hv]

theorem inner?_bracketed (cs : List Char) : inner? ('[' :: (cs ++ [']'])) = some cs := by
  simp [inner?]

theorem pieces_cons {c : Char} (h : ',' ≠ c) (cs : List Char) :
    pieces (c :: cs) = (pieces cs).modifyHead (c :: ·) := by
  rw [pieces]
  rintro _ rfl
  exact absurd rfl h

theorem pieces_of_not_mem {cs : List Char} (h : ',' ∉ cs) : pieces cs = [cs] := by
  induction cs with
  | nil => rfl
  | cons c cs ih =>
    obtain ⟨hc, hcs⟩ : ',' ≠ c ∧ ',' ∉ cs := by simpa using h
    rw [pieces_cons hc, ih hcs]
    rfl

theorem pieces_append {cs : List Char} (h : ',' ∉ cs) (ds : List Char) :
    pieces (cs ++ ',' :: ' ' :: ds) = cs :: pieces ds := by
  induction cs with
  | nil => rfl
  | cons c cs ih =>
    obtain ⟨hc, hcs⟩ : ',' ≠ c ∧ ',' ∉ cs := by simpa using h
    rw [List.cons_append, pieces_cons hc, ih hcs]
    rfl

/-- Cutting undoes joining. -/
theorem pieces_intercalate {ps : List (List Char)} (hne : ps ≠ []) (h : ∀ p ∈ ps, ',' ∉ p) :
    pieces ([',', ' '].intercalate ps) = ps := by
  induction ps with
  | nil => exact absurd rfl hne
  | cons p ps ih =>
    obtain ⟨hp, hps⟩ := List.forall_mem_cons.1 h
    cases ps with
    | nil => rw [List.intercalate_singleton, pieces_of_not_mem hp]
    | cons q qs =>
      rw [List.intercalate_cons_cons, List.append_assoc, List.cons_append, List.singleton_append,
        pieces_append hp, ih (List.cons_ne_nil _ _) hps]

theorem mapM_readWord? (vs : List UInt64) :
    (vs.map fun v => v.toNat.repr.toList).mapM (fun piece => readWord? (String.ofList piece)) =
      some vs := by
  induction vs with
  | nil => rfl
  | cons v vs ih =>
    rw [List.map_cons, List.mapM_cons, ih, String.ofList_toList, readWord?_repr]
    rfl

theorem readItems?_showItems (vs : List UInt64) :
    readItems? (showItems .inline 0 vs) = some vs := by
  cases vs with
  | nil => rfl
  | cons v vs =>
    let ps := (v :: vs).map fun v => v.toNat.repr.toList
    have htext : (showItems .inline 0 (v :: vs)).toList =
        '[' :: ([',', ' '].intercalate ps ++ [']']) := by
      simp [showItems, Layout.group, String.toList_intercalate, ps, Function.comp_def]
    have hcomma : ∀ p ∈ ps, ',' ∉ p := by
      intro p hp hmem
      obtain ⟨w, -, rfl⟩ := List.mem_map.1 hp
      exact absurd (isDigit_of_mem_repr hmem) (by decide)
    have hpieces : pieces ([',', ' '].intercalate ps) = ps :=
      pieces_intercalate (List.cons_ne_nil _ _) hcomma
    -- Nothing would be cut into one empty piece, and no decimal is empty.
    have hne : [',', ' '].intercalate ps ≠ [] := by
      intro hnil
      rw [hnil] at hpieces
      have hrepr : [] = v.toNat.repr.toList := (List.cons.inj hpieces).1
      exact Nat.toDigits_ne_nil (Nat.toList_repr.symm.trans hrepr.symm)
    rw [readItems?, htext, inner?_bracketed, Option.bind_some, if_neg hne, hpieces,
      mapM_readWord?]

example : readItems? "[5, 9, 5]" = some [5, 9, 5] := by cbv

/-! ### Words -/

/-- A character that stands between words and in none of them. -/
def isMark (c : Char) : Bool := !(c.isAlphanum || c == '_')

def wordsIn (cs : List Char) : List String :=
  ((cs.splitOnP isMark).filter (!·.isEmpty)).map String.ofList

/-- The words of a text, in order. -/
def words (s : String) : List String := wordsIn s.toList

/-- The empty text counts too, as it does for `endsMarked` and `onlyMarks`. -/
def startsMarked (s : String) : Bool := s.toList.head?.all isMark

def endsMarked (s : String) : Bool := s.toList.getLast?.all isMark

def onlyMarks (s : String) : Bool := s.toList.all isMark

@[simp] theorem wordsIn_nil : wordsIn [] = [] := rfl

/-- A mark parts the words before it from those behind it. -/
theorem wordsIn_append_cons {c : Char} (hc : isMark c = true) (xs ys : List Char) :
    wordsIn (xs ++ c :: ys) = wordsIn xs ++ wordsIn ys := by
  simp [wordsIn, List.splitOnP_append_cons xs ys hc]

/-- No word runs over a mark. -/
theorem words_append {s t : String} (h : endsMarked s = true ∨ startsMarked t = true) :
    words (s ++ t) = words s ++ words t := by
  simp only [words, String.toList_append]
  rcases h with hs | ht
  · rcases List.eq_nil_or_concat s.toList with hnil | ⟨xs, c, hlast⟩
    · simp [hnil]
    · have hc : isMark c = true := by simpa [endsMarked, hlast] using hs
      rw [hlast, List.concat_eq_append, List.append_assoc, List.singleton_append,
        wordsIn_append_cons hc, wordsIn_append_cons hc, wordsIn_nil, List.append_nil]
  · cases hhead : t.toList with
    | nil => simp
    | cons c ys =>
      have hc : isMark c = true := by simpa [startsMarked, hhead] using ht
      have hys : wordsIn (c :: ys) = wordsIn ys := wordsIn_append_cons hc [] ys
      rw [wordsIn_append_cons hc, hys]

theorem wordsIn_of_marks {cs : List Char} (h : ∀ c ∈ cs, isMark c = true) :
    wordsIn cs = [] := by
  induction cs with
  | nil => rfl
  | cons c cs ih =>
    obtain ⟨hc, hcs⟩ := List.forall_mem_cons.1 h
    exact (wordsIn_append_cons hc [] cs).trans (ih hcs)

theorem words_of_onlyMarks {m : String} (h : onlyMarks m = true) : words m = [] :=
  wordsIn_of_marks (List.all_eq_true.1 h)

theorem startsMarked_of_onlyMarks {m : String} (h : onlyMarks m = true) :
    startsMarked m = true := by
  rw [startsMarked, Option.all_eq_true]
  intro c hc
  exact List.all_eq_true.1 h c (List.mem_of_mem_head? hc)

theorem endsMarked_of_onlyMarks {m : String} (h : onlyMarks m = true) : endsMarked m = true := by
  rw [endsMarked, Option.all_eq_true]
  intro c hc
  exact List.all_eq_true.1 h c (List.mem_of_mem_getLast? hc)

theorem words_append_marks {m : String} (h : onlyMarks m = true) (s : String) :
    words (s ++ m) = words s := by
  rw [words_append (.inr (startsMarked_of_onlyMarks h)), words_of_onlyMarks h, List.append_nil]

theorem words_marks_append {m : String} (h : onlyMarks m = true) (s : String) :
    words (m ++ s) = words s := by
  rw [words_append (.inl (endsMarked_of_onlyMarks h)), words_of_onlyMarks h, List.nil_append]

theorem words_between {m : String} (h : onlyMarks m = true) (hne : m ≠ "") (s t : String) :
    words (s ++ m ++ t) = words s ++ words t := by
  have hends : endsMarked (s ++ m) = true := by
    have hm : m.toList ≠ [] := by simpa using hne
    rw [endsMarked, String.toList_append, List.getLast?_append_of_ne_nil _ hm]
    exact endsMarked_of_onlyMarks h
  rw [words_append (.inl hends), words_append_marks h]

theorem words_repr (n : Nat) : words n.repr = [n.repr] := by
  have hdigits : ∀ c ∈ n.repr.toList, isMark c = false := by
    intro c hc
    simp [isMark, Char.isAlphanum, isDigit_of_mem_repr hc]
  rw [words, wordsIn, List.splitOnP_eq_singleton hdigits]
  simp [Nat.repr_eq_ofList_toDigits]

/-! ### Words of a layout -/

theorem onlyMarks_indent (depth : Nat) : onlyMarks (Layout.indent depth) = true := by
  induction depth with
  | zero => rfl
  | succ depth ih =>
    rw [onlyMarks, Layout.indent, String.toList_append, List.all_append]
    exact Bool.and_eq_true_iff.2 ⟨by decide, ih⟩

theorem words_intercalate (parts : List String) :
    words (", ".intercalate parts) = parts.flatMap words := by
  induction parts with
  | nil => rfl
  | cons part parts ih =>
    cases parts with
    | nil => simp
    | cons next parts =>
      rw [String.intercalate_cons_cons, words_between (by decide) (by decide), ih]
      exact List.flatMap_cons.symm

theorem words_lines (depth : Nat) (parts : List String) :
    words (Layout.lines depth parts) = parts.flatMap words := by
  induction parts with
  | nil => rfl
  | cons part parts ih =>
    rw [Layout.lines, words_between (by decide) (by decide),
      words_marks_append (onlyMarks_indent depth), ih, List.flatMap_cons]

/-- A group shows the same words in every layout and at every level. -/
theorem words_group {layout : Layout} {depth : Nat} {opening closing pad : String}
    (hopening : endsMarked opening = true) (hclosing : onlyMarks closing = true)
    (hpad : onlyMarks pad = true) (parts : List String) :
    words (layout.group depth opening closing pad parts) =
      words opening ++ parts.flatMap words := by
  cases parts with
  | nil =>
    rw [Layout.group, words_append_marks hclosing]
    simp
  | cons part parts =>
    cases layout with
    | inline =>
      rw [Layout.group, words_append_marks hclosing, words_append_marks hpad, String.append_assoc,
        words_append (.inl hopening), words_marks_append hpad, words_intercalate]
      exact List.cons_ne_nil _ _
    | block =>
      rw [Layout.group, words_append_marks hclosing, words_append_marks (onlyMarks_indent depth),
        words_between (by decide) (by decide), words_lines]
      exact List.cons_ne_nil _ _

/-! ### Words of a description -/

theorem words_showItems (layout : Layout) (depth : Nat) (vs : List UInt64) :
    words (showItems layout depth vs) = vs.map fun v => v.toNat.repr := by
  have hbracket : words "[" = [] := by decide
  rw [showItems, words_group (by decide) (by decide) (by decide), hbracket, List.flatMap_map]
  simp only [words_repr]
  exact List.map_eq_flatMap.symm

def limitWords : Option CapacityLimit → List String
  | none => ["None"]
  | some limit => ["Some", limit.slots.repr]

theorem words_showLimit (layout : Layout) (depth : Nat) (limit : Option CapacityLimit) :
    words (Policy.showLimit layout depth limit) = limitWords limit := by
  cases limit with
  | none =>
    show words "None" = ["None"]
    decide
  | some limit =>
    have hopening : words "Some(" = ["Some"] := by decide
    rw [Policy.showLimit, words_group (by decide) (by decide) (by decide), hopening,
      List.flatMap_singleton, words_repr]
    rfl

def policyWords (policy : Policy) : List String :=
  ["Config", "strategy", policy.strategy.name, "max_capacity"] ++ limitWords policy.limit

theorem words_describePolicy (policy : Policy) (layout : Layout) (depth : Nat) :
    words (policy.describe layout depth) = policyWords policy := by
  have hopening : words "Config \x7b" = ["Config"] := by decide
  have hstrategy : words ("strategy: " ++ policy.strategy.name) =
      ["strategy", policy.strategy.name] := by
    cases policy.strategy <;> decide
  have hlimit : words "max_capacity: " = ["max_capacity"] := by decide
  rw [Policy.describe, words_group (by decide) (by decide) (by decide), hopening,
    List.flatMap_cons, List.flatMap_singleton, hstrategy, words_append (.inl (by decide)), hlimit,
    words_showLimit]
  rfl

/-- What a description tells, apart from its layout. -/
def recordWords (items : List UInt64) (capacity : Nat) (policy : Policy) : List String :=
  ["IndexBuf", "items"] ++ items.map (fun v => v.toNat.repr) ++
    ["capacity", capacity.repr, "config"] ++ policyWords policy

theorem words_describe (b : Buffer) (layout : Layout) :
    words (b.describe layout) = recordWords b.items b.capacity b.policy := by
  have hopening : words "IndexBuf \x7b" = ["IndexBuf"] := by decide
  have hitems : words "items: " = ["items"] := by decide
  have hcapacity : words "capacity: " = ["capacity"] := by decide
  have hconfig : words "config: " = ["config"] := by decide
  rw [Buffer.describe, describeParts, words_group (by decide) (by decide) (by decide), hopening,
    List.flatMap_cons, List.flatMap_cons, List.flatMap_singleton,
    words_append (.inl (by decide)), hitems, words_showItems,
    words_append (.inl (by decide)), hcapacity, words_repr,
    words_append (.inl (by decide)), hconfig, words_describePolicy]
  simp [recordWords]

/-! ### What the words tell -/

theorem decimal_injective : Function.Injective fun v : UInt64 => v.toNat.repr := by
  intro v w h
  exact UInt64.toNat_inj.1 (Nat.repr_inj.1 h)

theorem limitWords_injective : Function.Injective limitWords := by
  intro limit limit' h
  have hword : "None" ≠ "Some" := by decide
  match limit, limit' with
  | none, none => rfl
  | none, some _ => exact absurd (List.cons.inj h).1 hword
  | some _, none => exact absurd (List.cons.inj h).1 hword.symm
  | some limit, some limit' =>
    have hslots : limit.slots = limit'.slots := by simpa [limitWords, Nat.repr_inj] using h
    cases limit
    cases limit'
    simpa using hslots

theorem policyWords_injective : Function.Injective policyWords := by
  rintro ⟨strategy, limit⟩ ⟨strategy', limit'⟩ h
  obtain ⟨hname, hlimit⟩ :
      strategy.name = strategy'.name ∧ limitWords limit = limitWords limit' := by
    simpa [policyWords] using h
  rw [Strategy.name_inj.1 hname, limitWords_injective hlimit]

theorem repr_ne_capacity (n : Nat) : n.repr ≠ "capacity" := by
  intro h
  have hc : 'c' ∈ n.repr.toList := by
    rw [h]
    decide
  exact absurd (isDigit_of_mem_repr hc) (by decide)

theorem capacity_not_mem_policyWords (policy : Policy) : "capacity" ∉ policyWords policy := by
  obtain ⟨strategy, limit⟩ := policy
  cases strategy <;> cases limit <;>
    simp [policyWords, limitWords, Strategy.name, (repr_ne_capacity _).symm]

/-- The word before the capacity occurs nowhere else, so it ends the items. -/
theorem parts_eq_of_recordWords_eq {items items' : List UInt64} {capacity capacity' : Nat}
    {policy policy' : Policy}
    (h : recordWords items capacity policy = recordWords items' capacity' policy') :
    items = items' ∧ capacity = capacity' ∧ policy = policy' := by
  have hitems : "capacity" ∉ items.map fun v => v.toNat.repr := by
    intro hmem
    obtain ⟨v, -, hv⟩ := List.mem_map.1 hmem
    exact repr_ne_capacity _ hv
  have hrest : "capacity" ∉ capacity.repr :: "config" :: policyWords policy := by
    simp [(repr_ne_capacity _).symm, capacity_not_mem_policyWords]
  simp only [recordWords, List.append_assoc, List.cons_append, List.nil_append, List.cons.injEq,
    true_and] at h
  obtain ⟨hvalues, -, htail⟩ := (List.append_cons_inj_of_notMem hitems hrest).1 h
  obtain ⟨hcapacity, htail⟩ := List.cons.inj htail
  obtain ⟨-, hpolicy⟩ := List.cons.inj htail
  exact ⟨List.map_injective_iff.2 decimal_injective hvalues, Nat.repr_inj.1 hcapacity,
    policyWords_injective hpolicy⟩

end Text

/-! ### Texts and buffers -/

namespace Buffer

variable {a b : Buffer}

theorem display_eq_iff : a.display = b.display ↔ a == b := by
  rw [beq_iff]
  constructor
  · intro h
    have hread := congrArg Text.readItems? h
    rw [display, display, Text.readItems?_showItems, Text.readItems?_showItems] at hread
    exact Option.some.inj hread
  · intro h
    rw [display, h, display]

theorem text_eq_iff : Script.text a = Script.text b ↔ a == b := by
  rw [Script.text, Script.text, String.append_left_inj, String.append_right_inj, display_eq_iff]

theorem describe_eq_iff (layout : Layout) :
    a.describe layout = b.describe layout ↔
      a.items = b.items ∧ a.capacity = b.capacity ∧ a.policy = b.policy := by
  constructor
  · intro h
    have hwords := congrArg Text.words h
    rw [Text.words_describe, Text.words_describe] at hwords
    exact Text.parts_eq_of_recordWords_eq hwords
  · rintro ⟨hitems, hcapacity, hpolicy⟩
    rw [describe, hitems, hcapacity, hpolicy, describe]

theorem display_eq_brackets_iff : b.display = "[]" ↔ b.isEmpty := by
  have hempty : Buffer.empty.display = "[]" := rfl
  rw [← hempty, display_eq_iff, beq_iff, items_empty, ← List.length_eq_zero_iff, length_items,
    isEmpty, beq_iff_eq]

/-- Two buffers have the same list text, by itself or as a script shows it, exactly when they are
equal, and the same description exactly when they have the same items, capacity and policy, whatever
the layout. The items can be read off the list text, which is a pair of brackets when there are
none. -/
theorem texts_identify :
    (∀ a b : Buffer,
      (a.display = b.display ↔ a == b) ∧
      (Script.text a = Script.text b ↔ a == b) ∧
      (∀ layout, a.describe layout = b.describe layout ↔
        a.items = b.items ∧ a.capacity = b.capacity ∧ a.policy = b.policy) ∧
      (a.describe .inline = b.describe .inline ↔ a.describe .block = b.describe .block)) ∧
    ∀ b : Buffer,
      Script.ask b .text {} = .ok (.text (Script.text b)) ∧
      Text.readItems? b.display = some b.items ∧
      (b.display = "[]" ↔ b.isEmpty) := by
  constructor
  · intro a b
    refine ⟨display_eq_iff, text_eq_iff, describe_eq_iff, ?_⟩
    rw [describe_eq_iff, describe_eq_iff]
  · intro b
    exact ⟨rfl, Text.readItems?_showItems b.items, display_eq_brackets_iff⟩

end Buffer

end SlotBuffer
