import SlotBuffer.Proofs.Checks
import SlotBuffer.Proofs.Equality
import SlotBuffer.Proofs.Sessions

/-! Subscripts. A signed word is an index just as it is one of a list: from the front when it is not
negative, and from the end when it is. The position is found on words without wrapping, even for the
least signed word, whose magnitude is no signed word. Reading at one index after the other until
there is an index error gives the items. -/

namespace SlotBuffer.Script

/-- The answer to a subscript. -/
def subscript (b : Buffer) (i : Int) : Except Exception Value :=
  ask b .item { positional := [.int i] }

/-! ### Positions on words -/

/-- The distance from zero, as a word without sign. -/
def magnitude (i : Int64) : UInt64 := i.abs.toUInt64

def wordPosition? (len : UInt64) (i : Int64) : Option UInt64 :=
  if 0 ≤ i then some (magnitude i)
  else if magnitude i ≤ len then some (len - magnitude i)
  else none

theorem toNat_magnitude (i : Int64) : (magnitude i).toNat = i.toInt.natAbs := by
  have hlt := i.toBitVec.isLt
  have habs : (magnitude i).toNat = i.toBitVec.abs.toNat := congrArg BitVec.toNat i.toBitVec_abs
  have hint : i.toInt = i.toBitVec.toInt := rfl
  rw [habs, hint, BitVec.toNat_abs, BitVec.toInt_eq_msb_cond]
  split <;> omega

/-- No step of the computation wraps. -/
theorem wordPosition?_word {len : Nat} (h : len ≤ maxLength) (i : Int64) :
    (wordPosition? (word len) i).map UInt64.toNat = position? len i.toInt := by
  have hsign : 0 ≤ i ↔ 0 ≤ i.toInt := Int64.le_iff_toInt_le
  have hmag := toNat_magnitude i
  have hlen := toNat_word h
  unfold wordPosition? position?
  by_cases hi : 0 ≤ i.toInt
  · rw [if_pos (hsign.2 hi), if_pos hi, Option.map_some, Option.some.injEq, hmag]
    omega
  · have hle : magnitude i ≤ word len ↔ i.toInt.natAbs ≤ len := by
      rw [UInt64.le_iff_toNat_le, hmag, hlen]
    rw [if_neg (mt hsign.1 hi), if_neg hi]
    by_cases hroom : i.toInt.natAbs ≤ len
    · rw [if_pos (hle.2 hroom), if_pos hroom, Option.map_some,
        UInt64.toNat_sub_of_le _ _ (hle.2 hroom), hmag, hlen]
    · rw [if_neg (mt hle.1 hroom), if_neg hroom, Option.map_none]

/-! ### Subscripts -/

variable {b : Buffer}

theorem toInt_within (i : Int64) :
    -(UInt64.size / 2) ≤ i.toInt ∧ i.toInt < UInt64.size / 2 := ⟨i.le_toInt, i.toInt_lt⟩

theorem subscript_eq (b : Buffer) {i : Int} (hi : -(UInt64.size / 2) ≤ i ∧ i < UInt64.size / 2) :
    subscript b i = (item b i).map .word := by
  let args : Arguments := { positional := [.int i] }
  have hargs : Accepted args.GivesUnnamed IsIndex i := ⟨.int i, rfl, rfl, hi⟩
  have hconvert := ((Value.lawful.operand_index_decided args).ok_iff i).2 hargs
  rw [subscript, ask_item_eq, hconvert]
  show (item b i >>= fun w => pure (Value.word w)) = _
  cases item b i <;> rfl

theorem item_congr {c : Buffer} (h : c.items = b.items) (i : Int) : item c i = item b i := by
  have hget : c.get? = b.get? := funext fun k => congrArg (·[k]?) h
  rw [item, item, Buffer.len_congr h, hget]

theorem subscript_of_isPosition (hlen : b.len < UInt64.size / 2) {i : Int} {k : Nat}
    (h : IsPosition b.len i k) :
    ∃ v, b.items[k]? = some v ∧ subscript b i = .ok (.word v) := by
  obtain ⟨v, hget, hitem⟩ := item_of_isPosition h
  obtain ⟨hk, hi⟩ := h
  refine ⟨v, hget, ?_⟩
  rw [subscript_eq b (by omega), hitem]
  rfl

theorem subscript_of_outOfRange {i : Int64} (h : i.toInt < -b.len ∨ (b.len : Int) ≤ i.toInt) :
    subscript b i.toInt = .error (.badIndex i.toInt) := by
  rw [subscript_eq b (toInt_within i), item_of_outOfRange h]
  rfl

/-! ### Reading in order -/

/-- The answers to the subscripts from `k` on, one after the other, up to an index error. -/
inductive Reads (b : Buffer) : Nat → List Value → Prop
  | stop {k : Nat} {e : Exception} (h : subscript b k = .error e) (hkind : e.kind = .index) :
      Reads b k []
  | next {k : Nat} {v : Value} {vs : List Value} (h : subscript b k = .ok v)
      (hrest : Reads b (k + 1) vs) : Reads b k (v :: vs)

theorem Reads.unique {k : Nat} {vs ws : List Value} (h : Reads b k vs) (h' : Reads b k ws) :
    vs = ws := by
  induction h generalizing ws with
  | stop herror _ =>
    cases h' with
    | stop => rfl
    | next hok =>
      rw [herror] at hok
      cases hok
  | next hok _ ih =>
    cases h' with
    | stop herror =>
      rw [hok] at herror
      cases herror
    | next hok' hrest =>
      rw [hok] at hok'
      cases hok'
      rw [ih hrest]

/-- As long as the length is within signed words, the subscripts are read to the end. -/
theorem reads_readFrom (hlen : b.len < UInt64.size / 2) {k : Nat} (hk : k ≤ b.len) :
    Reads b k ((readFrom b k).map .word) := by
  have hsub (j : Nat) (hj : j ≤ b.len) : subscript b j = (item b j).map .word :=
    subscript_eq b (by omega)
  fun_induction readFrom b k with
  | case1 k v h ih =>
    refine .next ?_ (ih (lt_len_of_item h))
    rw [hsub k hk, h]
    rfl
  | case2 k e h =>
    obtain rfl : e = .badIndex k := by
      rw [item_natCast] at h
      split at h
      next => cases h
      next => exact (Except.error.inj h).symm
    refine .stop (e := .badIndex k) ?_ rfl
    rw [hsub k hk, h]
    rfl

/-! ### Buffers as lists -/

/-- Subscripts of a reachable buffer are those of the list of its items, for every signed word. The
spare slots have no part in them, and the position that they read is the one found on words. Reading
in order ends after as many items as there are. -/
theorem indexing_as_list {memory : Memory} (h : b.Reachable memory) :
    (∀ i : Int64,
      (0 ≤ i.toInt → i.toInt < b.len →
        ∃ v, b.items[i.toInt.toNat]? = some v ∧ subscript b i.toInt = .ok (.word v)) ∧
      (-b.len ≤ i.toInt → i.toInt < 0 →
        ∃ v, b.items[(b.len + i.toInt).toNat]? = some v ∧ subscript b i.toInt = .ok (.word v)) ∧
      (i.toInt < -b.len ∨ (b.len : Int) ≤ i.toInt →
        ∃ e, subscript b i.toInt = .error e ∧ e.kind = .index ∧
          e.message? = some s!"IndexBuf index {i.toInt} out of range") ∧
      (wordPosition? (word b.len) i).map UInt64.toNat = position? b.len i.toInt ∧
      ∀ c : Buffer, c.items = b.items → subscript c i.toInt = subscript b i.toInt) ∧
    (∀ k : Nat, k < b.len → ∃ v, b.items[k]? = some v ∧
      subscript b k = .ok (.word v) ∧ subscript b (k - b.len) = .ok (.word v)) ∧
    ∃ vs, (∀ ws, Reads b 0 ws ↔ ws = vs) ∧ vs.length = b.len ∧
      ask b .read {} = .ok (.list vs) ∧ call memory b .items {} = ⟨.ok (.list vs), b⟩ := by
  have hmax : b.len ≤ maxSlots := Nat.le_trans b.len_le_capacity h.bounded.le_maxSlots
  have hlen : b.len < UInt64.size / 2 := Nat.lt_of_le_of_lt hmax (by decide)
  refine ⟨?_, ?_, ?_⟩
  · intro i
    refine ⟨?_, ?_, ?_, wordPosition?_word h.bounded.len_le_maxLength i, ?_⟩
    · intro hi hlt
      exact subscript_of_isPosition hlen ⟨by omega, .inl (by omega)⟩
    · intro hlow hi
      exact subscript_of_isPosition hlen ⟨by omega, .inr (by omega)⟩
    · intro hrange
      exact ⟨_, subscript_of_outOfRange hrange, rfl, rfl⟩
    · intro c hc
      rw [subscript_eq c (toInt_within i), subscript_eq b (toInt_within i), item_congr hc]
  · intro k hk
    obtain ⟨v, hv, hfront⟩ := subscript_of_isPosition hlen (i := k) ⟨hk, .inl rfl⟩
    obtain ⟨w, hw, hback⟩ := subscript_of_isPosition hlen (i := k - b.len) ⟨hk, .inr (by omega)⟩
    rw [hv] at hw
    cases hw
    exact ⟨v, hv, hfront, hback⟩
  · refine ⟨(readFrom b 0).map .word, ?_, ?_, rfl, ?_⟩
    · intro ws
      have hreads := reads_readFrom hlen (Nat.zero_le b.len)
      constructor
      · intro hws
        exact hws.unique hreads
      · rintro rfl
        exact hreads
    · rw [readFrom_eq_drop]
      simp
    · rw [readFrom_eq_drop]
      rfl

/-- The third slot keeps a 4 that is no item any more, and the least index is far from all items. -/
theorem indexing_as_list_clamped :
    (Registers.clamped 0).Reachable (.upTo 8) ∧ (Registers.clamped 0).slots = #[5, 4, 4] ∧
      subscript (Registers.clamped 0) (-2) = .ok (.word 5) ∧
      (∃ e, subscript (Registers.clamped 0) 2 = .error e ∧ e.kind = .index) ∧
      (∃ e, subscript (Registers.clamped 0) Int64.minValue.toInt = .error e ∧
        e.message? = some "IndexBuf index -9223372036854775808 out of range") ∧
      Reads (Registers.clamped 0) 0 [.word 5, .word 4] := by
  have hreach : (Registers.clamped 0).Reachable (.upTo 8) :=
    ⟨_, 0, Registers.reachable_clamped, rfl⟩
  have hitems : (Registers.clamped 0).items = [5, 4] := by decide
  obtain ⟨hindex, -, vs, hreads, -, -, hcall⟩ := indexing_as_list hreach
  have hlist : (.ok (.list ((Registers.clamped 0).items.map .word)) : Except Exception Value) =
      .ok (.list vs) := congrArg Answer.result hcall
  have hvs : (Registers.clamped 0).items.map .word = vs := by simpa using hlist
  rw [hitems] at hvs
  obtain ⟨-, hback, -⟩ := hindex (-2)
  obtain ⟨-, -, herror, -⟩ := hindex 2
  obtain ⟨-, -, hleast, -⟩ := hindex Int64.minValue
  refine ⟨hreach, by decide, ?_, ?_, ?_, (hreads _).2 hvs⟩
  · obtain ⟨v, hv, hsub⟩ := hback (by decide) (by decide)
    have hfive : (Registers.clamped 0).items[((Registers.clamped 0).len + -2 : Int).toNat]? =
        some 5 := by decide
    obtain rfl : 5 = v := Option.some.inj (hfive.symm.trans hv)
    exact hsub
  · obtain ⟨e, he, hkind, -⟩ := herror (by decide)
    exact ⟨e, he, hkind⟩
  · obtain ⟨e, he, -, hmessage⟩ := hleast (by decide)
    exact ⟨e, he, hmessage⟩

end SlotBuffer.Script
