import EffectLang.Token.Basic
import Mathlib.Algebra.Group.Nat.Defs

/-!
# Which words are numbers

Decimal texts come in many spellings: with a sign or without one, with any number of zeros in
front.  `spelledInt32?` reads them all.  One spelling of each integer is canonical.

**Digits.**  `positional` says what a row of digits stands for.  A row of significant digits, one
without a zero in front, is the row that is written for its value (`Significant.toDigits`), and
each positive number is written in significant digits (`significant_toDigits`).

**Canonical texts.**  `Canonical` describes them by their characters.  The canonical texts of an
integer are those that are written for it, hence one (`canonical_iff`).

The main statement is `ofWord_number_iff_canonical`: the words that become numbers are the
canonical texts of the 32-bit values.  It is also what reading any spelling and keeping those that
are written the same way comes to.
-/

namespace EffectLang

namespace Text.Numeral

/-! ## Digits -/

/-- What a row of digits stands for: each digit counts as many times as a power of ten says. -/
def positional : List Char → Nat
  | [] => 0
  | c :: cs => (c.toNat - '0'.toNat) * 10 ^ cs.length + positional cs

/-- Digits, one at least and no zero in front. -/
def Significant : List Char → Prop
  | [] => False
  | c :: cs => c ≠ '0' ∧ ∀ d ∈ c :: cs, d.isDigit = true

/-- The value of digits, in the terms of the core library. -/
lemma positional_eq (cs : List Char) : positional cs = Nat.ofDigitChars 10 cs 0 := by
  induction cs with
  | nil => rw [positional, Nat.ofDigitChars_nil]
  | cons c cs ih =>
      rw [positional, ih, Nat.ofDigitChars_cons, Nat.mul_zero, Nat.zero_add, Nat.mul_comm,
        ← Nat.ofDigitChars_eq_ofDigitChars_zero]

lemma positional_toDigits (n : Nat) : positional (Nat.toDigits 10 n) = n := by
  rw [positional_eq, Nat.ofDigitChars_ten_toDigits]

lemma exists_digitChar {c : Char} (h : c.isDigit = true) : ∃ d < 10, c = Nat.digitChar d := by
  have hc : 48 ≤ c.toNat ∧ c.toNat ≤ 57 := Char.isDigit_iff_toNat.1 h
  have hdigit : ∀ d < 10, Char.ofNat (48 + d) = Nat.digitChar d := by decide
  refine ⟨c.toNat - 48, by omega, ?_⟩
  rw [← hdigit _ (by omega), Nat.add_sub_cancel' hc.1, Char.ofNat_toNat]

/-- The digits that are read after a positive number are written behind its own. -/
lemma toDigits_append {ds : List Char} (h : ∀ d ∈ ds, d.isDigit = true) {n : Nat} (hn : 0 < n) :
    Nat.toDigits 10 n ++ ds = Nat.toDigits 10 (Nat.ofDigitChars 10 ds n) := by
  induction ds generalizing n with
  | nil => rw [List.append_nil, Nat.ofDigitChars_nil]
  | cons c ds ih =>
      obtain ⟨hc, hds⟩ := List.forall_mem_cons.1 h
      obtain ⟨d, hd, rfl⟩ := exists_digitChar hc
      calc Nat.toDigits 10 n ++ d.digitChar :: ds
          = (Nat.toDigits 10 n ++ Nat.toDigits 10 d) ++ ds := by
            rw [Nat.toDigits_of_lt_base hd, List.append_assoc, List.singleton_append]
        _ = Nat.toDigits 10 (10 * n + d) ++ ds := by
            rw [Nat.toDigits_append_toDigits (by decide) hn hd]
        _ = Nat.toDigits 10 (Nat.ofDigitChars 10 (d.digitChar :: ds) n) := by
            rw [ih hds (by omega), Nat.ofDigitChars_cons_digitChar_of_lt_ten hd]

/-- Digits without a leading zero are the digits of their value. -/
lemma Significant.toDigits {cs : List Char} (h : Significant cs) :
    Nat.toDigits 10 (positional cs) = cs := by
  cases cs with
  | nil => exact h.elim
  | cons c cs =>
      obtain ⟨hzero, hdigits⟩ := h
      obtain ⟨hc, hcs⟩ := List.forall_mem_cons.1 hdigits
      obtain ⟨d, hd, rfl⟩ := exists_digitChar hc
      have hpos : 0 < d := Nat.pos_of_ne_zero fun h => hzero (by rw [h]; rfl)
      rw [positional_eq, Nat.ofDigitChars_cons_digitChar_of_lt_ten hd, Nat.mul_zero, Nat.zero_add,
        ← toDigits_append hcs hpos, Nat.toDigits_of_lt_base hd, List.singleton_append]

lemma Significant.positional_pos {cs : List Char} (h : Significant cs) : 0 < positional cs := by
  refine Nat.pos_of_ne_zero fun hzero => ?_
  have hcs := h.toDigits
  rw [hzero] at hcs
  subst hcs
  exact h.1 rfl

lemma Significant.append {cs ds : List Char} (h : Significant cs)
    (hds : ∀ d ∈ ds, d.isDigit = true) : Significant (cs ++ ds) := by
  cases cs with
  | nil => exact h.elim
  | cons c cs => exact ⟨h.1, List.forall_mem_append.2 ⟨h.2, hds⟩⟩

/-- The digits of a positive number have no leading zero. -/
lemma significant_toDigits {n : Nat} (h : 0 < n) : Significant (Nat.toDigits 10 n) := by
  induction n using Nat.base_induction 10 (by decide) with
  | single n hn =>
      rw [Nat.toDigits_of_lt_base hn]
      refine ⟨fun hzero => ?_, ?_⟩
      · rw [Nat.digitChar_eq_zero] at hzero
        omega
      · simp [Nat.isDigit_digitChar, hn]
  | digit n d hd hn ih =>
      rw [← Nat.toDigits_append_toDigits (by decide) hn hd]
      exact (ih hn).append fun c => Nat.isDigit_of_mem_toDigits (by decide) (by decide)

/-! ## Canonical texts -/

/-- The canonical decimal text of an integer: no plus sign, no zero in front, and no sign before a
zero. -/
inductive Canonical : List Char → Int → Prop
  | zero : Canonical ['0'] 0
  | positive {cs : List Char} (h : Significant cs) : Canonical cs (positional cs)
  | negative {cs : List Char} (h : Significant cs) : Canonical ('-' :: cs) (-(positional cs : Int))

lemma ofInt_neg {n : Nat} (h : 0 < n) : ofInt (-(n : Int)) = "-" ++ ofNat n := by
  cases n with
  | zero => cases h
  | succ n => rfl

/-- The text of an integer is canonical. -/
lemma canonical_ofInt (n : Int) : Canonical (ofInt n).toList n := by
  cases n with
  | ofNat n =>
      rcases Nat.eq_zero_or_pos n with rfl | hn
      · exact .zero
      · have h := Canonical.positive (significant_toDigits hn)
        rw [positional_toDigits] at h
        simpa [ofInt, ofNat] using h
  | negSucc n =>
      have h := Canonical.negative (significant_toDigits n.succ_pos)
      rw [positional_toDigits] at h
      simpa [ofInt, ofNat, Int.negSucc_eq] using h

/-- A canonical text is the text of its value. -/
lemma Canonical.toList_ofInt {cs : List Char} {n : Int} (h : Canonical cs n) :
    (ofInt n).toList = cs := by
  cases h with
  | zero => rfl
  | positive hs => simp [ofInt, ofNat, hs.toDigits]
  | negative hs => simp [ofInt_neg hs.positional_pos, ofNat, hs.toDigits]

/-- The canonical text of an integer is the one that is written for it. -/
theorem canonical_iff {text : String} {n : Int} : Canonical text.toList n ↔ text = ofInt n := by
  constructor
  · intro h
    exact String.toList_injective h.toList_ofInt.symm
  · rintro rfl
    exact canonical_ofInt n

/-! ## Any spelling -/

/-- What a row of digits stands for, zeros in front or not. -/
def spelledDigits? (cs : List Char) : Option Int :=
  if cs ≠ [] ∧ cs.all Char.isDigit then some (positional cs) else none

/-- The integer that is spelled by digits, perhaps with a sign before them. -/
def spelled? : List Char → Option Int
  | '+' :: cs => spelledDigits? cs
  | '-' :: cs => (spelledDigits? cs).map fun n => -n
  | cs => spelledDigits? cs

/-- The 32-bit value that a text spells. -/
def spelledInt32? (text : String) : Option Int32 :=
  (spelled? text.toList).bind fun n =>
    if Int32.minValue.toInt ≤ n ∧ n ≤ Int32.maxValue.toInt then some (Int32.ofInt n) else none

lemma Significant.spelledDigits? {cs : List Char} (h : Significant cs) :
    spelledDigits? cs = some (positional cs : Int) := by
  cases cs with
  | nil => exact h.elim
  | cons c cs => exact if_pos ⟨List.cons_ne_nil c cs, List.all_eq_true.2 h.2⟩

/-- A canonical text is read as its value. -/
lemma Canonical.spelled? {cs : List Char} {n : Int} (h : Canonical cs n) : spelled? cs = some n := by
  cases h with
  | zero => rfl
  | negative hs => rw [Numeral.spelled?, hs.spelledDigits?, Option.map_some]
  | positive hs =>
      unfold Numeral.spelled?
      split
      · exact absurd (hs.2 '+' List.mem_cons_self) (by decide)
      · exact absurd (hs.2 '-' List.mem_cons_self) (by decide)
      · exact hs.spelledDigits?

/-- What is written for a value spells it. -/
theorem spelledInt32?_ofInt (value : Int32) : spelledInt32? (ofInt value.toInt) = some value := by
  have hmin := Int32.minValue_le_toInt value
  have hmax := Int32.toInt_le value
  rw [spelledInt32?, (canonical_ofInt value.toInt).spelled?, Option.bind_some,
    if_pos ⟨hmin, hmax⟩, Int32.ofInt_toInt]

end Text.Numeral

/-! ## Words -/

namespace TokenKind

open Text.Numeral

variable {word : String}

/-- A word is a number exactly if it is the text of a 32-bit value. -/
lemma ofWord_eq_number_iff {value : Int32} :
    ofWord word = number value ↔ word = ofInt value.toInt := by
  constructor
  · intro h
    have hcontent := content_ofWord word
    rw [h] at hcontent
    exact hcontent.symm
  · rintro rfl
    rw [ofWord, readInt32?_ofInt]

/-- A word is a name exactly if it is the text of no 32-bit value. -/
lemma ofWord_eq_name_iff :
    ofWord word = name word ↔ ∀ value : Int32, word ≠ ofInt value.toInt := by
  constructor
  · intro h value hvalue
    rw [ofWord_eq_number_iff.2 hvalue] at h
    cases h
  · intro h
    rw [ofWord]
    split
    · rename_i value hvalue
      exact absurd (ofInt_of_readInt32? hvalue).symm (h value)
    · rfl

/-- The canonical text of an integer out of range is a name. -/
lemma ofWord_eq_name_of_out_of_range {n : Int} (h : Canonical word.toList n)
    (hn : n < Int32.minValue.toInt ∨ Int32.maxValue.toInt < n) : ofWord word = name word := by
  refine ofWord_eq_name_iff.2 fun value hvalue => ?_
  have hvalue_eq : value.toInt = n := by
    rw [← candidate_ofInt value.toInt, ← hvalue, canonical_iff.1 h, candidate_ofInt]
  have hmin := Int32.minValue_le_toInt value
  have hmax := Int32.toInt_le value
  omega

/-- **The numbers are the canonical texts of the 32-bit values.**  Every other word is a name, and
no word is changed. -/
theorem ofWord_number_iff_canonical (word : String) :
    (∀ value : Int32, ofWord word = .number value ↔ Canonical word.toList value.toInt) ∧
      (ofWord word = .name word ↔ ∀ value : Int32, ¬ Canonical word.toList value.toInt) ∧
      (∀ n, Canonical word.toList n → n < Int32.minValue.toInt ∨ Int32.maxValue.toInt < n →
        ofWord word = .name word) ∧
      (∀ value : Int32, ofWord word = .number value ↔
        spelledInt32? word = some value ∧ ofInt value.toInt = word) ∧
      (ofWord word).content = word := by
  refine ⟨fun value => ?_, ?_, fun n => ofWord_eq_name_of_out_of_range, fun value => ?_,
    content_ofWord word⟩
  · rw [ofWord_eq_number_iff, canonical_iff]
  · simp only [ofWord_eq_name_iff, canonical_iff, ne_eq]
  · rw [ofWord_eq_number_iff]
    constructor
    · rintro rfl
      exact ⟨spelledInt32?_ofInt value, rfl⟩
    · intro h
      exact h.2.symm

/-- The least value is a number and the integer before it is not; a zero with a sign spells a value
and is a name nevertheless. -/
theorem ofWord_number_iff_canonical_edges :
    ofWord "-2147483648" = .number Int32.minValue ∧
      ofWord "-2147483649" = .name "-2147483649" ∧
      spelledInt32? "-0" = some 0 ∧ ofWord "-0" ≠ .number 0 := by
  have hleast : Canonical "-2147483648".toList Int32.minValue.toInt := canonical_iff.2 rfl
  have hbefore : Canonical "-2147483649".toList (-2147483649) := canonical_iff.2 rfl
  refine ⟨?_, ?_, rfl, fun h => ?_⟩
  · exact ((ofWord_number_iff_canonical _).1 _).2 hleast
  · exact (ofWord_number_iff_canonical _).2.2.1 _ hbefore (.inl (by decide))
  · exact absurd (((ofWord_number_iff_canonical _).2.2.2.1 0).1 h).2 (by decide)

end TokenKind

end EffectLang
