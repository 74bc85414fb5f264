/-!
# Decimal numerals

The canonical decimal text of an integer: an optional minus sign and decimal digits, with no
leading zero, no plus sign and no negative zero.  `readInt32?` recognises exactly the texts that
`ofInt` writes for the values of `Int32` and gives the value back.
-/

namespace EffectLang.Text.Numeral

/-- The decimal digits of a natural number. -/
def ofNat (n : Nat) : String :=
  String.ofList (Nat.toDigits 10 n)

/-- The canonical text of an integer. -/
def ofInt : Int → String
  | .ofNat n => ofNat n
  | .negSucc n => "-" ++ ofNat (n + 1)

/-- The integer that a text stands for if it is a numeral at all. -/
def candidate : List Char → Int
  | '-' :: digits => -(Nat.ofDigitChars 10 digits 0 : Int)
  | digits => (Nat.ofDigitChars 10 digits 0 : Int)

/-- The 32-bit value whose canonical text is `text`.  No such text is longer than that of the
least value, so a longer one is refused before it is read. -/
def readInt32? (text : String) : Option Int32 :=
  if text.length ≤ 11 then
    let value := candidate text.toList
    if Int32.minValue.toInt ≤ value ∧ value ≤ Int32.maxValue.toInt ∧ ofInt value = text then
      some (Int32.ofInt value)
    else
      none
  else
    none

/-- Digits are read back. -/
theorem candidate_toDigits (n : Nat) : candidate (Nat.toDigits 10 n) = n := by
  unfold candidate
  split
  · rename_i digits h
    have hd : '-'.isDigit = true :=
      Nat.isDigit_of_mem_toDigits (b := 10) (n := n) (by decide) (by decide) (by rw [h]; simp)
    exact absurd hd (by decide)
  · rw [Nat.ofDigitChars_ten_toDigits]

/-- A canonical text is read back. -/
theorem candidate_ofInt (value : Int) : candidate (ofInt value).toList = value := by
  cases value with
  | ofNat n => simpa [ofInt, ofNat] using candidate_toDigits n
  | negSucc n => simp [ofInt, ofNat, candidate, Int.negSucc_eq]

/-- A number below 10000000000 has at most ten digits. -/
theorem length_ofNat_le {n : Nat} (h : n < 10000000000) : (ofNat n).length ≤ 10 := by
  have h' : (Nat.toDigits 10 n).length ≤ 10 :=
    (Nat.length_toDigits_le_iff (by decide) (by decide)).2 h
  simpa [ofNat] using h'

/-- No 32-bit value takes more than eleven characters. -/
theorem length_ofInt_le {value : Int} (h : -2147483648 ≤ value) (h' : value ≤ 2147483648) :
    (ofInt value).length ≤ 11 := by
  cases value with
  | ofNat n =>
    have hn : n < 10000000000 := by
      simp only [Int.ofNat_eq_natCast] at h'
      omega
    exact Nat.le_succ_of_le (length_ofNat_le hn)
  | negSucc n =>
    have hn := length_ofNat_le (n := n + 1) (by omega)
    have hs : "-".length = 1 := by decide
    simp only [ofInt, String.length_append, hs]
    omega

/-- Only the canonical text of a value is read as this value. -/
theorem ofInt_of_readInt32? {text : String} {value : Int32} (h : readInt32? text = some value) :
    ofInt value.toInt = text := by
  simp only [readInt32?] at h
  split at h
  · split at h
    · rename_i hc
      obtain ⟨hmin, hmax, htext⟩ := hc
      simp only [Option.some.injEq] at h
      subst h
      rw [Int32.toInt_ofInt_of_le hmin (Int.lt_of_le_of_lt hmax (by decide)), htext]
    · cases h
  · cases h

/-- The canonical text of any 32-bit value is read as this value. -/
theorem readInt32?_ofInt (value : Int32) : readInt32? (ofInt value.toInt) = some value := by
  have hmin := Int32.minValue_le_toInt value
  have hmax := Int32.toInt_le value
  have hlen : (ofInt value.toInt).length ≤ 11 :=
    length_ofInt_le (Int32.le_toInt value) (Int.le_of_lt (Int32.toInt_lt value))
  simp only [readInt32?, hlen, if_true, candidate_ofInt, hmin, hmax, and_self, Int32.ofInt_toInt]

end EffectLang.Text.Numeral
