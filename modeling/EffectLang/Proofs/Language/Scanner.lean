import EffectLang.Language.Scanner
import EffectLang.Proofs.Language.Scan
import EffectLang.Proofs.Text.Cursor

/-!
# What the scanner finds

The scanner goes through a text with a cursor, and puts one token behind another.  The main
statement is `tokenize_eq`: the tokens that it finds, and the faults, are those of
`Language.tokenize`, for every text.  So its phases are never out of order
(`tokenize_ne_phase`), and what is proved of `Language.tokenize` holds of it.

**The run.**  One token is read as `Scanner.next_eq` says.  With the tokens that were read so far,
a run from any place is the scan of what is ahead of this place (`run_eq_scan`).
-/

namespace EffectLang.Scanner

open Text

variable {L : Language} {c : Cursor} {tokens : TokenList}

/-- From any place on, the scanner finds what the scan of the text ahead finds. -/
theorem run_eq_scan (h : tokens.trailing = "") :
    run L c tokens =
      (L.scan c.offset c.ahead tokens.tokens.reverse).mapError ScanFailure.lexical := by
  have hdone : ∀ (list : TokenList) trailing,
      TokenList.mk list.tokens.reverse.reverse trailing = list.withTrailing trailing := by
    intro list trailing
    rw [List.reverse_reverse]
    rfl
  fun_induction run L c tokens with
  | case1 c tokens hend =>
      rw [Cursor.ahead_of_atEnd hend, Language.scan_of_blank rfl, hdone, String.ofList_nil, ← h]
      rfl
  | case2 c tokens hend e hnext =>
      rw [next_eq] at hnext
      split at hnext
      · cases hnext
      · rename_i first rest hdrop
        split at hnext
        · rename_i e' hl
          cases hnext
          rw [Language.scan_of_error hdrop hl]
          rfl
        · cases hnext
  | case3 c tokens hend trailing hnext =>
      rw [next_eq] at hnext
      split at hnext
      · rename_i hdrop
        cases hnext
        rw [Language.scan_of_blank hdrop, hdone]
        rfl
      · split at hnext <;> cases hnext
  | case4 c tokens hend t c' hnext hlt ih =>
      rw [next_eq] at hnext
      split at hnext
      · cases hnext
      · rename_i first rest hdrop
        split at hnext
        · cases hnext
        · rename_i l hl
          cases hnext
          have hahead := ahead_behind_lexeme hdrop hl
          rw [ih h, Language.scan_of_lexeme hdrop hl, Cursor.offset_pass, hahead, TokenList.push,
            List.reverse_append, List.length_append, List.length_append, ← Nat.add_assoc]
          rfl

/-- **The scanner finds the tokens of a text,** or the first fault, and nothing else can happen. -/
theorem tokenize_eq (L : Language) (source : String) :
    tokenize L source = (L.tokenize source).mapError ScanFailure.lexical := by
  rw [tokenize, run_eq_scan rfl, Cursor.ahead_ofString]
  rfl

/-- No text leads to a transition that is out of order. -/
theorem tokenize_ne_phase (L : Language) (source : String) (f : PhaseFault) :
    tokenize L source ≠ .error (.phase f) := by
  rw [tokenize_eq]
  cases L.tokenize source <;> simp [Except.mapError]

end EffectLang.Scanner
