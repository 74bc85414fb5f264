import EffectLang.Proofs.Language.Reach

/-!
# Which texts the language of item effects can read

Whether a text is cut into tokens can be seen without reading it from the left.  Cut it at its
backticks: every second piece lies outside the logic strings.  In these pieces every longest run of
the characters `+ - = >` has to fall into pairs that are operators, and the last string has to be
closed, so the number of backticks has to be even.  The main statement, `itemEffects_reads_iff`,
gives all outcomes: an unclosed string is reported only where no run is misspelt, and no character
is ever unexpected.

**Runs.**  A run at the beginning of a text comes before all other runs (`maximalRun_append`), so
two characters that are an operator can be taken off it (`runsSpelt_pair`).

**Pieces.**  What is no operator character and no backtick changes neither runs nor pieces
(`judgedAlike_plain`), and a whole logic string is two backticks with a piece in a string between
them (`judgedAlike_logic`).  So a text is judged like what is left of it behind a token
(`judgedAlike_of_lexeme`), and in front of a fault the fault shows (`foretells_of_fault`).
-/

namespace EffectLang

/-- The characters of the operators of item effects. -/
def isOperatorChar (c : Char) : Bool := ['+', '-', '=', '>'].contains c

/-- A run of an even number of characters, in which successive pairs are operators. -/
structure SpellsOperators (run : List Char) : Prop where
  even : Even run.length
  pairs : ∀ i c d, run[2 * i]? = some c → run[2 * i + 1]? = some d →
    String.ofList [c, d] ∈ ItemOperator.catalog

/-- A run of operator characters that goes on neither to the left nor to the right. -/
structure MaximalRun (cs run : List Char) : Prop where
  ne_nil : run ≠ []
  operatorChar : ∀ c ∈ run, isOperatorChar c = true
  exists_around : ∃ before after, cs = before ++ (run ++ after) ∧
    (∀ c ∈ before.getLast?, isOperatorChar c = false) ∧
    ∀ c ∈ after.head?, isOperatorChar c = false

/-- A longest run of operator characters outside the logic strings: of the pieces between the
backticks, numbered from zero, in one with an even number. -/
def OutsideRun (cs run : List Char) : Prop :=
  ∃ i piece, (cs.splitOn '`')[2 * i]? = some piece ∧ MaximalRun piece run

/-- Outside the logic strings, all runs of operator characters are made of operators. -/
def Spelt (cs : List Char) : Prop := ∀ run, OutsideRun cs run → SpellsOperators run

/-! ## Operator characters -/

/-- The operator characters are those of the six operators. -/
lemma isOperatorChar_iff {c : Char} :
    isOperatorChar c = true ↔ ∃ op ∈ ItemOperator.catalog, c ∈ op.toList := by
  have hmem : ∀ c ∈ ['+', '-', '=', '>'], ∃ op ∈ ItemOperator.catalog, c ∈ op.toList := by
    simp [ItemOperator.catalog, ItemOperator.all, ItemOperator.symbol]
  have hchars : ∀ op ∈ ItemOperator.catalog, ∀ c ∈ op.toList, isOperatorChar c = true := by
    simp [ItemOperator.catalog, ItemOperator.all, ItemOperator.symbol, isOperatorChar]
  constructor
  · intro h
    rw [isOperatorChar, List.contains_iff_mem] at h
    exact hmem c h
  · rintro ⟨op, hop, hc⟩
    exact hchars op hop c hc

lemma isOperatorChar_of_blank {c : Char} (h : Text.isBlank c = true) :
    isOperatorChar c = false := by
  have hblank : ∀ c ∈ ['+', '-', '=', '>'], Text.isBlank c = false := by
    simp [Text.isBlank, Text.blankRanges]
  refine Bool.eq_false_iff.2 fun hop => ?_
  rw [isOperatorChar, List.contains_iff_mem] at hop
  exact absurd h (Bool.eq_false_iff.1 (hblank c hop))

lemma isOperatorChar_of_pair {c d : Char} (h : String.ofList [c, d] ∈ ItemOperator.catalog) :
    isOperatorChar c = true ∧ isOperatorChar d = true :=
  ⟨isOperatorChar_iff.2 ⟨_, h, by simp⟩, isOperatorChar_iff.2 ⟨_, h, by simp⟩⟩

lemma ne_backtick_of_isOperatorChar {c : Char} (h : isOperatorChar c = true) : c ≠ '`' := by
  rintro rfl
  exact absurd h (by decide)

/-! ## Runs -/

lemma spellsOperators_nil : SpellsOperators [] := ⟨Even.zero, by simp⟩

/-- A single character spells no operator. -/
lemma not_spellsOperators_singleton (c : Char) : ¬ SpellsOperators [c] :=
  fun h => Nat.not_even_one h.even

/-- A run spells operators if its first two characters are one and the others spell operators. -/
lemma spellsOperators_cons_cons {c d : Char} {run : List Char} :
    SpellsOperators (c :: d :: run) ↔
      String.ofList [c, d] ∈ ItemOperator.catalog ∧ SpellsOperators run := by
  constructor
  · intro h
    refine ⟨h.pairs 0 c d rfl rfl, ?_, fun i => h.pairs (i + 1)⟩
    simpa [Nat.even_add_one] using h.even
  · rintro ⟨hpair, h⟩
    refine ⟨by simpa [Nat.even_add_one] using h.even, fun i c' d' hc hd => ?_⟩
    cases i with
    | zero =>
        cases hc
        cases hd
        exact hpair
    | succ i => exact h.pairs i c' d' hc hd

section Run

variable {c : Char} {cs run rest : List Char}

/-- A character of another sort in front of a text changes none of its runs. -/
lemma maximalRun_cons (hc : isOperatorChar c = false) :
    MaximalRun (c :: cs) run ↔ MaximalRun cs run := by
  have hlast : ∀ before : List Char, (∀ d ∈ (c :: before).getLast?, isOperatorChar d = false) ↔
      ∀ d ∈ before.getLast?, isOperatorChar d = false := by
    intro before
    rw [List.getLast?_cons]
    cases before.getLast? with
    | none => simpa using hc
    | some d => simp
  constructor
  · rintro ⟨hne, hchars, before, after, h, hbefore, hafter⟩
    refine ⟨hne, hchars, ?_⟩
    cases before with
    | nil =>
        obtain ⟨d, run, rfl⟩ := List.exists_cons_of_ne_nil hne
        obtain ⟨rfl, -⟩ := List.cons.inj h
        exact absurd (hchars c List.mem_cons_self) (Bool.eq_false_iff.1 hc)
    | cons b before =>
        obtain ⟨rfl, rfl⟩ := List.cons.inj h
        exact ⟨before, after, rfl, (hlast before).1 hbefore, hafter⟩
  · rintro ⟨hne, hchars, before, after, rfl, hbefore, hafter⟩
    exact ⟨hne, hchars, c :: before, after, rfl, (hlast before).2 hbefore, hafter⟩

/-- Operator characters at the beginning of a text are its first run, and come before the others. -/
lemma maximalRun_append {head : List Char} (hhead : ∀ c ∈ head, isOperatorChar c = true)
    (hrest : ∀ c ∈ rest.head?, isOperatorChar c = false) :
    MaximalRun (head ++ rest) run ↔ (head ≠ [] ∧ run = head) ∨ MaximalRun rest run := by
  constructor
  · rintro ⟨hne, hchars, before, after, h, hbefore, hafter⟩
    rcases List.append_eq_append_iff.1 h with ⟨more, rfl, rfl⟩ | ⟨more, rfl, hbehind⟩
    · refine Or.inr ⟨hne, hchars, more, after, rfl, fun c hc => hbefore c ?_, hafter⟩
      simp [List.getLast?_append, Option.mem_def.1 hc]
    · -- The last character in front of the run would be one of the first run.
      have hnil : before = [] := by
        refine List.getLast?_eq_none_iff.1 (Option.eq_none_iff_forall_not_mem.2 fun c hc => ?_)
        have hmem := List.mem_append_left more (List.mem_of_getLast? hc)
        exact absurd (hhead c hmem) (Bool.eq_false_iff.1 (hbefore c hc))
      rw [hnil, List.nil_append] at hhead ⊢
      obtain rfl : run = more := by
        rw [← takeWhile_append_eq hchars hafter, hbehind, takeWhile_append_eq hhead hrest]
      exact Or.inl ⟨hne, rfl⟩
  · rintro (⟨hne, rfl⟩ | ⟨hne, hchars, before, after, rfl, hbefore, hafter⟩)
    · exact ⟨hne, hhead, [], rest, rfl, by simp, hrest⟩
    · refine ⟨hne, hchars, head ++ before, after, by simp, fun c hc => hbefore c ?_, hafter⟩
      cases hlast : before.getLast? with
      | some d => simpa [List.getLast?_append, hlast] using hc
      | none =>
          -- Then the run would stand at the beginning, where no operator character is.
          obtain rfl := List.getLast?_eq_none_iff.1 hlast
          obtain ⟨d, run, rfl⟩ := List.exists_cons_of_ne_nil hne
          exact absurd (hchars d List.mem_cons_self) (Bool.eq_false_iff.1 (hrest d rfl))

/-- The first run can be looked at apart from the others. -/
lemma maximalRun_iff : MaximalRun cs run ↔
    (cs.takeWhile isOperatorChar ≠ [] ∧ run = cs.takeWhile isOperatorChar) ∨
      MaximalRun (cs.dropWhile isOperatorChar) run := by
  have hhead : ∀ c ∈ cs.takeWhile isOperatorChar, isOperatorChar c = true :=
    fun _ hc => List.mem_takeWhile_imp hc
  have h : MaximalRun (cs.takeWhile isOperatorChar ++ cs.dropWhile isOperatorChar) run ↔ _ :=
    maximalRun_append hhead (eq_false_of_head?_dropWhile cs)
  rwa [List.takeWhile_append_dropWhile] at h

end Run

/-! ## Pieces -/

/-- All runs of a piece are made of operators. -/
def RunsSpelt (piece : List Char) : Prop := ∀ run, MaximalRun piece run → SpellsOperators run

section Piece

variable {c d : Char} {piece : List Char}

lemma runsSpelt_nil : RunsSpelt [] := by
  rintro run ⟨hne, -, before, after, h, -⟩
  simp [hne] at h

lemma runsSpelt_cons (hc : isOperatorChar c = false) :
    RunsSpelt (c :: piece) ↔ RunsSpelt piece :=
  forall_congr' fun _ => imp_congr_left (maximalRun_cons hc)

/-- The runs of a piece are its first run and the runs behind it. -/
lemma runsSpelt_iff : RunsSpelt piece ↔
    SpellsOperators (piece.takeWhile isOperatorChar) ∧
      RunsSpelt (piece.dropWhile isOperatorChar) := by
  constructor
  · intro h
    refine ⟨?_, fun run hrun => h run (maximalRun_iff.2 (Or.inr hrun))⟩
    by_cases hnil : piece.takeWhile isOperatorChar = []
    · rw [hnil]
      exact spellsOperators_nil
    · exact h _ (maximalRun_iff.2 (Or.inl ⟨hnil, rfl⟩))
  · rintro ⟨hfirst, hothers⟩ run hrun
    rcases maximalRun_iff.1 hrun with ⟨-, rfl⟩ | hrun
    · exact hfirst
    · exact hothers run hrun

/-- An operator can be taken off the first run. -/
lemma runsSpelt_pair (h : String.ofList [c, d] ∈ ItemOperator.catalog) :
    RunsSpelt (c :: d :: piece) ↔ RunsSpelt piece := by
  obtain ⟨hc, hd⟩ := isOperatorChar_of_pair h
  rw [runsSpelt_iff, List.takeWhile_cons_of_pos hc, List.takeWhile_cons_of_pos hd,
    List.dropWhile_cons_of_pos hc, List.dropWhile_cons_of_pos hd, spellsOperators_cons_cons,
    and_iff_right h]
  exact runsSpelt_iff.symm

/-- A first run that does not begin with an operator spells none. -/
lemma not_runsSpelt (hc : isOperatorChar c = true)
    (h : ∀ d ∈ piece.head?, String.ofList [c, d] ∉ ItemOperator.catalog) :
    ¬ RunsSpelt (c :: piece) := by
  rw [runsSpelt_iff, List.takeWhile_cons_of_pos hc]
  rintro ⟨hfirst, -⟩
  cases piece with
  | nil => exact not_spellsOperators_singleton c hfirst
  | cons d piece =>
      rw [List.takeWhile_cons] at hfirst
      split at hfirst
      · exact h d rfl (spellsOperators_cons_cons.1 hfirst).1
      · exact not_spellsOperators_singleton c hfirst

end Piece

/-! ## Texts -/

/-- All runs of the pieces with even numbers are made of operators. -/
def PiecesSpelt (pieces : List (List Char)) : Prop :=
  ∀ i piece, pieces[2 * i]? = some piece → RunsSpelt piece

/-- A text is spelt right if its pieces between backticks are. -/
lemma spelt_iff {cs : List Char} : Spelt cs ↔ PiecesSpelt (cs.splitOn '`') := by
  constructor
  · intro h i piece hpiece run hrun
    exact h run ⟨i, piece, hpiece, hrun⟩
  · rintro h run ⟨i, piece, hpiece, hrun⟩
    exact h i piece hpiece run hrun

lemma piecesSpelt_nil : PiecesSpelt [] := by
  intro i piece h
  cases h

/-- Of the pieces between backticks every other one is looked at, the first among them. -/
lemma piecesSpelt_cons {piece : List Char} {pieces : List (List Char)} :
    PiecesSpelt (piece :: pieces) ↔ RunsSpelt piece ∧ PiecesSpelt pieces.tail := by
  constructor
  · intro h
    refine ⟨h 0 piece rfl, fun i other hother => h (i + 1) other ?_⟩
    rwa [List.getElem?_tail] at hother
  · rintro ⟨hpiece, hpieces⟩ i other hother
    cases i with
    | zero =>
        cases hother
        exact hpiece
    | succ i =>
        refine hpieces i other ?_
        rwa [List.getElem?_tail]

/-- All strings are closed and all runs outside are made of operators in one text just when they
are in the other. -/
structure JudgedAlike (cs cs' : List Char) : Prop where
  closed : Even (cs.count '`') ↔ Even (cs'.count '`')
  spelt : Spelt cs ↔ Spelt cs'

section Text

variable {c d : Char} {cs body run : List Char}

lemma JudgedAlike.trans {cs' cs'' : List Char} (h : JudgedAlike cs cs')
    (h' : JudgedAlike cs' cs'') : JudgedAlike cs cs'' :=
  ⟨h.closed.trans h'.closed, h.spelt.trans h'.spelt⟩

lemma splitOn_cons_of_ne (hc : c ≠ '`') (cs : List Char) : ∃ piece pieces,
    cs.splitOn '`' = piece :: pieces ∧ (c :: cs).splitOn '`' = (c :: piece) :: pieces := by
  obtain ⟨piece, pieces, h⟩ := List.exists_cons_of_ne_nil (List.splitOn_ne_nil '`' cs)
  refine ⟨piece, pieces, h, ?_⟩
  rw [List.splitOn] at h ⊢
  rw [List.splitOnP_cons_eq_if_modifyHead, h]
  simp [hc]

/-- What is no operator character and no backtick can be taken off the text. -/
lemma judgedAlike_plain (hrun : ∀ c ∈ run, isOperatorChar c = false ∧ c ≠ '`') :
    JudgedAlike (run ++ cs) cs := by
  induction run with
  | nil => exact ⟨Iff.rfl, Iff.rfl⟩
  | cons c run ih =>
      obtain ⟨hc, hback⟩ := hrun c List.mem_cons_self
      refine JudgedAlike.trans ⟨?_, ?_⟩ (ih fun d hd => hrun d (List.mem_cons_of_mem c hd))
      · rw [List.cons_append, List.count_cons_of_ne hback]
      · obtain ⟨piece, pieces, hsplit, hsplit'⟩ := splitOn_cons_of_ne hback (run ++ cs)
        rw [List.cons_append, spelt_iff, spelt_iff, hsplit, hsplit', piecesSpelt_cons,
          piecesSpelt_cons, runsSpelt_cons hc]

/-- So can two characters that are an operator. -/
lemma judgedAlike_pair (h : String.ofList [c, d] ∈ ItemOperator.catalog) :
    JudgedAlike (c :: d :: cs) cs := by
  obtain ⟨hc, hd⟩ := isOperatorChar_of_pair h
  have hc := ne_backtick_of_isOperatorChar hc
  have hd := ne_backtick_of_isOperatorChar hd
  obtain ⟨piece, pieces, hsplit, hsplit'⟩ := splitOn_cons_of_ne hd cs
  obtain ⟨piece', pieces', hsplit₁, hsplit₂⟩ := splitOn_cons_of_ne hc (d :: cs)
  obtain ⟨rfl, rfl⟩ := List.cons.inj (hsplit'.symm.trans hsplit₁)
  refine ⟨by rw [List.count_cons_of_ne hc, List.count_cons_of_ne hd], ?_⟩
  rw [spelt_iff, spelt_iff, hsplit, hsplit₂, piecesSpelt_cons, piecesSpelt_cons, runsSpelt_pair h]

lemma splitOn_of_notMem (h : '`' ∉ cs) : cs.splitOn '`' = [cs] :=
  List.splitOnP_eq_singleton fun c hc => by simpa using ne_of_mem_of_not_mem hc h

/-- A backtick ends a piece. -/
lemma splitOn_append (h : '`' ∉ body) (cs : List Char) :
    (body ++ '`' :: cs).splitOn '`' = body :: cs.splitOn '`' := by
  have hbody : body.splitOnP (· == '`') = [body] := splitOn_of_notMem h
  rw [List.splitOn, List.splitOnP_append_cons body cs (by simp), hbody]
  rfl

lemma splitOn_cons (cs : List Char) : ('`' :: cs).splitOn '`' = [] :: cs.splitOn '`' :=
  splitOn_append List.not_mem_nil cs

/-- And so can a whole logic string. -/
lemma judgedAlike_logic (hbody : '`' ∉ body) : JudgedAlike ('`' :: (body ++ '`' :: cs)) cs := by
  constructor
  · rw [List.count_cons_self, List.count_append, List.count_eq_zero.2 hbody, List.count_cons_self,
      Nat.zero_add, Nat.even_add_one, Nat.even_add_one, not_not]
  · rw [spelt_iff, splitOn_cons, splitOn_append hbody, piecesSpelt_cons, List.tail_cons,
      and_iff_right runsSpelt_nil, spelt_iff]

/-- A string that is not closed hides all that follows. -/
lemma spelt_of_unclosed (h : '`' ∉ cs) : Spelt ('`' :: cs) := by
  rw [spelt_iff, splitOn_cons, splitOn_of_notMem h, piecesSpelt_cons]
  exact ⟨runsSpelt_nil, piecesSpelt_nil⟩

/-- Operator characters that do not begin with an operator are misspelt. -/
lemma not_spelt_of_cons (hc : isOperatorChar c = true)
    (h : ∀ d ∈ cs.head?, String.ofList [c, d] ∉ ItemOperator.catalog) : ¬ Spelt (c :: cs) := by
  obtain ⟨piece, pieces, hsplit, hsplit'⟩ :=
    splitOn_cons_of_ne (ne_backtick_of_isOperatorChar hc) cs
  rw [spelt_iff, hsplit', piecesSpelt_cons]
  rintro ⟨hpiece, -⟩
  refine not_runsSpelt hc (fun d hd => h d ?_) hpiece
  -- The first piece begins with the first character of the text, or is empty.
  cases cs with
  | nil =>
      obtain ⟨rfl, -⟩ := List.cons.inj hsplit
      exact hd
  | cons e cs =>
      by_cases he : e = '`'
      · rw [he, splitOn_cons] at hsplit
        obtain ⟨rfl, -⟩ := List.cons.inj hsplit
        cases hd
      · obtain ⟨piece', pieces', -, hsplit₁⟩ := splitOn_cons_of_ne he cs
        obtain ⟨rfl, -⟩ := List.cons.inj (hsplit.symm.trans hsplit₁)
        exact hd

end Text

namespace Language

/-! ## What the reader finds -/

/-- What the judgment of a text says of the outcome of reading it. -/
def Foretells (cs : List Char) : Except LexError TokenList → Prop
  | .ok _ => Even (cs.count '`') ∧ Spelt cs
  | .error (.invalidOperator _ _) => ¬ Spelt cs
  | .error (.unterminatedString _ _) => ¬ Even (cs.count '`') ∧ Spelt cs
  | .error (.unexpectedCharacter _ _) => False

lemma Foretells.of_judgedAlike {cs cs' : List Char} {r : Except LexError TokenList}
    (h : JudgedAlike cs cs') (hr : Foretells cs' r) : Foretells cs r := by
  rcases r with (_ | _ | _) | _
  · exact ⟨mt h.closed.1 hr.1, h.spelt.2 hr.2⟩
  · exact mt h.spelt.1 hr
  · exact hr
  · exact ⟨h.closed.2 hr.1, h.spelt.2 hr.2⟩

/-- White space makes no difference to the spelling. -/
lemma judgedAlike_dropWhile (cs : List Char) : JudgedAlike cs (cs.dropWhile Text.isBlank) := by
  have hblank : ∀ c ∈ cs.takeWhile Text.isBlank, isOperatorChar c = false ∧ c ≠ '`' := by
    intro c hc
    have hc : Text.isBlank c = true := List.mem_takeWhile_imp hc
    refine ⟨isOperatorChar_of_blank hc, ?_⟩
    rintro rfl
    exact absurd hc (by decide)
  have h : JudgedAlike (cs.takeWhile Text.isBlank ++ cs.dropWhile Text.isBlank) _ :=
    judgedAlike_plain hblank
  rwa [List.takeWhile_append_dropWhile] at h

/-- A word makes no difference to the spelling. -/
lemma judgedAlike_word {text rest : List Char} {next : Option Char}
    (h : Word ItemOperator.catalog (some '`') text next) : JudgedAlike (text ++ rest) rest := by
  refine judgedAlike_plain fun c hc => ?_
  have hword := h.wordChar c hc
  refine ⟨Bool.eq_false_iff.2 fun hop => ?_, hword.ne_backtick⟩
  obtain ⟨op, hmem, hc⟩ := isOperatorChar_iff.1 hop
  exact hword.not_reserved op hmem hc

/-- A text is judged like what is left of it behind a token. -/
lemma judgedAlike_of_lexeme {start : Offset} {c : Char} {cs : List Char} {l : Lexeme}
    (hc : Text.isBlank c = false) (h : itemEffects.lexeme start c cs = .ok l) :
    JudgedAlike (c :: cs) l.rest := by
  obtain ⟨hfence, hfits⟩ := fits_of_lexeme hc h
  obtain ⟨k, fence, rest⟩ := l
  obtain rfl : fence = k.fence (some '`') := hfence
  rw [← lexeme_text h, Lexeme.text]
  cases k with
  | name text =>
      rw [TokenKind.fence, List.nil_append, List.append_nil]
      exact judgedAlike_word hfits.1
  | number value =>
      rw [TokenKind.fence, List.nil_append, List.append_nil]
      exact judgedAlike_word hfits
  | paren side =>
      refine judgedAlike_plain fun c hc => ?_
      obtain rfl : c = side.char := by simpa [TokenKind.fence, TokenKind.content] using hc
      cases side <;> decide
  | operator symbol =>
      obtain ⟨d, e, hpair⟩ := exists_pair_of_mem_catalog hfits.1
      simp only [TokenKind.fence, TokenKind.content, hpair]
      exact judgedAlike_pair (by rw [← hpair, String.ofList_toList]; exact hfits.1)
  | logic body =>
      obtain ⟨d, hd, -, -, -, hbody⟩ := hfits
      obtain rfl : '`' = d := Option.some.inj hd
      simpa [TokenKind.fence, TokenKind.content] using judgedAlike_logic hbody

/-- In front of a fault, the fault shows. -/
lemma foretells_of_fault {start : Offset} {cs : List Char} {e : LexError}
    (h : LexFault ItemOperator.catalog (some '`') start cs e) : Foretells cs (.error e) := by
  cases h with
  | @unterminated d cs hl hr hd hcs =>
      obtain rfl : '`' = d := Option.some.inj hd
      refine ⟨?_, spelt_of_unclosed hcs⟩
      rw [List.count_cons_self, List.count_eq_zero.2 hcs]
      decide
  | @misspelt c more rest hc hres hmunch hnot =>
      obtain rfl : more = [] := by
        cases more with
        | nil => rfl
        | cons d more =>
            have hbegins := hmunch.grows.resolve_left (by simp)
            obtain ⟨hmem, rfl⟩ := begins_pair_iff.1 hbegins
            exact absurd hmem hnot
      refine not_spelt_of_cons (isOperatorChar_iff.2 hres) fun d hd hmem => ?_
      exact hmunch.stops d hd (begins_pair_iff.2 ⟨hmem, rfl⟩)
  | backtick hc hres => exact hc.ne_delimiter rfl

/-- **The judgment of a text foretells the outcome of reading it.** -/
theorem foretells_scan (offset : Offset) (cs : List Char) (read : List Token) :
    Foretells cs (itemEffects.scan offset cs read) := by
  induction offset, cs using scan_induction itemEffects generalizing read with
  | blank offset cs hc =>
      rw [scan_of_blank hc]
      refine .of_judgedAlike (judgedAlike_dropWhile cs) ?_
      rw [hc]
      exact ⟨Even.zero, spelt_iff.2 (piecesSpelt_cons.2 ⟨runsSpelt_nil, piecesSpelt_nil⟩)⟩
  | fault offset cs c rest e hc hl =>
      rw [scan_of_error hc hl]
      refine .of_judgedAlike (judgedAlike_dropWhile cs) ?_
      rw [hc]
      exact foretells_of_fault ((lexeme_eq_error_iff (not_blank_of_dropWhile hc)).1 hl)
  | lexeme offset cs c rest l hc hl ih =>
      rw [scan_of_lexeme hc hl]
      have hspace := judgedAlike_dropWhile cs
      rw [hc] at hspace
      have hlexeme := judgedAlike_of_lexeme (not_blank_of_dropWhile hc) hl
      exact .of_judgedAlike ((hspace.trans hlexeme).trans (judgedAlike_dropWhile l.rest)) (ih _)

/-- **Which texts the language of item effects can read.**  A text is cut into tokens exactly when
its backticks are even in number and all runs of operator characters outside its logic strings are
made of operators.  A misspelt operator is reported exactly when one of the runs is not, a string
without an end when the runs are well and the backticks are odd in number; and nothing else. -/
theorem itemEffects_reads_iff (source : String) :
    ((∃ list, itemEffects.tokenize source = .ok list) ↔
        Even (source.toList.count '`') ∧
          ∀ run, OutsideRun source.toList run → SpellsOperators run) ∧
      ((∃ span text, itemEffects.tokenize source = .error (.invalidOperator span text)) ↔
        ∃ run, OutsideRun source.toList run ∧ ¬ SpellsOperators run) ∧
      ((∃ start d, itemEffects.tokenize source = .error (.unterminatedString start d)) ↔
        (∀ run, OutsideRun source.toList run → SpellsOperators run) ∧
          Odd (source.toList.count '`')) ∧
      ∀ start c, itemEffects.tokenize source ≠ .error (.unexpectedCharacter start c) := by
  have hmisspelt : (∃ run, OutsideRun source.toList run ∧ ¬ SpellsOperators run) ↔
      ¬ Spelt source.toList := by
    simp only [Spelt, not_forall, exists_prop]
  have h : Foretells source.toList (itemEffects.tokenize source) := foretells_scan 0 _ []
  rw [hmisspelt, ← Nat.not_even_iff_odd]
  cases hresult : itemEffects.tokenize source with
  | ok list =>
      rw [hresult] at h
      exact ⟨iff_of_true ⟨list, rfl⟩ h, iff_of_false (by simp) (not_not.2 h.2),
        iff_of_false (by simp) fun h' => h'.2 h.1, by simp⟩
  | error e =>
      rw [hresult] at h
      cases e with
      | unterminatedString start d =>
          exact ⟨iff_of_false (by simp) fun h' => h.1 h'.1, iff_of_false (by simp) (not_not.2 h.2),
            iff_of_true ⟨start, d, rfl⟩ h.symm, by simp⟩
      | invalidOperator span text =>
          exact ⟨iff_of_false (by simp) fun h' => h h'.2, iff_of_true ⟨span, text, rfl⟩ h,
            iff_of_false (by simp) fun h' => h h'.1, by simp⟩
      | unexpectedCharacter start c => exact h.elim

end Language

end EffectLang
