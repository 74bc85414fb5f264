import EffectLang.Language.Check
import EffectLang.Proofs.Grammar.Relabel
import EffectLang.Proofs.Language.Reach

/-!
# The layout of a text

A text that can be cut into tokens is white space, and then tokens with white space behind each of
them: `Layout` takes it apart in this way.  `Layout.Reformats` allows to change a layout: white
space may be changed and inserted, but may not vanish between two tokens, and a logic string may
get another body.  The main statement is `readAlike_of_reformats`: if no operator has white space
in it, then what is made of a text does not change.

**The scanner.**  In a layout that comes from a text every token fits the character behind it
(`fitting_of_scans`), and a layout of which this holds is cut as it was laid out
(`exists_scans_of_fitting`).  White space behind a token fits it always (`Fits.of_blank`), and
without new white space the next token begins as before, so a reformatted layout is fitting again
(`Relaid.fitting`).

**The parser and the verdict** look at the skeletons of the tokens, which have not changed
(`Grammar.alike_of_erase_eq`).
-/

namespace EffectLang

/-! ## Layouts -/

/-- A token as it stands in a text, and the white space behind it. -/
structure Piece where
  kind : TokenKind
  gap : List Char

/-- The characters of a token, with its delimiters, and of the white space behind it. -/
def Piece.chars (delimiter : Option Char) (p : Piece) : List Char :=
  p.kind.fence delimiter ++ p.kind.content.toList ++ p.kind.fence delimiter ++ p.gap

/-- The white space at the beginning of a text, and the pieces that follow. -/
structure Layout where
  indent : List Char
  pieces : List Piece

/-- The text of a layout. -/
def Layout.text (delimiter : Option Char) (l : Layout) : String :=
  String.ofList (l.indent ++ l.pieces.flatMap (Piece.chars delimiter))

/-- What stands behind the content of a token, without a delimiter. -/
def Token.piece (delimiter : Option Char) (t : Token) : Piece :=
  ⟨t.kind, t.trailing.toList.drop (t.kind.fence delimiter).length⟩

/-- What stands in front of the first token, without a delimiter. -/
def TokenList.indent (delimiter : Option Char) (list : TokenList) : List Char :=
  match list.tokens with
  | [] => list.trailing.toList
  | t :: _ => t.leading.toList.rdrop (t.kind.fence delimiter).length

/-- The layout of the text that was cut into these tokens. -/
def TokenList.layout (delimiter : Option Char) (list : TokenList) : Layout :=
  ⟨list.indent delimiter, list.tokens.map (Token.piece delimiter)⟩

/-- Every token fits the character that comes next, and there is white space between them. -/
inductive Fitting (ops : List String) (delimiter : Option Char) : List Piece → Prop
  | nil : Fitting ops delimiter []
  | cons {p : Piece} {ps : List Piece} (hgap : Blank p.gap)
      (hfits : p.kind.Fits ops delimiter (p.gap ++ ps.flatMap (Piece.chars delimiter)).head?)
      (h : Fitting ops delimiter ps) : Fitting ops delimiter (p :: ps)

namespace Language

variable {ops : List String} {delimiter : Option Char} {offset : Offset} {cs space : List Char}
  {list : TokenList} {ps : List Piece}

lemma piece_token {l : Lexeme} (hfence : l.fence = l.kind.fence delimiter)
    (before after : List Char) :
    (l.token offset before after).piece delimiter = ⟨l.kind, after⟩ := by
  simp [Token.piece, Lexeme.token, hfence]

lemma indent_of_scans (h : (ofCatalog ops delimiter).Scans offset cs list) :
    list.indent delimiter = cs.takeWhile Text.isBlank := by
  cases h with
  | blank hc =>
      have hcs := List.takeWhile_append_dropWhile (p := Text.isBlank) (l := cs)
      rw [hc, List.append_nil] at hcs
      simp [TokenList.indent, hcs]
  | lexeme hc hl hs =>
      obtain ⟨hfence, -⟩ := fits_of_lexeme (not_blank_of_dropWhile hc) hl
      simp [TokenList.indent, Lexeme.token, hfence]

/-- The pieces of a text make it up, and they are fitting. -/
theorem fitting_of_scans (h : (ofCatalog ops delimiter).Scans offset cs list) :
    Fitting ops delimiter (list.tokens.map (Token.piece delimiter)) ∧
      (list.tokens.map (Token.piece delimiter)).flatMap (Piece.chars delimiter) =
        cs.dropWhile Text.isBlank := by
  induction h with
  | blank hc => exact ⟨.nil, hc.symm⟩
  | @lexeme offset cs rest c l list hc hl hs ih =>
      obtain ⟨hfence, hfits⟩ := fits_of_lexeme (not_blank_of_dropWhile hc) hl
      obtain ⟨hfitting, hchars⟩ := ih
      rw [List.dropWhile_idempotent] at hchars
      rw [List.map_cons, piece_token hfence]
      refine ⟨.cons (blank_takeWhile l.rest) ?_ hfitting, ?_⟩
      · rw [hchars, List.takeWhile_append_dropWhile]
        exact hfits
      · rw [List.flatMap_cons, hchars, hc, ← lexeme_text hl]
        simp [Piece.chars, Lexeme.text, hfence, List.takeWhile_append_dropWhile]

/-- The text of pieces does not begin with white space. -/
lemma head_chars_not_blank (h : Fitting ops delimiter ps) :
    ∀ c ∈ (ps.flatMap (Piece.chars delimiter)).head?, Text.isBlank c = false := by
  cases h with
  | nil => simp
  | @cons p ps hgap hfits h =>
      obtain ⟨c, cs, hcs, hc⟩ := hfits.exists_cons
      rw [List.flatMap_cons, Piece.chars, hcs]
      rintro d ⟨⟩
      exact hc

/-- A fitting layout is cut as it was laid out. -/
theorem exists_scans_of_fitting (h : Fitting ops delimiter ps) :
    ∀ offset space, Blank space → ∃ list,
      (ofCatalog ops delimiter).Scans offset (space ++ ps.flatMap (Piece.chars delimiter)) list ∧
        list.tokens.map Token.kind = ps.map Piece.kind := by
  induction h with
  | nil =>
      intro offset space hspace
      have hc : (space ++ []).dropWhile Text.isBlank = [] := by
        rw [List.append_nil]
        exact List.dropWhile_eq_nil_iff.2 hspace
      exact ⟨_, .blank hc, rfl⟩
  | @cons p ps hgap hfits h ih =>
      intro offset space hspace
      obtain ⟨t, offset', hkind, hreach⟩ : ∃ t offset', t.kind = p.kind ∧
          (ofCatalog ops delimiter).Reaches offset
            (space ++ (p.kind.fence delimiter ++ p.kind.content.toList ++ p.kind.fence delimiter ++
              (p.gap ++ ps.flatMap (Piece.chars delimiter)))) [t] offset'
            (ps.flatMap (Piece.chars delimiter)) :=
        ⟨_, _, rfl, Reaches.of_fits hspace hgap (head_chars_not_blank h) hfits (.refl _ _)⟩
      obtain ⟨list, hscans, hkinds⟩ := ih offset' [] blank_nil
      refine ⟨⟨t :: list.tokens, list.trailing⟩, ?_, ?_⟩
      · rw [List.flatMap_cons, Piece.chars, List.append_assoc _ p.gap]
        exact hreach.scans hscans
      · rw [List.map_cons, List.map_cons, hkind, hkinds]

end Language

/-! ## Changing a layout -/

/-- The same kind, but for the body of a logic string. -/
inductive TokenKind.Rebodied (delimiter : Option Char) : TokenKind → TokenKind → Prop
  | refl (k : TokenKind) : Rebodied delimiter k k
  | logic (body body' : String) (h : ∀ d ∈ delimiter, d ∉ body'.toList) :
      Rebodied delimiter (.logic body) (.logic body')

/-- White space may be changed and inserted, but may not vanish between two pieces. -/
inductive Relaid (delimiter : Option Char) : List Piece → List Piece → Prop
  | nil : Relaid delimiter [] []
  | last {k k' : TokenKind} {gap gap' : List Char} (hkind : k.Rebodied delimiter k')
      (hgap : Blank gap') : Relaid delimiter [⟨k, gap⟩] [⟨k', gap'⟩]
  | cons {k k' : TokenKind} {gap gap' : List Char} {p p' : Piece} {ps ps' : List Piece}
      (hkind : k.Rebodied delimiter k') (hgap : Blank gap') (hkept : gap ≠ [] → gap' ≠ [])
      (h : Relaid delimiter (p :: ps) (p' :: ps')) :
      Relaid delimiter (⟨k, gap⟩ :: p :: ps) (⟨k', gap'⟩ :: p' :: ps')

/-- The same tokens, but for the bodies of logic strings, with other white space around them. -/
structure Layout.Reformats (delimiter : Option Char) (l l' : Layout) : Prop where
  indent : Blank l'.indent
  pieces : Relaid delimiter l.pieces l'.pieces

section Reformat

variable {ops : List String} {delimiter next : Option Char} {k k' : TokenKind}

/-- Another body changes nothing about what may follow a token. -/
lemma TokenKind.Rebodied.fits (h : k.Rebodied delimiter k') (hfits : k.Fits ops delimiter next) :
    k'.Fits ops delimiter next := by
  cases h with
  | refl k => exact hfits
  | logic body body' hbody =>
      obtain ⟨d, hd, hl, hr, hblank, -⟩ := hfits
      exact ⟨d, hd, hl, hr, hblank, hbody d hd⟩

lemma TokenKind.Rebodied.eraseBody_eq (h : k.Rebodied delimiter k') :
    k.eraseBody = k'.eraseBody := by
  cases h <;> rfl

/-- A token whose string got another body begins with the same character. -/
lemma TokenKind.Rebodied.head?_eq (h : k.Rebodied delimiter k')
    (hfits : k.Fits ops delimiter next) (rest rest' : List Char) :
    (k'.fence delimiter ++ k'.content.toList ++ rest').head? =
      (k.fence delimiter ++ k.content.toList ++ rest).head? := by
  cases h with
  | refl k =>
      obtain ⟨c, cs, hcs, -⟩ := hfits.exists_cons
      rw [hcs]
      rfl
  | logic body body' hbody =>
      obtain ⟨d, rfl, -⟩ := hfits
      rfl

/-- White space ends every token. -/
lemma TokenKind.Fits.of_blank (hops : ∀ op ∈ ops, ∀ c ∈ op.toList, Text.isBlank c = false)
    (h : k.Fits ops delimiter next) {b : Char} (hb : Text.isBlank b = true) :
    k.Fits ops delimiter (some b) := by
  have hstops : ∀ c ∈ some b, ¬ WordChar ops delimiter c := by
    rintro c ⟨⟩ hword
    rw [hword.not_blank] at hb
    cases hb
  cases k with
  | name text => exact ⟨⟨h.1.ne_nil, h.1.wordChar, hstops⟩, h.2⟩
  | number value => exact ⟨h.ne_nil, h.wordChar, hstops⟩
  | operator symbol =>
      refine ⟨h.1, h.2.1, ?_⟩
      rintro c ⟨⟩ ⟨op, hop, hprefix⟩
      have hmem : b ∈ op.toList := hprefix.subset (by simp)
      rw [hops op hop b hmem] at hb
      cases hb
  | paren side => trivial
  | logic body => exact h

/-- Behind a token there is white space, or what was there before. -/
lemma TokenKind.Rebodied.fits_behind (h : k.Rebodied delimiter k')
    (hops : ∀ op ∈ ops, ∀ c ∈ op.toList, Text.isBlank c = false)
    (hfits : k.Fits ops delimiter next) {gap rest : List Char} (hgap : Blank gap)
    (hnext : gap = [] → ∀ c ∈ rest.head?, next = some c) :
    k'.Fits ops delimiter (gap ++ rest).head? := by
  cases gap with
  | nil => exact Language.fits_of_head? (h.fits hfits) (hnext rfl)
  | cons b gap => exact (h.fits hfits).of_blank hops (hgap b List.mem_cons_self)

lemma Relaid.rebodied {p p' : Piece} {ps ps' : List Piece}
    (h : Relaid delimiter (p :: ps) (p' :: ps')) : p.kind.Rebodied delimiter p'.kind := by
  cases h with
  | last hkind hgap => exact hkind
  | cons hkind hgap hkept h => exact hkind

/-- Laid out anew, the pieces begin with the same character. -/
lemma Relaid.head?_chars {p p' : Piece} {ps ps' : List Piece}
    (h : Relaid delimiter (p :: ps) (p' :: ps')) (hfits : p.kind.Fits ops delimiter next) :
    ((p' :: ps').flatMap (Piece.chars delimiter)).head? =
      ((p :: ps).flatMap (Piece.chars delimiter)).head? := by
  have hhead := h.rebodied.head?_eq hfits
    (p.kind.fence delimiter ++ (p.gap ++ ps.flatMap (Piece.chars delimiter)))
    (p'.kind.fence delimiter ++ (p'.gap ++ ps'.flatMap (Piece.chars delimiter)))
  simpa only [List.flatMap_cons, Piece.chars, List.append_assoc] using hhead

/-- A reformatted layout is fitting. -/
theorem Relaid.fitting {ps ps' : List Piece} (h : Relaid delimiter ps ps')
    (hops : ∀ op ∈ ops, ∀ c ∈ op.toList, Text.isBlank c = false)
    (hfitting : Fitting ops delimiter ps) : Fitting ops delimiter ps' := by
  induction h with
  | nil => exact .nil
  | last hkind hgap =>
      cases hfitting with
      | cons _ hfits _ => exact .cons hgap (hkind.fits_behind hops hfits hgap (by simp)) .nil
  | @cons k k' gap gap' p p' ps ps' hkind hgap hkept h ih =>
      cases hfitting with
      | cons _ hfits hrest =>
          refine .cons hgap (hkind.fits_behind hops hfits hgap ?_) (ih hrest)
          intro hnil c hc
          -- Where there is no white space now there was none, and the next piece begins as it did.
          have hnil' : gap = [] := not_not.1 fun hne => hkept hne hnil
          cases hrest with
          | cons _ hfits' _ =>
              rw [← hc, hnil', List.nil_append, h.head?_chars hfits']

lemma Relaid.eraseBody_eq {ps ps' : List Piece} (h : Relaid delimiter ps ps') :
    (ps.map Piece.kind).map TokenKind.eraseBody = (ps'.map Piece.kind).map TokenKind.eraseBody := by
  induction h with
  | nil => rfl
  | last hkind hgap => exact congrArg (fun k => [k]) hkind.eraseBody_eq
  | cons hkind hgap hkept h ih =>
      exact congrArg₂ List.cons hkind.eraseBody_eq ih

end Reformat

/-! ## What is made of a text -/

/-- The same verdict on trees that differ in spans, in the text around the tokens and in the bodies
of logic strings. -/
structure EffectCheck.Alike (c c' : EffectCheck) : Prop where
  tree : c.expr.erase = c'.expr.erase
  valid : c.valid = c'.valid
  types : c.types = c'.types
  names : c.expr.names = c'.expr.names

namespace Language

/-- Two texts are accepted with the same verdict, or refused by the parser for the same reason. -/
inductive ReadAlike (L : Language) (source source' : String) : Prop
  | accepted {c c' : EffectCheck} (hparse : L.parse source = .ok c.expr)
      (hparse' : L.parse source' = .ok c'.expr) (hcheck : L.check source = .ok c)
      (hcheck' : L.check source' = .ok c') (h : c.Alike c') : ReadAlike L source source'
  | refused {err err' : Grammar.ParseError} (hparse : L.parse source = .error (.parsing err))
      (hparse' : L.parse source' = .error (.parsing err'))
      (hcheck : L.check source = .error (.parsing err))
      (hcheck' : L.check source' = .error (.parsing err')) (hkind : err.kind = err'.kind)
      (hcontext : err.context = err'.context) : ReadAlike L source source'

/-- What a text is parsed as, from its tokens. -/
lemma parse_of_tokenize {L : Language} {source : String} {list : TokenList}
    (h : L.tokenize source = .ok list) :
    L.parse source = (Grammar.parse list.tokens).mapError .parsing := by
  simp only [Language.parse, h]
  cases Grammar.parse list.tokens <;> rfl

/-- What a text is checked as, from its tree. -/
lemma check_of_parse {L : Language} {source : String} {e : Expr} (h : L.parse source = .ok e) :
    L.check source = .ok ⟨e, e.check.valid, e.check.types⟩ := by
  simp only [check, h]

lemma check_of_parse_error {L : Language} {source : String} {e : EffectError}
    (h : L.parse source = .error e) : L.check source = .error e := by
  simp only [check, h]

lemma map_erase_eq (ts : List Token) :
    ts.map Token.erase = ((ts.map Token.kind).map TokenKind.eraseBody).map Token.bare := by
  rw [List.map_map, List.map_map]
  rfl

/-- Texts whose tokens differ only in what `Token.erase` erases are read alike. -/
lemma readAlike_of_erase_eq {L : Language} {source source' : String} {list list' : TokenList}
    (h : L.tokenize source = .ok list) (h' : L.tokenize source' = .ok list')
    (herase : list.tokens.map Token.erase = list'.tokens.map Token.erase) :
    L.ReadAlike source source' := by
  have hparse := parse_of_tokenize h
  have hparse' := parse_of_tokenize h'
  have halike := Grammar.alike_of_erase_eq herase
  generalize Grammar.parse list.tokens = outcome at hparse halike
  generalize Grammar.parse list'.tokens = outcome' at hparse' halike
  cases halike with
  | @ok e e' htree =>
      have hparse : L.parse source = .ok e := hparse
      have hparse' : L.parse source' = .ok e' := hparse'
      obtain ⟨hcheck, hnames⟩ := Expr.check_eq_of_erase_eq htree
      have halike : EffectCheck.Alike ⟨e, e.check.valid, e.check.types⟩
          ⟨e', e'.check.valid, e'.check.types⟩ :=
        ⟨htree, congrArg Verdict.valid hcheck, congrArg Verdict.types hcheck, hnames⟩
      exact .accepted hparse hparse' (check_of_parse hparse) (check_of_parse hparse') halike
  | @error err err' hkind hcontext =>
      have hparse : L.parse source = .error (.parsing err) := hparse
      have hparse' : L.parse source' = .error (.parsing err') := hparse'
      exact .refused hparse hparse' (check_of_parse_error hparse) (check_of_parse_error hparse')
        hkind hcontext

/-- **Formatting and the bodies of logic strings do not count.**  If no operator has white space
in it, then a reformatted text is cut into the tokens that it was laid out with.  It is accepted
with the same tree, verdict and names, or refused for the same reason in the same context. -/
theorem readAlike_of_reformats {ops : List String} {delimiter : Option Char} {source : String}
    {list : TokenList} {layout : Layout}
    (hops : ∀ op ∈ ops, ∀ c ∈ op.toList, Text.isBlank c = false)
    (h : (ofCatalog ops delimiter).tokenize source = .ok list)
    (hlayout : (list.layout delimiter).Reformats delimiter layout) :
    (list.layout delimiter).text delimiter = source ∧
      (∃ list', (ofCatalog ops delimiter).tokenize (layout.text delimiter) = .ok list' ∧
        list'.tokens.map Token.kind = layout.pieces.map Piece.kind) ∧
      (ofCatalog ops delimiter).ReadAlike source (layout.text delimiter) := by
  have hscans := tokenize_eq_ok_iff.1 h
  obtain ⟨hfitting, hchars⟩ := fitting_of_scans hscans
  obtain ⟨list', hscans', hkinds⟩ :=
    exists_scans_of_fitting (hlayout.pieces.fitting hops hfitting) 0 _ hlayout.indent
  have h' : (ofCatalog ops delimiter).tokenize (layout.text delimiter) = .ok list' := by
    rw [tokenize_eq_ok_iff, Layout.text, String.toList_ofList]
    exact hscans'
  refine ⟨?_, ⟨list', h', hkinds⟩, readAlike_of_erase_eq h h' ?_⟩
  · rw [Layout.text, TokenList.layout, hchars, indent_of_scans hscans,
      List.takeWhile_append_dropWhile, String.ofList_toList]
  · have hkinds₀ : list.tokens.map Token.kind =
        (list.layout delimiter).pieces.map Piece.kind := by
      rw [TokenList.layout, List.map_map]
      rfl
    rw [map_erase_eq, map_erase_eq, hkinds₀, hkinds, hlayout.pieces.eraseBody_eq]

/-- A guarded assignment, written with other white space and with another condition: the first text
is an item effect on `Gem`, and so the second one is. -/
theorem readAlike_of_reformats_guarded :
    (∀ op ∈ ItemOperator.catalog, ∀ c ∈ op.toList, Text.isBlank c = false) ∧
      ∃ list layout, itemEffects.tokenize "`a b` =>Gem+=7" = .ok list ∧
        (list.layout (some '`')).Reformats (some '`') layout ∧
        layout.text (some '`') = "\n``\t=> Gem+= 7 " ∧
        (∃ list', itemEffects.tokenize "\n``\t=> Gem+= 7 " = .ok list' ∧
          list'.tokens.map Token.kind =
            [.logic "", .operator "=>", .name "Gem", .operator "+=", .number 7]) ∧
        itemEffects.ReadAlike "`a b` =>Gem+=7" "\n``\t=> Gem+= 7 " ∧
        ∃ c c', itemEffects.check "`a b` =>Gem+=7" = .ok c ∧
          itemEffects.check "\n``\t=> Gem+= 7 " = .ok c' ∧
          c.isItemEffect = true ∧ c.expr.names = ["Gem"] ∧
          c'.isItemEffect = true ∧ c'.expr.names = ["Gem"] := by
  have hops : ∀ op ∈ ItemOperator.catalog, ∀ c ∈ op.toList, Text.isBlank c = false := by
    have h : (ItemOperator.catalog.flatMap String.toList).all (!Text.isBlank ·) = true := by cbv
    simpa using h
  have h : (ofCatalog ItemOperator.catalog (some '`')).tokenize "`a b` =>Gem+=7" =
      .ok ⟨[⟨.logic "a b", ⟨1, 4⟩, "`", "` "⟩, ⟨.operator "=>", ⟨6, 8⟩, "", ""⟩,
        ⟨.name "Gem", ⟨8, 11⟩, "", ""⟩, ⟨.operator "+=", ⟨11, 13⟩, "", ""⟩,
        ⟨.number 7, ⟨13, 14⟩, "", ""⟩], ""⟩ := by cbv
  have hlayout : Layout.Reformats (some '`')
      ⟨[], [⟨.logic "a b", [' ']⟩, ⟨.operator "=>", []⟩, ⟨.name "Gem", []⟩, ⟨.operator "+=", []⟩,
        ⟨.number 7, []⟩]⟩
      ⟨['\n'], [⟨.logic "", ['\t']⟩, ⟨.operator "=>", [' ']⟩, ⟨.name "Gem", []⟩,
        ⟨.operator "+=", [' ']⟩, ⟨.number 7, [' ']⟩]⟩ := by
    have hspace : Blank [' '] := blank_singleton rfl
    refine ⟨blank_singleton rfl, ?_⟩
    refine .cons (.logic _ _ (by simp)) (blank_singleton rfl) (by simp) ?_
    refine .cons (.refl _) hspace (by simp) (.cons (.refl _) blank_nil (by simp) ?_)
    exact .cons (.refl _) hspace (by simp) (.last (.refl _) hspace)
  have htext : Layout.text (some '`')
      ⟨['\n'], [⟨.logic "", ['\t']⟩, ⟨.operator "=>", [' ']⟩, ⟨.name "Gem", []⟩,
        ⟨.operator "+=", [' ']⟩, ⟨.number 7, [' ']⟩]⟩ = "\n``\t=> Gem+= 7 " := by cbv
  obtain ⟨-, ⟨list', hlist', hkinds⟩, halike⟩ := readAlike_of_reformats hops h hlayout
  rw [htext] at hlist' halike
  obtain ⟨c, hc, hitem, hnames⟩ : ∃ c, itemEffects.check "`a b` =>Gem+=7" = .ok c ∧
      c.isItemEffect = true ∧ c.expr.names = ["Gem"] := ⟨_, by cbv, by cbv, by cbv⟩
  refine ⟨hops, _, _, h, hlayout, htext, ⟨list', hlist', hkinds⟩, halike, ?_⟩
  cases halike with
  | refused hparse hparse' hcheck hcheck' hkind hcontext => cases hc.symm.trans hcheck
  | @accepted d d' hparse hparse' hcheck hcheck' hd =>
      obtain rfl : d = c := Except.ok.inj (hcheck.symm.trans hc)
      refine ⟨d, d', hcheck, hcheck', hitem, hnames, ?_, hd.names.symm.trans hnames⟩
      rw [EffectCheck.isItemEffect, ← hd.valid, ← hd.types]
      exact hitem

end Language

end EffectLang
