import EffectLang.Proofs.Language.Fault
import EffectLang.Proofs.Language.WellFormed

/-!
# Longest operators

The reader of operators never goes back.  What it takes is the longest operator there is, or no
operator at all.  The second happens in front of an operator too, and then the catalog has a `Gap`:
the reader passes an operator on the way to a longer one and misses that.

Both come from one fact about greedy reading: no operator at the beginning of the text reaches
behind its end (`Munch.isPrefix_of_mem`).  If what was taken is an operator, it is the longest one
(`LongestOperator.of_munch`); if not, any operator there is was passed (`Gap.of_munch`).  The main
statement, for lexemes, for whole texts, and with the converse, is `longest_operator_or_gap`.
-/

namespace EffectLang

/-- An operator that the text begins with, as it does with no longer one. -/
structure LongestOperator (ops : List String) (op : String) (cs : List Char) : Prop where
  mem : op ∈ ops
  isPrefix : op.toList <+: cs
  longest : ∀ op' ∈ ops, op'.toList <+: cs → op'.length ≤ op.length

/-- The text is on the way from an operator to a longer one, and is none itself.  It is neither the
one nor the other, since those are in the catalog. -/
structure Gap (ops : List String) (op text : String) : Prop where
  mem : op ∈ ops
  isPrefix : op.toList <+: text.toList
  notMem : text ∉ ops
  begins : Begins ops text.toList

section Munch

variable {ops : List String} {op text : String} {rest : List Char}

/-- If the greedy reading ends at an operator, there is no longer one. -/
lemma LongestOperator.of_munch (h : Munch ops op.toList rest.head?) (hmem : op ∈ ops) :
    LongestOperator ops op (op.toList ++ rest) where
  mem := hmem
  isPrefix := List.prefix_append _ _
  longest op' hop' hpre := by
    have hle := (h.isPrefix_of_mem hop' hpre).length_le
    rwa [String.length_toList, String.length_toList] at hle

/-- If the greedy reading ends at no operator, it has gone past one. -/
lemma Gap.of_munch (h : Munch ops text.toList rest.head?) (hnot : text ∉ ops) (hop : op ∈ ops)
    (hne : op ≠ "") (hpre : op.toList <+: text.toList ++ rest) : Gap ops op text where
  mem := hop
  isPrefix := h.isPrefix_of_mem hop hpre
  notMem := hnot
  begins := by
    refine h.grows.resolve_left fun hlength => hnot ?_
    -- A single character that begins with an operator is that operator.
    have hshort := h.isPrefix_of_mem hop hpre
    have hpos := List.length_pos_iff.2 (mt String.toList_eq_nil_iff.1 hne)
    have heq := hshort.eq_of_length_le (by omega)
    rwa [← String.toList_inj.1 heq]

end Munch

namespace Language

variable {ops : List String} {delimiter : Option Char}

/-- Where a token begins, the text goes on with the content of the token and with what the tokens
behind it are made from. -/
lemma drop_place {source : String} {list : TokenList} {before after : List Token} {t : Token}
    (h : (ofCatalog ops delimiter).Scans 0 source.toList list)
    (ht : list.tokens = before ++ t :: after) :
    source.toList.drop ((TokenList.ofList before).text.length + t.leading.length) =
      t.content.toList ++ (t.trailing ++ (TokenList.mk after list.trailing).text).toList := by
  have hplace : (TokenList.ofList before).text.length + t.leading.length =
      ((TokenList.ofList before).text.toList ++ t.leading.toList).length := by
    rw [List.length_append, String.length_toList, String.length_toList]
  have hsource : source.toList = (TokenList.ofList before).text.toList ++ t.leading.toList ++
      (t.content.toList ++ (t.trailing ++ (TokenList.mk after list.trailing).text).toList) := by
    have hlist : list = ⟨before ++ t :: after, list.trailing⟩ := by rw [← ht]
    have htext : list.text = source := by rw [h.text, String.ofList_toList]
    rw [← htext, hlist, TokenList.text_append, TokenList.text_cons, Token.fullText]
    simp
  rw [hplace, hsource, List.drop_left]

/-- The operators of a text are the longest ones in their places. -/
lemma longest_of_tokenize {source op : String} {list : TokenList} {before after : List Token}
    {t : Token} (h : (ofCatalog ops delimiter).tokenize source = .ok list)
    (hlist : list.tokens = before ++ t :: after) (hop : t.kind = .operator op) :
    LongestOperator ops op
      (source.toList.drop ((TokenList.ofList before).text.length + t.leading.length)) := by
  have hscans := tokenize_eq_ok_iff.1 h
  have hfits := hscans.fits hlist
  rw [hop] at hfits
  obtain ⟨hmem, -, hstops⟩ := hfits
  rw [drop_place hscans hlist, Token.content, hop]
  exact .of_munch ⟨Or.inr ⟨op, hmem, List.prefix_refl _⟩, hstops⟩ hmem

/-- What is taken in vain for an operator is the end of a gap, if there was an operator. -/
lemma gap_of_fault {start : Offset} {cs : List Char} {span : Span} {text op : String}
    (h : LexFault ops delimiter start cs (.invalidOperator span text)) (hop : op ∈ ops)
    (hne : op ≠ "") (hpre : op.toList <+: cs) : Gap ops op text := by
  cases h with
  | @misspelt c more rest hc hres hmunch hnot =>
      have htext : (String.ofList (c :: more)).toList = c :: more := String.toList_ofList
      rw [← htext] at hmunch
      exact .of_munch hmunch hnot hop hne (by rwa [htext])

/-- In front of a character of some operator there is the longest operator or a fault. -/
lemma longest_or_fault {start : Offset} {c : Char} {cs : List Char} (hc : PlainChar delimiter c)
    (hres : ∃ op ∈ ops, c ∈ op.toList) :
    (∃ op rest, (ofCatalog ops delimiter).lexeme start c cs = .ok ⟨.operator op, [], rest⟩ ∧
        LongestOperator ops op (c :: cs)) ∨
      ∃ text, (ofCatalog ops delimiter).lexeme start c cs =
          .error (.invalidOperator ⟨start, start.skip text.length⟩ text) ∧
        ∀ op ∈ ops, op ≠ "" → op.toList <+: c :: cs → Gap ops op text := by
  obtain ⟨rest, hcs, hmunch⟩ := Trie.extend_ofList_munch ops c cs
  generalize htaken : c :: (((Trie.ofList ops).advance c).extend cs).1 = taken at hmunch
  have htext : c :: cs = taken ++ rest := by
    rw [← htaken, List.cons_append, ← hcs]
  have hne : taken ≠ [] := htaken ▸ List.cons_ne_nil _ _
  rw [← String.toList_ofList (l := taken)] at hmunch htext
  rw [lexeme_of_reserved hc hres, operator_of_munch htext (by simpa using hne) hmunch,
    String.ofList_toList]
  split
  · rename_i hmem
    exact Or.inl ⟨_, rest, rfl, htext ▸ .of_munch hmunch hmem⟩
  · rename_i hnot
    refine Or.inr ⟨_, rfl, fun op hop hne hpre => ?_⟩
    exact .of_munch hmunch hnot hop hne (htext ▸ hpre)

/-- The text of a gap is read to its end, and is no operator. -/
lemma tokenize_of_gap {op text : String} (h : Gap ops op text)
    (hfirst : ∀ c ∈ text.toList.head?, PlainChar delimiter c) :
    (ofCatalog ops delimiter).tokenize text =
      .error (.invalidOperator ⟨0, .after text.length⟩ text) := by
  cases htext : text.toList with
  | nil =>
      -- The empty text is no operator, so it cannot lie behind one.
      have hpre := h.isPrefix
      rw [htext, List.prefix_nil, ← htext, String.toList_inj] at hpre
      exact absurd (hpre ▸ h.mem) h.notMem
  | cons c cs =>
      have hc : PlainChar delimiter c := hfirst c (by rw [htext]; rfl)
      have hmunch : Munch ops (c :: cs) ([] : List Char).head? :=
        ⟨Or.inr (htext ▸ h.begins), by simp⟩
      have hres : ∃ op ∈ ops, c ∈ op.toList := by
        obtain ⟨op', hop', hpre⟩ := h.begins
        exact ⟨op', hop', hpre.subset (by rw [htext]; exact List.mem_cons_self)⟩
      have hnot : String.ofList (c :: cs) ∉ ops := by
        rw [← htext, String.ofList_toList]
        exact h.notMem
      have hfault : LexFault ops delimiter 0 (c :: (cs ++ []))
          (.invalidOperator ⟨0, (0 : Offset).skip (c :: cs).length⟩ (String.ofList (c :: cs))) :=
        .misspelt hc hres hmunch hnot
      rw [List.append_nil, Offset.zero_skip, ← htext, String.ofList_toList, String.length_toList,
        htext] at hfault
      have hscan : (ofCatalog ops delimiter).scan 0 ([] ++ c :: cs) [] = _ :=
        scan_of_fault blank_nil hc.not_blank hfault []
      rwa [tokenize, htext]

/-- **Greedy reading finds the longest operator, or the catalog has a gap.**  In front of a
character of some operator the reader takes the longest operator that the text begins with, or
reports the text that it took; and if there was an operator, then there is a gap from it to that
text.  So it is with the operators of whole texts, each in its place behind the tokens before it, and
with the errors, each behind a text that is read without one.  Below `2 ^ 32` characters the spans
tell these places exactly.  Conversely, the text of a gap is rejected, although it begins with an
operator.  The empty text is no operator, even if the catalog lists it. -/
theorem longest_operator_or_gap (ops : List String) (delimiter : Option Char) :
    (∀ start c cs, PlainChar delimiter c → (∃ op ∈ ops, c ∈ op.toList) →
      (∃ op rest, (ofCatalog ops delimiter).lexeme start c cs = .ok ⟨.operator op, [], rest⟩ ∧
          LongestOperator ops op (c :: cs)) ∨
        ∃ text, (ofCatalog ops delimiter).lexeme start c cs =
            .error (.invalidOperator ⟨start, start.skip text.length⟩ text) ∧
          ∀ op ∈ ops, op ≠ "" → op.toList <+: c :: cs → Gap ops op text) ∧
      (∀ source list, (ofCatalog ops delimiter).tokenize source = .ok list →
        ∀ before t after, list.tokens = before ++ t :: after → ∀ op, t.kind = .operator op →
          LongestOperator ops op
              (source.toList.drop ((TokenList.ofList before).text.length + t.leading.length)) ∧
            t.span.start = .after ((TokenList.ofList before).text.length + t.leading.length) ∧
            (source.length < 2 ^ 32 →
              LongestOperator ops op (source.toList.drop t.span.start.toNat))) ∧
      (∀ source span text,
        (ofCatalog ops delimiter).tokenize source = .error (.invalidOperator span text) →
          ∃ before rest, source.toList = before ++ rest ∧ span.start = .after before.length ∧
            (∃ list, (ofCatalog ops delimiter).tokenize (String.ofList before) = .ok list) ∧
            (∀ op ∈ ops, op ≠ "" → op.toList <+: rest → Gap ops op text) ∧
            (source.length < 2 ^ 32 →
              ∀ op ∈ ops, op ≠ "" → op.toList <+: source.toList.drop span.start.toNat →
                Gap ops op text)) ∧
      ∀ op text, Gap ops op text → (∀ c ∈ text.toList.head?, PlainChar delimiter c) →
        (ofCatalog ops delimiter).tokenize text =
          .error (.invalidOperator ⟨0, .after text.length⟩ text) := by
  refine ⟨fun start c cs hc hres => longest_or_fault hc hres, ?_, ?_,
    fun op text hgap hfirst => tokenize_of_gap hgap hfirst⟩
  · intro source list h before t after hlist op hop
    have hlongest := longest_of_tokenize h hlist hop
    have hscan := tokenize_eq_ok_iff.1 h
    refine ⟨hlongest, congrArg Span.start (hlist ▸ hscan.stamped).span_eq, fun hsize => ?_⟩
    have hplaced := hscan.placed (by rwa [String.length_toList])
    have hstart := (Stretch.mk.inj (hlist ▸ hplaced).range_eq).1
    rwa [hstart, Nat.zero_add]
  · intro source span text h
    obtain ⟨before, c, rest, hsource, hfault, hbefore, -⟩ := fault_of_error h
    have hstart : span.start = .after before.length := hfault.span_start
    have hgap : ∀ op ∈ ops, op ≠ "" → op.toList <+: c :: rest → Gap ops op text :=
      fun op hop hne hpre => gap_of_fault hfault hop hne hpre
    refine ⟨before, c :: rest, hsource, hstart, hbefore, hgap, fun hsize => ?_⟩
    have hlt : before.length < 2 ^ 32 := by
      rw [← String.length_toList, hsource, List.length_append] at hsize
      omega
    rwa [hstart, Offset.toNat_after hlt, hsource, List.drop_left]

/-- With `=` and `=>>`, the text `=>` lies in a gap; the longer operator is found, and the shorter
one in front of another character. -/
theorem longest_operator_or_gap_overshot :
    Gap ["=", "=>>"] "=" "=>" ∧
      (ofCatalog ["=", "=>>"] none).tokenize "=>" = .error (.invalidOperator ⟨0, 2⟩ "=>") ∧
      LongestOperator ["=", "=>>"] "=>>" ("A=>>=".toList.drop 1) ∧
      LongestOperator ["=", "=>>"] "=" ("A=>>=".toList.drop 4) := by
  have hgap : Gap ["=", "=>>"] "=" "=>" :=
    ⟨by decide, by decide, by decide, "=>>", by decide, by decide⟩
  have h : (ofCatalog ["=", "=>>"] none).tokenize "A=>>=" =
      .ok ⟨[⟨.name "A", ⟨0, 1⟩, "", ""⟩, ⟨.operator "=>>", ⟨1, 4⟩, "", ""⟩,
        ⟨.operator "=", ⟨4, 5⟩, "", ""⟩], ""⟩ := by cbv
  obtain ⟨-, hlongest, -, hrejected⟩ := longest_operator_or_gap ["=", "=>>"] none
  refine ⟨hgap, hrejected _ _ hgap ?_, (hlongest _ _ h [_] _ [_] rfl _ rfl).1,
    (hlongest _ _ h [_, _] _ [] rfl _ rfl).1⟩
  rintro c ⟨⟩
  exact ⟨by decide, by decide, by decide, by decide⟩

end Language

end EffectLang
