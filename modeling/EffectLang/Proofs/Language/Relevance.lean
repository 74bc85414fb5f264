import EffectLang.Language.Check
import EffectLang.Proofs.Language.Reach

/-!
# What a text asks of its language

A language is asked about the characters of the text and about nothing else.  `AgreeOn cs` says of
two languages that they answer alike when they are asked about the characters `cs`: the operators
that have one of them are the same, and so is the delimiter if it is one of them.  The order of the
catalog, repetitions in it, and operators that have no character in common with the text make no
difference.  The main statement is `reads_eq_of_touching_eq`: then tokens, tree, verdict and error
are the same.

**The tests.**  A character is reserved, delimits strings or belongs to words in both languages or
in neither.  Whether an operator begins with some characters does not change as long as there is
one character at least (`AgreeOn.begins_iff`), hence the greedy reading of an operator ends at the
same place (`AgreeOn.munch`) and finds an operator or not (`AgreeOn.mem_iff`).

**The scan.**  The text behind a lexeme has no new characters, so the two languages agree on it
again (`AgreeOn.scan_eq`).
-/

namespace EffectLang

/-- The operators of a catalog that have one of these characters.  The empty text has none. -/
def touching (ops : List String) (cs : List Char) : Set String :=
  {op | op ∈ ops ∧ ∃ c ∈ op.toList, c ∈ cs}

lemma touching_subset {ops ops' : List String} {cs : List Char}
    (h : ∀ op ∈ ops, (∃ c ∈ op.toList, c ∈ cs) → op ∈ ops') :
    touching ops cs ⊆ touching ops' cs :=
  fun op ⟨hop, hc⟩ => ⟨h op hop hc, hc⟩

/-- Two languages that cannot be told apart by asking about the characters `cs`. -/
structure AgreeOn (cs : List Char) (ops ops' : List String) (delimiter delimiter' : Option Char) :
    Prop where
  operators : touching ops cs = touching ops' cs
  delimiter : ∀ c ∈ cs, delimiter = some c ↔ delimiter' = some c

namespace AgreeOn

variable {cs : List Char} {ops ops' : List String} {delimiter delimiter' : Option Char}
  {c : Char} {text rest : List Char} {start : Offset}

/-- An operator with a character of the text is in both catalogs or in neither. -/
lemma mem_iff (h : AgreeOn cs ops ops' delimiter delimiter') {op : String} (hop : c ∈ op.toList)
    (hc : c ∈ cs) : op ∈ ops ↔ op ∈ ops' := by
  have htouching := Set.ext_iff.1 h.operators op
  have hc : ∃ c ∈ op.toList, c ∈ cs := ⟨c, hop, hc⟩
  simpa only [touching, Set.mem_ofPred_eq, hc, and_true] using htouching

/-! ## The tests of the reader -/

lemma reserved_iff (h : AgreeOn cs ops ops' delimiter delimiter') (hc : c ∈ cs) :
    (∃ op ∈ ops, c ∈ op.toList) ↔ ∃ op ∈ ops', c ∈ op.toList :=
  exists_congr fun _ => and_congr_left fun hop => h.mem_iff hop hc

lemma isReserved_eq (h : AgreeOn cs ops ops' delimiter delimiter') (hc : c ∈ cs) :
    (Language.ofCatalog ops delimiter).isReserved c =
      (Language.ofCatalog ops' delimiter').isReserved c := by
  rw [Bool.eq_iff_iff, Language.isReserved_ofCatalog_iff, Language.isReserved_ofCatalog_iff]
  exact h.reserved_iff hc

lemma isDelimiter_eq (h : AgreeOn cs ops ops' delimiter delimiter') (hc : c ∈ cs) :
    (Language.ofCatalog ops delimiter).isDelimiter c =
      (Language.ofCatalog ops' delimiter').isDelimiter c := by
  rw [Bool.eq_iff_iff, Language.isDelimiter_ofCatalog, Language.isDelimiter_ofCatalog]
  exact h.delimiter c hc

/-- A character of the text belongs to words in both languages or in neither. -/
lemma wordChar_iff (h : AgreeOn cs ops ops' delimiter delimiter') (hc : c ∈ cs) :
    WordChar ops delimiter c ↔ WordChar ops' delimiter' c := by
  rw [← Language.isWordChar_ofCatalog, ← Language.isWordChar_ofCatalog, Language.isWordChar,
    Language.isWordChar, h.isReserved_eq hc, h.isDelimiter_eq hc]

/-! ## The readers -/

/-- An operator that begins with a character of the text has that character. -/
lemma begins_iff (h : AgreeOn cs ops ops' delimiter delimiter') (hc : c ∈ cs) :
    Begins ops (c :: text) ↔ Begins ops' (c :: text) :=
  exists_congr fun _ => and_congr_left fun hbegin =>
    h.mem_iff (hbegin.subset List.mem_cons_self) hc

/-- The greedy reading of an operator is the same in both languages. -/
lemma munch (h : AgreeOn cs ops ops' delimiter delimiter') (hc : c ∈ cs) {next : Option Char}
    (hmunch : Munch ops (c :: text) next) : Munch ops' (c :: text) next where
  grows := hmunch.grows.imp_right (h.begins_iff hc).1
  stops d hd hbegins := hmunch.stops d hd ((h.begins_iff hc).2 hbegins)

lemma operator_eq (h : AgreeOn cs ops ops' delimiter delimiter') (hc : c ∈ cs) :
    (Language.ofCatalog ops delimiter).operator start c rest =
      (Language.ofCatalog ops' delimiter').operator start c rest := by
  obtain ⟨rest', hrest, hmunch⟩ := Trie.extend_ofList_munch ops c rest
  have htext : c :: rest = c :: (((Trie.ofList ops).advance c).extend rest).1 ++ rest' := by
    rw [List.cons_append, ← hrest]
  have hhead : c ∈ (String.ofList
      (c :: (((Trie.ofList ops).advance c).extend rest).1)).toList := by
    rw [String.toList_ofList]
    exact List.mem_cons_self
  have hmem := h.mem_iff hhead hc
  rw [Language.operator_of_munch htext (List.cons_ne_nil _ _) hmunch,
    Language.operator_of_munch htext (List.cons_ne_nil _ _) (h.munch hc hmunch)]
  simp only [hmem]

/-- The longest word is the same in both languages. -/
lemma word (h : AgreeOn cs ops ops' delimiter delimiter') {next : Option Char}
    (htext : text ⊆ cs) (hnext : ∀ d ∈ next, d ∈ cs) (hword : Word ops delimiter text next) :
    Word ops' delimiter' text next where
  ne_nil := hword.ne_nil
  wordChar d hd := (h.wordChar_iff (htext hd)).1 (hword.wordChar d hd)
  stops d hd hchar := hword.stops d hd ((h.wordChar_iff (hnext d hd)).2 hchar)

lemma word_eq (h : AgreeOn cs ops ops' delimiter delimiter') (hrest : c :: rest ⊆ cs) :
    (Language.ofCatalog ops delimiter).word start c rest =
      (Language.ofCatalog ops' delimiter').word start c rest := by
  cases hword : (Language.ofCatalog ops delimiter).word start c rest with
  | error e =>
      obtain ⟨hc, rfl⟩ := Language.word_eq_error_iff.1 hword
      have hc' := mt (h.wordChar_iff (hrest List.mem_cons_self)).2 hc
      exact (Language.word_eq_error_iff.2 ⟨hc', rfl⟩).symm
  | ok l =>
      obtain ⟨text, rest', htext, hl, rfl⟩ := Language.word_eq_ok_iff.1 hword
      rw [htext, List.append_subset] at hrest
      have hl' := h.word hrest.1 (fun d hd => hrest.2 (List.mem_of_head? hd)) hl
      exact (Language.word_eq_ok_iff.2 ⟨text, rest', htext, hl', rfl⟩).symm

/-- A lexeme is read alike in both languages. -/
lemma lexeme_eq (h : AgreeOn cs ops ops' delimiter delimiter') (hrest : c :: rest ⊆ cs) :
    (Language.ofCatalog ops delimiter).lexeme start c rest =
      (Language.ofCatalog ops' delimiter').lexeme start c rest := by
  have hc : c ∈ cs := hrest List.mem_cons_self
  rw [Language.lexeme, Language.lexeme, h.isDelimiter_eq hc, h.isReserved_eq hc,
    h.operator_eq hc, h.word_eq hrest]

/-! ## The scan -/

lemma cons_subset_of_dropWhile {text : List Char} (hc : text.dropWhile Text.isBlank = c :: rest)
    (htext : text ⊆ cs) : c :: rest ⊆ cs :=
  fun _ hd => htext ((List.dropWhile_sublist Text.isBlank).subset (hc ▸ hd))

/-- The text behind a lexeme and its white space has no new characters. -/
lemma behind_subset_of_lexeme {L : Language} {l : Lexeme} (hl : L.lexeme start c rest = .ok l)
    (hrest : c :: rest ⊆ cs) : l.rest.dropWhile Text.isBlank ⊆ cs := by
  intro d hd
  refine hrest ?_
  rw [← Language.lexeme_text hl]
  exact List.mem_append_right _ ((List.dropWhile_sublist _).subset hd)

/-- The tokens are read alike in both languages. -/
theorem scan_eq (h : AgreeOn cs ops ops' delimiter delimiter') (offset : Offset) (text : List Char)
    (htext : text ⊆ cs) (read : List Token) :
    (Language.ofCatalog ops delimiter).scan offset text read =
      (Language.ofCatalog ops' delimiter').scan offset text read := by
  induction offset, text using Language.scan_induction (Language.ofCatalog ops delimiter)
    generalizing read with
  | blank offset text hc => rw [Language.scan_of_blank hc, Language.scan_of_blank hc]
  | fault offset text c rest e hc hl =>
      have hl' := hl
      rw [h.lexeme_eq (cons_subset_of_dropWhile hc htext)] at hl'
      rw [Language.scan_of_error hc hl, Language.scan_of_error hc hl']
  | lexeme offset text c rest l hc hl ih =>
      have hrest := cons_subset_of_dropWhile hc htext
      have hl' := hl
      rw [h.lexeme_eq hrest] at hl'
      rw [Language.scan_of_lexeme hc hl, Language.scan_of_lexeme hc hl',
        ih (behind_subset_of_lexeme hl hrest)]

end AgreeOn

namespace Language

variable {ops ops' : List String} {delimiter delimiter' : Option Char} {source : String}

/-- Languages with the same operators among those that have a character of the text agree on the
text, if they have the same delimiter or neither delimiter occurs in it. -/
lemma agreeOn_of_touching_eq (hops : touching ops source.toList = touching ops' source.toList)
    (hdelimiter : delimiter = delimiter' ∨
      ∀ c ∈ source.toList, delimiter ≠ some c ∧ delimiter' ≠ some c) :
    AgreeOn source.toList ops ops' delimiter delimiter' := by
  refine ⟨hops, fun c hc => ?_⟩
  rcases hdelimiter with rfl | hnone
  · rfl
  · exact iff_of_false (hnone c hc).1 (hnone c hc).2

/-- **A language depends on its catalog only as a set, and only on what the text can touch.**  If two
catalogs have the same operators among those with a character of the text, and the delimiters are
the same or do not occur in it, then the text has the same tokens, the same tree and the same
verdict in both languages, or the same error. -/
theorem reads_eq_of_touching_eq
    (hops : touching ops source.toList = touching ops' source.toList)
    (hdelimiter : delimiter = delimiter' ∨
      ∀ c ∈ source.toList, delimiter ≠ some c ∧ delimiter' ≠ some c) :
    (ofCatalog ops delimiter).tokenize source = (ofCatalog ops' delimiter').tokenize source ∧
      (ofCatalog ops delimiter).parse source = (ofCatalog ops' delimiter').parse source ∧
      (ofCatalog ops delimiter).check source = (ofCatalog ops' delimiter').check source := by
  have hagree := agreeOn_of_touching_eq hops hdelimiter
  have htokens : (ofCatalog ops delimiter).tokenize source =
      (ofCatalog ops' delimiter').tokenize source :=
    hagree.scan_eq 0 source.toList (List.Subset.refl _) []
  have htree : (ofCatalog ops delimiter).parse source =
      (ofCatalog ops' delimiter').parse source := by
    rw [Language.parse, Language.parse, htokens]
  refine ⟨htokens, htree, ?_⟩
  rw [Language.check, Language.check, htree]

/-- A catalog in another order, with the empty text, a repetition and an operator that the text
cannot touch, and a delimiter that the text does not have. -/
theorem reads_eq_of_touching_eq_unsorted :
    touching [">>", "", "++", "==", "++"] "A++ >> +B".toList =
        touching ["++", ">>"] "A++ >> +B".toList ∧
      (ofCatalog ["++", ">>"] none).tokenize "A++ >> +B" =
        .error (.invalidOperator ⟨7, 8⟩ "+") ∧
      (ofCatalog [">>", "", "++", "==", "++"] (some '`')).tokenize "A++ >> +B" =
        .error (.invalidOperator ⟨7, 8⟩ "+") := by
  have hops : touching [">>", "", "++", "==", "++"] "A++ >> +B".toList =
      touching ["++", ">>"] "A++ >> +B".toList :=
    Set.Subset.antisymm (touching_subset (by simp)) (touching_subset (by simp))
  have hfault : (ofCatalog ["++", ">>"] none).tokenize "A++ >> +B" =
      .error (.invalidOperator ⟨7, 8⟩ "+") := by cbv
  have hdelimiter : ∀ c ∈ "A++ >> +B".toList, some '`' ≠ some c ∧ none ≠ some c := by simp
  exact ⟨hops, hfault, (reads_eq_of_touching_eq hops (.inr hdelimiter)).1.trans hfault⟩

end Language

end EffectLang
