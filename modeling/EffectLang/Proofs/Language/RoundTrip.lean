import EffectLang.Language.Check
import EffectLang.Proofs.Grammar.Shape
import EffectLang.Proofs.Language.Scan

/-!
# The round trip of the front end

A text that is accepted is printed back character for character, and its tree holds exactly the
tokens that the text was cut into (`parse_print`).

Each stage brings its own half.  The scanner keeps the text in its tokens, and the parser keeps the
tokens in the tree.  What joins them is that no white space is left over: the list keeps white
space for itself only when it has no token, and a list without tokens is not accepted.
-/

namespace EffectLang.Language

/-- A text parses to a tree exactly if its tokens do. -/
lemma parse_eq_ok_iff_tokenize {L : Language} {source : String} {e : Expr} :
    L.parse source = .ok e ↔
      ∃ list, L.tokenize source = .ok list ∧ Grammar.parse list.tokens = .ok e := by
  unfold Language.parse
  constructor
  · intro h
    split at h
    · cases h
    · rename_i list hlist
      split at h
      · cases h
      · rename_i e' he
        cases h
        exact ⟨list, hlist, he⟩
  · rintro ⟨list, hlist, he⟩
    simp only [hlist, he]

/-- The list of an accepted text has a token. -/
lemma tokens_ne_nil_of_parse {ts : List Token} {e : Expr} (h : Grammar.parse ts = .ok e) :
    ts ≠ [] := by
  rintro rfl
  cases h

/-- **The round trip.**  An accepted text is what its tree prints, and the tokens of the tree are
those of the text, in order, with their spans and the text around them. -/
theorem parse_print {L : Language} {source : String} {e : Expr} (h : L.parse source = .ok e) :
    e.print = source ∧
      ∃ list, L.tokenize source = .ok list ∧ e.tokens = list.tokens := by
  obtain ⟨list, hlist, hparse⟩ := parse_eq_ok_iff_tokenize.1 h
  obtain ⟨htokens, -⟩ := Grammar.shaped_of_parse hparse
  have hscan := tokenize_eq_ok_iff.1 hlist
  refine ⟨?_, list, hlist, htokens⟩
  calc e.print = String.join (list.tokens.map Token.fullText) := by rw [Expr.print, htokens]
    _ = list.text := by
        rw [TokenList.text, hscan.trailing_eq (tokens_ne_nil_of_parse hparse), String.append_empty]
    _ = source := by rw [hscan.text, String.ofList_toList]

/-- A chain whose second link is guarded by a logic string: the white space belongs to the tokens in
front of it, but for the first blank, which belongs to `A`. -/
theorem parse_print_guarded_link :
    ∃ e, itemEffects.parse " A+=1 >> `B` => C++" = .ok e ∧
      e = .chaining
        (.assignment (.atom ⟨.name "A", ⟨1, 2⟩, " ", ""⟩) ⟨.operator "+=", ⟨2, 4⟩, "", ""⟩
          (.atom ⟨.number 1, ⟨4, 5⟩, "", " "⟩))
        ⟨.operator ">>", ⟨6, 8⟩, "", " "⟩
        (.conditional (.atom ⟨.logic "B", ⟨10, 11⟩, "`", "` "⟩)
          ⟨.operator "=>", ⟨13, 15⟩, "", " "⟩
          (.increment (.atom ⟨.name "C", ⟨16, 17⟩, "", ""⟩)
            ⟨.operator "++", ⟨17, 19⟩, "", ""⟩)) ∧
      e.print = " A+=1 >> `B` => C++" ∧
      ∃ list, itemEffects.tokenize " A+=1 >> `B` => C++" = .ok list ∧
        list.tokens = [⟨.name "A", ⟨1, 2⟩, " ", ""⟩, ⟨.operator "+=", ⟨2, 4⟩, "", ""⟩,
          ⟨.number 1, ⟨4, 5⟩, "", " "⟩, ⟨.operator ">>", ⟨6, 8⟩, "", " "⟩,
          ⟨.logic "B", ⟨10, 11⟩, "`", "` "⟩, ⟨.operator "=>", ⟨13, 15⟩, "", " "⟩,
          ⟨.name "C", ⟨16, 17⟩, "", ""⟩, ⟨.operator "++", ⟨17, 19⟩, "", ""⟩] := by
  have h : itemEffects.parse " A+=1 >> `B` => C++" =
      .ok (.chaining
        (.assignment (.atom ⟨.name "A", ⟨1, 2⟩, " ", ""⟩) ⟨.operator "+=", ⟨2, 4⟩, "", ""⟩
          (.atom ⟨.number 1, ⟨4, 5⟩, "", " "⟩))
        ⟨.operator ">>", ⟨6, 8⟩, "", " "⟩
        (.conditional (.atom ⟨.logic "B", ⟨10, 11⟩, "`", "` "⟩)
          ⟨.operator "=>", ⟨13, 15⟩, "", " "⟩
          (.increment (.atom ⟨.name "C", ⟨16, 17⟩, "", ""⟩)
            ⟨.operator "++", ⟨17, 19⟩, "", ""⟩))) := by cbv
  obtain ⟨hprint, list, hlist, htokens⟩ := parse_print h
  exact ⟨_, h, rfl, hprint, list, hlist, htokens.symm.trans (by cbv)⟩

end EffectLang.Language
