import EffectLang.Proofs.Grammar.Relabel
import EffectLang.Proofs.Grammar.Shape
import Mathlib.Data.List.Forall2

/-!
# What parsing and judging do not look at

The text of a name, the value of a number, the body of a logic string, the place of a token and the
text around it: none of them has a say in how a list of tokens is parsed or how its tree is judged.
The main statement, `readAlongside_of_skeletons`, compares two lists whose tokens have the same
skeletons, one by one.

No function on tokens turns the one list into the other, since equal tokens of the first may have
different partners in the second.  But both lists become equal when everything but the skeletons is
forgotten, and forgetting is a change that the parser commutes with (`parse_of_map_eq`).  To compare
the places of errors it is applied once more, with a change that forgets all but skeletons and
places.

Trees that become equal in this way have the same nodes, and so each place in one of them has its
partner in the other (`Expr.paired_of_mapTokens_eq`).
-/

namespace EffectLang

namespace Token

/-- The skeleton of a token, standing nowhere in particular. -/
def forget (t : Token) : Token := bare t.kind.skeleton

/-- The skeleton of a token, in its place. -/
def forgetText (t : Token) : Token := ⟨t.kind.skeleton, t.span, "", ""⟩

end Token

/-- A skeleton has nothing more to lose. -/
lemma TokenKind.skeleton_skeleton (k : TokenKind) : k.skeleton.skeleton = k.skeleton := by
  cases k <;> rfl

lemma keepsSkeleton_forget : KeepsSkeleton Token.forget := fun t => t.kind.skeleton_skeleton

lemma keepsSkeleton_forgetText : KeepsSkeleton Token.forgetText :=
  fun t => t.kind.skeleton_skeleton

/-! ## Trees side by side -/

namespace Expr

/-- Two trees of the same nodes.  The list has the tokens that stand in the same places, the first
tree's and the second tree's, in the order in which they were written. -/
inductive Paired : List (Token × Token) → Expr → Expr → Prop
  | atom (t t' : Token) : Paired [(t, t')] (.atom t) (.atom t')
  | grouping {ps : List (Token × Token)} {inner inner' : Expr} (o o' c c' : Token)
      (h : Paired ps inner inner') :
      Paired ((o, o') :: (ps ++ [(c, c')])) (.grouping o inner c) (.grouping o' inner' c')
  | increment {ps : List (Token × Token)} {operand operand' : Expr} (op op' : Token)
      (h : Paired ps operand operand') :
      Paired (ps ++ [(op, op')]) (.increment operand op) (.increment operand' op')
  | assignment {ps qs : List (Token × Token)} {l l' r r' : Expr} (op op' : Token)
      (hl : Paired ps l l') (hr : Paired qs r r') :
      Paired (ps ++ (op, op') :: qs) (.assignment l op r) (.assignment l' op' r')
  | conditional {ps qs : List (Token × Token)} {l l' r r' : Expr} (op op' : Token)
      (hl : Paired ps l l') (hr : Paired qs r r') :
      Paired (ps ++ (op, op') :: qs) (.conditional l op r) (.conditional l' op' r')
  | chaining {ps qs : List (Token × Token)} {l l' r r' : Expr} (op op' : Token)
      (hl : Paired ps l l') (hr : Paired qs r r') :
      Paired (ps ++ (op, op') :: qs) (.chaining l op r) (.chaining l' op' r')

variable {f : Token → Token} {e e' : Expr}

lemma length_tokens_of_mapTokens_eq (h : e.mapTokens f = e'.mapTokens f) :
    e.tokens.length = e'.tokens.length := by
  have htokens := congrArg (fun e => e.tokens.length) h
  simpa only [tokens_mapTokens, List.length_map] using htokens

/-- Trees that a change of tokens makes equal have the same nodes. -/
theorem paired_of_mapTokens_eq (h : e.mapTokens f = e'.mapTokens f) :
    Paired (e.tokens.zip e'.tokens) e e' := by
  induction e generalizing e' with
  | atom t =>
      cases e' with
      | atom t' =>
          rw [tokens_atom, tokens_atom]
          exact .atom t t'
      | _ => cases h
  | grouping o inner c ih =>
      cases e' with
      | grouping o' inner' c' =>
          rw [mapTokens, mapTokens, grouping.injEq] at h
          rw [tokens_grouping, tokens_grouping, List.zip_cons_cons,
            List.zip_append (length_tokens_of_mapTokens_eq h.2.1)]
          exact .grouping o o' c c' (ih h.2.1)
      | _ => cases h
  | increment operand op ih =>
      cases e' with
      | increment operand' op' =>
          rw [mapTokens, mapTokens, increment.injEq] at h
          rw [tokens_increment, tokens_increment,
            List.zip_append (length_tokens_of_mapTokens_eq h.1)]
          exact .increment op op' (ih h.1)
      | _ => cases h
  | assignment l op r ihl ihr =>
      cases e' with
      | assignment l' op' r' =>
          rw [mapTokens, mapTokens, assignment.injEq] at h
          rw [tokens_assignment, tokens_assignment,
            List.zip_append (length_tokens_of_mapTokens_eq h.1), List.zip_cons_cons]
          exact .assignment op op' (ihl h.1) (ihr h.2.2)
      | _ => cases h
  | conditional l op r ihl ihr =>
      cases e' with
      | conditional l' op' r' =>
          rw [mapTokens, mapTokens, conditional.injEq] at h
          rw [tokens_conditional, tokens_conditional,
            List.zip_append (length_tokens_of_mapTokens_eq h.1), List.zip_cons_cons]
          exact .conditional op op' (ihl h.1) (ihr h.2.2)
      | _ => cases h
  | chaining l op r ihl ihr =>
      cases e' with
      | chaining l' op' r' =>
          rw [mapTokens, mapTokens, chaining.injEq] at h
          rw [tokens_chaining, tokens_chaining,
            List.zip_append (length_tokens_of_mapTokens_eq h.1), List.zip_cons_cons]
          exact .chaining op op' (ihl h.1) (ihr h.2.2)
      | _ => cases h

end Expr

namespace Grammar

/-! ## Lists side by side -/

/-- The tokens of two lists have the same skeletons, one by one. -/
def SameSkeletons : List Token → List Token → Prop :=
  List.Forall₂ fun t u => t.kind.skeleton = u.kind.skeleton

/-- The tokens of two lists stand in the same places, one by one. -/
def SamePlaces : List Token → List Token → Prop := List.Forall₂ fun t u => t.span = u.span

variable {ts us : List Token}

/-- Lists with the same skeletons are alike when all but the skeletons is forgotten. -/
lemma SameSkeletons.map_forget (h : SameSkeletons ts us) :
    ts.map Token.forget = us.map Token.forget := by
  induction h with
  | nil => rfl
  | cons hkind _ ih => rw [List.map_cons, List.map_cons, ih, Token.forget, Token.forget, hkind]

lemma SameSkeletons.map_forgetText (h : SameSkeletons ts us) (h' : SamePlaces ts us) :
    ts.map Token.forgetText = us.map Token.forgetText := by
  induction h with
  | nil => rfl
  | cons hkind _ ih =>
      cases h' with
      | cons hspan h' =>
          rw [List.map_cons, List.map_cons, ih h', Token.forgetText, Token.forgetText, hkind,
            hspan]

/-- Two lists of tokens are both an effect, of trees that have the same nodes, hold the tokens in
the same places and are judged alike; or both are refused, with errors that differ in the text of
a token and in the places only, and not in the places if the tokens do not. -/
inductive ReadAlongside (ts us : List Token) : Prop
  | accepted {e e' : Expr} (hts : parse ts = .ok e) (hus : parse us = .ok e')
      (hpaired : Expr.Paired (ts.zip us) e e') (hvalid : e.validate = e'.validate)
      (htypes : e.evaluate = e'.evaluate) : ReadAlongside ts us
  | refused {err err' : ParseError} (hts : parse ts = .error err) (hus : parse us = .error err')
      (hkind : err.kind.skeleton = err'.kind.skeleton) (hcontext : err.context = err'.context)
      (hhint : err.hint = err'.hint)
      (hplaces : SamePlaces ts us → err.span = err'.span ∧ err.related = err'.related) :
      ReadAlongside ts us

/-- Errors stand in the same places when the tokens do. -/
lemma places_of_parse_error {err err' : ParseError} (h : SameSkeletons ts us)
    (h' : SamePlaces ts us) (hts : parse ts = .error err) (hus : parse us = .error err') :
    err.span = err'.span ∧ err.related = err'.related := by
  have hspan : ∀ t : Token, t.forgetText.span = t.span := fun _ => rfl
  rcases parse_of_map_eq keepsSkeleton_forgetText (h.map_forgetText h') with
    ⟨e, e', hts', -, -⟩ | ⟨err₁, err₁', common, hts', hus', hleft, hright⟩
  · rw [hts] at hts'
    cases hts'
  · rw [hts] at hts'
    rw [hus] at hus'
    cases hts'
    cases hus'
    exact ⟨(hleft.span hspan).symm.trans (hright.span hspan),
      (hleft.related hspan).symm.trans (hright.related hspan)⟩

/-- **Parsing and judging are oblivious to everything but the skeletons of tokens.** -/
theorem readAlongside_of_skeletons (h : SameSkeletons ts us) : ReadAlongside ts us := by
  rcases parse_of_map_eq keepsSkeleton_forget h.map_forget with
    ⟨e, e', hts, hus, htree⟩ | ⟨err, err', common, hts, hus, hleft, hright⟩
  · have hcheck := Expr.check_eq_of_mapTokens_eq keepsSkeleton_forget htree
    have hpaired := Expr.paired_of_mapTokens_eq htree
    rw [(shaped_of_parse hts).1, (shaped_of_parse hus).1] at hpaired
    exact .accepted hts hus hpaired (congrArg Verdict.valid hcheck) (congrArg Verdict.types hcheck)
  · exact .refused hts hus (hleft.skeleton.symm.trans hright.skeleton)
      (hleft.context.symm.trans hright.context) (hleft.hint.symm.trans hright.hint)
      fun hplaces => places_of_parse_error h hplaces hts hus

/-- Two guarded assignments, with other texts in other places. -/
theorem readAlongside_of_skeletons_guarded :
    ∃ ts us, ts = [⟨.logic "x", ⟨1, 2⟩, "`", "`"⟩, ⟨.operator "=>", ⟨3, 5⟩, "", ""⟩,
        ⟨.name "A", ⟨5, 6⟩, "", ""⟩, ⟨.operator "+=", ⟨6, 8⟩, "", ""⟩,
        ⟨.number 7, ⟨8, 9⟩, "", ""⟩] ∧
      us = [.bare (.logic ""), .bare (.operator "=>"), .bare (.name "Gem"),
        .bare (.operator "+="), .bare (.number (-40))] ∧
      SameSkeletons ts us ∧
      ∃ e e', parse ts = .ok e ∧ parse us = .ok e' ∧ Expr.Paired (ts.zip us) e e' ∧
        e.validate = e'.validate ∧ e.evaluate = e'.evaluate := by
  refine ⟨_, _, rfl, rfl, ?_⟩
  have h : SameSkeletons [⟨.logic "x", ⟨1, 2⟩, "`", "`"⟩, ⟨.operator "=>", ⟨3, 5⟩, "", ""⟩,
        ⟨.name "A", ⟨5, 6⟩, "", ""⟩, ⟨.operator "+=", ⟨6, 8⟩, "", ""⟩,
        ⟨.number 7, ⟨8, 9⟩, "", ""⟩]
      [.bare (.logic ""), .bare (.operator "=>"), .bare (.name "Gem"), .bare (.operator "+="),
        .bare (.number (-40))] :=
    .cons rfl (.cons rfl (.cons rfl (.cons rfl (.cons rfl .nil))))
  refine ⟨h, ?_⟩
  cases readAlongside_of_skeletons h with
  | accepted hts hus hpaired hvalid htypes =>
      exact ⟨_, _, hts, hus, hpaired, hvalid, htypes⟩
  | refused hts _ _ _ _ _ => cases hts

end Grammar

end EffectLang
