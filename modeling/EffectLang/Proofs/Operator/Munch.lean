import EffectLang.Operator.Basic
import EffectLang.Proofs.Operator.Trie

/-!
# The greedy reading of an operator

The reader takes one character and then as many as some operator goes on with, and never goes
back.  `Munch ops text next` says when such a reading ends behind `text`, in front of `next`:
some operator begins with `text`, unless it is the first character alone, and none goes on with
`next`.

Of all beginnings of a text, at most one is such a reading (`Munch.unique`), and it is what the
prefix tree of the catalog finds (`extend_ofList_eq_iff`).
-/

namespace EffectLang

/-- Some operator begins with these characters. -/
def Begins (ops : List String) (cs : List Char) : Prop := ∃ op ∈ ops, cs <+: op.toList

lemma Begins.of_isPrefix {ops : List String} {cs ds : List Char} (h : Begins ops ds)
    (hcs : cs <+: ds) : Begins ops cs := by
  obtain ⟨op, hop, hds⟩ := h
  exact ⟨op, hop, hcs.trans hds⟩

/-- Greedy reading ends behind `text` when the next character, if there is one, is `next`. -/
structure Munch (ops : List String) (text : List Char) (next : Option Char) : Prop where
  grows : text.length = 1 ∨ Begins ops text
  stops : ∀ c ∈ next, ¬ Begins ops (text ++ [c])

namespace Munch

variable {ops : List String} {text text' rest rest' : List Char}

/-- No greedy reading goes on behind the end of another one. -/
lemma more_eq_nil (h : Munch ops text rest.head?) (h' : Munch ops text' rest'.head?)
    (hne : text ≠ []) {more : List Char} (htext : text' = text ++ more)
    (hrest : rest = more ++ rest') : more = [] := by
  cases more with
  | nil => rfl
  | cons c more =>
      -- The longer reading goes on with a character that the shorter one stops at.
      have hbegins : Begins ops text' := by
        refine h'.grows.resolve_left ?_
        have := List.length_pos_iff.2 hne
        rw [htext, List.length_append, List.length_cons]
        omega
      refine absurd (hbegins.of_isPrefix ?_) (h.stops c (by rw [hrest]; rfl))
      exact ⟨more, by simp [htext]⟩

/-- A text begins with one greedy reading only. -/
theorem unique (h : Munch ops text rest.head?) (h' : Munch ops text' rest'.head?)
    (hne : text ≠ []) (hne' : text' ≠ []) (heq : text ++ rest = text' ++ rest') :
    text = text' ∧ rest = rest' := by
  rcases List.append_eq_append_iff.1 heq with ⟨more, htext, hrest⟩ | ⟨more, htext, hrest⟩
  · obtain rfl := more_eq_nil h h' hne htext hrest
    exact ⟨by rw [htext, List.append_nil], hrest⟩
  · obtain rfl := more_eq_nil h' h hne' htext hrest
    exact ⟨by rw [htext, List.append_nil], hrest.symm⟩

/-- No operator that the text begins with reaches behind the end of the greedy reading. -/
lemma isPrefix_of_mem (h : Munch ops text rest.head?) {op : String} (hop : op ∈ ops)
    (hpre : op.toList <+: text ++ rest) : op.toList <+: text := by
  rcases List.prefix_or_prefix_of_prefix hpre (List.prefix_append text rest) with
    hshort | ⟨more, hlong⟩
  · exact hshort
  · cases more with
    | nil =>
        rw [List.append_nil] at hlong
        exact hlong ▸ List.prefix_refl text
    | cons c more =>
        rw [← hlong, List.prefix_append_right_inj] at hpre
        obtain ⟨behind, rfl⟩ := hpre
        exact absurd ⟨op, hop, ⟨more, by simp [← hlong]⟩⟩ (h.stops c rfl)

end Munch

namespace Trie

/-- What greedy reading takes keeps the node alive, and the next character would not. -/
lemma extend_spec (t : Trie) (cs : List Char) :
    ∃ rest, cs = (t.extend cs).1 ++ rest ∧
      ((t.extend cs).1 = [] ∨ (t.advanceAll (t.extend cs).1).isAlive = true) ∧
      ∀ c ∈ rest.head?, (t.advanceAll ((t.extend cs).1 ++ [c])).isAlive = false := by
  induction cs generalizing t with
  | nil => exact ⟨[], by simp [extend]⟩
  | cons c cs ih =>
      by_cases halive : (t.advance c).isAlive = true
      · obtain ⟨rest, hcs, hgrows, hstops⟩ := ih (t.advance c)
        refine ⟨rest, ?_, Or.inr ?_, ?_⟩
        · simp only [extend, halive, if_true, List.cons_append]
          rw [← hcs]
        · simp only [extend, halive, if_true, advanceAll_cons]
          rcases hgrows with hnil | hgrows
          · rw [hnil]
            exact halive
          · exact hgrows
        · simpa only [extend, halive, if_true, List.cons_append, advanceAll_cons] using hstops
      · refine ⟨c :: cs, by simp [extend, halive], Or.inl (by simp [extend, halive]), ?_⟩
        simp [extend, halive, advanceAll]

/-- A node is alive exactly if its path begins an operator. -/
lemma isAlive_ofList_iff_begins {ops : List String} {path : List Char} (h : path ≠ []) :
    ((ofList ops).advanceAll path).isAlive = true ↔ Begins ops path := by
  rw [isAlive_advanceAll_ofList_iff, Begins]
  refine exists_congr fun op => and_congr_right fun _ => and_iff_right_of_imp ?_
  rintro hpre rfl
  exact h (List.prefix_nil.1 hpre)

/-- What the tree reads is the greedy reading of an operator. -/
lemma extend_ofList_munch (ops : List String) (c : Char) (cs : List Char) :
    ∃ rest, cs = (((ofList ops).advance c).extend cs).1 ++ rest ∧
      Munch ops (c :: (((ofList ops).advance c).extend cs).1) rest.head? := by
  obtain ⟨rest, hcs, hgrows, hstops⟩ := extend_spec ((ofList ops).advance c) cs
  refine ⟨rest, hcs, hgrows.imp (by simp +contextual) fun h => ?_, fun d hd => ?_⟩
  · rwa [← advanceAll_cons, isAlive_ofList_iff_begins (List.cons_ne_nil _ _)] at h
  · rw [← isAlive_ofList_iff_begins (by simp), List.cons_append, advanceAll_cons, hstops d hd]
    exact Bool.false_ne_true

/-- **What the prefix tree takes is the greedy reading.** -/
theorem extend_ofList_eq_iff {ops : List String} {c : Char} {cs more : List Char} :
    (((ofList ops).advance c).extend cs).1 = more ↔
      ∃ rest, cs = more ++ rest ∧ Munch ops (c :: more) rest.head? := by
  constructor
  · rintro rfl
    exact extend_ofList_munch ops c cs
  · rintro ⟨rest, hcs, hmunch⟩
    obtain ⟨rest', hcs', hmunch'⟩ := extend_ofList_munch ops c cs
    have heq := hmunch'.unique hmunch (List.cons_ne_nil _ _) (List.cons_ne_nil _ _)
      (by rw [List.cons_append, List.cons_append, ← hcs, ← hcs'])
    exact (List.cons.inj heq.1).2

end Trie

/-! ## Operators of item effects -/

lemma exists_pair_of_mem_catalog {symbol : String} (h : symbol ∈ ItemOperator.catalog) :
    ∃ c d, symbol.toList = [c, d] := by
  have hlength : ∀ symbol ∈ ItemOperator.catalog, symbol.toList.length = 2 := by decide
  match hsymbol : symbol.toList, hlength symbol h with
  | [c, d], _ => exact ⟨c, d, rfl⟩

/-- All operators of item effects have two characters. -/
lemma begins_pair_iff {c d : Char} {more : List Char} :
    Begins ItemOperator.catalog (c :: d :: more) ↔
      String.ofList [c, d] ∈ ItemOperator.catalog ∧ more = [] := by
  constructor
  · rintro ⟨op, hop, hpre⟩
    obtain ⟨c', d', hpair⟩ := exists_pair_of_mem_catalog hop
    rw [hpair, List.cons_prefix_cons, List.cons_prefix_cons, List.prefix_nil] at hpre
    obtain ⟨rfl, rfl, rfl⟩ := hpre
    rw [← hpair, String.ofList_toList]
    exact ⟨hop, rfl⟩
  · rintro ⟨h, rfl⟩
    exact ⟨_, h, by simp⟩

end EffectLang
