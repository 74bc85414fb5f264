import EffectLang.Operator.Table
import Mathlib.Tactic.Lemma

/-!
# A prefix tree stands for the set of its operators

The node at the end of a path knows the operators that begin with the path, and no others
(`mem_candidates_advanceAll_ofList`); it completes the path exactly when the path is an operator
(`value_advanceAll_ofList_eq_some_iff`).  Neither depends on the order of the catalog, on
repetitions in it or on empty texts.

**Insertion as a change of one path.**  `Trie.graft op cs` is what an insertion of `op` does to a
node when the characters `cs` of `op` are still to be spelled.  Below the node it changes the
branch of the first of these characters and no other (`child_insert`), which needs the branches
to be in ascending order (`Branches.Ordered`): an insertion stops searching at the first greater
character.
-/

namespace EffectLang

/-- A text that is added is in the list, and nothing else is new. -/
lemma mem_insertText {s t : String} {ts : List String} :
    s ∈ insertText t ts ↔ s = t ∨ s ∈ ts := by
  induction ts with
  | nil => simp [insertText]
  | cons u us ih =>
      simp only [insertText]
      split
      · simp
      · split
        · rename_i htu
          subst htu
          simp
        · simp only [List.mem_cons, ih]
          exact or_left_comm

/-! ## Insertion below a node -/

namespace Branches

/-- The characters that branch off at a node. -/
def chars : Branches → List Char
  | nil => []
  | branch c _ _ _ next => c :: next.chars

/-- The branches are in ascending order, at this node and below it. -/
def Ordered : Branches → Prop
  | nil => True
  | branch c _ _ below next => (∀ d ∈ next.chars, c < d) ∧ below.Ordered ∧ next.Ordered

/-- Without a branch there is nothing below. -/
lemma child_of_notMem {b : Branches} {c : Char} (h : c ∉ b.chars) :
    b.child c = ⟨none, [], nil⟩ := by
  induction b with
  | nil => rfl
  | branch d value candidates below next _ ih =>
      simp only [chars, List.mem_cons, not_or] at h
      rw [child, if_neg h.1, ih h.2]

lemma Ordered.child {b : Branches} (h : b.Ordered) (c : Char) : (b.child c).branches.Ordered := by
  induction b with
  | nil => trivial
  | branch d value candidates below next _ ih =>
      simp only [Branches.child]
      split
      · exact h.2.1
      · exact ih h.2.2

lemma chars_path (op : String) (c : Char) (cs : List Char) (next : Branches) :
    (path op c cs next).chars = c :: next.chars := by
  cases cs <;> rfl

lemma ordered_path (op : String) (c : Char) (cs : List Char) {next : Branches}
    (h : ∀ d ∈ next.chars, c < d) (hnext : next.Ordered) : (path op c cs next).Ordered := by
  induction cs generalizing c next with
  | nil => exact ⟨h, trivial, hnext⟩
  | cons d ds ih => exact ⟨h, ih d (by simp [chars]) trivial, hnext⟩

/-- An operator adds the branch for its first character. -/
lemma mem_chars_insert {op : String} {b : Branches} {c d : Char} {cs : List Char} :
    d ∈ (b.insert op c cs).chars ↔ d = c ∨ d ∈ b.chars := by
  fun_induction Branches.insert op b c cs with
  | case1 c cs => rw [chars_path]; simp [chars]
  | case2 e value candidates below next c cs hlt => rw [chars_path]; simp [chars]
  | case3 e value candidates below next hlt => simp [chars]
  | case4 e value candidates below next hlt e' es ih => simp [chars]
  | case5 e value candidates below next c cs hlt hne ih =>
      simp only [chars, List.mem_cons, ih]
      exact or_left_comm

/-- An ordered tree stays ordered. -/
lemma Ordered.insert {b : Branches} (h : b.Ordered) (op : String) (c : Char) (cs : List Char) :
    (b.insert op c cs).Ordered := by
  fun_induction Branches.insert op b c cs with
  | case1 c cs => exact ordered_path op c cs (by simp [chars]) trivial
  | case2 e value candidates below next c cs hlt =>
      refine ordered_path op c cs ?_ h
      intro d hd
      rcases List.mem_cons.1 hd with rfl | hd
      · exact hlt
      · exact Char.lt_trans hlt (h.1 d hd)
  | case3 e value candidates below next hlt => exact h
  | case4 e value candidates below next hlt e' es ih => exact ⟨h.1, ih h.2.1, h.2.2⟩
  | case5 e value candidates below next c cs hlt hne ih =>
      refine ⟨?_, h.2.1, ih h.2.2⟩
      intro d hd
      rcases mem_chars_insert.1 hd with rfl | hd
      · exact Std.lt_of_le_of_ne (Char.not_lt.1 hlt) (Ne.symm hne)
      · exact h.1 d hd

end Branches

namespace Trie

/-- What an insertion of `op` makes of a node from which the characters `cs` lead on to `op`. -/
def graft (op : String) : List Char → Trie → Trie
  | [], t => ⟨some op, insertText op t.candidates, t.branches⟩
  | c :: cs, t => ⟨t.value, insertText op t.candidates, t.branches.insert op c cs⟩

lemma candidates_graft (op : String) (cs : List Char) (t : Trie) :
    (t.graft op cs).candidates = insertText op t.candidates := by
  cases cs <;> rfl

lemma path_eq_branch (op : String) (c : Char) (cs : List Char) (next : Branches) :
    ∃ value candidates below, Branches.path op c cs next = .branch c value candidates below next ∧
      graft op cs ⟨none, [], .nil⟩ = ⟨value, candidates, below⟩ := by
  cases cs with
  | nil => exact ⟨_, _, _, rfl, rfl⟩
  | cons d ds => exact ⟨_, _, _, rfl, rfl⟩

/-- An insertion changes the branch of the first character and no other. -/
theorem child_insert {b : Branches} (h : b.Ordered) (op : String) (c : Char) (cs : List Char)
    (d : Char) :
    (b.insert op c cs).child d = if d = c then (b.child c).graft op cs else b.child d := by
  fun_induction Branches.insert op b c cs with
  | case1 c cs =>
      obtain ⟨value, candidates, below, hpath, hgraft⟩ := path_eq_branch op c cs .nil
      simp only [hpath, Branches.child, hgraft]
  | case2 e value candidates below next c cs hlt =>
      obtain ⟨value', candidates', below', hpath, hgraft⟩ :=
        path_eq_branch op c cs (.branch e value candidates below next)
      -- The new branch stands before all others, so none of them had its character.
      have hc : c ∉ (Branches.branch e value candidates below next).chars := by
        intro hc
        rcases List.mem_cons.1 hc with rfl | hc
        · exact Char.lt_irrefl _ hlt
        · exact Char.lt_asymm hlt (h.1 c hc)
      rw [hpath, Branches.child_of_notMem hc, hgraft]
      rfl
  | case3 e value candidates below next hlt =>
      simp only [Branches.child, graft, if_true]
      split <;> rfl
  | case4 e value candidates below next hlt e' es ih =>
      simp only [Branches.child, graft, if_true]
      split <;> rfl
  | case5 e value candidates below next c cs hlt hne ih =>
      simp only [Branches.child, ih h.2.2, if_neg hne]
      by_cases hde : d = e
      · subst hde
        rw [if_pos rfl, if_pos rfl, if_neg (Ne.symm hne)]
      · rw [if_neg hde, if_neg hde]

/-- To insert an operator is to graft it on its own path. -/
lemma insert_eq {t : Trie} {op : String} (h : op ≠ "") : t.insert op = t.graft op op.toList := by
  unfold insert
  split
  · rename_i hop
    exact absurd (String.toList_eq_nil_iff.1 hop) h
  · rename_i c cs hop
    rw [hop]
    rfl

lemma insert_empty (t : Trie) : t.insert "" = t := rfl

/-! ## Nodes at the end of a path -/

section Graft

variable {t : Trie} {op : String}

lemma advanceAll_cons (t : Trie) (c : Char) (path : List Char) :
    t.advanceAll (c :: path) = (t.advance c).advanceAll path := rfl

lemma advance_graft_nil (op : String) (t : Trie) (d : Char) :
    (t.graft op []).advance d = t.advance d := rfl

/-- A graft changes nothing beside its path. -/
lemma advance_graft_cons (h : t.branches.Ordered) (c : Char) (cs : List Char) (d : Char) :
    (t.graft op (c :: cs)).advance d = if d = c then (t.advance c).graft op cs else t.advance d :=
  child_insert h op c cs d

/-- The nodes on the path of a new operator get it for a candidate, and the others do not change. -/
theorem candidates_advanceAll_graft (h : t.branches.Ordered) (cs path : List Char) :
    ((t.graft op cs).advanceAll path).candidates =
      if path <+: cs then insertText op (t.advanceAll path).candidates
      else (t.advanceAll path).candidates := by
  induction path generalizing t cs with
  | nil => simp [advanceAll, candidates_graft]
  | cons d path ih =>
      rw [advanceAll_cons, advanceAll_cons]
      cases cs with
      | nil => simp [advance_graft_nil]
      | cons c cs =>
          rw [advance_graft_cons h]
          by_cases hdc : d = c
          · subst hdc
            rw [if_pos rfl, ih (t := t.advance d) (h.child d)]
            simp only [List.cons_prefix_cons, true_and]
          · simp [List.cons_prefix_cons, hdc]

/-- A graft adds its operator to the candidates along its path. -/
lemma mem_candidates_graft (h : t.branches.Ordered) (cs path : List Char) {s : String} :
    s ∈ ((t.graft op cs).advanceAll path).candidates ↔
      (s = op ∧ path <+: cs) ∨ s ∈ (t.advanceAll path).candidates := by
  rw [candidates_advanceAll_graft h]
  split
  · rename_i hpath
    simp [mem_insertText, hpath]
  · rename_i hpath
    simp [hpath]

/-- The node at the end of the path of a new operator completes it. -/
theorem value_graft (h : t.branches.Ordered) (cs path : List Char) :
    ((t.graft op cs).advanceAll path).value =
      if path = cs then some op else (t.advanceAll path).value := by
  induction path generalizing t cs with
  | nil => cases cs <;> rfl
  | cons d path ih =>
      rw [advanceAll_cons, advanceAll_cons]
      cases cs with
      | nil => simp [advance_graft_nil]
      | cons c cs =>
          rw [advance_graft_cons h]
          by_cases hdc : d = c
          · subst hdc
            rw [if_pos rfl, ih (t := t.advance d) (h.child d)]
            simp
          · simp [hdc]

lemma ordered_insert (h : t.branches.Ordered) (op : String) : (t.insert op).branches.Ordered := by
  unfold insert
  split
  · exact h
  · exact h.insert _ _ _

end Graft

/-! ## The tree of a catalog -/

lemma ordered_empty : empty.branches.Ordered := trivial

lemma advanceAll_empty (path : List Char) : empty.advanceAll path = empty := by
  induction path with
  | nil => rfl
  | cons c path ih => exact ih

/-- The candidates of a node, after a list of insertions. -/
lemma mem_candidates_foldl_insert {t : Trie} (h : t.branches.Ordered) (ops : List String)
    (path : List Char) {s : String} :
    s ∈ ((ops.foldl insert t).advanceAll path).candidates ↔
      (s ∈ ops ∧ s ≠ "" ∧ path <+: s.toList) ∨ s ∈ (t.advanceAll path).candidates := by
  induction ops generalizing t with
  | nil => simp
  | cons op ops ih =>
      rw [List.foldl_cons, ih (ordered_insert h op)]
      by_cases hop : op = ""
      · subst hop
        rw [insert_empty]
        grind
      · rw [insert_eq hop, mem_candidates_graft h]
        grind

/-- The operator that a node completes, after a list of insertions. -/
lemma value_foldl_insert {t : Trie} (h : t.branches.Ordered) (ops : List String)
    (path : List Char) :
    ((ops.foldl insert t).advanceAll path).value =
      if path ≠ [] ∧ String.ofList path ∈ ops then some (String.ofList path)
      else (t.advanceAll path).value := by
  induction ops generalizing t with
  | nil => simp
  | cons op ops ih =>
      rw [List.foldl_cons, ih (ordered_insert h op)]
      by_cases hop : op = ""
      · subst hop
        have hpath : String.ofList path = "" ↔ path = [] := by simp [← String.toList_inj]
        by_cases hnil : path = [] <;> simp [insert_empty, hpath, hnil]
      · have hpath : String.ofList path = op ↔ path = op.toList := by simp [← String.toList_inj]
        rw [insert_eq hop, value_graft h]
        by_cases heq : path = op.toList
        · simp [heq, hop]
        · simp [hpath, heq]

/-- The candidates of a node are the operators that begin with its path. -/
theorem mem_candidates_advanceAll_ofList (ops : List String) (path : List Char) {s : String} :
    s ∈ ((ofList ops).advanceAll path).candidates ↔
      s ∈ ops ∧ s ≠ "" ∧ path <+: s.toList := by
  rw [ofList, mem_candidates_foldl_insert ordered_empty, advanceAll_empty]
  simp [empty]

/-- A node completes its path if that is an operator, and else nothing. -/
theorem value_advanceAll_ofList_eq_some_iff (ops : List String) (path : List Char) {s : String} :
    ((ofList ops).advanceAll path).value = some s ↔ s ∈ ops ∧ s ≠ "" ∧ path = s.toList := by
  rw [ofList, value_foldl_insert ordered_empty, advanceAll_empty]
  by_cases hs : path = s.toList
  · subst hs
    by_cases hmem : s ∈ ops <;> simp [empty, hmem]
  · have hne : String.ofList path ≠ s := by
      rintro rfl
      exact hs String.toList_ofList.symm
    split <;> simp [empty, hs, hne]

/-- Some operator can be completed from a node exactly when some operator begins with its path. -/
theorem isAlive_advanceAll_ofList_iff (ops : List String) (path : List Char) :
    ((ofList ops).advanceAll path).isAlive = true ↔
      ∃ op ∈ ops, op ≠ "" ∧ path <+: op.toList := by
  rw [isAlive, Bool.not_eq_true', List.isEmpty_eq_false_iff_exists_mem]
  simp only [mem_candidates_advanceAll_ofList]

end Trie

end EffectLang
