import EffectLang.Proofs.Operator.Trie
import Mathlib

/-!
# A prefix tree is determined by its operators

Trees that are made by insertions are canonical: branches in ascending order, no branch from which
nothing can be completed, candidates in ascending order (`Trie.Canonical`).  Every insertion keeps
this (`Canonical.insert`), whatever the history.

**What a node says.**  After any history of insertions the node at the end of a path has for
candidates the operators that begin with the path, and completes the path if it is one of them.  A
path that leaves the tree leads to a node that says nothing, and so does every longer one.  This is
`node_of_insertions`.

**Nothing but what the nodes say.**  Canonical trees whose nodes say the same are equal, branch by
branch (`Canonical.ext`).  Hence the tree does not depend on the order of insertions, nor on
repetitions, nor on empty texts: `ofList_eq_ofList_iff`.
-/

namespace EffectLang

/-! ## Candidates in order -/

lemma insertText_ne_nil (s : String) (ts : List String) : insertText s ts ≠ [] :=
  List.ne_nil_of_mem (mem_insertText.2 (Or.inl rfl))

/-- An ascending list stays ascending. -/
lemma pairwise_insertText (s : String) {ts : List String} (h : ts.Pairwise (· < ·)) :
    (insertText s ts).Pairwise (· < ·) := by
  induction h with
  | nil => exact List.pairwise_singleton _ s
  | @cons t ts hlt hts ih =>
      simp only [insertText]
      split
      · rename_i hst
        refine .cons (fun u hu => ?_) (.cons hlt hts)
        rcases List.mem_cons.1 hu with rfl | hu
        · exact hst
        · exact hst.trans (hlt u hu)
      · split
        · exact .cons hlt hts
        · rename_i hst hne
          refine .cons (fun u hu => ?_) ih
          rcases mem_insertText.1 hu with rfl | hu
          · exact lt_of_le_of_ne (not_lt.1 hst) (Ne.symm hne)
          · exact hlt u hu

/-! ## Branches that are needed -/

namespace Branches

/-- From every branch, here and below, some operator can be completed. -/
def Live : Branches → Prop
  | nil => True
  | branch _ _ candidates below next => candidates ≠ [] ∧ below.Live ∧ next.Live

lemma live_path (op : String) (c : Char) (cs : List Char) {next : Branches} (h : next.Live) :
    (path op c cs next).Live := by
  induction cs generalizing c next with
  | nil => exact ⟨List.cons_ne_nil _ _, trivial, h⟩
  | cons d ds ih => exact ⟨List.cons_ne_nil _ _, ih d trivial, h⟩

/-- No superfluous node comes with an operator. -/
lemma Live.insert {b : Branches} (h : b.Live) (op : String) (c : Char) (cs : List Char) :
    (b.insert op c cs).Live := by
  fun_induction Branches.insert op b c cs with
  | case1 c cs => exact live_path op c cs trivial
  | case2 e value candidates below next c cs hlt => exact live_path op c cs h
  | case3 e value candidates below next hlt => exact ⟨insertText_ne_nil _ _, h.2⟩
  | case4 e value candidates below next hlt e' es ih =>
      exact ⟨insertText_ne_nil _ _, ih h.2.1, h.2.2⟩
  | case5 e value candidates below next c cs hlt hne ih => exact ⟨h.1, h.2.1, ih h.2.2⟩

lemma Live.child {b : Branches} (h : b.Live) (c : Char) : (b.child c).branches.Live := by
  induction b with
  | nil => trivial
  | branch d value candidates below next _ ih =>
      simp only [Branches.child]
      split
      · exact h.2.1
      · exact ih h.2.2

/-- A character branches off exactly when some operator goes on with it. -/
lemma Live.mem_chars_iff {b : Branches} (h : b.Live) {c : Char} :
    c ∈ b.chars ↔ (b.child c).candidates ≠ [] := by
  induction b with
  | nil => simp [chars, Branches.child]
  | branch d value candidates below next _ ih =>
      rw [chars, List.mem_cons, Branches.child]
      split
      · rename_i hcd
        simp [hcd, h.1]
      · rename_i hcd
        simp [hcd, ih h.2.2]

/-- The branches of an ordered tree ascend. -/
lemma Ordered.pairwise_chars {b : Branches} (h : b.Ordered) : b.chars.Pairwise (· < ·) := by
  induction b with
  | nil => exact .nil
  | branch c value candidates below next _ ih => exact .cons h.1 (ih h.2.2)

end Branches

namespace Trie

/-- The nodes of two trees at the end of the same path say the same. -/
def SameNodes (t t' : Trie) : Prop :=
  ∀ path, (t.advanceAll path).candidates = (t'.advanceAll path).candidates ∧
    (t.advanceAll path).value = (t'.advanceAll path).value

/-- Branches in which nothing is superfluous are determined by the nodes that they lead to. -/
lemma branches_eq_of_sameNodes {b b' : Branches} (hb : b.Ordered) (hb' : b'.Ordered)
    (hlive : b.Live) (hlive' : b'.Live) (h : ∀ c, (b.child c).SameNodes (b'.child c)) :
    b = b' := by
  induction b generalizing b' with
  | nil =>
      cases b' with
      | nil => rfl
      | branch c value candidates below next =>
          have hc := (h c []).1
          simp only [advanceAll, List.foldl_nil, Branches.child, if_true] at hc
          exact absurd hc.symm hlive'.1
  | branch c value candidates below next ihbelow ihnext =>
      -- Both sides branch off at the same characters, and in the same order.
      have hchars : (Branches.branch c value candidates below next).chars = b'.chars := by
        refine hb.pairwise_chars.eq_of_mem_iff hb'.pairwise_chars fun d => ?_
        rw [hlive.mem_chars_iff, hlive'.mem_chars_iff]
        have hd : ((Branches.branch c value candidates below next).child d).candidates =
            (b'.child d).candidates := (h d []).1
        rw [hd]
      cases b' with
      | nil => cases hchars
      | branch c' value' candidates' below' next' =>
          obtain ⟨rfl, hnext⟩ := List.cons.inj hchars
          have hnode := h c
          simp only [Branches.child, if_true] at hnode
          obtain rfl : value = value' := (hnode []).2
          obtain rfl : candidates = candidates' := (hnode []).1
          have hbelow : below = below' :=
            ihbelow hb.2.1 hb'.2.1 hlive.2.1 hlive'.2.1 fun d path => hnode (d :: path)
          have hnext : next = next' := by
            refine ihnext hb.2.2 hb'.2.2 hlive.2.2 hlive'.2.2 fun d => ?_
            by_cases hd : d = c
            · subst hd
              have hnot : d ∉ next.chars := fun hmem => lt_irrefl d (hb.1 d hmem)
              rw [Branches.child_of_notMem hnot, Branches.child_of_notMem (hnext ▸ hnot)]
              exact fun path => ⟨rfl, rfl⟩
            · have hnode' := h d
              simpa only [Branches.child, if_neg hd] using hnode'
          rw [hbelow, hnext]

/-! ## Canonical trees -/

/-- Everything in order, and nothing superfluous. -/
structure Canonical (t : Trie) : Prop where
  ordered : t.branches.Ordered
  live : t.branches.Live
  ascending : ∀ path, (t.advanceAll path).candidates.Pairwise (· < ·)

lemma canonical_empty : empty.Canonical where
  ordered := trivial
  live := trivial
  ascending path := by
    rw [advanceAll_empty]
    exact .nil

/-- A canonical tree stays canonical. -/
lemma Canonical.insert {t : Trie} (h : t.Canonical) (op : String) : (t.insert op).Canonical where
  ordered := ordered_insert h.ordered op
  live := by
    unfold Trie.insert
    split
    · exact h.live
    · exact h.live.insert _ _ _
  ascending path := by
    by_cases hop : op = ""
    · rw [hop, insert_empty]
      exact h.ascending path
    · rw [insert_eq hop, candidates_advanceAll_graft h.ordered]
      split
      · exact pairwise_insertText op (h.ascending path)
      · exact h.ascending path

lemma Canonical.foldl_insert {t : Trie} (h : t.Canonical) (ops : List String) :
    (ops.foldl Trie.insert t).Canonical := by
  induction ops generalizing t with
  | nil => exact h
  | cons op ops ih => exact ih (h.insert op)

/-- The tree of a catalog is canonical. -/
lemma canonical_ofList (ops : List String) : (ofList ops).Canonical :=
  canonical_empty.foldl_insert ops

lemma advanceAll_append (t : Trie) (path more : List Char) :
    t.advanceAll (path ++ more) = (t.advanceAll path).advanceAll more :=
  List.foldl_append

lemma Canonical.advance {t : Trie} (h : t.Canonical) (c : Char) : (t.advance c).Canonical where
  ordered := h.ordered.child c
  live := h.live.child c
  ascending path := h.ascending (c :: path)

lemma Canonical.advanceAll {t : Trie} (h : t.Canonical) (path : List Char) :
    (t.advanceAll path).Canonical := by
  induction path generalizing t with
  | nil => exact h
  | cons c path ih => exact ih (h.advance c)

/-- **Canonical trees whose nodes say the same are equal.** -/
theorem Canonical.ext {t t' : Trie} (h : t.Canonical) (h' : t'.Canonical)
    (hnodes : t.SameNodes t') : t = t' := by
  have hbranches := branches_eq_of_sameNodes h.ordered h'.ordered h.live h'.live
    fun c path => hnodes (c :: path)
  obtain ⟨hcandidates, hvalue⟩ := hnodes []
  cases t
  cases t'
  simp only [Trie.advanceAll, List.foldl_nil] at hcandidates hvalue hbranches
  rw [hcandidates, hvalue, hbranches]

/-- A node from which nothing can be completed is the node of the empty tree. -/
lemma advanceAll_ofList_eq_empty {ops : List String} {path : List Char}
    (h : ∀ op ∈ ops, op ≠ "" → ¬ path <+: op.toList) : (ofList ops).advanceAll path = empty := by
  refine ((canonical_ofList ops).advanceAll path).ext canonical_empty fun more => ?_
  rw [advanceAll_empty, ← advanceAll_append]
  constructor
  · refine List.eq_nil_iff_forall_not_mem.2 fun op hop => ?_
    obtain ⟨hmem, hne, hpre⟩ := (mem_candidates_advanceAll_ofList ops _).1 hop
    exact h op hmem hne ((List.prefix_append path more).trans hpre)
  · refine Option.eq_none_iff_forall_ne_some.2 fun op hop => ?_
    obtain ⟨hmem, hne, heq⟩ := (value_advanceAll_ofList_eq_some_iff ops _).1 hop
    exact h op hmem hne (heq ▸ List.prefix_append path more)

/-- **A node stands for its path, after any history of insertions.**  Its candidates are the texts
inserted that begin with the path, other than the empty one, in ascending order; it is alive as long
as there are any; and it completes the path if the path is one of them.  Where there are none, every
longer path leads to the node of the empty tree. -/
theorem node_of_insertions (history : List String) (path : List Char) :
    let node := (history.foldl insert empty).advanceAll path
    (node.candidates.Pairwise (· < ·) ∧
        ∀ s, s ∈ node.candidates ↔ s ∈ history ∧ s ≠ "" ∧ path <+: s.toList) ∧
      (node.isAlive = true ↔ ∃ s ∈ history, s ≠ "" ∧ path <+: s.toList) ∧
      node.value = (if path ≠ [] ∧ String.ofList path ∈ history then some (String.ofList path)
        else none) ∧
      (node.isAlive = false →
        ∀ more, (history.foldl insert empty).advanceAll (path ++ more) = empty) := by
  have halive := isAlive_advanceAll_ofList_iff history path
  refine ⟨⟨(canonical_ofList history).ascending path, fun s => ?_⟩, halive, ?_,
    fun hdead more => ?_⟩
  · exact mem_candidates_advanceAll_ofList history path
  · rw [value_foldl_insert ordered_empty, advanceAll_empty]
    rfl
  · refine advanceAll_ofList_eq_empty fun op hop hne hpre => ?_
    have htrue := halive.2 ⟨op, hop, hne, (List.prefix_append path more).trans hpre⟩
    exact absurd (hdead.symm.trans htrue) Bool.false_ne_true

/-! ## Trees as sets of operators -/

/-- The path leads along branches of the tree all the way. -/
def HasNode (t : Trie) : List Char → Prop
  | [] => True
  | c :: path => c ∈ t.branches.chars ∧ (t.advance c).HasNode path

lemma Canonical.hasNode_iff {t : Trie} (h : t.Canonical) (path : List Char) :
    t.HasNode path ↔ path = [] ∨ (t.advanceAll path).candidates ≠ [] := by
  induction path generalizing t with
  | nil => simp [HasNode]
  | cons c path ih =>
      rw [HasNode, h.live.mem_chars_iff, ih (h.advance c), advanceAll_cons]
      simp only [List.cons_ne_nil, false_or]
      constructor
      · rintro ⟨hc, rfl | hpath⟩
        · exact hc
        · exact hpath
      · intro hpath
        refine ⟨fun hc => hpath ?_, Or.inr hpath⟩
        -- Without a branch for the first character, the path is outside the tree already.
        have hnot : c ∉ t.branches.chars := fun hmem => h.live.mem_chars_iff.1 hmem hc
        have hdead : t.advance c = empty := Branches.child_of_notMem hnot
        rw [hdead, advanceAll_empty]
        rfl

/-- The nodes of the tree are the beginnings of the operators. -/
lemma hasNode_ofList_iff (ops : List String) (path : List Char) :
    (ofList ops).HasNode path ↔
      path = [] ∨ ∃ op ∈ ops, op ≠ "" ∧ path <+: op.toList := by
  rw [(canonical_ofList ops).hasNode_iff, ← isAlive_advanceAll_ofList_iff, isAlive,
    Bool.not_eq_true', List.isEmpty_eq_false_iff]

/-- Trees that are made of the same operators are equal. -/
lemma ofList_congr {a b : List String} (h : ∀ s, s ≠ "" → (s ∈ a ↔ s ∈ b)) :
    ofList a = ofList b := by
  have hset : ∀ s, s ∈ a ∧ s ≠ "" ↔ s ∈ b ∧ s ≠ "" := fun s => and_congr_left (h s)
  refine (canonical_ofList a).ext (canonical_ofList b) fun path => ⟨?_, ?_⟩
  · refine ((canonical_ofList a).ascending path).eq_of_mem_iff
      ((canonical_ofList b).ascending path) fun s => ?_
    rw [mem_candidates_advanceAll_ofList, mem_candidates_advanceAll_ofList, ← and_assoc, hset,
      and_assoc]
  · refine Option.ext fun s => ?_
    rw [value_advanceAll_ofList_eq_some_iff, value_advanceAll_ofList_eq_some_iff, ← and_assoc,
      hset, and_assoc]

/-- To insert an operator is to add it to the catalog. -/
lemma insert_ofList (ops : List String) (op : String) :
    (ofList ops).insert op = ofList (ops ++ [op]) := by
  rw [ofList, ofList, List.foldl_append]
  rfl

/-- **A tree is its set of operators, in one form only.**  Trees made of two lists are equal, node
by node, exactly when the lists have the same texts, the empty one apart.  So another insertion of
the same text changes nothing, insertions can be exchanged, and the empty text is ignored; and a
tree has no nodes but those on the way to an operator. -/
theorem ofList_eq_ofList_iff (a b : List String) :
    (ofList a = ofList b ↔ ∀ s, s ≠ "" → (s ∈ a ↔ s ∈ b)) ∧
      (∀ op, ((ofList a).insert op).insert op = (ofList a).insert op) ∧
      (∀ op op', ((ofList a).insert op).insert op' = ((ofList a).insert op').insert op) ∧
      (ofList a).insert "" = ofList a ∧
      ∀ path, (ofList a).HasNode path ↔
        path = [] ∨ ∃ op ∈ a, op ≠ "" ∧ path <+: op.toList := by
  refine ⟨⟨fun h s hs => ?_, ofList_congr⟩, fun op => ?_, fun op op' => ?_, insert_empty _,
    hasNode_ofList_iff a⟩
  · -- The candidates of the root are all operators.
    have hroot : ∀ ops, s ∈ ops ↔ s ∈ ((ofList ops).advanceAll []).candidates := by
      intro ops
      rw [mem_candidates_advanceAll_ofList]
      simp [hs]
    rw [hroot a, hroot b, h]
  · simp only [insert_ofList]
    exact ofList_congr fun s _ => by simp
  · simp only [insert_ofList]
    exact ofList_congr fun s _ => by simp [or_comm]

end Trie

end EffectLang
