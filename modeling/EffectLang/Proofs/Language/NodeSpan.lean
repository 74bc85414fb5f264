import EffectLang.Proofs.Language.RoundTrip

/-!
# Where the nodes of a tree stand

Every node of an accepted text cuts its own text out of it (`parse_nodes_standIn`): what its span
covers is what the node prints, without the leading text of its first token and the trailing text
of its last one.

**Runs.**  The tokens of a node are a run of the tokens of the tree (`Expr.tokens_infix`), which
goes from a node to its children, one step at a time, through `Expr.children_induction`.  A run of
placed tokens is placed, so a node knows nothing of where in the tree it is.

**Ends.**  The span of a node looks at its first and its last token only.  In a placed run no token
begins before the one or ends behind the other (`Placed.bounds`), and what the run writes between
these two ends is what the text has there (`Placed.cut_run`).
-/

namespace EffectLang

/-! ## Runs of placed tokens -/

namespace Placed

variable {place : Nat} {first last t : Token} {run ts : List Token}

/-- A run of tokens that have their places has its place. -/
lemma of_infix (h : Placed place ts) (hrun : run <:+: ts) : ∃ place, Placed place run := by
  obtain ⟨before, after, rfl⟩ := hrun
  rw [List.append_assoc, append_iff] at h
  exact ⟨_, (append_iff.1 h.2).1⟩

/-- No token begins before the first one or ends behind the last one. -/
lemma bounds (h : Placed place ts) (hfirst : ts.head? = some first)
    (hlast : ts.getLast? = some last) (ht : t ∈ ts) :
    first.span.range.start ≤ t.span.range.start ∧
      t.span.range.stop ≤ last.span.range.stop := by
  constructor
  · obtain ⟨rest, rfl⟩ := List.head?_eq_some_iff.1 hfirst
    rcases List.mem_cons.1 ht with rfl | hrest
    · exact Nat.le_refl _
    · have hnext := (List.pairwise_cons.1 h.pairwise).1 t hrest
      exact Nat.le_trans (h.forward List.mem_cons_self) hnext
  · obtain ⟨rest, rfl⟩ := List.getLast?_eq_some_iff.1 hlast
    rcases List.mem_append.1 ht with hrest | hend
    · have hnext := (List.pairwise_append.1 h.pairwise).2.2 t hrest last List.mem_cons_self
      exact Nat.le_trans hnext (h.forward (List.mem_append_right _ List.mem_cons_self))
    · rw [List.mem_singleton.1 hend]

/-- What a run writes from the content of its first token to that of its last one. -/
lemma exists_core (h : Placed place ts) (hfirst : ts.head? = some first)
    (hlast : ts.getLast? = some last) :
    ∃ core : String, (TokenList.ofList ts).text = first.leading ++ core ++ last.trailing ∧
      first.span.range.start = place + first.leading.length ∧
      last.span.range.stop = place + first.leading.length + core.length := by
  induction ts generalizing place first with
  | nil => cases hfirst
  | cons t ts ih =>
      cases hfirst
      have hspan := h.1
      cases ts with
      | nil =>
          obtain rfl : t = last := Option.some.inj hlast
          refine ⟨t.content, ?_, by rw [hspan], by rw [hspan]⟩
          simp [TokenList.ofList, TokenList.text, Token.fullText]
      | cons next ts =>
          rw [List.getLast?_cons_cons] at hlast
          obtain ⟨core, htext, -, hstop⟩ := ih h.2 rfl hlast
          refine ⟨t.content ++ t.trailing ++ next.leading ++ core, ?_, by rw [hspan], ?_⟩
          · rw [TokenList.ofList, TokenList.text_cons]
            rw [TokenList.ofList] at htext
            rw [htext, Token.fullText]
            simp only [String.append_assoc]
          · rw [hstop, Token.fullText]
            simp only [String.length_append]
            omega

/-- A run stands in the text from the content of its first token to that of its last one. -/
lemma cut_run {list : TokenList} {s : Span} (h : Placed 0 list.tokens)
    (hrun : run <:+: list.tokens) (hfirst : run.head? = some first)
    (hlast : run.getLast? = some last)
    (hs : s.range = ⟨first.span.range.start, last.span.range.stop⟩) :
    s.range.start ≤ s.range.stop ∧ s.range.stop ≤ list.text.length ∧
      (TokenList.ofList run).text = first.leading ++ s.cut list.text ++ last.trailing := by
  obtain ⟨before, after, hsplit⟩ := hrun
  have hplaced : Placed (TokenList.ofList before).text.length run := by
    rw [← hsplit, List.append_assoc, append_iff, append_iff, Nat.zero_add] at h
    exact h.2.1
  obtain ⟨core, hcore, hstart, hstop⟩ := hplaced.exists_core hfirst hlast
  rw [← String.length_append] at hstart hstop
  rw [hstart, hstop] at hs
  have htext : list.text = (TokenList.ofList before).text ++ first.leading ++
      (core ++ (last.trailing ++ (TokenList.mk after list.trailing).text)) := by
    have hlist : list = ⟨before ++ (run ++ after), list.trailing⟩ := by
      rw [← List.append_assoc, hsplit]
    rw [hlist, TokenList.text_append, TokenList.text_append, hcore]
    simp only [String.append_assoc]
  refine ⟨?_, ?_, ?_⟩
  · rw [hs]
    exact Nat.le_add_right _ _
  · rw [hs, htext, String.length_append _ (core ++ _), String.length_append core]
    simp only
    omega
  · rw [htext, Span.cut_middle hs, hcore]

end Placed

/-! ## Nodes and their children -/

/-- The tokens that a part of a node was written with. -/
def Visit.tokens : Visit → List Token
  | node e => e.tokens
  | token t => [t]

namespace Expr

/-- The parts of a node that are nodes, as they were written. -/
def children (e : Expr) : List Expr := (e.partsThen []).filterMap Visit.node?

variable {c e n : Expr}

@[simp] lemma children_atom (t : Token) : (atom t).children = [] := rfl

@[simp] lemma children_grouping (o : Token) (e : Expr) (c : Token) :
    (grouping o e c).children = [e] := rfl

@[simp] lemma children_increment (e : Expr) (op : Token) : (increment e op).children = [e] := rfl

@[simp] lemma children_assignment (l : Expr) (op : Token) (r : Expr) :
    (assignment l op r).children = [l, r] := rfl

@[simp] lemma children_conditional (l : Expr) (op : Token) (r : Expr) :
    (conditional l op r).children = [l, r] := rfl

@[simp] lemma children_chaining (l : Expr) (op : Token) (r : Expr) :
    (chaining l op r).children = [l, r] := rfl

/-- To show something of all trees, show it of a node whose children have it. -/
@[elab_as_elim]
lemma children_induction {motive : Expr → Prop}
    (node : ∀ e : Expr, (∀ c ∈ e.children, motive c) → motive e) (e : Expr) : motive e := by
  induction e with
  | atom t => exact node _ (by simp)
  | grouping o inner c ih => exact node _ (by simpa using ih)
  | increment operand op ih => exact node _ (by simpa using ih)
  | assignment l op r ihl ihr => exact node _ (by simpa using ⟨ihl, ihr⟩)
  | conditional l op r ihl ihr => exact node _ (by simpa using ⟨ihl, ihr⟩)
  | chaining l op r ihl ihr => exact node _ (by simpa using ⟨ihl, ihr⟩)

/-- The nodes of a tree are its root and the nodes of its children. -/
lemma nodes_eq (e : Expr) : e.nodes = e :: e.children.flatMap nodes := by
  cases e <;> simp [nodes_atom, nodes_grouping, nodes_increment, nodes_assignment,
    nodes_conditional, nodes_chaining]

/-- Every tree has a token. -/
lemma tokens_ne_nil (e : Expr) : e.tokens ≠ [] := by
  cases e <;> simp [tokens_atom, tokens_grouping, tokens_increment, tokens_assignment,
    tokens_conditional, tokens_chaining]

/-! ## The tokens of a node -/

lemma tokens_eq_flatMap (e : Expr) : e.tokens = (e.partsThen []).flatMap Visit.tokens := by
  cases e <;> simp [partsThen, Visit.tokens, tokens_atom, tokens_grouping, tokens_increment,
    tokens_assignment, tokens_conditional, tokens_chaining]

lemma node_mem_partsThen (hc : c ∈ e.children) : .node c ∈ e.partsThen [] := by
  obtain ⟨v, hv, hnode⟩ := List.mem_filterMap.1 hc
  cases v with
  | node c' =>
      cases hnode
      exact hv
  | token t => cases hnode

/-- The tokens of a part are a run of those of the whole. -/
lemma tokens_infix_of_mem_children (hc : c ∈ e.children) : c.tokens <:+: e.tokens := by
  obtain ⟨before, after, hparts⟩ := List.append_of_mem (node_mem_partsThen hc)
  rw [tokens_eq_flatMap e, hparts, List.flatMap_append, List.flatMap_cons]
  exact ⟨before.flatMap Visit.tokens, after.flatMap Visit.tokens, List.append_assoc _ _ _⟩

/-- The tokens of a node are a run of the tokens of the tree. -/
theorem tokens_infix (hn : n ∈ e.nodes) : n.tokens <:+: e.tokens := by
  induction e using children_induction with
  | node e ih =>
      rw [nodes_eq, List.mem_cons, List.mem_flatMap] at hn
      rcases hn with rfl | ⟨c, hc, hn⟩
      · exact List.infix_rfl
      · exact (ih c hc hn).trans (tokens_infix_of_mem_children hc)

/-- The tokens of one child stand before those of the next. -/
lemma children_tokens_pairwise (e : Expr) :
    e.children.Pairwise fun l r => (l.tokens ++ r.tokens).Sublist e.tokens := by
  cases e <;> simp [tokens_assignment, tokens_conditional, tokens_chaining]

/-! ## The span of a node -/

variable {place : Nat}

lemma span_atom (t : Token) : (atom t).span = t.span := by
  have hmin : min t.span.start t.span.start = t.span.start := ite_self _
  have hmax : max t.span.stop t.span.stop = t.span.stop := ite_self _
  simp only [span, tokens_atom, List.head?_singleton, List.getLast?_singleton, Span.merge, hmin,
    hmax]

/-- The span of a node goes from its first token to its last one. -/
lemma exists_ends (h : Placed place e.tokens) :
    ∃ first last, e.tokens.head? = some first ∧ e.tokens.getLast? = some last ∧
      e.span.range = ⟨first.span.range.start, last.span.range.stop⟩ := by
  have hfirst := List.head?_eq_some_head e.tokens_ne_nil
  have hlast := List.getLast?_eq_some_getLast e.tokens_ne_nil
  have hstart := (h.bounds hfirst hlast (List.getLast_mem e.tokens_ne_nil)).1
  have hstop := (h.bounds hfirst hlast (List.head_mem e.tokens_ne_nil)).2
  refine ⟨_, _, hfirst, hlast, ?_⟩
  simp only [span, hfirst, hlast, Span.range_merge]
  rw [Nat.min_eq_left hstart, Nat.max_eq_right hstop]

/-- The span of a part lies inside that of the whole. -/
lemma span_within (h : Placed place e.tokens) (hn : n.tokens <:+: e.tokens) :
    e.span.range.start ≤ n.span.range.start ∧ n.span.range.stop ≤ e.span.range.stop := by
  obtain ⟨_, hplace⟩ := h.of_infix hn
  obtain ⟨first, last, hfirst, hlast, hspan⟩ := exists_ends h
  obtain ⟨first', last', hfirst', hlast', hspan'⟩ := exists_ends hplace
  rw [hspan, hspan']
  exact ⟨(h.bounds hfirst hlast (hn.subset (List.mem_of_head? hfirst'))).1,
    (h.bounds hfirst hlast (hn.subset (List.mem_of_getLast? hlast'))).2⟩

/-- The spans of the parts of a node do not overlap. -/
lemma children_spans_pairwise (h : Placed place e.tokens) :
    e.children.Pairwise fun l r => l.span.range.stop ≤ r.span.range.start := by
  refine e.children_tokens_pairwise.imp_of_mem fun {l r} hl hr hsub => ?_
  obtain ⟨_, hlplace⟩ := h.of_infix (tokens_infix_of_mem_children hl)
  obtain ⟨_, hrplace⟩ := h.of_infix (tokens_infix_of_mem_children hr)
  obtain ⟨_, last, -, hlast, hlspan⟩ := exists_ends hlplace
  obtain ⟨first, _, hfirst, -, hrspan⟩ := exists_ends hrplace
  rw [hlspan, hrspan]
  exact (List.pairwise_append.1 (h.pairwise.sublist hsub)).2.2
    last (List.mem_of_getLast? hlast) first (List.mem_of_head? hfirst)

/-- A node has its place in a text. -/
structure StandsIn (source : String) (n : Expr) : Prop where
  forward : n.span.range.start ≤ n.span.range.stop
  within : n.span.range.stop ≤ source.length
  /-- What the span covers is what the node prints, but for the text in front of its first token
  and behind its last one. -/
  cut : ∃ first last, n.tokens.head? = some first ∧ n.tokens.getLast? = some last ∧
    n.print = first.leading ++ n.span.cut source ++ last.trailing
  nested : ∀ c ∈ n.children,
    n.span.range.start ≤ c.span.range.start ∧ c.span.range.stop ≤ n.span.range.stop
  ordered : n.children.Pairwise fun l r => l.span.range.stop ≤ r.span.range.start

/-- A tree is printed as the text of its tokens. -/
lemma print_eq_text (e : Expr) : e.print = (TokenList.ofList e.tokens).text := by
  rw [TokenList.text, TokenList.ofList, String.append_empty, print]

/-- A node whose tokens are a run of placed tokens stands in the text of all of them. -/
lemma standsIn_of_infix {list : TokenList} (h : Placed 0 list.tokens)
    (hn : n.tokens <:+: list.tokens) : n.StandsIn list.text := by
  obtain ⟨place, hplace⟩ := h.of_infix hn
  obtain ⟨first, last, hfirst, hlast, hspan⟩ := exists_ends hplace
  obtain ⟨hforward, hwithin, hcut⟩ := h.cut_run hn hfirst hlast hspan
  exact ⟨hforward, hwithin, ⟨first, last, hfirst, hlast, by rw [print_eq_text, hcut]⟩,
    fun c hc => span_within hplace (tokens_infix_of_mem_children hc),
    children_spans_pairwise hplace⟩

end Expr

namespace Language

/-- **Every node cuts its own text out of the source,** if that has fewer than `2 ^ 32` characters.
Its span lies in the text, around the spans of its children, which stand in order and do not
overlap. -/
theorem parse_nodes_standIn {L : Language} {source : String} {e : Expr}
    (h : L.parse source = .ok e) (hsize : source.length < 2 ^ 32) :
    ∀ n ∈ e.nodes, n.StandsIn source := by
  intro n hn
  obtain ⟨list, hlist, hparse⟩ := parse_eq_ok_iff_tokenize.1 h
  obtain ⟨htokens, -⟩ := Grammar.shaped_of_parse hparse
  have hscan := tokenize_eq_ok_iff.1 hlist
  have htext : list.text = source := by rw [hscan.text, String.ofList_toList]
  have hplaced := hscan.placed (by rwa [String.length_toList])
  rw [← htext]
  exact Expr.standsIn_of_infix hplaced (htokens ▸ Expr.tokens_infix hn)

/-- A group with white space on both sides of its content, guarded by a logic string without a
body. -/
theorem parse_nodes_standIn_guarded_group :
    ∃ e, itemEffects.parse " `` =>( A++ >> B-- ) " = .ok e ∧
      " `` =>( A++ >> B-- ) ".length < 2 ^ 32 ∧
      e = .conditional (.atom ⟨.logic "", ⟨2, 2⟩, " `", "` "⟩) ⟨.operator "=>", ⟨4, 6⟩, "", ""⟩
        (.grouping ⟨.paren .left, ⟨6, 7⟩, "", " "⟩
          (.chaining
            (.increment (.atom ⟨.name "A", ⟨8, 9⟩, "", ""⟩) ⟨.operator "++", ⟨9, 11⟩, "", " "⟩)
            ⟨.operator ">>", ⟨12, 14⟩, "", " "⟩
            (.increment (.atom ⟨.name "B", ⟨15, 16⟩, "", ""⟩)
              ⟨.operator "--", ⟨16, 18⟩, "", " "⟩))
          ⟨.paren .right, ⟨19, 20⟩, "", " "⟩) ∧
      (∀ n ∈ e.nodes, n.StandsIn " `` =>( A++ >> B-- ) ") ∧
      e.nodes.map (fun n => (n.span, n.span.cut " `` =>( A++ >> B-- ) ")) =
        [(⟨2, 20⟩, "` =>( A++ >> B-- )"), (⟨2, 2⟩, ""), (⟨6, 20⟩, "( A++ >> B-- )"),
          (⟨8, 18⟩, "A++ >> B--"), (⟨8, 11⟩, "A++"), (⟨8, 9⟩, "A"), (⟨15, 18⟩, "B--"),
          (⟨15, 16⟩, "B")] := by
  have h : itemEffects.parse " `` =>( A++ >> B-- ) " =
      .ok (.conditional (.atom ⟨.logic "", ⟨2, 2⟩, " `", "` "⟩)
        ⟨.operator "=>", ⟨4, 6⟩, "", ""⟩
        (.grouping ⟨.paren .left, ⟨6, 7⟩, "", " "⟩
          (.chaining
            (.increment (.atom ⟨.name "A", ⟨8, 9⟩, "", ""⟩) ⟨.operator "++", ⟨9, 11⟩, "", " "⟩)
            ⟨.operator ">>", ⟨12, 14⟩, "", " "⟩
            (.increment (.atom ⟨.name "B", ⟨15, 16⟩, "", ""⟩)
              ⟨.operator "--", ⟨16, 18⟩, "", " "⟩))
          ⟨.paren .right, ⟨19, 20⟩, "", " "⟩)) := by cbv
  have hsize : " `` =>( A++ >> B-- ) ".length < 2 ^ 32 := by decide
  exact ⟨_, h, hsize, rfl, parse_nodes_standIn h hsize, by cbv⟩

/-- The span of a name behind `2 ^ 32` spaces cuts the first of them out. -/
theorem parse_nodes_standIn_overlong :
    ∃ e, itemEffects.parse (Text.spaces (2 ^ 32) ++ "A") = .ok e ∧ e ∈ e.nodes ∧
      e.span.cut (Text.spaces (2 ^ 32) ++ "A") = " " ∧
      ¬ e.StandsIn (Text.spaces (2 ^ 32) ++ "A") := by
  have hscan : itemEffects.scan (.after (2 ^ 32)) "A".toList [] =
      .ok ⟨[⟨.name "A", ⟨0, 1⟩, "", ""⟩], ""⟩ := by cbv
  have h : itemEffects.tokenize (Text.spaces (2 ^ 32) ++ "A") = _ :=
    tokenize_spaces itemEffects _ (by simp [Text.isBlank, Text.blankRanges])
  rw [hscan] at h
  have hcut : (Span.mk 0 1).cut (Text.spaces (2 ^ 32) ++ "A") = " " := Span.cut_spaces (by decide) _
  have hnot : ∀ leading source, (Span.mk 0 1).cut source = " " →
      ¬ (Expr.atom ⟨.name "A", ⟨0, 1⟩, leading, ""⟩).StandsIn source := by
    intro leading source hcut hstands
    obtain ⟨first, last, hfirst, hlast, hprint⟩ := hstands.cut
    rw [Expr.tokens_atom] at hfirst hlast
    cases hfirst
    cases hlast
    rw [Expr.print_eq_text, Expr.tokens_atom, Expr.span_atom, hcut] at hprint
    simp [TokenList.text, TokenList.ofList, Token.fullText, Token.content, TokenKind.content,
      String.ext_iff] at hprint
  refine ⟨.atom ⟨.name "A", ⟨0, 1⟩, Text.spaces (2 ^ 32) ++ "", ""⟩,
    by rw [Language.parse, h]; rfl, by rw [Expr.nodes_atom]; exact List.mem_cons_self, ?_,
    hnot _ _ hcut⟩
  rw [Expr.span_atom, hcut]

end Language

end EffectLang
