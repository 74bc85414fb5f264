/-!
# Prefix trees of operators

A node stands for a prefix.  It knows the operators that can still be completed from it, its own
among them, and the operator that it completes, if any:

```
root {++, +=, =>, >>}
 ├ '+' {++, +=}
 │  ├ '+' {++}  completes ++
 │  └ '=' {+=}  completes +=
 ├ '=' {=>}
 │  └ '>' {=>}  completes =>
 └ '>' {>>}
    └ '>' {>>}  completes >>
```

The branches of a node are kept in ascending order of their characters and the candidates in
ascending order without repetitions, so that a tree is determined by the set of its operators.
`extend` is the greedy reading of an operator.
-/

namespace EffectLang

/-- Adds a text to an ascending list of texts, unless it is there already. -/
def insertText (s : String) : List String → List String
  | [] => [s]
  | t :: ts =>
    if s < t then s :: t :: ts
    else if s = t then t :: ts
    else t :: insertText s ts

/-- The branches below a node: the first one, with what lies below it, and the next ones. -/
inductive Branches where
  | nil
  | branch (char : Char) (value : Option String) (candidates : List String)
      (below : Branches) (next : Branches)
deriving DecidableEq

/-- A node with everything below it, and so a set of operators. -/
structure Trie where
  /-- The operator that the node completes. -/
  value : Option String
  candidates : List String
  branches : Branches
deriving DecidableEq

namespace Branches

/-- A path of its own for `op`, spelled by `c` and the characters after it, in front of `next`. -/
def path (op : String) : Char → List Char → Branches → Branches
  | c, [], next => branch c (some op) [op] nil next
  | c, d :: ds, next => branch c none [op] (path op d ds nil) next

/-- Adds `op` along the path spelled by `c` and the characters after it. -/
def insert (op : String) : Branches → Char → List Char → Branches
  | nil, c, cs => path op c cs nil
  | branch d value candidates below next, c, cs =>
    if c < d then
      path op c cs (branch d value candidates below next)
    else if c = d then
      match cs with
      | [] => branch d (some op) (insertText op candidates) below next
      | e :: es => branch d value (insertText op candidates) (insert op below e es) next
    else
      branch d value candidates below (insert op next c cs)

/-- The node at the end of the branch for `c`; without such a branch, a node from which nothing
can be completed. -/
def child : Branches → Char → Trie
  | nil, _ => ⟨none, [], nil⟩
  | branch d value candidates below next, c =>
    if c = d then ⟨value, candidates, below⟩ else child next c

end Branches

namespace Trie

/-- The tree of no operators. -/
def empty : Trie := ⟨none, [], .nil⟩

/-- Adds an operator.  The empty text is not an operator and changes nothing. -/
def insert (t : Trie) (op : String) : Trie :=
  match op.toList with
  | [] => t
  | c :: cs =>
    ⟨t.value, insertText op t.candidates, t.branches.insert op c cs⟩

/-- The tree of a catalog. -/
def ofList (ops : List String) : Trie := ops.foldl insert empty

/-- The node at the end of the branch for a character. -/
def advance (t : Trie) (c : Char) : Trie := t.branches.child c

/-- The node at the end of a path. -/
def advanceAll (t : Trie) (path : List Char) : Trie := path.foldl advance t

/-- Some operator can still be completed. -/
def isAlive (t : Trie) : Bool := !t.candidates.isEmpty

/-- Reads on for as long as some operator goes on with the next character, and never goes back:
the characters read and the node they lead to. -/
def extend (t : Trie) : List Char → List Char × Trie
  | [] => ([], t)
  | c :: cs =>
    if (t.advance c).isAlive then
      let (taken, last) := (t.advance c).extend cs
      (c :: taken, last)
    else
      ([], t)

/-- What is read is a beginning of the text. -/
theorem extend_fst_isPrefix (t : Trie) (cs : List Char) : (t.extend cs).1 <+: cs := by
  induction cs generalizing t with
  | nil => simp [extend]
  | cons c cs ih =>
    simp only [extend]
    split
    · simpa using ih (t.advance c)
    · simp

/-- What was read leads to the node. -/
theorem extend_snd (t : Trie) (cs : List Char) :
    (t.extend cs).2 = t.advanceAll (t.extend cs).1 := by
  induction cs generalizing t with
  | nil => rfl
  | cons c cs ih =>
    simp only [extend]
    split
    · simpa [advanceAll] using ih (t.advance c)
    · rfl

end Trie

end EffectLang
