import EffectLang.Text.Offset

/-!
# Text cursors

A place in a text, known by two numbers at once: how many bytes of the UTF-8 form lie before it,
and how many characters.  The bytes cut the text.  The characters are what spans count, in 32 bits.
-/

namespace EffectLang.Text

/-- The characters after the first `n` bytes, or none at all when byte `n` is inside a character
or past the end. -/
def dropBytes : Nat → List Char → List Char
  | 0, cs => cs
  | _ + 1, [] => []
  | n + 1, c :: cs => if c.utf8Size ≤ n + 1 then dropBytes (n + 1 - c.utf8Size) cs else []

/-- A character whose bytes are all dropped is dropped. -/
theorem dropBytes_cons {n : Nat} {c : Char} (h : c.utf8Size ≤ n) (cs : List Char) :
    dropBytes n (c :: cs) = dropBytes (n - c.utf8Size) cs := by
  cases n with
  | zero => exact absurd c.utf8Size_pos (Nat.not_lt.2 h)
  | succ n => rw [dropBytes, if_pos h]

/-- The bytes of the next character are all that has to be dropped to pass it. -/
theorem dropBytes_add_utf8Size {n : Nat} {c : Char} {cs rest : List Char}
    (h : dropBytes n cs = c :: rest) : dropBytes (n + c.utf8Size) cs = rest := by
  fun_induction dropBytes n cs with
  | case1 cs =>
    subst h
    rw [Nat.zero_add, dropBytes_cons (Nat.le_refl _), Nat.sub_self, dropBytes]
  | case2 n => cases h
  | case3 n d cs hle ih =>
    have hn : n + 1 + c.utf8Size - d.utf8Size = n + 1 - d.utf8Size + c.utf8Size := by omega
    rw [dropBytes_cons (by omega), hn]
    exact ih h
  | case4 n d cs hle => cases h

/-- A text, and a place in it. -/
structure Cursor where
  source : String
  /-- The number of bytes before the place. -/
  bytes : Nat
  /-- The number of characters before the place, as far as 32 bits can say. -/
  offset : Offset

namespace Cursor

/-- The beginning of a text. -/
def ofString (source : String) : Cursor := ⟨source, 0, 0⟩

/-- The characters that lie ahead. -/
def ahead (c : Cursor) : List Char := dropBytes c.bytes c.source.toList

/-- The text that lies ahead. -/
def rest (c : Cursor) : String := String.ofList c.ahead

/-- The next character, if there is one. -/
def current? (c : Cursor) : Option Char := c.ahead.head?

/-- All bytes lie before the place. -/
def atEnd (c : Cursor) : Bool := c.source.utf8ByteSize ≤ c.bytes

/-- Passes one character and gives it; at the end of the text nothing changes. -/
def bump (c : Cursor) : Option Char × Cursor :=
  match c.current? with
  | some ch => (some ch, ⟨c.source, c.bytes + ch.utf8Size, c.offset + 1⟩)
  | none => (none, c)

/-- From the beginning, the whole text lies ahead. -/
theorem ahead_ofString (source : String) : (ofString source).ahead = source.toList := by
  rw [ahead, ofString, dropBytes]

/-- In front of a character, this character is given and passed. -/
theorem bump_of_ahead {c : Cursor} {ch : Char} {rest : List Char} (h : c.ahead = ch :: rest) :
    c.bump = (some ch, ⟨c.source, c.bytes + ch.utf8Size, c.offset + 1⟩) := by
  rw [bump, current?, h]
  rfl

/-! ## Several characters at once -/

/-- The place behind some more characters. -/
def pass (c : Cursor) : List Char → Cursor
  | [] => c
  | ch :: cs => pass ⟨c.source, c.bytes + ch.utf8Size, c.offset + 1⟩ cs

/-- The offset counts the characters. -/
theorem offset_pass (c : Cursor) (cs : List Char) : (c.pass cs).offset = c.offset.skip cs.length := by
  induction cs generalizing c with
  | nil => exact (Offset.skip_zero _).symm
  | cons ch cs ih =>
    rw [pass, ih, ← Offset.skip_one, Offset.skip_skip, List.length_cons, Nat.add_comm]

/-- Passing some characters and then some more is passing all of them. -/
theorem pass_append (c : Cursor) (cs ds : List Char) :
    c.pass (cs ++ ds) = (c.pass cs).pass ds := by
  induction cs generalizing c with
  | nil => rfl
  | cons ch cs ih => exact ih _

/-- Behind the characters that are passed lies the rest. -/
theorem ahead_pass {c : Cursor} {cs rest : List Char} (h : c.ahead = cs ++ rest) :
    (c.pass cs).ahead = rest := by
  induction cs generalizing c with
  | nil => exact h
  | cons ch cs ih => exact ih (dropBytes_add_utf8Size h)

end Cursor

end EffectLang.Text
