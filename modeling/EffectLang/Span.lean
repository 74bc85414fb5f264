import EffectLang.Text.Numeral
import EffectLang.Text.Offset

/-!
# Spans

A stretch of a text, by character offsets.

The offsets of a span have 32 bits.  Where a span is looked up in a text its ends are counted
without a bound: the `Stretch` that it stands for (`Span.range`), or the part of this stretch that
lies in the text (`Span.clamp`).
-/

namespace EffectLang

/-- The characters number `start`, …, `stop - 1` of a text. -/
structure Stretch where
  start : Nat
  stop : Nat
deriving DecidableEq

/-- The characters at offsets `start`, …, `stop - 1`.  A span with `start = stop` is a point.
Nothing demands `start ≤ stop`: tokens and labels carry whatever span they were given. -/
structure Span where
  start : Offset
  stop : Offset
deriving DecidableEq

namespace Span

/-- The span of the characters at `first` through `last`.  Behind the last of all offsets it stops
at zero. -/
def inclusive (first last : Offset) : Span := ⟨first, last + 1⟩

/-- The span of no characters at all. -/
def point (offset : Offset) : Span := ⟨offset, offset⟩

/-- The offset of the last character covered; one before `start` for a point, but never below
zero. -/
def last (s : Span) : Offset := if s.stop = 0 then 0 else s.stop - 1

/-- How many characters are covered. -/
def length (s : Span) : Nat := s.stop.toNat - s.start.toNat

/-- The least span that covers two spans. -/
def merge (s t : Span) : Span := ⟨min s.start t.start, max s.stop t.stop⟩

/-- The stretch of characters that a span stands for. -/
def range (s : Span) : Stretch := ⟨s.start.toNat, s.stop.toNat⟩

/-- The part of a span that lies in a text of `size` characters; of a span past the end of the text
only the point at its end is left. -/
def clamp (size : Nat) (s : Span) : Stretch :=
  let start := min s.start.toNat size
  ⟨start, min (max s.stop.toNat start) size⟩

/-- Both offsets, as a message gives them. -/
def text (s : Span) : String :=
  Text.Numeral.ofNat s.start.toNat ++ ".." ++ Text.Numeral.ofNat s.stop.toNat

/-- What is left of a span does not end before it begins. -/
theorem clamp_start_le_stop (size : Nat) (s : Span) :
    (s.clamp size).start ≤ (s.clamp size).stop := by
  simp only [clamp]
  omega

/-- What is left of a span ends in the text. -/
theorem clamp_stop_le (size : Nat) (s : Span) : (s.clamp size).stop ≤ size := by
  simp only [clamp]
  omega

/-- A span that lies in the text is left as it is. -/
theorem clamp_eq_range {size : Nat} {s : Span} (h : s.range.start ≤ s.range.stop)
    (h' : s.range.stop ≤ size) : s.clamp size = s.range := by
  simp only [clamp, range, Stretch.mk.injEq] at *
  omega

end Span

end EffectLang
