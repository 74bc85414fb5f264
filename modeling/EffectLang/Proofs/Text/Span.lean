import EffectLang.Span
import Mathlib

/-!
# Exact offsets

In texts of fewer than `2 ^ 32` characters an offset says how many characters are in front of it
(`Offset.toNat_after`), and what is done to offsets and spans is what is done to places.  In longer
texts this does not hold: behind `2 ^ 32` characters the offsets begin again
(`Offset.after_add_two_pow`).
-/

namespace EffectLang

namespace Offset

/-- Below `2 ^ 32` characters an offset is exact. -/
lemma toNat_after {n : Nat} (h : n < 2 ^ 32) : (after n).toNat = n := by
  rw [after, UInt32.toNat_ofNat', Nat.mod_eq_of_lt h]

/-- Below `2 ^ 32` characters a skip is exact. -/
lemma toNat_skip {o : Offset} {n : Nat} (h : o.toNat + n < 2 ^ 32) :
    (o.skip n).toNat = o.toNat + n := by
  conv => lhs; rw [← after_toNat o, skip_after]
  exact toNat_after h

/-- At `2 ^ 32` characters the offsets begin again. -/
theorem after_add_two_pow (n : Nat) : after (n + 2 ^ 32) = after n := by
  rw [← UInt32.toNat_inj, after, after, UInt32.toNat_ofNat', UInt32.toNat_ofNat',
    Nat.add_mod_right]

end Offset

/-- The part of a text that a span covers. -/
def Span.cut (s : Span) (text : String) : String :=
  String.ofList ((text.toList.drop s.start.toNat).take s.length)

/-- Merged spans stand for the least stretch that covers both. -/
lemma Span.range_merge (s t : Span) : (s.merge t).range =
    ⟨min s.range.start t.range.start, max s.range.stop t.range.stop⟩ := by
  simp only [merge, range, UInt32.toNat_min, UInt32.toNat_max]

/-- A span that stands for the place of a part of a text cuts this part out of it. -/
lemma Span.cut_middle {s : Span} {a b : String} (h : s.range = ⟨a.length, a.length + b.length⟩)
    (c : String) : s.cut (a ++ (b ++ c)) = b := by
  obtain ⟨hstart, hstop⟩ := Stretch.mk.inj h
  have hb : a.length + b.length - a.length = b.toList.length := by
    rw [String.length_toList]
    omega
  rw [cut, length, hstart, hstop, hb, String.toList_append, String.toList_append,
    ← String.length_toList (s := a), List.drop_left, List.take_left, String.ofList_toList]

/-- The same stretch `n` characters further on. -/
def Stretch.move (n : Nat) (s : Stretch) : Stretch := ⟨n + s.start, n + s.stop⟩

/-- The same span `n` characters further on, as far as 32 bits can say. -/
def Span.move (n : Nat) (s : Span) : Span := ⟨s.start.skip n, s.stop.skip n⟩

/-- Below `2 ^ 32` characters a span is moved with the stretch that it stands for. -/
lemma Span.range_move {n : Nat} {s : Span} (hstart : s.range.start + n < 2 ^ 32)
    (hstop : s.range.stop + n < 2 ^ 32) : (s.move n).range = s.range.move n := by
  rw [range, move, Offset.toNat_skip hstart, Offset.toNat_skip hstop, Stretch.move, Nat.add_comm n,
    Nat.add_comm n]
  rfl

end EffectLang
