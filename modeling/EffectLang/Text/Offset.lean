/-!
# Offsets

A place in a text is told by the number of characters in front of it.  The number is kept in 32
bits.  So it is exact in every text of fewer than `2 ^ 32` characters, and in a longer one the
offsets begin again at zero: two places that are `2 ^ 32` characters apart have the same offset.
(Arithmetic that is checked stops there instead.  Below `2 ^ 32` characters there is no difference.)
-/

namespace EffectLang

/-- The number of characters in front of a place in a text, in 32 bits. -/
abbrev Offset := UInt32

namespace Offset

/-- The offset of the place behind the first `n` characters of a text. -/
def after (n : Nat) : Offset := UInt32.ofNat n

/-- The offset of the place `n` characters further on. -/
def skip (o : Offset) (n : Nat) : Offset := o + after n

/-- A text begins at offset zero. -/
theorem after_zero : after 0 = 0 := rfl

/-- Skipping nothing leads nowhere. -/
theorem skip_zero (o : Offset) : o.skip 0 = o := UInt32.add_zero o

/-- What lies behind `m` characters and `n` more lies behind `m + n` characters. -/
theorem skip_after (m n : Nat) : (after m).skip n = after (m + n) := (UInt32.ofNat_add m n).symm

/-- Skipping from the beginning leads behind as many characters. -/
theorem zero_skip (n : Nat) : skip 0 n = after n := UInt32.zero_add (after n)

/-- Skips add up. -/
theorem skip_skip (o : Offset) (m n : Nat) : (o.skip m).skip n = o.skip (m + n) := by
  rw [skip, skip, skip, UInt32.add_assoc, after, after, after, UInt32.ofNat_add]

/-- The order of two skips does not matter. -/
theorem skip_right_comm (o : Offset) (m n : Nat) : (o.skip m).skip n = (o.skip n).skip m := by
  rw [skip_skip, skip_skip, Nat.add_comm]

/-- Skipping one character adds one. -/
theorem skip_one (o : Offset) : o.skip 1 = o + 1 := rfl

/-- Every offset is that of the place behind as many characters as it says. -/
theorem after_toNat (o : Offset) : after o.toNat = o := UInt32.ofNat_toNat

end Offset

end EffectLang
