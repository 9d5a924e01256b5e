/-!
# Words of the datapath

Every element, weight and partial sum travels as a 64-bit two's complement word. A narrower register of `bits` bits
keeps the low bits of what is written to it:

- `Word.wrap` reads those bits back as a signed number;
- `Word.low` reads them back as an unsigned number.
-/

namespace Systolic

/-- A 64-bit two's complement word. -/
abbrev Word := Int64

namespace Word

/-- The low `bits` bits of `v` as a signed number, for `bits` in `1..=64`: the bits above are pushed out at the top and
the sign bit is drawn back down. -/
def wrap (bits : Nat) (v : Word) : Word :=
  (v <<< Int64.ofNat (64 - bits)) >>> Int64.ofNat (64 - bits)

/-- The low `bits` bits of `v` as an unsigned number. -/
def low (bits : Nat) (v : Word) : UInt64 := .ofNat (v.toUInt64.toNat % Nat.pow 2 bits)

end Word

end Systolic
