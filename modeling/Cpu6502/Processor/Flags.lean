/-!
# Status flags

Seven flags, which also have a packed form: one bit each in the order `NV-BDIZC` from bit 7 down,
where bit 5 is always set.
-/

namespace Cpu6502

/-- The status flags. -/
structure Flags where
  /-- Negative: bit 7 of the last result. -/
  n : Bool := false
  /-- Overflow of signed arithmetic. -/
  v : Bool := false
  /-- Break: a BRK has been executed. -/
  b : Bool := false
  /-- Decimal mode, which no instruction consults. -/
  d : Bool := false
  /-- Interrupt disable. -/
  i : Bool := false
  /-- Zero: the last result was zero. -/
  z : Bool := false
  /-- Carry out of an addition, or no borrow from a comparison. -/
  c : Bool := false
  deriving DecidableEq, Repr, Inhabited

namespace Flags

/-- All flags clear. -/
def clear : Flags := {}

/-- The weight of a flag in the packed form: the bit if it is set, and nothing if not. -/
def weight (bit : UInt8) (flag : Bool) : UInt8 :=
  if flag then bit else 0

/-- The packed form. -/
def toByte (f : Flags) : UInt8 :=
  weight 0x80 f.n ||| weight 0x40 f.v ||| 0x20 ||| weight 0x10 f.b ||| weight 0x08 f.d |||
    weight 0x04 f.i ||| weight 0x02 f.z ||| weight 0x01 f.c

/-- The flags of a packed form, whose bit 5 is ignored. -/
def ofByte (p : UInt8) : Flags where
  n := p &&& 0x80 ≠ 0
  v := p &&& 0x40 ≠ 0
  b := p &&& 0x10 ≠ 0
  d := p &&& 0x08 ≠ 0
  i := p &&& 0x04 ≠ 0
  z := p &&& 0x02 ≠ 0
  c := p &&& 0x01 ≠ 0

/-- Sets N and Z as a result demands. -/
def withResult (f : Flags) (result : UInt8) : Flags :=
  { f with n := result &&& 0x80 ≠ 0, z := result = 0 }

/-- The letters of the flags in packed order, in upper case where the flag is set. -/
def letters (f : Flags) : List Char :=
  [if f.n then 'N' else 'n', if f.v then 'V' else 'v', '-', if f.b then 'B' else 'b',
    if f.d then 'D' else 'd', if f.i then 'I' else 'i', if f.z then 'Z' else 'z',
    if f.c then 'C' else 'c']

/-- The flags as text, such as `nv-bdiZC`. -/
def text (f : Flags) : String :=
  String.ofList f.letters

/-- The form in which flags are shown for inspection. -/
def inspect (f : Flags) : String :=
  s!"Flags \x7b n: {f.n}, v: {f.v}, b: {f.b}, d: {f.d}, i: {f.i}, z: {f.z}, c: {f.c} \x7d"

theorem ofByte_toByte (f : Flags) : ofByte f.toByte = f := by
  have all : ∀ n v b d i z c : Bool,
      ofByte (toByte ⟨n, v, b, d, i, z, c⟩) = ⟨n, v, b, d, i, z, c⟩ := by
    decide +kernel
  exact all ..

end Flags

end Cpu6502
