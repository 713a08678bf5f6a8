import Cpu6502.Engine.TraceEvent
import Cpu6502.Json.Basic

/-!
# The processor state in JSON

Registers, flags and trace events are objects with their fields in a fixed order. Registers and
flags are read back from such objects, in which the order of the fields is free and other members
are skipped, or from arrays of the field values.
-/

namespace Cpu6502

/-- The flags as an object of truth values. -/
def Flags.toJson (f : Flags) : Json :=
  .object [("n".toList, .bool f.n), ("v".toList, .bool f.v), ("b".toList, .bool f.b),
    ("d".toList, .bool f.d), ("i".toList, .bool f.i), ("z".toList, .bool f.z),
    ("c".toList, .bool f.c)]

/-- Reads flags. -/
def Flags.ofJson? (json : Json) : Option Flags := do
  match ← json.fields? ["n", "v", "b", "d", "i", "z", "c"] with
  | [n, v, b, d, i, z, c] =>
    return {
      n := ← n.bool?
      v := ← v.bool?
      b := ← b.bool?
      d := ← d.bool?
      i := ← i.bool?
      z := ← z.bool?
      c := ← c.bool? }
  | _ => none

/-- The registers as an object of numbers. -/
def Registers.toJson (r : Registers) : Json :=
  .object [("a".toList, .ofNat r.a.toNat), ("x".toList, .ofNat r.x.toNat),
    ("y".toList, .ofNat r.y.toNat), ("sp".toList, .ofNat r.sp.toNat),
    ("pc".toList, .ofNat r.pc.toNat)]

/-- Reads registers, whose values must fit their widths. -/
def Registers.ofJson? (json : Json) : Option Registers := do
  match ← json.fields? ["a", "x", "y", "sp", "pc"] with
  | [a, x, y, sp, pc] =>
    return {
      a := UInt8.ofNat (← a.nat? 0xFF)
      x := UInt8.ofNat (← x.nat? 0xFF)
      y := UInt8.ofNat (← y.nat? 0xFF)
      sp := UInt8.ofNat (← sp.nat? 0xFF)
      pc := UInt16.ofNat (← pc.nat? 0xFFFF) }
  | _ => none

/-- Reads a tick count. -/
def Ticks.ofJson? (json : Json) : Option Ticks :=
  (json.nat? (UInt64.size - 1)).map fun count => ⟨UInt64.ofNat count⟩

/-- The event as an object. -/
def TraceEvent.toJson (event : TraceEvent) : Json :=
  .object [("pc".toList, .ofNat event.pc.toNat), ("opcode".toList, .ofNat event.opcode.toNat),
    ("mnemonic".toList, .ofString event.mnemonic.name),
    ("registers".toList, event.registers.toJson), ("flags".toList, event.flags.toJson),
    ("cycles".toList, .ofNat event.cycles.count.toNat)]

end Cpu6502
