import Cpu6502.Text.Hex

/-!
# Memory

Memory has a cell for each of the 65536 addresses of 16 bits. It is read and written through
32-bit addresses, and an access outside the address space is refused before any cell changes.

* `Memory.get_set`: a written cell reads back, and the others are as before.
* `Memory.get_store`: storing bytes changes the cells they cover and no others.
-/

namespace Cpu6502

/-- An access to an address that no cell has. -/
structure OutOfBounds where
  address : UInt32
  deriving DecidableEq, Repr

/-- The wording of the refusal. -/
def OutOfBounds.message (e : OutOfBounds) : String :=
  s!"address ${Hex.upper e.address.toNat} is outside the 64 KiB address space"

/-- The cell that a 32-bit address names. -/
def cell? (address : UInt32) : Except OutOfBounds UInt16 :=
  if address < 0x10000 then .ok address.toUInt16 else .error ⟨address⟩

/-- One byte for every 16-bit address. -/
structure Memory where
  cells : Vector UInt8 65536
  deriving DecidableEq

namespace Memory

/-- Memory that holds zero everywhere. -/
def zeroed : Memory := ⟨Vector.replicate 65536 0⟩

instance : Inhabited Memory := ⟨zeroed⟩

/-- The byte in a cell. -/
def get (m : Memory) (address : UInt16) : UInt8 :=
  have : address.toNat < 65536 := address.toNat_lt
  m.cells[address.toNat]

/-- Memory with another byte in a cell. -/
def set (m : Memory) (address : UInt16) (value : UInt8) : Memory :=
  ⟨m.cells.set address.toNat value address.toNat_lt⟩

/-- Stores bytes in the cells from `start` on; bytes beyond the last cell are dropped. -/
def store (m : Memory) (start : Nat) : List UInt8 → Memory
  | [] => m
  | value :: rest => store ⟨m.cells.setIfInBounds start value⟩ (start + 1) rest

/-- Reads a byte. -/
def read (m : Memory) (address : UInt32) : Except OutOfBounds UInt8 := do
  return m.get (← cell? address)

/-- Writes a byte. -/
def write (m : Memory) (address : UInt32) (value : UInt8) : Except OutOfBounds Memory := do
  return m.set (← cell? address) value

/-- Loads bytes into consecutive cells. If they do not fit, nothing is written, and the refusal
names the first address that has no cell. -/
def load (m : Memory) (start : UInt32) (bytes : List UInt8) : Except OutOfBounds Memory :=
  if start.toNat + bytes.length ≤ 65536 then .ok (m.store start.toNat bytes)
  else .error ⟨UInt32.ofNat (max 65536 start.toNat)⟩

/-- Zeroes every cell. -/
def clear (_ : Memory) : Memory := zeroed

/-- The number of cells that do not hold zero. -/
def nonZero (m : Memory) : Nat :=
  m.cells.countP (· ≠ 0)

/-- All bytes, by ascending address. -/
def bytes (m : Memory) : Array UInt8 :=
  m.cells.toArray

/-- The form in which memory is shown for inspection. -/
def inspect (m : Memory) : String :=
  s!"Memory \x7b size: {m.cells.size}, non_zero: {m.nonZero} \x7d"

theorem cell?_toUInt32 (a : UInt16) : cell? a.toUInt32 = .ok a := by
  have ha := a.toNat_lt
  have hlt : a.toUInt32 < 0x10000 := by
    rw [UInt32.lt_iff_toNat_lt]
    simpa using ha
  simp [cell?, hlt]

@[simp] theorem read_toUInt32 (m : Memory) (a : UInt16) : m.read a.toUInt32 = .ok (m.get a) := by
  simp [read, cell?_toUInt32, bind, Except.bind, pure, Except.pure]

@[simp] theorem write_toUInt32 (m : Memory) (a : UInt16) (value : UInt8) :
    m.write a.toUInt32 value = .ok (m.set a value) := by
  simp [write, cell?_toUInt32, bind, Except.bind, pure, Except.pure]

/-! ## What the cells hold -/

@[simp] theorem get_zeroed (a : UInt16) : zeroed.get a = 0 := by
  simp [get, zeroed]

theorem get_set (m : Memory) (a b : UInt16) (value : UInt8) :
    (m.set a value).get b = if a = b then value else m.get b := by
  simp only [get, set, Vector.getElem_set, UInt16.toNat_inj]

@[simp] theorem get_set_self (m : Memory) (a : UInt16) (value : UInt8) :
    (m.set a value).get a = value := by
  simp [get_set]

theorem get_store (m : Memory) (start : Nat) (bytes : List UInt8) (a : UInt16) :
    (m.store start bytes).get a =
      if start ≤ a.toNat then (bytes[a.toNat - start]?).getD (m.get a) else m.get a := by
  induction bytes generalizing m start with
  | nil => simp [store]
  | cons value rest ih =>
    rw [store, ih]
    by_cases hlt : start < a.toNat
    · obtain ⟨k, hk⟩ : ∃ k, a.toNat - start = k + 1 := ⟨a.toNat - start - 1, by omega⟩
      have hk' : a.toNat - (start + 1) = k := by omega
      have hle : start ≤ a.toNat := by omega
      have hne : ¬ start = a.toNat := by omega
      rw [if_pos (Nat.succ_le_of_lt hlt), if_pos hle, hk, hk']
      simp [get, hne]
    · have hle' : ¬ start + 1 ≤ a.toNat := by omega
      by_cases heq : start = a.toNat
      · subst heq
        rw [if_neg hle', if_pos (Nat.le_refl _)]
        simp [get]
      · have hle : ¬ start ≤ a.toNat := by omega
        simp [hle, hle', get, heq]

theorem ext_get {m m' : Memory} (h : ∀ a, m.get a = m'.get a) : m = m' := by
  obtain ⟨cells⟩ := m
  obtain ⟨cells'⟩ := m'
  refine congrArg Memory.mk (Vector.ext fun i hi => ?_)
  have hi' : (UInt16.ofNat i).toNat = i := UInt16.toNat_ofNat_of_lt hi
  have := h (UInt16.ofNat i)
  simpa only [get, hi'] using this

end Memory

end Cpu6502
