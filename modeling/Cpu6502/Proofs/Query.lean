import Cpu6502.Processor.Query
import Cpu6502.Proofs.Execution.Reset
import Cpu6502.Proofs.Program.Address

/-! # What queries answer

A query is answered if its path is listed or names a cell.

* `Processor.CellPath`: the paths that name a cell, told by how they are written.
* `Processor.cellPath?_append_eq_addressOfText`: behind `memory.` an address means the cell that it
  means elsewhere, unless it begins with `0x` or `0X`.
* `Processor.readings`: what the listed paths show.
* `Engine.converse_withoutQueries`: among other requests, queries go unnoticed.
-/

namespace Cpu6502

/-! ## The weights of the flags -/

/-- The flags, with what each of them weighs in the packed form. -/
def Flags.weights (f : Flags) : List (Bool × Nat) :=
  [(f.n, 0x80), (f.v, 0x40), (f.b, 0x10), (f.d, 0x08), (f.i, 0x04), (f.z, 0x02), (f.c, 0x01)]

/-- The packed form is bit 5 and what the set flags weigh. -/
theorem Flags.toNat_toByte (f : Flags) :
    f.toByte.toNat = 0x20 + ((f.weights.filter Prod.fst).map Prod.snd).sum := by
  have all : ∀ n v b d i z c : Bool, let f : Flags := ⟨n, v, b, d, i, z, c⟩
      f.toByte.toNat = 0x20 + ((f.weights.filter Prod.fst).map Prod.snd).sum := by
    decide +kernel
  exact all ..

/-! ## The paths of cells -/

namespace Processor

/-- The paths that name the cell at an address: `memory.`, perhaps a dollar sign, perhaps a plus
sign, and a numeral that stands for the address. -/
inductive CellPath (address : UInt16) : String → Prop where
  | intro {mark sign : String} {digits : List Char} (mark_optional : mark ∈ ["", "$"])
      (sign_optional : sign ∈ ["", "+"]) (numeral : Hex.IsNumeral digits)
      (value : Hex.value digits = address.toNat) :
      CellPath address ("memory." ++ (mark ++ sign ++ String.ofList digits))

theorem cellDigits_eq (text : List Char) : cellDigits text = Text.withoutFirst ["$"] text := by
  unfold cellDigits
  split
  · simp [Text.withoutFirst]
  · next hdollar => rw [Text.withoutFirst_of_ne_append hdollar, Text.withoutFirst]

theorem cellPath?_append (s : String) :
    cellPath? ("memory." ++ s) = (Number.word (cellDigits s.toList)).toOption := by
  unfold cellPath?
  rw [String.toList_append]
  rfl

theorem exists_append_of_cellPath? {path : String} {address : UInt16}
    (h : cellPath? path = some address) : ∃ s, path = "memory." ++ s := by
  unfold cellPath? at h
  split at h
  · next rest hpath =>
    refine ⟨String.ofList rest, ?_⟩
    rw [← String.toList_inj, hpath]
    simp
  · cases h

/-- Behind `memory.` stands a number, perhaps after a dollar sign. -/
theorem cellPath?_append_eq_some_iff {s : String} {address : UInt16} :
    cellPath? ("memory." ++ s) = some address ↔
      Hex.IsNumeral (Number.unsigned (Text.withoutFirst ["$"] s.toList)) ∧
        Hex.value (Number.unsigned (Text.withoutFirst ["$"] s.toList)) = address.toNat := by
  rw [cellPath?_append, cellDigits_eq, ← Number.word_eq_ok_iff]
  cases Number.word (Text.withoutFirst ["$"] s.toList) with
  | ok word => simp [Except.toOption]
  | error cause => simp [Except.toOption]

theorem CellPath.cellPath? {path : String} {address : UInt16} (h : CellPath address path) :
    Processor.cellPath? path = some address := by
  cases h with
  | @intro mark sign digits mark_optional sign_optional numeral value =>
    have hplus : ¬"+".toList <+: digits := numeral.not_isPrefix (by decide)
    have hdollar : ¬"$".toList <+: sign.toList ++ digits := by
      simp only [List.mem_cons, List.not_mem_nil, or_false] at sign_optional
      rcases sign_optional with rfl | rfl
      · exact numeral.not_isPrefix (by decide)
      · simp
    have hrest : (mark ++ sign ++ String.ofList digits).toList =
        mark.toList ++ (sign.toList ++ digits) := by
      simp
    rw [cellPath?_append_eq_some_iff, hrest, Text.withoutFirst_append_of_mem mark_optional hdollar,
      Number.unsigned, Text.withoutFirst_append_of_mem sign_optional hplus]
    exact ⟨numeral, value⟩

theorem cellPath?_eq_some_iff {path : String} {address : UInt16} :
    cellPath? path = some address ↔ CellPath address path := by
  constructor
  · intro h
    rcases exists_append_of_cellPath? h with ⟨s, rfl⟩
    rw [cellPath?_append_eq_some_iff] at h
    rcases h with ⟨numeral, value⟩
    rcases Text.exists_append_withoutFirst ["$"] s.toList with ⟨mark, hmark, hs⟩
    generalize Text.withoutFirst ["$"] s.toList = rest at hs numeral value
    rcases Text.exists_append_withoutFirst ["+"] rest with ⟨sign, hsign, hrest⟩
    have hpath : s = mark ++ sign ++ String.ofList (Number.unsigned rest) := by
      rw [← String.toList_inj, hs]
      simpa [Number.unsigned] using hrest
    rw [hpath]
    exact .intro hmark hsign numeral value
  · intro h
    exact h.cellPath?

example : ["memory.000000ff", "memory.$+1", "memory.", "memory.$$1", "memory.10000"].map cellPath? =
    [some 0xFF, some 1, none, none, none] := by decide

/-- What stands behind `memory.` is read as an address is, unless it begins with `0x` or `0X`. -/
theorem cellPath?_append_eq_addressOfText {s : String} (hlower : ¬"0x".toList <+: s.toList)
    (hupper : ¬"0X".toList <+: s.toList) :
    cellPath? ("memory." ++ s) = (addressOfText s).toOption := by
  have hdigits : addressDigits s.toList = cellDigits s.toList := by
    rw [addressDigits_eq, cellDigits_eq]
    simp only [Text.withoutFirst, if_neg hlower, if_neg hupper]
  rw [cellPath?_append, ← hdigits]
  unfold addressOfText
  cases Number.word (addressDigits s.toList) with
  | ok word => rfl
  | error cause => rfl

/-! ## Answers -/

/-- The listed paths, with what each of them shows of the processor. -/
def readings (cpu : Processor) : List (String × Value) :=
  [("a", .byte cpu.registers.a), ("x", .byte cpu.registers.x), ("y", .byte cpu.registers.y),
    ("sp", .byte cpu.registers.sp), ("pc", .word cpu.registers.pc), ("p", .byte cpu.status),
    ("flags.n", .bool cpu.flags.n), ("flags.v", .bool cpu.flags.v),
    ("flags.b", .bool cpu.flags.b), ("flags.d", .bool cpu.flags.d),
    ("flags.i", .bool cpu.flags.i), ("flags.z", .bool cpu.flags.z),
    ("flags.c", .bool cpu.flags.c), ("cycles", .count cpu.cycles.count),
    ("halted", .bool cpu.isHalted)]

/-- The paths of the flags, with their weights in the packed form. -/
def flagWeights : List (String × Nat) :=
  [("flags.n", 0x80), ("flags.v", 0x40), ("flags.b", 0x10), ("flags.d", 0x08), ("flags.i", 0x04),
    ("flags.z", 0x02), ("flags.c", 0x01)]

variable {cpu : Processor} {path : String} {address : UInt16}

theorem query_of_mem_readings {value : Value} (h : (path, value) ∈ cpu.readings) :
    cpu.query path = some value := by
  have hall : cpu.readings.map (fun reading => cpu.query reading.1) =
      cpu.readings.map fun reading => some reading.2 := rfl
  exact List.map_inj_left.1 hall _ h

theorem map_readings (cpu : Processor) : cpu.readings.map Prod.fst = queryPaths := rfl

theorem lookup_fields_of_not_mem (h : path ∉ queryPaths) : fields.lookup path = none := by
  rw [List.lookup_eq_none_iff]
  intro field hfield
  rw [bne_iff_ne]
  rintro rfl
  exact h (List.mem_map_of_mem hfield)

theorem query_of_not_mem (h : path ∉ queryPaths) :
    cpu.query path = (cellPath? path).map fun address => .byte (cpu.memory.get address) := by
  unfold query
  rw [lookup_fields_of_not_mem h]

/-- No listed path begins as the path of a cell does. -/
theorem append_not_mem_queryPaths (s : String) : "memory." ++ s ∉ queryPaths := by
  have hlisted : ∀ path ∈ queryPaths, ¬"memory.".toList <+: path.toList := by decide
  intro h
  refine hlisted _ h ⟨s.toList, ?_⟩
  rw [String.toList_append]

theorem query_append (cpu : Processor) (s : String) :
    cpu.query ("memory." ++ s) =
      (cellPath? ("memory." ++ s)).map fun address => .byte (cpu.memory.get address) :=
  query_of_not_mem (append_not_mem_queryPaths s)

theorem CellPath.query (h : CellPath address path) :
    cpu.query path = some (.byte (cpu.memory.get address)) := by
  have hcell := h.cellPath?
  cases h with
  | intro mark_optional sign_optional numeral value =>
    rw [query_append, hcell, Option.map_some]

theorem isSome_query_iff :
    (cpu.query path).isSome ↔ path ∈ queryPaths ∨ ∃ address, CellPath address path := by
  constructor
  · intro h
    by_cases hlisted : path ∈ queryPaths
    · exact .inl hlisted
    · rw [query_of_not_mem hlisted, Option.isSome_map, Option.isSome_iff_exists] at h
      rcases h with ⟨address, haddress⟩
      exact .inr ⟨address, cellPath?_eq_some_iff.1 haddress⟩
  · rintro (hlisted | ⟨address, h⟩)
    · rw [← map_readings cpu, List.mem_map] at hlisted
      rcases hlisted with ⟨⟨path, value⟩, hvalue, rfl⟩
      rw [query_of_mem_readings hvalue]
      rfl
    · rw [h.query]
      rfl

theorem query_eq_addressOfText {s : String} (hlower : ¬"0x".toList <+: s.toList)
    (hupper : ¬"0X".toList <+: s.toList) :
    cpu.query ("memory." ++ s) =
      (addressOfText s).toOption.map fun address => .byte (cpu.memory.get address) := by
  rw [query_append, cellPath?_append_eq_addressOfText hlower hupper]

/-- What the paths of the flags are answered with tells which flags are set. -/
theorem weights_eq_map (cpu : Processor) :
    cpu.flags.weights = flagWeights.map fun (path, weight) =>
      (decide (cpu.query path = some (.bool true)), weight) := by
  let isSet : Option Value × Nat → Bool × Nat := fun (value, weight) =>
    (decide (value = some (.bool true)), weight)
  have hquery : flagWeights.map (fun (path, weight) => (cpu.query path, weight)) =
      cpu.flags.weights.map fun (flag, weight) => (some (.bool flag), weight) := rfl
  calc cpu.flags.weights
    _ = (cpu.flags.weights.map fun (flag, weight) => (some (.bool flag), weight)).map isSet := by
      simp [isSet, Function.comp_def]
    _ = (flagWeights.map fun (path, weight) => (cpu.query path, weight)).map isSet := by
      rw [hquery]
    _ = _ := by
      rw [List.map_map]
      rfl

theorem status_eq_sum (cpu : Processor) :
    cpu.status.toNat = 0x20 + ((flagWeights.filter fun (path, _) =>
      cpu.query path = some (.bool true)).map Prod.snd).sum := by
  rw [status, Flags.toNat_toByte, weights_eq_map, List.filter_map, List.map_map]
  rfl

end Processor

/-! ## Queries among other requests -/

/-- Holds of the requests that are queries. -/
def Request.isQuery : Request → Bool
  | .query _ => true
  | _ => false

namespace Engine

open Processor

variable {σ : Type}

theorem answer_query (engine : Engine σ) (path : String) (s : Session σ) :
    engine.answer (.query path) s = .ok (.value (s.cpu.query path)) s := rfl

/-- If several requests are answered, the others among them are answered as if there were no
queries, and they leave the same session. -/
theorem converse_withoutQueries (engine : Engine σ) (s : Session σ) (requests : List Request) :
    let (answers, t) := engine.converse s requests
    engine.converse s (requests.filter (!·.isQuery)) =
      (((requests.zip answers).filter (!·.1.isQuery)).map Prod.snd, t) := by
  induction requests generalizing s with
  | nil => rfl
  | cons request requests ih =>
    have hrest := ih (Watched.left (engine.answer request s))
    dsimp only at hrest ⊢
    cases hquery : request.isQuery with
    | true =>
      -- the session is the same before and after a query
      have hleft : Watched.left (engine.answer request s) = s := by
        cases request with
        | query path => rfl
        | operation op => cases hquery
        | read address => cases hquery
        | dump => cases hquery
        | inspect => cases hquery
      rw [hleft] at hrest
      simp only [converse, hleft, List.zip_cons_cons]
      rw [List.filter_cons_of_neg (by simp [hquery]), List.filter_cons_of_neg (by simp [hquery])]
      exact hrest
    | false =>
      rw [List.filter_cons_of_pos (by simp [hquery])]
      simp only [converse, List.zip_cons_cons]
      rw [List.filter_cons_of_pos (by simp [hquery]), hrest]
      rfl

/-- A query is answered if its path is listed or names a cell. A listed path shows the part of the
processor that it names, where the packed flags are bit 5 and the weights of the flags that are
shown to be set. The path of a cell shows the byte that is read there. Behind `memory.` an address
means the cell that it means elsewhere, unless it begins with `0x` or `0X`. No query changes
anything, so among other requests queries go unnoticed. -/
theorem queries_answered (engine : Engine σ) (s : Session σ) :
    let cpu := s.cpu
    (∀ path, (cpu.query path).isSome ↔ path ∈ queryPaths ∨ ∃ address, CellPath address path) ∧
    (∀ path address, CellPath address path →
      ∃ byte, cpu.memory.read address.toUInt32 = .ok byte ∧ cpu.query path = some (.byte byte)) ∧
    (∀ text : String, ¬"0x".toList <+: text.toList → ¬"0X".toList <+: text.toList →
      ((cpu.query ("memory." ++ text)).isSome ↔ ∃ address, addressOfText text = .ok address) ∧
      ∀ address, addressOfText text = .ok address →
        cpu.query ("memory." ++ text) = some (.byte (cpu.memory.get address))) ∧
    queryPaths = cpu.readings.map Prod.fst ∧
    (∀ path value, (path, value) ∈ cpu.readings → cpu.query path = some value) ∧
    (∃ packed : UInt8, cpu.query "p" = some (.byte packed) ∧
      packed.toNat = 0x20 + ((flagWeights.filter fun (path, _) =>
        cpu.query path = some (.bool true)).map Prod.snd).sum) ∧
    (∀ path, engine.answer (.query path) s = .ok (.value (cpu.query path)) s) ∧
    ∀ requests,
      let (answers, t) := engine.converse s requests
      engine.converse s (requests.filter (!·.isQuery)) =
        (((requests.zip answers).filter (!·.1.isQuery)).map Prod.snd, t) := by
  intro cpu
  refine ⟨?_, ?_, ?_, ?_, ?_, ?_, ?_, ?_⟩
  · intro path
    exact isSome_query_iff
  · intro path address hcell
    exact ⟨cpu.memory.get address, Memory.read_toUInt32 _ _, hcell.query⟩
  · intro text hlower hupper
    rw [query_eq_addressOfText hlower hupper]
    cases addressOfText text with
    | ok word => simp [Except.toOption]
    | error refusal => simp [Except.toOption]
  · exact (map_readings cpu).symm
  · intro path value hvalue
    exact query_of_mem_readings hvalue
  · exact ⟨cpu.status, rfl, status_eq_sum cpu⟩
  · intro path
    exact answer_query engine path s
  · intro requests
    exact converse_withoutQueries engine s requests

theorem queries_answered_of_cell :
    let cpu : Processor := { Processor.powerUp 0 with memory := Memory.zeroed.set 0xFF 7 }
    CellPath 0xFF "memory.$+00fF" ∧ addressOfText "$+00fF" = .ok 0xFF ∧
      cpu.query "memory.$+00fF" = some (.byte 7) ∧
      cpu.query ("memory." ++ "$+00fF") = some (.byte (cpu.memory.get 0xFF)) ∧
      cpu.query "flags.z" = some (.bool false) := by
  intro cpu
  have hpath : CellPath 0xFF ("memory." ++ ("$" ++ "+" ++ String.ofList ['0', '0', 'f', 'F'])) :=
    .intro (by decide) (by decide) (by decide) (by decide)
  have haddress : addressOfText "$+00fF" = .ok 0xFF := by decide
  have hbyte : cpu.memory.read 0xFF = .ok 7 :=
    (Memory.read_toUInt32 _ 0xFF).trans (congrArg _ (Memory.get_set_self _ _ _))
  rcases queries_answered listener ⟨cpu, []⟩ with ⟨-, hcell, hagrees, -, hlisted, -⟩
  rcases hcell _ _ hpath with ⟨byte, hread, hquery⟩
  have hsame : byte = 7 := Except.ok.inj (hread.symm.trans hbyte)
  rw [hsame] at hquery
  refine ⟨hpath, haddress, hquery, ?_, ?_⟩
  · exact (hagrees "$+00fF" (by decide) (by decide)).2 _ haddress
  · exact hlisted "flags.z" (.bool false) (by decide)

end Engine

end Cpu6502
