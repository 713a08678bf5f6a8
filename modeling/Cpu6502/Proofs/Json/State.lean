import Cpu6502.CommandLine.Command
import Cpu6502.Proofs.Json.Schema

/-! # Registers and flags in JSON

The registers and the flags are read back from what they are stored in: by themselves, in another
order and with other members between theirs, as arrays, and from the lines that the command prints.
What leaves one of them out, repeats it or gives it a value that it cannot have is refused
(`state_roundTrips`).
-/

namespace Cpu6502

/-! ## Registers -/

namespace Registers

/-- The registers in JSON. -/
def schema : Json.Schema Registers where
  names := ["a", "x", "y", "sp", "pc"]
  values r := [.integer r.a.toNat, .integer r.x.toNat, .integer r.y.toNat, .integer r.sp.toNat,
    .integer r.pc.toNat]
  toJson := toJson
  ofJson? := ofJson?

open Json.Scalar in
theorem ofJson?_eq_some_iff {json : Json} {items : List Json.Scalar} {r : Registers}
    (h : json.fields? schema.names = some (items.map Json.Scalar.toJson)) :
    ofJson? json = some r ↔ items = schema.values r := by
  unfold ofJson?
  rw [show json.fields? ["a", "x", "y", "sp", "pc"] = _ from h]
  match items with
  | [a, x, y, sp, pc] =>
    constructor
    · intro h
      obtain ⟨_, ⟨⟩, h⟩ := Option.bind_eq_some_iff.1 h
      obtain ⟨na, ha, h⟩ := Option.bind_eq_some_iff.1 h
      obtain ⟨nx, hx, h⟩ := Option.bind_eq_some_iff.1 h
      obtain ⟨ny, hy, h⟩ := Option.bind_eq_some_iff.1 h
      obtain ⟨nsp, hsp, h⟩ := Option.bind_eq_some_iff.1 h
      obtain ⟨npc, hpc, h⟩ := Option.bind_eq_some_iff.1 h
      cases h
      rw [eq_of_nat?_byte ha, eq_of_nat?_byte hx, eq_of_nat?_byte hy, eq_of_nat?_byte hsp,
        eq_of_nat?_word hpc]
      rfl
    · intro h
      cases h
      simp only [List.map_cons, List.map_nil, Option.bind_eq_bind, Option.bind_some,
        nat?_toJson_byte, nat?_toJson_word, UInt8.ofNat_toNat, UInt16.ofNat_toNat]
      rfl
  | [] | [_] | [_, _] | [_, _, _] | [_, _, _, _] | _ :: _ :: _ :: _ :: _ :: _ :: _ =>
    exact ⟨nofun, nofun⟩

theorem lawful_schema : schema.Lawful where
  nodup := by decide
  length_values _ := rfl
  literal := by decide
  toJson_eq _ := rfl
  ofJson?_eq_none json h := by
    show ofJson? json = none
    unfold ofJson?
    rw [show json.fields? ["a", "x", "y", "sp", "pc"] = _ from h]
    rfl
  ofJson?_eq_some_iff _ _ _ h := ofJson?_eq_some_iff h

/-- How many values a register has. -/
def sizes : List (String × Nat) :=
  [("a", UInt8.size), ("x", UInt8.size), ("y", UInt8.size), ("sp", UInt8.size),
    ("pc", UInt16.size)]

/-- Holds of a field that gives a register an integer which is none of its values. -/
def Misfits (field : String × Json.Scalar) : Prop :=
  ∃ size n, (field.1, size) ∈ sizes ∧ field.2 = .integer n ∧ (n < 0 ∨ (size : Int) ≤ n)

theorem not_misfits {r : Registers} {field : String × Json.Scalar}
    (h : field ∈ schema.names.zip (schema.values r)) : ¬Misfits field := by
  rintro ⟨size, n, hsize, hn, hout⟩
  have ha := r.a.toNat_lt_size
  have hx := r.x.toNat_lt_size
  have hy := r.y.toNat_lt_size
  have hsp := r.sp.toNat_lt_size
  have hpc := r.pc.toNat_lt_size
  simp only [schema, List.zip_cons_cons, List.zip_nil_right, List.mem_cons, List.not_mem_nil,
    or_false] at h
  rcases h with rfl | rfl | rfl | rfl | rfl <;>
    (cases hn
     simp [sizes] at hsize
     omega)

theorem mem_names_of_mem_sizes {name : String} {size : Nat} (h : (name, size) ∈ sizes) :
    name ∈ schema.names :=
  List.mem_map_of_mem (f := Prod.fst) h

/-- No registers are read from an object in which a value is out of range. -/
theorem ofText?_of_member_misfits {members : List Json.Member} {text : String}
    (h : (Json.ofMembers members).WrittenIn text) {m : Json.Member} (hm : m ∈ members)
    (hmisfits : Misfits m.field) : schema.ofText? text = none := by
  cases hread : schema.ofText? text with
  | none => rfl
  | some r =>
    have hperm := (lawful_schema.roundTrips.object members text h r).1 hread
    obtain ⟨size, n, hsize, -⟩ := id hmisfits
    have hknown : m ∈ members.filter (·.name ∈ schema.names) :=
      List.mem_filter.2 ⟨hm, decide_eq_true (mem_names_of_mem_sizes hsize)⟩
    have hfield := hperm.subset (List.mem_map_of_mem (f := Json.Member.field) hknown)
    exact absurd hmisfits (not_misfits hfield)

/-- No registers are read from an array in which a value is out of range. -/
theorem ofText?_of_item_misfits {items : List Json.Scalar} {text : String}
    (h : (Json.ofScalars items).WrittenIn text) {field : String × Json.Scalar}
    (hfield : field ∈ schema.names.zip items) (hmisfits : Misfits field) :
    schema.ofText? text = none := by
  cases hread : schema.ofText? text with
  | none => rfl
  | some r =>
    rw [(lawful_schema.roundTrips.array items text h r).1 hread] at hfield
    exact absurd hmisfits (not_misfits hfield)

end Registers

/-! ## Flags -/

namespace Flags

/-- The flags in JSON. -/
def schema : Json.Schema Flags where
  names := ["n", "v", "b", "d", "i", "z", "c"]
  values f := [.bool f.n, .bool f.v, .bool f.b, .bool f.d, .bool f.i, .bool f.z, .bool f.c]
  toJson := toJson
  ofJson? := ofJson?

open Json.Scalar in
theorem ofJson?_eq_some_iff {json : Json} {items : List Json.Scalar} {f : Flags}
    (h : json.fields? schema.names = some (items.map Json.Scalar.toJson)) :
    ofJson? json = some f ↔ items = schema.values f := by
  unfold ofJson?
  rw [show json.fields? ["n", "v", "b", "d", "i", "z", "c"] = _ from h]
  match items with
  | [n, v, b, d, i, z, c] =>
    constructor
    · intro h
      obtain ⟨_, ⟨⟩, h⟩ := Option.bind_eq_some_iff.1 h
      obtain ⟨_, hn, h⟩ := Option.bind_eq_some_iff.1 h
      obtain ⟨_, hv, h⟩ := Option.bind_eq_some_iff.1 h
      obtain ⟨_, hb, h⟩ := Option.bind_eq_some_iff.1 h
      obtain ⟨_, hd, h⟩ := Option.bind_eq_some_iff.1 h
      obtain ⟨_, hi, h⟩ := Option.bind_eq_some_iff.1 h
      obtain ⟨_, hz, h⟩ := Option.bind_eq_some_iff.1 h
      obtain ⟨_, hc, h⟩ := Option.bind_eq_some_iff.1 h
      cases h
      rw [eq_of_bool? hn, eq_of_bool? hv, eq_of_bool? hb, eq_of_bool? hd, eq_of_bool? hi,
        eq_of_bool? hz, eq_of_bool? hc]
      rfl
    · intro h
      cases h
      rfl
  | [] | [_] | [_, _] | [_, _, _] | [_, _, _, _] | [_, _, _, _, _] | [_, _, _, _, _, _]
  | _ :: _ :: _ :: _ :: _ :: _ :: _ :: _ :: _ =>
    exact ⟨nofun, nofun⟩

theorem lawful_schema : schema.Lawful where
  nodup := by decide
  length_values _ := rfl
  literal := by decide
  toJson_eq _ := rfl
  ofJson?_eq_none json h := by
    show ofJson? json = none
    unfold ofJson?
    rw [show json.fields? ["n", "v", "b", "d", "i", "z", "c"] = _ from h]
    rfl
  ofJson?_eq_some_iff _ _ _ h := ofJson?_eq_some_iff h

end Flags

/-! ## Printed lines -/

theorem TraceEvent.proper_toJson (event : TraceEvent) : event.toJson.Proper := by
  have hregisters := Registers.lawful_schema.proper_toJson event.registers
  have hflags := Flags.lawful_schema.proper_toJson event.flags
  apply Json.proper_object
  simp only [List.forall_mem_cons, Json.proper_ofNat, Json.proper_ofString, List.not_mem_nil,
    false_implies, implies_true, and_true]
  exact ⟨Json.exists_spells (by decide), Json.exists_spells (by decide),
    Json.exists_spells (by decide), ⟨Json.exists_spells (by decide), hregisters⟩,
    ⟨Json.exists_spells (by decide), hflags⟩, Json.exists_spells (by decide)⟩

theorem CommandLine.proper_summaryJson (cpu : Processor) (outcome : RunOutcome)
    (values : List (String × String)) : (summaryJson cpu outcome values).Proper := by
  have hregisters := Registers.lawful_schema.proper_toJson cpu.registers
  have hflags := Flags.lawful_schema.proper_toJson cpu.flags
  unfold summaryJson
  generalize hitems : values.map _ = items
  have hvalues : ∀ item ∈ items, item.Proper := by
    intro item hitem
    rw [← hitems] at hitem
    obtain ⟨⟨path, value⟩, -, rfl⟩ := List.mem_map.1 hitem
    apply Json.proper_array
    simp [Json.proper_ofString]
  apply Json.proper_object
  simp only [List.forall_mem_cons, Json.proper_ofNat, Json.proper_ofString, List.not_mem_nil,
    false_implies, implies_true, and_true]
  exact ⟨Json.exists_spells (by decide), Json.exists_spells (by decide),
    Json.exists_spells (by decide), ⟨Json.exists_spells (by decide), hregisters⟩,
    ⟨Json.exists_spells (by decide), hflags⟩, Json.exists_spells (by decide),
    ⟨Json.exists_spells (by decide), Json.proper_array hvalues⟩⟩

/-- The state survives its way through JSON. Registers and flags are read back from whatever says
what they are, and from nothing that leaves out, repeats or adds a value, or that gives a register
an integer which is none of its values. They are read back from the lines that the command prints,
those of the events and that of the report. -/
theorem state_roundTrips :
    Registers.schema.RoundTrips ∧ Flags.schema.RoundTrips ∧
      (∀ (members : List Json.Member) (text : String), (Json.ofMembers members).WrittenIn text →
        (∃ m ∈ members, Registers.Misfits m.field) → Registers.schema.ofText? text = none) ∧
      (∀ (items : List Json.Scalar) (text : String), (Json.ofScalars items).WrittenIn text →
        (∃ field ∈ Registers.schema.names.zip items, Registers.Misfits field) →
          Registers.schema.ofText? text = none) ∧
      (∀ event : TraceEvent,
        Registers.schema.ofLine? "registers" event.toJson.render = some event.registers ∧
          Flags.schema.ofLine? "flags" event.toJson.render = some event.flags) ∧
      ∀ (cpu : Processor) (outcome : RunOutcome) (values : List (String × String)),
        let line := (CommandLine.summaryJson cpu outcome values).render
        Registers.schema.ofLine? "registers" line = some cpu.registers ∧
          Flags.schema.ofLine? "flags" line = some cpu.flags := by
  refine ⟨Registers.lawful_schema.roundTrips, Flags.lawful_schema.roundTrips, ?_, ?_, ?_, ?_⟩
  · rintro members text hwritten ⟨m, hm, hmisfits⟩
    exact Registers.ofText?_of_member_misfits hwritten hm hmisfits
  · rintro items text hwritten ⟨field, hfield, hmisfits⟩
    exact Registers.ofText?_of_item_misfits hwritten hfield hmisfits
  · intro event
    exact ⟨Registers.lawful_schema.ofLine?_render event.proper_toJson rfl,
      Flags.lawful_schema.ofLine?_render event.proper_toJson rfl⟩
  · intro cpu outcome values
    have hproper := CommandLine.proper_summaryJson cpu outcome values
    exact ⟨Registers.lawful_schema.ofLine?_render hproper rfl,
      Flags.lawful_schema.ofLine?_render hproper rfl⟩

/-- An `a` may be spelled by its code. -/
theorem Json.spells_a : Spells ['\\', 'u', '0', '0', '6', '1'] "a".toList := by
  have hunit : unit? '0' '0' '6' '1' = some 0x61 := by decide
  exact .unit hunit (.inl (by decide)) .nil

/-- The members of an object that holds registers in no particular order, and a note. -/
def mixedMembers : List Json.Member :=
  [⟨"pc", "pc".toList, .of_isLiteralText (by decide), .integer 512⟩,
    ⟨"note", "note".toList, .of_isLiteralText (by decide), .string ['x'] ['x'] (.of_isLiteralText (by decide))⟩,
    ⟨"sp", "sp".toList, .of_isLiteralText (by decide), .integer 253⟩,
    ⟨"y", "y".toList, .of_isLiteralText (by decide), .integer 0⟩,
    ⟨"x", "x".toList, .of_isLiteralText (by decide), .integer 0⟩,
    ⟨"a", ['\\', 'u', '0', '0', '6', '1'], Json.spells_a, .integer 7⟩]

/-- The tokens of these members, with the blanks before each of them. -/
def mixedPieces : List (List Char × Json.Token) :=
  [([], .openBrace),
    ([' '], .string "pc".toList), ([], .colon), ([], .number ['5', '1', '2']), ([], .comma),
    (['\n'], .string "note".toList), ([' '], .colon), ([' '], .string ['x']), ([], .comma),
    (['\n'], .string "sp".toList), ([], .colon), (['\t'], .number ['2', '5', '3']), ([], .comma),
    (['\n'], .string "y".toList), ([], .colon), ([], .number ['0']), ([], .comma),
    ([], .string "x".toList), ([], .colon), ([], .number ['0']), ([], .comma),
    (['\n'], .string ['\\', 'u', '0', '0', '6', '1']), ([], .colon), ([' '], .number ['7']),
    (['\n'], .closeBrace)]

/-- The text of these tokens. -/
def mixedText : String :=
  "\x7b \"pc\":512,\n\"note\" : \"x\",\n\"sp\":\t253,\n\"y\":0,\"x\":0,\n\"\\u0061\": 7\n\x7d"

theorem writtenIn_mixedText : (Json.ofMembers mixedMembers).WrittenIn mixedText := by
  have htokens : (Json.ofMembers mixedMembers).tokens = mixedPieces.map Prod.snd := by decide
  have htext : mixedText.toList = mixedPieces.flatMap fun piece => piece.1 ++ piece.2.text := by
    decide
  unfold Json.WrittenIn
  rw [htokens, htext]
  exact Json.Token.spaced_of_pieces mixedPieces (by decide)

/-- Registers are read from these members, and not from an array with a stack pointer of 256. -/
theorem state_roundTrips_of_mixed_members :
    (Json.ofMembers mixedMembers).WrittenIn mixedText ∧
      Registers.schema.ofText? mixedText = some ⟨7, 0, 0, 253, 512⟩ ∧
      Registers.schema.ofText? (Json.ofScalars
        [.integer 7, .integer 0, .integer 0, .integer 256, .integer 512]).render = none := by
  obtain ⟨hregisters, -, -, hmisfits, -⟩ := state_roundTrips
  have hread := hregisters.object mixedMembers mixedText writtenIn_mixedText ⟨7, 0, 0, 253, 512⟩
  -- the members stand in the reverse order
  have hknown : (mixedMembers.filter (·.name ∈ Registers.schema.names)).map Json.Member.field =
      (Registers.schema.names.zip (Registers.schema.values ⟨7, 0, 0, 253, 512⟩)).reverse := rfl
  refine ⟨writtenIn_mixedText, hread.2 ?_, hmisfits _ _ (Json.writtenIn_render _) ?_⟩
  · rw [hknown]
    exact List.reverse_perm _
  · have hsize : ("sp", 256) ∈ Registers.sizes := by decide
    exact ⟨("sp", .integer 256), by simp [Registers.schema], 256, 256, hsize, rfl, .inr (by decide)⟩

end Cpu6502
