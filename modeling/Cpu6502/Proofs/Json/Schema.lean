import Cpu6502.Proofs.Json.Members

/-! # States stored in JSON

A state of several fields is stored in an object, or in the array of their values. It is read back
from the object however that is written, with its members in any order and others between them, but
each of the members must be there once (`Json.Schema.Lawful.roundTrips`).
-/

namespace Cpu6502

namespace Json

/-! ## Reading scalars -/

namespace Scalar

variable {s : Scalar} {bound n : Nat}

theorem nat?_ofNat (bound m : Nat) : (ofNat m).nat? bound = if m ≤ bound then some m else none := by
  show (Number.readDigits 10 bound 0 (Nat.toDigits 10 m)).toOption = _
  split
  · next h => rw [Number.readDigits_toDigits_of_le h]; rfl
  · next h => rw [Number.readDigits_toDigits_of_lt (Nat.lt_of_not_le h)]; rfl

theorem nat?_ofInt_of_neg {k : Int} (h : k < 0) : (ofInt k).nat? bound = none := by
  unfold ofInt
  rw [if_pos h]
  rfl

/-- A number is read from the integer that it is, within the bound. -/
theorem nat?_toJson_eq_some_iff :
    s.toJson.nat? bound = some n ↔ s = .integer n ∧ n ≤ bound := by
  cases s with
  | integer k =>
    show (ofInt k).nat? bound = some n ↔ _
    rcases Int.lt_or_le k 0 with hk | hk
    · rw [nat?_ofInt_of_neg hk]
      constructor
      · nofun
      · rintro ⟨h, -⟩
        cases h
        omega
    · obtain ⟨m, rfl⟩ := Int.eq_ofNat_of_zero_le hk
      rw [ofInt_natCast, nat?_ofNat]
      constructor
      · intro h
        obtain ⟨hle, hm⟩ := Option.ite_none_right_eq_some.1 h
        cases hm
        exact ⟨rfl, hle⟩
      · rintro ⟨h, hle⟩
        rw [integer.injEq, Int.ofNat_inj] at h
        rw [h, if_pos hle]
  | null | bool _ | string _ _ _ =>
    constructor
    · nofun
    · rintro ⟨h, -⟩
      cases h

/-- A byte is read from the integer that it is. -/
theorem nat?_toJson_byte (b : UInt8) :
    (integer b.toNat).toJson.nat? 0xFF = some b.toNat :=
  nat?_toJson_eq_some_iff.2 ⟨rfl, Nat.le_of_lt_succ b.toNat_lt⟩

theorem eq_of_nat?_byte (h : s.toJson.nat? 0xFF = some n) : s = .integer (UInt8.ofNat n).toNat := by
  obtain ⟨hs, hle⟩ := nat?_toJson_eq_some_iff.1 h
  rw [hs, UInt8.toNat_ofNat_of_lt' (Nat.lt_succ_of_le hle)]

/-- A word is read from the integer that it is. -/
theorem nat?_toJson_word (w : UInt16) :
    (integer w.toNat).toJson.nat? 0xFFFF = some w.toNat :=
  nat?_toJson_eq_some_iff.2 ⟨rfl, Nat.le_of_lt_succ w.toNat_lt⟩

theorem eq_of_nat?_word (h : s.toJson.nat? 0xFFFF = some n) :
    s = .integer (UInt16.ofNat n).toNat := by
  obtain ⟨hs, hle⟩ := nat?_toJson_eq_some_iff.1 h
  rw [hs, UInt16.toNat_ofNat_of_lt' (Nat.lt_succ_of_le hle)]

theorem eq_of_bool? {value : Bool} (h : s.toJson.bool? = some value) : s = .bool value := by
  cases s with
  | bool value' =>
    cases h
    rfl
  | null | integer _ | string _ _ _ => cases h

end Scalar

/-! ## Fields -/

/-- The value of the first member of an object that has this key. -/
def member? (key : String) : Json → Option Json
  | object members => members.lookup key.toList
  | _ => none

/-- How a state is stored in an object or an array of named fields. -/
structure Schema (α : Type) where
  names : List String
  /-- The values of the fields, in the order of their names. -/
  values : α → List Scalar
  toJson : α → Json
  ofJson? : Json → Option α

namespace Schema

variable {α : Type} {schema : Schema α}

/-- Reads a state from a text. -/
def ofText? (schema : Schema α) (text : String) : Option α :=
  (Json.ofText? text).bind schema.ofJson?

/-- Reads a state from a line whose object has it as a member. -/
def ofLine? (schema : Schema α) (key line : String) : Option α :=
  ((Json.ofText? line).bind (member? key)).bind schema.ofJson?

/-- The fields are those that are written, and those that decide what is read. -/
structure Lawful (schema : Schema α) : Prop where
  nodup : schema.names.Nodup
  length_values : ∀ a, (schema.values a).length = schema.names.length
  literal : ∀ name ∈ schema.names, isLiteralText name.toList
  toJson_eq : ∀ a, schema.toJson a =
    .object ((schema.names.zip (schema.values a)).map fun field => (field.1.toList, field.2.toJson))
  ofJson?_eq_none : ∀ json, json.fields? schema.names = none → schema.ofJson? json = none
  ofJson?_eq_some_iff : ∀ json items a,
    json.fields? schema.names = some (items.map Scalar.toJson) →
      (schema.ofJson? json = some a ↔ items = schema.values a)

/-- States are read back from how they are stored, and from everything that says the same. -/
structure RoundTrips (schema : Schema α) : Prop where
  /-- From the text of the object in which a state is stored. -/
  stored : ∀ a, schema.ofText? (schema.toJson a).render = some a
  /-- From an object, in whatever way it is written, whose members of the known names are the fields
  of the state in any order, whatever other members there are; and from no other object. -/
  object : ∀ (members : List Member) (text : String), (ofMembers members).WrittenIn text →
    ∀ a, schema.ofText? text = some a ↔
      ((members.filter (·.name ∈ schema.names)).map Member.field).Perm
        (schema.names.zip (schema.values a))
  /-- From the array of the values, and from no other array. -/
  array : ∀ (items : List Scalar) (text : String), (ofScalars items).WrittenIn text →
    ∀ a, schema.ofText? text = some a ↔ items = schema.values a
  /-- Not if a known member is left out or repeated. -/
  once : ∀ (members : List Member) (text : String), (ofMembers members).WrittenIn text →
    ∀ name ∈ schema.names, members.countP (·.name = name) ≠ 1 → schema.ofText? text = none
  /-- Not if there are more or fewer items than fields. -/
  length : ∀ (items : List Scalar) (text : String), (ofScalars items).WrittenIn text →
    items.length ≠ schema.names.length → schema.ofText? text = none

namespace Lawful

variable (h : schema.Lawful)

include h

theorem ofJson?_ofMembers (members : List Member) (a : α) :
    schema.ofJson? (ofMembers members) = some a ↔
      ((members.filter (·.name ∈ schema.names)).map Member.field).Perm
        (schema.names.zip (schema.values a)) := by
  have hperm : schema.names.mapM (value? members) = some (schema.values a) ↔ _ :=
    mapM_value?_eq_some_iff h.nodup
  rw [h.length_values, eq_self_iff_true, true_and] at hperm
  have hfields := fields?_ofMembers schema.names members
  rw [← hperm]
  cases hvalues : schema.names.mapM (value? members) with
  | none =>
    rw [hvalues] at hfields
    rw [h.ofJson?_eq_none _ hfields]
    exact ⟨nofun, nofun⟩
  | some values =>
    rw [hvalues] at hfields
    rw [h.ofJson?_eq_some_iff _ values a hfields, Option.some.injEq]

theorem ofJson?_ofScalars (items : List Scalar) (a : α) :
    schema.ofJson? (ofScalars items) = some a ↔ items = schema.values a := by
  have hfields := fields?_ofScalars schema.names items
  by_cases hlength : items.length = schema.names.length
  · rw [if_pos hlength] at hfields
    exact h.ofJson?_eq_some_iff _ items a hfields
  · rw [if_neg hlength] at hfields
    rw [h.ofJson?_eq_none _ hfields]
    constructor
    · nofun
    · rintro rfl
      exact absurd (h.length_values a) hlength

theorem exists_members (a : α) : ∃ members, schema.toJson a = ofMembers members ∧
    members.map Member.field = schema.names.zip (schema.values a) := by
  obtain ⟨members, hobject, hfields⟩ := exists_members_of_literal h.literal (schema.values a)
  rw [h.toJson_eq, ← hobject]
  exact ⟨members, rfl, hfields⟩

theorem ofJson?_toJson (a : α) : schema.ofJson? (schema.toJson a) = some a := by
  obtain ⟨members, hjson, hmembers⟩ := h.exists_members a
  have hknown : members.filter (·.name ∈ schema.names) = members := by
    rw [List.filter_eq_self]
    intro m hm
    have hfield : m.field ∈ schema.names.zip (schema.values a) := by
      rw [← hmembers]
      exact List.mem_map_of_mem hm
    simpa using (List.of_mem_zip hfield).1
  rw [hjson, h.ofJson?_ofMembers, hknown, hmembers]

theorem proper_toJson (a : α) : (schema.toJson a).Proper := by
  obtain ⟨members, hjson, -⟩ := h.exists_members a
  rw [hjson]
  exact proper_ofMembers members

omit h in
theorem ofText?_of_writtenIn {json : Json} {text : String} (proper : json.Proper)
    (hwritten : json.WrittenIn text) : schema.ofText? text = schema.ofJson? json := by
  unfold ofText?
  rw [Json.ofText?_of_writtenIn proper hwritten]
  rfl

/-- What is stored by a lawful schema is read back. -/
theorem roundTrips : schema.RoundTrips := by
  constructor
  · intro a
    rw [ofText?_of_writtenIn (h.proper_toJson a) (writtenIn_render _), h.ofJson?_toJson]
  · intro members text hwritten a
    rw [ofText?_of_writtenIn (proper_ofMembers members) hwritten, h.ofJson?_ofMembers]
  · intro items text hwritten a
    rw [ofText?_of_writtenIn (proper_ofScalars items) hwritten, h.ofJson?_ofScalars]
  · intro members text hwritten name hname hcount
    have hnone := mapM_eq_none hname (value?_eq_none hcount)
    rw [ofText?_of_writtenIn (proper_ofMembers members) hwritten]
    apply h.ofJson?_eq_none
    rw [fields?_ofMembers, hnone]
    rfl
  · intro items text hwritten hlength
    rw [ofText?_of_writtenIn (proper_ofScalars items) hwritten]
    apply h.ofJson?_eq_none
    rw [fields?_ofScalars, if_neg hlength]

/-- A state that is a member of a value is read back from the line of this value. -/
theorem ofLine?_render {line : Json} {key : String} {a : α} (proper : line.Proper)
    (hmember : line.member? key = some (schema.toJson a)) :
    schema.ofLine? key line.render = some a := by
  unfold ofLine?
  rw [Json.ofText?_render proper]
  show (line.member? key).bind schema.ofJson? = some a
  rw [hmember]
  exact h.ofJson?_toJson a

end Lawful

end Schema

end Json

end Cpu6502
