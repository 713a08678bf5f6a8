import Mathlib.Data.List.Perm.Basic
import Cpu6502.Proofs.Json.Reading

/-! # Members of an object

The values of named fields are taken from the members of an object, in whatever order they stand and
whatever other members there are, if each of the names is there once; or from the items of an array,
if there are as many as names.

* `Json.mapM_value?_eq_some_iff`: the fields of an object, up to their order, are its members of
  these names.
* `Json.fields?_ofMembers`, `Json.fields?_ofScalars`: the fields of an object and of an array.
-/

namespace Cpu6502.Json

/-- A value that is no array and no object. -/
inductive Scalar where
  | null
  | bool (value : Bool)
  | integer (n : Int)
  | string (spelling content : List Char) (spells : Spells spelling content)

/-- The scalar as a value. -/
def Scalar.toJson : Scalar → Json
  | null => .null
  | bool value => .bool value
  | integer n => .ofInt n
  | string spelling _ _ => .string spelling

/-- A member of an object: a name, however it is spelled, and a scalar. -/
structure Member where
  name : String
  spelling : List Char
  spells : Spells spelling name.toList
  value : Scalar

/-- The name and the value of a member. -/
def Member.field (m : Member) : String × Scalar :=
  (m.name, m.value)

@[simp] theorem Member.fst_field (m : Member) : m.field.1 = m.name := rfl

/-- An object of such members. -/
def ofMembers (members : List Member) : Json :=
  .object (members.map fun m => (m.spelling, m.value.toJson))

/-- An array of scalars. -/
def ofScalars (items : List Scalar) : Json :=
  .array (items.map Scalar.toJson)

/-! ## Spelling -/

theorem Scalar.proper_toJson (s : Scalar) : s.toJson.Proper := by
  cases s with
  | null => exact proper_null
  | bool value => exact proper_bool value
  | integer n => exact proper_ofInt n
  | string spelling content spells => exact proper_string spells

theorem proper_ofMembers (members : List Member) : (ofMembers members).Proper := by
  refine proper_object ?_
  intro member hmember
  obtain ⟨m, -, rfl⟩ := List.mem_map.1 hmember
  exact ⟨⟨_, m.spells⟩, m.value.proper_toJson⟩

theorem proper_ofScalars (items : List Scalar) : (ofScalars items).Proper := by
  refine proper_array ?_
  intro item hitem
  obtain ⟨s, -, rfl⟩ := List.mem_map.1 hitem
  exact s.proper_toJson

/-- Names that spell themselves are the names of members. -/
theorem exists_members_of_literal {names : List String}
    (h : ∀ name ∈ names, isLiteralText name.toList) (values : List Scalar) :
    ∃ members, ofMembers members =
        .object ((names.zip values).map fun field => (field.1.toList, field.2.toJson)) ∧
      members.map Member.field = names.zip values := by
  induction names generalizing values with
  | nil => exact ⟨[], rfl, rfl⟩
  | cons name names ih =>
    obtain ⟨hname, hnames⟩ := List.forall_mem_cons.1 h
    cases values with
    | nil => exact ⟨[], rfl, rfl⟩
    | cons value values =>
      obtain ⟨members, hobject, hfields⟩ := ih hnames values
      refine ⟨⟨name, name.toList, .of_isLiteralText hname, value⟩ :: members, ?_, ?_⟩
      · rw [List.zip_cons_cons, List.map_cons, ← (object.inj hobject)]
        rfl
      · rw [List.map_cons, hfields]
        rfl

/-! ## Fields -/

/-- The value of the only member of this name. -/
def value? (members : List Member) (name : String) : Option Scalar :=
  match members.filter (·.name = name) with
  | [m] => some m.value
  | _ => none

variable {members : List Member} {name : String} {names : List String} {values : List Scalar}

theorem value?_eq_some_iff {value : Scalar} :
    value? members name = some value ↔
      ∃ m, members.filter (·.name = name) = [m] ∧ m.field = (name, value) := by
  unfold value?
  constructor
  · intro h
    split at h
    · next m hfilter =>
      have hmem : m ∈ members.filter (·.name = name) := by
        rw [hfilter]
        exact List.mem_singleton_self m
      have hname : m.name = name := by simpa using List.of_mem_filter hmem
      cases h
      exact ⟨m, hfilter, congrArg (·, m.value) hname⟩
    · cases h
  · rintro ⟨m, hfilter, hfield⟩
    rw [hfilter]
    exact congrArg (some ∘ Prod.snd) hfield

/-- The value of a name is missing unless there is one member of this name. -/
theorem value?_eq_none (h : members.countP (·.name = name) ≠ 1) : value? members name = none := by
  rw [List.countP_eq_length_filter] at h
  unfold value?
  split
  · next m hfilter =>
    rw [hfilter] at h
    exact absurd rfl h
  · rfl

theorem mapM_eq_none {f : String → Option Scalar} (hmem : name ∈ names) (hnone : f name = none) :
    names.mapM f = none := by
  induction names with
  | nil => cases hmem
  | cons first names ih =>
    rw [List.mapM_cons]
    rcases List.mem_cons.1 hmem with rfl | hmem
    · rw [hnone]
      rfl
    · rw [ih hmem]
      cases f first with
      | none => rfl
      | some value => rfl

/-- The members of several names are those of the first name and those of the others. -/
theorem filter_cons_perm (members : List Member) (h : name ∉ names) :
    (members.filter (·.name ∈ name :: names)).Perm
      (members.filter (·.name = name) ++ members.filter (·.name ∈ names)) := by
  have hsplit := List.filter_append_perm (·.name = name)
    (members.filter (·.name ∈ name :: names))
  have hfirst : (members.filter (·.name ∈ name :: names)).filter (·.name = name) =
      members.filter (·.name = name) := by
    rw [List.filter_filter]
    apply List.filter_congr
    intro m _
    by_cases hm : m.name = name
    · simp [hm]
    · simp [hm]
  have hothers : (members.filter (·.name ∈ name :: names)).filter (fun m => !(m.name = name)) =
      members.filter (·.name ∈ names) := by
    rw [List.filter_filter]
    apply List.filter_congr
    intro m _
    by_cases hm : m.name = name
    · simp [hm, h]
    · simp [hm]
  rw [hfirst, hothers] at hsplit
  exact hsplit.symm

/-- A list of fields in which one comes first has, up to its order, no other field of that name. -/
theorem filter_fst_eq_of_perm {fields fields' : List (String × Scalar)} {value : Scalar}
    (h : (fields ++ fields').Perm ((name, value) :: names.zip values)) (hname : name ∉ names)
    (hfields : ∀ field ∈ fields, field.1 = name) (hfields' : ∀ field ∈ fields', field.1 ≠ name) :
    fields = [(name, value)] ∧ fields'.Perm (names.zip values) := by
  have hzip : ∀ field ∈ names.zip values, field.1 ≠ name := by
    rintro ⟨other, value'⟩ hmem rfl
    exact hname (List.of_mem_zip hmem).1
  have hfirst : fields = [(name, value)] := by
    have hfilter := h.filter (·.1 = name)
    rw [List.filter_append, List.filter_cons_of_pos (by simp),
      List.filter_eq_self.2 (by simpa using hfields),
      List.filter_eq_nil_iff.2 (by simpa using hfields'),
      List.filter_eq_nil_iff.2 (by simpa using hzip), List.append_nil] at hfilter
    exact List.perm_singleton.1 hfilter
  rw [hfirst, List.singleton_append, List.perm_cons] at h
  exact ⟨hfirst, h⟩

/-- The fields of an object, up to their order, are its members of these names. -/
theorem mapM_value?_eq_some_iff (hnodup : names.Nodup) :
    names.mapM (value? members) = some values ↔
      values.length = names.length ∧
        ((members.filter (·.name ∈ names)).map Member.field).Perm (names.zip values) := by
  induction names generalizing values with
  | nil =>
    have hnone : members.filter (·.name ∈ []) = [] := by simp
    rw [hnone, List.mapM_nil]
    constructor
    · rintro ⟨⟩
      exact ⟨rfl, .nil⟩
    · rintro ⟨hlength, -⟩
      rw [List.length_eq_zero_iff.1 hlength]
      rfl
  | cons name names ih =>
    obtain ⟨hname, hnames⟩ := List.nodup_cons.1 hnodup
    -- the first name takes its members away from the others
    have hperm := (filter_cons_perm members hname).map Member.field
    rw [List.map_append] at hperm
    rw [List.mapM_cons]
    constructor
    · intro h
      obtain ⟨value, hvalue, h⟩ := Option.bind_eq_some_iff.1 h
      obtain ⟨others, hothers, h⟩ := Option.bind_eq_some_iff.1 h
      cases h
      obtain ⟨m, hfilter, hfield⟩ := value?_eq_some_iff.1 hvalue
      obtain ⟨hlength, hrest⟩ := (ih hnames).1 hothers
      rw [hfilter, List.map_singleton, hfield] at hperm
      exact ⟨congrArg (· + 1) hlength, hperm.trans (hrest.cons _)⟩
    · rintro ⟨hlength, h⟩
      cases values with
      | nil => cases hlength
      | cons value others =>
        have hfirst : ∀ field ∈ (members.filter (·.name = name)).map Member.field,
            field.1 = name := by
          intro field hmem
          obtain ⟨m, hm, rfl⟩ := List.mem_map.1 hmem
          simpa using List.of_mem_filter hm
        have hothers : ∀ field ∈ (members.filter (·.name ∈ names)).map Member.field,
            field.1 ≠ name := by
          rintro field hmem rfl
          obtain ⟨m, hm, rfl⟩ := List.mem_map.1 hmem
          exact hname (by simpa using List.of_mem_filter hm)
        obtain ⟨hfield, hrest⟩ :=
          filter_fst_eq_of_perm (hperm.symm.trans h) hname hfirst hothers
        obtain ⟨m, hfilter, hm⟩ := List.map_eq_singleton_iff.1 hfield
        rw [value?_eq_some_iff.2 ⟨m, hfilter, hm⟩,
          (ih hnames).2 ⟨Nat.succ.inj hlength, hrest⟩]
        rfl

/-! ## Reading fields -/

theorem mapM_characters?_ofMembers (members : List Member) :
    (members.map fun m => (m.spelling, m.value.toJson)).mapM
        (fun (key, value) => (characters? key).map (·, value)) =
      some (members.map fun m => (m.name.toList, m.value.toJson)) := by
  induction members with
  | nil => rfl
  | cons m members ih =>
    rw [List.map_cons, List.mapM_cons, ih]
    dsimp only
    rw [m.spells.characters?]
    rfl

theorem mapM_option_map {f : String → Option Scalar} (names : List String) :
    names.mapM (fun name => (f name).map Scalar.toJson) =
      (names.mapM f).map (List.map Scalar.toJson) := by
  induction names with
  | nil => rfl
  | cons name names ih =>
    rw [List.mapM_cons, List.mapM_cons, ih]
    cases f name with
    | none => rfl
    | some value =>
      cases names.mapM f with
      | none => rfl
      | some values => rfl

/-- The fields of an object are the values of its members of these names. -/
theorem fields?_ofMembers (names : List String) (members : List Member) :
    (ofMembers members).fields? names =
      (names.mapM (value? members)).map (List.map Scalar.toJson) := by
  rw [← mapM_option_map]
  show Option.bind (List.mapM _ _) _ = _
  rw [mapM_characters?_ofMembers]
  show names.mapM _ = _
  -- name by name, among the characters for which the keys stand
  congr 1
  funext name
  have hname : ∀ m : Member, decide (m.name.toList = name.toList) = decide (m.name = name) := by
    intro m
    rw [decide_eq_decide, String.toList_inj]
  rw [List.filter_map]
  unfold value?
  simp only [Function.comp_def, hname]
  cases members.filter (·.name = name) with
  | nil => rfl
  | cons m others =>
    cases others with
    | nil => rfl
    | cons m' others => rfl

/-- The fields of an array are its items. -/
theorem fields?_ofScalars (names : List String) (items : List Scalar) :
    (ofScalars items).fields? names =
      if items.length = names.length then some (items.map Scalar.toJson) else none := by
  show (if (items.map Scalar.toJson).length = names.length then _ else _) = _
  rw [List.length_map]

end Cpu6502.Json
