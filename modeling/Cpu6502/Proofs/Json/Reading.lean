import Cpu6502.Proofs.Json.Scanning

/-! # Values of JSON in a text

A value is read back from its tokens, whatever comes after them, and so from every text that writes
these tokens. The text that a value is rendered to is one of them.

* `Json.allTokens_array`, `Json.allTokens_object`: what holds of all tokens of the parts and of the
  marks between them holds of all tokens.
* `Json.read_tokens`: values, items and members are read from their tokens.
* `Json.ofText?_of_writtenIn`: a value is read from every text that writes it.
-/

namespace Cpu6502.Json

/-! ## The tokens of a value -/

/-- The tokens that stand around and between the parts of a value. -/
def Token.marks : List Token :=
  [openBrace, closeBrace, openBracket, closeBracket, comma, colon]

/-- Holds of a value whose tokens all have a property. -/
def AllTokens (p : Token → Prop) (json : Json) : Prop :=
  ∀ token ∈ json.tokens, p token

section AllTokens

variable {p : Token → Prop}

theorem allTokens_itemTokens (marks : ∀ mark ∈ Token.marks, p mark) {items : List Json}
    (h : ∀ item ∈ items, item.AllTokens p) : ∀ token ∈ itemTokens items, p token := by
  induction items with
  | nil =>
    unfold itemTokens
    exact List.forall_mem_singleton.2 (marks _ (by decide))
  | cons item rest ih =>
    obtain ⟨hitem, hrest⟩ := List.forall_mem_cons.1 h
    unfold itemTokens
    exact List.forall_mem_append.2
      ⟨List.forall_mem_cons.2 ⟨marks _ (by decide), hitem⟩, ih hrest⟩

theorem allTokens_array (marks : ∀ mark ∈ Token.marks, p mark) {items : List Json}
    (h : ∀ item ∈ items, item.AllTokens p) : (array items).AllTokens p := by
  unfold AllTokens
  cases items with
  | nil =>
    unfold tokens
    exact List.forall_mem_cons.2
      ⟨marks _ (by decide), List.forall_mem_singleton.2 (marks _ (by decide))⟩
  | cons item rest =>
    obtain ⟨hitem, hrest⟩ := List.forall_mem_cons.1 h
    unfold tokens
    exact List.forall_mem_append.2
      ⟨List.forall_mem_cons.2 ⟨marks _ (by decide), hitem⟩, allTokens_itemTokens marks hrest⟩

/-- The tokens of a member, its key in front. -/
theorem allTokens_member (marks : ∀ mark ∈ Token.marks, p mark) {key : List Char} {value : Json}
    (hkey : p (.string key)) (hvalue : value.AllTokens p) :
    ∀ token ∈ Token.string key :: .colon :: value.tokens, p token :=
  List.forall_mem_cons.2 ⟨hkey, List.forall_mem_cons.2 ⟨marks _ (by decide), hvalue⟩⟩

theorem allTokens_memberTokens (marks : ∀ mark ∈ Token.marks, p mark)
    {members : List (List Char × Json)}
    (h : ∀ member ∈ members, p (.string member.1) ∧ member.2.AllTokens p) :
    ∀ token ∈ memberTokens members, p token := by
  induction members with
  | nil =>
    unfold memberTokens
    exact List.forall_mem_singleton.2 (marks _ (by decide))
  | cons member rest ih =>
    obtain ⟨hmember, hrest⟩ := List.forall_mem_cons.1 h
    have htokens := allTokens_member marks hmember.1 hmember.2
    unfold memberTokens
    exact List.forall_mem_append.2
      ⟨List.forall_mem_cons.2 ⟨marks _ (by decide), htokens⟩, ih hrest⟩

theorem allTokens_object (marks : ∀ mark ∈ Token.marks, p mark)
    {members : List (List Char × Json)}
    (h : ∀ member ∈ members, p (.string member.1) ∧ member.2.AllTokens p) :
    (object members).AllTokens p := by
  unfold AllTokens
  cases members with
  | nil =>
    unfold tokens
    exact List.forall_mem_cons.2
      ⟨marks _ (by decide), List.forall_mem_singleton.2 (marks _ (by decide))⟩
  | cons member rest =>
    obtain ⟨hmember, hrest⟩ := List.forall_mem_cons.1 h
    have htokens := allTokens_member marks hmember.1 hmember.2
    unfold tokens
    exact List.forall_mem_append.2
      ⟨List.forall_mem_cons.2 ⟨marks _ (by decide), htokens⟩, allTokens_memberTokens marks hrest⟩

end AllTokens

/-- Holds of a value whose numbers and strings are spelled as they must. -/
def Proper (json : Json) : Prop :=
  json.AllTokens Token.Proper

theorem proper_of_tokens_eq {json : Json} {token : Token} (htokens : json.tokens = [token])
    (h : token.Proper) : json.Proper := by
  unfold Proper AllTokens
  rw [htokens]
  exact List.forall_mem_singleton.2 h

theorem proper_null : null.Proper :=
  proper_of_tokens_eq rfl trivial

theorem proper_bool (value : Bool) : (bool value).Proper :=
  proper_of_tokens_eq rfl trivial

theorem proper_ofInt (n : Int) : (ofInt n).Proper := by
  refine proper_of_tokens_eq rfl ⟨n.natAbs, ?_⟩
  split
  · exact .inr rfl
  · exact .inl rfl

theorem proper_ofNat (n : Nat) : (ofNat n).Proper := by
  rw [← ofInt_natCast]
  exact proper_ofInt n

theorem proper_string {spelling content : List Char} (h : Spells spelling content) :
    (string spelling).Proper :=
  proper_of_tokens_eq rfl ⟨content, h⟩

theorem proper_ofString (text : String) : (ofString text).Proper :=
  proper_string (spells_flatMap_escape text.toList)

theorem proper_of_mem_marks : ∀ mark ∈ Token.marks, mark.Proper := by
  intro mark hmark
  unfold Token.marks at hmark
  simp only [List.mem_cons, List.not_mem_nil, or_false] at hmark
  rcases hmark with rfl | rfl | rfl | rfl | rfl | rfl <;> trivial

theorem proper_array {items : List Json} (h : ∀ item ∈ items, item.Proper) :
    (array items).Proper :=
  allTokens_array proper_of_mem_marks h

theorem proper_object {members : List (List Char × Json)}
    (h : ∀ member ∈ members, (∃ content, Spells member.1 content) ∧ member.2.Proper) :
    (object members).Proper :=
  allTokens_object proper_of_mem_marks h

/-! ## No number after a number -/

section Parted

variable {tokens rest : List Token}

/-- After a mark, or before one, any token may come. -/
theorem isChain_cons_of_not_isNumber {token : Token} (h : token.isNumber = false)
    (hrest : rest.IsChain Token.Parted) : (token :: rest).IsChain Token.Parted := by
  refine List.isChain_cons.2 ⟨?_, hrest⟩
  intro next _ hnumber
  rw [h] at hnumber
  cases hnumber

theorem isChain_append_of_head? (h : tokens.IsChain Token.Parted)
    (hrest : rest.IsChain Token.Parted) (hhead : ∀ token ∈ rest.head?, token.isNumber = false) :
    (tokens ++ rest).IsChain Token.Parted :=
  h.append hrest fun _ _ next hnext _ => hhead next hnext

theorem isNumber_of_mem_head?_itemTokens (items : List Json) :
    ∀ token ∈ (itemTokens items).head?, token.isNumber = false := by
  cases items with
  | nil =>
    unfold itemTokens
    rintro _ ⟨⟩
    rfl
  | cons item items =>
    unfold itemTokens
    rintro _ ⟨⟩
    rfl

theorem isNumber_of_mem_head?_memberTokens (members : List (List Char × Json)) :
    ∀ token ∈ (memberTokens members).head?, token.isNumber = false := by
  cases members with
  | nil =>
    unfold memberTokens
    rintro _ ⟨⟩
    rfl
  | cons member members =>
    unfold memberTokens
    rintro _ ⟨⟩
    rfl

end Parted

mutual

theorem isChain_tokens (json : Json) : json.tokens.IsChain Token.Parted := by
  match json with
  | null | bool _ | number _ | string _ =>
    unfold tokens
    exact .singleton _
  | array [] | object [] =>
    unfold tokens
    exact isChain_cons_of_not_isNumber rfl (.singleton _)
  | array (item :: items) =>
    unfold tokens
    exact isChain_append_of_head? (isChain_cons_of_not_isNumber rfl (isChain_tokens item))
      (isChain_itemTokens items) (isNumber_of_mem_head?_itemTokens items)
  | object ((key, value) :: members) =>
    unfold tokens
    exact isChain_append_of_head? (isChain_cons_of_not_isNumber rfl
      (isChain_cons_of_not_isNumber rfl (isChain_cons_of_not_isNumber rfl (isChain_tokens value))))
      (isChain_memberTokens members) (isNumber_of_mem_head?_memberTokens members)

theorem isChain_itemTokens (items : List Json) : (itemTokens items).IsChain Token.Parted := by
  match items with
  | [] =>
    unfold itemTokens
    exact .singleton _
  | item :: items =>
    unfold itemTokens
    exact isChain_append_of_head? (isChain_cons_of_not_isNumber rfl (isChain_tokens item))
      (isChain_itemTokens items) (isNumber_of_mem_head?_itemTokens items)

theorem isChain_memberTokens (members : List (List Char × Json)) :
    (memberTokens members).IsChain Token.Parted := by
  match members with
  | [] =>
    unfold memberTokens
    exact .singleton _
  | (key, value) :: members =>
    unfold memberTokens
    exact isChain_append_of_head? (isChain_cons_of_not_isNumber rfl
      (isChain_cons_of_not_isNumber rfl (isChain_cons_of_not_isNumber rfl (isChain_tokens value))))
      (isChain_memberTokens members) (isNumber_of_mem_head?_memberTokens members)

end

/-! ## Reading tokens -/

theorem exists_tokens_eq_cons (json : Json) :
    ∃ token rest, json.tokens = token :: rest ∧ token ≠ .closeBracket := by
  match json with
  | null | bool _ | number _ | string _ | array [] | array (_ :: _) | object []
  | object (_ :: _) =>
    unfold tokens
    exact ⟨_, _, rfl, nofun⟩

theorem tokens_ne_nil (json : Json) : json.tokens ≠ [] := by
  obtain ⟨token, rest, htokens, -⟩ := json.exists_tokens_eq_cons
  rw [htokens]
  exact List.cons_ne_nil _ _

variable {fuel : Nat} {tokens rest : List Token} {item value : Json} {items : List Json}
  {members : List (List Char × Json)} {key : List Char}

theorem readValue_array (h : readItems fuel (item.tokens ++ tokens) = some (items, rest)) :
    readValue (fuel + 1) (.openBracket :: (item.tokens ++ tokens)) = some (array items, rest) := by
  obtain ⟨first, others, htokens, hne⟩ := item.exists_tokens_eq_cons
  rw [htokens, List.cons_append] at h ⊢
  rw [readValue, h]
  · rfl
  · intro _ hclose
    exact hne (List.cons.inj hclose).1

theorem readValue_object
    (h : readMembers fuel (.string key :: tokens) = some (members, rest)) :
    readValue (fuel + 1) (.openBrace :: .string key :: tokens) = some (object members, rest) := by
  rw [readValue, h]
  · rfl
  · exact nofun

theorem readItems_last (h : readValue fuel tokens = some (item, .closeBracket :: rest)) :
    readItems (fuel + 1) tokens = some ([item], rest) := by
  rw [readItems, h]
  rfl

theorem readItems_cons {tokens' : List Token}
    (h : readValue fuel tokens = some (item, .comma :: tokens'))
    (hrest : readItems fuel tokens' = some (items, rest)) :
    readItems (fuel + 1) tokens = some (item :: items, rest) := by
  rw [readItems, h]
  show ((readItems fuel tokens').bind _) = _
  rw [hrest]
  rfl

theorem readMembers_last (h : readValue fuel tokens = some (value, .closeBrace :: rest)) :
    readMembers (fuel + 1) (.string key :: .colon :: tokens) = some ([(key, value)], rest) := by
  rw [readMembers, h]
  rfl

theorem readMembers_cons {tokens' : List Token}
    (h : readValue fuel tokens = some (value, .comma :: tokens'))
    (hrest : readMembers fuel tokens' = some (members, rest)) :
    readMembers (fuel + 1) (.string key :: .colon :: tokens) =
      some ((key, value) :: members, rest) := by
  rw [readMembers, h]
  show ((readMembers fuel tokens').bind _) = _
  rw [hrest]
  rfl

/-- Values, items and members are read from their tokens, whatever comes after them. -/
theorem read_tokens (fuel : Nat) :
    (∀ (json : Json) (rest : List Token), json.tokens.length ≤ fuel →
      readValue fuel (json.tokens ++ rest) = some (json, rest)) ∧
    (∀ (item : Json) (items : List Json) (rest : List Token),
      (item.tokens ++ itemTokens items).length ≤ fuel →
      readItems fuel (item.tokens ++ (itemTokens items ++ rest)) = some (item :: items, rest)) ∧
    ∀ (key : List Char) (value : Json) (members : List (List Char × Json)) (rest : List Token),
      (value.tokens ++ memberTokens members).length < fuel →
      readMembers fuel (.string key :: .colon :: (value.tokens ++ (memberTokens members ++ rest))) =
        some ((key, value) :: members, rest) := by
  -- every token that is read, and every part that is begun, uses up some of the bound
  induction fuel with
  | zero =>
    refine ⟨?_, ?_, nofun⟩
    · intro json rest hfuel
      exact absurd (List.length_eq_zero_iff.1 (Nat.le_zero.1 hfuel)) json.tokens_ne_nil
    · intro item items rest hfuel
      have hnil := (List.append_eq_nil_iff.1 (List.length_eq_zero_iff.1 (Nat.le_zero.1 hfuel))).1
      exact absurd hnil item.tokens_ne_nil
  | succ fuel ih =>
    obtain ⟨hvalue, hitems, hmembers⟩ := ih
    refine ⟨?_, ?_, ?_⟩
    · intro json rest hfuel
      match json with
      | null | bool _ | number _ | string _ | array [] | object [] =>
        simp only [Json.tokens, List.cons_append, List.nil_append, readValue]
      | array (item :: items) =>
        unfold Json.tokens at hfuel ⊢
        rw [List.cons_append, List.cons_append, List.append_assoc]
        rw [List.cons_append, List.length_cons] at hfuel
        exact readValue_array (hitems item items rest (by omega))
      | object ((key, value) :: members) =>
        unfold Json.tokens at hfuel ⊢
        simp only [List.cons_append, List.append_assoc]
        simp only [List.cons_append, List.length_cons] at hfuel
        exact readValue_object (hmembers key value members rest (by omega))
    · intro item items rest hfuel
      rw [List.length_append] at hfuel
      cases items with
      | nil =>
        unfold itemTokens at hfuel ⊢
        rw [List.length_singleton] at hfuel
        exact readItems_last (hvalue item _ (by omega))
      | cons next items =>
        unfold itemTokens at hfuel ⊢
        rw [List.cons_append, List.length_cons] at hfuel
        rw [List.cons_append, List.cons_append, List.append_assoc]
        exact readItems_cons (hvalue item _ (by omega)) (hitems next items rest (by omega))
    · intro key value members rest hfuel
      rw [List.length_append] at hfuel
      cases members with
      | nil =>
        unfold memberTokens at hfuel ⊢
        rw [List.length_singleton] at hfuel
        exact readMembers_last (hvalue value _ (by omega))
      | cons member members =>
        obtain ⟨next, value'⟩ := member
        unfold memberTokens at hfuel ⊢
        simp only [List.cons_append, List.length_cons] at hfuel
        simp only [List.cons_append, List.append_assoc]
        exact readMembers_cons (hvalue value _ (by omega))
          (hmembers next value' members rest (by omega))

/-! ## Reading texts -/

/-- The text writes the value, with any blanks between its tokens. -/
def WrittenIn (json : Json) (text : String) : Prop :=
  Token.Spaced json.tokens text.toList

theorem writtenIn_render (json : Json) : json.WrittenIn json.render := by
  unfold WrittenIn render
  rw [String.toList_ofList]
  exact Token.spaced_flatMap_text json.tokens

/-- A value is read from every text that writes it. -/
theorem ofText?_of_writtenIn {json : Json} {text : String} (proper : json.Proper)
    (h : json.WrittenIn text) : ofText? text = some json := by
  have hscan := Token.scanAll_of_spaced h proper (isChain_tokens json)
  -- the bound is twice as large as it must be
  have hread := (read_tokens (2 * json.tokens.length)).1 json [] (by omega)
  rw [List.append_nil] at hread
  unfold ofText?
  rw [hscan]
  show (readValue (2 * json.tokens.length) json.tokens).bind _ = _
  rw [hread]
  rfl

theorem ofText?_render {json : Json} (proper : json.Proper) : ofText? json.render = some json :=
  ofText?_of_writtenIn proper json.writtenIn_render

end Cpu6502.Json
