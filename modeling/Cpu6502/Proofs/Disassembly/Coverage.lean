import Mathlib.Algebra.Ring.Nat
import Mathlib.Data.List.Basic
import Cpu6502.Proofs.Disassembly

/-! # What a listing covers

A listing shows the items that follow one another from an address on. Each has one or two bytes and
starts where the one before it ends, so the lines cover the range from its start without a gap and
without an overlap; only the last item may reach beyond the end, and by one byte at most.

`Succession` says this of the addresses of the items, one item after the other. By induction on it
the items cover the range (`Succession.sum_sizes`), each starts behind those before it
(`Succession.getElem?_eq`), and a longer range starts with the same items (`Succession.isPrefix`).
`listing_covers` says it of the lines.
-/

namespace Cpu6502

/-! ## Items in succession -/

theorem Item.length_eq (item : Item) : item.length = 1 ∨ item.length = 2 := by
  cases item with
  | data value => exact .inl rfl
  | instruction row operand =>
    show 1 + row.mode.operandLength = 1 ∨ 1 + row.mode.operandLength = 2
    cases row.mode with
    | implied => exact .inl rfl
    | immediate | zeroPage | relative => exact .inr rfl

/-- The number of bytes of the item at an address. -/
def sizeAt (code : Array UInt8) (pc : UInt16) : Nat :=
  (Item.decode code pc).length

/-- These are the addresses of the items that follow one another from `pc` on, up to the first that
reaches the end of `remaining` bytes. -/
inductive Succession (code : Array UInt8) : UInt16 → Nat → List UInt16 → Prop where
  | covered (pc : UInt16) : Succession code pc 0 []
  | item {pc : UInt16} {remaining : Nat} {starts : List UInt16}
      (rest : Succession code (pc + UInt16.ofNat (sizeAt code pc))
        (remaining + 1 - sizeAt code pc) starts) :
      Succession code pc (remaining + 1) (pc :: starts)

section

variable {code : Array UInt8} {pc : UInt16} {remaining remaining' : Nat}
  {starts starts' : List UInt16}

/-- The items of a range are its first item and the items after that one. -/
theorem itemStarts_succ (code : Array UInt8) (pc : UInt16) (remaining : Nat) :
    (itemStarts code pc (remaining + 1)).toList =
      pc :: (itemStarts code (pc + UInt16.ofNat (sizeAt code pc))
        (remaining + 1 - sizeAt code pc)).toList := by
  unfold itemStarts
  rw [itemStartsFrom, itemStartsFrom_eq_append]
  show _ = pc :: (itemStartsFrom code (remaining + 1 - sizeAt code pc)
    (pc + UInt16.ofNat (sizeAt code pc)) 0 #[]).toList
  rcases (Item.decode code pc).length_eq with hone | htwo
  · unfold sizeAt
    rw [hone]
    simp
  · -- the second byte is passed over, if the range reaches it
    unfold sizeAt
    rw [htwo]
    cases remaining with
    | zero => simp [itemStartsFrom]
    | succ remaining =>
      rw [itemStartsFrom, UInt16.add_assoc]
      simp

theorem succession_itemStarts (code : Array UInt8) (pc : UInt16) (remaining : Nat) :
    Succession code pc remaining (itemStarts code pc remaining).toList := by
  induction remaining using Nat.strongRecOn generalizing pc with
  | _ remaining ih =>
    cases remaining with
    | zero => exact .covered pc
    | succ remaining =>
      rw [itemStarts_succ]
      have hsize := (Item.decode code pc).length_eq
      refine .item (ih _ ?_ _)
      unfold sizeAt
      omega

/-- The items cover the range, and at most one byte more. -/
theorem Succession.sum_sizes (h : Succession code pc remaining starts) :
    remaining ≤ (starts.map (sizeAt code)).sum ∧
      (starts.map (sizeAt code)).sum ≤ remaining + 1 ∧
        (remaining = 0 → (starts.map (sizeAt code)).sum = 0) := by
  induction h with
  | covered pc => simp
  | @item pc remaining starts rest ih =>
    have hsize := (Item.decode code pc).length_eq
    rw [List.map_cons, List.sum_cons]
    unfold sizeAt at ih ⊢
    omega

/-- There are at most as many items as bytes, and at least half as many. -/
theorem Succession.length_bounds (h : Succession code pc remaining starts) :
    (remaining + 1) / 2 ≤ starts.length ∧ starts.length ≤ remaining := by
  induction h with
  | covered pc => simp
  | @item pc remaining starts rest ih =>
    have hsize := (Item.decode code pc).length_eq
    rw [List.length_cons]
    unfold sizeAt at ih
    omega

/-- Each item starts behind all bytes of the items before it. -/
theorem Succession.getElem?_eq (h : Succession code pc remaining starts) {index : Nat}
    {address : UInt16} (haddress : starts[index]? = some address) :
    address = pc + UInt16.ofNat ((starts.take index).map (sizeAt code)).sum := by
  induction h generalizing index with
  | covered pc => cases haddress
  | @item pc remaining starts rest ih =>
    cases index with
    | zero =>
      rw [List.getElem?_cons_zero] at haddress
      cases haddress
      rw [List.take_zero, List.map_nil, List.sum_nil]
      exact (UInt16.add_zero address).symm
    | succ index =>
      rw [List.getElem?_cons_succ] at haddress
      rw [ih haddress, List.take_succ_cons, List.map_cons, List.sum_cons, UInt16.ofNat_add,
        UInt16.add_assoc]

/-- A longer range starts with the items of a shorter one. -/
theorem Succession.isPrefix (h : Succession code pc remaining starts)
    (h' : Succession code pc remaining' starts') (hle : remaining ≤ remaining') :
    starts <+: starts' := by
  induction h generalizing remaining' starts' with
  | covered pc => exact List.nil_prefix
  | @item pc remaining starts rest ih =>
    cases h' with
    | covered => omega
    | item rest' =>
      rw [List.prefix_cons_inj]
      exact ih rest' (by omega)

end

/-! ## Lines in columns -/

/-- The line shows the address, the bytes and the text of an item, each in columns of its own: four
for the address, eight for the bytes, and the text from the fifteenth on. -/
structure ShowsItem (line : String) (address : Nat) (bytes : List UInt8) (text : String) :
    Prop where
  address_columns : line.toList.take 4 = Hex.digits 4 address
  gap : (line.toList.drop 4).take 2 = [' ', ' ']
  byte_columns : (line.toList.drop 6).take 8 =
    [' '].intercalate (bytes.map fun byte => Hex.digits 2 byte.toNat) ++
      List.replicate (9 - 3 * bytes.length) ' '
  text_columns : line.toList.drop 14 = text.toList

/-- Bytes from an address on. Addresses wrap around, and what is past the end of the code reads as
zero. -/
def bytesFrom (code : Array UInt8) (address count : Nat) : List UInt8 :=
  (List.range count).map fun index => code[(address + index) % 65536]?.getD 0

theorem toNat_add_ofNat (pc : UInt16) (offset : Nat) :
    (pc + UInt16.ofNat offset).toNat = (pc.toNat + offset) % 65536 := by
  rw [UInt16.toNat_add, UInt16.toNat_ofNat']
  omega

theorem byteAt_add (code : Array UInt8) (pc : UInt16) (offset : Nat) :
    byteAt code (pc + UInt16.ofNat offset) = code[(pc.toNat + offset) % 65536]?.getD 0 := by
  unfold byteAt
  rw [toNat_add_ofNat]

/-- One or two bytes, with a space between them, are filled up to eight columns with spaces. -/
theorem toList_column_bytes {bytes : List UInt8} (h : bytes.length = 1 ∨ bytes.length = 2) :
    (Text.column 8 (" ".intercalate (bytes.map Hex.byte))).toList =
        [' '].intercalate (bytes.map fun byte => Hex.digits 2 byte.toNat) ++
          List.replicate (9 - 3 * bytes.length) ' ' ∧
      (Text.column 8 (" ".intercalate (bytes.map Hex.byte))).toList.length = 8 := by
  have hspace : " ".length = 1 := rfl
  rcases h with hone | htwo
  · obtain ⟨byte, rfl⟩ := List.length_eq_one_iff.1 hone
    simp [Text.column, Hex.byte]
  · obtain ⟨first, second, rfl⟩ := List.length_eq_two.1 htwo
    simp [Text.column, Hex.byte, hspace]

/-- The line of an item shows all its bytes and no others. -/
theorem showsItem_listingLine (code : Array UInt8) (pc : UInt16) :
    ShowsItem (listingLine code pc) pc.toNat (bytesFrom code pc.toNat (sizeAt code pc))
      ((Item.decode code pc).text pc) := by
  have hraw : rawBytes code pc =
      " ".intercalate ((bytesFrom code pc.toNat (sizeAt code pc)).map Hex.byte) := by
    unfold rawBytes bytesFrom
    simp only [byteAt_add, List.map_map]
    rfl
  have hsize : (bytesFrom code pc.toNat (sizeAt code pc)).length = 1 ∨
      (bytesFrom code pc.toNat (sizeAt code pc)).length = 2 := by
    unfold bytesFrom
    rw [List.length_map, List.length_range]
    exact (Item.decode code pc).length_eq
  obtain ⟨hbytes, hwidth⟩ := toList_column_bytes hsize
  rw [← hraw] at hbytes hwidth
  -- the line is made of the four parts, the first three of which have a fixed width
  have hline : (listingLine code pc).toList = Hex.digits 4 pc.toNat ++ ([' ', ' '] ++
      ((Text.column 8 (rawBytes code pc)).toList ++ ((Item.decode code pc).text pc).toList)) := by
    simp [listingLine, Hex.word]
  have haddress : (listingLine code pc).toList.drop 4 = [' ', ' '] ++
      ((Text.column 8 (rawBytes code pc)).toList ++ ((Item.decode code pc).text pc).toList) := by
    rw [hline, List.drop_left' (Hex.length_digits 4 _)]
  have hgap : (listingLine code pc).toList.drop 6 =
      (Text.column 8 (rawBytes code pc)).toList ++ ((Item.decode code pc).text pc).toList := by
    rw [← List.drop_drop (i := 2) (j := 4), haddress]
    rfl
  constructor
  · rw [hline, List.take_left' (Hex.length_digits 4 _)]
  · rw [haddress]
    rfl
  · rw [hgap, List.take_left' hwidth, hbytes]
  · rw [← List.drop_drop (i := 8) (j := 6), hgap, List.drop_left' hwidth]

/-! ## Listings -/

/-- The numbers of bytes of the items that start among the `length` bytes from `start` on. -/
def itemSizes (code : Array UInt8) (start : UInt16) (length : Nat) : List Nat :=
  (itemStarts code start length).toList.map (sizeAt code)

/-- A listing covers its range without a gap and without an overlap: its lines show items of one or
two bytes, each of which starts where the one before it ends. Together they have as many bytes as
the range, or one more. The listing of a longer range from the same address starts with these
lines. -/
theorem listing_covers (code : Array UInt8) (start : UInt16) (length : Nat) :
    let lines := listing code start length
    let sizes := itemSizes code start length
    lines.size = sizes.length ∧
      (∀ index size, sizes[index]? = some size →
        let address := (start.toNat + (sizes.take index).sum) % 65536
        let item := Item.decode code (UInt16.ofNat address)
        size = item.length ∧ (size = 1 ∨ size = 2) ∧
          ∃ line, lines[index]? = some line ∧
            ShowsItem line address (bytesFrom code address size)
              (item.text (UInt16.ofNat address))) ∧
      (length ≤ sizes.sum ∧ sizes.sum ≤ length + 1 ∧ (length = 0 → sizes.sum = 0)) ∧
      ((length + 1) / 2 ≤ lines.size ∧ lines.size ≤ length) ∧
      ∀ longer, length ≤ longer → lines.toList <+: (listing code start longer).toList := by
  intro lines sizes
  have hitems := succession_itemStarts code start length
  have hcount : lines.size = (itemStarts code start length).toList.length := by
    simp [lines, listing]
  refine ⟨?_, ?_, hitems.sum_sizes, ?_, ?_⟩
  · rw [hcount]
    exact (List.length_map _).symm
  · intro index size hindex address item
    have hmap : ((itemStarts code start length).toList[index]?).map (sizeAt code) = some size := by
      rw [← List.getElem?_map]
      exact hindex
    obtain ⟨pc, hpc, rfl⟩ := Option.map_eq_some_iff.1 hmap
    -- the sizes of the items before it lead from the start to the item
    have haddress : address = pc.toNat := by
      rw [hitems.getElem?_eq hpc, toNat_add_ofNat, List.map_take]
      rfl
    have hitem : item = Item.decode code pc := by
      show Item.decode code (UInt16.ofNat address) = _
      rw [haddress, UInt16.ofNat_toNat]
    rw [hitem, haddress, UInt16.ofNat_toNat]
    refine ⟨rfl, (Item.decode code pc).length_eq, listingLine code pc, ?_,
      showsItem_listingLine code pc⟩
    rw [Array.getElem?_toList] at hpc
    show (listing code start length)[index]? = _
    unfold listing
    rw [Array.getElem?_map, hpc, Option.map_some]
  · rw [hcount]
    exact hitems.length_bounds
  · intro longer hle
    have hprefix := hitems.isPrefix (succession_itemStarts code start longer) hle
    show (listing code start length).toList <+: _
    unfold listing
    rw [Array.toList_map, Array.toList_map]
    exact hprefix.map (listingLine code)

/-- The listing starts at the last address, and its last instruction finds its operand past the end
of the code. -/
theorem listing_covers_past_the_end :
    let code : Array UInt8 := #[0x02, 0xA9]
    let sizes := itemSizes code 0xFFFF 3
    sizes = [1, 1, 2] ∧
      (∃ line, (listing code 0xFFFF 3)[2]? = some line ∧
        ShowsItem line 1 [0xA9, 0x00] "LDA #$00") ∧
      (listing code 0xFFFF 3).toList <+: (listing code 0xFFFF 70000).toList := by
  intro code sizes
  have hsizes : sizes = [1, 1, 2] := by decide +kernel
  obtain ⟨-, hlines, -, -, hprefix⟩ := listing_covers code 0xFFFF 3
  have hindex : sizes[2]? = some 2 := by rw [hsizes]; rfl
  obtain ⟨-, -, line, hline, hshows⟩ := hlines 2 2 hindex
  have haddress : ((0xFFFF : UInt16).toNat + (sizes.take 2).sum) % 65536 = 1 := by
    rw [hsizes]
    rfl
  have hbytes : bytesFrom code 1 2 = [0xA9, 0x00] := by decide
  have htext : (Item.decode code 1).text 1 = "LDA #$00" := by decide +kernel
  rw [haddress, hbytes] at hshows
  rw [← htext]
  exact ⟨hsizes, ⟨line, hline, hshows⟩, hprefix 70000 (by decide)⟩

end Cpu6502
