import Mathlib.Data.List.Forall2
import Mathlib.Data.List.Induction
import Mathlib.Data.List.Nodup
import Cpu6502.Proofs.Execution.Operation

/-! # Memory as a map

Memory is used through 32-bit addresses, by calls of which some fail. What it holds is told here
without it, from the changes that were asked for:

* `Memory.Change.Stores`: what a change puts at an address, if it succeeds and covers it;
* `Memory.Remembers`: the byte that was stored last at an address and not cleared since, or zero;
* `Memory.Represents`: what can be seen of a memory is what its history says.

A copy of a memory has the history of the original up to then and a history of its own from then on.
So if several memories are changed and copied in any order, every one of them represents its own
history (`Memory.memories_represent`).
-/

namespace Cpu6502

/-! ## Addresses that have a cell -/

theorem cell?_eq_ok_iff {address : UInt32} {cell : UInt16} :
    cell? address = .ok cell ↔ cell.toNat = address.toNat := by
  have hlt : address < 0x10000 ↔ address.toNat < 65536 := UInt32.lt_iff_toNat_lt
  have hcell := cell.toNat_lt
  unfold cell?
  simp only [hlt]
  by_cases h : address.toNat < 65536
  · have hnat : address.toUInt16.toNat = address.toNat := by
      rw [UInt32.toNat_toUInt16]
      omega
    rw [if_pos h, Except.ok.injEq, ← UInt16.toNat_inj, hnat]
    exact eq_comm
  · rw [if_neg h]
    constructor
    · intro hok
      cases hok
    · intro hsame
      omega

theorem cell?_eq_error_iff {address : UInt32} {e : OutOfBounds} :
    cell? address = .error e ↔ 65536 ≤ address.toNat ∧ e = ⟨address⟩ := by
  have hlt : address < 0x10000 ↔ address.toNat < 65536 := UInt32.lt_iff_toNat_lt
  unfold cell?
  simp only [hlt]
  by_cases h : address.toNat < 65536
  · rw [if_pos h]
    constructor
    · intro herror
      cases herror
    · rintro ⟨hle, -⟩
      omega
  · have hle : 65536 ≤ address.toNat := by omega
    rw [if_neg h, Except.error.injEq, and_iff_right hle]
    exact eq_comm

section

variable {α : Type} {f : UInt16 → α} {a : α} {address : UInt32} {e : OutOfBounds}

/-- What is made of a cell. -/
theorem map_cell?_eq_ok_iff :
    (cell? address).map f = .ok a ↔ ∃ cell : UInt16, cell.toNat = address.toNat ∧ f cell = a := by
  simp only [← cell?_eq_ok_iff]
  cases cell? address with
  | ok cell => simp [Except.map]
  | error e => simp [Except.map]

theorem map_cell?_eq_error_iff :
    (cell? address).map f = .error e ↔ 65536 ≤ address.toNat ∧ e = ⟨address⟩ := by
  rw [← cell?_eq_error_iff]
  cases cell? address with
  | ok cell => simp [Except.map]
  | error e => simp [Except.map]

end

namespace Memory

variable {m m' : Memory} {address start : UInt32} {value : UInt8} {bytes : List UInt8}
  {e : OutOfBounds}

theorem read_eq_map (m : Memory) (address : UInt32) :
    m.read address = (cell? address).map m.get := by
  unfold read
  cases cell? address with
  | ok cell => rfl
  | error e => rfl

theorem write_eq_map (m : Memory) (address : UInt32) (value : UInt8) :
    m.write address value = (cell? address).map fun cell => m.set cell value := by
  unfold write
  cases cell? address with
  | ok cell => rfl
  | error e => rfl

theorem read_eq_ok_iff :
    m.read address = .ok value ↔
      ∃ cell : UInt16, cell.toNat = address.toNat ∧ m.get cell = value := by
  rw [read_eq_map, map_cell?_eq_ok_iff]

theorem read_eq_error_iff : m.read address = .error e ↔ 65536 ≤ address.toNat ∧ e = ⟨address⟩ := by
  rw [read_eq_map, map_cell?_eq_error_iff]

theorem write_eq_ok_iff :
    m.write address value = .ok m' ↔
      ∃ cell : UInt16, cell.toNat = address.toNat ∧ m.set cell value = m' := by
  rw [write_eq_map, map_cell?_eq_ok_iff]

theorem write_eq_error_iff :
    m.write address value = .error e ↔ 65536 ≤ address.toNat ∧ e = ⟨address⟩ := by
  rw [write_eq_map, map_cell?_eq_error_iff]

theorem load_eq_ok_iff :
    m.load start bytes = .ok m' ↔
      start.toNat + bytes.length ≤ 65536 ∧ m.store start.toNat bytes = m' := by
  unfold load
  by_cases h : start.toNat + bytes.length ≤ 65536
  · rw [if_pos h, Except.ok.injEq, and_iff_right h]
  · rw [if_neg h]
    constructor
    · intro hok
      cases hok
    · rintro ⟨hle, -⟩
      exact absurd hle h

/-- Bytes that do not fit are refused with the first address that has no cell. -/
theorem load_eq_error_iff :
    m.load start bytes = .error e ↔
      65536 < start.toNat + bytes.length ∧ e.address.toNat = max 65536 start.toNat := by
  have hstart : start.toNat < 4294967296 := start.toNat_lt
  have hfirst : (UInt32.ofNat (max 65536 start.toNat)).toNat = max 65536 start.toNat := by
    rw [UInt32.toNat_ofNat']
    omega
  unfold load
  by_cases h : start.toNat + bytes.length ≤ 65536
  · rw [if_pos h]
    constructor
    · intro herror
      cases herror
    · rintro ⟨hlt, -⟩
      omega
  · have hlt : 65536 < start.toNat + bytes.length := by omega
    rw [if_neg h, and_iff_right hlt]
    constructor
    · intro herror
      cases herror
      exact hfirst
    · intro haddress
      rcases e with ⟨address⟩
      congr 2
      apply UInt32.toNat_inj.1
      rw [hfirst]
      exact haddress.symm

/-! ## Changes -/

/-- What can be asked of a memory that may change it. -/
inductive Change where
  | write (address : UInt32) (value : UInt8)
  | load (start : UInt32) (bytes : List UInt8)
  | clear

/-- Asks for a change. -/
def attempt (m : Memory) : Change → Except OutOfBounds Memory
  | .write address value => m.write address value
  | .load start bytes => m.load start bytes
  | .clear => .ok m.clear

/-- The memory after a change was asked for. -/
def after (m : Memory) (change : Change) : Memory :=
  match m.attempt change with
  | .ok m' => m'
  | .error _ => m

/-- The memory after several changes were asked for, if it was zeroed before. -/
def replay (history : List Change) : Memory :=
  history.foldl after zeroed

/-- The change succeeds and stores this byte at the address. -/
inductive Change.Stores (address : Nat) (value : UInt8) : Change → Prop where
  | write {target : UInt32} (inside : target.toNat < 65536) (same : address = target.toNat) :
      Stores address value (.write target value)
  | load {start : UInt32} {bytes : List UInt8} {index : Nat}
      (inside : start.toNat + bytes.length ≤ 65536) (covered : bytes[index]? = some value)
      (same : address = start.toNat + index) : Stores address value (.load start bytes)

/-- The change does not concern the address. -/
def Change.Passes (address : Nat) (change : Change) : Prop :=
  change ≠ .clear ∧ ∀ value, ¬change.Stores address value

/-- The byte at an address, as the changes tell that were asked for, the oldest first. -/
inductive Remembers (address : Nat) : List Change → UInt8 → Prop where
  | stored {before since : List Change} {change : Change} {value : UInt8}
      (stores : change.Stores address value)
      (since_passes : ∀ later ∈ since, later.Passes address) :
      Remembers address (before ++ change :: since) value
  | cleared {before since : List Change} (since_passes : ∀ later ∈ since, later.Passes address) :
      Remembers address (before ++ .clear :: since) 0
  | never {history : List Change} (history_passes : ∀ change ∈ history, change.Passes address) :
      Remembers address history 0

section

variable {change : Change} {cell : UInt16} {history since : List Change}

theorem Remembers.snoc {address : Nat} (h : Remembers address history value)
    (hpasses : change.Passes address) : Remembers address (history ++ [change]) value := by
  have hall : ∀ {changes : List Change}, (∀ later ∈ changes, later.Passes address) →
      ∀ later ∈ changes ++ [change], later.Passes address := by
    intro changes hchanges
    exact List.forall_mem_append.2 ⟨hchanges, List.forall_mem_singleton.2 hpasses⟩
  cases h with
  | stored stores since_passes =>
    rw [List.append_assoc, List.cons_append]
    exact .stored stores (hall since_passes)
  | cleared since_passes =>
    rw [List.append_assoc, List.cons_append]
    exact .cleared (hall since_passes)
  | never history_passes => exact .never (hall history_passes)

/-! ## One change -/

theorem get_after_of_stores (m : Memory) (h : change.Stores cell.toNat value) :
    (m.after change).get cell = value := by
  unfold after
  cases h with
  | write inside same =>
    have hwrite : m.attempt (.write _ value) = .ok (m.set cell value) :=
      write_eq_ok_iff.2 ⟨cell, same, rfl⟩
    rw [hwrite]
    exact m.get_set_self cell value
  | load inside covered same =>
    have hload : m.attempt (.load _ _) = .ok (m.store _ _) := load_eq_ok_iff.2 ⟨inside, rfl⟩
    rw [hload]
    dsimp only
    rw [get_store, if_pos (by omega), same, Nat.add_sub_cancel_left, covered]
    rfl

theorem get_after_clear (m : Memory) (cell : UInt16) : (m.after .clear).get cell = 0 :=
  get_zeroed cell

theorem get_after_of_passes (m : Memory) (h : change.Passes cell.toNat) :
    (m.after change).get cell = m.get cell := by
  rcases h with ⟨hclear, hstores⟩
  unfold after
  cases change with
  | clear => exact absurd rfl hclear
  | write target value =>
    show (match m.write target value with | .ok m' => m' | .error _ => m).get cell = _
    cases hwrite : m.write target value with
    | error e => rfl
    | ok m' =>
      rcases write_eq_ok_iff.1 hwrite with ⟨other, htarget, rfl⟩
      by_cases hother : other = cell
      · -- the change would store in the cell
        subst hother
        exact absurd (.write (htarget ▸ other.toNat_lt) htarget) (hstores value)
      · exact (m.get_set other cell value).trans (if_neg hother)
  | load start bytes =>
    show (match m.load start bytes with | .ok m' => m' | .error _ => m).get cell = _
    cases hload : m.load start bytes with
    | error e => rfl
    | ok m' =>
      rcases load_eq_ok_iff.1 hload with ⟨hfits, rfl⟩
      dsimp only
      rw [get_store]
      by_cases hstart : start.toNat ≤ cell.toNat
      · rw [if_pos hstart]
        cases hbyte : bytes[cell.toNat - start.toNat]? with
        | none => rfl
        | some value => exact absurd (.load hfits hbyte (by omega)) (hstores value)
      · rw [if_neg hstart]

/-- A change that fails leaves every cell as it was. -/
theorem after_of_attempt_eq_error (h : m.attempt change = .error e) : m.after change = m := by
  unfold after
  rw [h]

/-! ## Any number of changes -/

theorem replay_concat (history : List Change) (change : Change) :
    replay (history ++ [change]) = (replay history).after change := by
  unfold replay
  rw [List.foldl_append, List.foldl_cons, List.foldl_nil]

theorem get_foldl_of_passes (m : Memory) (h : ∀ later ∈ since, later.Passes cell.toNat) :
    (since.foldl after m).get cell = m.get cell := by
  induction since generalizing m with
  | nil => rfl
  | cons change rest ih =>
    rcases List.forall_mem_cons.1 h with ⟨hfirst, hrest⟩
    rw [List.foldl_cons, ih (m.after change) hrest, get_after_of_passes m hfirst]

/-- A cell holds what is remembered of its address, and nothing else is. -/
theorem get_replay_eq_iff :
    (replay history).get cell = value ↔ Remembers cell.toNat history value := by
  constructor
  · intro h
    subst h
    -- the last change stores in the cell, or clears it, or does not concern it
    induction history using List.reverseRecOn with
    | nil =>
      have hzero : (replay []).get cell = 0 := get_zeroed cell
      rw [hzero]
      exact .never (List.forall_mem_nil _)
    | append_singleton history change ih =>
      rw [replay_concat]
      by_cases hclear : change = .clear
      · rw [hclear, get_after_clear]
        exact .cleared (List.forall_mem_nil _)
      · by_cases hstores : ∃ value, change.Stores cell.toNat value
        · rcases hstores with ⟨value, hvalue⟩
          rw [get_after_of_stores _ hvalue]
          exact .stored hvalue (List.forall_mem_nil _)
        · have hpasses : change.Passes cell.toNat := ⟨hclear, not_exists.1 hstores⟩
          rw [get_after_of_passes _ hpasses]
          exact ih.snoc hpasses
  · intro h
    unfold replay
    cases h with
    | stored stores since_passes =>
      rw [List.foldl_append, List.foldl_cons, get_foldl_of_passes _ since_passes,
        get_after_of_stores _ stores]
    | cleared since_passes =>
      rw [List.foldl_append, List.foldl_cons, get_foldl_of_passes _ since_passes, get_after_clear]
    | never history_passes => rw [get_foldl_of_passes _ history_passes, get_zeroed]

end

/-! ## Cells that hold something -/

/-- The cells, by ascending address. -/
theorem toList_cells (m : Memory) :
    m.cells.toList = (List.range 65536).map fun address => m.get (UInt16.ofNat address) := by
  apply List.ext_getElem
  · rw [Vector.length_toList, List.length_map, List.length_range]
  · intro index hindex _
    rw [Vector.length_toList] at hindex
    have hcell : (UInt16.ofNat index).toNat = index := UInt16.toNat_ofNat_of_lt hindex
    rw [Vector.getElem_toList, List.getElem_map, List.getElem_range]
    unfold get
    simp only [hcell]

/-- As many addresses read as something other than zero as there are cells that hold it. -/
theorem exists_addresses (m : Memory) :
    ∃ addresses : List UInt32, addresses.Nodup ∧ addresses.length = m.nonZero ∧
      ∀ address, address ∈ addresses ↔ ∃ value, m.read address = .ok value ∧ value ≠ 0 := by
  let holding := (List.range 65536).filter fun address => m.get (UInt16.ofNat address) ≠ 0
  have hword : ∀ {address : Nat}, address < 65536 → (UInt32.ofNat address).toNat = address := by
    intro address haddress
    rw [UInt32.toNat_ofNat']
    omega
  have hholding : ∀ {address : Nat}, address ∈ holding →
      address < 65536 ∧ m.get (UInt16.ofNat address) ≠ 0 := by
    intro address haddress
    rcases List.mem_filter.1 haddress with ⟨hrange, hvalue⟩
    exact ⟨List.mem_range.1 hrange, of_decide_eq_true hvalue⟩
  refine ⟨holding.map UInt32.ofNat, ?_, ?_, ?_⟩
  · refine List.Nodup.map_on ?_ (List.nodup_range.filter _)
    intro address haddress address' haddress' hsame
    rw [← hword (hholding haddress).1, hsame, hword (hholding haddress').1]
  · unfold nonZero
    rw [List.length_map, ← List.countP_eq_length_filter, ← Vector.countP_toList, toList_cells,
      List.countP_map]
    rfl
  · intro address
    constructor
    · intro hmem
      rcases List.mem_map.1 hmem with ⟨index, hindex, rfl⟩
      rcases hholding hindex with ⟨hlt, hvalue⟩
      refine ⟨_, read_eq_ok_iff.2 ⟨UInt16.ofNat index, ?_, rfl⟩, hvalue⟩
      rw [hword hlt]
      exact UInt16.toNat_ofNat_of_lt hlt
    · rintro ⟨value, hread, hvalue⟩
      rcases read_eq_ok_iff.1 hread with ⟨cell, hcell, rfl⟩
      refine List.mem_map.2 ⟨cell.toNat, List.mem_filter.2 ⟨?_, ?_⟩, ?_⟩
      · exact List.mem_range.2 cell.toNat_lt
      · rw [UInt16.ofNat_toNat]
        exact decide_eq_true hvalue
      · rw [hcell]
        exact UInt32.ofNat_toNat

end Memory

/-! ## Memory in a processor -/

section

variable {σ α β : Type} {engine : Engine σ} {s s' : Session σ} {fault : Fault}

theorem Watched.of_map_eq_error {f : α → β} {x : Watched σ α} (h : (f <$> x) s = .error fault s') :
    x s = .error fault s' := by
  change EStateM.map f x s = _ at h
  unfold EStateM.map at h
  cases hx : x s with
  | ok a t =>
    rw [hx] at h
    cases h
  | error fault' t =>
    rw [hx] at h
    cases h
    rfl

/-- An operation that is refused because of an address leaves everything as it was. -/
theorem Engine.eq_of_refused {op : Operation} {cause : OutOfBounds}
    (h : engine.perform op s = .error (.memory cause) s') : s' = s := by
  cases op with
  | load program origin =>
    have hload := Watched.of_map_eq_error h
    rw [load_apply] at hload
    cases hresult : s.cpu.load program origin with
    | ok cpu =>
      rw [hresult] at hload
      cases hload
    | error cause' =>
      rw [hresult] at hload
      cases hload
      rfl
  | write address value =>
    have hwrite := Watched.of_map_eq_error h
    rw [write_watched] at hwrite
    cases hcell : cell? address with
    | ok cell =>
      rw [hcell] at hwrite
      cases hwrite
    | error cause' =>
      rw [hcell] at hwrite
      cases hwrite
      rfl
  | fetch =>
    have hfetch := Watched.of_map_eq_error h
    rw [fetch_watched] at hfetch
    cases hfetch
  | step =>
    -- the faults of instructions have other causes
    rcases fault_of_step_eq_error (Watched.of_map_eq_error h) with ⟨-, ⟨-, hfault, -⟩ | ⟨hfault, -⟩⟩
    · cases hfault
    · cases hfault
  | run origin limit =>
    have hrun := Watched.of_map_eq_error h
    cases running : s.cpu.isHalted with
    | true =>
      rw [engine.run_of_isHalted origin limit s running] at hrun
      cases hrun
    | false =>
      rcases engine.exists_account origin limit s running with ⟨events, t, account⟩
      have hends := account.ends
      rw [hrun] at hends
      cases hends with
      | failed unreached failure =>
        rcases fault_of_step_eq_error failure with ⟨-, ⟨-, hfault, -⟩ | ⟨hfault, -⟩⟩
        · cases hfault
        · cases hfault
  | reset origin => cases Watched.of_map_eq_error h
  | edit registers flags => cases Watched.of_map_eq_error h

end

namespace Memory

/-! ## Several memories -/

/-- What can be done with memories, which are numbered as they come into being. -/
inductive Action where
  | change (number : Nat) (change : Change)
  /-- A copy comes into being. -/
  | clone (number : Nat)

/-- Applies an action to things that are numbered like the memories. -/
def Action.apply {α : Type} (changed : α → Change → α) (things : List α) : Action → List α
  | .change number asked => things.modify number (changed · asked)
  | .clone number => things ++ things[number]?.toList

/-- The memories that there are after some actions, if there was one before and it was zeroed. -/
def memories (actions : List Action) : List Memory :=
  actions.foldl (Action.apply after) [zeroed]

/-- The history of each of these memories: the changes that were asked of it and, before it was
copied, of that of which it is a copy. -/
def histories (actions : List Action) : List (List Change) :=
  actions.foldl (Action.apply fun history change => history ++ [change]) [[]]

theorem Action.apply_map_replay (action : Action) (histories : List (List Change)) :
    action.apply after (histories.map replay) =
      (action.apply (fun history change => history ++ [change]) histories).map replay := by
  cases action with
  | change number change =>
    apply List.ext_getElem?
    intro index
    simp only [apply, List.getElem?_modify, List.getElem?_map]
    cases histories[index]? with
    | none => rfl
    | some history =>
      by_cases hnumber : number = index
      · simp [hnumber, replay_concat]
      · simp [hnumber]
  | clone number =>
    simp only [apply, List.map_append, List.getElem?_map]
    cases histories[number]? with
    | none => rfl
    | some history => rfl

/-- Every memory is what its history makes of a zeroed one. -/
theorem memories_eq_map_replay (actions : List Action) :
    memories actions = (histories actions).map replay := by
  have hall : ∀ histories : List (List Change),
      actions.foldl (Action.apply after) (histories.map replay) =
        (actions.foldl (Action.apply fun history change => history ++ [change]) histories).map
          replay := by
    induction actions with
    | nil =>
      intro histories
      rfl
    | cons action actions ih =>
      intro histories
      rw [List.foldl_cons, List.foldl_cons, action.apply_map_replay, ih]
  exact hall [[]]

/-- What can be seen of a memory is what its history says. -/
structure Represents (m : Memory) (history : List Change) : Prop where
  size : m.bytes.size = 65536
  read : ∀ address value, m.read address = .ok value ↔
    address.toNat < 65536 ∧ Remembers address.toNat history value
  read_fails : ∀ address e, m.read address = .error e ↔ 65536 ≤ address.toNat ∧ e = ⟨address⟩
  write_fails : ∀ address value e, m.write address value = .error e ↔
    65536 ≤ address.toNat ∧ e = ⟨address⟩
  load_fails : ∀ start bytes e, m.load start bytes = .error e ↔
    65536 < start.toNat + bytes.length ∧ e.address.toNat = max 65536 start.toNat
  load_nil : ∀ start, m.load start [] = .ok m ↔ start.toNat ≤ 65536
  unchanged : ∀ change e, m.attempt change = .error e → m.after change = m
  /-- In a processor, too, an access that is refused changes nothing. -/
  refused : ∀ {σ : Type} (engine : Engine σ) (s s' : Session σ) (op : Operation)
    (cause : OutOfBounds), s.cpu.memory = m →
      engine.perform op s = .error (.memory cause) s' → s' = s
  /-- The count that is shown is that of the addresses that do not read as zero. -/
  inspect : ∃ addresses : List UInt32, addresses.Nodup ∧
    (∀ address, address ∈ addresses ↔ ∃ value, m.read address = .ok value ∧ value ≠ 0) ∧
    m.inspect = s!"Memory \x7b size: 65536, non_zero: {addresses.length} \x7d"

theorem represents_replay (history : List Change) : (replay history).Represents history := by
  constructor
  · exact (replay history).cells.size_toArray
  · intro address value
    rw [read_eq_ok_iff]
    constructor
    · rintro ⟨cell, hcell, hvalue⟩
      rw [← hcell]
      exact ⟨cell.toNat_lt, get_replay_eq_iff.1 hvalue⟩
    · rintro ⟨hlt, hremembers⟩
      have hcell : address.toUInt16.toNat = address.toNat := by
        rw [UInt32.toNat_toUInt16]
        omega
      rw [← hcell] at hremembers
      exact ⟨address.toUInt16, hcell, get_replay_eq_iff.2 hremembers⟩
  · intro address e
    exact read_eq_error_iff
  · intro address value e
    exact write_eq_error_iff
  · intro start bytes e
    exact load_eq_error_iff
  · intro start
    rw [load_eq_ok_iff]
    exact and_iff_left rfl
  · intro change e h
    exact after_of_attempt_eq_error h
  · intro σ engine s s' op cause _ h
    exact Engine.eq_of_refused h
  · rcases (replay history).exists_addresses with ⟨addresses, hnodup, hlength, hmem⟩
    have hsize : s!"Memory \x7b size: {65536}, non_zero: " =
        "Memory \x7b size: 65536, non_zero: " := by decide
    refine ⟨addresses, hnodup, hmem, ?_⟩
    rw [hlength]
    exact congrArg (· ++ toString (replay history).nonZero ++ " \x7d") hsize

/-- Memory is a map from addresses to bytes. After any changes and copies, in any order and with any
arguments, whether they succeed or fail, every memory represents its own history. -/
theorem memories_represent (actions : List Action) :
    List.Forall₂ Represents (memories actions) (histories actions) := by
  rw [memories_eq_map_replay, List.forall₂_map_left_iff, List.forall₂_same]
  intro history _
  exact represents_replay history

end Memory

end Cpu6502
