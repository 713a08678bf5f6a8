import Mathlib.Data.Nat.Digits.Defs
import Cpu6502.Proofs.Execution.Arithmetic
import Cpu6502.Proofs.Execution.StraightLine

/-! # Numbers of many bytes

A program adds two numbers of many bytes by adding their bytes, the lowest first: it loads a byte of
the one number and adds the byte of the other to it, and the carry flag hands on to the next bytes
what did not fit. Between these instructions others may stand that neither change the accumulator
nor the carry, such as those that put the results away.

`ByteAddition.performed` says what the instructions for one pair of bytes come to: a single
`addWithCarry`. By induction on the bytes the results and the last carry are then the exact sum
(`sum_of_performs`), and the flags N and V are those of the whole numbers, since a number has the
sign of its highest byte (`Engine.adds_many_bytes`).
-/

namespace Cpu6502

open Instruction

/-! ## The numbers that bytes stand for -/

namespace Bytes

/-- The number that bytes stand for, the lowest of them first. -/
def unsigned (bytes : List UInt8) : Nat :=
  Nat.ofDigits 256 (bytes.map UInt8.toNat)

/-- The number that bytes stand for in two's complement, the lowest of them first. -/
def signed (bytes : List UInt8) : Int :=
  if 2 * unsigned bytes < 256 ^ bytes.length then unsigned bytes
  else unsigned bytes - (256 ^ bytes.length : Nat)

theorem unsigned_cons (low : UInt8) (rest : List UInt8) :
    unsigned (low :: rest) = low.toNat + 256 * unsigned rest :=
  rfl

theorem unsigned_concat (low : List UInt8) (top : UInt8) :
    unsigned (low ++ [top]) = unsigned low + 256 ^ low.length * top.toNat := by
  unfold unsigned
  rw [List.map_append, Nat.ofDigits_append, List.length_map, List.map_singleton,
    Nat.ofDigits_singleton]

theorem unsigned_lt (bytes : List UInt8) : unsigned bytes < 256 ^ bytes.length := by
  unfold unsigned
  rw [← List.length_map (f := UInt8.toNat)]
  apply Nat.ofDigits_lt_base_pow_length (by omega)
  intro digit hdigit
  rcases List.mem_map.1 hdigit with ⟨byte, -, rfl⟩
  exact byte.toNat_lt

/-- The highest byte has the sign. -/
theorem signed_concat (low : List UInt8) (top : UInt8) :
    signed (low ++ [top]) = unsigned low + (256 ^ low.length : Nat) * top.toInt8.toInt := by
  have hlow := unsigned_lt low
  unfold signed
  rw [unsigned_concat, toInt_toInt8, List.length_append, List.length_singleton, Nat.pow_succ]
  generalize 256 ^ low.length = weight at hlow
  by_cases hsign : top.toNat < 128
  · have hle : weight * top.toNat ≤ weight * 127 := Nat.mul_le_mul_left weight (by omega)
    rw [if_pos hsign, if_pos (by omega), Int.natCast_add, Int.natCast_mul]
  · have hle : weight * 128 ≤ weight * top.toNat := Nat.mul_le_mul_left weight (by omega)
    rw [if_neg hsign, if_neg (by omega), Int.natCast_add, Int.natCast_mul, Int.mul_sub]
    omega

/-- Whether a number has room in two's complement shows in its highest byte. -/
theorem room_iff_top {low weight : Nat} (hlow : low < weight) (top : Int) :
    (-(weight * 256 : Nat) ≤ 2 * ((low : Int) + weight * top) ∧
        2 * ((low : Int) + weight * top) < (weight * 256 : Nat)) ↔ -128 ≤ top ∧ top ≤ 127 := by
  have hmono : ∀ {a b : Int}, a ≤ b → (weight : Int) * a ≤ weight * b :=
    fun h => Int.mul_le_mul_of_nonneg_left h (Int.natCast_nonneg weight)
  constructor
  · rintro ⟨hleast, hgreatest⟩
    constructor
    · apply Int.le_of_not_gt
      intro hlt
      have hbelow := hmono (show top ≤ -129 by omega)
      omega
    · apply Int.le_of_not_gt
      intro hlt
      have habove := hmono (show 128 ≤ top by omega)
      omega
  · rintro ⟨hleast, hgreatest⟩
    have habove := hmono hleast
    have hbelow := hmono hgreatest
    constructor
    · omega
    · omega

/-- The highest byte has the sign bit. -/
theorem testBit_unsigned_concat (low : List UInt8) (top : UInt8) :
    (unsigned (low ++ [top])).testBit (8 * (low.length + 1) - 1) = top.toNat.testBit 7 := by
  have hlow := unsigned_lt low
  have hweight : 256 ^ low.length = 2 ^ (8 * low.length) := by
    rw [Nat.pow_mul]
  rw [unsigned_concat, hweight, Nat.add_comm, Nat.testBit_two_pow_mul_add _ (hweight ▸ hlow),
    if_neg (by omega)]
  congr 1
  omega

end Bytes

open Bytes

/-! ## Instructions that add -/

/-- Holds of the mnemonics that change neither the accumulator nor the carry and go on to the next
instruction. -/
def Mnemonic.isAside : Mnemonic → Bool
  | .nop | .sta | .inc => true
  | .brk | .clc | .sec | .lda | .adc | .cmp | .bcc | .bcs => false

namespace Encoded

/-- Holds of the cell from which the instruction takes a summand. -/
def Takes (e : Encoded) (cell : UInt16) : Prop :=
  (e.row.mnemonic = .lda ∨ e.row.mnemonic = .adc) ∧ e.row.mode = .zeroPage ∧
    cell = e.operand.toUInt16

/-- An instruction that takes a summand has an operand byte. -/
theorem not_implied {e : Encoded} (h : e.row.mnemonic = .lda ∨ e.row.mnemonic = .adc) :
    e.row.mode ≠ .implied := by
  intro hmode
  have haccepts := accepts_of_mem e.mem_table
  rcases h with hm | hm
  · simp [hm, hmode, Mnemonic.accepts] at haccepts
  · simp [hm, hmode, Mnemonic.accepts] at haccepts

end Encoded

/-- No instruction writes to a cell from which a later one takes a summand. -/
def Undisturbed (program : List Encoded) : Prop :=
  program.Pairwise fun e e' => ∀ cell, e.Stores cell → ¬ e'.Takes cell

/-- The instructions that add two bytes, and others among them. -/
structure ByteAddition where
  before : List Encoded
  load : Encoded
  between : List Encoded
  add : Encoded
  before_aside : ∀ e ∈ before, e.row.mnemonic.isAside = true
  loads : load.row.mnemonic = .lda
  between_aside : ∀ e ∈ between, e.row.mnemonic.isAside = true
  adds : add.row.mnemonic = .adc

namespace ByteAddition

/-- The instructions in the order in which they are performed. -/
def instructions (d : ByteAddition) : List Encoded :=
  d.before ++ d.load :: (d.between ++ [d.add])

/-- The instructions for several pairs of bytes. -/
def program (digits : List ByteAddition) : List Encoded :=
  digits.flatMap instructions

/-- The number that the loaded bytes make up. -/
def firsts (digits : List ByteAddition) (memory : Memory) : List UInt8 :=
  digits.map (·.load.valueIn memory)

/-- The number that the added bytes make up. -/
def seconds (digits : List ByteAddition) (memory : Memory) : List UInt8 :=
  digits.map (·.add.valueIn memory)

theorem firsts_cons (d : ByteAddition) (digits : List ByteAddition) (memory : Memory) :
    firsts (d :: digits) memory = d.load.valueIn memory :: firsts digits memory :=
  rfl

theorem seconds_cons (d : ByteAddition) (digits : List ByteAddition) (memory : Memory) :
    seconds (d :: digits) memory = d.add.valueIn memory :: seconds digits memory :=
  rfl

/-- The accumulator after each of the additions. -/
def results (cpu : Processor) : List ByteAddition → List UInt8
  | [] => []
  | d :: digits =>
    let last := cpu.after d.instructions.length
    last.registers.a :: results last digits

theorem firsts_concat (low : List ByteAddition) (d : ByteAddition) (memory : Memory) :
    firsts (low ++ [d]) memory = firsts low memory ++ [d.load.valueIn memory] :=
  List.map_append

theorem seconds_concat (low : List ByteAddition) (d : ByteAddition) (memory : Memory) :
    seconds (low ++ [d]) memory = seconds low memory ++ [d.add.valueIn memory] :=
  List.map_append

theorem length_firsts (digits : List ByteAddition) (memory : Memory) :
    (firsts digits memory).length = digits.length :=
  List.length_map _

theorem length_seconds (digits : List ByteAddition) (memory : Memory) :
    (seconds digits memory).length = digits.length :=
  List.length_map _

theorem length_results (cpu : Processor) (digits : List ByteAddition) :
    (results cpu digits).length = digits.length := by
  induction digits generalizing cpu with
  | nil => rfl
  | cons d digits ih => rw [results, List.length_cons, List.length_cons, ih]

theorem results_append (cpu : Processor) (digits digits' : List ByteAddition) :
    results cpu (digits ++ digits') =
      results cpu digits ++ results (cpu.after (program digits).length) digits' := by
  induction digits generalizing cpu with
  | nil => rfl
  | cons d digits ih =>
    rw [List.cons_append, results, results, ih, List.cons_append, ← Processor.after_add]
    unfold program
    rw [List.flatMap_cons, List.length_append]

theorem program_append (digits digits' : List ByteAddition) :
    program (digits ++ digits') = program digits ++ program digits' :=
  List.flatMap_append

theorem program_singleton (d : ByteAddition) : program [d] = d.instructions :=
  List.append_nil _

/-- Nothing in an addition branches or halts. -/
theorem straight_of_mem_program {digits : List ByteAddition} {e : Encoded}
    (he : e ∈ program digits) : e.row.mnemonic.isStraight = true := by
  have haside : ∀ m : Mnemonic, m.isAside = true → m.isStraight = true := by
    intro m
    cases m <;> decide
  rcases List.mem_flatMap.1 he with ⟨d, -, hd⟩
  unfold instructions at hd
  rcases List.mem_append.1 hd with hbefore | hothers
  · exact haside _ (d.before_aside e hbefore)
  · rcases List.mem_cons.1 hothers with rfl | hothers
    · rw [d.loads]
      rfl
    · rcases List.mem_append.1 hothers with hbetween | hadd
      · exact haside _ (d.between_aside e hbetween)
      · rw [List.mem_singleton.1 hadd, d.adds]
        rfl

end ByteAddition

/-! ## What they come to -/

namespace Engine

variable {σ : Type} {engine : Engine σ} {s t : Session σ} {program : List Encoded} {e : Encoded}

/-- The summand of an instruction is as before where the others do not write to it. -/
theorem Performs.valueIn_eq (h : engine.Performs s program t)
    (summand : e.row.mnemonic = .lda ∨ e.row.mnemonic = .adc)
    (apart : ∀ e' ∈ program, ∀ cell, e'.Stores cell → ¬ e.Takes cell) :
    e.valueIn t.cpu.memory = e.valueIn s.cpu.memory := by
  unfold Encoded.valueIn
  by_cases hmode : e.row.mode = .zeroPage
  · rw [if_pos hmode, if_pos hmode]
    apply h.get_memory
    intro e' he' hstores
    exact apart e' he' _ hstores ⟨summand, hmode, rfl⟩
  · rw [if_neg hmode, if_neg hmode]

/-- The numbers that are still to be added are as before where nothing writes to them. -/
theorem Performs.firsts_eq (h : engine.Performs s program t) {digits : List ByteAddition}
    (apart : ∀ e ∈ program, ∀ e' ∈ ByteAddition.program digits, ∀ cell, e.Stores cell →
      ¬ e'.Takes cell) :
    ByteAddition.firsts digits t.cpu.memory = ByteAddition.firsts digits s.cpu.memory := by
  apply List.map_congr_left
  intro d hd
  apply h.valueIn_eq (Or.inl d.loads)
  intro e he
  refine apart e he d.load (List.mem_flatMap.2 ⟨d, hd, ?_⟩)
  exact List.mem_append_right _ List.mem_cons_self

theorem Performs.seconds_eq (h : engine.Performs s program t) {digits : List ByteAddition}
    (apart : ∀ e ∈ program, ∀ e' ∈ ByteAddition.program digits, ∀ cell, e.Stores cell →
      ¬ e'.Takes cell) :
    ByteAddition.seconds digits t.cpu.memory = ByteAddition.seconds digits s.cpu.memory := by
  apply List.map_congr_left
  intro d hd
  apply h.valueIn_eq (Or.inr d.adds)
  intro e he
  refine apart e he d.add (List.mem_flatMap.2 ⟨d, hd, ?_⟩)
  refine List.mem_append_right _ (List.mem_cons_of_mem _ ?_)
  exact List.mem_append_right _ (List.mem_singleton_self _)

/-- The processor that instructions leave is told by their number. -/
theorem Performs.cpu_eq_after (h : engine.Performs s program t) :
    t.cpu = s.cpu.after program.length := by
  rcases h.executes with ⟨events, hexecutes, hlength⟩
  rw [← hlength]
  exact hexecutes.after.1

/-- Instructions that stand among those of an addition leave the accumulator and the carry. -/
theorem Performs.of_aside (h : engine.Performs s program t)
    (aside : ∀ e ∈ program, e.row.mnemonic.isAside = true) :
    t.cpu.registers.a = s.cpu.registers.a ∧ t.cpu.flags.c = s.cpu.flags.c := by
  induction program generalizing s with
  | nil =>
    cases h
    exact ⟨rfl, rfl⟩
  | cons e program ih =>
    rcases h.of_cons with ⟨-, hrest⟩
    rcases List.forall_mem_cons.1 aside with ⟨hfirst, hothers⟩
    rcases ih hrest hothers with ⟨ha, hc⟩
    have hkeeps : (s.cpu.effect e.row).registers.a = s.cpu.registers.a ∧
        (s.cpu.effect e.row).flags.c = s.cpu.flags.c := by
      unfold Processor.effect
      cases hm : e.row.mnemonic with
      | nop | sta | inc => exact ⟨rfl, rfl⟩
      | _ =>
        rw [hm] at hfirst
        cases hfirst
    exact ⟨ha.trans hkeeps.1, hc.trans hkeeps.2⟩

/-- The instructions for one pair of bytes come to adding the one to the other. -/
theorem performed {d : ByteAddition} (h : engine.Performs s d.instructions t)
    (undisturbed : Undisturbed d.instructions) :
    ∃ cpu : Processor, cpu.registers.a = d.load.valueIn s.cpu.memory ∧
      cpu.flags.c = s.cpu.flags.c ∧
      let sum := cpu.addWithCarry (d.add.valueIn s.cpu.memory)
      t.cpu.registers.a = sum.registers.a ∧ t.cpu.flags = sum.flags := by
  have hparts : d.instructions = (d.before ++ d.load :: d.between) ++ [d.add] := by
    unfold ByteAddition.instructions
    rw [List.append_assoc, List.cons_append]
  rw [hparts] at h undisturbed
  rcases performs_append_iff.1 h with ⟨v, hearlier, hadd⟩
  rcases performs_append_iff.1 hearlier with ⟨u, hbefore, hload⟩
  rcases hload.of_cons with ⟨hloaded, hbetween⟩
  rcases hadd.of_cons with ⟨hadded, hdone⟩
  cases hdone
  -- neither summand is written to before it is taken
  rcases List.pairwise_append.1 undisturbed with ⟨hfirst, -, happart⟩
  rcases List.pairwise_append.1 hfirst with ⟨-, -, happart'⟩
  have hx : d.load.valueIn u.cpu.memory = d.load.valueIn s.cpu.memory :=
    hbefore.valueIn_eq (Or.inl d.loads) fun e he => happart' e he d.load List.mem_cons_self
  have hy : d.add.valueIn v.cpu.memory = d.add.valueIn s.cpu.memory :=
    hearlier.valueIn_eq (Or.inr d.adds) fun e he => happart e he d.add (List.mem_singleton_self _)
  rcases hbefore.of_aside d.before_aside with ⟨-, hcarry⟩
  rcases hbetween.of_aside d.between_aside with ⟨ha, hc⟩
  have hloads : u.cpu.effect d.load.row = u.cpu.loadAccumulator (d.load.valueIn s.cpu.memory) := by
    rw [← hx, ← d.load.operandValue_of_holds hloaded (d.load.not_implied (Or.inl d.loads))]
    unfold Processor.effect
    rw [d.loads]
  have hadds : v.cpu.effect d.add.row = v.cpu.addWithCarry (d.add.valueIn s.cpu.memory) := by
    rw [← hy, ← d.add.operandValue_of_holds hadded (d.add.not_implied (Or.inr d.adds))]
    unfold Processor.effect
    rw [d.adds]
  rw [Processor.next_a, hloads] at ha
  rw [Processor.next_flags, hloads] at hc
  refine ⟨v.cpu, ha, hc.trans hcarry, ?_, ?_⟩
  · rw [Processor.next_a, hadds]
  · rw [Processor.next_flags, hadds]

/-- The results and the carry are the exact sum. -/
theorem sum_of_performs {digits : List ByteAddition}
    (h : engine.Performs s (ByteAddition.program digits) t)
    (undisturbed : Undisturbed (ByteAddition.program digits)) :
    unsigned (ByteAddition.results s.cpu digits) + 256 ^ digits.length * t.cpu.flags.c.toNat =
      unsigned (ByteAddition.firsts digits s.cpu.memory) +
        unsigned (ByteAddition.seconds digits s.cpu.memory) + s.cpu.flags.c.toNat := by
  induction digits generalizing s with
  | nil =>
    cases h
    show 0 + 1 * _ = 0 + 0 + _
    omega
  | cons d digits ih =>
    unfold ByteAddition.program at h undisturbed
    rw [List.flatMap_cons] at h undisturbed
    rcases performs_append_iff.1 h with ⟨u, hfirst, hothers⟩
    rcases List.pairwise_append.1 undisturbed with ⟨hd, hdigits, hapart⟩
    rcases performed hfirst hd with ⟨cpu, ha, hc, hresult, hflags⟩
    have hsum := cpu.addWithCarry_sum (d.add.valueIn s.cpu.memory)
    have hrest := ih hothers hdigits
    rw [hfirst.firsts_eq hapart, hfirst.seconds_eq hapart, hflags] at hrest
    rw [ha, hc, ← hresult] at hsum
    have hafter : s.cpu.after d.instructions.length = u.cpu := hfirst.cpu_eq_after.symm
    rw [ByteAddition.results, hafter]
    rw [ByteAddition.firsts_cons, ByteAddition.seconds_cons, unsigned_cons, unsigned_cons,
      unsigned_cons, List.length_cons, Nat.pow_succ', Nat.mul_assoc]
    omega

/-- What the instructions that add two numbers come to. -/
structure Adds (digits : List ByteAddition) (cpu last : Processor) : Prop where
  /-- The results and the last carry are the sum. -/
  sum : unsigned (ByteAddition.results cpu digits) +
      256 ^ digits.length * last.flags.c.toNat =
    unsigned (ByteAddition.firsts digits cpu.memory) +
      unsigned (ByteAddition.seconds digits cpu.memory) + cpu.flags.c.toNat
  /-- V says that the sum of the signed numbers has no room in as many bytes. -/
  overflow : last.flags.v = true ↔
    let sum := signed (ByteAddition.firsts digits cpu.memory) +
      signed (ByteAddition.seconds digits cpu.memory) + cpu.flags.c.toNat
    ¬ (-(256 ^ digits.length : Nat) ≤ 2 * sum ∧ 2 * sum < (256 ^ digits.length : Nat))
  /-- N is the sign bit of the results. -/
  sign : last.flags.n = (unsigned (ByteAddition.results cpu digits)).testBit (8 * digits.length - 1)

/-- The instructions for two numbers of at least one byte add them. -/
theorem Performs.adds {digits : List ByteAddition} (nonempty : digits ≠ [])
    (h : engine.Performs s (ByteAddition.program digits) t)
    (undisturbed : Undisturbed (ByteAddition.program digits)) : Adds digits s.cpu t.cpu := by
  have hsum := sum_of_performs h undisturbed
  rcases List.eq_nil_or_concat digits with rfl | ⟨low, d, rfl⟩
  · exact absurd rfl nonempty
  rw [List.concat_eq_append] at *
  rw [ByteAddition.program_append, ByteAddition.program_singleton] at h undisturbed
  rcases performs_append_iff.1 h with ⟨u, hlow, htop⟩
  rcases List.pairwise_append.1 undisturbed with ⟨hundisturbed, hd, hapart⟩
  rw [← ByteAddition.program_singleton] at hapart
  rcases performed htop hd with ⟨cpu, ha, hc, hresult, hflags⟩
  -- what the lower bytes leave to the highest
  have hcarried := sum_of_performs hlow hundisturbed
  have hx : d.load.valueIn u.cpu.memory = d.load.valueIn s.cpu.memory :=
    List.singleton_inj.1 (hlow.firsts_eq hapart)
  have hy : d.add.valueIn u.cpu.memory = d.add.valueIn s.cpu.memory :=
    List.singleton_inj.1 (hlow.seconds_eq hapart)
  have hresults : ByteAddition.results s.cpu (low ++ [d]) =
      ByteAddition.results s.cpu low ++ [t.cpu.registers.a] := by
    rw [ByteAddition.results_append, ← hlow.cpu_eq_after, ByteAddition.results,
      ← htop.cpu_eq_after, ByteAddition.results]
  have hlength : (ByteAddition.results s.cpu low).length = low.length :=
    ByteAddition.length_results s.cpu low
  have hlength' : (low ++ [d]).length = low.length + 1 := List.length_append
  refine ⟨hsum, ?_, ?_⟩
  · have hlt := unsigned_lt (ByteAddition.results s.cpu low)
    have hv := cpu.addWithCarry_v (d.add.valueIn u.cpu.memory)
    rw [ha, hc, hx, hy] at hv
    rw [hlength] at hlt
    -- the sum is the low bytes of the results and a multiple of the weight of the highest
    have htotal : signed (ByteAddition.firsts (low ++ [d]) s.cpu.memory) +
        signed (ByteAddition.seconds (low ++ [d]) s.cpu.memory) + s.cpu.flags.c.toNat =
          unsigned (ByteAddition.results s.cpu low) + (256 ^ low.length : Nat) *
            ((d.load.valueIn s.cpu.memory).toInt8.toInt +
              (d.add.valueIn s.cpu.memory).toInt8.toInt + u.cpu.flags.c.toNat) := by
      rw [ByteAddition.firsts_concat, ByteAddition.seconds_concat, signed_concat, signed_concat,
        ByteAddition.length_firsts, ByteAddition.length_seconds, Int.mul_add, Int.mul_add]
      have hcast := congrArg (Nat.cast (R := Int)) hcarried
      rw [Int.natCast_add, Int.natCast_mul, Int.natCast_add, Int.natCast_add] at hcast
      omega
    dsimp only at hv ⊢
    rw [hflags, hy, hv, decide_eq_true_iff, htotal, hlength', Nat.pow_succ, room_iff_top hlt]
  · have hbit := testBit_unsigned_concat (ByteAddition.results s.cpu low) t.cpu.registers.a
    rw [hlength] at hbit
    rw [hresults, hlength', hbit, hflags, hresult]
    exact Flags.withResult_n _ _

/-- Two numbers of at least one byte are added by loading the bytes of the one and adding those of
the other, the lowest first, from any carry on. This does not depend on where the instructions stand
when they are performed, nor on others among them that neither change the accumulator and the carry
nor write to a byte that is still to be added. A program of them that does not write to itself is
performed by a run from its first instruction. -/
theorem adds_many_bytes (engine : Engine σ) (s : Session σ) {digits : List ByteAddition}
    (nonempty : digits ≠ []) (undisturbed : Undisturbed (ByteAddition.program digits)) :
    (∀ t, engine.Performs s (ByteAddition.program digits) t → Adds digits s.cpu t.cpu) ∧
      ∀ origin : UInt16,
        let program := ByteAddition.program digits
        let bytes := program.flatMap Encoded.bytes
        s.cpu.isHalted = false → Holds s.cpu.memory.bytes origin bytes →
        (∀ e ∈ program, ∀ index < bytes.length, ¬ e.Stores (origin + UInt16.ofNat index)) →
        s.cpu.cycles.count.toNat + 7 * program.length < UInt64.size →
          ∃ t, engine.run origin (.steps program.length) s =
              .ok ⟨.limitReached, program.length, t.cpu.cycles⟩ t ∧
            Adds digits (s.cpu.jump origin) t.cpu := by
  refine ⟨fun t h => h.adds nonempty undisturbed, ?_⟩
  intro origin program bytes running holds apart room
  have hstraight : ∀ e ∈ program, e.row.mnemonic.isStraight = true :=
    fun e he => ByteAddition.straight_of_mem_program he
  rcases engine.exists_performs (s := engine.start origin (.steps program.length) s) hstraight
    running holds apart room with ⟨t, performs⟩
  rcases performs.traverses hstraight running room with ⟨events, traverses⟩
  have hexecutes := traverses.executes
  rw [← traverses.length] at hexecutes
  have hrun := run_steps_of_executes running hexecutes traverses.running
  rw [traverses.length] at hrun
  let ended : RunOutcome := ⟨.limitReached, program.length, t.cpu.cycles⟩
  exact ⟨⟨t.cpu, engine.log (.limitReached ended) t.seen⟩, hrun, performs.adds nonempty undisturbed⟩

/-- The instructions for `0x7FFF + 0x0001`, where three of the bytes are in cells and others are
written to meanwhile. -/
def overflowing : List ByteAddition :=
  [{ before := []
     load := ⟨⟨0xA5, .lda, .zeroPage, 3⟩, 0x0F, by decide⟩
     between := Encoded.sequence [(⟨0xEA, .nop, .implied, 2⟩, 0)] (by decide)
     add := ⟨⟨0x65, .adc, .zeroPage, 3⟩, 0x10, by decide⟩
     before_aside := by decide
     loads := rfl
     between_aside := by decide
     adds := rfl },
   { before := Encoded.sequence [(⟨0x85, .sta, .zeroPage, 3⟩, 0x10)] (by decide)
     load := ⟨⟨0xA5, .lda, .zeroPage, 3⟩, 0x11, by decide⟩
     between := Encoded.sequence [(⟨0xE6, .inc, .zeroPage, 5⟩, 0x12)] (by decide)
     add := ⟨⟨0x69, .adc, .immediate, 2⟩, 0x00, by decide⟩
     before_aside := by decide
     loads := rfl
     between_aside := by decide
     adds := rfl }]

/-- A processor with these bytes in its cells and the instructions at the end of its memory. -/
def overflowingLoaded : Processor :=
  { Processor.powerUp 0 with
    memory := (Memory.zeroed.store 0x0F [0xFF, 0x01, 0x7F]).store 0xFFF3
      ((ByteAddition.program overflowing).flatMap Encoded.bytes) }

theorem adds_many_bytes_of_overflow :
    (overflowing ≠ [] ∧ Undisturbed (ByteAddition.program overflowing) ∧
      Holds overflowingLoaded.memory.bytes 0xFFF3
        ((ByteAddition.program overflowing).flatMap Encoded.bytes)) ∧
      ∃ t, ({} : Engine Unit).run 0xFFF3 (.steps 7) ⟨overflowingLoaded, ()⟩ =
          .ok ⟨.limitReached, 7, t.cpu.cycles⟩ t ∧
        Adds overflowing (overflowingLoaded.jump 0xFFF3) t.cpu ∧ t.cpu.flags.v = true := by
  have hnonempty : overflowing ≠ [] := nofun
  have hundisturbed : Undisturbed (ByteAddition.program overflowing) := by
    simp [Undisturbed, ByteAddition.program, ByteAddition.instructions, overflowing,
      Encoded.sequence, Encoded.Stores, Encoded.Takes]
  have hload : (Memory.zeroed.store 0x0F [0xFF, 0x01, 0x7F]).load (0xFFF3 : UInt16).toUInt32
      ((ByteAddition.program overflowing).flatMap Encoded.bytes) =
        .ok overflowingLoaded.memory := rfl
  have hholds := Memory.holds_of_load hload
  have hapart : ∀ e ∈ ByteAddition.program overflowing,
      ∀ index < ((ByteAddition.program overflowing).flatMap Encoded.bytes).length,
        ¬ e.Stores (0xFFF3 + UInt16.ofNat index) := by
    have hlength : ((ByteAddition.program overflowing).flatMap Encoded.bytes).length = 13 := rfl
    have hstart : (0xFFF3 : UInt16).toNat = 65523 := rfl
    intro e he index hindex
    apply e.not_stores
    rw [UInt16.toNat_add, UInt16.toNat_ofNat']
    omega
  obtain ⟨-, hruns⟩ := adds_many_bytes {} ⟨overflowingLoaded, ()⟩ hnonempty hundisturbed
  rcases hruns 0xFFF3 rfl hholds hapart (by decide) with ⟨t, hrun, hadds⟩
  refine ⟨⟨hnonempty, hundisturbed, hholds⟩, t, hrun, hadds, hadds.overflow.2 ?_⟩
  have hfirsts : ByteAddition.firsts overflowing (overflowingLoaded.jump 0xFFF3).memory =
      [0xFF, 0x7F] := by
    simp [ByteAddition.firsts, overflowing, Encoded.valueIn, overflowingLoaded, Processor.jump,
      Memory.get_store]
  have hseconds : ByteAddition.seconds overflowing (overflowingLoaded.jump 0xFFF3).memory =
      [0x01, 0x00] := by
    simp [ByteAddition.seconds, overflowing, Encoded.valueIn, overflowingLoaded, Processor.jump,
      Memory.get_store]
  rw [hfirsts, hseconds]
  decide

end Engine

end Cpu6502
