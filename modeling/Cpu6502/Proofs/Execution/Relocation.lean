import Cpu6502.Proofs.Execution.Sequence
import Cpu6502.Proofs.Words

/-! # Code that is moved

Branches are relative and only page zero can be written, so code above page zero does the same at
any origin. Two processors that run the same code at two origins are related by `Relocated`, which
every instruction of the code preserves; only the price of a branch that leaves its page depends
on where the code stands.
-/

namespace Cpu6502

open Instruction

/-- The two processors differ at most in the program counter, the tick count and the memory above
page zero. -/
structure Processor.SameVisible (cpu cpu' : Processor) : Prop where
  a : cpu.registers.a = cpu'.registers.a
  x : cpu.registers.x = cpu'.registers.x
  y : cpu.registers.y = cpu'.registers.y
  sp : cpu.registers.sp = cpu'.registers.sp
  flags : cpu.flags = cpu'.flags
  state : cpu.state = cpu'.state
  pageZero : ∀ cell : UInt8, cpu.memory.get cell.toUInt16 = cpu'.memory.get cell.toUInt16

/-- The two processors have the same code of `length` bytes, the one at `origin` and the other at
`origin'`, and stand at the same place in it. -/
structure Processor.Relocated (origin origin' : UInt16) (length : Nat)
    (cpu cpu' : Processor) : Prop where
  visible : cpu.SameVisible cpu'
  code : ∀ k < length,
    cpu.memory.get (origin + UInt16.ofNat k) = cpu'.memory.get (origin' + UInt16.ofNat k)
  pc : cpu.registers.pc - origin = cpu'.registers.pc - origin'

namespace Processor

variable {origin origin' : UInt16} {length : Nat} {cpu cpu' : Processor} {i : Instruction}

/-! ## The same bytes -/

theorem Relocated.get_add (h : Relocated origin origin' length cpu cpu') {k : Nat}
    (hlow : origin.toNat ≤ cpu.registers.pc.toNat)
    (hhigh : cpu.registers.pc.toNat + k < origin.toNat + length) :
    cpu.memory.get (cpu.registers.pc + UInt16.ofNat k) =
      cpu'.memory.get (cpu'.registers.pc + UInt16.ofNat k) := by
  have hle : origin ≤ cpu.registers.pc := UInt16.le_iff_toNat_le.2 hlow
  have hoffset : cpu.registers.pc - origin =
      UInt16.ofNat (cpu.registers.pc.toNat - origin.toNat) := by
    rw [← UInt16.toNat_sub_of_le _ _ hle, UInt16.ofNat_toNat]
  have hcode := h.code (cpu.registers.pc.toNat - origin.toNat + k) (by omega)
  have hpc := h.pc
  rw [UInt16.ofNat_add, ← hoffset] at hcode
  -- the code is given from the origins on, and read from the program counters on
  have hleft : origin + (cpu.registers.pc - origin + UInt16.ofNat k) =
      cpu.registers.pc + UInt16.ofNat k := by grind
  have hright : origin' + (cpu.registers.pc - origin + UInt16.ofNat k) =
      cpu'.registers.pc + UInt16.ofNat k := by grind
  rw [hleft, hright] at hcode
  exact hcode

/-- An instruction inside the code has the same operand at both places. -/
theorem Relocated.operandByte (h : Relocated origin origin' length cpu cpu')
    (hmode : i.mode ≠ .implied) (hlow : origin.toNat ≤ cpu.registers.pc.toNat)
    (hhigh : cpu.registers.pc.toNat + i.size ≤ origin.toNat + length) :
    cpu.operandByte = cpu'.operandByte := by
  have hsize : i.size = 2 := by
    unfold Instruction.size
    cases hm : i.mode with
    | implied => exact absurd hm hmode
    | _ => rfl
  exact h.get_add (k := 1) hlow (by omega)

/-! ## The same effect -/

theorem SameVisible.operandValue (h : cpu.SameVisible cpu')
    (hoperand : cpu.operandByte = cpu'.operandByte) :
    cpu.operandValue i = cpu'.operandValue i := by
  unfold Processor.operandValue operandCell
  rw [hoperand, h.pageZero]

/-- What an instruction changes depends only on the accumulator, the flags, page zero and its
operand. -/
theorem SameVisible.effect (h : cpu.SameVisible cpu') (hi : i ∈ table)
    (hoperand : i.mode ≠ .implied → cpu.operandByte = cpu'.operandByte) :
    (cpu.effect i).registers.a = (cpu'.effect i).registers.a ∧
      (cpu.effect i).flags = (cpu'.effect i).flags ∧
      ∀ cell : UInt8, (cpu.effect i).memory.get cell.toUInt16 =
        (cpu'.effect i).memory.get cell.toUInt16 := by
  have ha := h.a
  have hflags := h.flags
  have hmode : i.mnemonic ∉ [.brk, .nop, .clc, .sec] → i.mode ≠ .implied := by
    have hall : ∀ i ∈ table, i.mnemonic ∉ [.brk, .nop, .clc, .sec] → i.mode ≠ .implied := by decide
    exact hall i hi
  unfold Processor.effect
  cases hm : i.mnemonic with
  | brk | nop | bcc | bcs =>
    refine ⟨ha, ?_, h.pageZero⟩
    simp only [hflags]
  | clc | sec =>
    refine ⟨ha, ?_, h.pageZero⟩
    simp only [withCarry, hflags]
  | lda | adc | cmp =>
    have hbyte := hoperand (hmode (by simp [hm]))
    rw [h.operandValue hbyte]
    refine ⟨?_, ?_, h.pageZero⟩
    · simp only [loadAccumulator, addWithCarry, compare, ha, hflags]
    · simp only [loadAccumulator, addWithCarry, compare, ha, hflags]
  | sta =>
    have hbyte := hoperand (hmode (by simp [hm]))
    refine ⟨ha, hflags, ?_⟩
    intro cell
    simp only [operandCell, hbyte, ha, Memory.get_set, h.pageZero cell]
  | inc =>
    have hbyte := hoperand (hmode (by simp [hm]))
    refine ⟨ha, ?_, ?_⟩
    · simp only [operandCell, hbyte, hflags, h.pageZero]
    · intro cell
      simp only [operandCell, hbyte, Memory.get_set, h.pageZero]

/-! ## The same way -/

theorem Relocated.branches (h : Relocated origin origin' length cpu cpu') :
    cpu.branches i = cpu'.branches i := by
  unfold Processor.branches
  rw [h.visible.flags]

theorem Relocated.following (h : Relocated origin origin' length cpu cpu') :
    cpu.following i - origin = cpu'.following i - origin' := by
  have hpc := h.pc
  unfold Processor.following
  grind

theorem Relocated.successor (h : Relocated origin origin' length cpu cpu') (hi : i ∈ table)
    (hlow : origin.toNat ≤ cpu.registers.pc.toNat)
    (hhigh : cpu.registers.pc.toNat + i.size ≤ origin.toNat + length) :
    cpu.successor i - origin = cpu'.successor i - origin' := by
  have hfollowing := h.following (i := i)
  unfold Processor.successor
  rw [h.branches]
  by_cases htaken : cpu'.branches i = true
  · have hmode : i.mode ≠ .implied := by
      rw [relative_of_branches hi htaken]
      exact nofun
    rw [if_pos htaken, if_pos htaken, h.operandByte hmode hlow hhigh, branchTarget_eq_add,
      branchTarget_eq_add]
    grind
  · rw [if_neg htaken, if_neg htaken]
    exact hfollowing

/-! ## The price -/

/-- Whether a branch leaves its page does not depend on the number of the page. -/
theorem pageCrossed_of_sub_eq {a b a' b' : UInt16} (ha : a - origin = a' - origin')
    (hb : b - origin = b' - origin') (hsame : origin.toNat % 256 = origin'.toNat % 256) :
    pageCrossed a b = pageCrossed a' b' := by
  -- the two addresses of a pair differ by the origins, so pages are kept when these are congruent
  have hshift : ∀ {x x' : UInt16}, x - origin = x' - origin' →
      (x.toNat + origin'.toNat) % 65536 = (x'.toNat + origin.toNat) % 65536 := by
    intro x x' hx
    have hsum : x + origin' = x' + origin := by grind
    have hvalue := congrArg UInt16.toNat hsum
    rwa [UInt16.toNat_add, UInt16.toNat_add] at hvalue
  have hpageA := hshift ha
  have hpageB := hshift hb
  have hboundA := a.toNat_lt
  have hboundB := b.toNat_lt
  have hboundA' := a'.toNat_lt
  have hboundB' := b'.toNat_lt
  rw [pageCrossed_eq, pageCrossed_eq, decide_eq_decide]
  omega

theorem Relocated.cost (h : Relocated origin origin' length cpu cpu') (hi : i ∈ table)
    (hlow : origin.toNat ≤ cpu.registers.pc.toNat)
    (hhigh : cpu.registers.pc.toNat + i.size ≤ origin.toNat + length) :
    (cpu.cost i).toNat ≤ (cpu'.cost i).toNat + (cpu.branches i).toNat ∧
      (cpu'.cost i).toNat ≤ (cpu.cost i).toNat + (cpu.branches i).toNat ∧
      (origin.toNat % 256 = origin'.toNat % 256 → cpu.cost i = cpu'.cost i) := by
  have hpenalty : ∀ crossed : Bool, 1 ≤ (if crossed then 2 else 1 : UInt32).toNat ∧
      (if crossed then 2 else 1 : UInt32).toNat ≤ 2 := by decide
  have hbranches := h.branches (i := i)
  rw [cpu.cost_toNat hi, cpu'.cost_toNat hi]
  -- without a branch there is no penalty, and with one it is 1 or 2 at both origins
  by_cases htaken : cpu.branches i = true
  · have htaken' : cpu'.branches i = true := hbranches ▸ htaken
    have hfollowing := h.following (i := i)
    have hsuccessor := h.successor hi hlow hhigh
    have hfirst := hpenalty (pageCrossed (cpu.following i) (cpu.successor i))
    have hsecond := hpenalty (pageCrossed (cpu'.following i) (cpu'.successor i))
    unfold Processor.cost penalty
    rw [if_pos htaken, if_pos htaken', htaken, Bool.toNat_true]
    refine ⟨by omega, by omega, ?_⟩
    intro hsame
    rw [pageCrossed_of_sub_eq hfollowing hsuccessor hsame]
  · have hfree' : ¬ cpu'.branches i = true := hbranches ▸ htaken
    unfold Processor.cost penalty
    rw [if_neg htaken, if_neg hfree']
    exact ⟨Nat.le_add_right _ _, Nat.le_add_right _ _, fun _ => rfl⟩

/-! ## One instruction and many -/

theorem Relocated.decode (h : Relocated origin origin' length cpu cpu')
    (hlow : origin.toNat ≤ cpu.registers.pc.toNat)
    (hhigh : cpu.registers.pc.toNat < origin.toNat + length) :
    cpu.memory.get cpu.registers.pc = cpu'.memory.get cpu'.registers.pc := by
  have hbyte := h.get_add (k := 0) hlow hhigh
  have hzero : UInt16.ofNat 0 = 0 := rfl
  rwa [hzero, UInt16.add_zero, UInt16.add_zero] at hbyte

/-- An instruction inside the code keeps the two processors at the same place in it. -/
theorem Relocated.next (h : Relocated origin origin' length cpu cpu') (hi : i ∈ table)
    (horigin : 0x100 ≤ origin.toNat) (hfit : origin.toNat + length ≤ 65536)
    (horigin' : 0x100 ≤ origin'.toNat) (hfit' : origin'.toNat + length ≤ 65536)
    (hlow : origin.toNat ≤ cpu.registers.pc.toNat)
    (hhigh : cpu.registers.pc.toNat + i.size ≤ origin.toNat + length) :
    Relocated origin origin' length (cpu.next i) (cpu'.next i) := by
  have hoperand : i.mode ≠ .implied → cpu.operandByte = cpu'.operandByte := by
    intro hmode
    exact h.operandByte hmode hlow hhigh
  rcases h.visible.effect hi hoperand with ⟨ha, hflags, hpageZero⟩
  have habove : ∀ {start : UInt16}, 0x100 ≤ start.toNat → start.toNat + length ≤ 65536 →
      ∀ k < length, 0x100 ≤ (start + UInt16.ofNat k).toNat := by
    intro start hstart hend k hk
    rw [UInt16.toNat_add, UInt16.toNat_ofNat']
    omega
  refine ⟨⟨ha, ?_, ?_, ?_, hflags, ?_, hpageZero⟩, ?_, ?_⟩
  · rw [next_x, next_x, h.visible.x]
  · rw [next_y, next_y, h.visible.y]
  · rw [next_sp, next_sp, h.visible.sp]
  · rw [next_state, next_state, h.visible.state]
  · -- the code lies above page zero and is not written
    intro k hk
    rw [next_get cpu i (habove horigin hfit k hk), next_get cpu' i (habove horigin' hfit' k hk),
      h.code k hk]
  · rw [next_pc, next_pc]
    exact h.successor hi hlow hhigh

end Processor

/-- The instruction of the event lies inside the `length` bytes from `origin` on. -/
def TraceEvent.IsInside (origin : UInt16) (length : Nat) (event : TraceEvent) : Prop :=
  origin.toNat ≤ event.pc.toNat ∧ event.pc.toNat + event.size ≤ origin.toNat + length

/-- The place of an instruction in its code, and what instruction it is. -/
def TraceEvent.place (origin : UInt16) (event : TraceEvent) : UInt16 × UInt8 :=
  (event.pc - origin, event.opcode)

namespace Engine

variable {σ τ : Type}

/-- Two runs of the same code at two origins go the same way, and their ticks differ by no more
than the branches that are taken. -/
theorem Executes.relocate {engine : Engine σ} (engine' : Engine τ) {origin origin' : UInt16}
    {length : Nat} (horigin : 0x100 ≤ origin.toNat) (hfit : origin.toNat + length ≤ 65536)
    (horigin' : 0x100 ≤ origin'.toNat) (hfit' : origin'.toNat + length ≤ 65536)
    {s s' : Session σ} {events : List TraceEvent} (run : engine.Executes s events s')
    (t : Session τ) (h : Processor.Relocated origin origin' length s.cpu t.cpu)
    (room : s.cpu.cycles.count.toNat + 7 * events.length < UInt64.size)
    (room' : t.cpu.cycles.count.toNat + 7 * events.length < UInt64.size)
    (inside : ∀ event ∈ events, event.IsInside origin length) :
    ∃ events' t', engine'.Executes t events' t' ∧
      events'.map (·.place origin') = events.map (·.place origin) ∧
      Processor.Relocated origin origin' length s'.cpu t'.cpu ∧
      (s.cpu.ticksUntil s'.cpu - t.cpu.ticksUntil t'.cpu).natAbs ≤
        events.countP TraceEvent.isTaken ∧
      (origin.toNat % 256 = origin'.toNat % 256 →
        s.cpu.ticksUntil s'.cpu = t.cpu.ticksUntil t'.cpu) := by
  induction run generalizing t with
  | done s =>
    refine ⟨[], t, .done t, rfl, h, ?_, ?_⟩
    · simp [Processor.ticksUntil]
    · simp [Processor.ticksUntil]
  | @step s s₁ s' i report events running decoded first rest ih =>
    have hi := (decode?_eq_some decoded).1
    rw [List.length_cons] at room room'
    obtain ⟨hlow, hhigh⟩ : origin.toNat ≤ s.cpu.registers.pc.toNat ∧
        s.cpu.registers.pc.toNat + (TraceEvent.capture s.cpu i).size ≤ origin.toNat + length :=
      inside _ List.mem_cons_self
    rw [TraceEvent.size_capture _ hi] at hhigh
    have hsize : 1 ≤ i.size := Nat.le_add_right 1 _
    have hbyte := h.decode hlow (by omega)
    -- the second processor executes the same instruction
    have running' : t.cpu.isHalted = false := by
      rw [Processor.isHalted_eq_false_iff] at running ⊢
      rw [← h.visible.state, running]
    have decoded' : decode? (t.cpu.memory.get t.cpu.registers.pc) = some i := by
      rw [← hbyte, decoded]
    have hstep := engine.step_of_decode?_eq_some s running decoded (by omega)
    have hstep' := engine'.step_of_decode?_eq_some t running' decoded' (by omega)
    rw [hstep] at first
    cases first
    have hnext := h.next hi horigin hfit horigin' hfit' hlow hhigh
    have hcost := h.cost hi hlow hhigh
    have hticks := Processor.ticksUntil_next hi (by omega : s.cpu.cycles.count.toNat + 7 < _)
    have hticks' := Processor.ticksUntil_next hi (by omega : t.cpu.cycles.count.toNat + 7 < _)
    have hrestInside : ∀ event ∈ events, event.IsInside origin length :=
      fun event hevent => inside event (List.mem_cons_of_mem _ hevent)
    rcases ih ⟨t.cpu.next i, engine'.observe t.cpu i t.seen⟩ hnext (Processor.room_next hi room)
        (Processor.room_next hi room') hrestInside with
      ⟨events', t', run', hplaces, hrelocated, hrest, hsame⟩
    refine ⟨.capture t.cpu i :: events', t', .step running' decoded' hstep' run', ?_, hrelocated,
      ?_, ?_⟩
    · rw [List.map_cons, List.map_cons, hplaces]
      have hplace : (TraceEvent.capture t.cpu i).place origin' =
          (TraceEvent.capture s.cpu i).place origin := by
        show (t.cpu.registers.pc - origin', i.opcode) = (s.cpu.registers.pc - origin, i.opcode)
        rw [h.pc]
      rw [hplace]
    · rw [List.countP_cons, TraceEvent.isTaken_capture, ← s.cpu.ticksUntil_add (s.cpu.next i),
        ← t.cpu.ticksUntil_add (t.cpu.next i), hticks, hticks']
      dsimp only at hrest
      rcases hcost with ⟨hle, hge, -⟩
      cases hbranch : s.cpu.branches i with
      | false =>
        rw [hbranch, Bool.toNat_false] at hle hge
        rw [if_neg Bool.false_ne_true]
        omega
      | true =>
        rw [hbranch, Bool.toNat_true] at hle hge
        rw [if_pos rfl]
        omega
    · intro horigins
      rw [← s.cpu.ticksUntil_add (s.cpu.next i), ← t.cpu.ticksUntil_add (t.cpu.next i), hticks,
        hticks', hcost.2.2 horigins, hsame horigins]

/-- Code above page zero does the same wherever it stands. If two processors differ at most in the
memory above page zero and hold the same code at two origins, then a run of the first that stays
inside the code is matched by a run of the second, instruction by instruction. Only the penalties of
branches that are taken can differ, and not even these if the origins have the same low byte. -/
theorem Executes.position_independent {engine : Engine σ} (engine' : Engine τ)
    {origin origin' : UInt16} {length : Nat}
    (horigin : 0x100 ≤ origin.toNat) (hfit : origin.toNat + length ≤ 65536)
    (horigin' : 0x100 ≤ origin'.toNat) (hfit' : origin'.toNat + length ≤ 65536)
    {s s' : Session σ} {t : Session τ} {events : List TraceEvent}
    (visible : s.cpu.SameVisible t.cpu)
    (code : ∀ k < length, s.cpu.memory.get (origin + UInt16.ofNat k) =
      t.cpu.memory.get (origin' + UInt16.ofNat k))
    (pc : s.cpu.registers.pc = origin) (pc' : t.cpu.registers.pc = origin')
    (room : s.cpu.cycles.count.toNat + 7 * events.length < UInt64.size)
    (room' : t.cpu.cycles.count.toNat + 7 * events.length < UInt64.size)
    (run : engine.Executes s events s')
    (inside : ∀ event ∈ events, event.IsInside origin length) :
    ∃ events' t', engine'.Executes t events' t' ∧
      events'.map (·.place origin') = events.map (·.place origin) ∧
      s'.cpu.SameVisible t'.cpu ∧
      s'.cpu.registers.pc - origin = t'.cpu.registers.pc - origin' ∧
      (s.cpu.ticksUntil s'.cpu - t.cpu.ticksUntil t'.cpu).natAbs ≤
        events.countP TraceEvent.isTaken ∧
      (origin.toNat % 256 = origin'.toNat % 256 →
        s.cpu.ticksUntil s'.cpu = t.cpu.ticksUntil t'.cpu) := by
  have hstart : Processor.Relocated origin origin' length s.cpu t.cpu := by
    refine ⟨visible, code, ?_⟩
    rw [pc, pc', UInt16.sub_self, UInt16.sub_self]
  rcases run.relocate engine' horigin hfit horigin' hfit' t hstart room room' inside with
    ⟨events', t', run', hplaces, hend, hticks, hsame⟩
  exact ⟨events', t', run', hplaces, hend.visible, hend.pc, hticks, hsame⟩

/-- A processor about to take the branch that stands at `origin`, sixteen bytes forward. -/
def takenBranch (origin : UInt16) : Session Unit where
  cpu :=
    { Processor.powerUp origin with
      flags := { c := true }
      memory := (Memory.zeroed.set origin 0xB0).set (origin + 1) 0x10 }
  seen := ()

/-- The row of the branch. -/
def takenBranchRow : Instruction := ⟨0xB0, .bcs, .relative, 2⟩

theorem Executes.position_independent_of_branch :
    ∃ s' : Session Unit,
      ((takenBranch 0x0200).cpu.SameVisible (takenBranch 0x02F0).cpu ∧
        (∀ k < 2, (takenBranch 0x0200).cpu.memory.get (0x0200 + UInt16.ofNat k) =
          (takenBranch 0x02F0).cpu.memory.get (0x02F0 + UInt16.ofNat k)) ∧
        ({} : Engine Unit).Executes (takenBranch 0x0200)
          [.capture (takenBranch 0x0200).cpu takenBranchRow] s' ∧
        (TraceEvent.capture (takenBranch 0x0200).cpu takenBranchRow).IsInside 0x0200 2) ∧
      ∃ events' t', ({} : Engine Unit).Executes (takenBranch 0x02F0) events' t' ∧
        events'.map (·.place 0x02F0) = [(0, 0xB0)] ∧
        s'.cpu.SameVisible t'.cpu ∧
        s'.cpu.registers.pc - 0x0200 = t'.cpu.registers.pc - 0x02F0 ∧
        ((takenBranch 0x0200).cpu.ticksUntil s'.cpu -
          (takenBranch 0x02F0).cpu.ticksUntil t'.cpu).natAbs ≤ 1 := by
  have hpageZero : ∀ origin : UInt16, 0x100 ≤ origin.toNat → origin.toNat < 0xFFFF →
      ∀ cell : UInt8, (takenBranch origin).cpu.memory.get cell.toUInt16 = 0 := by
    intro origin hlow hhigh cell
    have hcell := cell.toNat_lt
    have hfirst : origin ≠ cell.toUInt16 := by
      rw [ne_eq, ← UInt16.toNat_inj, UInt8.toNat_toUInt16]
      omega
    have hsecond : origin + 1 ≠ cell.toUInt16 := by
      rw [ne_eq, ← UInt16.toNat_inj, UInt8.toNat_toUInt16, UInt16.toNat_add, UInt16.toNat_one]
      omega
    simp only [takenBranch, Memory.get_set, if_neg hfirst, if_neg hsecond]
    exact Memory.get_zeroed _
  have hvisible : (takenBranch 0x0200).cpu.SameVisible (takenBranch 0x02F0).cpu := by
    refine ⟨rfl, rfl, rfl, rfl, rfl, rfl, ?_⟩
    intro cell
    rw [hpageZero _ (by decide) (by decide), hpageZero _ (by decide) (by decide)]
  have hcode : ∀ k < 2, (takenBranch 0x0200).cpu.memory.get (0x0200 + UInt16.ofNat k) =
      (takenBranch 0x02F0).cpu.memory.get (0x02F0 + UInt16.ofNat k) := by
    intro k hk
    have hk' : k = 0 ∨ k = 1 := by omega
    rcases hk' with rfl | rfl
    · simp [takenBranch, Memory.get_set]
    · simp [takenBranch]
  have hdecoded : decode? ((takenBranch 0x0200).cpu.memory.get 0x0200) = some takenBranchRow := by
    simp [takenBranch, Memory.get_set]
    rfl
  have hstep := ({} : Engine Unit).step_of_decode?_eq_some (takenBranch 0x0200) rfl hdecoded
    (by decide)
  have hrun := Executes.step rfl hdecoded hstep (.done _)
  have hinside : (TraceEvent.capture (takenBranch 0x0200).cpu takenBranchRow).IsInside 0x0200 2 :=
    ⟨by decide, by decide⟩
  refine ⟨_, ⟨hvisible, hcode, hrun, hinside⟩, ?_⟩
  rcases Executes.position_independent ({} : Engine Unit) (by decide) (by decide) (by decide)
    (by decide) hvisible hcode rfl rfl (by decide) (by decide) hrun (by simpa using hinside) with
    ⟨events', t', run', hplaces, hend, hpc, hticks, -⟩
  exact ⟨events', t', run', hplaces, hend, hpc, hticks⟩

end Engine

end Cpu6502
