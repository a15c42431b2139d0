/-
  `interrupt_handler.asm`, lines 154-178: the common stub, around a call of C code.

  The stub is two lists of instructions, before and after the callee (`enterHandler`,
  `leaveHandler`).  `toHandler` takes an interrupted processor through the delivery and the stub to
  the first instruction of `Interrupt_Handler`; `fromHandler` takes whatever processor that returns
  to the end of `iret`.
-/
import FreeMicroNix.Isa.Cpu
import FreeMicroNix.Isa.Interrupt

namespace FreeMicroNix

open WordStack

/-! ## The stub -/

/-- The instructions of a macro instance, up to its jump. -/
def Stub.code (s : Stub) : List Instr := .cli :: s.pushes.map .push

/-- `IDT_ISR_Stub`, up to the call. -/
def enterHandler : List Instr :=
  [.pushad, .pushSeg .ds, .pushSeg .es, .pushSeg .fs, .pushSeg .gs,
    .movAx stubDs, .movSeg .ds, .movSeg .es, .movSeg .fs, .movSeg .gs,
    .movEaxEsp, .pushEax, .movEaxHandler, .callEax]

/-- `IDT_ISR_Stub`, after the call. -/
def leaveHandler : List Instr :=
  [.popEax, .popSeg .gs, .popSeg .fs, .popSeg .es, .popSeg .ds, .popad, .addEsp 8, .iret]

/-- From the interrupt to the first instruction of `Interrupt_Handler`. -/
def toHandler (plat : Platform) (s : Stub) (c : Cpu) : Option Cpu :=
  (c.deliver plat (plat.addr s.label)).run plat (s.code ++ enterHandler)

/-- From its return to the end of `iret`. -/
def fromHandler (plat : Platform) (c : Cpu) : Option Cpu := c.run plat leaveHandler

/-- The argument of a C function at its first instruction. -/
def argument (c : Cpu) : Uint32 := c.slot 1

/-- The `interrupt_context_t` at an address. -/
def contextAt (m : Memory) (p : Uint32) : InterruptContext where
  gs := wordAt m p 0
  fs := wordAt m p 1
  es := wordAt m p 2
  ds := wordAt m p 3
  edi := wordAt m p 4
  esi := wordAt m p 5
  ebp := wordAt m p 6
  esp := wordAt m p 7
  ebx := wordAt m p 8
  edx := wordAt m p 9
  ecx := wordAt m p 10
  eax := wordAt m p 11
  intNo := wordAt m p 12
  errCode := wordAt m p 13
  eip := wordAt m p 14
  cs := wordAt m p 15
  eflags := wordAt m p 16
  useresp := wordAt m p 17
  ss := wordAt m p 18

/-! ## Blocks of the stub -/

namespace Cpu

theorem run_pushSegs (plat : Platform) (c : Cpu) :
    ∃ ds es fs gs, selector ds = c.ds ∧ selector es = c.es ∧ selector fs = c.fs ∧
      selector gs = c.gs ∧
      c.run plat [.pushSeg .ds, .pushSeg .es, .pushSeg .fs, .pushSeg .gs]
        = some (c.pushAll [ds, es, fs, gs]) := by
  obtain ⟨ds, hds, hpushDs⟩ := c.pushSelector_eq plat c.ds
  obtain ⟨es, hes, hpushEs⟩ := (c.push ds).pushSelector_eq plat c.es
  obtain ⟨fs, hfs, hpushFs⟩ := ((c.push ds).push es).pushSelector_eq plat c.fs
  obtain ⟨gs, hgs, hpushGs⟩ := (((c.push ds).push es).push fs).pushSelector_eq plat c.gs
  refine ⟨ds, es, fs, gs, hds, hes, hfs, hgs, ?_⟩
  show some ((((c.pushSelector plat c.ds).pushSelector plat _).pushSelector plat _).pushSelector
    plat _) = _
  rw [hpushDs]
  show some ((((c.push ds).pushSelector plat c.es).pushSelector plat _).pushSelector plat _) = _
  rw [hpushEs]
  show some ((((c.push ds).push es).pushSelector plat c.fs).pushSelector plat _) = _
  rw [hpushFs]
  show some ((((c.push ds).push es).push fs).pushSelector plat c.gs) = _
  rw [hpushGs]
  rfl

/-- The kernel's data segment in all four registers. -/
theorem run_loadSegs {plat : Platform} {c : Cpu} (hring : c.ring = 0)
    (hkernel : plat.dataOk stubDs 0 = true) :
    c.run plat [.movAx stubDs, .movSeg .ds, .movSeg .es, .movSeg .fs, .movSeg .gs] =
      some { c with
        eax := dword (c.eax.extractLsb' 16 16) stubDs
        ds := stubDs
        es := stubDs
        fs := stubDs
        gs := stubDs } := by
  have hstep : ∀ (c' : Cpu) (r : SegReg), selector c'.eax = stubDs → c'.ring = 0 →
      Instr.exec plat c' (.movSeg r) = some (c'.setSeg stubDs r) := by
    intro c' r heax hring'
    show c'.loadSeg plat r (selector c'.eax) = _
    rw [heax]
    exact loadSeg_of_ok r (by rw [hring', hkernel])
  have heax := selector_dword (c.eax.extractLsb' 16 16) stubDs
  let c₁ := { c with eax := dword (c.eax.extractLsb' 16 16) stubDs }
  have hax : Instr.exec plat c (.movAx stubDs) = some c₁ := rfl
  rw [run_cons_of hax, run_cons_of (hstep c₁ .ds heax hring),
    run_cons_of (hstep (c₁.setSeg stubDs .ds) .es heax hring),
    run_cons_of (hstep ((c₁.setSeg stubDs .ds).setSeg stubDs .es) .fs heax hring),
    run_cons_of
      (hstep (((c₁.setSeg stubDs .ds).setSeg stubDs .es).setSeg stubDs .fs) .gs heax hring)]
  rfl

/-- The call: the context's address on the stack, and the return address. -/
theorem run_call {plat : Platform} {c : Cpu} (hring : c.ring = 0)
    (hkernel : plat.dataOk stubDs 0 = true) :
    ∃ e, c.run plat ([.movAx stubDs, .movSeg .ds, .movSeg .es, .movSeg .fs, .movSeg .gs] ++
        [.movEaxEsp, .pushEax, .movEaxHandler, .callEax]) = some e ∧
      e.ring = 0 ∧ e.ss = c.ss ∧ e.eflags = c.eflags ∧
      e.esp = (c.pushAll [c.esp, plat.returnAddr]).esp ∧
      e.mem = (c.pushAll [c.esp, plat.returnAddr]).mem := by
  rw [run_append_of (run_loadSegs hring hkernel)]
  exact ⟨_, rfl, hring, rfl, rfl, rfl, rfl⟩

/-- The four pops of selectors. -/
theorem run_popSegs {plat : Platform} {c : Cpu} (hring : c.ring = 0)
    (hok : ∀ k < 4, plat.dataOk (selector (c.slot k)) 0 = true) :
    c.run plat [.popSeg .gs, .popSeg .fs, .popSeg .es, .popSeg .ds] =
      some { c with
        gs := selector (c.slot 0)
        fs := selector (c.slot 1)
        es := selector (c.slot 2)
        ds := selector (c.slot 3)
        esp := c.esp + 16 } := by
  have hstep : ∀ (c' : Cpu) (r : SegReg) (k : Nat), k < 4 → c'.ring = 0 → c'.mem = c.mem →
      c'.esp = c.esp + BitVec.ofNat 32 (4 * k) → Instr.exec plat c' (.popSeg r) =
        some ({ c' with esp := c.esp + BitVec.ofNat 32 (4 * (k + 1)) }.setSeg
          (selector (c.slot k)) r) := by
    intro c' r k hk hring' hmem hesp
    have hslot : c'.slot 0 = c.slot k := by
      rw [Cpu.slot, hmem, hesp]
      exact wordAt_add c.mem c.esp k 0
    have hesp' : c'.esp + 4 = c.esp + BitVec.ofNat 32 (4 * (k + 1)) := by
      rw [hesp, Nat.mul_succ, BitVec.ofNat_add, BitVec.add_assoc]
      rfl
    show Cpu.loadSeg plat { c' with esp := c'.esp + 4 } r (selector (c'.slot 0)) = _
    rw [hslot, hesp']
    exact loadSeg_of_ok r ((congrArg _ hring').trans (hok k hk))
  let c₁ := { c with gs := selector (c.slot 0), esp := c.esp + BitVec.ofNat 32 (4 * 1) }
  let c₂ := { c₁ with fs := selector (c.slot 1), esp := c.esp + BitVec.ofNat 32 (4 * 2) }
  let c₃ := { c₂ with es := selector (c.slot 2), esp := c.esp + BitVec.ofNat 32 (4 * 3) }
  have hgs : Instr.exec plat c (.popSeg .gs) = some c₁ :=
    hstep c .gs 0 (by decide) hring rfl (BitVec.add_zero c.esp).symm
  have hfs : Instr.exec plat c₁ (.popSeg .fs) = some c₂ :=
    hstep c₁ .fs 1 (by decide) hring rfl rfl
  have hes : Instr.exec plat c₂ (.popSeg .es) = some c₃ :=
    hstep c₂ .es 2 (by decide) hring rfl rfl
  have hds := hstep c₃ .ds 3 (by decide) hring rfl rfl
  rw [run_cons_of hgs, run_cons_of hfs, run_cons_of hes, run_cons_of hds]
  rfl

end Cpu

/-! ## Into the handler -/

/-- The words above the frame: the interrupted stack, if the processor changed stacks. -/
def Outer (c : Cpu) (outer : List Uint32) : Prop :=
  if c.ring = 0 then outer = [] else ∃ ss, selector ss = c.ss ∧ outer = [c.esp, ss]

theorem Outer.length_le {c : Cpu} {outer : List Uint32} (h : Outer c outer) : outer.length ≤ 2 := by
  unfold Outer at h
  split at h
  · rw [h]
    decide
  · obtain ⟨ss, -, houter⟩ := h
    rw [houter]
    exact Nat.le_refl 2

theorem switchStack_spec (plat : Platform) (c : Cpu) :
    ∃ outer, Outer c outer ∧ Holds (c.switchStack plat).mem (c.switchStack plat).esp outer ∧
      (c.switchStack plat).toRegisters
        = { c.toRegisters with ss := if c.ring = 0 then c.ss else plat.ss0 } ∧
      (c.ring = 0 → (c.switchStack plat).esp = c.esp) := by
  unfold Cpu.switchStack Outer
  by_cases hring : c.ring = 0
  · rw [if_pos hring, if_pos hring]
    refine ⟨[], ?_, holds_nil c.mem c.esp, rfl, fun _ => rfl⟩
    rw [if_pos hring]
  · rw [if_neg hring, if_neg hring]
    let c₀ : Cpu := { c with esp := plat.esp0, ss := plat.ss0 }
    obtain ⟨ss, hss, hpush⟩ := c₀.pushSelector_eq plat c.ss
    rw [hpush]
    refine ⟨[c.esp, ss], ?_, ?_, rfl, fun h => absurd h hring⟩
    · rw [if_neg hring]
      exact ⟨ss, hss, rfl⟩
    · apply Cpu.pushAll_holds (c := c₀) (holds_nil c.mem plat.esp0) [ss, c.esp]
      show 4 * 2 ≤ 2 ^ 32
      decide

/-- **The delivery**: the frame on the stack, and the kernel's code segment. -/
theorem deliver_spec (plat : Platform) (c : Cpu) (target : Uint32) :
    ∃ cs outer, selector cs = c.cs ∧ Outer c outer ∧
      Holds (c.deliver plat target).mem (c.deliver plat target).esp
        ([c.eip, cs, c.eflags] ++ outer) ∧
      (c.deliver plat target).toRegisters =
        { c.toRegisters with
          cs := 0x08
          eip := target
          eflags := c.eflags &&& ~~~gateFlags
          ss := if c.ring = 0 then c.ss else plat.ss0 } ∧
      (c.ring = 0 → (c.deliver plat target).esp = c.esp - 12) := by
  obtain ⟨outer, houter, hholds, hregs, hesp⟩ := switchStack_spec plat c
  unfold Cpu.deliver
  generalize c.switchStack plat = stacked at hholds hregs hesp
  obtain ⟨cs, hcs, hpush⟩ := (stacked.push c.eflags).pushSelector_eq plat c.cs
  rw [hpush]
  have hlen := houter.length_le
  refine ⟨cs, outer, hcs, houter, ?_, ?_, fun hring => ?_⟩
  · apply Cpu.pushAll_holds hholds [c.eflags, cs, c.eip]
    show 4 * (3 + outer.length) ≤ 2 ^ 32
    omega
  · show { stacked.toRegisters with
      cs := 0x08, eip := target, eflags := c.eflags &&& ~~~gateFlags } = _
    rw [hregs]
  · rw [← hesp hring]
    exact (Cpu.pushAll_registers stacked [c.eflags, cs, c.eip]).2

/-- The four parts of the code before the call. -/
theorem enterHandler_eq :
    enterHandler = [Instr.pushad] ++
      ([Instr.pushSeg .ds, Instr.pushSeg .es, Instr.pushSeg .fs, Instr.pushSeg .gs] ++
        ([Instr.movAx stubDs, Instr.movSeg .ds, Instr.movSeg .es, Instr.movSeg .fs,
          Instr.movSeg .gs] ++
          [Instr.movEaxEsp, Instr.pushEax, Instr.movEaxHandler, Instr.callEax])) := rfl

/-- **The stub up to the call**, in ring 0: the registers on top of whatever the stack held. -/
theorem run_enterHandler {plat : Platform} {d : Cpu} (hring : d.ring = 0)
    (hkernel : plat.dataOk stubDs 0 = true) :
    ∃ e gs fs es ds, d.run plat enterHandler = some e ∧ e.ring = 0 ∧ e.ss = d.ss ∧
      e.eflags = d.eflags ∧ e.esp = d.esp - 56 ∧
      selector gs = d.gs ∧ selector fs = d.fs ∧ selector es = d.es ∧ selector ds = d.ds ∧
      ∀ old, Holds d.mem d.esp old → old.length ≤ 16 →
        Holds e.mem e.esp ([plat.returnAddr, d.esp - 48, gs, fs, es, ds, d.edi, d.esi, d.ebp, d.esp,
          d.ebx, d.edx, d.ecx, d.eax] ++ old) := by
  let general := [d.eax, d.ecx, d.edx, d.ebx, d.esp, d.ebp, d.esi, d.edi]
  have hpushad : d.run plat [.pushad] = some (d.pushAll general) := rfl
  have hgeneral := (d.pushAll_registers general).1
  obtain ⟨ds, es, fs, gs, hds, hes, hfs, hgs, hsegs⟩ := (d.pushAll general).run_pushSegs plat
  rw [hgeneral] at hds hes hfs hgs
  rw [← Cpu.pushAll_append] at hsegs
  obtain ⟨hregs, hesp⟩ := d.pushAll_registers (general ++ [ds, es, fs, gs])
  have hring' : (d.pushAll (general ++ [ds, es, fs, gs])).ring = 0 := by
    unfold Cpu.ring
    rw [hregs]
    exact hring
  obtain ⟨e, hcall, hering, hess, heflags, heesp, hemem⟩ := Cpu.run_call hring' hkernel
  rw [← Cpu.pushAll_append] at heesp hemem
  rw [hregs] at hess heflags
  refine ⟨e, gs, fs, es, ds, ?_, hering, hess, heflags, ?_, hgs, hfs, hes, hds,
    fun old hold hlen => ?_⟩
  · rw [enterHandler_eq, Cpu.run_append_of hpushad, Cpu.run_append_of hsegs, hcall]
  · rw [heesp]
    exact (d.pushAll_registers _).2
  · have hesp' : (d.pushAll (general ++ [ds, es, fs, gs])).esp = d.esp - 48 := hesp
    rw [heesp, hemem, ← hesp']
    apply Cpu.pushAll_holds hold
    show 4 * (14 + old.length) ≤ 2 ^ 32
    omega

/-- The processor at the first instruction of `Interrupt_Handler`: in ring 0, with the whole of the
    stack. -/
structure Entered (plat : Platform) (c : Cpu) (vector : Uint32) (e : Cpu) : Prop where
  ring : e.ring = 0
  nt : e.eflags.getLsbD 14 = false
  ss : e.ss = if c.ring = 0 then c.ss else plat.ss0
  esp : c.ring = 0 → e.esp = c.esp - 76
  stack : ∃ gs fs es ds cs outer, selector gs = c.gs ∧ selector fs = c.fs ∧ selector es = c.es ∧
    selector ds = c.ds ∧ selector cs = c.cs ∧ Outer c outer ∧
    Holds e.mem e.esp ([plat.returnAddr, e.esp + 8, gs, fs, es, ds, c.edi, c.esi, c.ebp,
      e.esp + 56, c.ebx, c.edx, c.ecx, c.eax, vector, 0, c.eip, cs, c.eflags] ++ outer)

/-- **Into the handler.** -/
theorem toHandler_spec {plat : Platform} (hkernel : plat.dataOk stubDs 0 = true) (c : Cpu)
    {s : Stub} {vector : Uint32} (hs : s.pushes = [0, vector]) :
    ∃ e, toHandler plat s c = some e ∧ Entered plat c vector e := by
  obtain ⟨cs, outer, hcs, houter, hframe, hregs, hesp⟩ := deliver_spec plat c (plat.addr s.label)
  have hlen := houter.length_le
  unfold toHandler
  generalize c.deliver plat (plat.addr s.label) = d at hframe hregs hesp
  -- the macro instance
  let d' : Cpu := { d with eflags := d.eflags &&& ~~~0x200 }.pushAll [0, vector]
  have hstub : d.run plat s.code = some d' := by
    rw [Stub.code, hs]
    rfl
  have hesp' : d'.esp = d.esp - 8 := (Cpu.pushAll_registers _ _).2
  have hregs' : d'.toRegisters = { d.toRegisters with eflags := d.eflags &&& ~~~0x200 } := rfl
  rw [hregs] at hregs'
  have hring : d'.ring = 0 := by
    unfold Cpu.ring
    rw [hregs']
    show rpl 0x08 = 0
    decide
  have hframe' : Holds d'.mem d'.esp ([vector, 0, c.eip, cs, c.eflags] ++ outer) := by
    apply Cpu.pushAll_holds (c := { d with eflags := d.eflags &&& ~~~0x200 }) hframe [0, vector]
    show 4 * (2 + (outer.length + 3)) ≤ 2 ^ 32
    omega
  obtain ⟨e, gs, fs, es, ds, hrun, hring', hss, heflags, hesp'', hgs, hfs, hes, hds, hholds⟩ :=
    run_enterHandler hring hkernel
  rw [hregs'] at hss heflags hgs hfs hes hds hholds
  have hnt : e.eflags.getLsbD 14 = false := by
    rw [heflags, BitVec.getLsbD_and, BitVec.getLsbD_and]
    have hgate : (~~~gateFlags).getLsbD 14 = false := by decide
    rw [hgate, Bool.and_false, Bool.false_and]
  have hholds' := hholds _ hframe' (by
    show outer.length + 5 ≤ 16
    omega)
  have htop : d'.esp - 48 = e.esp + 8 := by rw [hesp'']; bv_omega
  have hbelow : d'.esp = e.esp + 56 := by rw [hesp'']; bv_omega
  rw [htop, hbelow] at hholds'
  refine ⟨e, (Cpu.run_append_of hstub _).trans hrun, hring', hnt, hss, ?_, gs, fs, es, ds, cs,
    outer, hgs, hfs, hes, hds, hcs, houter, hholds'⟩
  intro h
  rw [hesp'', hesp', hesp h]
  bv_omega

/-! ## Out of the handler -/

/-- A context `iret` can return to, at a privilege level. -/
structure Returnable (plat : Platform) (level : BitVec 2) (ctx : InterruptContext) : Prop where
  returnLevel : rpl (selector ctx.cs) = level
  code : plat.codeOk (selector ctx.cs) = true
  stack : level ≠ 0 → plat.stackOk (selector ctx.ss) level = true
  data : ∀ sel ∈ [ctx.gs, ctx.fs, ctx.es, ctx.ds],
    plat.dataOk (selector sel) 0 = true ∧ plat.dataOk (selector sel) level = true
  vm : ctx.eflags.getLsbD 17 = false

/-- The processor holds what the context says, on a given stack. -/
structure Resumed (ctx : InterruptContext) (esp : Uint32) (ss : Uint16) (q : Cpu) : Prop where
  eax : q.eax = ctx.eax
  ecx : q.ecx = ctx.ecx
  edx : q.edx = ctx.edx
  ebx : q.ebx = ctx.ebx
  ebp : q.ebp = ctx.ebp
  esi : q.esi = ctx.esi
  edi : q.edi = ctx.edi
  gs : q.gs = selector ctx.gs
  fs : q.fs = selector ctx.fs
  es : q.es = selector ctx.es
  ds : q.ds = selector ctx.ds
  eip : q.eip = ctx.eip
  cs : q.cs = selector ctx.cs
  eflags : q.eflags = loadFlags ctx.eflags
  esp : q.esp = esp
  ss : q.ss = ss

namespace Cpu

/-- The processor before `iret`, from a context at `p`. -/
def restored (c : Cpu) (ctx : InterruptContext) (p : Uint32) : Cpu :=
  { c with
    gs := selector ctx.gs
    fs := selector ctx.fs
    es := selector ctx.es
    ds := selector ctx.ds
    edi := ctx.edi
    esi := ctx.esi
    ebp := ctx.ebp
    ebx := ctx.ebx
    edx := ctx.edx
    ecx := ctx.ecx
    eax := ctx.eax
    esp := p + 56 }

theorem run_restore {plat : Platform} {c : Cpu} {p : Uint32} (hp : p = c.esp + 4)
    (hring : c.ring = 0) {level : BitVec 2} (hret : Returnable plat level (contextAt c.mem p)) :
    c.run plat [.popEax, .popSeg .gs, .popSeg .fs, .popSeg .es, .popSeg .ds, .popad, .addEsp 8]
      = some (c.restored (contextAt c.mem p) p) := by
  subst hp
  let c₁ : Cpu := { c with eax := c.slot 0, esp := c.esp + 4 }
  have hpop : Instr.exec plat c .popEax = some c₁ := rfl
  have hok : ∀ k < 4, plat.dataOk (selector (c₁.slot k)) 0 = true := by
    intro k hk
    have hmem : c₁.slot k ∈ [c₁.slot 0, c₁.slot 1, c₁.slot 2, c₁.slot 3] := by
      rcases k with _ | _ | _ | _ | k
      · exact List.mem_cons_self
      · simp
      · simp
      · simp
      · omega
    exact (hret.data _ hmem).1
  have hslot : ∀ k, wordAt c.mem (c.esp + 4 + 16) k = wordAt c.mem (c.esp + 4) (4 + k) :=
    wordAt_add c.mem (c.esp + 4) 4
  have hesp : c.esp + 4 + 16 + 32 + 8 = c.esp + 4 + 56 := by bv_omega
  rw [run_cons_of hpop]
  refine (run_append_of (run_popSegs (c := c₁) hring hok) [.popad, .addEsp 8]).trans ?_
  unfold restored
  rw [← hesp]
  simp only [contextAt]
  rw [← hslot 0, ← hslot 1, ← hslot 2, ← hslot 4, ← hslot 5, ← hslot 6, ← hslot 7]
  rfl

/-- **The return**: the processor resumes with what the context says, on the stack above the frame
    or, at a less privileged level, on the one the context names. -/
theorem iret_restored {plat : Platform} {c : Cpu} {p : Uint32} (hring : c.ring = 0)
    (hnt : c.eflags.getLsbD 14 = false) {level : BitVec 2}
    (hret : Returnable plat level (contextAt c.mem p)) :
    ∃ q, (c.restored (contextAt c.mem p) p).iret plat = some q ∧ q.mem = c.mem ∧
      Resumed (contextAt c.mem p)
        (if level = 0 then p + 68 else (contextAt c.mem p).useresp)
        (if level = 0 then c.ss else selector (contextAt c.mem p).ss) q := by
  have hslot : ∀ k, (c.restored (contextAt c.mem p) p).slot k = wordAt c.mem p (14 + k) :=
    wordAt_add c.mem p 14
  have heip := hslot 0
  have hcs := hslot 1
  have heflags := hslot 2
  have huseresp := hslot 3
  have hss := hslot 4
  have hlevel := hret.returnLevel
  have hstuck : ¬ ((c.restored (contextAt c.mem p) p).eflags.getLsbD 14 = true ∨
      (wordAt c.mem p 16).getLsbD 17 = true) := by
    rintro (h | h)
    · exact Bool.noConfusion (hnt.symm.trans h)
    · exact Bool.noConfusion (hret.vm.symm.trans h)
  have hfault : ¬ (plat.codeOk (selector (wordAt c.mem p 15)) = false ∨
      rpl (selector (wordAt c.mem p 15)) < (c.restored (contextAt c.mem p) p).ring) := by
    rintro (h | h)
    · exact Bool.noConfusion (h.symm.trans hret.code)
    · have hring' : (c.restored (contextAt c.mem p) p).ring = 0 := hring
      rw [hring'] at h
      exact BitVec.not_lt_zero h
  have hcs' : selector (wordAt c.mem p 15) = selector (contextAt c.mem p).cs := rfl
  unfold iret
  rw [heip, hcs, heflags, huseresp, hss]
  dsimp only
  rw [if_neg hstuck, if_neg hfault, hcs', hlevel]
  have hring' : (c.restored (contextAt c.mem p) p).ring = 0 := hring
  rw [hring']
  by_cases h0 : level = 0
  · rw [if_pos h0, if_pos h0, if_pos h0]
    have hesp : p + 56 + 12 = p + 68 := by bv_omega
    exact ⟨_, rfl, rfl, rfl, rfl, rfl, rfl, rfl, rfl, rfl, rfl, rfl, rfl, rfl, rfl, rfl, rfl,
      hesp, rfl⟩
  · have hstack : ¬ plat.stackOk (selector (wordAt c.mem p 18)) level = false := fun h =>
      Bool.noConfusion (h.symm.trans (hret.stack h0))
    have hkept : ∀ w ∈ [(contextAt c.mem p).gs, (contextAt c.mem p).fs, (contextAt c.mem p).es,
        (contextAt c.mem p).ds], keptSeg plat level (selector w) = selector w :=
      fun w hw => if_pos (hret.data w hw).2
    rw [if_neg h0, if_neg h0, if_neg h0, if_neg hstack]
    refine ⟨_, rfl, rfl, rfl, rfl, rfl, rfl, rfl, rfl, rfl, ?_, ?_, ?_, ?_, rfl, rfl, rfl, rfl, rfl⟩
    · exact hkept _ (by simp)
    · exact hkept _ (by simp)
    · exact hkept _ (by simp)
    · exact hkept _ (by simp)

end Cpu

/-- **Out of the handler.** -/
theorem fromHandler_spec {plat : Platform} {c : Cpu} {p : Uint32} (hp : p = c.esp + 4)
    (hring : c.ring = 0) (hnt : c.eflags.getLsbD 14 = false) {level : BitVec 2}
    (hret : Returnable plat level (contextAt c.mem p)) :
    ∃ q, fromHandler plat c = some q ∧ q.mem = c.mem ∧
      Resumed (contextAt c.mem p)
        (if level = 0 then p + 68 else (contextAt c.mem p).useresp)
        (if level = 0 then c.ss else selector (contextAt c.mem p).ss) q := by
  obtain ⟨q, hiret, hmem, hresumed⟩ := Cpu.iret_restored hring hnt hret
  refine ⟨q, ?_, hmem, hresumed⟩
  refine (Cpu.run_append_of (Cpu.run_restore hp hring hret) [.iret]).trans ?_
  refine (Cpu.run_cons_of ?_ []).trans (Cpu.run_nil plat q)
  exact hiret

end FreeMicroNix
