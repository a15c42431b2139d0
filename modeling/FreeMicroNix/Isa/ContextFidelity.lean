/-
  What an interrupt does to the code it interrupts.

  `Faithful` is what the C code finds in its context, `Resumed` (`Isa.ContextSwitch`) what the
  processor holds when the interrupted code goes on; `interrupt_context_fidelity` puts them around
  any C function that keeps to the calling convention.  In between the context is the C code's, so
  nothing is said about it but that `iret` must be able to return to it (`Returnable`).

  Two registers are not the context's to carry: its `esp` is the stack pointer `pushad` saw, and
  the reserved flags are the processor's.
-/
import FreeMicroNix.Isa.ContextSwitch
import FreeMicroNix.Isa.Vectors

namespace FreeMicroNix

open WordStack

/-! ## An interrupt around a C function -/

/-- What the C code finds in the context: the interrupted registers.  Only `esp` is not the
    interrupted one: it is where `pushad` found the stack, at `int_no`. -/
structure Faithful (c : Cpu) (vector p : Uint32) (ctx : InterruptContext) : Prop where
  gs : selector ctx.gs = c.gs
  fs : selector ctx.fs = c.fs
  es : selector ctx.es = c.es
  ds : selector ctx.ds = c.ds
  edi : ctx.edi = c.edi
  esi : ctx.esi = c.esi
  ebp : ctx.ebp = c.ebp
  esp : ctx.esp = p + 48
  ebx : ctx.ebx = c.ebx
  edx : ctx.edx = c.edx
  ecx : ctx.ecx = c.ecx
  eax : ctx.eax = c.eax
  intNo : ctx.intNo = vector
  errCode : ctx.errCode = 0
  eip : ctx.eip = c.eip
  cs : selector ctx.cs = c.cs
  eflags : ctx.eflags = c.eflags
  useresp : c.ring ≠ 0 → ctx.useresp = c.esp
  ss : c.ring ≠ 0 → selector ctx.ss = c.ss

/-- The context behind the argument. -/
theorem Entered.faithful {plat : Platform} {c : Cpu} {vector : Uint32} {e : Cpu}
    (h : Entered plat c vector e) :
    argument e = e.esp + 8 ∧ Faithful c vector (e.esp + 8) (contextAt e.mem (e.esp + 8)) := by
  obtain ⟨gs, fs, es, ds, cs, outer, hgs, hfs, hes, hds, hcs, houter, hholds⟩ := h.stack
  have hcontext := hholds.pop.pop
  have haddr : e.esp + 4 + 4 = e.esp + 8 := by bv_omega
  rw [haddr] at hcontext
  have houter' : c.ring ≠ 0 → ∃ ss, selector ss = c.ss ∧ outer = [c.esp, ss] := by
    intro hring
    rw [Outer, if_neg hring] at houter
    exact houter
  have hword := fun k w h => hcontext k w h
  refine ⟨hholds 1 _ rfl, ?_⟩
  constructor
  · exact (congrArg selector (hword 0 gs rfl)).trans hgs
  · exact (congrArg selector (hword 1 fs rfl)).trans hfs
  · exact (congrArg selector (hword 2 es rfl)).trans hes
  · exact (congrArg selector (hword 3 ds rfl)).trans hds
  · exact hword 4 _ rfl
  · exact hword 5 _ rfl
  · exact hword 6 _ rfl
  · exact (hword 7 _ rfl).trans (by bv_omega)
  · exact hword 8 _ rfl
  · exact hword 9 _ rfl
  · exact hword 10 _ rfl
  · exact hword 11 _ rfl
  · exact hword 12 _ rfl
  · exact hword 13 _ rfl
  · exact hword 14 _ rfl
  · exact (congrArg selector (hword 15 cs rfl)).trans hcs
  · exact hword 16 _ rfl
  · intro hring
    obtain ⟨ss, -, rfl⟩ := houter' hring
    exact hword 17 _ rfl
  · intro hring
    obtain ⟨ss, hss, rfl⟩ := houter' hring
    exact (congrArg selector (hword 18 ss rfl)).trans hss

/-- `Interrupt_Handler` as the calling convention has it: it returns past its return address, on
    the same stack and code segment, and leaves the nested-task flag alone.  Its argument, the
    context and all other memory are its to write. -/
structure Conforming (handler : Cpu → Cpu) : Prop where
  esp : ∀ e, (handler e).esp = e.esp + 4
  cs : ∀ e, (handler e).cs = e.cs
  ss : ∀ e, (handler e).ss = e.ss
  nt : ∀ e, (handler e).eflags.getLsbD 14 = e.eflags.getLsbD 14

/-- A context that was left alone resumes the interrupted code. -/
theorem Resumed.untouched {c q : Cpu} {vector p : Uint32} {ctx : InterruptContext}
    (hfaithful : Faithful c vector p ctx) (hflags : loadFlags c.eflags = c.eflags)
    (hresumed : Resumed ctx (if c.ring = 0 then c.esp else ctx.useresp)
      (if c.ring = 0 then c.ss else selector ctx.ss) q) :
    q.toRegisters = c.toRegisters ∧ q.esp = c.esp := by
  have hesp : (if c.ring = 0 then c.esp else ctx.useresp) = c.esp := by
    split
    · rfl
    · exact hfaithful.useresp ‹_›
  have hss : (if c.ring = 0 then c.ss else selector ctx.ss) = c.ss := by
    split
    · rfl
    · exact hfaithful.ss ‹_›
  have heflags : loadFlags ctx.eflags = c.eflags := by rw [hfaithful.eflags, hflags]
  refine ⟨?_, hresumed.esp.trans hesp⟩
  apply Registers.ext
  · exact hresumed.eax.trans hfaithful.eax
  · exact hresumed.ecx.trans hfaithful.ecx
  · exact hresumed.edx.trans hfaithful.edx
  · exact hresumed.ebx.trans hfaithful.ebx
  · exact hresumed.ebp.trans hfaithful.ebp
  · exact hresumed.esi.trans hfaithful.esi
  · exact hresumed.edi.trans hfaithful.edi
  · exact hresumed.cs.trans hfaithful.cs
  · exact hresumed.ds.trans hfaithful.ds
  · exact hresumed.es.trans hfaithful.es
  · exact hresumed.fs.trans hfaithful.fs
  · exact hresumed.gs.trans hfaithful.gs
  · exact hresumed.ss.trans hss
  · exact hresumed.eip.trans hfaithful.eip
  · exact hresumed.eflags.trans heflags

/-- The instances of the third macro push zero and their vector. -/
theorem irq_pushes : ∀ n : Uint8, n < 16 → (Stub.irq n).pushes = [0, 32 + n.setWidth 32] := by
  decide

/-- **Context fidelity.**  Around every hardware interrupt 32..47, of code at any privilege level,
    the C code receives the interrupted registers, and the interrupted code resumes with the
    registers the context holds when the C code returns — at the same level, with selectors the
    tables allow, and but for the reserved flags, which no context can change.  A context left
    alone is invisible. -/
theorem interrupt_context_fidelity (plat : Platform) (hkernel : plat.dataOk stubDs 0 = true)
    (handler : Cpu → Cpu) (hconf : Conforming handler) (c : Cpu) (n : Uint8) (hn : n < 16) :
    ∃ e, toHandler plat (.irq n) c = some e ∧
      Faithful c (32 + n.setWidth 32) (argument e) (contextAt e.mem (argument e)) ∧
      ∀ ctx, ctx = contextAt (handler e).mem (argument e) → Returnable plat c.ring ctx →
        ∃ q, fromHandler plat (handler e) = some q ∧ q.mem = (handler e).mem ∧
          Resumed ctx (if c.ring = 0 then c.esp else ctx.useresp)
            (if c.ring = 0 then c.ss else selector ctx.ss) q ∧
          (ctx = contextAt e.mem (argument e) → loadFlags c.eflags = c.eflags →
            q.toRegisters = c.toRegisters ∧ q.esp = c.esp) := by
  obtain ⟨e, hentry, hentered⟩ := toHandler_spec hkernel c (irq_pushes n hn)
  obtain ⟨harg, hfaithful⟩ := hentered.faithful
  refine ⟨e, hentry, ?_⟩
  rw [harg]
  refine ⟨hfaithful, ?_⟩
  rintro ctx rfl hret
  have hp : e.esp + 8 = (handler e).esp + 4 := by
    rw [hconf.esp]
    bv_omega
  have hring : (handler e).ring = 0 := (congrArg rpl (hconf.cs e)).trans hentered.ring
  have hnt : (handler e).eflags.getLsbD 14 = false := (hconf.nt e).trans hentered.nt
  obtain ⟨q, hrun, hmem, hresumed⟩ := fromHandler_spec hp hring hnt hret
  have hstack : (if c.ring = 0 then e.esp + 8 + 68
      else (contextAt (handler e).mem (e.esp + 8)).useresp)
      = if c.ring = 0 then c.esp else (contextAt (handler e).mem (e.esp + 8)).useresp := by
    by_cases h : c.ring = 0
    · rw [if_pos h, if_pos h, hentered.esp h]
      bv_omega
    · rw [if_neg h, if_neg h]
  have hss : (if c.ring = 0 then (handler e).ss
      else selector (contextAt (handler e).mem (e.esp + 8)).ss)
      = if c.ring = 0 then c.ss else selector (contextAt (handler e).mem (e.esp + 8)).ss := by
    by_cases h : c.ring = 0
    · rw [if_pos h, if_pos h, hconf.ss, hentered.ss, if_pos h]
    · rw [if_neg h, if_neg h]
  rw [hstack, hss] at hresumed
  refine ⟨q, hrun, hmem, hresumed, fun hsame hflags => ?_⟩
  rw [hsame] at hresumed
  exact hresumed.untouched hfaithful hflags

/-! ## The tables of `Initialize_GDT` -/

/-- The access bytes of the six descriptors. -/
def gdtAccess (sel : Uint16) : Uint8 :=
  [0x00, 0x9A, 0x92, 0xFA, 0xF2, 0xE9].getD (sel >>> 3).toNat 0

/-- A descriptor of the table that is a present segment, with its privilege level. -/
def gdtSegment (sel : Uint16) : Bool :=
  sel.getLsbD 2 = false && (gdtAccess sel).getLsbD 7 && (gdtAccess sel).getLsbD 4

def gdtLevel (sel : Uint16) : BitVec 2 := (gdtAccess sel).extractLsb' 5 2

/-- A processor with those tables, the selectors zero-extended on the stack. -/
def gdtPlatform : Platform where
  dataOk sel level := sel &&& 0xFFFC = 0 ||
    gdtSegment sel && ((gdtAccess sel).getLsbD 3 = false || (gdtAccess sel).getLsbD 1) &&
      level ≤ gdtLevel sel && rpl sel ≤ gdtLevel sel
  codeOk sel := gdtSegment sel && (gdtAccess sel).getLsbD 3 && gdtLevel sel = rpl sel
  stackOk sel level := gdtSegment sel && (gdtAccess sel).getLsbD 3 = false &&
    (gdtAccess sel).getLsbD 1 && gdtLevel sel = level && rpl sel = level
  upper _ := 0
  esp0 := 0xC0108000
  ss0 := 0x10
  addr := evenlySpaced
  handlerAddr := 0xC0102000
  returnAddr := 0xC0102100

/-- The kernel, and a user program, with numbered registers. -/
def kernelCpu : Cpu :=
  ⟨⟨1, 2, 3, 4, 5, 6, 7, 0x08, 0x10, 0x10, 0x10, 0x10, 0x10, 0xC0103000, 0x202⟩, 0xC0107000,
    fun _ => 0⟩

def userCpu : Cpu :=
  ⟨⟨1, 2, 3, 4, 5, 6, 7, 0x1B, 0x23, 0x23, 0x23, 0x23, 0x23, 0x00400000, 0x202⟩, 0x00800000,
    fun _ => 0⟩

/-- A handler that only returns. -/
def justReturn (e : Cpu) : Cpu := { e with esp := e.esp + 4 }

theorem justReturn_conforming : Conforming justReturn :=
  ⟨fun _ => rfl, fun _ => rfl, fun _ => rfl, fun _ => rfl⟩

/-- The keyboard, under a user program. -/
theorem interrupt_context_fidelity_user :
    ∃ e q, toHandler gdtPlatform (.irq 1) userCpu = some e ∧
      fromHandler gdtPlatform (justReturn e) = some q ∧
      q.toRegisters = userCpu.toRegisters ∧ q.esp = userCpu.esp := by
  obtain ⟨e, hentry, hfaithful, hreturn⟩ := interrupt_context_fidelity gdtPlatform (by decide)
    justReturn justReturn_conforming userCpu 1 (by decide)
  have hret : Returnable gdtPlatform userCpu.ring (contextAt e.mem (argument e)) := by
    have hring : userCpu.ring ≠ 0 := by decide
    refine ⟨?_, ?_, fun _ => ?_, ?_, ?_⟩
    · rw [hfaithful.cs]
      rfl
    · rw [hfaithful.cs]
      decide
    · rw [hfaithful.ss hring]
      decide
    · simp only [List.forall_mem_cons, hfaithful.gs, hfaithful.fs, hfaithful.es, hfaithful.ds]
      exact ⟨by decide, by decide, by decide, by decide, List.forall_mem_nil _⟩
    · rw [hfaithful.eflags]
      decide
  obtain ⟨q, hrun, -, -, huntouched⟩ := hreturn _ rfl hret
  exact ⟨e, q, hentry, hrun, huntouched rfl (by decide)⟩

/-- The kernel at the entry of the clock's handler. -/
def kernelEntry : Cpu := (toHandler gdtPlatform (.irq 0) kernelCpu).getD kernelCpu

/-- A handler that clears the flags of the context. -/
def clearFlags (e : Cpu) : Cpu :=
  { e with esp := e.esp + 4, mem := write32 e.mem (argument e + 64) 0 }

/-- Two registers the context does not carry: the interrupted stack pointer is twenty bytes above
    its `esp`, and reserved flag 1 stays set though the context's `eflags` is zero. -/
theorem interrupt_context_esp_eflags :
    toHandler gdtPlatform (.irq 0) kernelCpu = some kernelEntry ∧
      (contextAt kernelEntry.mem (argument kernelEntry)).esp ≠ kernelCpu.esp ∧
      Conforming clearFlags ∧
      Returnable gdtPlatform kernelCpu.ring
        (contextAt (clearFlags kernelEntry).mem (argument kernelEntry)) ∧
      ∃ q, fromHandler gdtPlatform (clearFlags kernelEntry) = some q ∧
        q.eflags ≠ (contextAt (clearFlags kernelEntry).mem (argument kernelEntry)).eflags := by
  refine ⟨rfl, by decide +kernel, ⟨fun _ => rfl, fun _ => rfl, fun _ => rfl, fun _ => rfl⟩,
    ⟨by decide +kernel, by decide +kernel, fun h => absurd rfl h, ?_, by decide +kernel⟩, _, rfl,
    by decide +kernel⟩
  simp only [List.forall_mem_cons]
  exact ⟨by decide +kernel, by decide +kernel, by decide +kernel, by decide +kernel,
    List.forall_mem_nil _⟩

end FreeMicroNix
