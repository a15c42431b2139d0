/-
  `kernel/x86/isa/interrupt/interrupt.c`: the handler table, dispatch, and the installer.

  The machine is what the code of the file touches: the interrupt controllers on one side, the
  kernel's memory (`Software`) on the other.  A handler is an address; what is linked there
  (`Image.handlerAt`) is a function of the context and of the memory, so that a handler may do
  anything but touch the controllers' ports.  `calls` is the handler calls made, with the context
  passed, in order; no function reads it.

  `IRQ_Handler` reads `int_no` from the context again AFTER the handler has run: the handler holds
  a pointer to that context.
-/
import FreeMicroNix.Isa.Idt
import FreeMicroNix.Isa.Pic
import FreeMicroNix.Isa.Stubs

namespace FreeMicroNix

/-! ## Contexts -/

/-- `interrupt_context_t` -/
structure InterruptContext where
  gs : Uint32
  fs : Uint32
  es : Uint32
  ds : Uint32
  edi : Uint32
  esi : Uint32
  ebp : Uint32
  esp : Uint32
  ebx : Uint32
  edx : Uint32
  ecx : Uint32
  eax : Uint32
  intNo : Uint32
  errCode : Uint32
  eip : Uint32
  cs : Uint32
  eflags : Uint32
  useresp : Uint32
  ss : Uint32
  deriving DecidableEq

/-- `KERNEL_CS`: `SEG_KTEXT << 3 | DPL_KERNEL` -/
def kernelCs : Uint32 := 1 <<< 3 ||| 0
/-- `KERNEL_DS`: `SEG_KDATA << 3 | DPL_KERNEL` -/
def kernelDs : Uint32 := 2 <<< 3 ||| 0
/-- `USER_CS`: `SEG_UTEXT << 3 | DPL_USER` -/
def userCs : Uint32 := 3 <<< 3 ||| 3
/-- `USER_DS`: built on `GD_KDATA`, as in the source. -/
def userDs : Uint32 := 2 <<< 3 ||| 3

/-- `IRQ7` -/
def irq7 : Uint32 := 39
/-- `IRQ8` -/
def irq8 : Uint32 := 40
/-- `IRQ15` -/
def irq15 : Uint32 := 47

/-! ## The machine -/

/-- The kernel's memory, as far as this file goes; `rest` is all other state of the software. -/
structure Software (σ : Type) where
  /-- `Interrupt_Routines`, and the memory after it; zero for an empty slot. -/
  interruptRoutines : Uint32 → Uint32
  idt : Idt
  terminal : Terminal
  rest : σ

/-- What is linked elsewhere. -/
structure Image (σ : Type) where
  /-- The handler at an address. -/
  handlerAt : Uint32 → InterruptContext → Software σ → InterruptContext × Software σ
  /-- The stack words past the arguments of a `kprintf` call. -/
  stray : Nat → Uint32

/-- The machine during an interrupt. -/
structure Machine (σ : Type) where
  pic : Pic
  software : Software σ
  calls : List (Uint32 × InterruptContext)
  /-- `panic` was reached: the processor halts for good. -/
  halted : Bool

variable {σ : Type}

/-! ## The handler table -/

/-- `Interrupt_Routines` as the program starts. -/
def interruptRoutinesInit : Uint32 → Uint32 := fun _ => 0

/-- `Install_Interrupt_Handler` -/
def installInterruptHandler (table : Uint32 → Uint32) (index handler : Uint32) :
    Uint32 → Uint32 := Function.update table index handler

/-- `Uninstall_Interrupt_Handler` -/
def uninstallInterruptHandler (table : Uint32 → Uint32) (index : Uint32) : Uint32 → Uint32 :=
  Function.update table index 0

/-- `Install_Syscall_Handler`, with the two handlers linked at `stu` and `stk`. -/
def installSyscallHandler (table : Uint32 → Uint32) (stu stk : Uint32) : Uint32 → Uint32 :=
  installInterruptHandler (installInterruptHandler table 120 stu) 121 stk

/-- `STU_Handler`: the level tested is that of `int_no`, as in the source. -/
def stuHandler (ctx : InterruptContext) (t : Terminal) : InterruptContext × Terminal :=
  let t := kprintf t (fun _ => []) (str "Switching to user mode\n") fun _ => 0
  if ctx.intNo &&& 0x03 ≠ 3 then
    ({ ctx with
        gs := userDs, es := userDs, fs := userDs, ds := userDs, ss := userDs
        cs := userCs
        eflags := ctx.eflags ||| 0x00003000 }, t)
  else (ctx, t)

/-- `STK_Handler` -/
def stkHandler (ctx : InterruptContext) (t : Terminal) : InterruptContext × Terminal :=
  let t := kprintf t (fun _ => []) (str "Switching to kernel mode\n") fun _ => 0
  if ctx.intNo &&& 0x03 ≠ 0 then
    ({ ctx with
        gs := kernelDs, es := kernelDs, fs := kernelDs, ds := kernelDs, ss := kernelDs
        cs := kernelCs }, t)
  else (ctx, t)

/-! ## Exceptions -/

/-- `exception_messages` -/
def exceptionMessages : List CString :=
  [str "Division By Zero", str "Debug", str "Non Maskable Interrupt", str "Breakpoint",
    str "Into Detected Overflow", str "Out of Bounds", str "Invalid Opcode", str "No Coprocessor",
    str "Double Fault", str "Coprocessor Segment Overrun", str "Bad TSS",
    str "Segment Not Present", str "Stack Fault", str "General Protection Fault",
    str "Page Fault", str "Unknown Interrupt", str "Coprocessor Fault", str "Alignment Check",
    str "Machine Check"] ++ List.replicate 13 (str "Reserved")

/-- The words `kprintf` finds behind its format: the arguments passed, then whatever the stack
    holds above them. -/
def kprintfWords (args : List Uint32) (stray : Nat → Uint32) (n : Nat) : Uint32 :=
  args.getD n (stray (n - args.length))

/-- `panic`: the message, then the processor halts. -/
def panicHalt (m : Machine σ) : Machine σ :=
  { m with
    software := { m.software with
      terminal := kprintf m.software.terminal (fun _ => []) (str "\nKernel Panic!\n") fun _ => 0 }
    halted := true }

/-- `Exception_Handler`.  A string argument is passed as some word that is not null, and leads to
    its text; the last call passes no argument at all. -/
def exceptionHandler (image : Image σ) (m : Machine σ) (ctx : InterruptContext) : Machine σ :=
  if ctx.intNo < 32 then
    let message := exceptionMessages.getD ctx.intNo.toNat []
    let print := fun t format args =>
      kprintf t (fun _ => message) (str format) (kprintfWords args image.stray)
    let t := terminalSetColor m.software.terminal .lightRed
    let t := print t "Exception %x: %s (code %x)\n" [ctx.intNo, 1, ctx.errCode]
    let t := print t "\nDumping Segment Registers:\n cs: %x ss: %x ds: %x" [ctx.cs, ctx.ss, ctx.ds]
    let t := print t
      "\nDumping General Purpose Registers:\n edi: %x esi: %x ebp: %x ebx: %x edx: %x ecx: %x eax: %x"
      [ctx.edi, ctx.esi, ctx.ebp, ctx.ebx, ctx.edx, ctx.ecx, ctx.eax]
    let t := print t "\nDumping Other Registers:\n eip: %x eflags: %x useresp: %x" []
    panicHalt { m with software := { m.software with terminal := t } }
  else m

/-! ## Interrupt requests -/

/-- `handler(int_ctx)` -/
def callHandler (image : Image σ) (m : Machine σ) (ctx : InterruptContext) (handler : Uint32) :
    Machine σ × InterruptContext :=
  let (ctx', software) := image.handlerAt handler ctx m.software
  ({ m with software := software, calls := m.calls ++ [(handler, ctx)] }, ctx')

/-- `IRQ_Handler` from its line 170 on: the handler, then the acknowledgement. -/
def dispatch (image : Image σ) (m : Machine σ) (ctx : InterruptContext) (handler : Uint32) :
    Machine σ × InterruptContext :=
  let (m, ctx) := if handler ≠ 0 then callHandler image m ctx handler else (m, ctx)
  let pic := if irq8 ≤ ctx.intNo then picEoiSlave m.pic else m.pic
  ({ m with pic := picEoiMaster pic }, ctx)

/-- `IRQ_Handler` -/
def irqHandler (image : Image σ) (m : Machine σ) (ctx : InterruptContext) :
    Machine σ × InterruptContext :=
  let handler := m.software.interruptRoutines ctx.intNo
  if ctx.intNo = irq7 then
    let (pic, isr) := picReadIsr m.pic
    let m := { m with pic := pic }
    if isr &&& 1#16 <<< 7 = 0 then (m, ctx) else dispatch image m ctx handler
  else if ctx.intNo = irq15 then
    let (pic, isr) := picReadIsr m.pic
    let m := { m with pic := pic }
    if isr &&& 1#16 <<< 15 = 0 then ({ m with pic := picEoiMaster m.pic }, ctx)
    else dispatch image m ctx handler
  else dispatch image m ctx handler

/-- `Interrupt_Handler` -/
def interruptHandler (image : Image σ) (m : Machine σ) (ctx : InterruptContext) :
    Machine σ × InterruptContext :=
  if ctx.intNo < 32 then (exceptionHandler image m ctx, ctx)
  else if 32 ≤ ctx.intNo ∧ ctx.intNo < 48 then irqHandler image m ctx
  else (m, ctx)

/-! ## The installer -/

/-- One call of `Create_IDT_Entry` in the installer. -/
structure InstallerRow where
  num : Uint8
  stub : Label
  sel : Uint16
  flags : Uint8

/-- The fifty calls: the exceptions, the interrupt requests, the two system calls — of which the
    second names the stub of the first. -/
def installerRows : List InstallerRow :=
  ((List.range 32).map fun n => ⟨BitVec.ofNat 8 n, .isr (BitVec.ofNat 8 n), 0x08, 0x8E⟩) ++
  ((List.range 16).map fun n => ⟨BitVec.ofNat 8 (32 + n), .irq (BitVec.ofNat 8 n), 0x08, 0x8E⟩) ++
  [⟨120, .isr 120, 0x08, 0x8E⟩, ⟨121, .isr 120, 0x08, 0xBE⟩]

/-- `Interrupt_Handler_Installer`, with the stubs linked at `addr`. -/
def interruptHandlerInstaller (m : Machine σ) (addr : Label → Uint32) : Machine σ :=
  let (pic, t) := initialize8259Pic m.pic m.software.terminal 0x20 0x28
  let idt := installerRows.foldl
    (fun i row => createIdtEntry i row.num (addr row.stub) row.sel row.flags) m.software.idt
  let t := kprintf t (fun _ => []) (str "Interrupt Handlers Installed\n") fun _ => 0
  { m with pic := pic, software := { m.software with idt := idt, terminal := t } }

/-! ## Masking -/

/-- `Enable_Interrupt` -/
def enableInterrupt (p : Pic) (irq : Uint32) : Pic :=
  if irq < 32 then p else enable8259Pic p ((irq - 32).setWidth 8)

/-- `Disable_Interrupt` -/
def disableInterrupt (p : Pic) (irq : Uint32) : Pic :=
  if irq < 32 then p else disable8259Pic p ((irq - 32).setWidth 8)

end FreeMicroNix
