/-
  `kernel/kernel.c`: the kernel from `kmain` on, as one program that hardware interrupts cut into.

  1. **State** — a `Kernel` is everything `kmain` sets up: the interrupt controllers, the tables and
     the terminal (`Isa.Interrupt`), the descriptor tables, the timer chip, the clock driver, and the
     interrupt flag; and what it has from the boot loader: the mapping of memory, `fs` and `gs`.
  2. **Statements** — `Command` is one call of `kmain`, or one statement of a function that waits or
     reads a port; `PIT_8254_Wait` is the halting loop of `Lib.Interleaving`.  The screen and the
     boot information are low addresses: where they are not mapped, the command faults.
  3. **Interrupts** — a delivery of the controllers is accepted only with the flag set and the line
     unmasked.  The processor then goes through the gate of its vector, the code segment the gate
     names and the stub linked at its offset; where one of these is missing it shuts down.  At its
     end the stub pops `gs` and `fs`, which faults if the table does not let the selectors in.

  Interrupt gates clear the flag until `iret`, so an interrupt runs from its delivery to its return
  in one piece (`Isa.EndOfInterrupt`).
-/
import FreeMicroNix.Boot.Paging
import FreeMicroNix.Clock.Rtc
import FreeMicroNix.Gdt.KernelStack
import FreeMicroNix.Isa.EndOfInterrupt
import FreeMicroNix.Isa.Segments
import FreeMicroNix.Isa.Vectors
import FreeMicroNix.Lib.Interleaving
import FreeMicroNix.Timer.Load
import FreeMicroNix.Timer.Wait
import FreeMicroNix.Video.Buffers

namespace FreeMicroNix

open Interleaving

/-! ## What is linked -/

/-- The addresses of the stubs and of `PIT_8254_Handler`, what is linked at any other address, and
    the stack words past the arguments of a `kprintf` call. -/
structure KernelImage where
  stub : Label → Uint32
  /-- No two stubs are at one address. -/
  stub_inj : ∀ s ∈ stubs, ∀ s' ∈ stubs, stub s.label = stub s'.label → s = s'
  timerHandler : HandlerPtr
  elsewhere : Uint32 → InterruptContext → Software Pit → InterruptContext × Software Pit
  stray : Nat → Uint32

namespace KernelImage

/-- The handlers: `PIT_8254_Handler` counts, and touches nothing else. -/
def image (i : KernelImage) : Image Pit where
  handlerAt := fun handler ctx software =>
    if handler = i.timerHandler.addr then
      (ctx, { software with rest := pit8254Handler software.rest })
    else i.elsewhere handler ctx software
  stray := i.stray

/-- The stub at an address. -/
def stubAt (i : KernelImage) (offset : Uint32) : Option Stub :=
  stubs.find? fun s => i.stub s.label = offset

end KernelImage

/-! ## The state -/

/-- The kernel and its devices. -/
structure Kernel where
  machine : Machine Pit
  gdt : Gdt
  board : TimerBoard
  rtc : Rtc
  /-- The byte that `Speaker_Beep` has read from port 0x61 and not yet written back. -/
  port61Read : Uint8
  /-- The interrupt flag of the processor. -/
  interruptFlag : Bool
  /-- The processor has found no way to go on. -/
  shutdown : Bool
  /-- The page directory, as far as it is about addresses below the kernel's half. -/
  directory : PageDirectory
  fs : Uint16
  gs : Uint16
  /-- The exception an instruction has raised.  The code it has raised it in does not go on. -/
  faulted : Option Uint8

/-- The processor executes the kernel's code. -/
def Kernel.Running (k : Kernel) : Prop := k.shutdown = false ∧ k.faulted = none

instance (k : Kernel) : Decidable k.Running := inferInstanceAs (Decidable (_ ∧ _))

/-- A call that changes nothing but the terminal. -/
def Kernel.onTerminal (k : Kernel) (f : Terminal → Terminal) : Kernel :=
  { k with machine := { k.machine with software := { k.machine.software with
      terminal := f k.machine.software.terminal } } }

/-- `Initialize_Terminal` up to its first store to the screen. -/
def beginTerminal (t : Terminal) : Terminal :=
  let t := { t with terminalRow := 0, terminalColumn := 0 }
  let t := terminalSetColor t .lightGrey
  { t with terminalBuffer := vgaMemory }

/-! ## The statements -/

/-- An argument of a `kprintf` call: a word, or the result of `Get_RTC_Ticks()`. -/
inductive Argument where
  | word (w : Uint32)
  | getRtcTicks
  deriving DecidableEq

def Argument.value (k : Kernel) : Argument → Uint32
  | word w => w
  | getRtcTicks => FreeMicroNix.getRtcTicks k.rtc

/-- `multiboot_info_t`: where it is, and the one field `kmain` reads. -/
structure MultibootInfo where
  address : Uint32
  memUpper : Uint32

/-- A step of `kmain`. -/
inductive Command where
  | initializeTerminal
  | terminalSetColor (color : VgaColor)
  /-- `kprintf`; a string argument leads to `string`. -/
  | kprintf (format string : CString) (args : List Argument)
  | pit8254Phase (hz : Uint32)
  | installInterruptHandler (index handler : Uint32)
  | initializeGdt
  | installIdt
  | interruptHandlerInstaller
  /-- `mbi->mem_upper` -/
  | readMemUpper (mbi : Uint32)
  /-- `sti` -/
  | enableInterrupts
  /-- `cli` -/
  | disableInterrupts
  | outb (port : Uint16) (value : Uint8)
  /-- `inb(0x61)` -/
  | inPort61
  /-- `outb(0x61, ... | bits)`, with the byte read -/
  | outPort61Or (bits : Uint8)
  /-- `outb(0x61, ... & bits)`, with the byte read -/
  | outPort61And (bits : Uint8)
  deriving DecidableEq

namespace Command

/-- The low addresses it goes to.  The screen is part of one page, and its first address stands for
    all of it. -/
def addresses : Command → List Uint32
  | initializeTerminal => [vgaMemory]
  | kprintf _ _ _ => [vgaMemory]
  | initializeGdt => [vgaMemory]
  | installIdt => [vgaMemory]
  | interruptHandlerInstaller => [vgaMemory]
  | readMemUpper mbi => [mbi + 8, mbi + 9, mbi + 10, mbi + 11]
  | _ => []

/-- One command, with its addresses mapped. -/
def run (i : KernelImage) (k : Kernel) : Command → Kernel
  | initializeTerminal => k.onTerminal FreeMicroNix.initializeTerminal
  | terminalSetColor color => k.onTerminal fun t => FreeMicroNix.terminalSetColor t color
  | kprintf format string args =>
      k.onTerminal fun t => FreeMicroNix.kprintf t (fun _ => string) format
        (kprintfWords (args.map (Argument.value k)) i.stray)
  | pit8254Phase hz =>
      match FreeMicroNix.pit8254Phase k.board hz with
      -- the divide error
      | none => { k with faulted := some 0 }
      | some board => { k with board := board }
  | installInterruptHandler index handler =>
      { k with machine := { k.machine with software := { k.machine.software with
          interruptRoutines :=
            FreeMicroNix.installInterruptHandler k.machine.software.interruptRoutines index
              handler } } }
  | initializeGdt =>
      match FreeMicroNix.initializeGdt k.gdt k.machine.software.terminal with
      | none => { k with faulted := some 13 }
      | some (gdt, t) => { k with gdt := gdt }.onTerminal fun _ => t
  | installIdt =>
      let (idt, t) := FreeMicroNix.installIdt k.machine.software.idt k.machine.software.terminal
      { k with machine := { k.machine with
          software := { k.machine.software with idt := idt, terminal := t } } }
  | interruptHandlerInstaller =>
      { k with machine := FreeMicroNix.interruptHandlerInstaller k.machine i.stub }
  | readMemUpper _ => k
  | enableInterrupts => { k with interruptFlag := true }
  | disableInterrupts => { k with interruptFlag := false }
  | outb port value => { k with board := k.board.outb port value }
  | inPort61 => { k with port61Read := k.board.port61 }
  | outPort61Or bits => { k with board := k.board.outb 0x61 (k.port61Read ||| bits) }
  | outPort61And bits => { k with board := k.board.outb 0x61 (k.port61Read &&& bits) }

/-- What a command has done when it faults.  `Initialize_Terminal` is the first to go to the page of
    the screen, so no other one does there. -/
def begun (k : Kernel) : Command → Kernel
  | initializeTerminal => k.onTerminal beginTerminal
  | _ => k

/-- A command on a processor that still runs. -/
def exec (i : KernelImage) (c : Command) (k : Kernel) : Kernel :=
  if k.Running then
    if c.addresses.all fun va => (translate k.directory va).isSome then c.run i k
    else { c.begun k with faulted := some 14 }
  else k

end Command

/-! ## Interrupts -/

/-- A line the masks let through; a spurious interrupt of the slave comes through line 2. -/
def Delivery.Unmasked (p : Pic) : Delivery → Prop
  | master line => p.master.imr.getLsbD line = false
  | slave line => p.master.imr.getLsbD 2 = false ∧ p.slave.imr.getLsbD line = false
  | spuriousMaster => True
  | spuriousSlave => p.master.imr.getLsbD 2 = false

instance (p : Pic) : (d : Delivery) → Decidable (d.Unmasked p)
  | .master _ => inferInstanceAs (Decidable (_ = _))
  | .slave _ => inferInstanceAs (Decidable (_ ∧ _))
  | .spuriousMaster => inferInstanceAs (Decidable True)
  | .spuriousSlave => inferInstanceAs (Decidable (_ = _))

namespace Kernel

/-- The gate of a vector, if the processor can go through it: a present 32-bit interrupt gate to a
    present code segment of the most privileged level. -/
def entrance (k : Kernel) (v : Uint8) : Option Gate := do
  let g ← k.machine.software.idt.gate v
  let d ← k.gdt.descriptor g.selector
  if g.present ∧ g.system = false ∧ g.type = 0xE ∧ slotOf g.selector ≠ 0 ∧ d.present ∧ d.isCode ∧
      d.dpl = 0 then some g else none

/-- The stub an interrupt reaches. -/
def stubOf (i : KernelImage) (k : Kernel) (v : Uint8) : Option Stub := do
  let g ← k.entrance v
  i.stubAt g.offset

/-- The processor takes interrupts. -/
def Accepts (k : Kernel) (d : Delivery) : Prop :=
  k.interruptFlag = true ∧ k.Running ∧ d.Unmasked k.machine.pic

instance (k : Kernel) (d : Delivery) : Decidable (k.Accepts d) :=
  inferInstanceAs (Decidable (_ ∧ _))

/-- What the stub saves of an interrupt: what it finds in `fs` and `gs` is the processor's. -/
def saved (k : Kernel) (a : Arrival) : Arrival :=
  (a.1, { a.2 with fs := k.fs.setWidth 32, gs := k.gs.setWidth 32 })

/-- The end of the stub, if the handler comes back to it: it pops `gs` and `fs`, through the table of
    descriptors.  All descriptors there are present, so a selector that is not let in is a general
    protection fault. -/
def leave (k : Kernel) (ctx : InterruptContext) : Kernel :=
  if k.machine.halted then { k with interruptFlag := false }
  else if k.gdt.dataOk (selector ctx.gs) 0 then
    let k := { k with gdt := k.gdt.loadSegment (selector ctx.gs), gs := selector ctx.gs }
    if k.gdt.dataOk (selector ctx.fs) 0 then
      { k with gdt := k.gdt.loadSegment (selector ctx.fs), fs := selector ctx.fs }
    else { k with interruptFlag := false, faulted := some 13 }
  else { k with interruptFlag := false, faulted := some 13 }

/-- An interrupt, if it is accepted: the stub fills in `int_no`, calls `Interrupt_Handler` and
    returns. -/
def take (i : KernelImage) (k : Kernel) (a : Arrival) : Option Kernel :=
  if k.Accepts a.1 then
    match k.stubOf i ((a.1.vector k.machine.pic).setWidth 8) with
    | none => some { k with shutdown := true }
    | some stub =>
        let (machine, ctx) := interruptHandler i.image
          { k.machine with pic := a.1.raise k.machine.pic }
          { (k.saved a).2 with intNo := stub.intNo.getD 0 }
        some ({ k with machine := machine }.leave ctx)
  else none

end Kernel

/-- The kernel as a system: the loops are calls of `PIT_8254_Wait`, and remember `eticks`. -/
def kernelSystem (i : KernelImage) : System Kernel Arrival Command Uint64 Uint64 where
  exec := Command.exec i
  enter := fun ticks k => (pit8254Wait k.machine.software.rest ticks).eticks
  done := fun eticks k => ¬ k.machine.software.rest.timerTicks < eticks
  take := Kernel.take i

/-! ## The program -/

/-- `IRQ0` -/
def irq0 : Uint32 := 32

/-- `MULTIBOOT_BOOTLOADER_MAGIC` -/
def multibootBootloaderMagic : Uint32 := 0x2BADB002

namespace Kernel

/-- A `kprintf` call without arguments. -/
def print (s : String) : Stmt Command Uint64 := .act (.kprintf (str s) [] [])

/-- `Initialize_PIT_8254` -/
def initializePit8254 (i : KernelImage) : List (Stmt Command Uint64) :=
  [.act (.pit8254Phase 1000), .act (.installInterruptHandler irq0 i.timerHandler.addr),
    print "8254 PIT Initialized on channel 0\n"]

/-- `Speaker_Beep` -/
def speakerBeep : List (Stmt Command Uint64) :=
  [.act (.outb 0x43 0xB6), .act (.outb 0x42 0xEE), .act .inPort61, .act (.outPort61Or 0x03),
    .wait 2000, .act .inPort61, .act (.outPort61And 0xFC)]

/-- `mem_suffix` -/
def memSuffix (memUpper : Uint32) : CString := if 100000 < memUpper then str "MB" else str "KB"

/-- `mem_divisor` -/
def memDivisor (memUpper : Uint32) : Uint32 := if 100000 < memUpper then 1000 else 1

/-- The first lines of `kmain`. -/
def banner : List (Stmt Command Uint64) :=
  [.act .initializeTerminal, .act (.terminalSetColor .lightBlue),
    print "FreeMicroNix Version 0.1\n", .act (.terminalSetColor .lightGrey)]

/-- The report on `mbi->mem_upper`; a string is passed as some word that is not null. -/
def report (mbi : MultibootInfo) : List (Stmt Command Uint64) :=
  [.act (.readMemUpper mbi.address),
    .act (.kprintf (str "Available Memory: %d%s (%dKB)\n") (memSuffix mbi.memUpper)
      [.word (mbi.memUpper / memDivisor mbi.memUpper), .word 1, .word mbi.memUpper]),
    print "Interrupts Enabled\n"]

/-- `kmain` up to `Enable_Interrupts()`. -/
def setup (i : KernelImage) (mbi : MultibootInfo) : List (Stmt Command Uint64) :=
  banner ++ initializePit8254 i ++
  [.act .initializeGdt, .act .installIdt, .act .interruptHandlerInstaller] ++ report mbi

/-- What follows it. -/
def demonstration : List (Stmt Command Uint64) :=
  [print "Testing Programmable Interval Timer: Waiting 2 seconds\n", .wait 2000,
    print "Waited 2 seconds\n", .act (.kprintf (str "RTC Ticks: %d\n") [] [.getRtcTicks]),
    print "Testing Internal PC Speaker\nYou will hear a beep if present\n"] ++
  speakerBeep ++ [print "System Loaded\n"]

/-- The early return of `kmain`, and the `cli` of the loader behind the call. -/
def rejected : List (Stmt Command Uint64) :=
  [.act .initializeTerminal, .act (.terminalSetColor .lightRed),
    print "INVALID_MULTIBOOT NUMBER!\n", .act (.terminalSetColor .lightGrey),
    .act .disableInterrupts]

/-- `kmain`.  At its end it halts, again and again. -/
def kmain (i : KernelImage) (magic : Uint32) (mbi : MultibootInfo) : List (Stmt Command Uint64) :=
  if magic ≠ multibootBootloaderMagic then rejected
  else setup i mbi ++ .act .enableInterrupts :: demonstration

/-- What the loader and the firmware leave: the flag clear, the globals as they are linked, nothing
    in service.  The descriptor tables, the mapping of low memory, `fs` and `gs`, the chips' other
    registers and the memory may hold anything. -/
structure Loaded (k : Kernel) : Prop where
  interruptFlag : k.interruptFlag = false
  running : k.Running ∧ k.machine.halted = false
  idle : Idle k.machine.pic
  interruptRoutines : k.machine.software.interruptRoutines = interruptRoutinesInit
  pit : k.machine.software.rest = pitBoot
  rtcTicks : k.rtc.rtcTicks = 0
  calls : k.machine.calls = []

/-- The table of `Initialize_GDT` lets in what `fs` and `gs` hold. -/
def Loads (k : Kernel) : Prop := k.fs ∈ loadable ∧ k.gs ∈ loadable

instance (k : Kernel) : Decidable k.Loads := inferInstanceAs (Decidable (_ ∧ _))

/-- **What the kernel relies on and does not see to**: the low four megabytes are mapped where they
    are — `loader.asm` has removed that mapping before it calls `kmain` (`Boot.Loader`) — and the boot
    loader has left two of the fourteen selectors in `fs` and `gs`. -/
structure Supported (k : Kernel) : Prop where
  low : ∀ va, Low va → translate k.directory va = some va
  loads : k.Loads

/-- **A boot that `kmain` gets through.**  The boot information lies in low memory, and the amount it
    tells has a numeral that fits into the buffer of `kprintf`. -/
structure AtBoot (k : Kernel) (mbi : MultibootInfo) : Prop extends Loaded k, Supported k where
  information : mbi.address.toNat + 11 < 0x400000
  fits : ItoaCall.kprintfD.Fits mbi.memUpper

end Kernel

/-! ## A kernel as the loader leaves it -/

/-- Stubs sixteen bytes apart. -/
def linkedStub : Label → Uint32
  | .isr n => 0x100000 + 16 * n.setWidth 32
  | .irq n => 0x200000 + 16 * n.setWidth 32

theorem linkedStub_inj :
    ∀ s ∈ stubs, ∀ s' ∈ stubs, linkedStub s.label = linkedStub s'.label → s = s' := by
  decide +kernel

/-- No handler but the timer's. -/
def linkedKernel : KernelImage where
  stub := linkedStub
  stub_inj := linkedStub_inj
  timerHandler := ⟨0x300000, by decide⟩
  elsewhere := fun _ ctx software => (ctx, software)
  stray := fun _ => 0

/-- The firmware's vectors, and the lines of the master it has masked; the loader's directory with its
    first entry. -/
def coldKernel (imr : Uint8) : Kernel where
  machine :=
    { pic :=
        { master := ⟨imr, 0, 0, false, 0x08, 7, []⟩
          slave := ⟨0xFF, 0, 0, false, 0x70, 7, []⟩
          log := [] }
      software := { idleMachine.software with rest := pitBoot }
      calls := []
      halted := false }
  gdt := coldGdt
  board := { channel := fun _ => ⟨3, false, 0, 2, 0⟩, port61 := 0 }
  rtc := ⟨0, 0, fun _ => ⟨0, 0, 0, 0, 0, 0⟩⟩
  port61Read := 0
  interruptFlag := false
  shutdown := false
  directory := pageDirectory
  fs := 0x10
  gs := 0x18
  faulted := none

/-- 64 megabytes. -/
def coldInfo : MultibootInfo := ⟨0x10000, 0xFC00⟩

theorem coldKernel_loaded (imr : Uint8) : (coldKernel imr).Loaded :=
  ⟨rfl, ⟨⟨rfl, rfl⟩, rfl⟩, ⟨rfl, rfl⟩, rfl, rfl, rfl, rfl⟩

theorem coldKernel_atBoot (imr : Uint8) : (coldKernel imr).AtBoot coldInfo where
  toLoaded := coldKernel_loaded imr
  low _ h := translate_pageDirectory.1 h
  loads := show (0x10 : Uint16) ∈ loadable ∧ (0x18 : Uint16) ∈ loadable by decide
  information := by decide
  fits := show (0xFC00 : Uint32) ≠ BitVec.intMin 32 by decide

end FreeMicroNix
