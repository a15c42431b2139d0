/-
  The interrupts of `kmain` and the segment registers the boot loader has left.

  `Kernel.leave` has an interrupt return or fault by the check of the table alone.  Here the stubs do
  it, instruction by instruction (`Isa.Segments`): in every run, each interrupt that is accepted comes
  back or faults, as the selectors in `fs` and `gs` are among the fourteen or not
  (`kmain_interrupts_return`).  The boot protocol promises flat segments in the two, not the
  selectors.
-/
import FreeMicroNix.Kernel.Boot

namespace FreeMicroNix

open Interleaving

/-- The stubs of the controllers' vectors push a zero for the error code. -/
theorem line_pushes {s : Stub} (hs : s ∈ stubs) {v : Uint32} (hv : s.intNo = some v) (h32 : 32 ≤ v)
    (h48 : v < 48) : s.pushes = [0, v] := by
  have hall : stubs.all (fun s => s.intNo.all fun v => v < 32 || 48 ≤ v || s.pushes = [0, v])
      = true := by decide
  have hone := List.all_eq_true.mp hall s hs
  rw [hv] at hone
  have hcases : (v < 32 ∨ 48 ≤ v) ∨ s.pushes = [0, v] := by simpa using hone
  rcases hcases with (hbelow | habove) | hpushes
  · exact absurd h32 (BitVec.not_le.mpr hbelow)
  · exact absurd h48 (BitVec.not_lt.mpr habove)
  · exact hpushes

/-- `Interrupt_Handler` as it is compiled: by the calling convention, and with the effect on its
    context that the source has. -/
structure Compiled (i : KernelImage) (m : Machine Pit) (handler : Cpu → Cpu) : Prop where
  conforming : Conforming handler
  context : ∀ e, contextAt (handler e).mem (argument e)
    = (interruptHandler i.image m (contextAt e.mem (argument e))).2

/-- Every interrupt the kernel accepts reaches a stub; while kernel code runs with what `c` has in
    `fs` and `gs`, that comes back if `loads`, and faults if not. -/
def InterruptsReturnIf (i : KernelImage) (plat : Platform) (c : Cpu) (k : Kernel) (loads : Prop) :
    Prop :=
  ∀ d, k.Accepts d → ∃ s, k.stubOf i ((d.vector k.machine.pic).setWidth 8) = some s ∧
    ∀ handler, Compiled i { k.machine with pic := d.raise k.machine.pic } handler →
    ∀ running, InKernel running → running.fs = c.fs → running.gs = c.gs →
      ComesBackIf (k.gdt.platform plat) s handler running loads

/-- **Whether the interrupts of `kmain` return.**  `gdt_loader` goes through from every state `b`
    the boot loader may leave; but after every run the interrupts that are accepted come back if and
    only if it has left two of the fourteen selectors in `fs` and `gs`. -/
theorem kmain_interrupts_return (i : KernelImage) {k₀ : Kernel} (hloaded : k₀.Loaded)
    (magic : Uint32) (mbi : MultibootInfo) (events : List (Event Arrival)) (plat : Platform)
    (flush : Uint32) {b : Cpu} (hring : b.ring = 0) :
    ∃ c, gdtLoader (gdtLoaded k₀.gdt) plat flush b = some c ∧ Reloaded b c ∧
      InterruptsReturnIf i plat c (kernelRun i k₀ magic mbi events).state
        (b.fs ∈ loadable ∧ b.gs ∈ loadable) := by
  obtain ⟨c, hrun, hreloaded⟩ := gdtLoader_loads (gdtLoaded_kernelSlots k₀.gdt) plat flush hring
  refine ⟨c, hrun, hreloaded, ?_⟩
  rintro d ⟨hflag, hrunning, hunmasked⟩
  obtain ⟨-, hready, -, -⟩ := loaded_ready_run i hloaded magic mbi events hrunning hflag
  obtain ⟨s, hstub, hintNo⟩ := hready.stub d
  refine ⟨s, hstub, fun handler hhandler running hkernel hfs hgs => ?_⟩
  have hmem : s ∈ stubs := by
    obtain ⟨gate, -, hat⟩ := Option.bind_eq_some_iff.mp hstub
    exact List.mem_of_find?_eq_some hat
  obtain ⟨h32, h48⟩ := vector_range hready.remapped d
  have hback := hready.gdt.comesBackIf plat (line_pushes hmem hintNo h32 h48) hhandler.conforming
    hkernel fun e hfaithful => by
      rw [hhandler.context, hready.context_kept d hfaithful.intNo]
  have hfs' := congrArg Registers.fs hreloaded.registers
  have hgs' := congrArg Registers.gs hreloaded.registers
  rw [hfs, hgs, hfs', hgs', platform_unaccessed] at hback
  exact hback

/-- The processor as a boot loader with four segments may leave it. -/
def bootCpu : Cpu :=
  ⟨⟨0x2BADB002, 0, 0, 0x10000, 0, 0, 0, 0x10, 0x18, 0x18, 0x18, 0x18, 0x18, 0xC0100000, 0x2⟩,
    0xC0107FF0, fun _ => 0⟩

/-- Its selector 0x18 is user code to the kernel's table, which can be read. -/
theorem kmain_interrupts_return_cold :
    (bootCpu.fs ∈ loadable ∧ bootCpu.gs ∈ loadable) ∧
    ∃ c, gdtLoader (gdtLoaded (coldKernel 0xB8).gdt) gdtPlatform 0xC0101000 bootCpu = some c ∧
      Reloaded bootCpu c ∧
      InterruptsReturnIf linkedKernel gdtPlatform c
        (kernelRun linkedKernel (coldKernel 0xB8) multibootBootloaderMagic coldInfo
          (List.replicate 14 .proceed)).state (bootCpu.fs ∈ loadable ∧ bootCpu.gs ∈ loadable) :=
  ⟨by decide, kmain_interrupts_return linkedKernel (coldKernel_loaded 0xB8)
    multibootBootloaderMagic coldInfo (List.replicate 14 .proceed) gdtPlatform 0xC0101000
    (by decide)⟩

end FreeMicroNix
