/-
  The steps of `kmain`, one at a time and one after the other, with no interrupt in between.

  A frame (`Framed`) says which parts of the kernel a command does not write: none touches the
  timer's counters, the handler calls, the clock driver or what the boot loader has set up, and each
  of the tables, the controllers and the flag has its own few writers.  What only inert commands
  follow is read off the last writer.

  A command raises an exception or runs.  What has run to some point without one has run as written
  (`exec_eq_run`); and with the addresses mapped it raises none (`exec_passes`).
-/
import FreeMicroNix.Kernel.Main

namespace FreeMicroNix

open Interleaving

/-! ## What a command leaves alone -/

namespace Command

def writesPic : Command → Bool
  | interruptHandlerInstaller => true
  | _ => false

def writesIdt : Command → Bool
  | installIdt => true
  | interruptHandlerInstaller => true
  | _ => false

def writesHandlers : Command → Bool
  | installInterruptHandler _ _ => true
  | _ => false

def writesGdt : Command → Bool
  | initializeGdt => true
  | _ => false

def writesFlag : Command → Bool
  | enableInterrupts => true
  | disableInterrupts => true
  | _ => false

/-- Channel 0 of the timer: by its port, or by a control word for it. -/
def writesChannel0 : Command → Bool
  | pit8254Phase _ => true
  | outb port value => port = 0x40#16 ∨ port = 0x43#16 ∧ value.extractLsb' 6 2 = 0
  | _ => false

/-- With the addresses mapped as in `d` it raises no exception. -/
def Passes (c : Command) (d : PageDirectory) : Prop :=
  (∀ va ∈ c.addresses, (translate d va).isSome = true) ∧ c ≠ pit8254Phase 0

/-- The screen is all it goes to. -/
def screenOnly (c : Command) : Bool :=
  c.addresses.all (fun va => decide (va = vgaMemory)) && decide (c ≠ pit8254Phase 0)

theorem passes_of_screenOnly {c : Command} (hc : c.screenOnly = true) {d : PageDirectory}
    (hscreen : (translate d vgaMemory).isSome = true) : c.Passes d := by
  obtain ⟨haddresses, hdivides⟩ := Bool.and_eq_true_iff.mp hc
  refine ⟨fun va hva => ?_, of_decide_eq_true hdivides⟩
  have hva' : va = vgaMemory := of_decide_eq_true (List.all_eq_true.mp haddresses va hva)
  rw [hva']
  exact hscreen

end Command

section Frame

variable (i : KernelImage) (k : Kernel) {c : Command}

/-- The processor takes the task register. -/
theorem run_initializeGdt : ∃ gdt t,
    FreeMicroNix.initializeGdt k.gdt k.machine.software.terminal = some (gdt, t) ∧ Installed gdt ∧
      Command.run i k .initializeGdt = { k with gdt := gdt }.onTerminal fun _ => t := by
  obtain ⟨gdt, t, hrun, hinstalled⟩ := initializeGdt_installed k.gdt k.machine.software.terminal
  refine ⟨gdt, t, hrun, hinstalled, ?_⟩
  unfold Command.run
  rw [hrun]

/-- The installer changes the controllers, and the gates and the screen in a way of their own. -/
theorem run_interruptHandlerInstaller : ∃ f : Idt → Terminal → Idt × Terminal,
    ∀ k : Kernel, Command.run i k .interruptHandlerInstaller = { k with machine :=
      { k.machine with
        pic := (initialize8259Pic k.machine.pic k.machine.software.terminal 0x20 0x28).1
        software := { k.machine.software with
          idt := (f k.machine.software.idt k.machine.software.terminal).1
          terminal := (f k.machine.software.idt k.machine.software.terminal).2 } } } := by
  have hterminal : ∀ (p : Pic) (t : Terminal), (initialize8259Pic p t 0x20 0x28).2
      = kprintf t (fun _ => []) (str "8259 PIC Successfully Initilialized\n") fun _ => 0 :=
    fun _ _ => rfl
  refine ⟨fun idt t => (installerRows.foldl (fun idt row => createIdtEntry idt row.num
      (i.stub row.stub) row.sel row.flags) idt,
    kprintf (kprintf t (fun _ => []) (str "8259 PIC Successfully Initilialized\n") fun _ => 0)
      (fun _ => []) (str "Interrupt Handlers Installed\n") fun _ => 0), fun k => ?_⟩
  dsimp only
  rw [← hterminal k.machine.pic]
  rfl

/-- What no command writes. -/
structure Lasting (k k' : Kernel) : Prop where
  shutdown : k'.shutdown = k.shutdown
  halted : k'.machine.halted = k.machine.halted
  pit : k'.machine.software.rest = k.machine.software.rest
  calls : k'.machine.calls = k.machine.calls
  rtc : k'.rtc = k.rtc
  directory : k'.directory = k.directory
  fs : k'.fs = k.fs
  gs : k'.gs = k.gs

theorem Lasting.refl : Lasting k k := ⟨rfl, rfl, rfl, rfl, rfl, rfl, rfl, rfl⟩

theorem Lasting.trans {k k' k'' : Kernel} (h : Lasting k k') (h' : Lasting k' k'') :
    Lasting k k'' :=
  ⟨h'.shutdown.trans h.shutdown, h'.halted.trans h.halted, h'.pit.trans h.pit,
    h'.calls.trans h.calls, h'.rtc.trans h.rtc, h'.directory.trans h.directory, h'.fs.trans h.fs,
    h'.gs.trans h.gs⟩

theorem Lasting.loads {k k' : Kernel} (h : Lasting k k') (hloads : k.Loads) : k'.Loads := by
  unfold Kernel.Loads
  rw [h.fs, h.gs]
  exact hloads

/-- What a command leaves as it was. -/
structure Framed (c : Command) (k k' : Kernel) : Prop extends Lasting k k' where
  pic : c.writesPic = false → k'.machine.pic = k.machine.pic
  idt : c.writesIdt = false → k'.machine.software.idt = k.machine.software.idt
  handlers : c.writesHandlers = false →
    k'.machine.software.interruptRoutines = k.machine.software.interruptRoutines
  gdt : c.writesGdt = false → k'.gdt = k.gdt
  flag : c.writesFlag = false → k'.interruptFlag = k.interruptFlag
  channel0 : c.writesChannel0 = false → k'.board.channel 0 = k.board.channel 0

/-- A port write for another channel, or for no channel. -/
theorem outb_channel0 (b : TimerBoard) {port : Uint16} {value : Uint8}
    (h : (Command.outb port value).writesChannel0 = false) :
    (b.outb port value).channel 0 = b.channel 0 := by
  have hother : ∀ (i : Fin 3) (f : Channel → Channel), 0 ≠ i →
      (b.toChannel i f).channel 0 = b.channel 0 := fun i f hi => Function.update_of_ne hi _ _
  obtain ⟨h40, h43⟩ : port ≠ 0x40#16 ∧ ¬ (port = 0x43#16 ∧ value.extractLsb' 6 2 = 0) :=
    not_or.mp (of_decide_eq_false h)
  unfold TimerBoard.outb
  rw [if_neg h40]
  split_ifs with h41 h42 hcontrol h61
  · exact hother 1 _ (by decide)
  · exact hother 2 _ (by decide)
  · dsimp only
    split
    · rename_i hzero
      exact absurd ⟨hcontrol, hzero⟩ h43
    · exact hother 1 _ (by decide)
    · exact hother 2 _ (by decide)
    · rfl
  · rfl
  · rfl

theorem onTerminal_running (f : Terminal → Terminal) : (k.onTerminal f).Running ↔ k.Running := by
  simp only [Kernel.Running, Kernel.onTerminal]

theorem onTerminal_framed (f : Terminal → Terminal) (c : Command) : Framed c k (k.onTerminal f) :=
  ⟨⟨rfl, rfl, rfl, rfl, rfl, rfl, rfl, rfl⟩, fun _ => rfl, fun _ => rfl, fun _ => rfl, fun _ => rfl,
    fun _ => rfl, fun _ => rfl⟩

/-- A port write for another channel. -/
theorem outb_framed {port : Uint16} {value : Uint8} {c : Command}
    (h : c.writesChannel0 = false → (Command.outb port value).writesChannel0 = false) :
    Framed c k { k with board := k.board.outb port value } :=
  ⟨⟨rfl, rfl, rfl, rfl, rfl, rfl, rfl, rfl⟩, fun _ => rfl, fun _ => rfl, fun _ => rfl, fun _ => rfl,
    fun _ => rfl, fun hc => outb_channel0 k.board (h hc)⟩

/-- An exception changes nothing yet. -/
theorem faulted_framed (c : Command) (v : Uint8) : Framed c k { k with faulted := some v } :=
  ⟨⟨rfl, rfl, rfl, rfl, rfl, rfl, rfl, rfl⟩, fun _ => rfl, fun _ => rfl, fun _ => rfl, fun _ => rfl,
    fun _ => rfl, fun _ => rfl⟩

/-- A page fault changes nothing but globals of the terminal. -/
theorem begun_framed (c : Command) : Framed c k { c.begun k with faulted := some 14 } := by
  cases c with
  | initializeTerminal =>
    have hframed := onTerminal_framed k beginTerminal .initializeTerminal
    exact ⟨⟨rfl, rfl, rfl, rfl, rfl, rfl, rfl, rfl⟩, hframed.pic, hframed.idt, hframed.handlers,
      hframed.gdt, hframed.flag, hframed.channel0⟩
  | _ => exact faulted_framed k _ 14

theorem run_framed (c : Command) : Framed c k (c.run i k) := by
  cases c with
  | initializeTerminal => exact onTerminal_framed k _ _
  | terminalSetColor color =>
    rw [Command.run]
    exact onTerminal_framed k _ _
  | kprintf format string args =>
    rw [Command.run]
    exact onTerminal_framed k _ _
  | pit8254Phase hz =>
    rw [Command.run]
    split
    · exact faulted_framed k _ _
    · exact ⟨⟨rfl, rfl, rfl, rfl, rfl, rfl, rfl, rfl⟩, fun _ => rfl, fun _ => rfl, fun _ => rfl,
        fun _ => rfl, fun _ => rfl, fun h => absurd h nofun⟩
  | installInterruptHandler index handler =>
    exact ⟨⟨rfl, rfl, rfl, rfl, rfl, rfl, rfl, rfl⟩, fun _ => rfl, fun _ => rfl,
      fun h => absurd h nofun, fun _ => rfl, fun _ => rfl, fun _ => rfl⟩
  | initializeGdt =>
    obtain ⟨gdt, t, -, -, hrun⟩ := run_initializeGdt i k
    rw [hrun]
    exact ⟨⟨rfl, rfl, rfl, rfl, rfl, rfl, rfl, rfl⟩, fun _ => rfl, fun _ => rfl, fun _ => rfl,
      fun h => absurd h nofun, fun _ => rfl, fun _ => rfl⟩
  | installIdt =>
    exact ⟨⟨rfl, rfl, rfl, rfl, rfl, rfl, rfl, rfl⟩, fun _ => rfl, fun h => absurd h nofun,
      fun _ => rfl, fun _ => rfl, fun _ => rfl, fun _ => rfl⟩
  | interruptHandlerInstaller =>
    obtain ⟨f, hrun⟩ := run_interruptHandlerInstaller i
    rw [hrun]
    exact ⟨⟨rfl, rfl, rfl, rfl, rfl, rfl, rfl, rfl⟩, fun h => absurd h nofun,
      fun h => absurd h nofun, fun _ => rfl, fun _ => rfl, fun _ => rfl, fun _ => rfl⟩
  | readMemUpper mbi =>
    exact ⟨⟨rfl, rfl, rfl, rfl, rfl, rfl, rfl, rfl⟩, fun _ => rfl, fun _ => rfl, fun _ => rfl,
      fun _ => rfl, fun _ => rfl, fun _ => rfl⟩
  | enableInterrupts =>
    exact ⟨⟨rfl, rfl, rfl, rfl, rfl, rfl, rfl, rfl⟩, fun _ => rfl, fun _ => rfl, fun _ => rfl,
      fun _ => rfl, fun h => absurd h nofun, fun _ => rfl⟩
  | disableInterrupts =>
    exact ⟨⟨rfl, rfl, rfl, rfl, rfl, rfl, rfl, rfl⟩, fun _ => rfl, fun _ => rfl, fun _ => rfl,
      fun _ => rfl, fun h => absurd h nofun, fun _ => rfl⟩
  | outb port value => exact outb_framed k id
  | inPort61 =>
    exact ⟨⟨rfl, rfl, rfl, rfl, rfl, rfl, rfl, rfl⟩, fun _ => rfl, fun _ => rfl, fun _ => rfl,
      fun _ => rfl, fun _ => rfl, fun _ => rfl⟩
  | outPort61Or bits => exact outb_framed k fun _ => rfl
  | outPort61And bits => exact outb_framed k fun _ => rfl

theorem exec_framed (c : Command) : Framed c k (c.exec i k) := by
  unfold Command.exec
  split
  · split
    · exact run_framed i k c
    · exact begun_framed k c
  · exact ⟨⟨rfl, rfl, rfl, rfl, rfl, rfl, rfl, rfl⟩, fun _ => rfl, fun _ => rfl, fun _ => rfl,
      fun _ => rfl, fun _ => rfl, fun _ => rfl⟩

end Frame

/-! ## Whether a command runs -/

section Running

variable (i : KernelImage) {k : Kernel}

/-- **What has raised no exception has run**, and its addresses are mapped. -/
theorem exec_running {c : Command} (h : (c.exec i k).Running) :
    k.Running ∧ (∀ va ∈ c.addresses, (translate k.directory va).isSome = true) ∧
      c.exec i k = c.run i k := by
  unfold Command.exec at h ⊢
  by_cases hrun : k.Running
  · rw [if_pos hrun] at h ⊢
    split at h
    · exact ⟨hrun, List.all_eq_true.mp ‹_›, if_pos ‹_›⟩
    · exact absurd h.2 nofun
  · rw [if_neg hrun] at h
    exact absurd h hrun

theorem exec_eq_run {c : Command} (h : (c.exec i k).Running) :
    k.Running ∧ c.exec i k = c.run i k :=
  have hall := exec_running i h
  ⟨hall.1, hall.2.2⟩

/-- No command but a division by zero raises one of its own. -/
theorem run_running (hrun : k.Running) {c : Command} (hc : c ≠ .pit8254Phase 0) :
    (c.run i k).Running := by
  cases c with
  | pit8254Phase hz =>
    have hz0 : hz ≠ 0 := fun h => hc (congrArg Command.pit8254Phase h)
    obtain ⟨b, hphase, -⟩ := pit8254Phase_channel k.board hz0
    rw [Command.run, hphase]
    exact hrun
  | initializeGdt =>
    obtain ⟨gdt, t, -, -, hgdt⟩ := run_initializeGdt i k
    rw [hgdt]
    exact hrun
  | interruptHandlerInstaller =>
    obtain ⟨f, hinstaller⟩ := run_interruptHandlerInstaller i
    rw [hinstaller]
    exact hrun
  | initializeTerminal => exact (onTerminal_running k _).mpr hrun
  | _ => exact hrun

/-- **With its addresses mapped** a command raises none. -/
theorem exec_passes (hrun : k.Running) {c : Command} (hc : c.Passes k.directory) :
    (c.exec i k).Running := by
  rw [Command.exec, if_pos hrun, if_pos (List.all_eq_true.mpr hc.1)]
  exact run_running i hrun hc.2

end Running

/-! ## Commands without interrupts -/

/-- The commands one after the other. -/
def execAll (i : KernelImage) (k : Kernel) (cs : List Command) : Kernel :=
  cs.foldl (fun k c => c.exec i k) k

section Sequence

variable (i : KernelImage) (k : Kernel)

theorem execAll_append (cs cs' : List Command) :
    execAll i k (cs ++ cs') = execAll i (execAll i k cs) cs' := List.foldl_append

/-- What no command changes. -/
theorem execAll_lasting (cs : List Command) : Lasting k (execAll i k cs) := by
  induction cs generalizing k with
  | nil => exact .refl k
  | cons c cs ih => exact (exec_framed i k c).toLasting.trans (ih (c.exec i k))

/-- What is running now was running before. -/
theorem running_of_execAll {cs : List Command} (h : (execAll i k cs).Running) : k.Running := by
  induction cs generalizing k with
  | nil => exact h
  | cons c cs ih => exact (exec_eq_run i (ih (c.exec i k) h)).1

/-- A processor that runs goes on running, with the addresses mapped. -/
theorem execAll_passes (hrun : k.Running) {cs : List Command}
    (hcs : ∀ c ∈ cs, c.Passes k.directory) : (execAll i k cs).Running := by
  induction cs generalizing k with
  | nil => exact hrun
  | cons c cs ih =>
    refine ih (c.exec i k) (exec_passes i hrun (hcs c List.mem_cons_self)) ?_
    rw [(exec_framed i k c).directory]
    exact fun c hc => hcs c (List.mem_cons_of_mem _ hc)

/-- Between `sti` and `cli` the flag stays as it is. -/
theorem execAll_flag {cs : List Command} (h : ∀ c ∈ cs, c.writesFlag = false) :
    (execAll i k cs).interruptFlag = k.interruptFlag := by
  induction cs generalizing k with
  | nil => rfl
  | cons c cs ih =>
    exact (ih (c.exec i k) fun c hc => h c (List.mem_cons_of_mem _ hc)).trans
      ((exec_framed i k c).flag (h c List.mem_cons_self))

end Sequence

end FreeMicroNix
