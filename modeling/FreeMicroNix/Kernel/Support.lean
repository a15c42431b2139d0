/-
  What `kmain` needs of the boot loader to raise no exception.

  `Kernel.Boot` takes a boot that `kmain` gets through.  Here it is said which boots these are, among
  all that the loader and the firmware may leave: the screen has to be mapped where the source takes
  it to be; and with the right word in `eax` the boot information too, and `fs` and `gs` have to hold
  selectors that the stubs can pop (`kmain_runs_iff`).  A numeral longer than the buffer of `kprintf`
  (`AtBoot.fits` rules it out there) is not looked at here.

  `loader.asm` clears the entry of its directory that maps the screen before it calls `kmain`.  There
  the first statement faults, in every run, and nothing else has been done (`unmapped_run`).
-/
import FreeMicroNix.Kernel.Boot

namespace FreeMicroNix

open Interleaving

/-- The kernel once `Initialize_Terminal` has faulted on the screen. -/
def Kernel.screenless (k : Kernel) : Kernel := { k.onTerminal beginTerminal with faulted := some 14 }

/-! ## What is needed -/

/-- The statements up to `sti`. -/
def setupCommands (i : KernelImage) (mbi : MultibootInfo) : List Command :=
  commands (Kernel.setup i mbi) ++ [.enableInterrupts]

section Needed

variable (i : KernelImage) {k₀ : Kernel} {magic : Uint32} {mbi : MultibootInfo}

/-- After as many steps without an interrupt they are done. -/
theorem kernelRun_setup : (kernelRun i k₀ multibootBootloaderMagic mbi
      (List.replicate (setupCommands i mbi).length .proceed)).state
    = execAll i k₀ (setupCommands i mbi) := by
  have hprogram : Kernel.kmain i multibootBootloaderMagic mbi
      = (setupCommands i mbi).map .act ++ Kernel.demonstration := rfl
  have hrun := (kernelSystem i).run_acts k₀ (setupCommands i mbi) Kernel.demonstration
  unfold kernelRun
  rw [hprogram]
  exact congrArg Thread.state hrun

/-- **The screen** is needed at once. -/
theorem screen_needed (hruns : ∀ events, (kernelRun i k₀ magic mbi events).state.Running) :
    (translate k₀.directory vgaMemory).isSome = true := by
  obtain ⟨rest, hprogram, -⟩ := kmain_clears i magic mbi
  have hfirst : (Command.exec i .initializeTerminal k₀).Running := by
    have hrun := hruns [.proceed]
    unfold kernelRun at hrun
    rw [hprogram] at hrun
    exact hrun
  exact (exec_running i hfirst).2.1 vgaMemory List.mem_cons_self

/-- **The boot information** is needed for the report. -/
theorem information_needed (hrun : (execAll i k₀ (setupCommands i mbi)).Running) :
    ∀ va ∈ (Command.readMemUpper mbi.address).addresses,
      (translate k₀.directory va).isSome = true := by
  obtain ⟨before, after, hparts⟩ : ∃ before after,
      setupCommands i mbi = before ++ .readMemUpper mbi.address :: after :=
    ⟨commands (Kernel.banner ++ Kernel.initializePit8254 i ++
      [.act .initializeGdt, .act .installIdt, .act .interruptHandlerInstaller]), _, rfl⟩
  rw [hparts, execAll_append] at hrun
  have hread : (Command.exec i (.readMemUpper mbi.address) (execAll i k₀ before)).Running :=
    running_of_execAll i _ hrun
  have hmapped := (exec_running i hread).2.1
  rw [(execAll_lasting i k₀ before).directory] at hmapped
  exact hmapped

/-- **`fs` and `gs`** are needed as soon as interrupts are on: a spurious one comes through any
    mask. -/
theorem loads_needed (hloaded : k₀.Loaded)
    (hruns : ∀ events, (kernelRun i k₀ multibootBootloaderMagic mbi events).state.Running) :
    k₀.Loads := by
  obtain ⟨events, hstate⟩ : ∃ events, (kernelRun i k₀ multibootBootloaderMagic mbi events).state
      = execAll i k₀ (setupCommands i mbi) := ⟨_, kernelRun_setup i⟩
  have hrun := hruns events
  have hnext := hruns (events ++ [.interrupt (.spuriousMaster, zeroContext 0)])
  have hlasting := execAll_lasting i k₀ (setupCommands i mbi)
  have hflag : (kernelRun i k₀ multibootBootloaderMagic mbi events).state.interruptFlag = true := by
    rw [hstate, setupCommands, execAll_append] at hrun ⊢
    show (Command.exec i .enableInterrupts _).interruptFlag = true
    rw [(exec_eq_run i hrun).2]
    rfl
  obtain ⟨-, hready, -⟩ :=
    loaded_ready_run i hloaded multibootBootloaderMagic mbi events hrun hflag
  by_contra hloads
  have hnot : ¬ (kernelRun i k₀ multibootBootloaderMagic mbi events).state.Loads := by
    rw [hstate]
    unfold Kernel.Loads
    rw [hlasting.fs, hlasting.gs]
    exact hloads
  obtain ⟨ctx, -, -, htake⟩ := hready.take_leave (.spuriousMaster, zeroContext 0)
  have haccepts : (kernelRun i k₀ multibootBootloaderMagic mbi events).state.Accepts
      .spuriousMaster := ⟨hflag, hrun, trivial⟩
  rw [if_pos haccepts] at htake
  have hstops := hready.take_stops hnot htake
  have htaken : (kernelSystem i).take ((kernelSystem i).run
      (.start k₀ (Kernel.kmain i multibootBootloaderMagic mbi)) events).state
        (.spuriousMaster, zeroContext 0) = _ := htake
  unfold kernelRun at hnext
  rw [System.run_concat, System.step, htaken] at hnext
  exact hstops hnext

/-- **Without the screen** nothing is done but what comes before the first store to it. -/
theorem unmapped_run (hloaded : k₀.Loaded) (hscreen : translate k₀.directory vgaMemory = none)
    (events : List (Event Arrival)) : (kernelRun i k₀ magic mbi events).state = k₀ ∨
      (kernelRun i k₀ magic mbi events).state = k₀.screenless := by
  obtain ⟨rest, hprogram, -⟩ := kmain_clears i magic mbi
  have hfault : Command.exec i .initializeTerminal k₀ = k₀.screenless := by
    have hunmapped : ¬ (Command.initializeTerminal.addresses.all
        fun va => (translate k₀.directory va).isSome) = true := by
      rw [Command.addresses, List.all_cons, hscreen]
      exact Bool.false_ne_true
    rw [Command.exec, if_pos hloaded.running.1, if_neg hunmapped]
    rfl
  have hstands : ∀ c : Command, c.exec i k₀.screenless = k₀.screenless :=
    fun c => if_neg fun hrun => absurd hrun.2 (Option.some_ne_none 14)
  have hdeaf : k₀.interruptFlag = false := hloaded.interruptFlag
  have hrun : (kernelSystem i).run (.start k₀ (.act .initializeTerminal :: rest)) events
        = .start k₀ (.act .initializeTerminal :: rest) ∨
      ((kernelSystem i).run (.start k₀ (.act .initializeTerminal :: rest)) events).state
        = k₀.screenless := by
    refine (kernelSystem i).run_induction (P := fun _ t => t = .start k₀
      (.act .initializeTerminal :: rest) ∨ t.state = k₀.screenless) (Or.inl rfl) ?_
      (fun _ _ h _ => h) ?_ events
    · rintro events (hstart | hfaulted)
      · rw [hstart]
        exact Or.inr hfault
      · refine Or.inr ?_
        rcases (kernelSystem i).proceed_state _ with hsame | ⟨c, hcommand⟩
        · exact hsame.trans hfaulted
        · rw [hcommand, hfaulted]
          exact hstands c
    · intro events a k' h htake
      have hflag := Kernel.flag_of_take htake
      rcases h with hstart | hfaulted
      · rw [hstart] at hflag
        exact absurd (hflag.symm.trans hdeaf) (by decide)
      · rw [hfaulted] at hflag
        exact absurd (hflag.symm.trans hdeaf) (by decide)
  unfold kernelRun
  rw [hprogram]
  rcases hrun with hstart | hfaulted
  · exact Or.inl (congrArg Thread.state hstart)
  · exact Or.inr hfaulted

end Needed

/-! ## Every boot -/

/-- **When `kmain` raises no exception.**  From a state that the loader and the firmware may leave, it
    raises none in any run exactly if the screen is mapped and, with the right word in `eax`, the boot
    information is and the stubs can pop `fs` and `gs`.  Without the screen it raises one at once. -/
theorem kmain_runs_iff (i : KernelImage) {k₀ : Kernel} (hloaded : k₀.Loaded) (magic : Uint32)
    (mbi : MultibootInfo) :
    ((∀ events, (kernelRun i k₀ magic mbi events).state.Running) ↔
      (translate k₀.directory vgaMemory).isSome = true ∧
      (magic = multibootBootloaderMagic →
        (∀ va ∈ (Command.readMemUpper mbi.address).addresses,
          (translate k₀.directory va).isSome = true) ∧ k₀.Loads)) ∧
    (translate k₀.directory vgaMemory = none → ∀ events,
      (kernelRun i k₀ magic mbi events).state = k₀ ∨
        (kernelRun i k₀ magic mbi events).state = k₀.screenless) := by
  refine ⟨⟨fun hruns => ⟨screen_needed i hruns, ?_⟩, ?_⟩, unmapped_run i hloaded⟩
  · rintro rfl
    refine ⟨information_needed i ?_, loads_needed i hloaded hruns⟩
    rw [← kernelRun_setup]
    exact hruns _
  · rintro ⟨hscreen, hright⟩ events
    exact running_of_passes i hloaded (kmain_passes i hscreen fun h => (hright h).1)
      (fun h => (hright h).2) events

/-- The directory as `loader.asm` leaves it. -/
def loaderKernel : Kernel := { coldKernel 0xB8 with directory := cleared }

/-- A boot with the directory's first entry still there, and one as the loader calls `kmain`. -/
theorem kmain_runs_loader :
    (∀ events, (kernelRun linkedKernel (coldKernel 0xB8) multibootBootloaderMagic coldInfo
      events).state.Running) ∧
    ∀ events, (kernelRun linkedKernel loaderKernel multibootBootloaderMagic coldInfo events).state
        = loaderKernel ∨
      (kernelRun linkedKernel loaderKernel multibootBootloaderMagic coldInfo events).state
        = loaderKernel.screenless := by
  have hsupported := (coldKernel_atBoot 0xB8).toSupported
  have hloaded : loaderKernel.Loaded := ⟨rfl, ⟨⟨rfl, rfl⟩, rfl⟩, ⟨rfl, rfl⟩, rfl, rfl, rfl, rfl⟩
  have hlow : ∀ va ∈ (Command.readMemUpper coldInfo.address).addresses, Low va :=
    fun va hva => of_decide_eq_true (List.all_eq_true.mp
      (show (Command.readMemUpper coldInfo.address).addresses.all (fun va => decide (Low va)) = true
        by decide) va hva)
  constructor
  · exact (kmain_runs_iff linkedKernel (coldKernel_loaded 0xB8) multibootBootloaderMagic
      coldInfo).1.mpr ⟨hsupported.screen,
        fun _ => ⟨fun va hva => hsupported.mapped va (hlow va hva), hsupported.loads⟩⟩
  · exact (kmain_runs_iff linkedKernel hloaded multibootBootloaderMagic coldInfo).2
      (translate_cleared.2 (by decide))

end FreeMicroNix
