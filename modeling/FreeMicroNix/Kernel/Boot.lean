/-
  `kmain` under interrupts: every run of it, from every boot.

  `loaded_still_run` is `Lib.Interleaving`'s transparency for the kernel: up to the tick counters and
  the acknowledgements, a run that has raised no exception leaves what its statements leave without
  interrupts.  So the flag is set only behind `sti`, where the kernel is ready, and an interrupt of a
  ready kernel is harmless (`Kernel.Ready`): the two facts hold each other up along the run.

  With low memory mapped and `fs` and `gs` as they have to be, no run raises an exception
  (`running_run`); `kmain_safe` is what follows.
-/
import FreeMicroNix.Kernel.Ready

namespace FreeMicroNix

open Interleaving LastWrite

/-! ## The program, statement by statement -/

/-- `sti` -/
def Command.enables : Command → Bool
  | .enableInterrupts => true
  | _ => false

/-- Before `sti` the flag stays clear. -/
theorem execAll_disabled (i : KernelImage) {k : Kernel} {cs : List Command}
    (h : ∀ c ∈ cs, c.enables = false) (hflag : k.interruptFlag = false) :
    (execAll i k cs).interruptFlag = false := by
  induction cs generalizing k with
  | nil => exact hflag
  | cons c cs ih =>
    refine ih (fun c hc => h c (List.mem_cons_of_mem _ hc)) ?_
    have hc := h c List.mem_cons_self
    by_cases hwrites : c.writesFlag = false
    · exact ((exec_framed i k c).flag hwrites).trans hflag
    · show (c.exec i k).interruptFlag = false
      unfold Command.exec
      split_ifs
      · cases c with
        | enableInterrupts => exact absurd hc (by decide)
        | disableInterrupts => rfl
        | _ => exact absurd rfl hwrites
      · cases c <;> exact hflag
      · exact hflag

theorem inert_demonstration :
    (commands Kernel.demonstration).all (fun c => c.inert && !c.writesFlag) = true := rfl

theorem enables_setup (i : KernelImage) (mbi : MultibootInfo) :
    (commands (Kernel.setup i mbi)).all (fun c => !c.enables) = true := rfl

theorem enables_rejected :
    (commands Kernel.rejected).all (fun c => !c.enables) = true := rfl

/-- `Initialize_Terminal()` comes first, and only there. -/
theorem kmain_clears (i : KernelImage) (magic : Uint32) (mbi : MultibootInfo) :
    ∃ rest, Kernel.kmain i magic mbi = .act .initializeTerminal :: rest ∧
      .initializeTerminal ∉ commands rest := by
  have hnone : ∀ {cs : List Command},
      cs.all (fun c => decide (c ≠ .initializeTerminal)) = true → .initializeTerminal ∉ cs :=
    fun hall hmem => of_decide_eq_true (List.all_eq_true.mp hall _ hmem) rfl
  unfold Kernel.kmain
  by_cases hmagic : magic = multibootBootloaderMagic
  · rw [if_neg (not_not_intro hmagic)]
    exact ⟨_, rfl, hnone rfl⟩
  · rw [if_pos hmagic]
    exact ⟨_, rfl, hnone rfl⟩

/-- **What `kmain` goes to**: the screen, and with the right word in `eax` the boot information. -/
theorem kmain_passes (i : KernelImage) {magic : Uint32} {mbi : MultibootInfo} {d : PageDirectory}
    (hscreen : (translate d vgaMemory).isSome = true)
    (hmbi : magic = multibootBootloaderMagic →
      ∀ va ∈ (Command.readMemUpper mbi.address).addresses, (translate d va).isSome = true) :
    ∀ c ∈ commands (Kernel.kmain i magic mbi), c.Passes d := by
  have hall : ∀ {cs : List Command}, cs.all Command.screenOnly = true → ∀ c ∈ cs, c.Passes d :=
    fun hcs c hc => Command.passes_of_screenOnly (List.all_eq_true.mp hcs c hc) hscreen
  unfold Kernel.kmain
  by_cases hmagic : magic = multibootBootloaderMagic
  · rw [if_neg (not_not_intro hmagic)]
    have hbefore : (commands (Kernel.banner ++ Kernel.initializePit8254 i ++
        [.act .initializeGdt, .act .installIdt, .act .interruptHandlerInstaller])).all
          Command.screenOnly = true := rfl
    have hbehind : (commands ((Kernel.report mbi).tail ++ .act .enableInterrupts ::
        Kernel.demonstration)).all Command.screenOnly = true := rfl
    intro c hc
    have hparts : commands (Kernel.setup i mbi ++ .act .enableInterrupts :: Kernel.demonstration)
        = commands (Kernel.banner ++ Kernel.initializePit8254 i ++
            [.act .initializeGdt, .act .installIdt, .act .interruptHandlerInstaller]) ++
          .readMemUpper mbi.address :: commands ((Kernel.report mbi).tail ++
            .act .enableInterrupts :: Kernel.demonstration) := rfl
    rw [hparts] at hc
    rcases List.mem_append.mp hc with hc | hc
    · exact hall hbefore c hc
    · rcases List.mem_cons.mp hc with rfl | hc
      · exact ⟨hmbi hmagic, nofun⟩
      · exact hall hbehind c hc
  · rw [if_pos hmagic]
    exact hall (show (commands Kernel.rejected).all Command.screenOnly = true from rfl)

theorem Kernel.Supported.mapped {k : Kernel} (h : k.Supported) (va : Uint32) (hva : Low va) :
    (translate k.directory va).isSome = true := by
  rw [h.low va hva]
  rfl

theorem Kernel.Supported.screen {k : Kernel} (h : k.Supported) :
    (translate k.directory vgaMemory).isSome = true := h.mapped vgaMemory (by decide)

/-- In a boot with low memory mapped both are. -/
theorem Kernel.AtBoot.passes {k₀ : Kernel} {mbi : MultibootInfo} (h : k₀.AtBoot mbi)
    (i : KernelImage) (magic : Uint32) :
    ∀ c ∈ commands (Kernel.kmain i magic mbi), c.Passes k₀.directory := by
  have hmapped := h.toSupported.mapped
  refine kmain_passes i h.toSupported.screen fun _ => ?_
  have hlow : ∀ n : Uint32, n.toNat ≤ 11 → Low (mbi.address + n) := by
    intro n hn
    have hinformation := h.information
    unfold Low
    rw [BitVec.toNat_add]
    omega
  simp only [Command.addresses, List.forall_mem_cons]
  exact ⟨hmapped _ (hlow 8 (by decide)), hmapped _ (hlow 9 (by decide)),
    hmapped _ (hlow 10 (by decide)), hmapped _ (hlow 11 (by decide)), List.forall_mem_nil _⟩

/-- A part of a program has a part of its commands. -/
theorem commands_split {κ δ : Type} {program pre rest : List (Stmt κ δ)}
    (h : program = pre ++ rest) : commands pre <+: commands program := by
  rw [h, commands_append]
  exact List.prefix_append _ _

/-- **Before and after `sti`.**  The commands done so far have not enabled interrupts, or they are
    the installations, `sti`, and commands that write nothing the installations have left. -/
theorem kmain_phases (i : KernelImage) {magic : Uint32} {mbi : MultibootInfo}
    {pre rest : List (Stmt Command Uint64)}
    (hsplit : Kernel.kmain i magic mbi = pre ++ rest) :
    (∀ c ∈ commands pre, c.enables = false) ∨
      (magic = multibootBootloaderMagic ∧
        ∃ cs, (∀ c ∈ cs, c.inert = true ∧ c.writesFlag = false) ∧
        commands pre = commands (Kernel.setup i mbi) ++ .enableInterrupts :: cs) := by
  unfold Kernel.kmain at hsplit
  have hnone : ∀ {program : List (Stmt Command Uint64)},
      (commands program).all (fun c => !c.enables) = true → commands pre <+: commands program →
      ∀ c ∈ commands pre, c.enables = false := by
    intro program hall hpart c hc
    simpa using List.all_eq_true.mp hall c (hpart.subset hc)
  by_cases hmagic : magic = multibootBootloaderMagic
  · rw [if_neg (not_not_intro hmagic)] at hsplit
    rcases List.append_eq_append_iff.mp hsplit with ⟨post, hpre, hpost⟩ | ⟨post, hsetup, -⟩
    · cases post with
      | nil =>
        rw [List.append_nil] at hpre
        exact Or.inl (hnone (enables_setup i mbi)
          ⟨[], (List.append_nil _).trans (congrArg commands hpre)⟩)
      | cons stmt post =>
        obtain ⟨rfl, hdemonstration⟩ := List.cons.inj hpost
        refine Or.inr ⟨hmagic, commands post, fun c hc => ?_, ?_⟩
        · have hmem := (commands_split hdemonstration).subset hc
          have hinert := List.all_eq_true.mp inert_demonstration c hmem
          simpa using hinert
        · rw [hpre, commands_append]
          rfl
    · exact Or.inl (hnone (enables_setup i mbi) (commands_split hsetup))
  · rw [if_pos hmagic] at hsplit
    exact Or.inl (hnone enables_rejected (commands_split hsplit))

/-- Once `sti` is done, the kernel is ready, and so it was just before. -/
theorem ready_of_enabled (i : KernelImage) {k : Kernel} (hloaded : k.Loaded)
    {magic : Uint32} {mbi : MultibootInfo} {pre rest : List (Stmt Command Uint64)}
    (hsplit : Kernel.kmain i magic mbi = pre ++ rest)
    (hrun : (execAll i k (commands pre)).Running)
    (hflag : (execAll i k (commands pre)).interruptFlag = true) :
    magic = multibootBootloaderMagic ∧ .enableInterrupts ∈ commands pre ∧
      Ready i (execAll i k (commands pre)) ∧
      SameMasks k.machine.pic (execAll i k (commands pre)).machine.pic := by
  rcases kmain_phases i hsplit with hnone | ⟨hmagic, cs, hcs, hcommands⟩
  · rw [execAll_disabled i hnone hloaded.interruptFlag] at hflag
    exact absurd hflag Bool.false_ne_true
  · have hfirst : (commands Kernel.banner).all Command.inert = true := rfl
    have hsecond : (commands [Kernel.print "8254 PIT Initialized on channel 0\n"]).all Command.inert
        = true := rfl
    have hthird : (commands (Kernel.report mbi)).all Command.inert = true := rfl
    have hinert : ∀ c ∈ Command.enableInterrupts :: cs, c.inert = true := by
      intro c hc
      rcases List.mem_cons.mp hc with rfl | hc
      · rfl
      · exact (hcs c hc).1
    rw [hcommands, execAll_append] at hrun ⊢
    have hrun' := running_of_execAll i (execAll i k (commands (Kernel.setup i mbi))) hrun
    obtain ⟨hready, hmasks⟩ := ready_installations i hloaded (List.all_eq_true.mp hfirst)
      (List.all_eq_true.mp hsecond) (List.all_eq_true.mp hthird) hrun'
    have hkept := execAll_kept i (execAll i k (commands (Kernel.setup i mbi))) hinert
    refine ⟨hmagic, List.mem_append_right _ List.mem_cons_self, hready.kept hkept hrun, ?_⟩
    rw [hkept.pic]
    exact hmasks

/-- No command puts a line in service. -/
theorem execAll_idle (i : KernelImage) {k : Kernel} (hidle : Idle k.machine.pic)
    (cs : List Command) : Idle (execAll i k cs).machine.pic := by
  induction cs generalizing k with
  | nil => exact hidle
  | cons c cs ih =>
    refine ih ?_
    by_cases hwrites : c.writesPic = false
    · rw [(exec_framed i k c).pic hwrites]
      exact hidle
    · show Idle (c.exec i k).machine.pic
      unfold Command.exec
      split_ifs
      · cases c with
        | interruptHandlerInstaller =>
          obtain ⟨f, hrun⟩ := run_interruptHandlerInstaller i
          obtain ⟨-, -, -, -, -, hmaster, hslave⟩ :=
            initialize8259Pic_spec k.machine.pic k.machine.software.terminal 0x20 0x28
          rw [hrun]
          exact ⟨hmaster.trans hidle.1, hslave.trans hidle.2⟩
        | _ => exact absurd rfl hwrites
      · cases c <;> exact hidle
      · exact hidle

/-- Only an enabled interrupt is taken, and by a processor that runs. -/
theorem Kernel.accepts_of_take {i : KernelImage} {k k' : Kernel} {a : Arrival}
    (htake : k.take i a = some k') : k.Accepts a.1 := by
  by_cases haccepts : k.Accepts a.1
  · exact haccepts
  · rw [Kernel.take, if_neg haccepts] at htake
    exact absurd htake nofun

theorem Kernel.flag_of_take {i : KernelImage} {k k' : Kernel} {a : Arrival}
    (htake : k.take i a = some k') : k.interruptFlag = true := (accepts_of_take htake).1

/-- `kmain` under way. -/
def kernelRun (i : KernelImage) (k₀ : Kernel) (magic : Uint32) (mbi : MultibootInfo)
    (events : List (Event Arrival)) : Thread Kernel Command Uint64 Uint64 :=
  (kernelSystem i).run (.start k₀ (Kernel.kmain i magic mbi)) events

section Loaded

variable (i : KernelImage) {k₀ : Kernel} (hloaded : k₀.Loaded) (magic : Uint32)
  (mbi : MultibootInfo) (events : List (Event Arrival))

include hloaded in
/-- **Interrupts leave no trace but the clock's.**  After every run that has raised no exception the
    kernel, without the port writes, the status registers selected, the tick counters, the handler
    calls and the accessed bits of the user's segments, is what the statements done so far make of it
    one after the other, with no interrupt in between. -/
theorem loaded_still_run : ∃ pre,
    Kernel.kmain i magic mbi = pre ++ (kernelRun i k₀ magic mbi events).rest ∧
    ((kernelRun i k₀ magic mbi events).state.Running →
      (kernelRun i k₀ magic mbi events).state.still = (execAll i k₀ (commands pre)).still) := by
  obtain ⟨pre, hsplit, hview⟩ := (kernelSystem i).view_eq_commands Kernel.still
    (fun c v => (c.exec i v).still) Kernel.Running (exec_still i)
    (fun c k hrun => (exec_eq_run i hrun).1) k₀ (Kernel.kmain i magic mbi) (by
      intro pre rest k a k' hsplit hview htake hrun'
      obtain ⟨hflagged, hrun, -⟩ := Kernel.accepts_of_take htake
      have hsame := hview hrun
      rw [foldl_still] at hsame
      have hflag : (execAll i k₀ (commands pre)).interruptFlag = true :=
        (congrArg Kernel.interruptFlag hsame).symm.trans hflagged
      have hdone : (execAll i k₀ (commands pre)).Running := by
        have hboth : k.still.Running := hrun
        rw [hsame] at hboth
        exact hboth
      obtain ⟨-, -, hready, -⟩ := ready_of_enabled i hloaded hsplit hdone hflag
      rw [ready_iff_still, ← hsame, ← ready_iff_still] at hready
      refine ⟨hrun, ?_⟩
      by_cases hloads : k.Loads
      · exact hready.still_take hloads htake
      · exact absurd hrun' (hready.take_stops hloads htake)) events
  rw [foldl_still] at hview
  exact ⟨pre, hsplit, hview⟩

include hloaded in
/-- Interrupts are on only behind `sti`, and then the kernel is ready for them. -/
theorem loaded_ready_run (hrun : (kernelRun i k₀ magic mbi events).state.Running)
    (hflag : (kernelRun i k₀ magic mbi events).state.interruptFlag = true) :
    magic = multibootBootloaderMagic ∧ Ready i (kernelRun i k₀ magic mbi events).state ∧
      SameMasks k₀.machine.pic (kernelRun i k₀ magic mbi events).state.machine.pic ∧
      ∃ pre, Kernel.kmain i magic mbi = pre ++ (kernelRun i k₀ magic mbi events).rest ∧
        .act .enableInterrupts ∈ pre := by
  obtain ⟨pre, hsplit, hview⟩ := loaded_still_run i hloaded magic mbi events
  have hstill := hview hrun
  have hflag' : (execAll i k₀ (commands pre)).interruptFlag = true :=
    (congrArg Kernel.interruptFlag hstill).symm.trans hflag
  have hdone : (execAll i k₀ (commands pre)).Running := by
    have hboth : (kernelRun i k₀ magic mbi events).state.still.Running := hrun
    rw [hstill] at hboth
    exact hboth
  obtain ⟨hmagic, hmem, hready, hmasks⟩ := ready_of_enabled i hloaded hsplit hdone hflag'
  refine ⟨hmagic, ready_iff_still.mpr ?_, ?_, pre, hsplit, ?_⟩
  · rw [hstill]
    exact ready_iff_still.mp hready
  · have hpic := congrArg (fun k : Kernel => k.machine.pic) hstill
    have hmaster := congrArg (fun p : Pic => p.master.imr) hpic
    have hslave := congrArg (fun p : Pic => p.slave.imr) hpic
    exact ⟨hmaster.trans hmasks.master, hslave.trans hmasks.slave⟩
  · exact mem_commands.mp hmem

include hloaded in
/-- **When no run raises an exception**: if its addresses are mapped, and interrupts, once they are on,
    come back. -/
theorem running_of_passes {magic : Uint32} {mbi : MultibootInfo}
    (hpasses : ∀ c ∈ commands (Kernel.kmain i magic mbi), c.Passes k₀.directory)
    (hloads : magic = multibootBootloaderMagic → k₀.Loads) (events : List (Event Arrival)) :
    (kernelRun i k₀ magic mbi events).state.Running := by
  refine (kernelSystem i).run_induction (P := fun _ t => t.state.Running) hloaded.running.1 ?_
    (fun _ _ h _ => h) ?_ events
  · intro events hrun
    obtain ⟨pre, hsplit, hview⟩ := loaded_still_run i hloaded magic mbi events
    have hdirectory : (kernelRun i k₀ magic mbi events).state.directory = k₀.directory :=
      (congrArg Kernel.directory (hview hrun)).trans
        (execAll_lasting i k₀ (commands pre)).directory
    rcases (kernelSystem i).proceed_cases (kernelRun i k₀ magic mbi events) with ⟨-, hstep⟩ |
      ⟨c, rest, hrest, hstep⟩ | ⟨d, rest, -, -, hstep⟩ | ⟨d, rest, b, -, -, -, hstep⟩ |
      ⟨d, rest, b, p, -, -, -, hstep⟩
    · exact hstep ▸ hrun
    · have hmem : c ∈ commands (Kernel.kmain i magic mbi) := by
        rw [hsplit, hrest]
        exact mem_commands.mpr (List.mem_append_right _ List.mem_cons_self)
      have hc := hpasses c hmem
      rw [← hdirectory] at hc
      exact hstep ▸ exec_passes i hrun hc
    · exact hstep ▸ hrun
    · exact hstep ▸ hrun
    · exact hstep ▸ hrun
  · intro events a k' hrun htake
    obtain ⟨pre, -, hview⟩ := loaded_still_run i hloaded magic mbi events
    obtain ⟨hmagic, hready, -⟩ :=
      loaded_ready_run i hloaded magic mbi events hrun (Kernel.flag_of_take htake)
    have hlasting := execAll_lasting i k₀ (commands pre)
    have hstays : (kernelRun i k₀ magic mbi events).state.Loads := by
      have hboth : (execAll i k₀ (commands pre)).still.Loads := hlasting.loads (hloads hmagic)
      rw [← hview hrun] at hboth
      exact hboth
    obtain ⟨-, rfl⟩ := hready.take hstays htake
    exact hrun

end Loaded

/-- Commands leave alone what the boot loader has set up. -/
theorem Kernel.Supported.lasting {k k' : Kernel} (h : k.Supported) (hlasting : Lasting k k') :
    k'.Supported := by
  refine ⟨?_, hlasting.loads h.loads⟩
  rw [hlasting.directory]
  exact h.low

/-- So do interrupts. -/
theorem Kernel.Supported.of_still {k k' : Kernel} (h : k'.Supported) (hstill : k.still = k'.still) :
    k.Supported := by
  have hboth : k'.still.Supported := ⟨h.low, h.loads⟩
  rw [← hstill] at hboth
  exact ⟨hboth.low, hboth.loads⟩

section Runs

variable (i : KernelImage) {k₀ : Kernel} {mbi : MultibootInfo} (hboot : k₀.AtBoot mbi)
  (magic : Uint32) (events : List (Event Arrival))

include hboot in
/-- **No run raises an exception.** -/
theorem running_run : (kernelRun i k₀ magic mbi events).state.Running :=
  running_of_passes i hboot.toLoaded (hboot.passes i magic) (fun _ => hboot.loads) events

include hboot in
/-- So interrupts leave no trace in any of them. -/
theorem still_run : ∃ pre,
    Kernel.kmain i magic mbi = pre ++ (kernelRun i k₀ magic mbi events).rest ∧
    (kernelRun i k₀ magic mbi events).state.still = (execAll i k₀ (commands pre)).still := by
  obtain ⟨pre, hsplit, hview⟩ := loaded_still_run i hboot.toLoaded magic mbi events
  exact ⟨pre, hsplit, hview (running_run i hboot magic events)⟩

include hboot in
theorem supported_run : (kernelRun i k₀ magic mbi events).state.Supported := by
  obtain ⟨pre, -, hstill⟩ := still_run i hboot magic events
  exact (hboot.toSupported.lasting (execAll_lasting i k₀ _)).of_still hstill

include hboot in
theorem ready_run (hflag : (kernelRun i k₀ magic mbi events).state.interruptFlag = true) :
    magic = multibootBootloaderMagic ∧ Ready i (kernelRun i k₀ magic mbi events).state ∧
      SameMasks k₀.machine.pic (kernelRun i k₀ magic mbi events).state.machine.pic ∧
      ∃ pre, Kernel.kmain i magic mbi = pre ++ (kernelRun i k₀ magic mbi events).rest ∧
        .act .enableInterrupts ∈ pre :=
  loaded_ready_run i hboot.toLoaded magic mbi events (running_run i hboot magic events) hflag

/-- A kernel that takes interrupts only when it is ready for them, and comes back from each. -/
def Kernel.Sound (i : KernelImage) (k : Kernel) : Prop :=
  k.Loads ∧ (k.interruptFlag = true → Ready i k)

include hboot in
theorem sound_run : (kernelRun i k₀ magic mbi events).state.Sound i :=
  ⟨(supported_run i hboot magic events).loads,
    fun hflag => (ready_run i hboot magic events hflag).2.1⟩

theorem Kernel.Sound.take {i : KernelImage} {k k' : Kernel} {a : Arrival} (h : k.Sound i)
    (htake : k.take i a = some k') : Ready i k ∧ k.Accepts a.1 ∧
      k' = k.resumed (serve i.image k.machine (k.saved a)) :=
  have hready := h.2 (Kernel.flag_of_take htake)
  ⟨hready, hready.take h.1 htake⟩

/-- What the timer has counted: its interrupts are all the handler calls there are. -/
structure Counted (i : KernelImage) (k : Kernel) : Prop where
  counters : k.machine.software.rest = pitAfter k.machine.calls.length
  calls : ∀ call ∈ k.machine.calls, call.1 = i.timerHandler.addr ∧ call.2.intNo = irq0

/-- Nothing has been counted before `kmain`. -/
theorem Counted.loaded {k : Kernel} (h : k.Loaded) : Counted i k := by
  constructor
  · rw [h.pit, h.calls]
    rfl
  · rw [h.calls]
    exact fun _ hcall => absurd hcall List.not_mem_nil

theorem Counted.lasting {k k' : Kernel} (h : Counted i k) (hlasting : Lasting k k') :
    Counted i k' := by
  constructor
  · rw [hlasting.pit, hlasting.calls]
    exact h.counters
  · rw [hlasting.calls]
    exact h.calls

/-- One interrupt, counted if it is the timer's. -/
theorem Counted.take {k k' : Kernel} {a : Arrival} (h : Counted i k) (hsound : k.Sound i)
    (htake : k.take i a = some k') : Counted i k' := by
  obtain ⟨hready, -, rfl⟩ := hsound.take htake
  obtain ⟨-, -, -, hsoftware, hcalls⟩ := hready.served (k.saved a)
  have hvector := (vector_eq_irq0_iff hready.remapped a.1).mpr
  obtain ⟨m, hm⟩ : ∃ m, serve i.image k.machine (k.saved a) = m := ⟨_, rfl⟩
  rw [hm] at hsoftware hcalls ⊢
  by_cases htimer : (k.saved a).1 = .master 0
  · rw [if_pos htimer] at hsoftware hcalls
    constructor
    · show m.software.rest = pitAfter m.calls.length
      rw [hsoftware, hcalls, List.length_append]
      show pit8254Handler k.machine.software.rest = pitAfter (k.machine.calls.length + 1)
      rw [h.counters, pitAfter_succ]
    · show ∀ call ∈ m.calls, _
      rw [hcalls]
      intro call hcall
      rcases List.mem_append.mp hcall with hold | hnew
      · exact h.calls call hold
      · obtain rfl := List.mem_singleton.mp hnew
        exact ⟨rfl, hvector htimer⟩
  · rw [if_neg htimer] at hsoftware hcalls
    rw [List.append_nil] at hcalls
    constructor
    · show m.software.rest = pitAfter m.calls.length
      rw [hsoftware, hcalls]
      exact h.counters
    · show ∀ call ∈ m.calls, _
      rw [hcalls]
      exact h.calls

include hboot in
theorem counted_run : Counted i (kernelRun i k₀ magic mbi events).state :=
  (kernelSystem i).invariant (fun events => sound_run i hboot magic events)
    (Counted.loaded i hboot.toLoaded)
    (fun c k _ h => h.lasting i (exec_framed i k c).toLasting)
    (fun _ _ _ hsound h htake => h.take i hsound htake) events

end Runs

/-- **A kernel that interrupts cannot hurt.** -/
structure Safe (i : KernelImage) (magic : Uint32) (mbi : MultibootInfo)
    (t : Thread Kernel Command Uint64 Uint64) : Prop where
  /-- The processor has neither shut down nor raised an exception nor halted for good. -/
  running : t.state.Running ∧ t.state.machine.halted = false
  /-- No line is left in service. -/
  idle : Idle t.state.machine.pic
  /-- Interrupts are on only behind `sti`, in a kernel that is ready for them. -/
  enabled : t.state.interruptFlag = true →
    magic = multibootBootloaderMagic ∧ Ready i t.state ∧
      ∃ pre, Kernel.kmain i magic mbi = pre ++ t.rest ∧ .act .enableInterrupts ∈ pre
  counted : Counted i t.state
  /-- An interrupt taken now reaches the stub that pushes its vector, is acknowledged, and comes
      back. -/
  taken : ∀ a k', t.state.take i a = some k' →
    (∃ s, t.state.stubOf i ((a.1.vector t.state.machine.pic).setWidth 8) = some s ∧
      s.intNo = some (a.1.vector t.state.machine.pic)) ∧
    Served (t.state.saved a) t.state.machine k'.machine ∧ k'.Running

/-- **The kernel under interrupts.**  From any boot it gets through, with any word in `eax`, it is safe
    after every run. -/
theorem kmain_safe (i : KernelImage) {k₀ : Kernel} {mbi : MultibootInfo} (hboot : k₀.AtBoot mbi)
    (magic : Uint32) (events : List (Event Arrival)) :
    Safe i magic mbi (kernelRun i k₀ magic mbi events) := by
  obtain ⟨pre, -, hstill⟩ := still_run i hboot magic events
  have hlasting := execAll_lasting i k₀ (commands pre)
  have hrun := running_run i hboot magic events
  refine ⟨⟨hrun, ?_⟩, ?_, ?_, counted_run i hboot magic events, ?_⟩
  · have hsame := congrArg (fun k : Kernel => k.machine.halted) hstill
    exact hsame.trans (hlasting.halted.trans hboot.running.2)
  · obtain ⟨hmaster, hslave⟩ := execAll_idle i hboot.idle (commands pre)
    have hpic := congrArg (fun k : Kernel => k.machine.pic) hstill
    exact ⟨(congrArg (fun p : Pic => p.master.isr) hpic).trans hmaster,
      (congrArg (fun p : Pic => p.slave.isr) hpic).trans hslave⟩
  · intro hflag
    obtain ⟨hmagic, hready, -, hsti⟩ := ready_run i hboot magic events hflag
    exact ⟨hmagic, hready, hsti⟩
  · intro a k' htake
    obtain ⟨hready, -, rfl⟩ := (sound_run i hboot magic events).take htake
    obtain ⟨hserved, -⟩ := hready.served ((kernelRun i k₀ magic mbi events).state.saved a)
    exact ⟨hready.stub a.1, hserved, hrun⟩

/-- Up to the first line behind `sti`, with an interrupt in front of it all, and the timer's first at
    its end. -/
def coldEvents : List (Event Arrival) :=
  .interrupt (.master 0, zeroContext 0) :: List.replicate 15 .proceed ++
    [.interrupt (.master 0, zeroContext 0)]

theorem kmain_safe_cold :
    Safe linkedKernel multibootBootloaderMagic coldInfo
      (kernelRun linkedKernel (coldKernel 0xB8) multibootBootloaderMagic coldInfo coldEvents) :=
  kmain_safe linkedKernel (coldKernel_atBoot 0xB8) multibootBootloaderMagic coldEvents

/-- **No interleaving shows.**  Two runs that have come equally far, however interrupts have cut into
    them, have the same screen, tables, controllers and devices. -/
theorem kmain_interleavings (i : KernelImage) {k₀ : Kernel} {mbi : MultibootInfo}
    (hboot : k₀.AtBoot mbi) (magic : Uint32) (events events' : List (Event Arrival))
    (hsame : (kernelRun i k₀ magic mbi events).rest.length
      = (kernelRun i k₀ magic mbi events').rest.length) :
    (kernelRun i k₀ magic mbi events).state.still
      = (kernelRun i k₀ magic mbi events').state.still := by
  obtain ⟨pre, hsplit, hstill⟩ := still_run i hboot magic events
  obtain ⟨pre', hsplit', hstill'⟩ := still_run i hboot magic events'
  obtain ⟨rfl, -⟩ := List.append_inj' (hsplit.symm.trans hsplit') hsame
  rw [hstill, hstill']

/-- Behind `sti`, with the timer's first interrupt and without. -/
theorem kmain_interleavings_cold :
    (kernelRun linkedKernel (coldKernel 0xB8) multibootBootloaderMagic coldInfo
        (List.replicate 15 .proceed ++ [.interrupt (.master 0, zeroContext 0)])).state.still
      = (kernelRun linkedKernel (coldKernel 0xB8) multibootBootloaderMagic coldInfo
        (List.replicate 15 .proceed)).state.still := by
  refine kmain_interleavings linkedKernel (coldKernel_atBoot 0xB8) multibootBootloaderMagic
    _ _ (congrArg List.length ?_)
  unfold kernelRun
  rw [System.run_concat]
  exact System.rest_interrupt _ _ _

end FreeMicroNix
