/-
  `kmain` with interrupts inside its screen output.

  `Kernel.Main` has a `kprintf` as one step, and so lets no interrupt into it.  Here every command
  that writes to the screen alone may be cut into as many steps as one likes: characters, stores,
  single updates of `terminal_row`.  Interrupts come between any two of these.

  1. `FineStep`, `Cut` — the steps, and what makes a list of them a cut of a command.
  2. `fine_position` — a part of the cut program does what the commands it has behind it do, but for
     the screen.
  3. `byCharacter_cut` — `kprintf` character by character is such a cut.
  4. `kmain_fine` — `Kernel.Boot` once more: nothing is lost, and between two commands the kernel is
     the one of the undivided runs.

  A step faults where the screen is not mapped, like a command.
-/
import FreeMicroNix.Lib.Cutting
import FreeMicroNix.Kernel.Boot
import FreeMicroNix.Video.Putch

namespace FreeMicroNix

open Interleaving

/-! ## Steps -/

/-- A step: a command as a whole, or a part of one that writes to the screen and its globals. -/
inductive FineStep where
  | whole (c : Command)
  | screen (f : Terminal → Terminal)

def FineStep.exec (i : KernelImage) (s : FineStep) (k : Kernel) : Kernel :=
  match s with
  | whole c => c.exec i k
  | screen f =>
      if k.Running then
        if (translate k.directory vgaMemory).isSome then k.onTerminal f
        else { k with faulted := some 14 }
      else k

/-- The kernel, step by step. -/
def fineSystem (i : KernelImage) : System Kernel Arrival FineStep Uint64 Uint64 :=
  { kernelSystem i with exec := FineStep.exec i }

/-- The steps one after the other. -/
def fineAll (i : KernelImage) (k : Kernel) (steps : List FineStep) : Kernel :=
  steps.foldl (fun k s => s.exec i k) k

/-- **A cut**: the steps of a command are the command itself, or all of the screen; and one after the
    other they do what the command does, with the screen mapped and the RTC as `k₀` has it. -/
structure Cut (i : KernelImage) (k₀ : Kernel) (cut : Command → List FineStep) : Prop where
  steps : ∀ c, cut c = [.whole c] ∨ ∀ s ∈ cut c, ∃ f, s = .screen f
  effect : ∀ c k, k.Running → (translate k.directory vgaMemory).isSome → k.rtc = k₀.rtc →
    fineAll i k (cut c) = c.exec i k

section Steps

variable (i : KernelImage)

theorem fineAll_append (k : Kernel) (steps steps' : List FineStep) :
    fineAll i k (steps ++ steps') = fineAll i (fineAll i k steps) steps' := List.foldl_append

/-- No step looks at what interrupts change. -/
theorem fine_still (s : FineStep) (k : Kernel) :
    (s.exec i k).still = (s.exec i k.still).still := by
  cases s with
  | whole c => exact exec_still i c k
  | screen f =>
    have hgdt := (unaccessed_unaccessed k.gdt).symm
    have hrunning : k.still.Running ↔ k.Running := Iff.rfl
    have hdirectory : k.still.directory = k.directory := rfl
    unfold FineStep.exec
    dsimp only
    rw [hdirectory, if_congr hrunning rfl rfl]
    split_ifs
    · exact onTerminal_still k f
    · exact still_of_gdt rfl hgdt
    · exact still_of_gdt rfl hgdt

theorem foldl_fine_still (k : Kernel) (steps : List FineStep) :
    steps.foldl (fun v s => (s.exec i v).still) k.still = (fineAll i k steps).still := by
  induction steps generalizing k with
  | nil => rfl
  | cons s steps ih =>
    show steps.foldl _ (s.exec i k.still).still = (fineAll i (s.exec i k) steps).still
    rw [← fine_still, ih]

/-- A step on the screen, where it is mapped. -/
theorem exec_screen {k : Kernel} (hrun : k.Running)
    (hscreen : (translate k.directory vgaMemory).isSome) (f : Terminal → Terminal) :
    FineStep.exec i (.screen f) k = k.onTerminal f := (if_pos hrun).trans (if_pos hscreen)

/-- Steps on the screen, one after the other. -/
theorem fineAll_map_screen {k : Kernel} (hrun : k.Running)
    (hscreen : (translate k.directory vgaMemory).isSome) (steps : List (Terminal → Terminal)) :
    fineAll i k (steps.map .screen) = k.onTerminal fun t => steps.foldl (fun t f => f t) t := by
  induction steps generalizing k with
  | nil => rfl
  | cons f steps ih =>
    show fineAll i (FineStep.exec i (.screen f) k) (steps.map .screen) = _
    rw [exec_screen i hrun hscreen, ih ((onTerminal_running k f).mpr hrun) hscreen]
    rfl

/-- They change the screen. -/
theorem fineAll_screen {k : Kernel} (hrun : k.Running)
    (hscreen : (translate k.directory vgaMemory).isSome) {steps : List FineStep}
    (hsteps : ∀ s ∈ steps, ∃ f, s = .screen f) :
    ∃ t, fineAll i k steps = k.onTerminal fun _ => t := by
  obtain ⟨fs, rfl⟩ : ∃ fs : List (Terminal → Terminal), steps = fs.map .screen := by
    induction steps with
    | nil => exact ⟨[], rfl⟩
    | cons s steps ih =>
      obtain ⟨f, rfl⟩ := hsteps s List.mem_cons_self
      obtain ⟨fs, rfl⟩ := ih fun s hs => hsteps s (List.mem_cons_of_mem _ hs)
      exact ⟨f :: fs, rfl⟩
  rw [fineAll_map_screen i hrun hscreen]
  exact ⟨fs.foldl (fun t f => f t) k.machine.software.terminal, rfl⟩

section Position

variable {k₀ : Kernel} {cut : Command → List FineStep} (hcut : Cut i k₀ cut)

include hcut in
/-- The steps of whole commands. -/
theorem fineAll_cut {k : Kernel} (hrun : k.Running)
    (hscreen : (translate k.directory vgaMemory).isSome) (hrtc : k.rtc = k₀.rtc)
    {cs : List Command} (hcs : ∀ c ∈ cs, c.Passes k.directory) :
    fineAll i k (cs.flatMap cut) = execAll i k cs := by
  induction cs generalizing k with
  | nil => rfl
  | cons c cs ih =>
    have hframed := exec_framed i k c
    rw [List.flatMap_cons, fineAll_append, hcut.effect c k hrun hscreen hrtc]
    rw [← hframed.directory] at hscreen
    refine ih (exec_passes i hrun (hcs c List.mem_cons_self)) hscreen (hframed.rtc.trans hrtc)
      fun c' hc' => ?_
    rw [hframed.directory]
    exact hcs c' (List.mem_cons_of_mem _ hc')

include hcut in
/-- **Where a cut program is**: some commands are done, and the screen is on its way to what the next
    one makes of it. -/
theorem fine_position (hrun : k₀.Running) (hmapped : (translate k₀.directory vgaMemory).isSome)
    {program : List (Stmt Command Uint64)}
    (hprogram : ∀ c ∈ commands program, c.Passes k₀.directory)
    {pre rest : List (Stmt FineStep Uint64)} (hsplit : cutProgram cut program = pre ++ rest) :
    ∃ before after t, program = before ++ after ∧ (execAll i k₀ (commands before)).Running ∧
      fineAll i k₀ (commands pre) = (execAll i k₀ (commands before)).onTerminal fun _ => t := by
  obtain ⟨before, after, part, hparts, hcommands, hpart⟩ := cut_split cut hsplit
  have hbefore : ∀ c ∈ commands before, c.Passes k₀.directory :=
    fun c hc => hprogram c ((commands_split hparts).subset hc)
  have hdone := fineAll_cut i hcut hrun hmapped rfl hbefore
  have hrun' := execAll_passes i k₀ hrun hbefore
  have hdirectory := (execAll_lasting i k₀ (commands before)).directory
  rw [← hdirectory] at hmapped
  rw [hcommands, fineAll_append, hdone]
  have hsame : ∀ k : Kernel, ∃ t, k = k.onTerminal fun _ => t :=
    fun k => ⟨k.machine.software.terminal, rfl⟩
  obtain ⟨t, ht⟩ := hsame (execAll i k₀ (commands before))
  rcases hpart with rfl | ⟨c, after', more, hafter, hcutc⟩
  · exact ⟨before, after, t, hparts, hrun', ht⟩
  · rcases hcut.steps c with hwhole | hscreen
    · rw [hcutc] at hwhole
      cases part with
      | nil => exact ⟨before, after, t, hparts, hrun', ht⟩
      | cons s part =>
        -- the command is its only step, and done
        obtain ⟨rfl, hnil⟩ := List.cons.inj hwhole
        obtain ⟨rfl, -⟩ := List.append_eq_nil_iff.mp hnil
        obtain ⟨t', ht'⟩ := hsame (c.exec i (execAll i k₀ (commands before)))
        have hc : c ∈ commands program := by
          rw [hparts, hafter]
          exact mem_commands.mpr (List.mem_append_right _ List.mem_cons_self)
        have hexec : execAll i k₀ (commands (before ++ [.act c]))
            = c.exec i (execAll i k₀ (commands before)) := by
          rw [commands_append, execAll_append]
          rfl
        refine ⟨before ++ [.act c], after', t', ?_, ?_, ?_⟩
        · rw [hparts, hafter, List.append_assoc]
          rfl
        · rw [hexec]
          have hpasses := hprogram c hc
          rw [← hdirectory] at hpasses
          exact exec_passes i hrun' hpasses
        · rw [hexec]
          exact ht'
    · obtain ⟨t', ht'⟩ := fineAll_screen i hrun' hmapped fun s hs => hscreen s (by
        rw [hcutc]
        exact List.mem_append_left _ hs)
      exact ⟨before, after, t', hparts, hrun', ht'⟩

end Position

end Steps

/-! ## Character by character -/

/-- `Terminal_Print`: one step for each character, and the last for the cursor. -/
def printSteps (s : CString) : List (Terminal → Terminal) :=
  (s.takeWhile (· ≠ 0)).map (fun c t => terminalPutch t c) ++ [terminalUpdateCursor]

/-- The loop of `kprintf`, likewise. -/
def kprintfSteps (strAt : Uint32 → CString) (arg : Nat → Uint32) :
    Nat → CString → List (Terminal → Terminal)
  | _, [] => [terminalUpdateCursor]
  | _, [c] =>
      if c = 0 then [terminalUpdateCursor]
      else if c ≠ ch '%' then [fun t => terminalPutch t c, terminalUpdateCursor]
      else []
  | n, c :: d :: format =>
      if c = 0 then [terminalUpdateCursor]
      else if c ≠ ch '%' then (fun t => terminalPutch t c) :: kprintfSteps strAt arg n (d :: format)
      else if d = ch 'd' ∨ d = ch 'u' ∨ d = ch 'x' then
        printSteps (itoaString (arg n) d.toInt) ++ kprintfSteps strAt arg (n + 1) format
      else if d = ch 's' then
        printSteps (if arg n = 0 then str "(null)" else strAt (arg n)) ++
          kprintfSteps strAt arg (n + 1) format
      else if d = 0 then []
      else (fun t => terminalPutch t ((arg n).setWidth 8)) :: kprintfSteps strAt arg (n + 1) format

/-- Functions on the screen, one after the other. -/
def applyAll (t : Terminal) (steps : List (Terminal → Terminal)) : Terminal :=
  steps.foldl (fun t f => f t) t

theorem applyAll_append (t : Terminal) (steps steps' : List (Terminal → Terminal)) :
    applyAll t (steps ++ steps') = applyAll (applyAll t steps) steps' := List.foldl_append

theorem printSteps_eq (t : Terminal) (s : CString) :
    applyAll t (printSteps s) = terminalPrint t s := by
  rw [terminalPrint_eq, printSteps, applyAll_append]
  exact congrArg terminalUpdateCursor List.foldl_map

theorem kprintfSteps_eq (strAt : Uint32 → CString) (arg : Nat → Uint32) (format : CString) :
    ∀ (t : Terminal) (n : Nat),
      applyAll t (kprintfSteps strAt arg n format) = (kprintfLoop strAt arg t n format).1 := by
  induction format using List.twoStepInduction with
  | nil => intro t n; rfl
  | singleton c =>
    intro t n
    unfold kprintfSteps kprintfLoop
    split_ifs <;> rfl
  | cons_cons c d format ih ih' =>
    intro t n
    unfold kprintfSteps kprintfLoop
    split_ifs
    · rfl
    · exact ih' d (terminalPutch t c) n
    · rw [applyAll_append, printSteps_eq]
      exact ih _ (n + 1)
    · rw [applyAll_append, printSteps_eq]
      exact ih _ (n + 1)
    · rw [applyAll_append, printSteps_eq]
      exact ih _ (n + 1)
    · rfl
    · exact ih _ (n + 1)

/-- The cut of the commands with every character a step of its own; the arguments are evaluated at
    the call. -/
def byCharacter (i : KernelImage) (k₀ : Kernel) : Command → List FineStep
  | .kprintf format string args =>
      (kprintfSteps (fun _ => string) (kprintfWords (args.map (Argument.value k₀)) i.stray) 0
        format).map .screen
  | c => [.whole c]

theorem byCharacter_cut (i : KernelImage) (k₀ : Kernel) : Cut i k₀ (byCharacter i k₀) := by
  constructor
  · intro c
    cases c with
    | kprintf format string args =>
      refine Or.inr fun s hs => ?_
      obtain ⟨f, -, rfl⟩ := List.mem_map.mp hs
      exact ⟨f, rfl⟩
    | _ => exact Or.inl rfl
  · intro c k hrun hscreen hrtc
    cases c with
    | kprintf format string args =>
      have hvalue : Argument.value k = Argument.value k₀ := by
        funext a
        cases a with
        | word w => rfl
        | getRtcTicks => exact congrArg getRtcTicks hrtc
      have haddresses : ((Command.kprintf format string args).addresses.all
          fun va => (translate k.directory va).isSome) = true := by
        rw [Command.addresses, List.all_cons, hscreen]
        rfl
      rw [Command.exec, if_pos hrun, if_pos haddresses]
      refine (fineAll_map_screen i hrun hscreen _).trans ?_
      unfold Command.run kprintf
      rw [hvalue]
      exact congrArg k.onTerminal (funext fun t => kprintfSteps_eq _ _ format t 0)
    | _ => rfl

/-! ## Every run -/

section Runs

variable (i : KernelImage) {k₀ : Kernel} {mbi : MultibootInfo} (hboot : k₀.AtBoot mbi)
  {cut : Command → List FineStep} (hcut : Cut i k₀ cut) (magic : Uint32)
  (events : List (Event Arrival))

/-- `kmain` under way, step by step. -/
def fineRun (i : KernelImage) (k₀ : Kernel) (cut : Command → List FineStep) (magic : Uint32)
    (mbi : MultibootInfo) (events : List (Event Arrival)) :
    Thread Kernel FineStep Uint64 Uint64 :=
  (fineSystem i).run (.start k₀ (cutProgram cut (Kernel.kmain i magic mbi))) events

include hboot hcut in
/-- At every step the kernel runs, with what the boot loader has set up; and with interrupts on it is
    ready. -/
theorem sound_of_fine {pre rest : List (Stmt FineStep Uint64)}
    (hsplit : cutProgram cut (Kernel.kmain i magic mbi) = pre ++ rest) :
    (fineAll i k₀ (commands pre)).Supported ∧ (fineAll i k₀ (commands pre)).Running ∧
      ((fineAll i k₀ (commands pre)).interruptFlag = true →
        Ready i (fineAll i k₀ (commands pre))) := by
  obtain ⟨before, after, t, hprogram, hrun, hall⟩ := fine_position i hcut hboot.running.1
    hboot.toSupported.screen (hboot.passes i magic) hsplit
  have hlasting := execAll_lasting i k₀ (commands before)
  have hsupported := hboot.toSupported.lasting hlasting
  have hkept : Kept (execAll i k₀ (commands before))
      ((execAll i k₀ (commands before)).onTerminal fun _ => t) :=
    ⟨rfl, rfl, rfl, rfl, rfl, rfl⟩
  have hrun' := (onTerminal_running (execAll i k₀ (commands before)) fun _ => t).mpr hrun
  rw [hall]
  refine ⟨⟨hsupported.low, hsupported.loads⟩, hrun', fun hflag => ?_⟩
  exact (ready_of_enabled i hboot.toLoaded hprogram hrun hflag).2.2.1.kept hkept hrun'

include hboot hcut in
/-- Interrupts leave no trace but the clock's, inside a command either. -/
theorem fine_still_run : ∃ pre, cutProgram cut (Kernel.kmain i magic mbi)
      = pre ++ (fineRun i k₀ cut magic mbi events).rest ∧
    (fineRun i k₀ cut magic mbi events).state.still
      = (fineAll i k₀ (commands pre)).still := by
  obtain ⟨pre, hsplit, hview⟩ := (fineSystem i).view_eq_commands Kernel.still
    (fun s v => (s.exec i v).still) (fun _ => True) (fine_still i) (fun _ _ _ => trivial) k₀
    (cutProgram cut (Kernel.kmain i magic mbi)) (by
      intro pre rest k a k' hsplit hview htake _
      have hstill := hview trivial
      rw [foldl_fine_still] at hstill
      obtain ⟨hsupported, -, hready⟩ := sound_of_fine i hboot hcut magic hsplit
      have hflagged : k.interruptFlag = true := Kernel.flag_of_take htake
      have hflag : (fineAll i k₀ (commands pre)).interruptFlag = true :=
        (congrArg Kernel.interruptFlag hstill).symm.trans hflagged
      have hk := ready_iff_still.mp (hready hflag)
      rw [← hstill, ← ready_iff_still] at hk
      exact ⟨trivial, hk.still_take (hsupported.of_still hstill).loads htake⟩) events
  have hstill := hview trivial
  rw [foldl_fine_still] at hstill
  exact ⟨pre, hsplit, hstill⟩

include hboot hcut in
theorem sound_fine_run : (fineRun i k₀ cut magic mbi events).state.Sound i := by
  obtain ⟨pre, hsplit, hstill⟩ := fine_still_run i hboot hcut magic events
  obtain ⟨hsupported, -, hready⟩ := sound_of_fine i hboot hcut magic hsplit
  refine ⟨(hsupported.of_still hstill).loads, fun hflag => ?_⟩
  rw [ready_iff_still, hstill, ← ready_iff_still]
  exact hready ((congrArg Kernel.interruptFlag hstill).symm.trans hflag)

/-- What the timer has counted stays so under a step. -/
theorem Counted.step {k : Kernel} (h : Counted i k) (s : FineStep) : Counted i (s.exec i k) := by
  cases s with
  | whole c => exact h.lasting i (exec_framed i k c).toLasting
  | screen f =>
    unfold FineStep.exec
    dsimp only
    split_ifs
    · exact ⟨h.counters, h.calls⟩
    · exact ⟨h.counters, h.calls⟩
    · exact h

include hboot hcut in
theorem counted_fine_run : Counted i (fineRun i k₀ cut magic mbi events).state :=
  (fineSystem i).invariant (fun events => sound_fine_run i hboot hcut magic events)
    (Counted.loaded i hboot.toLoaded) (fun s _ _ h => h.step i s)
    (fun _ _ _ hsound h htake => h.take i hsound htake) events

end Runs

/-- **What interrupts between the steps do**: as little as between the commands. -/
structure Unnoticed (i : KernelImage) (k₀ : Kernel) (cut : Command → List FineStep)
    (magic : Uint32) (mbi : MultibootInfo) (t : Thread Kernel FineStep Uint64 Uint64) : Prop where
  running : t.state.Running ∧ t.state.machine.halted = false
  idle : Idle t.state.machine.pic
  counted : Counted i t.state
  /-- An interrupt taken now reaches the stub that pushes its vector, is acknowledged, and comes
      back. -/
  taken : ∀ a k', t.state.take i a = some k' →
    (∃ s, t.state.stubOf i ((a.1.vector t.state.machine.pic).setWidth 8) = some s ∧
      s.intNo = some (a.1.vector t.state.machine.pic)) ∧
    Served (t.state.saved a) t.state.machine k'.machine ∧ k'.Running
  /-- Between two commands it has the screen, the tables, the controllers and the devices of every
      undivided run that is there. -/
  same : ∀ events, t.rest = cutProgram cut (kernelRun i k₀ magic mbi events).rest →
    t.state.still = (kernelRun i k₀ magic mbi events).state.still

/-- **No interrupt shows inside a command.**  However finely the screen output of `kmain` is cut, in
    every run of the steps interrupts do what they do between commands, and no more. -/
theorem kmain_fine (i : KernelImage) {k₀ : Kernel} {mbi : MultibootInfo} (hboot : k₀.AtBoot mbi)
    {cut : Command → List FineStep} (hcut : Cut i k₀ cut) (magic : Uint32)
    (events : List (Event Arrival)) :
    Unnoticed i k₀ cut magic mbi (fineRun i k₀ cut magic mbi events) := by
  obtain ⟨pre, hsplit, hstill⟩ := fine_still_run i hboot hcut magic events
  have hpasses := hboot.passes i magic
  obtain ⟨before, after, t, -, hrun, hall⟩ :=
    fine_position i hcut hboot.running.1 hboot.toSupported.screen hpasses hsplit
  have hlasting := execAll_lasting i k₀ (commands before)
  have hplace := hstill
  rw [hall] at hplace
  have hrunning : (fineRun i k₀ cut magic mbi events).state.Running := by
    have hboth : ((execAll i k₀ (commands before)).onTerminal fun _ => t).still.Running :=
      (onTerminal_running (execAll i k₀ (commands before)) fun _ => t).mpr hrun
    rw [← hplace] at hboth
    exact hboth
  refine ⟨⟨hrunning, ?_⟩, ?_, counted_fine_run i hboot hcut magic events, ?_, ?_⟩
  · have hsame := congrArg (fun k : Kernel => k.machine.halted) hplace
    exact hsame.trans (hlasting.halted.trans hboot.running.2)
  · obtain ⟨hmaster, hslave⟩ := execAll_idle i hboot.idle (commands before)
    have hpic := congrArg (fun k : Kernel => k.machine.pic) hplace
    exact ⟨(congrArg (fun p : Pic => p.master.isr) hpic).trans hmaster,
      (congrArg (fun p : Pic => p.slave.isr) hpic).trans hslave⟩
  · intro a k' htake
    obtain ⟨hready, -, rfl⟩ := (sound_fine_run i hboot hcut magic events).take htake
    obtain ⟨hserved, -⟩ := hready.served ((fineRun i k₀ cut magic mbi events).state.saved a)
    exact ⟨hready.stub a.1, hserved, hrunning⟩
  · intro events' hrest
    obtain ⟨done, hdone, hstill'⟩ := still_run i hboot magic events'
    rw [hrest] at hsplit
    have hcommands := commands_between cut hdone hsplit
    rw [hstill, hstill', hcommands, fineAll_cut i hcut hboot.running.1 hboot.toSupported.screen rfl
      fun c hc => hpasses c ((commands_split hdone).subset hc)]

/-- The timer inside the first line behind `sti`. -/
theorem kmain_fine_cold :
    Unnoticed linkedKernel (coldKernel 0xB8) (byCharacter linkedKernel (coldKernel 0xB8))
      multibootBootloaderMagic coldInfo (fineRun linkedKernel (coldKernel 0xB8)
        (byCharacter linkedKernel (coldKernel 0xB8)) multibootBootloaderMagic coldInfo
        (List.replicate 140 .proceed ++ [.interrupt (.master 0, zeroContext 0)])) :=
  kmain_fine linkedKernel (coldKernel_atBoot 0xB8) (byCharacter_cut linkedKernel (coldKernel 0xB8))
    multibootBootloaderMagic _

end FreeMicroNix
