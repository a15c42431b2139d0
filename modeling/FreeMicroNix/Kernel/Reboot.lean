/-
  `kernel/kernel/reboot.c`: five seconds, and then a pulse from the keyboard controller.

  1. **The wait** — `reboot` waits for the timer like `kmain` does, on a kernel that is ready for
     interrupts.  Nothing in it enables them: `reboot_waits_iff` says from which kernels it comes to
     the loop of `keyboard_reboot` at all, and what has happened by then.
  2. **The pulse** — from there on interrupts are off, and the processor is a machine of its own
     beside a keyboard controller that may answer anything.  `keyboardReboot_pulses`: it reads until
     the controller first says that it takes commands, empties its buffer on the way, writes one
     command, and does nothing ever after.
-/
import FreeMicroNix.Kernel.Schedule
import FreeMicroNix.Lib.Deterministic
import Mathlib.Order.Bounds.Basic

namespace FreeMicroNix

open Interleaving

/-! ## Programs that leave the installations alone -/

section Inert

variable {i : KernelImage} {k₀ : Kernel} {program : List (Stmt Command Uint64)}

/-- **Transparency again**: on a ready kernel, for any program whose commands write nothing that
    rests on, and go to nothing but the screen. -/
theorem inert_run (hinert : ∀ c ∈ commands program, c.inert = true)
    (hscreen : ∀ c ∈ commands program, c.screenOnly = true) (hready : Ready i k₀)
    (hsupported : k₀.Supported) (events : List (Event Arrival)) :
    ∃ pre, program = pre ++ ((kernelSystem i).run (.start k₀ program) events).rest ∧
      Ready i (execAll i k₀ (commands pre)) ∧
      SameMasks k₀.machine.pic (execAll i k₀ (commands pre)).machine.pic ∧
      ((kernelSystem i).run (.start k₀ program) events).state.still
        = (execAll i k₀ (commands pre)).still := by
  have hdone : ∀ {pre rest}, program = pre ++ rest → Ready i (execAll i k₀ (commands pre)) ∧
      SameMasks k₀.machine.pic (execAll i k₀ (commands pre)).machine.pic := by
    intro pre rest hsplit
    have hpart := (commands_split hsplit).subset
    have hkept := execAll_kept i k₀ fun c hc => hinert c (hpart hc)
    have hrun := execAll_passes i k₀ hready.running.1 fun c hc =>
      Command.passes_of_screenOnly (hscreen c (hpart hc)) hsupported.screen
    refine ⟨hready.kept hkept hrun, ?_⟩
    rw [hkept.pic]
    exact ⟨rfl, rfl⟩
  obtain ⟨pre, hsplit, hview⟩ := (kernelSystem i).view_eq_commands Kernel.still
    (fun c v => (c.exec i v).still) (fun _ => True) (exec_still i) (fun _ _ _ => trivial) k₀ program
    (by
      intro pre rest k a k' hsplit hview htake _
      have hstill := hview trivial
      rw [foldl_still] at hstill
      have hk := ready_iff_still.mp (hdone hsplit).1
      rw [← hstill, ← ready_iff_still] at hk
      have hstays := (hsupported.lasting (execAll_lasting i k₀ _)).of_still hstill
      exact ⟨trivial, hk.still_take hstays.loads htake⟩) events
  have hstill := hview trivial
  rw [foldl_still] at hstill
  exact ⟨pre, hsplit, (hdone hsplit).1, (hdone hsplit).2, hstill⟩

/-- A ready kernel stays ready, with its masks, and can take interrupts. -/
theorem ready_inert_run (hinert : ∀ c ∈ commands program, c.inert = true)
    (hscreen : ∀ c ∈ commands program, c.screenOnly = true) (hready : Ready i k₀)
    (hsupported : k₀.Supported) (events : List (Event Arrival)) :
    Ready i ((kernelSystem i).run (.start k₀ program) events).state ∧
      ((kernelSystem i).run (.start k₀ program) events).state.Supported ∧
      SameMasks k₀.machine.pic
        ((kernelSystem i).run (.start k₀ program) events).state.machine.pic := by
  obtain ⟨pre, -, hdone, hmasks, hstill⟩ := inert_run hinert hscreen hready hsupported events
  have hpic := congrArg (fun k : Kernel => k.machine.pic) hstill
  refine ⟨?_, (hsupported.lasting (execAll_lasting i k₀ _)).of_still hstill, ?_⟩
  · rw [ready_iff_still, hstill, ← ready_iff_still]
    exact hdone
  · exact ⟨(congrArg (fun p : Pic => p.master.imr) hpic).trans hmasks.master,
      (congrArg (fun p : Pic => p.slave.imr) hpic).trans hmasks.slave⟩

/-- **The clock stands still** if the program starts with interrupts off and does not enable them,
    or if the line of the timer is masked. -/
theorem frozen_run (hinert : ∀ c ∈ commands program, c.inert = true)
    (hscreen : ∀ c ∈ commands program, c.screenOnly = true)
    (henables : ∀ c ∈ commands program, c.enables = false) (hready : Ready i k₀)
    (hsupported : k₀.Supported)
    (hoff : k₀.interruptFlag = false ∨ k₀.machine.pic.master.imr.getLsbD 0 = true)
    (events : List (Event Arrival)) :
    ((kernelSystem i).run (.start k₀ program) events).state.machine.software.rest
      = k₀.machine.software.rest := by
  refine (kernelSystem i).invariant
    (J := fun k => Ready i k ∧ k.Loads ∧ SameMasks k₀.machine.pic k.machine.pic ∧
      (k₀.interruptFlag = false → k.interruptFlag = false))
    (P := fun k => k.machine.software.rest = k₀.machine.software.rest)
    (fun events => ?_) rfl (fun c k _ h => (exec_framed i k c).pit.trans h) ?_ events
  · obtain ⟨hstays, hsupports, hmasks⟩ := ready_inert_run hinert hscreen hready hsupported events
    obtain ⟨pre, hsplit, -, -, hstill⟩ := inert_run hinert hscreen hready hsupported events
    refine ⟨hstays, hsupports.loads, hmasks,
      fun hflag => (congrArg Kernel.interruptFlag hstill).trans ?_⟩
    exact execAll_disabled i (fun c hc => henables c ((commands_split hsplit).subset hc)) hflag
  · rintro a k k' ⟨hk, hloads, hmasks, hflag⟩ h htake
    have hset := Kernel.flag_of_take htake
    obtain ⟨haccepts, rfl⟩ := hk.take hloads htake
    obtain ⟨-, -, -, hsoftware, -⟩ := hk.served (k.saved a)
    have hother : (k.saved a).1 ≠ .master 0 := by
      intro htimer
      rcases hoff with hclear | hmasked
      · exact absurd (hset.symm.trans (hflag hclear)) (by decide)
      · have hopen : k.machine.pic.master.imr.getLsbD 0 = false := by
          have hunmasked := haccepts.2.2
          rw [show a.1 = .master 0 from htimer] at hunmasked
          exact hunmasked
        rw [hmasks.master, hmasked] at hopen
        exact absurd hopen (by decide)
    rw [if_neg hother] at hsoftware
    show (serve i.image k.machine (k.saved a)).software.rest = _
    rw [hsoftware]
    exact h

end Inert

/-! ## The wait -/

/-- `reboot`, and `keyboard_reboot` up to its loop. -/
def Kernel.reboot : List (Stmt Command Uint64) :=
  [Kernel.print "Rebooting CPU\n", .wait 5000, .act .disableInterrupts]

theorem inert_reboot : ∀ c ∈ commands Kernel.reboot, c.inert = true :=
  List.all_eq_true.mp (show (commands Kernel.reboot).all Command.inert = true from rfl)

theorem screen_reboot : ∀ c ∈ commands Kernel.reboot, c.screenOnly = true :=
  List.all_eq_true.mp (show (commands Kernel.reboot).all Command.screenOnly = true from rfl)

theorem enables_reboot : ∀ c ∈ commands Kernel.reboot, c.enables = false := by
  have hall : (commands Kernel.reboot).all (fun c => !c.enables) = true := rfl
  exact fun c hc => by simpa using List.all_eq_true.mp hall c hc

/-- `reboot` under way. -/
def rebootRun (i : KernelImage) (k₀ : Kernel) (events : List (Event Arrival)) :
    Thread Kernel Command Uint64 Uint64 :=
  (kernelSystem i).run (.start k₀ Kernel.reboot) events

section Wait

variable {i : KernelImage} {k₀ : Kernel} (hready : Ready i k₀) (hsupported : k₀.Supported)
  (events : List (Event Arrival))

include hready hsupported in
theorem ready_reboot : Ready i (rebootRun i k₀ events).state ∧
    (rebootRun i k₀ events).state.Supported ∧
    SameMasks k₀.machine.pic (rebootRun i k₀ events).state.machine.pic :=
  ready_inert_run inert_reboot screen_reboot hready hsupported events

include hready hsupported in
theorem sound_reboot : (rebootRun i k₀ events).state.Sound i :=
  have hstays := ready_reboot hready hsupported events
  ⟨hstays.2.1.loads, fun _ => hstays.1⟩

include hready hsupported in
/-- With the clock at a standstill the wait is never over. -/
theorem reboot_stuck
    (hoff : k₀.interruptFlag = false ∨ k₀.machine.pic.master.imr.getLsbD 0 = true)
    (hbound : k₀.ticks + 5000 < 2 ^ 64) : .wait 5000 ∈ (rebootRun i k₀ events).rest := by
  have hfrozen := frozen_run inert_reboot screen_reboot enables_reboot hready hsupported hoff
  have hticks : ∀ events, (rebootRun i k₀ events).state.ticks = k₀.ticks := fun events =>
    congrArg (fun p : Pit => p.timerTicks.toNat) (hfrozen events)
  refine (kernelSystem i).wait_stays (List.mem_cons_of_mem _ List.mem_cons_self)
    (fun events events' => ?_) events
  have hthousands : (5000 : Uint64).toNat = 5000 := rfl
  have hiff := wait_done_iff i 5000 (rebootRun i k₀ events).state (rebootRun i k₀ events').state
    (by rw [hticks, hthousands]; exact hbound)
  rw [hticks, hticks, hthousands] at hiff
  exact Bool.eq_false_of_not_eq_true fun hdone => absurd (hiff.mp hdone) (by omega)

include hready hsupported in
/-- In the wait interrupts are as `reboot` found them. -/
theorem flag_in_reboot {b : Uint64} {p : Position}
    (hloop : (rebootRun i k₀ events).loop = some (b, p)) :
    (rebootRun i k₀ events).state.interruptFlag = k₀.interruptFlag := by
  obtain ⟨pre, hsplit, -, -, hstill⟩ := inert_run inert_reboot screen_reboot hready hsupported events
  obtain ⟨d, rest, hrest⟩ := (kernelSystem i).wait_of_loop k₀ _ events hloop
  rw [hrest] at hsplit
  -- the one wait of `reboot` is behind its first statement
  have hpre : pre = [Kernel.print "Rebooting CPU\n"] := by
    rcases pre with _ | ⟨stmt, _ | ⟨stmt', _ | ⟨stmt'', pre⟩⟩⟩
    · exact absurd (List.cons.inj hsplit).1 nofun
    · exact congrArg (fun stmt => [stmt]) (List.cons.inj hsplit).1.symm
    · exact absurd (List.cons.inj (List.cons.inj (List.cons.inj hsplit).2).2).1 nofun
    · exact absurd (List.cons.inj (List.cons.inj (List.cons.inj hsplit).2).2).2
        (List.append_ne_nil_of_right_ne_nil pre (List.cons_ne_nil _ _)).symm
  rw [hpre] at hstill
  exact (congrArg Kernel.interruptFlag hstill).trans
    (execAll_flag i k₀ fun c hc => by rw [List.mem_singleton.mp hc]; rfl)

include hready hsupported in
/-- With interrupts on and the line of the timer open, the timer moves a halted `reboot` on. -/
theorem tick_in_reboot (hflag : k₀.interruptFlag = true)
    (hopen : k₀.machine.pic.master.imr.getLsbD 0 = false)
    (hsettled : (rebootRun i k₀ events).Settled) (hrest : (rebootRun i k₀ events).rest ≠ [])
    (hbound : (rebootRun i k₀ events).state.ticks + 1 < 2 ^ 64) :
    ∃ a k', (kernelSystem i).take (rebootRun i k₀ events).state a = some k' ∧
      k'.ticks = (rebootRun i k₀ events).state.ticks + 1 := by
  obtain ⟨b, hloop⟩ := hsettled.resolve_left hrest
  have hset := (flag_in_reboot hready hsupported events hloop).trans hflag
  obtain ⟨hstays, hsupports, hmasks⟩ := ready_reboot hready hsupported events
  have hloads := hsupports.loads
  obtain ⟨k, hk⟩ : ∃ k, (rebootRun i k₀ events).state = k := ⟨_, rfl⟩
  rw [hk] at hset hstays hmasks hloads hbound ⊢
  have haccepts : k.Accepts (.master 0) :=
    ⟨hset, hstays.running.1,
      (congrArg (fun imr : Uint8 => imr.getLsbD 0) hmasks.master).trans hopen⟩
  have htake : k.take i (.master 0, zeroContext 0) = _ :=
    (hstays.take_eq hloads _).trans (if_pos haccepts)
  exact ⟨_, _, htake, (hstays.ticks_take hloads htake hbound).trans (if_pos rfl)⟩

/-- **What has happened** when `reboot` comes to the loop of `keyboard_reboot`: five thousand ticks,
    and no interrupt comes any more. -/
structure Waited (i : KernelImage) (k₀ k : Kernel) : Prop where
  ready : Ready i k
  ticks : k₀.ticks + 5000 ≤ k.ticks
  quiet : ∀ a, k.take i a = none

include hready hsupported in
theorem reboot_waited (hbound : k₀.ticks + 5000 + interrupts events < 2 ^ 64)
    (hend : (rebootRun i k₀ events).rest = []) : Waited i k₀ (rebootRun i k₀ events).state := by
  obtain ⟨hstays, hsupports, -⟩ := ready_reboot hready hsupported events
  obtain ⟨pre, hsplit, hdone, -, hstill⟩ :=
    inert_run inert_reboot screen_reboot hready hsupported events
  obtain ⟨-, pre', hsplit', hpassed, -⟩ := elapsed (timer_clock i)
    (sound_reboot hready hsupported) events hbound
  have hall : ∀ pre, Kernel.reboot = pre ++ (rebootRun i k₀ events).rest → pre = Kernel.reboot := by
    intro pre hsplit
    rw [hend, List.append_nil] at hsplit
    exact hsplit.symm
  obtain rfl := hall pre hsplit
  obtain rfl := hall pre' hsplit'
  refine ⟨hstays, hpassed, fun a => ?_⟩
  have hflag : (rebootRun i k₀ events).state.interruptFlag = false := by
    refine (congrArg Kernel.interruptFlag hstill).trans ?_
    have hrun : (Command.exec i .disableInterrupts
        (Command.exec i (.kprintf (str "Rebooting CPU\n") [] []) k₀)).Running := hdone.running.1
    show (Command.exec i .disableInterrupts (Command.exec i _ k₀)).interruptFlag = false
    rw [(exec_eq_run i hrun).2]
    rfl
  exact (hstays.take_eq hsupports.loads a).trans
    (if_neg fun haccepts => absurd (hflag.symm.trans haccepts.1) (by decide))

end Wait

/-- A kernel that has come to the first wait of `kmain`, line 0 open. -/
def bootedKernel : Kernel :=
  execAll linkedKernel (coldKernel 0xB8) (commands (Kernel.setup linkedKernel coldInfo ++
    [.act .enableInterrupts,
      Kernel.print "Testing Programmable Interval Timer: Waiting 2 seconds\n"]))

theorem bootedKernel_ready :
    Ready linkedKernel bootedKernel ∧ bootedKernel.Supported ∧ bootedKernel.ticks = 0 := by
  have hboot := coldKernel_atBoot 0xB8
  have hsplit : Kernel.kmain linkedKernel multibootBootloaderMagic coldInfo
      = (Kernel.setup linkedKernel coldInfo ++ [.act .enableInterrupts,
          Kernel.print "Testing Programmable Interval Timer: Waiting 2 seconds\n"])
        ++ .wait 2000 :: Kernel.demonstration.drop 2 := rfl
  have hflag := flag_at_wait linkedKernel hboot hsplit
  have hrun : bootedKernel.Running :=
    execAll_passes linkedKernel (coldKernel 0xB8) hboot.running.1 fun c hc =>
      hboot.passes linkedKernel _ c ((commands_split hsplit).subset hc)
  obtain ⟨-, -, hready, -⟩ := ready_of_enabled linkedKernel hboot.toLoaded hsplit hrun hflag
  have hlasting : Lasting (coldKernel 0xB8) bootedKernel :=
    execAll_lasting linkedKernel (coldKernel 0xB8) _
  exact ⟨hready, hboot.toSupported.lasting hlasting,
    congrArg (fun p : Pit => p.timerTicks.toNat) hlasting.pit⟩

/-- A keyboard controller: what a read of its status port or its data port gives, and what it is
    after that, or after a command. -/
structure KeyboardController (κ : Type) where
  status : κ → Uint8 × κ
  data : κ → Uint8 × κ
  command : κ → Uint8 → κ

/-- An access to its ports. -/
inductive PortAccess where
  | inb (port : Uint16) (value : Uint8)
  | outb (port : Uint16) (value : Uint8)
  deriving DecidableEq

/-- Where `keyboard_reboot` stands. -/
inductive RebootPc where
  /-- `temp = inb(KEYBOARD_INTERFACE)` -/
  | read
  /-- `if (check_flag(temp, 0) != 0) inb(0x60)` -/
  | empty (temp : Uint8)
  /-- `while (check_flag(temp, 1) != 0)` -/
  | test (temp : Uint8)
  /-- `outb(KEYBOARD_INTERFACE, 0xFE)` -/
  | pulse
  /-- The loop of `hlt`, with interrupts off. -/
  | halted
  deriving DecidableEq

/-- `keyboard_reboot`, its controller, and the accesses made. -/
structure KeyboardReboot (κ : Type) where
  pc : RebootPc
  device : κ
  log : List PortAccess

/-- `KEYBOARD_INTERFACE` -/
def keyboardInterface : Uint16 := 0x64

/-- `check_flag` -/
def checkFlag (flags : Uint8) (n : Nat) : Uint8 := flags &&& 1#8 <<< n

namespace KeyboardReboot

open Deterministic

variable {κ : Type} (kbc : KeyboardController κ)

/-- One statement. -/
def step (s : KeyboardReboot κ) : Option (KeyboardReboot κ) :=
  match s.pc with
  | .read =>
      let (temp, device) := kbc.status s.device
      some ⟨.empty temp, device, s.log ++ [.inb keyboardInterface temp]⟩
  | .empty temp =>
      if checkFlag temp 0 ≠ 0 then
        let (value, device) := kbc.data s.device
        some ⟨.test temp, device, s.log ++ [.inb 0x60 value]⟩
      else some { s with pc := .test temp }
  | .test temp => some { s with pc := if checkFlag temp 1 ≠ 0 then .read else .pulse }
  | .pulse =>
      some ⟨.halted, kbc.command s.device 0xFE, s.log ++ [.outb keyboardInterface 0xFE]⟩
  | .halted => some s

/-- The controller after one turn of the loop. -/
def turn (device : κ) : κ :=
  let (temp, device) := kbc.status device
  if checkFlag temp 0 ≠ 0 then (kbc.data device).2 else device

/-- The accesses of that turn: one read of the status, and one of the data if there are any. -/
def accesses (device : κ) : List PortAccess :=
  let (temp, device) := kbc.status device
  .inb keyboardInterface temp ::
    if checkFlag temp 0 ≠ 0 then [.inb 0x60 (kbc.data device).1] else []

/-- The controller says that it takes a command. -/
def Takes (device : κ) : Prop := checkFlag (kbc.status device).1 1 = 0

instance (device : κ) : Decidable (Takes kbc device) := inferInstanceAs (Decidable (_ = _))

/-- The controller after `n` turns, and the accesses of the first `n`. -/
def after (device : κ) (n : Nat) : κ := (turn kbc)^[n] device

def history (device : κ) (n : Nat) : List PortAccess :=
  (List.range n).flatMap fun m => accesses kbc (after kbc device m)

/-- `keyboard_reboot` at its first statement. -/
def start (device : κ) : KeyboardReboot κ := ⟨.read, device, []⟩

theorem after_succ (device : κ) (n : Nat) :
    after kbc device (n + 1) = turn kbc (after kbc device n) :=
  Function.iterate_succ_apply' (turn kbc) n device

theorem history_succ (device : κ) (n : Nat) :
    history kbc device (n + 1) = history kbc device n ++ accesses kbc (after kbc device n) := by
  rw [history, List.range_succ, List.flatMap_append, List.flatMap_singleton]
  rfl

/-- Every turn reads at least the status. -/
theorem le_length_history (device : κ) (n : Nat) : n ≤ (history kbc device n).length := by
  induction n with
  | zero => exact Nat.zero_le _
  | succ n ih =>
    rw [history_succ, List.length_append]
    exact Nat.add_le_add ih (Nat.succ_pos _)

/-- The turns read, and write nothing. -/
theorem outb_not_mem_history (device : κ) (n : Nat) (port : Uint16) (value : Uint8) :
    .outb port value ∉ history kbc device n := by
  intro hmem
  obtain ⟨m, -, hm⟩ := List.mem_flatMap.mp hmem
  rcases List.mem_cons.mp hm with hstatus | hdata
  · cases hstatus
  · split_ifs at hdata
    · cases List.mem_singleton.mp hdata
    · cases hdata

/-- **One turn**, up to the test at its end. -/
theorem reaches_turn (device : κ) (log : List PortAccess) :
    Reaches (step kbc) ⟨.read, device, log⟩
      ⟨if Takes kbc device then .pulse else .read, turn kbc device, log ++ accesses kbc device⟩ := by
  let temp := (kbc.status device).1
  let device₁ := (kbc.status device).2
  have hread : step kbc ⟨.read, device, log⟩
      = some ⟨.empty temp, device₁, log ++ [.inb keyboardInterface temp]⟩ := rfl
  have htest : ∀ device₂ log₂, step kbc ⟨.test temp, device₂, log₂⟩
      = some ⟨if Takes kbc device then .pulse else .read, device₂, log₂⟩ := fun device₂ log₂ =>
    congrArg (fun pc => some (KeyboardReboot.mk pc device₂ log₂))
      (ite_not (Takes kbc device) RebootPc.read RebootPc.pulse)
  by_cases hfull : checkFlag temp 0 ≠ 0
  · -- there are data, and they are read
    have hempty : step kbc ⟨.empty temp, device₁, log ++ [.inb keyboardInterface temp]⟩
        = some ⟨.test temp, (kbc.data device₁).2,
            log ++ [.inb keyboardInterface temp] ++ [.inb 0x60 (kbc.data device₁).1]⟩ :=
      if_pos hfull
    have hturn : turn kbc device = (kbc.data device₁).2 := if_pos hfull
    have haccesses : accesses kbc device
        = [.inb keyboardInterface temp] ++ [.inb 0x60 (kbc.data device₁).1] :=
      congrArg (PortAccess.inb keyboardInterface temp :: ·) (if_pos hfull)
    rw [hturn, haccesses, ← List.append_assoc]
    exact .head hread <| .head hempty <| .single (htest _ _)
  · have hempty : step kbc ⟨.empty temp, device₁, log ++ [.inb keyboardInterface temp]⟩
        = some ⟨.test temp, device₁, log ++ [.inb keyboardInterface temp]⟩ := if_neg hfull
    have hturn : turn kbc device = device₁ := if_neg hfull
    have haccesses : accesses kbc device = [.inb keyboardInterface temp] :=
      congrArg (PortAccess.inb keyboardInterface temp :: ·) (if_neg hfull)
    rw [hturn, haccesses]
    exact .head hread <| .head hempty <| .single (htest _ _)

/-- The turns before the controller takes a command. -/
theorem reaches_busy (device : κ) {n : Nat} (hbusy : ∀ m < n, ¬ Takes kbc (after kbc device m)) :
    Reaches (step kbc) (start device) ⟨.read, after kbc device n, history kbc device n⟩ := by
  induction n with
  | zero => exact .refl _
  | succ n ih =>
    have hturn := reaches_turn kbc (after kbc device n) (history kbc device n)
    rw [if_neg (hbusy n (Nat.lt_succ_self n)), ← after_succ, ← history_succ] at hturn
    exact (ih fun m hm => hbusy m (Nat.lt_succ_of_lt hm)).trans hturn

/-- No access is taken back. -/
theorem step_logs : Logs (step kbc) KeyboardReboot.log := by
  rintro ⟨pc, device, log⟩ t hstep
  cases pc with
  | read =>
    obtain rfl := Option.some_inj.mp hstep
    exact List.prefix_append _ _
  | empty temp =>
    by_cases hfull : checkFlag temp 0 ≠ 0
    · obtain rfl := Option.some_inj.mp ((if_pos hfull).symm.trans hstep)
      exact List.prefix_append _ _
    · obtain rfl := Option.some_inj.mp ((if_neg hfull).symm.trans hstep)
      exact List.prefix_refl _
  | test temp =>
    obtain rfl := Option.some_inj.mp hstep
    exact List.prefix_refl _
  | pulse =>
    obtain rfl := Option.some_inj.mp hstep
    exact List.prefix_append _ _
  | halted =>
    obtain rfl := Option.some_inj.mp hstep
    exact List.prefix_refl _

/-- **`keyboard_reboot`** against any controller.  It turns until the controller first says that it
    takes a command, writes 0xFE once, and makes no access before or after but those of the turns; if
    the controller never says so, it turns forever and writes nothing. -/
theorem keyboardReboot_pulses (device : κ) :
    (∀ n, IsLeast {n | Takes kbc (after kbc device n)} n →
      ∃ s, Reaches (step kbc) (start device) s ∧ s.pc = .halted ∧
        s.log = history kbc device (n + 1) ++ [.outb keyboardInterface 0xFE] ∧
        ∀ t, Reaches (step kbc) (start device) t → t.log <+: s.log) ∧
    ((∀ n, ¬ Takes kbc (after kbc device n)) →
      (∀ n, ∃ s, Reaches (step kbc) (start device) s ∧ s.pc = .read ∧
        s.log = history kbc device n) ∧
      ∀ t, Reaches (step kbc) (start device) t → ∀ port value, .outb port value ∉ t.log) := by
  constructor
  · rintro n ⟨htakes, hleast⟩
    have hbusy := reaches_busy kbc device (n := n) fun m hm hm' =>
      absurd (hleast hm') (Nat.not_le_of_lt hm)
    have hturn := reaches_turn kbc (after kbc device n) (history kbc device n)
    rw [if_pos (show Takes kbc (after kbc device n) from htakes), ← after_succ,
      ← history_succ] at hturn
    let s : KeyboardReboot κ := ⟨.halted, kbc.command (after kbc device (n + 1)) 0xFE,
      history kbc device (n + 1) ++ [.outb keyboardInterface 0xFE]⟩
    have hreach : Reaches (step kbc) (start device) s :=
      (hbusy.trans hturn).trans (.single rfl)
    refine ⟨s, hreach, rfl, rfl, fun t ht => ?_⟩
    rcases hreach.comparable ht with hafter | hbefore
    · have hloop : step kbc s = some s := rfl
      obtain rfl := hafter.eq_of_loop hloop
      exact List.prefix_refl _
    · exact (step_logs kbc).reaches hbefore
  · intro hnever
    have hturns := fun n => reaches_busy kbc device (n := n) fun m _ => hnever m
    refine ⟨fun n => ⟨_, hturns n, rfl, rfl⟩, fun t ht port value hmem => ?_⟩
    -- more turns than `t` has made accesses
    rcases (step_logs kbc).comparable ht (hturns (t.log.length + 1)) with hpart | hpart
    · exact outb_not_mem_history kbc device _ port value (hpart.subset hmem)
    · have hlong := le_length_history kbc device (t.log.length + 1)
      have hshort := hpart.length_le
      exact absurd (Nat.le_trans hlong hshort) (Nat.not_succ_le_self _)

end KeyboardReboot

end FreeMicroNix
