/-
  How long `kmain` takes, in timer interrupts.

  Two calls of `PIT_8254_Wait` lie between `sti` and the end of `kmain`, two thousand ticks each; the
  only thing that moves them on is the timer.  The counter they watch is the clock of
  `Lib.Interleaving`.

  1. `kmain_timing` — no run is past a wait too early; and a run whose interrupts find the program
     halted is through at the four thousandth tick, not before and not after.
  2. `kmain_can_finish` — whether there is any run to the end is decided before `kmain` begins: it
     never unmasks a line (`Isa.Masking` says why it could not), so the firmware must have left line 0
     open.
-/
import FreeMicroNix.Kernel.Boot

namespace FreeMicroNix

open Interleaving

/-! ## The clock -/

/-- The clock of the waits. -/
def Kernel.ticks (k : Kernel) : Nat := k.machine.software.rest.timerTicks.toNat

/-- `PIT_8254_Handler` counts one. -/
theorem pit8254Handler_timerTicks (p : Pit) :
    (pit8254Handler p).timerTicks = p.timerTicks + 1 := by
  unfold pit8254Handler
  dsimp only
  split <;> rfl

/-- What an interrupt of a ready kernel does to the clock. -/
theorem Ready.ticks_take {i : KernelImage} {k k' : Kernel} {a : Arrival} (h : Ready i k)
    (hloads : k.Loads) (htake : k.take i a = some k') (hbound : k.ticks + 1 < 2 ^ 64) :
    k'.ticks = if a.1 = .master 0 then k.ticks + 1 else k.ticks := by
  obtain ⟨-, rfl⟩ := h.take hloads htake
  obtain ⟨-, -, -, hsoftware, -⟩ := h.served (k.saved a)
  have hrest := congrArg (fun software : Software Pit => software.rest.timerTicks.toNat) hsoftware
  have hsame : (k.saved a).1 = a.1 := rfl
  show (serve i.image k.machine (k.saved a)).software.rest.timerTicks.toNat = _
  rw [hrest, hsame]
  by_cases htimer : a.1 = .master 0
  · have hone : (1 : Uint64).toNat = 1 := rfl
    rw [if_pos htimer, if_pos htimer, pit8254Handler_timerTicks, BitVec.toNat_add, hone]
    exact Nat.mod_eq_of_lt hbound
  · rw [if_neg htimer, if_neg htimer]
    rfl

/-- The check of `PIT_8254_Wait`, `d` ticks after it was entered with the clock at `t`. -/
theorem wait_done_iff (i : KernelImage) (d : Uint64) (k₁ k : Kernel)
    (hbound : k₁.ticks + d.toNat < 2 ^ 64) :
    (kernelSystem i).done ((kernelSystem i).enter d k₁) k = true ↔
      k₁.ticks + d.toNat ≤ k.ticks := by
  show decide (¬ k.machine.software.rest.timerTicks
    < k₁.machine.software.rest.timerTicks + d) = true ↔ _
  have hsum : (k₁.machine.software.rest.timerTicks + d).toNat = k₁.ticks + d.toNat :=
    (BitVec.toNat_add _ _).trans (Nat.mod_eq_of_lt hbound)
  rw [decide_eq_true_iff, BitVec.lt_def, hsum]
  exact Nat.not_lt

/-- **The timer is a clock** for the waits, until its counter wraps. -/
theorem timer_clock (i : KernelImage) :
    Clock (kernelSystem i) (Kernel.Sound i) Kernel.ticks (fun d => d.toNat) (2 ^ 64) := by
  refine ⟨fun c k _ => ?_, fun k a k' hsound htake hbound => ?_, fun d k₁ k _ _ hbound _ => ?_⟩
  · have hframed := exec_framed i k c
    exact congrArg (fun p : Pit => p.timerTicks.toNat) hframed.pit
  · have hticks := (hsound.take htake).1.ticks_take hsound.1 htake hbound
    rw [hticks]
    split <;> omega
  · exact wait_done_iff i d k₁ k hbound

/-! ## The waits of `kmain` -/

/-- The ticks `kmain` waits for. -/
theorem delay_kmain (i : KernelImage) (magic : Uint32) (mbi : MultibootInfo) :
    delay (fun d : Uint64 => d.toNat) (Kernel.kmain i magic mbi)
      = if magic = multibootBootloaderMagic then 4000 else 0 := by
  unfold Kernel.kmain
  by_cases hmagic : magic = multibootBootloaderMagic
  · rw [if_neg (not_not_intro hmagic), if_pos hmagic]
    rfl
  · rw [if_pos hmagic, if_neg hmagic]
    rfl

section Runs

variable (i : KernelImage) {k₀ : Kernel} {mbi : MultibootInfo} (hboot : k₀.AtBoot mbi)
  (magic : Uint32) (events : List (Event Arrival))

include hboot in
/-- No more handler calls than interrupts. -/
theorem calls_le : (kernelRun i k₀ magic mbi events).state.machine.calls.length
    ≤ interrupts events := by
  refine (kernelSystem i).run_induction
    (P := fun events t => t.state.machine.calls.length ≤ interrupts events) ?_ ?_ ?_ ?_ events
  · show k₀.machine.calls.length ≤ 0
    rw [hboot.calls]
    exact Nat.le_refl 0
  · intro events h
    rw [interrupts_append]
    rcases (kernelSystem i).proceed_state (kernelRun i k₀ magic mbi events)
      with hsame | ⟨c, hcommand⟩
    · exact hsame.symm ▸ h
    · have hcalls := (exec_framed i (kernelRun i k₀ magic mbi events).state c).calls
      refine Nat.le_trans (Nat.le_of_eq ?_) h
      have hsame := congrArg (fun k : Kernel => k.machine.calls) hcommand
      exact congrArg List.length (hsame.trans hcalls)
  · intro events a h _
    rw [interrupts_append]
    exact Nat.le_succ_of_le h
  · intro events a k' h htake
    obtain ⟨hready, -, rfl⟩ := (sound_run i hboot magic events).take htake
    obtain ⟨-, -, -, -, hcalls⟩ :=
      hready.served ((kernelRun i k₀ magic mbi events).state.saved a)
    rw [interrupts_append]
    show (serve i.image _ _).calls.length ≤ _
    rw [hcalls, List.length_append]
    refine Nat.add_le_add h ?_
    split
    · exact Nat.le_refl 1
    · exact Nat.zero_le 1

include hboot in
/-- The clock stands at the number of timer interrupts taken. -/
theorem ticks_run (hbound : interrupts events < 2 ^ 64) :
    (kernelRun i k₀ magic mbi events).state.ticks
      = (kernelRun i k₀ magic mbi events).state.machine.calls.length := by
  have hcalls := calls_le i hboot magic events
  unfold Kernel.ticks
  rw [(counted_run i hboot magic events).counters, pitAfter_eq (by omega),
    BitVec.toNat_ofNat]
  exact Nat.mod_eq_of_lt (by omega)

end Runs

/-- The clock before `kmain`. -/
theorem Kernel.Loaded.ticks {k₀ : Kernel} (hloaded : k₀.Loaded) : k₀.ticks = 0 := by
  rw [Kernel.ticks, hloaded.pit]
  rfl

/-- **How long `kmain` takes**, along a run. -/
structure Timed (i : KernelImage) (k₀ : Kernel) (magic : Uint32) (mbi : MultibootInfo)
    (events : List (Event Arrival)) : Prop where
  /-- It has passed no wait before the timer has interrupted it as often as the waits behind it ask
      for, all together. -/
  passed : ∃ pre, Kernel.kmain i magic mbi
      = pre ++ (kernelRun i k₀ magic mbi events).rest ∧
    delay (fun d : Uint64 => d.toNat) pre
      ≤ (kernelRun i k₀ magic mbi events).state.machine.calls.length
  /-- If each interrupt has found it halted, or at its end, then whenever it has settled it is at its
      end exactly if the timer has interrupted it four thousand times — or `eax` was wrong. -/
  finished : (kernelSystem i).Prompt (.start k₀ (Kernel.kmain i magic mbi)) events →
    (kernelRun i k₀ magic mbi events).Settled →
    ((kernelRun i k₀ magic mbi events).rest = [] ↔ magic ≠ multibootBootloaderMagic ∨
      4000 ≤ (kernelRun i k₀ magic mbi events).state.machine.calls.length)

/-- **Time.**  However interrupts cut into `kmain`, it keeps its waits, until the tick counter
    wraps. -/
theorem kmain_timing (i : KernelImage) {k₀ : Kernel} {mbi : MultibootInfo}
    (hboot : k₀.AtBoot mbi) (magic : Uint32) (events : List (Event Arrival))
    (hbound : 4000 + interrupts events < 2 ^ 64) :
    Timed i k₀ magic mbi events := by
  have hclock := timer_clock i
  have hsound := sound_run i hboot magic
  have hticks : (kernelRun i k₀ magic mbi events).state.ticks
      = (kernelRun i k₀ magic mbi events).state.machine.calls.length :=
    ticks_run i hboot magic events (by omega)
  have hdelay := delay_kmain i magic mbi
  have hmost : delay (fun d : Uint64 => d.toNat) (Kernel.kmain i magic mbi) ≤ 4000 := by
    rw [hdelay]
    split <;> omega
  have hfits : k₀.ticks + delay (fun d : Uint64 => d.toNat) (Kernel.kmain i magic mbi)
      + interrupts events < 2 ^ 64 := by
    rw [hboot.ticks]
    omega
  constructor
  · obtain ⟨-, pre, hsplit, hpassed, -⟩ := elapsed hclock hsound events hfits
    rw [hboot.ticks, Nat.zero_add] at hpassed
    exact ⟨pre, hsplit, hticks ▸ hpassed⟩
  · intro hprompt hsettled
    have hend := finished_iff hclock hsound events hprompt hfits hsettled
    rw [hdelay, hboot.ticks, Nat.zero_add] at hend
    refine hend.trans ?_
    show _ ≤ (kernelRun i k₀ magic mbi events).state.ticks ↔ _
    rw [hticks]
    by_cases hmagic : magic = multibootBootloaderMagic
    · rw [if_pos hmagic, or_iff_right (not_not_intro hmagic)]
    · rw [if_neg hmagic]
      exact iff_of_true (Nat.zero_le _) (Or.inl hmagic)

/-- The timer's first interrupt, just behind `sti`. -/
theorem kmain_timing_cold :
    Timed linkedKernel (coldKernel 0xB8) multibootBootloaderMagic coldInfo
      coldEvents :=
  kmain_timing linkedKernel (coldKernel_atBoot 0xB8) multibootBootloaderMagic coldEvents (by decide)

/-! ## Whether there is an end -/

/-- The waits are behind `sti`. -/
theorem enabled_before_wait (i : KernelImage) {magic : Uint32} {mbi : MultibootInfo}
    {pre rest : List (Stmt Command Uint64)} {d : Uint64}
    (hsplit : Kernel.kmain i magic mbi = pre ++ .wait d :: rest) :
    .act .enableInterrupts ∈ pre := by
  have hnone : ∀ {program pre rest : List (Stmt Command Uint64)},
      delay (fun _ : Uint64 => 1) program = 0 → program = pre ++ .wait d :: rest → False := by
    intro program pre rest hzero hwait
    have hone := delay_head_le (fun _ : Uint64 => 1) hwait rfl
    omega
  unfold Kernel.kmain at hsplit
  by_cases hmagic : magic = multibootBootloaderMagic
  · rw [if_neg (not_not_intro hmagic)] at hsplit
    rcases List.append_eq_append_iff.mp hsplit with ⟨post, rfl, hpost⟩ | ⟨post, hsetup, hpost⟩
    · cases post with
      | nil => exact absurd (List.cons.inj hpost).1 nofun
      | cons stmt post =>
        obtain ⟨rfl, -⟩ := List.cons.inj hpost
        exact List.mem_append_right _ List.mem_cons_self
    · cases post with
      | nil => exact absurd (List.cons.inj hpost).1 nofun
      | cons stmt post =>
        obtain ⟨rfl, -⟩ := List.cons.inj hpost
        exact (hnone rfl hsetup).elim
  · rw [if_pos hmagic] at hsplit
    exact (hnone rfl hsplit).elim

/-- Where `kmain` waits, interrupts are on. -/
theorem flag_at_wait (i : KernelImage) {k₀ : Kernel} {mbi : MultibootInfo} (hboot : k₀.AtBoot mbi)
    {magic : Uint32} {pre rest : List (Stmt Command Uint64)} {d : Uint64}
    (hsplit : Kernel.kmain i magic mbi = pre ++ .wait d :: rest) :
    (execAll i k₀ (commands pre)).interruptFlag = true := by
  have hmem := mem_commands.mpr (enabled_before_wait i hsplit)
  rcases kmain_phases i hsplit with hnone | ⟨-, cs, hcs, hcommands⟩
  · exact absurd (hnone _ hmem) (by decide)
  · have hrun : (execAll i k₀ (commands pre)).Running :=
      execAll_passes i k₀ hboot.running.1 fun c hc =>
        hboot.passes i magic c ((commands_split hsplit).subset hc)
    rw [hcommands, execAll_append] at hrun ⊢
    have hsti := running_of_execAll i (Command.exec i .enableInterrupts
      (execAll i k₀ (commands (Kernel.setup i mbi)))) hrun
    refine (execAll_flag i _ fun c hc => (hcs c hc).2 : (execAll i _ cs).interruptFlag = _).trans ?_
    show (Command.exec i .enableInterrupts _).interruptFlag = true
    rw [(exec_eq_run i hsti).2]
    rfl

section End

variable (i : KernelImage) {k₀ : Kernel} {mbi : MultibootInfo} (hboot : k₀.AtBoot mbi)
  (magic : Uint32)

include hboot in
/-- In a wait interrupts are on. -/
theorem flag_in_loop (events : List (Event Arrival)) {b : Uint64} {p : Position}
    (hloop : (kernelRun i k₀ magic mbi events).loop = some (b, p)) :
    (kernelRun i k₀ magic mbi events).state.interruptFlag = true := by
  obtain ⟨pre, hsplit, hstill⟩ := still_run i hboot magic events
  obtain ⟨d, rest, hrest⟩ := (kernelSystem i).wait_of_loop k₀ _ events hloop
  unfold kernelRun at hsplit
  rw [hrest] at hsplit
  exact (congrArg Kernel.interruptFlag hstill).trans (flag_at_wait i hboot hsplit)

include hboot in
/-- With line 0 open, the timer moves a halted `kmain` on. -/
theorem tick_in_loop (hopen : k₀.machine.pic.master.imr.getLsbD 0 = false)
    (events : List (Event Arrival)) (hsettled : (kernelRun i k₀ magic mbi events).Settled)
    (hrest : (kernelRun i k₀ magic mbi events).rest ≠ [])
    (hbound : (kernelRun i k₀ magic mbi events).state.ticks + 1 < 2 ^ 64) :
    ∃ a k', (kernelSystem i).take (kernelRun i k₀ magic mbi events).state a = some k' ∧
      k'.ticks = (kernelRun i k₀ magic mbi events).state.ticks + 1 := by
  obtain ⟨b, hloop⟩ := hsettled.resolve_left hrest
  have hflag := flag_in_loop i hboot magic events hloop
  obtain ⟨-, hready, hmasks, -⟩ := ready_run i hboot magic events hflag
  have hloads := (sound_run i hboot magic events).1
  obtain ⟨k, hk⟩ : ∃ k, (kernelRun i k₀ magic mbi events).state = k := ⟨_, rfl⟩
  rw [hk] at hflag hready hmasks hbound hloads ⊢
  have haccepts : k.Accepts (.master 0) :=
    ⟨hflag, hready.running.1,
      (congrArg (fun imr : Uint8 => imr.getLsbD 0) hmasks.master).trans hopen⟩
  have htake : k.take i (.master 0, zeroContext 0) = _ :=
    (hready.take_eq hloads _).trans (if_pos haccepts)
  exact ⟨_, _, htake, (hready.ticks_take hloads htake hbound).trans (if_pos rfl)⟩

include hboot in
/-- With line 0 open there is a run to the end. -/
theorem exists_end (hopen : k₀.machine.pic.master.imr.getLsbD 0 = false) :
    ∃ events, (kernelRun i k₀ magic mbi events).rest = [] := by
  have hdelay := delay_kmain i magic mbi
  have hmost : delay (fun d : Uint64 => d.toNat) (Kernel.kmain i magic mbi) ≤ 4000 := by
    rw [hdelay]
    split <;> omega
  obtain ⟨events, -, -, hend⟩ := exists_finished (timer_clock i)
    (sound_run i hboot magic) (by
      intro events hsettled hrest hless
      rw [hboot.ticks] at hless
      exact tick_in_loop i hboot magic hopen events hsettled hrest
        (Nat.lt_of_le_of_lt hless (by omega)))
    (by
      rw [hboot.ticks]
      omega)
  exact ⟨events, hend⟩

include hboot in
/-- With line 0 masked the clock stands still. -/
theorem no_tick (hmasked : k₀.machine.pic.master.imr.getLsbD 0 = true)
    (events : List (Event Arrival)) :
    (kernelRun i k₀ magic mbi events).state.machine.software.rest = pitBoot := by
  refine (kernelSystem i).invariant
    (J := fun k => k.Sound i ∧
      (k.interruptFlag = true → SameMasks k₀.machine.pic k.machine.pic))
    (P := fun k => k.machine.software.rest = pitBoot)
    (fun events => ⟨sound_run i hboot magic events, fun hflag => ?_⟩) hboot.pit
    (fun c k _ h => (exec_framed i k c).pit.trans h) ?_ events
  · exact (ready_run i hboot magic events hflag).2.2.1
  · rintro a k k' ⟨hsound, hmasks⟩ h htake
    obtain ⟨hready, haccepts, rfl⟩ := hsound.take htake
    obtain ⟨-, -, -, hsoftware, -⟩ := hready.served (k.saved a)
    have hother : (k.saved a).1 ≠ .master 0 := by
      intro htimer
      have hopen : k.machine.pic.master.imr.getLsbD 0 = false := by
        have hunmasked := haccepts.2.2
        rw [show a.1 = .master 0 from htimer] at hunmasked
        exact hunmasked
      rw [(hmasks haccepts.1).master, hmasked] at hopen
      exact absurd hopen (by decide)
    rw [if_neg hother] at hsoftware
    show (serve i.image k.machine (k.saved a)).software.rest = pitBoot
    rw [hsoftware]
    exact h

/-- A clock that stands still is one, with no bound. -/
theorem stopped_clock (i : KernelImage) (bound : Nat) :
    Clock (kernelSystem i) (fun k => k.machine.software.rest = pitBoot ∧
        ∀ a k', k.take i a = some k' → k'.machine.software.rest = pitBoot)
      Kernel.ticks (fun d => d.toNat) bound := by
  have hzero : ∀ {k : Kernel}, k.machine.software.rest = pitBoot → k.ticks = 0 := by
    intro k hk
    rw [Kernel.ticks, hk]
    rfl
  refine ⟨fun c k _ => ?_, fun k a k' hk htake _ => ?_, fun d k₁ k hk₁ hk _ _ => ?_⟩
  · exact congrArg (fun p : Pit => p.timerTicks.toNat) (exec_framed i k c).pit
  · rw [hzero hk.1, hzero (hk.2 a k' htake)]
    omega
  · refine wait_done_iff i d k₁ k ?_
    rw [hzero hk₁.1, Nat.zero_add]
    exact d.isLt

end End

/-- **Whether there is an end.**  Some run of `kmain` reaches its end exactly if `eax` was wrong, or
    the firmware has left line 0 of the master open: `kmain` waits for the timer, and opens no line
    itself. -/
theorem kmain_can_finish (i : KernelImage) {k₀ : Kernel} {mbi : MultibootInfo}
    (hboot : k₀.AtBoot mbi) (magic : Uint32) :
    (∃ events, (kernelRun i k₀ magic mbi events).rest = []) ↔
      magic ≠ multibootBootloaderMagic ∨ k₀.machine.pic.master.imr.getLsbD 0 = false := by
  by_cases hmagic : magic = multibootBootloaderMagic
  · rw [or_iff_right (not_not_intro hmagic)]
    constructor
    · rintro ⟨events, hend⟩
      by_contra hmasked
      rw [Bool.not_eq_false] at hmasked
      have hstopped := no_tick i hboot magic hmasked
      have htaken : ∀ events a k',
          (kernelRun i k₀ magic mbi events).state.take i a = some k' →
            k'.machine.software.rest = pitBoot := by
        intro events a k' htake
        have hnext := hstopped (events ++ [.interrupt a])
        have htake' : (kernelSystem i).take (kernelRun i k₀ magic mbi events).state a
            = some k' := htake
        unfold kernelRun at hnext htake'
        rw [System.run_concat, System.step, htake'] at hnext
        exact hnext
      have helapsed := elapsed (stopped_clock i _)
        (fun events => ⟨hstopped events, htaken events⟩) events (Nat.lt_succ_self _)
      obtain ⟨-, pre, hsplit, hpassed, -⟩ := helapsed
      have hzero : (kernelRun i k₀ magic mbi events).state.ticks = 0 := by
        rw [Kernel.ticks, hstopped events]
        rfl
      have hall : pre = Kernel.kmain i magic mbi := by
        have hrest : ((kernelSystem i).run (.start k₀ (Kernel.kmain i magic mbi)) events).rest
            = [] := hend
        rw [hrest, List.append_nil] at hsplit
        exact hsplit.symm
      rw [hall, delay_kmain, if_pos hmagic] at hpassed
      have hlate := Nat.le_trans (Nat.le_add_left _ _) (Nat.le_trans hpassed (Nat.le_of_eq hzero))
      exact absurd hlate (by decide)
    · exact exists_end i hboot magic
  · have hrejected : Kernel.kmain i magic mbi = Kernel.rejected := if_pos hmagic
    refine iff_of_true ⟨List.replicate 5 .proceed, ?_⟩ (Or.inl hmagic)
    unfold kernelRun
    rw [hrejected]
    rfl

/-- The same kernel behind a firmware that has left line 0 open, and behind one that has not. -/
theorem kmain_can_finish_cold :
    (∃ events, (kernelRun linkedKernel (coldKernel 0xB8) multibootBootloaderMagic coldInfo
      events).rest = []) ∧
    ¬ ∃ events, (kernelRun linkedKernel (coldKernel 0xB9) multibootBootloaderMagic coldInfo
      events).rest = [] := by
  have hopen := kmain_can_finish linkedKernel (coldKernel_atBoot 0xB8) multibootBootloaderMagic
  have hmasked := kmain_can_finish linkedKernel (coldKernel_atBoot 0xB9) multibootBootloaderMagic
  refine ⟨hopen.mpr (Or.inr rfl), fun hend => ?_⟩
  rcases hmasked.mp hend with hmagic | hzero
  · exact hmagic rfl
  · exact absurd hzero (by decide)

end FreeMicroNix
