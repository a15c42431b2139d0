/-
  The tick counters of `kernel/x86/isa/8254.c`, and `PIT_8254_Wait`.

  `PIT_8254_Handler` runs on every timer interrupt; `PIT_8254_Wait` checks the counter and halts
  until an interrupt, any interrupt, in a loop.  The two are interleaved: a `Wait` is the state of
  the call between two atomic steps, and a run is any list of its own steps, of timer interrupts
  and of other ones.  An interrupt that lands between the check and the `hlt` does not wake it.

  The counter is a `uint64_t`: everything holds for as long as it does not wrap (`timer_safety`).
  The last section says which interrupts of `IRQ_Handler` are runs of the timer's handler.
-/
import FreeMicroNix.Isa.Dispatch
import Mathlib.Data.List.Induction
import Mathlib.Logic.Function.Iterate

namespace FreeMicroNix

/-! ## The counters -/

/-- `timer_ticks` and `timer_seconds` -/
structure Pit where
  timerTicks : Uint64
  timerSeconds : Uint64
  deriving DecidableEq

/-- The counters as the program starts. -/
def pitBoot : Pit := ⟨0, 0⟩

/-- `PIT_8254_Handler` -/
def pit8254Handler (p : Pit) : Pit :=
  let p := { p with timerTicks := p.timerTicks + 1 }
  if p.timerTicks % 1000 = 0 then { p with timerSeconds := p.timerSeconds + 1 } else p

/-- The counters after `k` timer interrupts from boot. -/
def pitAfter (k : Nat) : Pit := pit8254Handler^[k] pitBoot

theorem pitAfter_succ (k : Nat) : pitAfter (k + 1) = pit8254Handler (pitAfter k) :=
  Function.iterate_succ_apply' pit8254Handler k pitBoot

/-- **The quotient invariant**: up to the wrap of the tick counter the two counters count the
    interrupts and their thousands. -/
theorem pitAfter_eq {k : Nat} (hk : k < 2 ^ 64) :
    pitAfter k = ⟨BitVec.ofNat 64 k, BitVec.ofNat 64 (k / 1000)⟩ := by
  induction k with
  | zero => rfl
  | succ k ih =>
    have hsum : ∀ n : Nat, BitVec.ofNat 64 n + 1 = BitVec.ofNat 64 (n + 1) := fun n => by
      rw [BitVec.ofNat_add]
      rfl
    have hmod : BitVec.ofNat 64 (k + 1) % 1000 = 0 ↔ (k + 1) % 1000 = 0 := by
      rw [← BitVec.toNat_inj, BitVec.toNat_umod, BitVec.toNat_ofNat, Nat.mod_eq_of_lt hk]
      exact Iff.rfl
    rw [pitAfter_succ, ih (by omega), pit8254Handler]
    simp only [hsum]
    by_cases hthousand : (k + 1) % 1000 = 0
    · have hquot : k / 1000 + 1 = (k + 1) / 1000 := by omega
      rw [if_pos (hmod.mpr hthousand), hquot]
    · have hquot : k / 1000 = (k + 1) / 1000 := by omega
      rw [if_neg (mt hmod.mp hthousand), hquot]

/-! ## The wait -/

/-- Where a call of `PIT_8254_Wait` stands, after it has read the counter. -/
inductive WaitPc where
  /-- About to check the loop condition. -/
  | check
  /-- The condition held; about to execute `hlt`. -/
  | hlt
  /-- The processor is halted. -/
  | halted
  | returned
  deriving DecidableEq

/-- A call of `PIT_8254_Wait`, and the counters it shares with the interrupt. -/
structure Wait where
  pit : Pit
  eticks : Uint64
  pc : WaitPc
  deriving DecidableEq

/-- `PIT_8254_Wait`, up to its reading of the counter. -/
def pit8254Wait (p : Pit) (ticks : Uint64) : Wait where
  pit := p
  eticks := p.timerTicks + ticks
  pc := .check

/-- What happens next. -/
inductive WaitEvent where
  /-- The call goes on. -/
  | proceed
  /-- A timer interrupt. -/
  | timer
  /-- Another interrupt. -/
  | other
  deriving DecidableEq

/-- An interrupt ends a halt. -/
def WaitPc.wake : WaitPc → WaitPc
  | .halted => .check
  | pc => pc

/-- One event. -/
def Wait.step (w : Wait) : WaitEvent → Wait
  | .proceed =>
      match w.pc with
      | .check =>
          if w.pit.timerTicks < w.eticks then { w with pc := .hlt } else { w with pc := .returned }
      | .hlt => { w with pc := .halted }
      | .halted => w
      | .returned => w
  | .timer => { w with pit := pit8254Handler w.pit, pc := w.pc.wake }
  | .other => { w with pc := w.pc.wake }

/-- A call that read the counter at `t0`, waits for `n` interrupts and has seen `k` of them. -/
structure Waiting (t0 n k : Nat) (w : Wait) : Prop where
  pit : w.pit = pitAfter (t0 + k)
  eticks : w.eticks = BitVec.ofNat 64 (t0 + n)
  returned : w.pc = .returned → n ≤ k

namespace Waiting

variable {t0 n k : Nat} {w : Wait}

/-- The check compares the interrupts seen with the duration. -/
theorem check_iff (h : Waiting t0 n k w) (hn : t0 + n < 2 ^ 64) (hk : t0 + k < 2 ^ 64) :
    w.pit.timerTicks < w.eticks ↔ k < n := by
  rw [h.pit, h.eticks, pitAfter_eq hk, BitVec.lt_def, BitVec.toNat_ofNat, BitVec.toNat_ofNat,
    Nat.mod_eq_of_lt hk, Nat.mod_eq_of_lt hn]
  omega

/-- A step of the call: it returns only from a check that finds the interrupts seen. -/
theorem proceed (h : Waiting t0 n k w) (hn : t0 + n < 2 ^ 64) (hk : t0 + k < 2 ^ 64) :
    Waiting t0 n k (w.step .proceed) := by
  have hcheck := h.check_iff hn hk
  unfold Wait.step
  cases hpc : w.pc with
  | check =>
    dsimp only
    by_cases hless : w.pit.timerTicks < w.eticks
    · rw [if_pos hless]
      exact ⟨h.pit, h.eticks, fun hreturned => absurd hreturned nofun⟩
    · rw [if_neg hless]
      exact ⟨h.pit, h.eticks, fun _ => Nat.not_lt.mp (mt hcheck.mpr hless)⟩
  | hlt => exact ⟨h.pit, h.eticks, fun hreturned => absurd hreturned nofun⟩
  | halted => exact h
  | returned => exact h

/-- An interrupt wakes the call, but does not make it return. -/
theorem interrupt (h : Waiting t0 n k w) {k' : Nat} {pit : Pit} (hk : k ≤ k')
    (hpit : pit = pitAfter (t0 + k')) : Waiting t0 n k' { w with pit := pit, pc := w.pc.wake } := by
  refine ⟨hpit, h.eticks, fun hreturned => ?_⟩
  cases hpc : w.pc with
  | returned => exact Nat.le_trans (h.returned hpc) hk
  | _ =>
    rw [hpc] at hreturned
    exact absurd hreturned nofun

/-- **The step.**  Every event keeps the count. -/
theorem step (h : Waiting t0 n k w) (e : WaitEvent) (hn : t0 + n < 2 ^ 64)
    (hk : t0 + k < 2 ^ 64) : Waiting t0 n (k + [e].count .timer) (w.step e) := by
  cases e with
  | proceed => exact h.proceed hn hk
  | timer =>
    refine h.interrupt (Nat.le_succ k) ?_
    rw [h.pit]
    exact (pitAfter_succ (t0 + k)).symm
  | other => exact h.interrupt (Nat.le_refl k) h.pit

end Waiting

/-- **The run**: what a call has seen is the number of timer interrupts in its run. -/
theorem pit8254Wait_waiting {t0 : Nat} {n : Uint64} (hn : t0 + n.toNat < 2 ^ 64)
    (events : List WaitEvent) (hevents : t0 + events.count .timer < 2 ^ 64) :
    Waiting t0 n.toNat (events.count .timer)
      (events.foldl Wait.step (pit8254Wait (pitAfter t0) n)) := by
  induction events using List.reverseRecOn with
  | nil =>
    have ht0 : t0 < 2 ^ 64 := by omega
    refine ⟨rfl, ?_, fun hreturned => absurd hreturned nofun⟩
    show (pitAfter t0).timerTicks + n = _
    rw [pitAfter_eq ht0, BitVec.ofNat_add, BitVec.ofNat_toNat, BitVec.setWidth_eq]
  | append_singleton events e ih =>
    rw [List.count_append] at hevents ⊢
    rw [List.foldl_append]
    exact (ih (by omega)).step e hn (by omega)

/-- **Timer safety.**  Until the tick counter wraps, the seconds are the thousands of ticks; and a
    call of `PIT_8254_Wait(n)`, interleaved with interrupts in any way, returns only after `n`
    timer interrupts since it read the counter, and at the first check it makes after them. -/
theorem timer_safety :
    (∀ k, k < 2 ^ 64 → (pitAfter k).timerSeconds = (pitAfter k).timerTicks / 1000) ∧
      ∀ (t0 : Nat) (n : Uint64) (events : List WaitEvent), t0 + n.toNat < 2 ^ 64 →
        t0 + events.count .timer < 2 ^ 64 →
        let w := events.foldl Wait.step (pit8254Wait (pitAfter t0) n)
        (w.pc = .returned → n.toNat ≤ events.count .timer) ∧
          (w.pc = .check → n.toNat ≤ events.count .timer → (w.step .proceed).pc = .returned) := by
  constructor
  · intro k hk
    rw [pitAfter_eq hk]
    apply BitVec.eq_of_toNat_eq
    rw [BitVec.toNat_udiv, BitVec.toNat_ofNat, BitVec.toNat_ofNat, Nat.mod_eq_of_lt hk]
    exact Nat.mod_eq_of_lt (Nat.lt_of_le_of_lt (Nat.div_le_self k 1000) hk)
  · intro t0 n events hn hevents
    have hwaiting := pit8254Wait_waiting hn events hevents
    refine ⟨hwaiting.returned, fun hpc hseen => ?_⟩
    have hdone := mt (hwaiting.check_iff hn hevents).mp (Nat.not_lt.mpr hseen)
    rw [Wait.step, hpc]
    dsimp only
    rw [if_neg hdone]

/-- A wait for two interrupts, begun two interrupts before the first second. -/
theorem timer_safety_second :
    (pitAfter 1000).timerSeconds = (pitAfter 1000).timerTicks / 1000 ∧
      let events : List WaitEvent := [.proceed, .timer, .proceed, .other, .proceed, .timer]
      let w := events.foldl Wait.step (pit8254Wait (pitAfter 998) 2)
      (w.pc = .returned → (2 : Uint64).toNat ≤ events.count .timer) ∧
        (w.pc = .check → (2 : Uint64).toNat ≤ events.count .timer →
          (w.step .proceed).pc = .returned) :=
  ⟨timer_safety.1 1000 (by decide),
    timer_safety.2 998 2 [.proceed, .timer, .proceed, .other, .proceed, .timer] (by decide)
      (by decide)⟩

/-! ## The interrupts behind the events -/

/-- What is linked, with `PIT_8254_Handler` at `addr`: it counts, and no other handler does. -/
structure TimerImage (image : Image Pit) (addr : Uint32) : Prop where
  linked : addr ≠ 0
  timer : ∀ ctx sw, (image.handlerAt addr ctx sw).2.rest = pit8254Handler sw.rest
  others : ∀ handler ctx sw, handler ≠ addr → (image.handlerAt handler ctx sw).2.rest = sw.rest

section Interrupts

variable {image : Image Pit} {addr : Uint32} (m : Machine Pit) (ctx : InterruptContext)

/-- The counters after the handler of a slot, or after none. -/
theorem dispatch_rest (himage : TimerImage image addr) (handler : Uint32) :
    (dispatch image m ctx handler).1.software.rest =
      if handler = addr then pit8254Handler m.software.rest else m.software.rest := by
  unfold dispatch
  by_cases hnull : handler = 0
  · subst hnull
    rw [if_neg himage.linked.symm]
    rfl
  · rw [if_pos hnull]
    by_cases htimer : handler = addr
    · subst htimer
      rw [if_pos rfl]
      exact himage.timer ctx m.software
    · rw [if_neg htimer]
      exact himage.others handler ctx m.software htimer

/-- **A real interrupt is a timer event precisely when its slot holds the timer's handler**; any
    other leaves the counters alone. -/
theorem interruptHandler_rest (himage : TimerImage image addr) (h32 : 32 ≤ ctx.intNo)
    (h48 : ctx.intNo < 48) (hreal : RealInterrupt m.pic ctx.intNo) :
    (interruptHandler image m ctx).1.software.rest =
      if m.software.interruptRoutines ctx.intNo = addr then pit8254Handler m.software.rest
      else m.software.rest := by
  obtain ⟨pic, -, hdispatch⟩ := irqHandler_real image m ctx hreal
  rw [interruptHandler_irq image m ctx h32 h48, hdispatch]
  exact dispatch_rest { m with pic := pic } ctx himage _

/-- A spurious one counts nothing. -/
theorem interruptHandler_spurious_rest (h32 : 32 ≤ ctx.intNo) (h48 : ctx.intNo < 48)
    (hspurious : ¬ RealInterrupt m.pic ctx.intNo) :
    (interruptHandler image m ctx).1.software.rest = m.software.rest := by
  rw [interruptHandler_irq image m ctx h32 h48]
  by_cases h7 : ctx.intNo = irq7 ∧ m.pic.master.isr.getLsbD 7 = false
  · obtain ⟨pic, -, hrun⟩ := irqHandler_spuriousMaster image m ctx h7.1 h7.2
    rw [hrun]
  · have h15 : ctx.intNo = irq15 ∧ m.pic.slave.isr.getLsbD 7 = false := by
      by_contra h15
      refine hspurious ⟨fun h => ?_, fun h => ?_⟩
      · exact Bool.of_not_eq_false fun hbit => h7 ⟨h, hbit⟩
      · exact Bool.of_not_eq_false fun hbit => h15 ⟨h, hbit⟩
    obtain ⟨pic, -, hrun⟩ := irqHandler_spuriousSlave image m ctx h15.1 h15.2
    rw [hrun]

end Interrupts

end FreeMicroNix
