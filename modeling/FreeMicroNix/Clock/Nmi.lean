/-
  `kernel/x86/nmi.c`: the non-maskable interrupt, and who else writes its latch.

  The latch is the high bit of port 0x70, whose low bits select a CMOS register: every function
  that selects a register writes the latch as well.  `Initialize_RTC` leaves it set, `RTC_Handler`
  and `RTC_Get_Register` leave it clear.  The status `NMI_Is_Enabled` returns is a variable of its
  own, which `NMI_Enable` sets and nothing clears.  `nmi_status_iff` says which sequences of calls
  end with both right.
-/
import FreeMicroNix.Clock.Rtc
import FreeMicroNix.Lib.LastWrite
import FreeMicroNix.Lib.Run

namespace FreeMicroNix

open LastWrite Run

/-! ## The functions -/

/-- What the calls share: the chip, `nmi_enabled`, and the state of the clock driver. -/
structure NmiState where
  cmos : Cmos
  nmiEnabled : Bool
  rtc : Rtc
  interruptRoutines : Uint32 → Uint32
  terminal : Terminal

/-- `NMI_Enable` -/
def nmiEnable (s : NmiState) : NmiState :=
  { s with cmos := s.cmos.outAddress (s.cmos.inAddress &&& 0x7F), nmiEnabled := true }

/-- `NMI_Disable`: `nmi_enabled` stays as it is. -/
def nmiDisable (s : NmiState) : NmiState :=
  { s with cmos := s.cmos.outAddress (s.cmos.inAddress ||| 0x80) }

/-- `NMI_Is_Enabled` -/
def nmiIsEnabled (s : NmiState) : Bool := s.nmiEnabled

/-! ## The calls -/

/-- The calls that write port 0x70. -/
inductive NmiCall where
  | enable
  | disable
  | initializeRtc (handler : Uint32)
  | rtcHandler
  | getRegister (reg : Uint32)
  deriving DecidableEq

namespace NmiCall

/-- One call. -/
def run (s : NmiState) : NmiCall → NmiState
  | enable => nmiEnable s
  | disable => nmiDisable s
  | initializeRtc handler =>
      let (table, cmos, terminal) :=
        FreeMicroNix.initializeRtc s.interruptRoutines handler s.cmos s.terminal
      { s with interruptRoutines := table, cmos := cmos, terminal := terminal }
  | rtcHandler =>
      let (rtc, cmos) := FreeMicroNix.rtcHandler s.rtc s.cmos
      { s with rtc := rtc, cmos := cmos }
  | getRegister reg => { s with cmos := (rtcGetRegister s.cmos reg).2 }

/-- The registers of the chip. -/
def InRange : NmiCall → Prop
  | getRegister reg => reg.toNat < 0x80
  | _ => True

/-- The latch a call asks for, if it is one of the two that are about it. -/
def wants : NmiCall → Option Bool
  | enable => some false
  | disable => some true
  | _ => none

/-- The latch a call leaves. -/
def leaves : NmiCall → Bool
  | enable => false
  | disable => true
  | initializeRtc _ => true
  | rtcHandler => false
  | getRegister _ => false

end NmiCall

/-- The state as the program starts, whatever the devices hold. -/
def nmiBoot (cmos : Cmos) (rtc : Rtc) (table : Uint32 → Uint32) (t : Terminal) : NmiState where
  cmos := cmos
  nmiEnabled := false
  rtc := rtc
  interruptRoutines := table
  terminal := t

/-! ## One call -/

section Step

variable (s : NmiState) {call : NmiCall}

theorem latch_run (h : call.InRange) : (call.run s).cmos.latch = call.leaves := by
  cases call with
  | enable =>
    rw [NmiCall.run, nmiEnable, Cmos.outAddress_latch, BitVec.getLsbD_and]
    exact Bool.and_false _
  | disable =>
    rw [NmiCall.run, nmiDisable, Cmos.outAddress_latch, BitVec.getLsbD_or]
    exact Bool.or_true _
  | initializeRtc handler =>
    simp only [NmiCall.run, initializeRtc, Cmos.outData_latch, Cmos.outAddress_latch]
    rfl
  | rtcHandler =>
    simp only [NmiCall.run, rtcHandler, Cmos.outAddress_latch]
    rfl
  | getRegister reg =>
    have hbit : reg.getLsbD 7 = false := Nat.testBit_lt_two_pow h
    simp only [NmiCall.run, rtcGetRegister, Cmos.outAddress_latch]
    rw [BitVec.getLsbD_setWidth, hbit, Bool.and_false]
    rfl

/-- A call that is about the latch leaves what it asks for. -/
theorem NmiCall.leaves_of_wants {latch : Bool} (h : call.wants = some latch) :
    call.leaves = latch := by
  cases call <;> simp_all [wants, leaves]

/-- `nmi_enabled` is set by `NMI_Enable` and kept by the others. -/
theorem nmiEnabled_run (call : NmiCall) :
    (call.run s).nmiEnabled = (s.nmiEnabled || decide (call = .enable)) := by
  cases call <;> simp [NmiCall.run, nmiEnable, nmiDisable]

end Step

/-! ## Sequences -/

/-- The latch that the last `NMI_Enable` or `NMI_Disable` of a sequence asks for, or the one before
    it where there is none. -/
def wantedLatch (initial : Bool) (calls : List NmiCall) : Bool :=
  (lastWrite (fun call (_ : Unit) => call.wants) calls ()).getD initial

/-- A call leaves the latch alone: it is about the latch, or leaves what was there. -/
def LeavesLatch (latch : Bool) (call : NmiCall) : Prop := call.wants = none → call.leaves = latch

/-- The status follows whether `NMI_Enable` was ever called. -/
theorem nmiEnabled_calls (s : NmiState) (calls : List NmiCall) :
    (calls.foldl NmiCall.run s).nmiEnabled = (s.nmiEnabled || decide (.enable ∈ calls)) := by
  induction calls generalizing s with
  | nil => simp
  | cons call calls ih =>
    rw [List.foldl_cons, ih, nmiEnabled_run]
    cases call <;> simp

/-- The machine that follows the latch asked for. -/
def latchStep (latch : Bool) (call : NmiCall) : Bool := call.wants.getD latch

theorem foldl_latchStep (initial : Bool) (calls : List NmiCall) :
    calls.foldl latchStep initial = wantedLatch initial calls := by
  have hstep : ∀ (latch : Bool) (call : NmiCall), True →
      latchStep latch call = call.wants.getD latch := fun _ _ _ => rfl
  exact read_foldl (fun latch (_ : Unit) => latch) (fun call _ => call.wants) (i := ()) hstep
    initial calls fun _ _ => trivial

/-- **The latch**: the calls of a sequence that are not about the latch leave it alone precisely
    when each leaves the latch last asked for, and then that is the latch at the end. -/
theorem latch_kept_iff (s : NmiState) (calls : List NmiCall)
    (hrange : ∀ call ∈ calls, call.InRange) :
    ((∀ pre call post, calls = pre ++ call :: post → call.wants = none →
        (call.run (pre.foldl NmiCall.run s)).cmos.latch
          = (pre.foldl NmiCall.run s).cmos.latch) ↔
      ∀ pre call post, calls = pre ++ call :: post →
        LeavesLatch (wantedLatch s.cmos.latch pre) call) ∧
    ((∀ pre call post, calls = pre ++ call :: post →
        LeavesLatch (wantedLatch s.cmos.latch pre) call) →
      (calls.foldl NmiCall.run s).cmos.latch = wantedLatch s.cmos.latch calls) := by
  have hrel : ∀ (s : NmiState) (latch : Bool) (call : NmiCall), call.InRange →
      s.cmos.latch = latch → LeavesLatch latch call →
      (call.run s).cmos.latch = latchStep latch call := by
    rintro s latch call hin rfl hleaves
    rw [latch_run s hin, latchStep]
    cases hwants : call.wants with
    | none => exact hleaves hwants
    | some wanted => exact NmiCall.leaves_of_wants hwants
  have hguard : ∀ (s : NmiState) (latch : Bool) (call : NmiCall), call.InRange →
      s.cmos.latch = latch →
      ((call.wants = none → (call.run s).cmos.latch = s.cmos.latch) ↔ LeavesLatch latch call) := by
    rintro s latch call hin rfl
    rw [latch_run s hin]
    exact Iff.rfl
  have hruns := guarded_iff_of_related hguard hrel calls hrange (s := s) rfl
  have hend := foldl_related hrel s s.cmos.latch calls hrange rfl
  rw [guarded_iff_split, guarded_iff_split] at hruns
  rw [guarded_iff_split] at hend
  simp only [foldl_latchStep] at hruns hend
  exact ⟨hruns, hend⟩

/-- The last call of the two can only be `NMI_Enable` if that is called. -/
theorem enable_of_wantedLatch (initial : Bool) {calls : List NmiCall}
    (hnmi : ∃ call ∈ calls, call.wants ≠ none) (h : wantedLatch initial calls = false) :
    .enable ∈ calls := by
  obtain ⟨latch, hlast⟩ :=
    exists_lastWrite (fun (call : NmiCall) (_ : Unit) => call.wants) (i := ()) hnmi
  obtain ⟨call, hcall, hwants⟩ := of_lastWrite _ hlast
  rw [wantedLatch, hlast, Option.getD_some] at h
  subst h
  cases call with
  | enable => exact hcall
  | _ => exact absurd hwants nofun

/-- **NMI status, exactly.**  From the state at boot, in a sequence with a call of `NMI_Enable` or
    `NMI_Disable`, the status at the end is that of the latch and no other call changes the latch,
    if and only if every other call happens to leave the latch last asked for — `Initialize_RTC`
    where that is disabled, the others where it is enabled — and the last of the two is
    `NMI_Enable`, or `NMI_Enable` is never called. -/
theorem nmi_status_iff (cmos : Cmos) (rtc : Rtc) (table : Uint32 → Uint32) (t : Terminal)
    (calls : List NmiCall) (hrange : ∀ call ∈ calls, call.InRange)
    (hnmi : ∃ call ∈ calls, call.wants ≠ none) :
    ((nmiIsEnabled (calls.foldl NmiCall.run (nmiBoot cmos rtc table t)) = true ↔
        (calls.foldl NmiCall.run (nmiBoot cmos rtc table t)).cmos.latch = false) ∧
      ∀ pre call post, calls = pre ++ call :: post → call.wants = none →
        (call.run (pre.foldl NmiCall.run (nmiBoot cmos rtc table t))).cmos.latch
          = (pre.foldl NmiCall.run (nmiBoot cmos rtc table t)).cmos.latch) ↔
      (wantedLatch cmos.latch calls = false ∨ .enable ∉ calls) ∧
        ∀ pre call post, calls = pre ++ call :: post →
          LeavesLatch (wantedLatch cmos.latch pre) call := by
  obtain ⟨hkept, hend⟩ := latch_kept_iff (nmiBoot cmos rtc table t) calls hrange
  have hstatus : nmiIsEnabled (calls.foldl NmiCall.run (nmiBoot cmos rtc table t)) = true ↔
      .enable ∈ calls := by
    rw [nmiIsEnabled, nmiEnabled_calls]
    simp [nmiBoot]
  have henable := enable_of_wantedLatch cmos.latch hnmi
  rw [hkept, hstatus]
  refine and_congr_left fun hleaves => ?_
  have hlatch : (calls.foldl NmiCall.run (nmiBoot cmos rtc table t)).cmos.latch
      = wantedLatch cmos.latch calls := hend hleaves
  rw [hlatch]
  cases hwanted : wantedLatch cmos.latch calls with
  | false => simp [henable hwanted]
  | true => simp

/-- The devices and the clock driver, zeroed. -/
def coldNmi : NmiState :=
  nmiBoot ⟨0, fun _ => 0⟩ ⟨0, 0, fun _ => ⟨0, 0, 0, 0, 0, 0⟩⟩ (fun _ => 0) coldTerminal

/-- The clock is initialized while the interrupt is disabled, and read after it is enabled. -/
theorem nmi_status_iff_clock :
    ((nmiIsEnabled ([.disable, .initializeRtc 0xC0102000, .enable, .getRegister 4].foldl
          NmiCall.run coldNmi) = true ↔
        ([.disable, .initializeRtc 0xC0102000, .enable, .getRegister 4].foldl
          NmiCall.run coldNmi).cmos.latch = false) ∧
      ∀ pre call post,
        [.disable, .initializeRtc 0xC0102000, .enable, .getRegister 4] = pre ++ call :: post →
        call.wants = none →
        (call.run (pre.foldl NmiCall.run coldNmi)).cmos.latch
          = (pre.foldl NmiCall.run coldNmi).cmos.latch) ↔
      (wantedLatch false [.disable, .initializeRtc 0xC0102000, .enable, .getRegister 4] = false ∨
          .enable ∉ [NmiCall.disable, .initializeRtc 0xC0102000, .enable, .getRegister 4]) ∧
        ∀ pre call post,
          [.disable, .initializeRtc 0xC0102000, .enable, .getRegister 4] = pre ++ call :: post →
          LeavesLatch (wantedLatch false pre) call :=
  nmi_status_iff ⟨0, fun _ => 0⟩ ⟨0, 0, fun _ => ⟨0, 0, 0, 0, 0, 0⟩⟩ (fun _ => 0) coldTerminal
    [.disable, .initializeRtc 0xC0102000, .enable, .getRegister 4]
    (by
      intro call hcall
      simp only [List.mem_cons, List.not_mem_nil, or_false] at hcall
      rcases hcall with rfl | rfl | rfl | rfl
      · trivial
      · trivial
      · trivial
      · exact (by decide : (4 : Uint32).toNat < 0x80))
    ⟨.disable, List.mem_cons_self, by decide⟩

/-- Enabled and disabled again: the status still says enabled. -/
theorem nmi_status_stale :
    ¬ ((nmiIsEnabled ([.enable, .disable].foldl NmiCall.run coldNmi) = true ↔
        ([.enable, .disable].foldl NmiCall.run coldNmi).cmos.latch = false) ∧
      ∀ pre call post, [.enable, .disable] = pre ++ call :: post → call.wants = none →
        (call.run (pre.foldl NmiCall.run coldNmi)).cmos.latch
          = (pre.foldl NmiCall.run coldNmi).cmos.latch) := by
  intro h
  exact absurd (h.1.mp rfl) (by decide)

end FreeMicroNix
