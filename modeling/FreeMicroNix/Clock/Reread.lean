/-
  The re-read loop of `RTC_Update`: when it is left.

  A pass reads the six registers of the time, and the loop is to go on until a pass reads what the
  pass before it read.  `last_day` is compared with the day like the other five, but it is declared
  and never assigned: it is whatever lay on the stack.  So the loop is left at the first pass whose
  other five registers repeat and whose day is that byte (`Leaves`), where it should be the first
  whose six registers repeat (`Repeats`).

  Pass `n` runs on the registers `snaps n`, with the update-in-progress flag clear, and is 14 port
  accesses: two for the flag and two for each register (`run_pass`).
-/
import FreeMicroNix.Clock.Update
import FreeMicroNix.Lib.FirstPass

namespace FreeMicroNix

open FirstPass

/-! ## A pass -/

/-- What a pass reads. -/
def RtcTime.ofRegisters (contents : BitVec 7 → Uint8) : RtcTime where
  second := contents 0x00
  minute := contents 0x02
  hour := contents 0x04
  day := contents 0x07
  month := contents 0x08
  year := (contents 0x09).setWidth 32

namespace Rtc

theorem current_setCurrent (r : Rtc) (time : RtcTime) : (r.setCurrent time).current = time :=
  Function.update_self _ _ _

theorem setCurrent_setCurrent (r : Rtc) (time time' : RtcTime) :
    (r.setCurrent time).setCurrent time' = r.setCurrent time' := by
  have htimes : Function.update (Function.update r.times r.rtcCurrent time) r.rtcCurrent time'
      = Function.update r.times r.rtcCurrent time' := Function.update_idem _ _ _
  exact congrArg (fun times => ({ r with times := times } : Rtc)) htimes

end Rtc

/-- The chip presents the registers, and the function makes a pass. -/
def passEvents (contents : BitVec 7 → Uint8) : List RtcEvent :=
  .change contents :: List.replicate 14 .proceed

section Pass

variable (pass : ClockPass) (locals : RtcLocals) (rtc : Rtc) (address : Uint8)

/-- A call, uninterrupted, returns the register it was made for. -/
theorem proceed_call (call : RtcRead) (contents : BitVec 7 → Uint8) :
    (RtcUpdate.mk (.select call) locals rtc ⟨address, contents⟩).proceed.proceed
      = (RtcUpdate.mk (.read call) locals rtc ⟨call.reg, contents⟩).deliver
          (call.result (contents (call.reg.setWidth 7))) call := rfl

/-- The flag is clear. -/
theorem proceed_flag {contents : BitVec 7 → Uint8} (hclear : contents 0x0A &&& 0x80 = 0) :
    (RtcUpdate.mk (.select (.flag pass)) locals rtc ⟨address, contents⟩).proceed.proceed
      = ⟨.select (.time pass 0), locals, rtc, ⟨0x0A, contents⟩⟩ := by
  rw [proceed_call]
  exact if_neg (not_not_intro hclear)

/-- A register with another one behind it. -/
theorem proceed_field {field next : Fin 6} (hnext : field.val + 1 = next.val)
    (contents : BitVec 7 → Uint8) :
    (RtcUpdate.mk (.select (.time pass field)) locals rtc ⟨address, contents⟩).proceed.proceed
      = ⟨.select (.time pass next), locals,
          rtc.setCurrent (rtc.current.set field (contents ((timeRegister field).setWidth 7))),
          ⟨timeRegister field, contents⟩⟩ := by
  have hless : field.val < 5 := by omega
  have heq : next = ⟨field.val + 1, by omega⟩ := Fin.ext hnext.symm
  rw [proceed_call, RtcUpdate.deliver, heq]
  exact dif_pos hless

/-- The last register, and the loop condition. -/
theorem proceed_year (contents : BitVec 7 → Uint8) :
    (RtcUpdate.mk (.select (.time pass 5)) locals rtc ⟨address, contents⟩).proceed.proceed
      = let time := rtc.current.set 5 (contents 0x09)
        if pass = .first ∨ locals.differs time then
          ⟨.select (.flag .again), locals.remember time, rtc.setCurrent time, ⟨0x09, contents⟩⟩
        else ⟨.select .registerB, locals, rtc.setCurrent time, ⟨0x09, contents⟩⟩ := by
  rw [proceed_call, RtcUpdate.deliver]
  rfl

/-- **A pass** with the flag clear. -/
theorem run_pass (before : BitVec 7 → Uint8) {contents : BitVec 7 → Uint8}
    (hclear : contents 0x0A &&& 0x80 = 0) :
    (passEvents contents).foldl RtcUpdate.step
        ⟨.select (.flag pass), locals, rtc, ⟨address, before⟩⟩
      = let time := RtcTime.ofRegisters contents
        if pass = .first ∨ locals.differs time then
          ⟨.select (.flag .again), locals.remember time, rtc.setCurrent time, ⟨0x09, contents⟩⟩
        else ⟨.select .registerB, locals, rtc.setCurrent time, ⟨0x09, contents⟩⟩ := by
  simp only [passEvents, List.replicate_succ, List.replicate_zero, List.foldl_cons,
    List.foldl_nil, RtcUpdate.step]
  rw [proceed_flag pass locals rtc address hclear,
    proceed_field pass _ _ _ (show (0 : Fin 6).val + 1 = (1 : Fin 6).val from rfl),
    proceed_field pass _ _ _ (show (1 : Fin 6).val + 1 = (2 : Fin 6).val from rfl),
    proceed_field pass _ _ _ (show (2 : Fin 6).val + 1 = (3 : Fin 6).val from rfl),
    proceed_field pass _ _ _ (show (3 : Fin 6).val + 1 = (4 : Fin 6).val from rfl),
    proceed_field pass _ _ _ (show (4 : Fin 6).val + 1 = (5 : Fin 6).val from rfl), proceed_year]
  simp only [Rtc.current_setCurrent, Rtc.setCurrent_setCurrent]
  rfl

end Pass

/-! ## The passes -/

/-- `RTC_Update` behind pass `n`, the pass before the loop being number 0. -/
def afterPass (locals : RtcLocals) (rtc : Rtc) (cmos : Cmos) (snaps : Nat → BitVec 7 → Uint8)
    (n : Nat) : RtcUpdate :=
  ((List.range (n + 1)).flatMap fun k => passEvents (snaps k)).foldl RtcUpdate.step
    (rtcUpdate locals rtc cmos)

/-- Pass `n` was the last of the loop. -/
def ExitsAt (locals : RtcLocals) (rtc : Rtc) (cmos : Cmos) (snaps : Nat → BitVec 7 → Uint8)
    (n : Nat) : Prop :=
  (afterPass locals rtc cmos snaps n).pc = .select .registerB

/-- A register of the time. -/
def register (contents : BitVec 7 → Uint8) (field : Fin 6) : Uint8 :=
  contents ((timeRegister field).setWidth 7)

/-- The day among the six. -/
def dayField : Fin 6 := ⟨3, by decide⟩

/-- The passes in the loop whose six registers equal those of the pass before. -/
def Repeats (snaps : Nat → BitVec 7 → Uint8) : Set Nat :=
  { n | 0 < n ∧ ∀ field, register (snaps n) field = register (snaps (n - 1)) field }

/-- The passes in the loop whose registers, but for the day, equal those of the pass before. -/
def OthersRepeat (snaps : Nat → BitVec 7 → Uint8) (n : Nat) : Prop :=
  0 < n ∧ ∀ field, field ≠ dayField → register (snaps n) field = register (snaps (n - 1)) field

/-- The passes the loop condition fails at, if `last_day` holds `day`. -/
def Leaves (day : Uint8) (snaps : Nat → BitVec 7 → Uint8) : Set Nat :=
  { n | OthersRepeat snaps n ∧ register (snaps n) dayField = day }

/-- **The loop condition**, in a pass on `contents` behind one on `before`. -/
theorem differs_remember_iff (locals : RtcLocals) (before contents : BitVec 7 → Uint8) :
    (locals.remember (RtcTime.ofRegisters before)).differs (RtcTime.ofRegisters contents) = false ↔
      (∀ field, field ≠ dayField → register contents field = register before field) ∧
        register contents dayField = locals.lastDay := by
  have hyear : ((before 0x09).setWidth 32).setWidth 8 = before 0x09 :=
    BitVec.setWidth_setWidth_of_le _ (by decide)
  have hwide : (before 0x09).setWidth 32 = (contents 0x09).setWidth 32 ↔
      before 0x09 = contents 0x09 := by
    constructor
    · intro heq
      bv_omega
    · intro heq
      rw [heq]
  unfold RtcLocals.differs RtcLocals.remember RtcTime.ofRegisters
  simp only [hyear, decide_eq_false_iff_not, not_or, not_not, ne_eq, hwide, and_true]
  constructor
  · rintro ⟨hsecond, hminute, hhour, hday, hmonth, hyear⟩
    refine ⟨fun field hfield => ?_, hday.symm⟩
    match field with
    | 0 => exact hsecond.symm
    | 1 => exact hminute.symm
    | 2 => exact hhour.symm
    | 3 => exact absurd rfl hfield
    | 4 => exact hmonth.symm
    | 5 => exact hyear.symm
  · rintro ⟨hothers, hday⟩
    exact ⟨(hothers 0 (by decide)).symm, (hothers 1 (by decide)).symm,
      (hothers 2 (by decide)).symm, hday.symm, (hothers 4 (by decide)).symm,
      (hothers 5 (by decide)).symm⟩

/-- In the loop, behind a pass on `contents`: all locals but `last_day` have been assigned. -/
structure Looping (day : Uint8) (contents : BitVec 7 → Uint8) (u : RtcUpdate) : Prop where
  pc : u.pc = .select (.flag .again)
  locals : ∃ l : RtcLocals, l.lastDay = day ∧ u.locals = l.remember (RtcTime.ofRegisters contents)

/-- Out of the loop, with what the last pass read. -/
structure Left (contents : BitVec 7 → Uint8) (u : RtcUpdate) : Prop where
  pc : u.pc = .select .registerB
  kept : u.rtc.current = RtcTime.ofRegisters contents

section Passes

variable {day : Uint8} {before contents : BitVec 7 → Uint8} {u : RtcUpdate}

/-- The pass before the loop. -/
theorem looping_first (locals : RtcLocals) (rtc : Rtc) (cmos : Cmos)
    (hclear : contents 0x0A &&& 0x80 = 0) :
    Looping locals.lastDay contents
      ((passEvents contents).foldl RtcUpdate.step (rtcUpdate locals rtc cmos)) := by
  have hpass := run_pass .first locals rtc cmos.address cmos.contents hclear
  rw [if_pos (Or.inl rfl)] at hpass
  have hstart : rtcUpdate locals rtc cmos
      = ⟨.select (.flag .first), locals, rtc, ⟨cmos.address, cmos.contents⟩⟩ := rfl
  rw [hstart, hpass]
  exact ⟨rfl, locals, rfl, rfl⟩

/-- **The step**: a pass in the loop. -/
theorem Looping.step (hloop : Looping day before u) (hclear : contents 0x0A &&& 0x80 = 0) :
    ((∀ field, field ≠ dayField → register contents field = register before field) ∧
        register contents dayField = day ∧
        Left contents ((passEvents contents).foldl RtcUpdate.step u)) ∨
      (¬ ((∀ field, field ≠ dayField → register contents field = register before field) ∧
        register contents dayField = day) ∧
        Looping day contents ((passEvents contents).foldl RtcUpdate.step u)) := by
  obtain ⟨pc, locals, rtc, ⟨address, c⟩⟩ := u
  obtain ⟨rfl, l, rfl, hlocals⟩ := hloop
  change locals = _ at hlocals
  subst hlocals
  rw [run_pass .again _ rtc address c hclear, ← differs_remember_iff]
  cases hdiffers : (l.remember (RtcTime.ofRegisters before)).differs
      (RtcTime.ofRegisters contents) with
  | false =>
    obtain ⟨hothers, hday⟩ := (differs_remember_iff l before contents).mp hdiffers
    rw [if_neg (by simp [hdiffers])]
    exact Or.inl ⟨hothers, hday, rfl, rtc.current_setCurrent _⟩
  | true =>
    rw [if_pos (Or.inr hdiffers)]
    exact Or.inr ⟨nofun, rfl, l.remember (RtcTime.ofRegisters before), rfl, rfl⟩

/-- Behind the loop register B is read, and no pass follows. -/
theorem done_of_registerB (hpc : u.pc = .select .registerB) :
    ((passEvents contents).foldl RtcUpdate.step u).pc = .done := by
  obtain ⟨pc, locals, rtc, ⟨address, c⟩⟩ := u
  obtain rfl : pc = _ := hpc
  simp only [passEvents, List.replicate_succ, List.replicate_zero, List.foldl_cons,
    List.foldl_nil, RtcUpdate.step]
  rw [proceed_call]
  rfl

theorem done_of_done (hpc : u.pc = .done) :
    ((passEvents contents).foldl RtcUpdate.step u).pc = .done := by
  obtain ⟨pc, locals, rtc, ⟨address, c⟩⟩ := u
  obtain rfl : pc = _ := hpc
  rfl

end Passes

section Run

variable (locals : RtcLocals) (rtc : Rtc) (cmos : Cmos) {snaps : Nat → BitVec 7 → Uint8}

theorem afterPass_zero (snaps : Nat → BitVec 7 → Uint8) :
    afterPass locals rtc cmos snaps 0
      = (passEvents (snaps 0)).foldl RtcUpdate.step (rtcUpdate locals rtc cmos) := by
  show (passEvents (snaps 0) ++ []).foldl RtcUpdate.step _ = _
  rw [List.append_nil]

theorem afterPass_succ (snaps : Nat → BitVec 7 → Uint8) (n : Nat) :
    afterPass locals rtc cmos snaps (n + 1)
      = (passEvents (snaps (n + 1))).foldl RtcUpdate.step (afterPass locals rtc cmos snaps n) := by
  rw [afterPass, List.range_succ, List.flatMap_append, List.foldl_append, List.flatMap_singleton]
  rfl

/-- **The run**: behind every pass the loop goes on, has just been left, or is past. -/
theorem afterPass_cases (hclear : ∀ n, snaps n 0x0A &&& 0x80 = 0) (n : Nat) :
    Looping locals.lastDay (snaps n) (afterPass locals rtc cmos snaps n) ∨
      Left (snaps n) (afterPass locals rtc cmos snaps n) ∨
      (afterPass locals rtc cmos snaps n).pc = .done := by
  induction n with
  | zero =>
    rw [afterPass_zero]
    exact Or.inl (looping_first locals rtc cmos (hclear 0))
  | succ n ih =>
    rw [afterPass_succ]
    rcases ih with hloop | hleft | hdone
    · rcases hloop.step (hclear (n + 1)) with ⟨-, -, hleft⟩ | ⟨-, hloop⟩
      · exact Or.inr (Or.inl hleft)
      · exact Or.inl hloop
    · exact Or.inr (Or.inr (done_of_registerB hleft.pc))
    · exact Or.inr (Or.inr (done_of_done hdone))

/-- A pass that starts in the loop. -/
theorem looping_of_pc (hclear : ∀ n, snaps n 0x0A &&& 0x80 = 0) {n : Nat}
    (hpc : (afterPass locals rtc cmos snaps n).pc = .select (.flag .again)) :
    Looping locals.lastDay (snaps n) (afterPass locals rtc cmos snaps n) := by
  rcases afterPass_cases locals rtc cmos hclear n with hloop | hleft | hdone
  · exact hloop
  · exact absurd (hpc.symm.trans hleft.pc) nofun
  · exact absurd (hpc.symm.trans hdone) nofun

/-- **When the loop is left**: at the first pass its condition fails at. -/
theorem exitsAt_iff (hclear : ∀ n, snaps n 0x0A &&& 0x80 = 0) (n : Nat) :
    ExitsAt locals rtc cmos snaps n ↔ IsLeast (Leaves locals.lastDay snaps) n := by
  have hstart : (afterPass locals rtc cmos snaps 0).pc = .select (.flag .again) := by
    rw [afterPass_zero]
    exact (looping_first locals rtc cmos (hclear 0)).pc
  have hfirst : 0 ∉ Leaves locals.lastDay snaps := fun h => Nat.lt_irrefl 0 h.1.1
  have hstay : ∀ n, (afterPass locals rtc cmos snaps n).pc = .select (.flag .again) →
      n + 1 ∉ Leaves locals.lastDay snaps →
      (afterPass locals rtc cmos snaps (n + 1)).pc = .select (.flag .again) := by
    intro n hpc hnot
    rw [afterPass_succ]
    rcases (looping_of_pc locals rtc cmos hclear hpc).step (hclear (n + 1)) with
      ⟨hothers, hday, -⟩ | ⟨-, hloop⟩
    · exact absurd ⟨⟨Nat.succ_pos n, hothers⟩, hday⟩ hnot
    · exact hloop.pc
  have hleave : ∀ n, (afterPass locals rtc cmos snaps n).pc = .select (.flag .again) →
      n + 1 ∈ Leaves locals.lastDay snaps →
      (afterPass locals rtc cmos snaps (n + 1)).pc = .select .registerB := by
    rintro n hpc ⟨⟨-, hothers⟩, hday⟩
    rw [afterPass_succ]
    rcases (looping_of_pc locals rtc cmos hclear hpc).step (hclear (n + 1)) with
      ⟨-, -, hleft⟩ | ⟨hnot, -⟩
    · exact hleft.pc
    · exact absurd ⟨hothers, hday⟩ hnot
  have hleft : ∀ n, (afterPass locals rtc cmos snaps n).pc = .select .registerB →
      (afterPass locals rtc cmos snaps (n + 1)).pc = .done := by
    intro n hpc
    rw [afterPass_succ]
    exact done_of_registerB hpc
  have hgone : ∀ n, (afterPass locals rtc cmos snaps n).pc = .done →
      (afterPass locals rtc cmos snaps (n + 1)).pc = .done := by
    intro n hpc
    rw [afterPass_succ]
    exact done_of_done hpc
  exact left_iff_isLeast hstart hfirst hstay hleave hleft hgone nofun nofun n

/-- What is kept when the loop is left. -/
theorem kept_of_exitsAt (hclear : ∀ n, snaps n 0x0A &&& 0x80 = 0) {n : Nat}
    (hexit : ExitsAt locals rtc cmos snaps n) :
    (afterPass locals rtc cmos snaps n).rtc.current = RtcTime.ofRegisters (snaps n) := by
  rcases afterPass_cases locals rtc cmos hclear n with hloop | hleft | hdone
  · exact absurd (hloop.pc.symm.trans hexit) nofun
  · exact hleft.kept
  · exact absurd (hdone.symm.trans hexit) nofun

/-- A pass that repeats the six registers reads the same time. -/
theorem ofRegisters_of_repeats {n : Nat} (h : n ∈ Repeats snaps) :
    RtcTime.ofRegisters (snaps n) = RtcTime.ofRegisters (snaps (n - 1)) := by
  have hsame : ∀ field, register (snaps n) field = register (snaps (n - 1)) field := h.2
  unfold RtcTime.ofRegisters
  rw [show snaps n 0x00 = snaps (n - 1) 0x00 from hsame 0,
    show snaps n 0x02 = snaps (n - 1) 0x02 from hsame 1,
    show snaps n 0x04 = snaps (n - 1) 0x04 from hsame 2,
    show snaps n 0x07 = snaps (n - 1) 0x07 from hsame 3,
    show snaps n 0x08 = snaps (n - 1) 0x08 from hsame 4,
    show snaps n 0x09 = snaps (n - 1) 0x09 from hsame 5]

/-- Six registers repeat when five do and the day. -/
theorem mem_repeats_iff (snaps : Nat → BitVec 7 → Uint8) (n : Nat) :
    n ∈ Repeats snaps ↔
      OthersRepeat snaps n ∧ register (snaps n) dayField = register (snaps (n - 1)) dayField := by
  constructor
  · rintro ⟨hpos, hsame⟩
    exact ⟨⟨hpos, fun field _ => hsame field⟩, hsame 3⟩
  · rintro ⟨⟨hpos, hothers⟩, hday⟩
    refine ⟨hpos, fun field => ?_⟩
    by_cases hfield : field = dayField
    · rw [hfield]
      exact hday
    · exact hothers field hfield

/-- **Stable reads, exactly.**  The loop is left at the first pass that repeats the one before it,
    keeping what both read, if and only if, at every pass no later than the first repetition whose
    other five registers repeat, the day is the byte `last_day` happens to hold just when it is
    that of the pass before. -/
theorem reread_stable_iff (hclear : ∀ n, snaps n 0x0A &&& 0x80 = 0) :
    ((∀ n, ExitsAt locals rtc cmos snaps n ↔ IsLeast (Repeats snaps) n) ∧
        ∀ n, ExitsAt locals rtc cmos snaps n →
          (afterPass locals rtc cmos snaps n).rtc.current = RtcTime.ofRegisters (snaps n) ∧
          RtcTime.ofRegisters (snaps n) = RtcTime.ofRegisters (snaps (n - 1))) ↔
      ∀ n, n ∈ lowerBounds (Repeats snaps) → OthersRepeat snaps n →
        (register (snaps n) dayField = locals.lastDay ↔
          register (snaps n) dayField = register (snaps (n - 1)) dayField) := by
  have hexits := exitsAt_iff locals rtc cmos hclear
  have hfirst : (∀ n, ExitsAt locals rtc cmos snaps n ↔ IsLeast (Repeats snaps) n) ↔
      ∀ n, n ∈ lowerBounds (Repeats snaps) → OthersRepeat snaps n →
        (register (snaps n) dayField = locals.lastDay ↔
          register (snaps n) dayField = register (snaps (n - 1)) dayField) := by
    simp only [hexits, isLeast_iff_isLeast, mem_repeats_iff]
    exact forall_congr' fun n => forall_congr' fun _ => and_congr_right_iff
  rw [← hfirst, and_iff_left_iff_imp]
  intro hall n hexit
  exact ⟨kept_of_exitsAt locals rtc cmos hclear hexit,
    ofRegisters_of_repeats ((hall n).mp hexit).1⟩

end Run

/-- A clock that stands still on the 15th. -/
def steadyClock : Nat → BitVec 7 → Uint8 := fun _ reg => if reg = 0x07 then 0x15 else 0

/-- The locals as the stack holds them: zeroes, but for `last_day`. -/
def staleLocals (day : Uint8) : RtcLocals := ⟨0, 0, 0, 0, day, 0, 0, 0, 0⟩

/-- The driver before the first update. -/
def coldRtc : Rtc := ⟨0, 0x2000, fun _ => ⟨0, 0, 0, 0, 0, 0⟩⟩

theorem steadyClock_clear (n : Nat) : steadyClock n 0x0A &&& 0x80 = 0 := by
  rw [show steadyClock n 0x0A = 0 from if_neg (by decide)]
  exact BitVec.zero_and

theorem reread_stable_iff_steady :
    ((∀ n, ExitsAt (staleLocals 0x15) coldRtc tickingCmos steadyClock n ↔
          IsLeast (Repeats steadyClock) n) ∧
        ∀ n, ExitsAt (staleLocals 0x15) coldRtc tickingCmos steadyClock n →
          (afterPass (staleLocals 0x15) coldRtc tickingCmos steadyClock n).rtc.current
            = RtcTime.ofRegisters (steadyClock n) ∧
          RtcTime.ofRegisters (steadyClock n) = RtcTime.ofRegisters (steadyClock (n - 1))) ↔
      ∀ n, n ∈ lowerBounds (Repeats steadyClock) → OthersRepeat steadyClock n →
        (register (steadyClock n) dayField = (staleLocals 0x15).lastDay ↔
          register (steadyClock n) dayField = register (steadyClock (n - 1)) dayField) :=
  reread_stable_iff (staleLocals 0x15) coldRtc tickingCmos steadyClock_clear

/-- With another byte on the stack the loop is never left, though the first pass in it repeats. -/
theorem reread_hangs :
    (∀ n, ¬ ExitsAt (staleLocals 0) coldRtc tickingCmos steadyClock n) ∧
      ¬ ∀ n, ExitsAt (staleLocals 0) coldRtc tickingCmos steadyClock n ↔
        IsLeast (Repeats steadyClock) n := by
  have hnever : ∀ n, ¬ ExitsAt (staleLocals 0) coldRtc tickingCmos steadyClock n := by
    intro n hexit
    rw [exitsAt_iff _ _ _ steadyClock_clear] at hexit
    have hday : (0x15 : Uint8) = 0 := hexit.1.2
    exact absurd hday (by decide)
  refine ⟨hnever, fun hall => hnever 1 ((hall 1).mpr ?_)⟩
  exact ⟨⟨Nat.one_pos, fun _ => rfl⟩, fun m hm => hm.1⟩

end FreeMicroNix
