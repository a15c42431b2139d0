/-
  The rates `PIT_8254_Phase` can program.

  The quotient of the clock and the rate goes out through two `uint8_t` parameters, and the counter
  behind the port has 16 bits.  Nothing in the function looks at the rate, so what arrives is the
  quotient only where it fits:

  1. a counter loaded from a double word divides by that double word exactly from 1 to 65536
     (`reload_setWidth_iff`), zero standing for 65536;
  2. the second byte is all that is left of the quotient exactly below 65536
     (`narrowed_iff`);
  3. the quotient lies there exactly for the rates from 19 to 1193182 (`quotient_fits_iff`): at 18
     it is 66287, and the value 65536 itself is no quotient of the clock.
-/
import FreeMicroNix.Timer.Load

namespace FreeMicroNix

/-! ## Sixteen bits -/

/-- What a counter divides the clock by. -/
def reload (count : Uint16) : Nat := if count = 0 then 65536 else count.toNat

theorem reload_setWidth_iff (n : Uint32) :
    reload (n.setWidth 16) = n.toNat ↔ 0 < n.toNat ∧ n.toNat ≤ 65536 := by
  have hlow : (n.setWidth 16).toNat = n.toNat % 65536 := BitVec.toNat_setWidth 16 n
  unfold reload
  by_cases hzero : n.setWidth 16 = 0
  · have hmultiple : n.toNat % 65536 = 0 := by
      rw [← hlow, hzero]
      rfl
    rw [if_pos hzero]
    omega
  · have hrest : n.toNat % 65536 ≠ 0 := by
      intro hmultiple
      exact hzero (BitVec.eq_of_toNat_eq (hlow.trans hmultiple))
    rw [if_neg hzero, hlow]
    omega

/-- A double word passed for a byte arrives whole. -/
def Narrowed (n : Uint32) : Prop := (n.setWidth 8).setWidth 32 = n

theorem narrowed_iff (n : Uint32) : Narrowed (n >>> 8) ↔ n.toNat < 65536 := by
  have hshift : (n >>> 8).toNat = n.toNat / 256 := by
    rw [BitVec.toNat_ushiftRight, Nat.shiftRight_eq_div_pow]
  unfold Narrowed
  rw [← BitVec.toNat_inj, BitVec.toNat_setWidth, BitVec.toNat_setWidth, hshift]
  omega

/-! ## The rates -/

/-- **The range of the quotient.**  It is 1 at the clock's own rate, 62799 at 19 and 66287 at 18. -/
theorem quotient_fits_iff (hz : Nat) :
    (0 < 1193182 / hz ∧ 1193182 / hz ≤ 65536) ↔ 19 ≤ hz ∧ hz ≤ 1193182 := by
  rcases Nat.eq_zero_or_pos hz with rfl | hpos
  · decide
  · rw [Nat.div_pos_iff, Nat.div_le_iff_le_mul hpos]
    omega

/-- The chip `b'` has been programmed with the rate. -/
structure AtRate (b' : TimerBoard) (hz : Uint32) : Prop where
  /-- Neither byte has lost bits on its way through `outb`. -/
  low : Narrowed ((1193182 / hz : Uint32) &&& 0xFF#32)
  high : Narrowed ((1193182 / hz : Uint32) >>> 8)
  /-- Channel 0 has both bytes, and waits for no other. -/
  both : (b'.channel 0).access = 3 ∧ (b'.channel 0).received = 2 ∧ (b'.channel 0).high = false
  /-- It divides the clock by the quotient. -/
  quotient : reload (b'.channel 0).count = 1193182 / hz.toNat

/-- `PIT_8254_Phase(hz)` divides without error, and programs the rate it is asked for. -/
def ProgramsRate (b : TimerBoard) (hz : Uint32) : Prop :=
  ∃ b', pit8254Phase b hz = some b' ∧ AtRate b' hz

/-- The low byte is masked, and never loses anything. -/
theorem narrowed_masked (n : Uint32) : Narrowed (n &&& 0xFF#32) := by
  have hmasked : (n &&& 0xFF#32).toNat ≤ 0xFF := Nat.and_le_right
  unfold Narrowed
  rw [← BitVec.toNat_inj, BitVec.toNat_setWidth, BitVec.toNat_setWidth]
  omega

/-- **The timer rate, exactly.**  From any state of the chip, the rate asked for is the one
    programmed if and only if it is at least 19, and at most that of the clock. -/
theorem pit8254Phase_rate_iff (b : TimerBoard) (hz : Uint32) :
    ProgramsRate b hz ↔ 19 ≤ hz.toNat ∧ hz.toNat ≤ 1193182 := by
  have hreload := reload_setWidth_iff (1193182 / hz)
  rw [divisor_toNat, quotient_fits_iff] at hreload
  constructor
  · rintro ⟨b', hrun, hrate⟩
    have hz0 : hz ≠ 0 := by
      rintro rfl
      exact absurd hrun nofun
    obtain ⟨b'', hrun', hchannel⟩ := pit8254Phase_channel b hz0
    obtain rfl := Option.some.inj (hrun.symm.trans hrun')
    have hquotient := hrate.quotient
    rw [hchannel] at hquotient
    exact hreload.mp hquotient
  · intro hrange
    have hz0 : hz ≠ 0 := by
      rintro rfl
      exact absurd hrange.1 (by decide)
    have hfits : (1193182 / hz : Uint32).toNat < 65536 := by
      have hmost := Nat.div_le_div_left hrange.1 (show 0 < 19 by decide) (a := 1193182)
      rw [divisor_toNat]
      omega
    obtain ⟨b', hrun, hchannel⟩ := pit8254Phase_channel b hz0
    refine ⟨b', hrun, narrowed_masked _, (narrowed_iff _).mpr hfits, ?_, ?_⟩
    · rw [hchannel]
      exact ⟨rfl, rfl, rfl⟩
    · rw [hchannel]
      exact hreload.mpr hrange

/-- At 18 the bytes sent are 0xEF and 0x02: the counter divides by 751. -/
theorem pit8254Phase_eighteen :
    ¬ ∀ (b : TimerBoard) (hz : Uint32), 1 ≤ hz.toNat → hz.toNat ≤ 1193182 →
        ProgramsRate b hz := by
  intro hall
  obtain ⟨b', hrun, hrate⟩ :=
    hall ⟨fun _ => ⟨0, false, 0, 0, 0⟩, 0⟩ 18 (by decide) (by decide)
  obtain ⟨b'', hrun', hchannel⟩ :=
    pit8254Phase_channel ⟨fun _ => ⟨0, false, 0, 0, 0⟩, 0⟩ (show (18 : Uint32) ≠ 0 by decide)
  obtain rfl := Option.some.inj (hrun.symm.trans hrun')
  have hcount : reload (b'.channel 0).count = 751 := by
    rw [hchannel]
    decide
  exact absurd (hcount.symm.trans hrate.quotient) (by decide)

end FreeMicroNix
