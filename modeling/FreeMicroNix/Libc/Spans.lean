/-
  `strspn`, `strcspn` and `strpbrk` as one partition of a string.

  The three are written in three styles, and each has its result in terms of the two spans of a
  string (`strspn_eq`, `strcspn_eq`, `strpbrk_eq`).  What is left is to say what a span is without a
  program: the greatest length up to which every byte passes the test.  The terminator is beyond
  every such length, and no byte of a set is zero.
-/
import FreeMicroNix.Libc.Strings
import Mathlib.Order.Bounds.Defs

namespace FreeMicroNix.Libc

open PartialMemory

/-- The lengths up to which every byte of `s` passes the test. -/
def Prefixes (P : CChar → Prop) (s : CString) : Set Nat :=
  { k | k ≤ s.length ∧ ∀ c ∈ s.take k, P c }

/-- **A span is the longest such prefix.** -/
theorem span_isGreatest (P : CChar → Prop) [DecidablePred P] (s : CString) :
    IsGreatest (Prefixes P s) (s.takeWhile P).length := by
  have hstarts := s.takeWhile_prefix (P ·)
  refine ⟨⟨hstarts.length_le, fun c hc => ?_⟩, ?_⟩
  · rw [← List.prefix_iff_eq_take.mp hstarts] at hc
    simpa using List.mem_takeWhile_imp hc
  · rintro k ⟨hk, hall⟩
    -- no byte before `k` stops the span
    induction s generalizing k with
    | nil => exact hk
    | cons x s ih =>
      cases k with
      | zero => exact Nat.zero_le _
      | succ k =>
        rw [List.take_succ_cons, List.forall_mem_cons] at hall
        rw [List.takeWhile_cons_of_pos (by simpa using hall.1), List.length_cons]
        exact Nat.succ_le_succ
          (ih (s.takeWhile_prefix _) (Nat.le_of_succ_le_succ hk) hall.2)

section Results

variable {h : Heap CChar} {p q : Uint32} {s set : CString}

/-- **The span functions.**  Nothing is assumed of the memory outside the two strings, not even
    that it can be read. -/
theorem spans_partition (hs : IsString h p s) (hset : IsString h q set) :
    ∃ spn cspn : Nat,
      strspn h p q = some (BitVec.ofNat 32 spn) ∧ IsGreatest (Prefixes (· ∈ set) s) spn ∧
      strcspn h p q = some (BitVec.ofNat 32 cspn) ∧ IsGreatest (Prefixes (· ∉ set) s) cspn ∧
      strlen h p = some (BitVec.ofNat 32 s.length) ∧
      (strpbrk h p q = some 0 ↔ cspn = s.length) ∧
      (cspn ≠ s.length → strpbrk h p q = some (p + BitVec.ofNat 32 cspn)) := by
  refine ⟨spanIn set s, spanOut set s, strspn_eq hs hset, span_isGreatest _ s, strcspn_eq hs hset,
    span_isGreatest _ s, strlen_eq hs, ?_, fun hfound => ?_⟩
  · rw [strpbrk_eq hs hset, Option.some_inj]
    by_cases hend : spanOut set s = s.length
    · rw [if_pos hend]
      exact iff_of_true rfl hend
    · rw [if_neg hend]
      exact iff_of_false (hs.drop (spanOut_le set s)).nonnull hend
  · rw [strpbrk_eq hs hset, if_neg hfound]

end Results

/-- The string `ab`, and at 0x1100 the set of `b` and 0x80. -/
def twoStrings : Heap CChar :=
  lay (lay (fun _ => none) 0x1000 (str "ab" ++ [0])) 0x1100 ([ch 'b', 0x80] ++ [0])

theorem spans_partition_ab :
    ∃ spn cspn : Nat,
      strspn twoStrings 0x1000 0x1100 = some (BitVec.ofNat 32 spn) ∧
      IsGreatest (Prefixes (· ∈ [ch 'b', 0x80]) (str "ab")) spn ∧
      strcspn twoStrings 0x1000 0x1100 = some (BitVec.ofNat 32 cspn) ∧
      IsGreatest (Prefixes (· ∉ [ch 'b', 0x80]) (str "ab")) cspn ∧
      strlen twoStrings 0x1000 = some (BitVec.ofNat 32 2) ∧
      (strpbrk twoStrings 0x1000 0x1100 = some 0 ↔ cspn = 2) ∧
      (cspn ≠ 2 → strpbrk twoStrings 0x1000 0x1100 = some (0x1000 + BitVec.ofNat 32 cspn)) :=
  spans_partition (s := str "ab") (by decide) (by decide)

end FreeMicroNix.Libc
