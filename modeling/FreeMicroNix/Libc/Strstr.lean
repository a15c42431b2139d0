/-
  `libc/string/strstr.c`: every position of the string, until the needle is there.

  `memcmp` is handed the length of the needle at each position, which near the end is more than
  what is left of the string.  It stops at the terminator all the same: no byte of the needle is
  zero, so the terminator differs from it (`exists_differ`).

  The loop tests `*s1` before it compares, so the position of the terminator is never tried.  Only
  the empty needle occurs there, and only in the empty string is this its first occurrence:
  `strstr("", "")` returns NULL, and every other search what it should.
-/
import FreeMicroNix.Libc.Compare
import Mathlib.Order.Bounds.Basic

namespace FreeMicroNix.Libc

open PartialMemory

/-! ## The function -/

/-- `while(*s1) if(!memcmp(s1++,s2,n)) return s1-1; return 0;` -/
def strstrLoop (h : Heap CChar) (s2 n : Uint32) : Nat → Uint32 → Option Uint32
  | 0, _ => none
  | turns + 1, s1 => do
    let c ← h s1
    if promote c ≠ 0 then
      let r ← memcmp h s1 s2 n
      let s1 := s1 + 1
      if r = 0 then some (s1 - 1) else strstrLoop h s2 n turns s1
    else some 0

def strstr (h : Heap CChar) (s1 s2 : Uint32) : Option Uint32 := do
  let n ← strlen h s2
  strstrLoop h s2 n addressSpace s1

/-! ## Occurrences -/

/-- The positions of `s` where `t` is a prefix of what is left, the end of `s` among them. -/
def Occurrences (t s : CString) : Set Nat := { k | k ≤ s.length ∧ t <+: s.drop k }

/-- What a search for `t` in the string `s` at `p` is to return: the first occurrence, and NULL if
    there is none. -/
def Finds (t s : CString) (p r : Uint32) : Prop :=
  (∀ k, IsLeast (Occurrences t s) k → r = p + BitVec.ofNat 32 k) ∧ (r = 0 ↔ Occurrences t s = ∅)

/-- The search of the loop: the positions before the end, from the first on. -/
def search (t : CString) : CString → Option Nat
  | [] => none
  | c :: s => if t <+: c :: s then some 0 else (search t s).map (· + 1)

theorem isLeast_of_search {t s : CString} {k : Nat} (hfound : search t s = some k) :
    k < s.length ∧ IsLeast (Occurrences t s) k := by
  induction s generalizing k with
  | nil => cases hfound
  | cons c s ih =>
    rw [search] at hfound
    by_cases hstarts : t <+: c :: s
    · rw [if_pos hstarts] at hfound
      obtain rfl := Option.some_inj.mp hfound
      exact ⟨Nat.succ_pos _, ⟨Nat.zero_le _, hstarts⟩, fun j _ => Nat.zero_le j⟩
    · rw [if_neg hstarts] at hfound
      obtain ⟨j, hj, rfl⟩ := Option.map_eq_some_iff.mp hfound
      obtain ⟨hless, ⟨-, hocc⟩, hleast⟩ := ih hj
      refine ⟨Nat.succ_lt_succ hless, ⟨Nat.succ_le_succ (Nat.le_of_lt hless), hocc⟩, ?_⟩
      rintro (_ | i) ⟨hi, hstarts'⟩
      · exact absurd hstarts' hstarts
      · exact Nat.succ_le_succ (hleast ⟨Nat.le_of_succ_le_succ hi, hstarts'⟩)

/-- Every position was rejected. -/
theorem not_prefix_of_search {t s : CString} (hnone : search t s = none) {k : Nat}
    (hk : k < s.length) : ¬ t <+: s.drop k := by
  induction s generalizing k with
  | nil => exact absurd hk (Nat.not_lt_zero k)
  | cons c s ih =>
    rw [search] at hnone
    by_cases hstarts : t <+: c :: s
    · rw [if_pos hstarts] at hnone
      cases hnone
    · rw [if_neg hstarts, Option.map_eq_none_iff] at hnone
      cases k with
      | zero => exact hstarts
      | succ k => exact ih hnone (Nat.lt_of_succ_lt_succ hk)

/-- A string that does not start with `t` differs from it before both have ended, its terminator
    counting as a byte. -/
theorem exists_differ {t s : CString} (ht : ∀ c ∈ t, c ≠ 0) (hnot : ¬ t <+: s) :
    ∃ w c d, w ++ [c] <+: s ++ [0] ∧ w ++ [d] <+: t ∧ c ≠ d := by
  induction t generalizing s with
  | nil => exact absurd List.nil_prefix hnot
  | cons d t ih =>
    obtain ⟨hd, hrest⟩ := List.forall_mem_cons.mp ht
    cases s with
    | nil => exact ⟨[], 0, d, List.prefix_rfl, ⟨t, rfl⟩, Ne.symm hd⟩
    | cons c s =>
      by_cases heq : c = d
      · subst heq
        rw [List.cons_prefix_cons] at hnot
        obtain ⟨w, x, y, hleft, hright, hne⟩ := ih hrest (fun h => hnot ⟨rfl, h⟩)
        exact ⟨c :: w, x, y, List.cons_prefix_cons.mpr ⟨rfl, hleft⟩,
          List.cons_prefix_cons.mpr ⟨rfl, hright⟩, hne⟩
      · exact ⟨[], c, d, ⟨s ++ [0], rfl⟩, ⟨t, rfl⟩, heq⟩

/-! ## What it returns -/

section Results

variable {h : Heap CChar} {p q : Uint32} {s t : CString}

/-- **`memcmp`** at a position, with the length of the needle. -/
theorem memcmp_needle (hs : IsString h p s) (ht : IsString h q t) :
    ∃ r, memcmp h p q (BitVec.ofNat 32 t.length) = some r ∧ (r = 0 ↔ t <+: s) := by
  have hneedle := (cells_append_iff.mp ht.cells).1
  by_cases hstarts : t <+: s
  · have hthere := hs.cells.start (hstarts.trans (List.prefix_append s [0]))
    exact ⟨0, memcmp_same hthere hneedle ht.turns, iff_of_true rfl hstarts⟩
  · obtain ⟨w, c, d, hleft, hright, hne⟩ := exists_differ ht.ne hstarts
    have hlen := hright.length_le
    rw [List.length_append, List.length_singleton] at hlen
    refine ⟨unsigned c - unsigned d, ?_,
      iff_of_false (mt unsigned_sub_eq_zero.mp hne) hstarts⟩
    exact memcmp_differ (hs.cells.start hleft) (hneedle.start hright) hne
      hlen ht.turns

/-- **The result** is where the search stops. -/
theorem strstr_eq (hs : IsString h p s) (ht : IsString h q t) :
    strstr h p q = some ((search t s).elim 0 (fun k => p + BitVec.ofNat 32 k)) := by
  have hloop : ∀ (s : CString) (p : Uint32) (turns : Nat), IsString h p s → s.length < turns →
      strstrLoop h q (BitVec.ofNat 32 t.length) turns p
        = some ((search t s).elim 0 (fun k => p + BitVec.ofNat 32 k)) := by
    intro s
    induction s with
    | nil =>
      intro p turns hs hturns
      obtain ⟨k, rfl⟩ := Nat.exists_eq_add_of_lt hturns
      rw [strstrLoop, bind_of_eq_some hs.nil]
      rfl
    | cons c s ih =>
      intro p turns hs hturns
      obtain ⟨k, rfl⟩ := Nat.exists_eq_add_of_lt hturns
      obtain ⟨r, hr, hzero⟩ := memcmp_needle hs ht
      rw [strstrLoop, bind_of_eq_some hs.head, if_pos (mt promote_eq_zero.mp hs.head_ne),
        bind_of_eq_some hr, search]
      by_cases hstarts : t <+: c :: s
      · rw [if_pos (hzero.mpr hstarts), if_pos hstarts, BitVec.add_sub_cancel]
        show some p = some (p + BitVec.ofNat 32 0)
        rw [BitVec.add_zero]
      · rw [if_neg (mt hzero.mp hstarts), if_neg hstarts,
          ih _ _ hs.tail (Nat.lt_of_succ_lt_succ hturns)]
        cases search t s with
        | none => rfl
        | some j =>
          show some (p + 1 + BitVec.ofNat 32 j) = some (p + BitVec.ofNat 32 (j + 1))
          rw [add_one_add_ofNat]
  rw [strstr, strlen_eq ht]
  exact hloop s p addressSpace hs hs.turns

/-- **The result is right** except for the empty needle in the empty string. -/
theorem finds_search_iff (hs : IsString h p s) :
    Finds t s p ((search t s).elim 0 (fun k => p + BitVec.ofNat 32 k)) ↔ ¬ (s = [] ∧ t = []) := by
  cases hsearch : search t s with
  | some k =>
    obtain ⟨hless, hleast⟩ := isLeast_of_search hsearch
    refine iff_of_true ⟨fun j hj => ?_, iff_of_false ?_ ?_⟩ ?_
    · rw [hj.unique hleast]
      rfl
    · exact (hs.drop (Nat.le_of_lt hless)).nonnull
    · exact Set.Nonempty.ne_empty ⟨k, hleast.1⟩
    · rintro ⟨rfl, -⟩
      exact Nat.not_lt_zero k hless
  | none =>
    constructor
    · rintro ⟨hfirst, -⟩ ⟨rfl, rfl⟩
      -- position 0 is the first, and the loop has not tried it
      have hleast : IsLeast (Occurrences [] []) 0 :=
        ⟨⟨Nat.le_refl 0, List.prefix_rfl⟩, fun j _ => Nat.zero_le j⟩
      have hnull : (0 : Uint32) = p + BitVec.ofNat 32 0 := hfirst 0 hleast
      rw [BitVec.add_zero] at hnull
      exact hs.nonnull hnull.symm
    · intro hsome
      have hempty : Occurrences t s = ∅ := by
        refine Set.eq_empty_of_forall_notMem fun k hk => ?_
        obtain ⟨hle, hstarts⟩ := hk
        rcases Nat.lt_or_eq_of_le hle with hless | rfl
        · exact not_prefix_of_search hsearch hless hstarts
        · -- at the end of the string only the empty needle occurs, and it occurs before
          rw [List.drop_length, List.prefix_nil] at hstarts
          subst hstarts
          have hpos : 0 < s.length :=
            List.length_pos_iff.mpr (fun hnil => hsome ⟨hnil, rfl⟩)
          exact not_prefix_of_search hsearch hpos List.nil_prefix
      refine ⟨fun k hk => ?_, iff_of_true rfl hempty⟩
      have hmem := hk.1
      rw [hempty] at hmem
      exact absurd hmem (Set.notMem_empty k)

/-- **`strstr`** reads nothing behind the terminators, whatever lies there, and finds the first
    occurrence or reports that there is none, but for the one search. -/
theorem strstr_finds_iff (hs : IsString h p s) (ht : IsString h q t) :
    ∃ r : Uint32,
      (∀ h' : Heap CChar,
        (∀ a, Within p (s.length + 1) a ∨ Within q (t.length + 1) a → h' a = h a) →
        strstr h' p q = some r) ∧
      (Finds t s p r ↔ ¬ (s = [] ∧ t = [])) := by
  refine ⟨_, fun h' hsame => ?_, finds_search_iff hs⟩
  exact strstr_eq (hs.congr fun a ha => hsame a (Or.inl ha))
    (ht.congr fun a ha => hsame a (Or.inr ha))

end Results

/-- `aab` at 0x1000, and the needle `ab` at 0x1100. -/
def needleMemory : Heap CChar :=
  lay (lay (fun _ => none) 0x1000 (str "aab" ++ [0])) 0x1100 (str "ab" ++ [0])

theorem strstr_finds_aab :
    ∃ r : Uint32,
      (∀ h' : Heap CChar,
        (∀ a, Within 0x1000 4 a ∨ Within 0x1100 3 a → h' a = needleMemory a) →
        strstr h' 0x1000 0x1100 = some r) ∧
      (Finds (str "ab") (str "aab") 0x1000 r ↔ ¬ (str "aab" = [] ∧ str "ab" = [])) :=
  strstr_finds_iff (s := str "aab") (t := str "ab") (by decide) (by decide)

/-- Two empty strings. -/
def emptyMemory : Heap CChar := lay (lay (fun _ => none) 0x1000 [0]) 0x1100 [0]

/-- The empty string is not found in itself. -/
theorem strstr_empty :
    IsString emptyMemory 0x1000 [] ∧ IsString emptyMemory 0x1100 [] ∧
      strstr emptyMemory 0x1000 0x1100 = some 0 ∧ ¬ Finds [] [] 0x1000 0 := by
  have hs : IsString emptyMemory 0x1000 [] := by decide
  have ht : IsString emptyMemory 0x1100 [] := by decide
  refine ⟨hs, ht, strstr_eq hs ht, fun hfinds => ?_⟩
  exact (finds_search_iff (t := []) hs).mp hfinds ⟨rfl, rfl⟩

end FreeMicroNix.Libc
