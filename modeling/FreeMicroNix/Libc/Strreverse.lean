/-
  `libc/stdlib/strreverse.c`: the reversal in place behind the unsigned converters.

  The two ends are exchanged by three assignments with `^=`, and the pointers close in.  On one and
  the same byte these would leave zero; the loop stops before its pointers meet.  So what it does
  is said by induction on the string from both ends: on a string `x … y` it puts `y` and `x` at the
  ends and goes on with what is between them.

  The result is the heap with the reversed bytes laid over the string: nothing else has changed.
-/
import FreeMicroNix.Libc.Strings
import Mathlib.Data.List.Induction

namespace FreeMicroNix.Libc

open PartialMemory

/-! ## The function -/

/-- `*p ^= *q;` -/
def xorAssign (h : Heap CChar) (p q : Uint32) : Option (Heap CChar) := do
  let c ← h p
  let d ← h q
  write h p (c ^^^ d)

/-- `*p1 ^= *p2; *p2 ^= *p1; *p1 ^= *p2;` -/
def xorExchange (h : Heap CChar) (p1 p2 : Uint32) : Option (Heap CChar) := do
  let h ← xorAssign h p1 p2
  let h ← xorAssign h p2 p1
  xorAssign h p1 p2

/-- `for (…; p2 > p1; ++p1, --p2)` -/
def strreverseLoop (h : Heap CChar) (p1 p2 : Uint32) : Option (Heap CChar) :=
  if p1 < p2 then do
    let h ← xorExchange h p1 p2
    strreverseLoop h (p1 + 1) (p2 - 1)
  else some h
termination_by p2.toNat
decreasing_by bv_omega

/-- The heap afterwards, and `str`. -/
def strreverse (h : Heap CChar) (str : Uint32) : Option (Heap CChar × Uint32) :=
  if str = 0 then some (h, str)
  else do
    let c ← h str
    if c = 0 then some (h, str)
    else
      let len ← strlen h str
      let h ← strreverseLoop h str (str + len - 1)
      some (h, str)

/-! ## What it does -/

section Results

variable {h : Heap CChar} {p q : Uint32} {c d : CChar} {s : CString}

theorem xorAssign_eq (hp : h p = some c) (hq : h q = some d) :
    xorAssign h p q = some (Function.update h p (some (c ^^^ d))) := by
  rw [xorAssign, bind_of_eq_some hp, bind_of_eq_some hq]
  exact write_of_mapped hp _

/-- **The exchange**, of two bytes at different addresses. -/
theorem xorExchange_eq (hp : h p = some c) (hq : h q = some d) (hne : p ≠ q) :
    xorExchange h p q = some (Function.update (Function.update h p (some d)) q (some c)) := by
  have hcancel : d ^^^ (c ^^^ d) = c := by
    rw [BitVec.xor_comm c d, ← BitVec.xor_assoc, BitVec.xor_self, BitVec.zero_xor]
  have hback : c ^^^ d ^^^ c = d := by
    rw [BitVec.xor_comm c d, BitVec.xor_assoc, BitVec.xor_self, BitVec.xor_zero]
  -- after the first assignment `q` is as before, after the second one `p` is
  have hq₁ : Function.update h p (some (c ^^^ d)) q = some d := by
    rw [Function.update_of_ne hne.symm, hq]
  have hp₂ : Function.update (Function.update h p (some (c ^^^ d))) q (some c) p
      = some (c ^^^ d) := by
    rw [Function.update_of_ne hne, Function.update_self]
  rw [xorExchange, bind_of_eq_some (xorAssign_eq hp hq),
    bind_of_eq_some (xorAssign_eq hq₁ (Function.update_self ..)), hcancel,
    xorAssign_eq hp₂ (Function.update_self ..), hback, Function.update_comm hne,
    Function.update_idem, Function.update_comm hne.symm]

/-- **The loop** reverses the bytes from `p1` to `p2`. -/
theorem strreverseLoop_eq (hs : Cells h p s) (hnonnull : p ≠ 0)
    (hobject : p.toNat + s.length < 2 ^ 32) :
    strreverseLoop h p (p + BitVec.ofNat 32 s.length - 1) = some (lay h p s.reverse) := by
  induction s using List.bidirectionalRec generalizing h p with
  | nil =>
    have hstop : ¬ p < p + BitVec.ofNat 32 ([] : CString).length - 1 := by
      rw [List.length_nil]
      bv_omega
    rw [strreverseLoop, if_neg hstop, List.reverse_nil, lay_nil]
  | singleton x =>
    have hstop : ¬ p < p + BitVec.ofNat 32 [x].length - 1 := by
      rw [List.length_singleton]
      bv_omega
    rw [strreverseLoop, if_neg hstop, List.reverse_singleton, lay_of_cells hs]
  | cons_append x s y ih =>
    obtain ⟨hx, hrest⟩ := cells_cons_iff.mp hs
    obtain ⟨hmiddle, hy⟩ := cells_append_iff.mp hrest
    have hlen : (x :: (s ++ [y])).length = s.length + 2 := by
      rw [List.length_cons, List.length_append, List.length_singleton]
    rw [hlen] at hobject ⊢
    rw [cells_singleton_iff] at hy
    have hlast : p + BitVec.ofNat 32 (s.length + 2) - 1 = p + 1 + BitVec.ofNat 32 s.length := by
      bv_omega
    have hlt : p < p + 1 + BitVec.ofNat 32 s.length := by bv_omega
    have hne : p ≠ p + 1 + BitVec.ofNat 32 s.length := BitVec.ne_of_lt hlt
    -- what lies between the two ends is not touched
    have hkept : Cells (Function.update (Function.update h p (some y))
        (p + 1 + BitVec.ofNat 32 s.length) (some x)) (p + 1) s := by
      refine hmiddle.congr (Nat.le_refl _) (by omega) fun a ha => ?_
      unfold Within at ha
      rw [Function.update_of_ne (by bv_omega), Function.update_of_ne (by bv_omega)]
    have hinner := ih hkept (by bv_omega) (by bv_omega)
    have hshort : s.reverse.length < 2 ^ 32 := by
      rw [List.length_reverse]
      omega
    have hbehind : (s.reverse ++ [x]).length < 2 ^ 32 := by
      rw [List.length_append, List.length_reverse, List.length_singleton]
      omega
    rw [hlast, strreverseLoop, if_pos hlt, bind_of_eq_some (xorExchange_eq hx hy hne), hinner,
      List.reverse_cons, List.reverse_append, List.reverse_singleton, List.singleton_append,
      List.cons_append, lay_cons _ _ _ hbehind, lay_concat _ _ _ hshort, List.length_reverse]

/-- **`strreverse`** lays the reversed bytes over the string, and returns its argument. -/
theorem strreverse_eq (hs : IsString h p s) : strreverse h p = some (lay h p s.reverse, p) := by
  unfold strreverse
  rw [if_neg hs.nonnull]
  cases s with
  | nil => rw [bind_of_eq_some hs.nil, if_pos rfl, List.reverse_nil, lay_nil]
  | cons x s =>
    rw [bind_of_eq_some hs.head, if_neg hs.head_ne, bind_of_eq_some (strlen_eq hs),
      bind_of_eq_some (strreverseLoop_eq (cells_append_iff.mp hs.cells).1 hs.nonnull hs.object)]

/-- A string just written, reversed in place, is the reversed string written. -/
theorem strreverse_lay (h : Heap CChar) (hne : ∀ c ∈ s, c ≠ 0) (hnonnull : p ≠ 0)
    (hobject : p.toNat + s.length < 2 ^ 32) :
    strreverse (lay h p (s ++ [0])) p = some (lay h p (s.reverse ++ [0]), p) := by
  have hlen : s.reverse.length < 2 ^ 32 := by
    rw [List.length_reverse]
    omega
  rw [strreverse_eq (terminated_lay h hne hnonnull hobject), lay_concat h p 0 (by omega),
    lay_lay _ _ List.length_reverse.symm, lay_concat h p 0 hlen, List.length_reverse]

end Results

end FreeMicroNix.Libc
