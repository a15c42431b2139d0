/-
  Infinite sequences as the contents of an object, by offset: writing a list, reversing a stretch.

  `writeList s p xs` has `xs` from offset `p` on and is `s` elsewhere; writing element after
  element is writing the list (`writeList_cons`, `writeList_append`), and so is writing the elements
  of another sequence in order (`update_prefix`).

  `reverseSpan s p q` has the elements from `p` to `q`, both included, in the opposite order.  A
  loop that exchanges the two ends and closes in keeps it (`reverseSpan_exchange`), and stops where
  there is nothing left to reverse (`reverseSpan_of_le`).
-/
import Mathlib.Data.List.GetD
import Mathlib.Logic.Function.Basic
import Mathlib.Tactic.Common

namespace Sequence

variable {α : Type*}

/-! ## Writing a list -/

/-- The list `xs` from offset `p` on. -/
def writeList (s : Nat → α) (p : Nat) (xs : List α) : Nat → α :=
  fun i => if p ≤ i then xs.getD (i - p) (s i) else s i

theorem writeList_nil (s : Nat → α) (p : Nat) : writeList s p [] = s := by
  funext i
  simp only [writeList, List.getD_nil, ite_self]

/-- Outside the list nothing changes. -/
theorem writeList_outside (s : Nat → α) {p i : Nat} {xs : List α}
    (h : i < p ∨ p + xs.length ≤ i) : writeList s p xs i = s i := by
  unfold writeList
  by_cases hi : p ≤ i
  · rw [if_pos hi, List.getD_eq_default _ _ (by omega)]
  · rw [if_neg hi]

/-- At offset `p + k` stands element `k`. -/
theorem writeList_inside (s : Nat → α) {p k : Nat} {xs : List α} (h : k < xs.length) :
    writeList s p xs (p + k) = xs[k] := by
  rw [writeList, if_pos (Nat.le_add_right p k), Nat.add_sub_cancel_left,
    List.getD_eq_getElem _ _ h]

/-- The first element, then the rest behind it. -/
theorem writeList_cons (s : Nat → α) (p : Nat) (x : α) (xs : List α) :
    writeList s p (x :: xs) = writeList (Function.update s p x) (p + 1) xs := by
  funext i
  unfold writeList
  rcases Nat.lt_trichotomy i p with hi | rfl | hi
  · rw [if_neg (by omega), if_neg (by omega), Function.update_of_ne (by omega)]
  · rw [if_pos (Nat.le_refl i), if_neg (by omega), Nat.sub_self, Function.update_self]
    rfl
  · have hoff : i - p = i - (p + 1) + 1 := by omega
    rw [if_pos (by omega), if_pos (by omega), Function.update_of_ne (by omega), hoff,
      List.getD_cons_succ]

/-- One list, then another behind it. -/
theorem writeList_append (s : Nat → α) (p : Nat) (xs ys : List α) :
    writeList (writeList s p xs) (p + xs.length) ys = writeList s p (xs ++ ys) := by
  induction xs generalizing s p with
  | nil => rw [writeList_nil]; rfl
  | cons x xs ih =>
    rw [List.cons_append, writeList_cons, writeList_cons, ← ih, List.length_cons,
      Nat.add_comm xs.length 1, Nat.add_assoc]

/-- One element behind a list. -/
theorem update_writeList (s : Nat → α) (p : Nat) (xs : List α) (x : α) :
    Function.update (writeList s p xs) (p + xs.length) x = writeList s p (xs ++ [x]) := by
  rw [← writeList_append, writeList_cons, writeList_nil]

/-! ## Writing in order -/

/-- A loop that has written the elements before `n` writes element `n`. -/
theorem update_prefix (s s' : Nat → α) (n : Nat) :
    Function.update (fun i => if i < n then s' i else s i) n (s' n)
      = fun i => if i < n + 1 then s' i else s i := by
  funext i
  rcases Nat.lt_trichotomy i n with hi | rfl | hi
  · rw [Function.update_of_ne (Nat.ne_of_lt hi), if_pos hi, if_pos (Nat.lt_succ_of_lt hi)]
  · rw [Function.update_self, if_pos (Nat.lt_succ_self i)]
  · rw [Function.update_of_ne (Nat.ne_of_gt hi), if_neg (by omega), if_neg (by omega)]

/-! ## Reversing a stretch -/

/-- The elements `p`, …, `q` in the opposite order. -/
def reverseSpan (s : Nat → α) (p q : Nat) : Nat → α :=
  fun i => if p ≤ i ∧ i ≤ q then s (p + q - i) else s i

/-- The elements `p` and `q` exchanged. -/
def exchange (s : Nat → α) (p q : Nat) : Nat → α :=
  Function.update (Function.update s p (s q)) q (s p)

/-- Nothing is reversed in a stretch of one element or none. -/
theorem reverseSpan_of_le (s : Nat → α) {p q : Nat} (h : q ≤ p) : reverseSpan s p q = s := by
  funext i
  unfold reverseSpan
  by_cases hin : p ≤ i ∧ i ≤ q
  · have hi : p + q - i = i := by omega
    rw [if_pos hin, hi]
  · rw [if_neg hin]

/-- **One exchange.**  With the ends exchanged, what remains is the stretch between them. -/
theorem reverseSpan_exchange (s : Nat → α) {p q : Nat} (h : p < q) :
    reverseSpan (exchange s p q) (p + 1) (q - 1) = reverseSpan s p q := by
  funext i
  have hmirror : p + 1 + (q - 1) - i = p + q - i := by omega
  unfold reverseSpan exchange
  rw [hmirror]
  by_cases hinner : p + 1 ≤ i ∧ i ≤ q - 1
  · rw [if_pos hinner, if_pos (by omega), Function.update_of_ne (by omega),
      Function.update_of_ne (by omega)]
  · rw [if_neg hinner]
    by_cases hq : i = q
    · have hfar : p + q - q = p := by omega
      rw [hq, Function.update_self, if_pos (by omega), hfar]
    · rw [Function.update_of_ne hq]
      by_cases hp : i = p
      · have hfar : p + q - p = q := by omega
        rw [hp, Function.update_self, if_pos (by omega), hfar]
      · rw [Function.update_of_ne hp, if_neg (by omega)]

/-- A list just written, reversed in place, is the reversed list written. -/
theorem reverseSpan_writeList (s : Nat → α) (p : Nat) (xs ys : List α) :
    reverseSpan (writeList s p (xs ++ ys)) p (p + xs.length - 1)
      = writeList s p (xs.reverse ++ ys) := by
  funext i
  unfold reverseSpan
  by_cases hin : p ≤ i ∧ i ≤ p + xs.length - 1
  · rcases Nat.eq_zero_or_pos xs.length with hnil | hpos
    · obtain rfl := List.eq_nil_of_length_eq_zero hnil
      have hi : p + (p + ([] : List α).length - 1) - i = i := by
        rw [List.length_nil]
        omega
      rw [if_pos hin, hi]
      rfl
    · obtain ⟨k, rfl⟩ := Nat.exists_eq_add_of_le hin.1
      have hk : k < xs.length := by omega
      have hmirror : p + (p + xs.length - 1) - (p + k) = p + (xs.length - 1 - k) := by omega
      rw [if_pos hin, hmirror,
        writeList_inside s (by rw [List.length_append]; omega),
        writeList_inside s (by rw [List.length_append, List.length_reverse]; omega),
        List.getElem_append_left (by omega),
        List.getElem_append_left (by rw [List.length_reverse]; omega), List.getElem_reverse]
  · rw [if_neg hin]
    unfold writeList
    by_cases hi : p ≤ i
    · rw [if_pos hi, if_pos hi, List.getD_eq_getElem?_getD, List.getD_eq_getElem?_getD,
        List.getElem?_append_right (by omega),
        List.getElem?_append_right (by rw [List.length_reverse]; omega), List.length_reverse]
    · rw [if_neg hi, if_neg hi]

end Sequence
