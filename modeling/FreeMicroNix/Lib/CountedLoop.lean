/-
  The counted loop `for (i = 0; i < n; i++) body`, as a function on the state it updates.

  `forLoop n body s` runs `body 0`, `body 1`, …, `body (n - 1)` in that order.  The rules are the
  invariant rule (`forLoop_invariant`), the reading of a loop over the elements of a list as a
  left fold (`forLoop_getD`), and the flattening of a doubly nested loop over a row-major grid
  into one loop over its cells (`forLoop_grid`).
-/
import Mathlib.Data.List.Basic
import Mathlib.Tactic.Common

namespace CountedLoop

variable {σ α : Type*}

/-- `body 0`, then `body 1`, …, then `body (n - 1)`. -/
def forLoop : Nat → (Nat → σ → σ) → σ → σ
  | 0, _, s => s
  | n + 1, body, s => body n (forLoop n body s)

@[simp] theorem forLoop_succ (n : Nat) (body : Nat → σ → σ) (s : σ) :
    forLoop (n + 1) body s = body n (forLoop n body s) := rfl

/-- An invariant indexed by the loop counter. -/
theorem forLoop_invariant {I : Nat → σ → Prop} {body : Nat → σ → σ} {n : Nat} {s : σ}
    (hstart : I 0 s) (hstep : ∀ i s, i < n → I i s → I (i + 1) (body i s)) :
    I n (forLoop n body s) := by
  induction n with
  | zero => exact hstart
  | succ n ih =>
    have hprev := ih (fun i s hi => hstep i s (Nat.lt_succ_of_lt hi))
    exact hstep n _ (Nat.lt_succ_self n) hprev

/-- A loop whose bodies agree below the bound. -/
theorem forLoop_congr {body body' : Nat → σ → σ} {n : Nat}
    (hbody : ∀ i s, i < n → body i s = body' i s) (s : σ) :
    forLoop n body s = forLoop n body' s := by
  induction n with
  | zero => rfl
  | succ n ih =>
    rw [forLoop_succ, forLoop_succ, ih (fun i s hi => hbody i s (Nat.lt_succ_of_lt hi)),
      hbody n _ (Nat.lt_succ_self n)]

/-- A loop of `m + n` passes is a loop of `m` passes followed by one of `n`. -/
theorem forLoop_add (m n : Nat) (body : Nat → σ → σ) (s : σ) :
    forLoop (m + n) body s = forLoop n (fun i => body (m + i)) (forLoop m body s) := by
  induction n with
  | zero => rfl
  | succ n ih => rw [← Nat.add_assoc, forLoop_succ, forLoop_succ, ih]

/-- **Row-major flattening.**  A loop over the rows of a loop over the columns visits the cells
    `y * w + x` in increasing order. -/
theorem forLoop_grid (h w : Nat) (body : Nat → σ → σ) (s : σ) :
    forLoop h (fun y => forLoop w fun x => body (y * w + x)) s = forLoop (h * w) body s := by
  induction h with
  | zero => rw [Nat.zero_mul]; rfl
  | succ h ih => rw [forLoop_succ, ih, Nat.succ_mul, forLoop_add]

/-- Walking a list by index is folding over it. -/
theorem forLoop_getD (f : σ → α → σ) (d : α) (xs : List α) (s : σ) :
    forLoop xs.length (fun i s => f s (xs.getD i d)) s = xs.foldl f s := by
  induction xs generalizing s with
  | nil => rfl
  | cons x xs ih =>
    rw [List.length_cons, Nat.add_comm, forLoop_add, List.foldl_cons, ← ih (f s x)]
    refine forLoop_congr (fun i s _ => ?_) _
    rw [Nat.add_comm 1 i, List.getD_cons_succ]

end CountedLoop
