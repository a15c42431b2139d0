/-
  Loops that are left at the first pass that meets a condition.

  The passes are numbered from 0, and the set `leave` has those the loop is left at.  A program that
  stays in its loop as long as the condition fails, and never comes back, stands at the exit behind
  exactly one pass, the least of the set (`left_iff_isLeast`).

  Two such sets have the same least element, or none both, precisely when they agree up to the least
  element of one of them (`isLeast_iff_isLeast`): what a loop tests matters only as long as it runs.
-/
import Mathlib.Order.Nat

namespace FirstPass

/-- A set of numbers that is not empty has a least element. -/
theorem exists_isLeast {S : Set Nat} {n : Nat} (hn : n ∈ S) : ∃ k ≤ n, IsLeast S k := by
  classical
  have hex : ∃ m, m ∈ S := ⟨n, hn⟩
  exact ⟨Nat.find hex, Nat.find_min' hex hn, Nat.isLeast_find hex⟩

section Loop

variable {σ : Type*} {pc : Nat → σ} {loop left gone : σ} {leave : Set Nat}

/-- **The exit** is behind the first pass that meets the condition, and nowhere else. -/
theorem left_iff_isLeast (hstart : pc 0 = loop) (hfirst : 0 ∉ leave)
    (hstay : ∀ n, pc n = loop → n + 1 ∉ leave → pc (n + 1) = loop)
    (hleave : ∀ n, pc n = loop → n + 1 ∈ leave → pc (n + 1) = left)
    (hleft : ∀ n, pc n = left → pc (n + 1) = gone) (hgone : ∀ n, pc n = gone → pc (n + 1) = gone)
    (hloop : loop ≠ left) (hback : gone ≠ left) (n : Nat) : pc n = left ↔ IsLeast leave n := by
  have hinside : ∀ n, (∀ m ≤ n, m ∉ leave) → pc n = loop := by
    intro n
    induction n with
    | zero => exact fun _ => hstart
    | succ n ih =>
      intro hnone
      exact hstay n (ih fun m hm => hnone m (Nat.le_succ_of_le hm)) (hnone _ (Nat.le_refl _))
  have hexit : ∀ k, IsLeast leave k → pc k = left := by
    rintro (_ | k) ⟨hk, hleast⟩
    · exact absurd hk hfirst
    · refine hleave k (hinside k fun m hm hmem => ?_) hk
      exact absurd (hleast hmem) (Nat.not_le_of_lt (Nat.lt_succ_of_le hm))
  have hafter : ∀ k, pc k = left → ∀ d, pc (k + 1 + d) = gone := by
    intro k hk d
    induction d with
    | zero => exact hleft k hk
    | succ d ih => exact hgone _ ih
  constructor
  · intro hn
    -- the loop has been left at some pass so far, and at the first of them
    have hsome : ∃ m ≤ n, m ∈ leave := by
      by_contra hnone
      refine hloop ((hinside n fun m hm hmem => hnone ⟨m, hm, hmem⟩).symm.trans hn)
    obtain ⟨m, hm, hmem⟩ := hsome
    obtain ⟨k, hk, hleast⟩ := exists_isLeast hmem
    rcases Nat.lt_or_eq_of_le (Nat.le_trans hk hm) with hless | rfl
    · obtain ⟨d, rfl⟩ := Nat.exists_eq_add_of_le (Nat.succ_le_of_lt hless)
      exact absurd ((hafter k (hexit k hleast) d).symm.trans hn) hback
    · exact hleast
  · exact hexit n

end Loop

/-- **The same first pass**: the sets agree as long as the second has had no element. -/
theorem isLeast_iff_isLeast {S T : Set Nat} :
    (∀ n, IsLeast S n ↔ IsLeast T n) ↔ ∀ n, n ∈ lowerBounds T → (n ∈ S ↔ n ∈ T) := by
  constructor
  · intro hsame n hlower
    constructor
    · intro hn
      -- the least element of `S` is one of `T`, so it is not before `n`
      obtain ⟨k, hk, hleast⟩ := exists_isLeast hn
      have hmem := ((hsame k).mp hleast).1
      rw [Nat.le_antisymm (hlower hmem) hk]
      exact hmem
    · intro hn
      exact ((hsame n).mpr ⟨hn, hlower⟩).1
  · intro hagree n
    constructor
    · rintro ⟨hn, hlower⟩
      have hbelow : n ∈ lowerBounds T := by
        intro m hm
        obtain ⟨k, hk, hleast⟩ := exists_isLeast hm
        exact Nat.le_trans (hlower ((hagree k hleast.2).mpr hleast.1)) hk
      exact ⟨(hagree n hbelow).mp hn, hbelow⟩
    · rintro ⟨hn, hlower⟩
      refine ⟨(hagree n hlower).mpr hn, fun m hm => ?_⟩
      by_contra hless
      have hbelow : m ∈ lowerBounds T := fun k hk =>
        Nat.le_trans (Nat.le_of_not_le hless) (hlower hk)
      exact hless (hlower ((hagree m hbelow).mp hm))

end FirstPass
