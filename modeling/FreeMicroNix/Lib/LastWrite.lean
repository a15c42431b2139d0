/-
  The last write wins.

  Many states are read slot by slot and changed by operations that each overwrite some slots and
  leave the others alone.  What such an operation does is a partial function
  `writes : α → ι → Option β` — the value it leaves in slot `i`, or `none` — and after a run a
  slot holds what the last operation that wrote it left there, or what it held before
  (`read_foldl`).
-/
import Mathlib.Data.List.Basic
import Mathlib.Tactic.Common

namespace LastWrite

variable {σ α ι β : Type*}

/-- The value the last operation that wrote slot `i` left there. -/
def lastWrite (writes : α → ι → Option β) (as : List α) (i : ι) : Option β :=
  (as.filterMap fun a => writes a i).getLast?

/-- The first operation counts only while no later one writes the slot. -/
theorem lastWrite_cons (writes : α → ι → Option β) (a : α) (as : List α) (i : ι) (old : β) :
    (lastWrite writes (a :: as) i).getD old
      = (lastWrite writes as i).getD ((writes a i).getD old) := by
  unfold lastWrite
  rw [List.filterMap_cons]
  cases writes a i with
  | none => rfl
  | some b => simp only [List.getLast?_cons, Option.getD_some]

/-- A value in a slot was written there. -/
theorem of_lastWrite (writes : α → ι → Option β) {as : List α} {i : ι} {b : β}
    (h : lastWrite writes as i = some b) : ∃ a ∈ as, writes a i = some b :=
  List.mem_filterMap.mp (List.mem_of_getLast? h)

/-- A slot some operation writes holds a value. -/
theorem exists_lastWrite (writes : α → ι → Option β) {as : List α} {i : ι}
    (h : ∃ a ∈ as, writes a i ≠ none) : ∃ b, lastWrite writes as i = some b := by
  obtain ⟨a, ha, hwrites⟩ := h
  have hne : as.filterMap (fun a => writes a i) ≠ [] := fun hnil =>
    hwrites (List.filterMap_eq_nil_iff.mp hnil a ha)
  exact ⟨_, List.getLast?_eq_some_getLast hne⟩

/-- The last operation counts before all others. -/
theorem lastWrite_concat (writes : α → ι → Option β) (as : List α) {a : α} {i : ι} {b : β}
    (h : writes a i = some b) : lastWrite writes (as ++ [a]) i = some b := by
  unfold lastWrite
  rw [List.filterMap_append, List.filterMap_cons, h]
  exact List.getLast?_concat

/-- Reading the slots through a function reads the last write through it. -/
theorem lastWrite_map {γ : Type*} (f : β → γ) (writes : α → ι → Option β) (as : List α) (i : ι) :
    lastWrite (fun a i => (writes a i).map f) as i = (lastWrite writes as i).map f := by
  unfold lastWrite
  rw [← List.map_filterMap, List.getLast?_map]

/-- **The run rule.**  If every operation writes slots as `writes` says, a run does as
    `lastWrite` says. -/
theorem read_foldl (read : σ → ι → β) (writes : α → ι → Option β) {step : σ → α → σ}
    {A : α → Prop} {i : ι}
    (hstep : ∀ s a, A a → read (step s a) i = (writes a i).getD (read s i)) :
    ∀ (s : σ) (as : List α), (∀ a ∈ as, A a) →
      read (as.foldl step s) i = (lastWrite writes as i).getD (read s i)
  | _, [], _ => rfl
  | s, a :: as, hA => by
      have hrest := read_foldl read writes hstep (step s a) as
        fun b hb => hA b (List.mem_cons_of_mem a hb)
      rw [List.foldl_cons, hrest, hstep s a (hA a List.mem_cons_self), lastWrite_cons]

/-! ## Frames -/

section Frame

variable {step : σ → α → σ} {Touches : α → Prop} (read : σ → β)

/-- **The frame rule.**  What no operation of the run touches is as before. -/
theorem read_foldl_untouched (hstep : ∀ s a, ¬ Touches a → read (step s a) = read s) (s : σ)
    (as : List α) (huntouched : ∀ a ∈ as, ¬ Touches a) : read (as.foldl step s) = read s := by
  induction as generalizing s with
  | nil => rfl
  | cons a as ih =>
    rw [List.foldl_cons, ih _ fun b hb => huntouched b (List.mem_cons_of_mem a hb),
      hstep s a (huntouched a List.mem_cons_self)]

/-- **The last operation decides**: what no later operation touches is as that one left it. -/
theorem read_foldl_last (hstep : ∀ s a, ¬ Touches a → read (step s a) = read s) (s : σ)
    (pre : List α) (a : α) {post : List α} (hlater : ∀ b ∈ post, ¬ Touches b) :
    read ((pre ++ a :: post).foldl step s) = read (step (pre.foldl step s) a) := by
  rw [List.foldl_append, List.foldl_cons, read_foldl_untouched read hstep _ _ hlater]

end Frame

end LastWrite
