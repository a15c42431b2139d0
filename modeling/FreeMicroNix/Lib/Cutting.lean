/-
  Programs whose commands are cut into steps.

  A program of `Lib.Interleaving` lets interrupts in between its commands only.  To let them in
  inside a command as well, each command is cut into steps, which makes a program of these steps
  (`cutProgram`).

  1. `cut_split` — a part of that program is some commands as a whole, and the beginning of the next.
  2. `commands_between` — between two commands it is the steps of the commands that are done.
-/
import FreeMicroNix.Lib.Interleaving

namespace Interleaving

variable {κ κ' δ : Type*}

/-- The program of the steps. -/
def cutProgram (cut : κ → List κ') : List (Stmt κ δ) → List (Stmt κ' δ)
  | [] => []
  | .act c :: rest => (cut c).map .act ++ cutProgram cut rest
  | .wait d :: rest => .wait d :: cutProgram cut rest

variable (cut : κ → List κ')

theorem cutProgram_append (pre post : List (Stmt κ δ)) :
    cutProgram cut (pre ++ post) = cutProgram cut pre ++ cutProgram cut post := by
  induction pre with
  | nil => rfl
  | cons stmt pre ih =>
    cases stmt with
    | act c =>
      show (cut c).map .act ++ cutProgram cut (pre ++ post) = _
      rw [ih, ← List.append_assoc]
      rfl
    | wait d => exact congrArg (.wait d :: ·) ih

theorem commands_map_act (steps : List κ') :
    commands (steps.map (Stmt.act : κ' → Stmt κ' δ)) = steps := by
  induction steps with
  | nil => rfl
  | cons s steps ih => exact congrArg (s :: ·) ih

theorem commands_cutProgram (program : List (Stmt κ δ)) :
    commands (cutProgram cut program) = (commands program).flatMap cut := by
  induction program with
  | nil => rfl
  | cons stmt program ih =>
    cases stmt with
    | act c =>
      show commands ((cut c).map .act ++ cutProgram cut program) = _
      rw [commands_append, commands_map_act, ih]
      rfl
    | wait d => exact ih

/-- **A part of the cut program**: commands as a whole, and the beginning of the next one. -/
theorem cut_split {program : List (Stmt κ δ)} {pre rest : List (Stmt κ' δ)}
    (h : cutProgram cut program = pre ++ rest) : ∃ before after part,
      program = before ++ after ∧ commands pre = (commands before).flatMap cut ++ part ∧
      (part = [] ∨ ∃ c after' more, after = .act c :: after' ∧ cut c = part ++ more) := by
  induction program generalizing pre with
  | nil =>
    obtain ⟨rfl, -⟩ := List.append_eq_nil_iff.mp h.symm
    exact ⟨[], [], [], rfl, rfl, Or.inl rfl⟩
  | cons stmt program ih =>
    cases stmt with
    | act c =>
      rcases List.append_eq_append_iff.mp h with ⟨pre', rfl, hpre'⟩ | ⟨more, hmore, -⟩
      · obtain ⟨before, after, part, rfl, hcommands, hpart⟩ := ih hpre'
        refine ⟨.act c :: before, after, part, rfl, ?_, hpart⟩
        rw [commands_append, commands_map_act, hcommands, ← List.append_assoc]
        rfl
      · -- inside the first command
        obtain ⟨part, rest', hcut, rfl, -⟩ := List.map_eq_append_iff.mp hmore
        refine ⟨[], .act c :: program, part, rfl, ?_, Or.inr ⟨c, program, rest', rfl, hcut⟩⟩
        exact commands_map_act part
    | wait d =>
      cases pre with
      | nil => exact ⟨[], .wait d :: program, [], rfl, rfl, Or.inl rfl⟩
      | cons first pre =>
        obtain ⟨rfl, hpre⟩ := List.cons.inj h
        obtain ⟨before, after, part, rfl, hcommands, hpart⟩ := ih hpre
        exact ⟨.wait d :: before, after, part, rfl, hcommands, hpart⟩

/-- **Between two commands** the steps that are done are those of the commands that are done. -/
theorem commands_between {program before after : List (Stmt κ δ)} {pre : List (Stmt κ' δ)}
    (hsplit : program = before ++ after)
    (h : cutProgram cut program = pre ++ cutProgram cut after) :
    commands pre = (commands before).flatMap cut := by
  rw [hsplit, cutProgram_append] at h
  rw [← List.append_cancel_right h, commands_cutProgram]

end Interleaving
