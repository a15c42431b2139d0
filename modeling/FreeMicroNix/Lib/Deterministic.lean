/-
  Machines whose next state is a function of the present one, and what they put out.

  `Reaches step s t` is a run of any length.  Runs of such a machine do not branch: of two states
  reached from the same one, one is reached from the other (`Reaches.comparable`).

  A machine with an output log it only ever appends to (`Logs`) has therefore ONE output: of two
  states reached, the log of one starts with that of the other (`Logs.comparable`).  What stands in
  the log once is a verdict on all runs, past and to come.
-/
import Mathlib.Data.List.Infix
import Mathlib.Logic.Relation

namespace Deterministic

variable {σ β : Type*}

/-- A run of the machine. -/
def Reaches (step : σ → Option σ) : σ → σ → Prop :=
  Relation.ReflTransGen fun s t => step s = some t

namespace Reaches

variable {step : σ → Option σ} {s t u : σ}

theorem refl (s : σ) : Reaches step s s := Relation.ReflTransGen.refl

theorem trans (hst : Reaches step s t) (htu : Reaches step t u) : Reaches step s u :=
  Relation.ReflTransGen.trans hst htu

/-- One step, then a run. -/
theorem head (hstep : step s = some t) (htu : Reaches step t u) : Reaches step s u :=
  Relation.ReflTransGen.head hstep htu

theorem single (hstep : step s = some t) : Reaches step s t := Relation.ReflTransGen.single hstep

/-- **No branches**: of two states reached, one is reached from the other. -/
theorem comparable (hst : Reaches step s t) (hsu : Reaches step s u) :
    Reaches step t u ∨ Reaches step u t :=
  Relation.ReflTransGen.total_of_right_unique
    (fun _ _ _ ht hu => Option.some_inj.mp (ht.symm.trans hu)) hst hsu

/-- What every step keeps. -/
theorem keeps {P : σ → Prop} (hkeep : ∀ s t, step s = some t → P s → P t)
    (hst : Reaches step s t) (hs : P s) : P t := by
  induction hst with
  | refl => exact hs
  | tail _ hstep ih => exact hkeep _ _ hstep ih

/-- From a state that is its own next one nothing else is reached. -/
theorem eq_of_loop (hloop : step s = some s) (hst : Reaches step s t) : t = s :=
  keeps (P := fun t => t = s)
    (fun _ _ hstep heq => by
      rw [heq, hloop] at hstep
      exact (Option.some_inj.mp hstep).symm) hst rfl

end Reaches

/-! ## Logs -/

/-- No step takes anything back. -/
def Logs (step : σ → Option σ) (log : σ → List β) : Prop :=
  ∀ s t, step s = some t → log s <+: log t

namespace Logs

variable {step : σ → Option σ} {log : σ → List β} {s t u : σ}

theorem reaches (hlogs : Logs step log) (hst : Reaches step s t) : log s <+: log t :=
  hst.keeps (P := fun t => log s <+: log t)
    (fun _ _ hstep hpart => hpart.trans (hlogs _ _ hstep)) (List.prefix_refl _)

/-- **One output**: of two logs of a run, one starts with the other. -/
theorem comparable (hlogs : Logs step log) (hst : Reaches step s t) (hsu : Reaches step s u) :
    log t <+: log u ∨ log u <+: log t :=
  (hst.comparable hsu).imp hlogs.reaches hlogs.reaches

end Logs

end Deterministic
