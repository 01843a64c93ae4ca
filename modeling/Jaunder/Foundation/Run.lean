import Mathlib.Data.List.Basic
import Mathlib.Tactic

namespace Foundation.Run

variable {σ ε : Type}

/-- The state after a list of steps. -/
def run (step : σ → ε → σ) (s : σ) (es : List ε) : σ := es.foldl step s

/-- Every step of a run is taken in a state where it meets the condition. -/
def Along (step : σ → ε → σ) (C : σ → ε → Prop) : σ → List ε → Prop
  | _, [] => True
  | s, e :: es => C s e ∧ Along step C (step s e) es

variable {step : σ → ε → σ} {C D : σ → ε → Prop} {s : σ} {e : ε} {es es' : List ε}

theorem run_nil : run step s [] = s := rfl

theorem run_cons : run step s (e :: es) = run step (step s e) es := rfl

theorem run_append : run step s (es ++ es') = run step (run step s es) es' := List.foldl_append

theorem run_concat : run step s (es ++ [e]) = step (run step s es) e := by
  rw [run_append, run_cons, run_nil]

theorem along_append : Along step C s (es ++ es') ↔
    Along step C s es ∧ Along step C (run step s es) es' := by
  induction es generalizing s with
  | nil => simp [Along, run_nil]
  | cons e es ih => rw [List.cons_append, Along, Along, ih, run_cons, and_assoc]

theorem along_true (s : σ) (es : List ε) : Along step (fun _ _ ↦ True) s es := by
  induction es generalizing s with
  | nil => trivial
  | cons e es ih => exact ⟨trivial, ih _⟩

theorem Along.mono (h : Along step C s es) (hC : ∀ s e, C s e → D s e) : Along step D s es := by
  induction es generalizing s with
  | nil => trivial
  | cons e es ih => exact ⟨hC s e h.1, ih h.2⟩

theorem Along.and (h : Along step C s es) (h' : Along step D s es) :
    Along step (fun s e ↦ C s e ∧ D s e) s es := by
  induction es generalizing s with
  | nil => trivial
  | cons e es ih => exact ⟨⟨h.1, h'.1⟩, ih h.2 h'.2⟩

/-- The invariant rule: what every admissible step preserves holds at the end of every run. -/
theorem run_preserves {P : σ → Prop} (hstep : ∀ s e, P s → C s e → P (step s e)) (hs : P s)
    (hes : Along step C s es) : P (run step s es) := by
  induction es generalizing s with
  | nil => exact hs
  | cons e es ih => exact ih (hstep s e hs hes.1) hes.2

end Foundation.Run
