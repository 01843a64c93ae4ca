import Mathlib.Data.Nat.Basic
import Mathlib.Tactic

namespace Foundation.Fence

/-- A store with a generation, a configuration that readers see, and entries computed from it. -/
structure Store (σ ν κ ε : Type) where
  generation : σ → ℕ
  view : σ → ν
  entries : σ → κ → Option ε

namespace Store

variable {σ ν κ ε : Type} (F : Store σ ν κ ε)

/-- What a reader took away earlier: as long as the generation has not moved, it is still seen. -/
structure Reading (s : σ) (g : ℕ) (v : ν) : Prop where
  le : g ≤ F.generation s
  same : g = F.generation s → F.view s = v

/-- Every entry is justified by the configuration that a reader sees now. -/
def Justified (P : ν → κ → ε → Prop) (s : σ) : Prop :=
  ∀ k e, F.entries s k = some e → P (F.view s) k e

/-- The step that a change of the configuration takes. -/
structure Invalidated (s s' : σ) : Prop where
  advances : F.generation s' = F.generation s + 1
  clears : ∀ k, F.entries s' k = none

variable {F} {P : ν → κ → ε → Prop} {s s' : σ} {g : ℕ} {v : ν}

theorem Reading.now (s : σ) : F.Reading s (F.generation s) (F.view s) := ⟨le_rfl, fun _ ↦ rfl⟩

theorem Reading.invalidated (h : F.Reading s g v) (hs : F.Invalidated s s') : F.Reading s' g v := by
  have hlt : g < F.generation s' := by
    rw [hs.advances]
    exact Nat.lt_succ_of_le h.le
  exact ⟨hlt.le, fun heq ↦ absurd heq hlt.ne⟩

theorem Reading.unmoved (h : F.Reading s g v) (hg : F.generation s' = F.generation s)
    (hview : F.view s' = F.view s) : F.Reading s' g v :=
  ⟨hg ▸ h.le, fun heq ↦ hview.trans (h.same (heq.trans hg))⟩

theorem Justified.invalidated (hs : F.Invalidated s s') : F.Justified P s' := by
  intro k e he
  rw [hs.clears k] at he
  exact absurd he (by simp)

/-- A write under the generation of a reading may store what the reading justifies. -/
theorem Justified.written (hr : F.Reading s g v) (hg : F.generation s = g)
    (hview : F.view s' = F.view s)
    (hentries : ∀ k e, F.entries s' k = some e → P (F.view s) k e ∨ P v k e) : F.Justified P s' := by
  intro k e he
  rw [hview]
  rcases hentries k e he with hold | hnew
  · exact hold
  · rw [hr.same hg.symm]
    exact hnew

end Store

end Foundation.Fence
