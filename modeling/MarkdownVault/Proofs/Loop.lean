/-!
# Loops

A loop takes a step as long as there is one to take. Where it ends is determined by where it
starts, and it ends if every step brings a measure down.
-/

namespace MarkdownVault

/-- The loop that takes `step` from a state on ends in another state. -/
inductive Ends {σ : Type} (step : σ → Option σ) : σ → σ → Prop
  | done {s : σ} : step s = none → Ends step s s
  | turn {s s' t : σ} : step s = some s' → Ends step s' t → Ends step s t

namespace Ends

variable {σ : Type} {step : σ → Option σ} {s s' t : σ}

theorem turn_iff (h : step s = some s') : Ends step s t ↔ Ends step s' t := by
  constructor
  · intro hends
    cases hends with
    | done hnone => rw [h] at hnone; cases hnone
    | turn hsome hrest =>
      rw [h] at hsome
      cases hsome
      exact hrest
  · exact turn h

theorem done_iff (h : step s = none) : Ends step s t ↔ t = s := by
  constructor
  · intro hends
    cases hends with
    | done _ => rfl
    | turn hsome _ => rw [h] at hsome; cases hsome
  · rintro rfl
    exact done h

theorem unique {t' : σ} (h : Ends step s t) (h' : Ends step s t') : t = t' := by
  induction h with
  | done hnone => exact ((done_iff hnone).1 h').symm
  | turn hsome _ ih => exact ih ((turn_iff hsome).1 h')

/-- What every step keeps holds at the end of a loop, and there is no step left to take. -/
theorem invariant {P : σ → Prop} (hstep : ∀ s s', P s → step s = some s' → P s')
    (h : Ends step s t) (hs : P s) : P t ∧ step t = none := by
  induction h with
  | done hnone => exact ⟨hs, hnone⟩
  | turn hsome _ ih => exact ih (hstep _ _ hs hsome)

theorem exists_of_measure (size : σ → Nat) (hsize : ∀ s s', step s = some s' → size s' < size s)
    (s : σ) : ∃ t, Ends step s t := by
  induction hs : size s using Nat.strongRecOn generalizing s with
  | _ n ih =>
    cases hstep : step s with
    | none => exact ⟨s, done hstep⟩
    | some s' =>
      obtain ⟨t, ht⟩ := ih (size s') (hs ▸ hsize s s' hstep) s' rfl
      exact ⟨t, turn hstep ht⟩

end Ends

end MarkdownVault
