import Mathlib.Logic.Basic

/-! # Runs with labels

The runs of a system whose steps have labels. One system simulates another if each of its steps is
a step of the other with the same label; then the runs have the same labels.
-/

namespace Remon.Lib

def orStay {ε S : Type} (s : S) : Except ε S → S
  | .ok t => t
  | .error _ => s

theorem ok_orStay {ε S : Type} {s : S} {r : Except ε S} (h : r.isOk = true) :
    r = .ok (orStay s r) := by
  cases r with
  | ok t => rfl
  | error e => cases h

/-- From `s` the labels `es` lead to `t`. -/
inductive Traces {S E : Type} (step : S → E → S → Prop) (s : S) : List E → S → Prop
  | refl : Traces step s [] s
  | step {es : List E} {t u : S} {e : E} (ht : Traces step s es t) (hstep : step t e u) :
      Traces step s (es ++ [e]) u

namespace Traces

variable {S S' E : Type} {step : S → E → S → Prop} {step' : S' → E → S' → Prop} {s t : S}
  {es : List E}

theorem simulate {inv : S → Prop} {abs : S → S'}
    (hstep : ∀ s e t, inv s → step s e t → inv t ∧ step' (abs s) e (abs t))
    (h : Traces step s es t) (hs : inv s) : inv t ∧ Traces step' (abs s) es (abs t) := by
  induction h with
  | refl => exact ⟨hs, .refl⟩
  | step _ hlast ih =>
    obtain ⟨ht, htrace⟩ := ih
    obtain ⟨hu, habs⟩ := hstep _ _ _ ht hlast
    exact ⟨hu, htrace.step habs⟩

end Traces

end Remon.Lib
