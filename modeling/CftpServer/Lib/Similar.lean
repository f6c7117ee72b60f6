import Mathlib.Logic.Basic

/-!
# States that cannot be told apart

A machine takes events and can be looked at. Two states are similar when every look at them shows the same, now and
after events that `E` takes for the same: there is a relation between them that events keep and looks agree on.
-/

namespace Runs

variable {σ ε ω : Type*} (step : σ → ε → σ) (E : ε → ε → Prop) (look : σ → ω)

/-- The states `a` and `b` look the same, whatever happens to both. -/
def Similar (a b : σ) : Prop :=
  ∃ R : σ → σ → Prop, R a b ∧ ∀ a b, R a b → look a = look b ∧ ∀ e f, E e f → R (step a e) (step b f)

namespace Similar

variable {step E look} {a b : σ}

theorem look_eq (h : Similar step E look a b) : look a = look b := by
  obtain ⟨R, hab, hR⟩ := h
  exact (hR a b hab).1

/-- Similar states stay similar. -/
theorem after (h : Similar step E look a b) {e f : ε} (hef : E e f) : Similar step E look (step a e) (step b f) := by
  obtain ⟨R, hab, hR⟩ := h
  exact ⟨R, (hR a b hab).2 e f hef, hR⟩

/-- What nothing changes is similar. -/
theorem of_const (hlook : ∀ a b, look a = look b) : Similar step E look a b :=
  ⟨fun _ _ => True, trivial, fun a b _ => ⟨hlook a b, fun _ _ _ => trivial⟩⟩

end Similar

end Runs
