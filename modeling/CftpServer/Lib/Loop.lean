import Mathlib.Data.Option.Basic

/-!
# Loops that may fail

A C loop as a body on states. One round goes on with a new state, leaves the loop with one (its condition is false, or a
`break`), or fails. `loop body fuel s` is `none` when a round fails and when `fuel` rounds are not enough.

`loop_spec` is the rule for total correctness: an invariant that every round keeps, and a measure that it makes smaller.
-/

namespace Loops

/-- How a round of a loop ends. -/
inductive Round (σ : Type*) where
  | next (s : σ)
  | done (s : σ)

/-- The state in which the loop is left. -/
def loop {σ : Type*} (body : σ → Option (Round σ)) : Nat → σ → Option σ
  | 0, _ => none
  | fuel + 1, s => (body s).bind fun
    | .next s' => loop body fuel s'
    | .done s' => some s'

/-- From `I` a round goes on in `I` with less to do, or it leaves the loop in `Q`; none fails. -/
def Progress {σ : Type*} (body : σ → Option (Round σ)) (I Q : σ → Prop) (m : σ → Nat) : Prop :=
  ∀ s, I s → (∃ s', body s = some (.next s') ∧ I s' ∧ m s' < m s) ∨ ∃ s', body s = some (.done s') ∧ Q s'

/-- A loop whose rounds make progress ends, and ends in `Q`. -/
theorem loop_spec {σ : Type*} {body : σ → Option (Round σ)} {I Q : σ → Prop} {m : σ → Nat}
    (h : Progress body I Q m) : ∀ (fuel : Nat) {s : σ}, I s → m s < fuel → ∃ s', loop body fuel s = some s' ∧ Q s' := by
  intro fuel
  induction fuel with
  | zero => intro s _ hf; omega
  | succ fuel ih =>
    intro s hs hf
    rcases h s hs with ⟨s', hb, hs', hless⟩ | ⟨s', hb, hq⟩
    · obtain ⟨r, hr, hq⟩ := ih hs' (by omega)
      exact ⟨r, by rw [loop, hb]; exact hr, hq⟩
    · exact ⟨s', by rw [loop, hb]; rfl, hq⟩

end Loops
