import Mathlib.Data.List.Basic

/-!
# Lists that only grow

A log is only ever added to. `Grown P l l'` says that `l'` is `l` with more at its end, all of which has `P`; it is
reflexive and transitive, and one more entry with `P` keeps it.
-/

namespace Growth

variable {α : Type*} {P Q : α → Prop} {l l' l'' : List α}

/-- `l'` is `l` and then entries with `P`. -/
def Grown (P : α → Prop) (l l' : List α) : Prop := ∃ d, l' = l ++ d ∧ ∀ x ∈ d, P x

namespace Grown

theorem refl : Grown P l l := ⟨[], (List.append_nil l).symm, List.forall_mem_nil P⟩

theorem of_eq (h : l' = l) : Grown P l l' := h ▸ refl

theorem one {x : α} (hx : P x) : Grown P l (l ++ [x]) := ⟨[x], rfl, List.forall_mem_singleton.mpr hx⟩

theorem trans (h : Grown P l l') (h' : Grown P l' l'') : Grown P l l'' := by
  obtain ⟨d, hd, hP⟩ := h
  obtain ⟨d', hd', hP'⟩ := h'
  refine ⟨d ++ d', by rw [hd', hd, List.append_assoc], fun x hx => ?_⟩
  rcases List.mem_append.mp hx with hx | hx
  · exact hP x hx
  · exact hP' x hx

theorem concat (h : Grown P l l') {x : α} (hx : P x) : Grown P l (l' ++ [x]) := h.trans (one hx)

theorem mono (h : Grown P l l') (hPQ : ∀ x, P x → Q x) : Grown Q l l' := by
  obtain ⟨d, hd, hP⟩ := h
  exact ⟨d, hd, fun x hx => hPQ x (hP x hx)⟩

end Grown

end Growth
