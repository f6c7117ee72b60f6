import Mathlib.Data.List.Basic

/-!
# Runs of a state machine

A machine is a step function on states; a run feeds it a list of events. An invariant kept by one step holds after
every run (`run_inv`), also when only the steps that meet a guard keep it (`run_inv_of_guarded`). Every state a run
goes through is the end of a run over a prefix of its events, and prefixes of guarded runs are guarded
(`Guarded.prefix`), so a property of the last state of guarded runs is one of all states they reach. When the guard is
exact for one step it is exact for runs (`forall_prefix_iff_guarded`, and `forall_prefix_iff_guarded_of` for the runs
whose steps all meet another condition). `latest` is the last thing of a kind that happened in a run, and
`run_inv_latest` the rule for invariants that speak of it; `collected` is all that happened, with `run_inv_collected`,
and `run_inv_recorded` is the rule for both.
-/

namespace Runs

variable {σ ε β : Type*} (step : ε → σ → σ)

/-- The state after a list of events. -/
def run : List ε → σ → σ
  | [], s => s
  | e :: es, s => run es (step e s)

/-- Every step of the run meets the guard in the state it starts from. -/
def Guarded (G : ε → σ → Prop) : List ε → σ → Prop
  | [], _ => True
  | e :: es, s => G e s ∧ Guarded G es (step e s)

/-- What the last step that `f` sees something in gave, or else `l`. -/
def latest (f : ε → σ → Option β) : List ε → σ → Option β → Option β
  | [], _, l => l
  | e :: es, s, l => latest f es (step e s) ((f e s).or l)

/-- What the steps of a run gave, all together. -/
def collected (f : ε → σ → List β) : List ε → σ → List β
  | [], _ => []
  | e :: es, s => f e s ++ collected f es (step e s)

variable {step}

@[simp] theorem run_nil (s : σ) : run step [] s = s := rfl

@[simp] theorem run_cons (e : ε) (es : List ε) (s : σ) : run step (e :: es) s = run step es (step e s) := rfl

theorem run_append : ∀ (es fs : List ε) (s : σ), run step (es ++ fs) s = run step fs (run step es s)
  | [], _, _ => rfl
  | e :: es, fs, s => run_append es fs (step e s)

/-- An invariant of one step is an invariant of runs. -/
theorem run_inv {P : σ → Prop} (hstep : ∀ e s, P s → P (step e s)) :
    ∀ (es : List ε) {s : σ}, P s → P (run step es s)
  | [], _, h => h
  | e :: es, _, h => run_inv hstep es (hstep e _ h)

/-- An invariant of the steps that meet a guard is an invariant of guarded runs. -/
theorem run_inv_of_guarded {G : ε → σ → Prop} {P : σ → Prop} (hstep : ∀ e s, G e s → P s → P (step e s)) :
    ∀ (es : List ε) {s : σ}, Guarded step G es s → P s → P (run step es s)
  | [], _, _, h => h
  | e :: es, _, hg, h => run_inv_of_guarded hstep es hg.2 (hstep e _ hg.1 h)

/-- An invariant of states together with the last thing seen. -/
theorem run_inv_latest {f : ε → σ → Option β} {P : σ → Option β → Prop}
    (hstep : ∀ e s l, P s l → P (step e s) ((f e s).or l)) :
    ∀ (es : List ε) {s : σ} {l : Option β}, P s l → P (run step es s) (latest step f es s l)
  | [], _, _, h => h
  | e :: es, _, _, h => run_inv_latest hstep es (hstep e _ _ h)

/-- An invariant of guarded runs that speaks of all they gave. -/
theorem run_inv_collected {f : ε → σ → List β} {G : ε → σ → Prop} {P : σ → List β → Prop}
    (hstep : ∀ e s acc, G e s → P s acc → P (step e s) (acc ++ f e s)) :
    ∀ (es : List ε) {s : σ} {acc : List β}, Guarded step G es s → P s acc →
      P (run step es s) (acc ++ collected step f es s)
  | [], _, _, _, h => by rw [collected, List.append_nil]; exact h
  | e :: es, _, _, hg, h => by
    rw [collected, ← List.append_assoc]
    exact run_inv_collected hstep es hg.2 (hstep e _ _ hg.1 h)

/-- An invariant of guarded runs that speaks of all they gave and of the last thing seen. -/
theorem run_inv_recorded {γ : Type*} {f : ε → σ → List β} {g : ε → σ → Option γ} {G : ε → σ → Prop}
    {P : σ → List β → Option γ → Prop}
    (hstep : ∀ e s acc l, G e s → P s acc l → P (step e s) (acc ++ f e s) ((g e s).or l)) :
    ∀ (es : List ε) {s : σ} {acc : List β} {l : Option γ}, Guarded step G es s → P s acc l →
      P (run step es s) (acc ++ collected step f es s) (latest step g es s l)
  | [], _, _, _, _, h => by rw [collected, List.append_nil]; exact h
  | e :: es, _, _, _, hg, h => by
    rw [collected, ← List.append_assoc]
    exact run_inv_recorded hstep es hg.2 (hstep e _ _ _ hg.1 h)

/-- A prefix of a guarded run is guarded. -/
theorem Guarded.prefix {G : ε → σ → Prop} : ∀ {es fs : List ε} {s : σ}, Guarded step G (es ++ fs) s →
    Guarded step G es s
  | [], _, _, _ => trivial
  | _ :: _, _, _, h => ⟨h.1, Guarded.prefix h.2⟩

/-- The last step of a guarded run. -/
theorem Guarded.last {G : ε → σ → Prop} {e : ε} : ∀ {es : List ε} {s : σ}, Guarded step G (es ++ [e]) s →
    G e (run step es s)
  | [], _, h => h.1
  | _ :: es, _, h => by
    have hrest : Guarded step G (es ++ [e]) _ := h.2
    exact hrest.last

/-- A guard that is weaker. -/
theorem Guarded.mono {G H : ε → σ → Prop} (hGH : ∀ e s, G e s → H e s) : ∀ {es : List ε} {s : σ},
    Guarded step G es s → Guarded step H es s
  | [], _, _ => trivial
  | _ :: _, _, h => ⟨hGH _ _ h.1, Guarded.mono hGH h.2⟩

theorem guarded_true : ∀ (es : List ε) (s : σ), Guarded step (fun _ _ => True) es s
  | [], _ => trivial
  | e :: es, s => ⟨trivial, guarded_true es (step e s)⟩

/-- A guard that is exact for one step is exact for runs, here for those whose steps all meet `H`: `I` is an invariant
of the guarded steps, and from a state that has it a step leads to a state with the property `Q` only if it meets the
guard. -/
theorem forall_prefix_iff_guarded_of {H G : ε → σ → Prop} {I Q : σ → Prop} (hQ : ∀ s, I s → Q s)
    (hG : ∀ e s, I s → H e s → Q (step e s) → G e s) (hI : ∀ e s, I s → H e s → G e s → I (step e s)) (es : List ε) :
    ∀ {s : σ}, I s → Guarded step H es s → ((∀ pre, pre <+: es → Q (run step pre s)) ↔ Guarded step G es s) := by
  induction es with
  | nil =>
    intro s hs _
    refine ⟨fun _ => trivial, fun _ pre hpre => ?_⟩
    rw [List.prefix_nil.mp hpre]
    exact hQ s hs
  | cons e es ih =>
    intro s hs hH
    constructor
    · intro h
      have hg : G e s := hG e s hs hH.1 (h [e] ((List.prefix_cons_inj e).mpr List.nil_prefix))
      exact ⟨hg, (ih (hI e s hs hH.1 hg) hH.2).mp fun pre hpre => h (e :: pre) ((List.prefix_cons_inj e).mpr hpre)⟩
    · rintro ⟨hg, hgs⟩ pre hpre
      cases pre with
      | nil => exact hQ s hs
      | cons f pre =>
        obtain ⟨rfl, hpre'⟩ := List.cons_prefix_cons.mp hpre
        exact (ih (hI f s hs hH.1 hg) hH.2).mpr hgs pre hpre'

/-- A guard that is exact for one step is exact for runs. -/
theorem forall_prefix_iff_guarded {G : ε → σ → Prop} {I Q : σ → Prop} (hQ : ∀ s, I s → Q s)
    (hG : ∀ e s, I s → Q (step e s) → G e s) (hI : ∀ e s, I s → G e s → I (step e s)) (es : List ε) {s : σ}
    (hs : I s) : (∀ pre, pre <+: es → Q (run step pre s)) ↔ Guarded step G es s :=
  forall_prefix_iff_guarded_of hQ (fun e s hs _ => hG e s hs) (fun e s hs _ => hI e s hs) es hs (guarded_true es s)

end Runs
