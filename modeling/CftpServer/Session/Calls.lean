import CftpServer.Session.Coupling
import CftpServer.Session.Frame

/-!
# The calls of an event

A command makes the calls on paths it is there for (`Action.makes`), the events of data connections look at the
directories they list, and nothing else makes any (`step_calls`).
-/

namespace CftpServer.Session

open CLib Command Growth Security

variable {σ : Type} {env : Env σ} {C : Call → Prop} {s₀ s : Session σ}

/-- What comes of a command: it is ignored, or it runs. -/
theorem command_cases (env : Env σ) {chunk : Bytes} {a : Action} (ha : handlerOf s chunk = some a) :
    step env (.controlRead chunk) s = s ∨
      step env (.controlRead chunk) s = runAction env a (commandOf s chunk) (received s chunk) := by
  rcases step_cases env (.controlRead chunk) s with heq | ⟨_, hchunk, -, -, heq⟩ | ⟨hread, -, -⟩
  · exact .inl heq
  · cases hchunk
    rw [heq, runCommand, ha]
    exact .inr rfl
  · exact absurd rfl (hread chunk)

/-- The calls an event may lead to. -/
def Makes (e : Event) (s : Session σ) (c : Call) : Prop :=
  match e with
  | .controlRead chunk => ∃ a, handlerOf s chunk = some a ∧ a.makes c = true
  | .dataEvent _ _ _ _ _ => c.looks = true
  | _ => False

/-- If the effect is a call on a path, it is one of these. -/
def CallIn (C : Call → Prop) (e : Effect) : Prop := ∀ c, e = .call c → C c

/-- A system on which only some calls are made. -/
def calling (env : Env σ) (C : Call → Prop) (s₀ : Session σ) : Coupling σ σ where
  left := env
  right := env
  calls := C
  related := fun _ _ log v w => w = v ∧ Grown (CallIn C) s₀.log log
  outcomes := by
    rintro p n log v _ ⟨rfl, -⟩
    rfl
  fresh := id
  after := by
    rintro p n log v _ e ⟨rfl, h⟩ he
    refine ⟨rfl, h.concat fun c hc => ?_⟩
    rw [hc] at he
    exact he
  chdir := by
    rintro p n log v _ path ⟨rfl, h⟩ hcall -
    refine ⟨rfl, h.concat fun c hc => ?_⟩
    cases hc
    exact hcall

theorem callIn_of_extends (h : Extends C False s₀ s) : Grown (CallIn C) s₀.log s.log := by
  refine Grown.mono h.log fun e he c hc => ?_
  rw [hc] at he
  exact he

/-- USER and PASS make no calls on paths. -/
theorem login_calls {a : Action} (cmd : CftpCommand) (hcases : a = .user ∨ a = .pass) :
    Grown (CallIn C) s.log (runAction env a cmd s).log := by
  rcases hcases with rfl | rfl
  · obtain ⟨username, h⟩ : ∃ username, Extends C False _ (cftpUserAuthenticated env cmd s) :=
      cftpUserAuthenticated_extends env cmd
    have hgrown := callIn_of_extends h
    exact hgrown
  · rcases cftpPassAuthenticated_cases (N := False) (C := C) (s := s) env cmd with ⟨arg, -, h⟩ | h
    · have hlogin : Grown (CallIn C) s.log (attempted env arg s).log := Grown.one (by rintro c ⟨⟩)
      exact hlogin.trans (callIn_of_extends h)
    · exact callIn_of_extends h

/-- **The calls of an event.** -/
theorem step_calls (env : Env σ) (e : Event) (s : Session σ) :
    ∀ c, Effect.call c ∈ newEffects s (step env e s) → Makes e s c := by
  have hgrown : Grown (CallIn (Makes e s)) s.log (step env e s).log := by
    by_cases hlogin : ∃ chunk a, e = .controlRead chunk ∧ handlerOf s chunk = some a ∧ (a = .user ∨ a = .pass)
    · obtain ⟨chunk, a, rfl, ha, hcases⟩ := hlogin
      rcases command_cases env ha with heq | heq
      · rw [heq]
        exact .refl
      · rw [heq]
        exact login_calls (s := received s chunk) _ hcases
    · have hpaired : (calling env (Makes e s) s).Paired s s := ⟨rfl, rfl, .refl⟩
      refine (Coupling.step_paired hpaired e (fun chunk a he ha => ⟨⟨?_, ?_⟩, fun c hc => ?_⟩) ?_).2.2
      · rintro rfl
        exact hlogin ⟨chunk, _, he, ha, .inl rfl⟩
      · rintro rfl
        exact hlogin ⟨chunk, _, he, ha, .inr rfl⟩
      · rw [he]
        exact ⟨a, ha, hc⟩
      · rintro b v connected timeout error eof rfl - c hc
        exact hc
  obtain ⟨d, hd, hcalls⟩ := hgrown
  rw [newEffects_eq hd]
  exact fun c hc => hcalls _ hc c rfl

end CftpServer.Session
