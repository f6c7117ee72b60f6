import CftpServer.Session.Coupling
import CftpServer.Session.Frame

/-!
# What becomes of the system

The system changes only through what the session does: what a property `G` of the system needs of each effect, it needs
of the new effects of a step (`step_os`).
-/

namespace CftpServer.Session

open CLib Command Security

variable {σ : Type} {G : σ → Prop} {H : Effect → Prop}

/-- After the effects since `s₀` the system has `G`, if they all have `H`. -/
structure Followed (G : σ → Prop) (H : Effect → Prop) (s₀ : Session σ) (n : Nat) (log : List Effect) (w : σ) :
    Prop where
  nextId : s₀.nextId ≤ n
  os : ∃ d, log = s₀.log ++ d ∧ ((∀ e ∈ d, H e) → G w)

/-- One effect keeps `G`: it has `H`, and a descriptor that it opens is a new one. -/
def Follows (env : Env σ) (G : σ → Prop) (H : Effect → Prop) (n : Nat) : Prop :=
  ∀ w p e, G w → H e → (∀ fd, e = .opened fd → (n : Int) ≤ fd) → G (env.after w p e)

variable {env : Env σ} {s₀ s : Session σ} {n : Nat} {log : List Effect} {w : σ} {e : Effect}

theorem Followed.refl (h : G s₀.os) : Followed G H s₀ s₀.nextId s₀.log s₀.os :=
  ⟨le_rfl, [], (List.append_nil _).symm, fun _ => h⟩

theorem Followed.after (h : Followed G H s₀ n log w) (hG : Follows env G H s₀.nextId) (p : Proc)
    (he : ∀ fd, e = .opened fd → (s₀.nextId : Int) ≤ fd) : Followed G H s₀ n (log ++ [e]) (env.after w p e) := by
  obtain ⟨d, hd, hos⟩ := h.os
  refine ⟨h.nextId, d ++ [e], by rw [hd, List.append_assoc], fun hH => ?_⟩
  refine hG w p e (hos fun e' he' => hH e' (List.mem_append_left _ he')) (hH e ?_) he
  exact List.mem_append_right _ (List.mem_singleton.mpr rfl)

/-- A system that is followed. -/
def following (env : Env σ) (s₀ : Session σ) (hG : Follows env G H s₀.nextId) : Coupling σ σ where
  left := env
  right := env
  calls := fun _ => True
  related := fun _ n log v w => w = v ∧ Followed G H s₀ n log v
  outcomes := by
    rintro p n log v _ ⟨rfl, -⟩
    rfl
  fresh := fun ⟨hw, h⟩ => ⟨hw, h.nextId.trans (Nat.le_succ _), h.os⟩
  after := by
    rintro p n log v _ e ⟨rfl, h⟩ he
    refine ⟨rfl, h.after hG p fun fd hfd => ?_⟩
    rw [hfd] at he
    exact (Int.ofNat_le.mpr h.nextId).trans (le_of_eq he.symm)
  chdir := by
    rintro p n log v _ path ⟨rfl, h⟩ - -
    exact ⟨rfl, h.after hG p nofun⟩

section Login

variable (hG : Follows env G H s₀.nextId) (h : Followed G H s₀ s.nextId s.log s.os)
include hG h

theorem Followed.reply (n : Nat) (text : Bytes) : Followed G H s₀ (s.sendControlMessage env n text).nextId
    (s.sendControlMessage env n text).log (s.sendControlMessage env n text).os :=
  h.after hG s.proc (e := .reply n text) nofun

theorem Followed.timeoutEventFree : Followed G H s₀ (s.timeoutEventFree env).nextId (s.timeoutEventFree env).log
    (s.timeoutEventFree env).os := by
  unfold Session.timeoutEventFree
  split
  · exact h
  · rename_i t _
    split
    · exact h.after hG s.proc (e := .timerFree t) nofun
    · exact h.after hG s.proc (e := .timerFree t) nofun

theorem Followed.user (cmd : CftpCommand) : Followed G H s₀ (s.cftpUserAuthenticated env cmd).nextId
    (s.cftpUserAuthenticated env cmd).log (s.cftpUserAuthenticated env cmd).os := by
  unfold cftpUserAuthenticated
  split
  · split
    · exact Followed.reply hG (by exact h) _ _
    · exact Followed.reply hG h _ _
  · exact Followed.reply hG (by exact h) _ _

theorem Followed.pass (cmd : CftpCommand) : Followed G H s₀ (s.cftpPassAuthenticated env cmd).nextId
    (s.cftpPassAuthenticated env cmd).log (s.cftpPassAuthenticated env cmd).os := by
  have hin : ∀ arg, Followed G H s₀ (s.loggedIn env arg).nextId (s.loggedIn env arg).log (s.loggedIn env arg).os :=
    fun arg => h.after hG s.proc (e := .authenticate s.conn.username arg (s.login env arg).ok) nofun
  unfold cftpPassAuthenticated
  split
  · rename_i arg _
    split
    · exact Followed.timeoutEventFree hG (Followed.reply hG (hin arg) _ _)
    · exact Followed.reply hG (hin arg) _ _
  · exact Followed.reply hG (by exact h) _ _

end Login

/-- **The system changes only through what the session does.** -/
theorem step_os (ev : Event) (s : Session σ) (hG : Follows env G H s.nextId)
    (hnew : ∀ e ∈ newEffects s (step env ev s), H e) (h : G s.os) : G (step env ev s).os := by
  have hfollowed : Followed G H s (step env ev s).nextId (step env ev s).log (step env ev s).os := by
    by_cases hlogin : ∃ chunk a, ev = .controlRead chunk ∧ handlerOf s chunk = some a ∧ (a = .user ∨ a = .pass)
    · obtain ⟨chunk, a, rfl, hact, hcases⟩ := hlogin
      rcases step_cases env (.controlRead chunk) s with heq | ⟨_, hchunk, -, -, heq⟩ | ⟨hread, -, -⟩
      · rw [heq]
        exact .refl h
      · cases hchunk
        have hreceived : Followed G H s (received s chunk).nextId (received s chunk).log (received s chunk).os := .refl h
        rw [heq, runCommand, hact]
        rcases hcases with rfl | rfl
        · exact hreceived.user hG _
        · exact hreceived.pass hG _
      · exact absurd rfl (hread chunk)
    · have hpaired : (following env s hG).Paired s s := ⟨rfl, rfl, .refl h⟩
      refine (Coupling.step_paired hpaired ev (fun chunk a he hact => ⟨⟨?_, ?_⟩, fun _ _ => trivial⟩)
        fun _ _ _ _ _ _ _ _ _ _ => trivial).2.2
      · rintro rfl
        exact hlogin ⟨chunk, _, he, hact, .inl rfl⟩
      · rintro rfl
        exact hlogin ⟨chunk, _, he, hact, .inr rfl⟩
  obtain ⟨d, hd, hos⟩ := hfollowed.os
  rw [newEffects_eq hd] at hnew
  exact hos hnew

end CftpServer.Session
