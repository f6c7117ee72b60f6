import CftpServer.Session.Login

/-!
# Paths with a `..` component

Every handler that takes a path has to look for `..` in it before the first call. `is_path_safe` finds it
(`isPathSafe_of_traverses`), and the handlers that use it make no call on such a path (`runAction_refuses`). RETR, STOR
and MDTM do not use it: `traversal_refused_iff` says when a command leaves the path alone.
-/

namespace CftpServer.Session

open CLib Command Security

variable {σ : Type} (env : Env σ)

/-- The path has a component `..`. -/
def Traverses (path : Bytes) : Prop := ascii ".." ∈ path.splitOn 47

instance (path : Bytes) : Decidable (Traverses path) := inferInstanceAs (Decidable (_ ∈ _))

theorem isPathSafe_of_traverses {path : Bytes} (h : Traverses path) : isPathSafe path = false := by
  have hs : strstr path (ascii "..") = true := strstr_iff.mpr (infix_of_mem_splitOn h)
  unfold isPathSafe
  split
  · rw [hs]; rfl
  · rename_i hl
    have : path = [] := List.length_eq_zero_iff.mp (by omega)
    subst this
    revert h
    decide

/-! ## Arguments that name a path -/

/-- The arguments of LIST are flags and the path it lists. -/
theorem parseListFlags_args {args : List Bytes} : ∀ {flags flags' : ListFlags},
    parseListFlags args flags = some flags' → (∀ p, flags.path = some p → flags'.path = some p) ∧
      ∀ p ∈ args, p ∈ [ascii "-a", ascii "-h", ascii "-R"] ∨ flags'.path = some p := by
  induction args with
  | nil =>
    intro flags flags' h
    cases h
    exact ⟨fun _ h => h, fun _ h => by cases h⟩
  | cons arg args ih =>
    intro flags flags' h
    simp only [parseListFlags] at h
    simp only [List.forall_mem_cons]
    split at h
    · exact ⟨(ih h).1, .inl (by simp [*]), (ih h).2⟩
    · split at h
      · exact ⟨(ih h).1, .inl (by simp [*]), (ih h).2⟩
      · split at h
        · exact ⟨(ih h).1, .inl (by simp [*]), (ih h).2⟩
        · split at h
          · rename_i hnone
            rw [Option.isNone_iff_eq_none] at hnone
            exact ⟨fun p hp => absurd hp (by simp [hnone]), .inr ((ih h).1 arg rfl), (ih h).2⟩
          · cases h

/-- The arguments of DELE are flags and its target. -/
theorem parseDeleLoop_args {args : List Bytes} : ∀ {a a' : DeleArgs},
    parseDeleLoop args a = some a' → (∀ p, a.target = some p → a'.target = some p) ∧
      ∀ p ∈ args, p ∈ [ascii "-r", ascii "-f"] ∨ a'.target = some p := by
  induction args with
  | nil =>
    intro a a' h
    cases h
    exact ⟨fun _ h => h, fun _ h => by cases h⟩
  | cons arg args ih =>
    intro a a' h
    simp only [parseDeleLoop] at h
    simp only [List.forall_mem_cons]
    split at h
    · exact ⟨(ih h).1, .inl (by simp [*]), (ih h).2⟩
    · split at h
      · exact ⟨(ih h).1, .inl (by simp [*]), (ih h).2⟩
      · split at h
        · rename_i hnone
          rw [Option.isNone_iff_eq_none] at hnone
          exact ⟨fun p hp => absurd hp (by simp [hnone]), .inr ((ih h).1 arg rfl), (ih h).2⟩
        · cases h

/-- A flag has no `..` in it. -/
theorem not_traverses_flag : ∀ p ∈ [ascii "-a", ascii "-h", ascii "-R", ascii "-r", ascii "-f"], ¬ Traverses p := by
  decide

/-! ## Handlers -/

section Refused

variable {s : Session σ} {cmd : CftpCommand} {p : Bytes}

/-- LIST and NLST refuse the path, if they get as far as looking at it. -/
theorem handleListCommand_refuses {description : Bool} (hlen : p.length < PATH_MAX) (hp : p ∈ cmd.args)
    (ht : Traverses p) : Moves env (fun _ => False) s (s.handleListCommand env cmd description) := by
  have hr : Moves env (fun _ => False) s s := .refl
  unfold handleListCommand
  split
  · exact hr.refuseList (by decide)
  · rename_i flags hflags
    split
    · exact hr.replies (by decide)
    · have hpath : flags.path = some p := ((parseListFlags_args hflags).2 p hp).resolve_left fun hf =>
        not_traverses_flag p (by simp at hf ⊢; tauto) ht
      have hl : listPath flags = p := by
        cases p with
        | nil => exact absurd ht (by decide)
        | cons c cs => simp only [listPath, hpath, cut, List.take_of_length_le (Nat.le_sub_one_of_lt hlen)]
      rw [hl, isPathSafe_of_traverses ht]
      exact hr.refuseList (by decide)

theorem handleDeleCommand_refuses (hp : p ∈ cmd.args) (ht : Traverses p) :
    Moves env (fun _ => False) s (s.handleDeleCommand env cmd) := by
  have hr : Moves env (fun _ => False) s s := .refl
  unfold handleDeleCommand
  split
  · exact hr.replies (by decide)
  · rename_i target recursive force hargs
    simp only [parseDeleParams, Option.bind_eq_some_iff, Option.map_eq_some_iff] at hargs
    obtain ⟨a, ha, t, htarget, heq⟩ := hargs
    have hpath : a.target = some p := ((parseDeleLoop_args ha).2 p hp).resolve_left fun hf =>
      not_traverses_flag p (by simp at hf ⊢; tauto) ht
    have : target = p := by
      rw [hpath, Option.some.injEq] at htarget
      rw [htarget]
      exact (congrArg Prod.fst heq).symm
    subst this
    rw [isPathSafe_of_traverses ht]
    exact hr.replies (by decide)

/-- A handler of one argument that refuses the path. -/
theorem withArg_refuses {text : String} {action : Bytes → Session σ → Session σ} (hp : p ∈ cmd.args)
    (ha : Moves env (fun _ => False) s (action p s)) :
    Moves env (fun _ => False) s (s.withArg env cmd text action) := by
  unfold withArg
  split
  · rename_i arg harg
    rw [harg, List.mem_singleton] at hp
    rw [← hp]
    exact ha
  · exact Moves.replies .refl (by decide)

/-- The handlers that check their path make no call on one with a `..` component. -/
theorem runAction_refuses {a : Action} (ha : a.pathless = false) (hu : a ≠ .retr ∧ a ≠ .stor ∧ a ≠ .mdtm)
    (hlen : p.length < PATH_MAX) (hp : p ∈ cmd.args) (ht : Traverses p) :
    Moves env (fun _ => False) s (runAction env a cmd s) := by
  have hr : Moves env (fun _ => False) s s := .refl
  have hsafe := isPathSafe_of_traverses ht
  have hne : p ≠ [] := by rintro rfl; exact absurd ht (by decide)
  cases a with
  | retr => exact absurd rfl hu.1
  | stor => exact absurd rfl hu.2.1
  | mdtm => exact absurd rfl hu.2.2
  | list | nlst => exact handleListCommand_refuses env hlen hp ht
  | dele => exact handleDeleCommand_refuses env hp ht
  | size | mkd | rmd =>
    simp only [runAction, cftpSizeAuthenticatedAction, cftpMkdAuthenticatedAction, cftpRmdAuthenticatedAction]
    apply withArg_refuses env hp
    simp only [hsafe, Bool.not_false, if_true]
    exact hr.replies (by decide)
  | cwd =>
    rw [runAction, cftpCwdAuthenticatedAction]
    apply withArg_refuses env hp
    simp only [hne, ne_eq, not_false_eq_true, if_true, handleCwdCommand, if_false, hsafe, Bool.not_false]
    exact hr.replies (by decide)
  | _ => cases ha

end Refused

/-! ## Commands -/

/-- The commands that take a path. -/
def pathCommands : List Bytes :=
  ["CWD", "SIZE", "LIST", "NLST", "RETR", "STOR", "MDTM", "DELE", "MKD", "RMD"].map ascii

/-- RETR and STOR on a data connection, and MDTM, go ahead without looking at their path. -/
def Unchecked (command : Bytes) (args : List Bytes) (p : Bytes) (dataBev : Option Nat) : Prop :=
  args = [p] ∧ ((command = ascii "RETR" ∨ command = ascii "STOR") ∧ dataBev ≠ none ∨ command = ascii "MDTM")

section Calls

variable {s s' : Session σ} {p : Bytes}

theorem no_call_of_moves (h : Moves env (fun _ => False) s s') {c : Call} : Effect.call c ∉ newEffects s s' := by
  obtain ⟨d, hd, hq⟩ := (Extends.of_moves (N := False) env h).log
  rw [newEffects_eq hd]
  exact fun hm => hq _ hm

/-- A call that a handler starts with is one of its effects. -/
theorem mem_newEffects_of_call {C : Call → Prop} {c : Call} (h : Moves env C (s.call env c) s') :
    Effect.call c ∈ newEffects s s' := by
  obtain ⟨d, hd, -⟩ := (Extends.of_moves (N := False) env h).log
  rw [newEffects, hd]
  simp [call, emit]

/-- Which function the registry has for a command that takes a path. -/
theorem actionFor_path {command : Bytes} (h : command ∈ pathCommands) :
    ∃ a, actionFor command true = some a ∧ a.pathless = false ∧ (a = .retr ↔ command = ascii "RETR") ∧
      (a = .stor ↔ command = ascii "STOR") ∧ (a = .mdtm ↔ command = ascii "MDTM") := by
  have hrows : ∀ command ∈ pathCommands, ∃ row ∈ (scan command).toList, row.authenticatedCb.pathless = false ∧
      (row.authenticatedCb = .retr ↔ command = ascii "RETR") ∧
      (row.authenticatedCb = .stor ↔ command = ascii "STOR") ∧
      (row.authenticatedCb = .mdtm ↔ command = ascii "MDTM") := by decide
  obtain ⟨row, hrow, hs⟩ := hrows command h
  rw [Option.mem_toList] at hrow
  exact ⟨row.authenticatedCb, by simp [actionFor, lookup_registry, Option.mem_def.mp hrow], hs⟩

theorem withArg_of_args {cmd : CftpCommand} {text : String} {action : Bytes → Session σ → Session σ}
    (h : cmd.args = [p]) : s.withArg env cmd text action = action p s := by rw [withArg, h]

/-- RETR, STOR and MDTM with other than one argument only reply. -/
theorem withArg_wrong_args {cmd : CftpCommand} {text : String} {action : Bytes → Session σ → Session σ}
    (h : ∀ arg, cmd.args ≠ [arg]) : Moves env (fun _ => False) s (s.withArg env cmd text action) := by
  unfold withArg
  split
  · rename_i arg harg
    exact absurd harg (h arg)
  · exact Moves.replies .refl (by decide)

/-- The three handlers that do not check their path. -/
theorem runAction_unchecked {a : Action} {cmd : CftpCommand} (ha : a = .retr ∨ a = .stor ∨ a = .mdtm)
    (hp : p ∈ cmd.args) :
    (∃ c, c.path = p ∧ Effect.call c ∈ newEffects s (runAction env a cmd s)) ↔
      cmd.args = [p] ∧ (s.conn.dataBev ≠ none ∨ a = .mdtm) := by
  by_cases hargs : ∃ arg, cmd.args = [arg]
  · obtain ⟨arg, harg⟩ := hargs
    have hpa : p = arg := by rw [harg] at hp; exact List.mem_singleton.mp hp
    subst hpa
    simp only [harg, true_and]
    rcases ha with rfl | rfl | rfl
    · have heq : runAction env .retr cmd s = s.cftpSendFile env p := withArg_of_args env harg
      rw [heq]
      cases hb : s.conn.dataBev with
      | none => simp [Moves.cftpSendFile_none hb, newEffects]
      | some b =>
        have hx : Moves env (fun _ => True) _ (s.cftpSendFile env p) := Moves.cftpSendFile_call hb
        simp only [ne_eq, reduceCtorEq, not_false_eq_true, true_or, iff_true]
        exact ⟨.openRead p, rfl, mem_newEffects_of_call env hx⟩
    · have heq : runAction env .stor cmd s = s.cftpRecvFileWithEvbuffer env p := withArg_of_args env harg
      rw [heq]
      cases hb : s.conn.dataBev with
      | none =>
        have hx : Moves env (fun _ => False) s (s.cftpRecvFileWithEvbuffer env p) :=
          Moves.cftpRecvFileWithEvbuffer_none .refl hb
        simp only [ne_eq, not_true_eq_false, reduceCtorEq, or_self, iff_false]
        rintro ⟨c, -, hc⟩
        exact no_call_of_moves env hx hc
      | some b =>
        have hx : Moves env (fun _ => True) _ (s.cftpRecvFileWithEvbuffer env p) :=
          Moves.cftpRecvFileWithEvbuffer_call hb
        simp only [ne_eq, reduceCtorEq, not_false_eq_true, true_or, iff_true]
        exact ⟨.openWrite p, rfl, mem_newEffects_of_call env hx⟩
    · have heq : runAction env .mdtm cmd s = s.handleMdtmCommand env p := withArg_of_args env harg
      have hx : Moves env (fun _ => True) _ (s.handleMdtmCommand env p) := Moves.handleMdtmCommand_call
      rw [heq]
      simp only [or_true, iff_true]
      exact ⟨.stat p, rfl, mem_newEffects_of_call env hx⟩
  · have hx : Moves env (fun _ => False) s (runAction env a cmd s) := by
      rcases ha with rfl | rfl | rfl <;> exact withArg_wrong_args env fun arg h => hargs ⟨arg, h⟩
    constructor
    · rintro ⟨c, -, hc⟩
      exact absurd hc (no_call_of_moves env hx)
    · rintro ⟨h, -⟩
      exact absurd ⟨p, h⟩ hargs

end Calls

/-- **Path traversal.** In a session that is logged in, a command with a path that has a `..` component makes no call on
that path, exactly when it is not one of those that go ahead unchecked. -/
theorem traversal_refused_iff {s : Session σ} {chunk p : Bytes} (hrun : s.ended = none)
    (hauth : s.conn.authenticated = true) (hchunk : chunk ≠ []) (hcmd : (commandOf s chunk).command ∈ pathCommands)
    (hp : p ∈ (commandOf s chunk).args) (ht : Traverses p) :
    (∀ c, Effect.call c ∈ newEffects s (step env (.controlRead chunk) s) → c.path ≠ p) ↔
      ¬ Unchecked (commandOf s chunk).command (commandOf s chunk).args p s.conn.dataBev := by
  obtain ⟨a, ha, hpath, hretr, hstor, hmdtm⟩ := actionFor_path hcmd
  have hlen : p.length < PATH_MAX := Nat.lt_of_le_of_lt (length_of_mem_args hp) (by decide)
  have hstep : step env (.controlRead chunk) s = runAction env a (commandOf s chunk) (received s chunk) := by
    have hh : handlerOf s chunk = some a := by rw [handlerOf, hauth]; exact ha
    rw [step_handle hrun, handle, if_neg hchunk]
    change runCommand env chunk s = _
    rw [runCommand, hh]
  have hnew : newEffects s (step env (.controlRead chunk) s) =
      newEffects (received s chunk) (runAction env a (commandOf s chunk) (received s chunk)) := by rw [hstep]; rfl
  rw [hnew]
  rw [Unchecked, ← hretr, ← hstor, ← hmdtm]
  by_cases hu : a = .retr ∨ a = .stor ∨ a = .mdtm
  · have hiff := runAction_unchecked env (s := received s chunk) hu hp
    constructor
    · rintro h ⟨hargs, hk⟩
      obtain ⟨c, hcp, hc⟩ := hiff.mpr ⟨hargs, hk.imp_left fun hk => hk.2⟩
      exact h c hc hcp
    · intro h c hc hcp
      obtain ⟨hargs, hk⟩ := hiff.mp ⟨c, hcp, hc⟩
      refine h ⟨hargs, ?_⟩
      rcases hu with hu | hu | hu
      · exact hk.imp_left fun hk => ⟨.inl hu, hk⟩
      · exact hk.imp_left fun hk => ⟨.inr hu, hk⟩
      · exact .inr hu
  · have hx : Moves env (fun _ => False) (received s chunk) (runAction env a (commandOf s chunk) (received s chunk)) :=
      runAction_refuses env hpath ⟨fun h => hu (.inl h), fun h => hu (.inr (.inl h)), fun h => hu (.inr (.inr h))⟩
        hlen hp ht
    refine iff_of_true (fun c hc => absurd hc (no_call_of_moves env hx)) ?_
    rintro ⟨-, ⟨hk | hk, -⟩ | hk⟩
    · exact hu (.inl hk)
    · exact hu (.inr (.inl hk))
    · exact hu (.inr (.inr hk))

/-- CWD with a path of that kind: no call is made. -/
theorem cwd_traversal_refused :
    Traverses (ascii "a/..") ∧ ∀ c, Effect.call c ∈ newEffects (aliceSession Env.permissive [])
      (step Env.permissive (.controlRead (ascii "CWD \"a/..\"\r\n")) (aliceSession Env.permissive [])) →
        c.path ≠ ascii "a/.." := by
  refine ⟨by decide, (traversal_refused_iff Env.permissive (by decide) (by decide) (by decide) (by decide) (by decide)
    (by decide)).mpr ?_⟩
  rintro ⟨-, ⟨h | h, -⟩ | h⟩ <;> revert h <;> decide

/-- RETR of `../x` on a data connection opens it. -/
theorem retr_traverses :
    ¬ ∀ (σ : Type) (env : Env σ) (s : Session σ) (chunk p : Bytes), s.ended = none → s.conn.authenticated = true →
      chunk ≠ [] → (commandOf s chunk).command ∈ pathCommands → p ∈ (commandOf s chunk).args → Traverses p →
      ∀ c, Effect.call c ∈ newEffects s (step env (.controlRead chunk) s) → c.path ≠ p := by
  intro h
  refine h Unit Env.permissive
    (aliceSession Env.permissive [.controlRead (ascii "PASV\r\n"), .accept 1 9 (.inet 127 0 0 1)])
    (ascii "RETR ../x\r\n") (ascii "../x") ?_ ?_ ?_ ?_ ?_ ?_ (.openRead (ascii "../x")) ?_ rfl
  all_goals decide

end CftpServer.Session
