import CftpServer.Session.Jail

/-!
# Calls that change what is there

What `mkdir`, `rmdir`, `unlink` and `open` for writing have done when they succeed, and that nothing else changes the
entries of a `System` (`after_entries`).
-/

namespace CftpServer

open CLib FileTree

/-- Calls that leave the entries alone. -/
def Call.keepsEntries : Call → Bool
  | .openWrite _ | .unlink _ | .mkdir _ | .rmdir _ => false
  | _ => true

/-- Calls that make new entries. -/
def Call.adds : Call → Bool
  | .openWrite _ | .mkdir _ => true
  | _ => false

namespace System

variable {env : Env Moment} {w w' : System} {p : Proc} {path : Bytes} {l : List Name} {c : Call} {e : Effect}
  {x : Option (List Name)} {f : List Name → FileStore.Change Name UInt8}

/-- The number of the file that a path leads to. -/
def fileNumber (w : System) (p : Proc) (path : Bytes) : Option Nat := (w.fileAt p path).map w.files.number

theorem after_permitted (h : permits env w.moment p c = true) :
    System.after env w p (.call c) = { w.call p c with ticks := w.ticks + 1 } := by
  simp only [System.after, h, if_true]

theorem after_refused (h : permits env w.moment p c = false) :
    System.after env w p (.call c) = { w with opening := none, ticks := w.ticks + 1 } := by
  simp only [System.after, h, Bool.false_eq_true, if_false]

/-- A call that changes nothing, if it is not refused, changes nothing. -/
theorem after_files_of_none (h : permits env w.moment p c = true → (w.upshot p c).change = none) :
    (System.after env w p (.call c)).files = w.files := by
  cases hpermits : permits env w.moment p c with
  | false => rw [after_refused hpermits]
  | true =>
    rw [after_permitted hpermits]
    simp only [call, h hpermits, changed, Option.elim_none]

/-- A call for the sake of a change at a place, if there is one for it, -/
theorem after_files_of_done (hc : (w.upshot p c).change = x.map f)
    (h : (permits env w.moment p c && x.isSome) = true) :
    ∃ l, x = some l ∧ (System.after env w p (.call c)).files = w.files.apply (f l) := by
  rw [Bool.and_eq_true, Option.isSome_iff_exists] at h
  obtain ⟨hpermits, l, rfl⟩ := h
  refine ⟨l, rfl, ?_⟩
  rw [after_permitted hpermits]
  simp only [call, hc, Option.map_some, changed, Option.elim_some]

/-- and if it is refused. -/
theorem after_files_of_not_done (hc : (w.upshot p c).change = x.map f)
    (h : (permits env w.moment p c && x.isSome) = false) : (System.after env w p (.call c)).files = w.files := by
  refine after_files_of_none fun hpermits => ?_
  rw [hpermits, Bool.true_and, Option.isSome_eq_false_iff, Option.isNone_iff_eq_none] at h
  rw [hc, h, Option.map_none]

/-- Looking changes no file. -/
theorem after_files_of_keepsEntries (hc : c.keepsEntries = true) : (System.after env w p (.call c)).files = w.files := by
  refine after_files_of_none fun _ => ?_
  cases c with
  | openWrite | unlink | mkdir | rmdir => cases hc
  | _ => rfl

theorem store_entries (w : System) (fd : Int) (bytes : Bytes) : (w.store fd bytes).files.entries = w.files.entries := by
  unfold store
  split <;> rfl

/-- **Nothing else changes the entries.** -/
theorem after_entries (he : ∀ c, e = .call c → c.keepsEntries = true) :
    (System.after env w p e).files.entries = w.files.entries := by
  cases e with
  | call c => rw [after_files_of_keepsEntries (he c rfl)]
  | store b tls fd bytes => exact store_entries w fd bytes
  | _ => rfl

/-- Without new entries there are only fewer. -/
theorem after_le (he : ∀ c, e = .call c → c.adds = false) : (System.after env w p e).files.tree ≤ w.files.tree ∧
    (System.after env w p e).files.number = w.files.number := by
  by_cases hkeeps : ∀ c, e = .call c → c.keepsEntries = true
  · have hentries : (System.after env w p e).files.entries = w.files.entries := after_entries hkeeps
    exact ⟨le_of_eq (congrArg (·.1) hentries), congrArg (·.2.1) hentries⟩
  · rw [not_forall] at hkeeps
    obtain ⟨c, hkeeps⟩ := hkeeps
    rw [Classical.not_imp] at hkeeps
    obtain ⟨rfl, hkeeps⟩ := hkeeps
    have hremoves : ∃ x : Option (List Name), (w.upshot p c).change = x.map .remove := by
      cases c with
      | unlink path => exact ⟨w.unlinks p path, rfl⟩
      | rmdir path => exact ⟨w.rmdirs p path, rfl⟩
      | openWrite | mkdir => cases he _ rfl
      | _ => exact absurd rfl hkeeps
    obtain ⟨x, hx⟩ := hremoves
    cases hdone : permits env w.moment p c && x.isSome with
    | false =>
      rw [after_files_of_not_done hx hdone]
      exact ⟨le_rfl, rfl⟩
    | true =>
      obtain ⟨l, -, hfiles⟩ := after_files_of_done hx hdone
      rw [hfiles]
      exact ⟨Tree.remove_le, rfl⟩

/-! ## Directories that are made -/

theorem takes_insert {t : Disk} {k : Node Name} (h : Takes t p path) : Takes (t.insert l k) p path := by
  have hnode : ∀ {l' : List Name}, t.node l' = some .dir → (t.insert l k).node l' = some .dir := by
    intro l' hl'
    rw [Tree.node_insert_of_ne_none (by rw [hl']; exact Option.some_ne_none _), hl']
  obtain ⟨h₁, h₂, h₃, h₄⟩ := h
  exact ⟨h₁, h₂, hnode h₃, hnode h₄⟩

/-- A `mkdir` that succeeds has made the directory that its path then leads to. -/
theorem mkdir_made (h : (onStore env).mkdir w p path = true) : ∃ l, w.files.tree.Vacant l ∧
    (System.after env w p (.call (.mkdir path))).files = w.files.makeDir l ∧
    (System.after env w p (.call (.mkdir path))).directoryAt p path = some l := by
  obtain ⟨l, hl, hfiles⟩ := after_files_of_done (c := .mkdir path) rfl h
  obtain ⟨q, rest, hway, htakes, hmiss⟩ := makes_eq_some_iff.mp hl
  have hv := hmiss.vacant htakes.2.2.1 htakes.2.2.2
  refine ⟨l, hv, hfiles, ?_⟩
  have hway' : (System.after env w p (.call (.mkdir path))).way p path = .goesOn q rest := by
    rw [after_permitted (c := .mkdir path) (Bool.and_eq_true_iff.mp h).1]
    exact hway
  have hself : (w.files.tree.insert l .dir).node l = some .dir := Tree.node_insert_self hv
  have hentry : entryOf (w.files.tree.insert l .dir) q rest = some l :=
    entryOf_eq_some_iff.mpr ⟨takes_insert htakes, hmiss.leads hv (.inr rfl)⟩
  rw [directoryAt_eq_some_iff, leadsTo_eq_some_iff, hfiles]
  exact ⟨⟨q, rest, hway', resolve_of_entryOf hentry hself⟩, hself⟩

theorem mkdir_refused (h : (onStore env).mkdir w p path = false) :
    (System.after env w p (.call (.mkdir path))).files = w.files :=
  after_files_of_not_done (c := .mkdir path) (x := w.makes p path) rfl h

/-! ## Entries that are removed -/

/-- An `rmdir` that succeeds has removed an empty directory. -/
theorem rmdir_removed (h : (onStore env).rmdir w p path = true) : ∃ l, w.rmdirs p path = some l ∧
    (System.after env w p (.call (.rmdir path))).files = w.files.remove l ∧ l ≠ [] ∧ w.files.tree.names l = [] := by
  obtain ⟨l, hl, hfiles⟩ := after_files_of_done (c := .rmdir path) rfl h
  refine ⟨l, hl, hfiles, ?_⟩
  obtain ⟨q, rest, -, hl⟩ := onWay_eq_some_iff.mp hl
  exact ⟨rmdirs_ne_nil hl, (rmdirs_eq_some_iff.mp hl).2.2.2⟩

theorem rmdir_refused (h : (onStore env).rmdir w p path = false) :
    (System.after env w p (.call (.rmdir path))).files = w.files :=
  after_files_of_not_done (c := .rmdir path) (x := w.rmdirs p path) rfl h

/-- An `unlink` that succeeds has removed an entry that is no directory. -/
theorem unlink_removed (h : (onStore env).unlink w p path = true) : ∃ l, w.unlinks p path = some l ∧
    (System.after env w p (.call (.unlink path))).files = w.files.remove l ∧ l ≠ [] ∧ w.files.tree.names l = [] := by
  obtain ⟨l, hl, hfiles⟩ := after_files_of_done (c := .unlink path) rfl h
  refine ⟨l, hl, hfiles, ?_⟩
  obtain ⟨q, rest, -, hl⟩ := onWay_eq_some_iff.mp hl
  obtain ⟨-, -, hdir⟩ := unlinks_eq_some_iff.mp hl
  refine ⟨?_, Tree.names_of_ne_dir hdir⟩
  rintro rfl
  exact hdir Tree.node_nil

theorem unlink_refused (h : (onStore env).unlink w p path = false) :
    (System.after env w p (.call (.unlink path))).files = w.files :=
  after_files_of_not_done (c := .unlink path) (x := w.unlinks p path) rfl h

/-! ## Files that are opened to be written -/

/-- An `open` for writing that succeeds has opened the file that its path then leads to: one that was there, emptied, or
a new one. -/
theorem openWrite_opened (h : (onStore env).openWrite w p path = true) : ∃ l,
    (System.after env w p (.call (.openWrite path))).fileAt p path = some l ∧
    (System.after env w p (.call (.openWrite path))).opening =
      some (.writing ((System.after env w p (.call (.openWrite path))).files.number l) 0) ∧
    ((w.files.tree.node l = some .file ∧
        (System.after env w p (.call (.openWrite path))).files = w.files.write (w.files.number l) []) ∨
      (w.files.tree.Vacant l ∧ (System.after env w p (.call (.openWrite path))).files = w.files.create l)) := by
  simp only [onStore, Bool.and_eq_true, Bool.or_eq_true, Option.isSome_iff_exists] at h
  obtain ⟨hpermits, hfile⟩ := h
  rw [after_permitted (c := .openWrite path) hpermits]
  cases hat : w.fileAt p path with
  | some l =>
    have hcall : w.call p (.openWrite path) =
        { w with
          files := w.files.write (w.files.number l) []
          opening := some (.writing (w.files.number l) 0) } := by
      simp only [call, upshot, hat, changed]
      rfl
    rw [hcall]
    exact ⟨l, hat, rfl, .inl ⟨(fileAt_eq_some_iff.mp hat).2, rfl⟩⟩
  | none =>
    obtain ⟨l, hl⟩ : ∃ l, w.creates p path = some l := by simpa [hat] using hfile
    obtain ⟨q, rest, hway, htakes, hmiss⟩ := creates_eq_some_iff.mp hl
    have hv := hmiss.vacant htakes.2.2.1 htakes.2.2.2
    obtain ⟨htree, hnumber, -, -⟩ := FileStore.create_of_vacant hv
    have hcall : w.call p (.openWrite path) =
        { w with files := w.files.create l, opening := some (.writing w.files.next 0) } := by
      simp only [call, upshot, hat, hl, changed]
      rfl
    rw [hcall]
    refine ⟨l, ?_, ?_, .inr ⟨hv, rfl⟩⟩
    · rw [fileAt_eq_some_iff, htree]
      refine ⟨?_, Tree.node_insert_self hv⟩
      rw [leadsTo_eq_some_iff, htree]
      exact ⟨q, rest, hway, resolve_eq_some_iff.mpr ⟨takes_insert htakes, hmiss.leads hv (.inl rfl)⟩⟩
    · simp only [hnumber, Function.update_self]

theorem openWrite_refused (h : (onStore env).openWrite w p path = false) :
    (System.after env w p (.call (.openWrite path))).files = w.files ∧
      (System.after env w p (.call (.openWrite path))).opening = none := by
  cases hpermits : permits env w.moment p (.openWrite path) with
  | false =>
    rw [after_refused hpermits]
    exact ⟨rfl, rfl⟩
  | true =>
    simp only [onStore, show env.openWrite w.moment p path = true from hpermits, Bool.true_and, Bool.or_eq_false_iff,
      Option.isSome_eq_false_iff, Option.isNone_iff_eq_none] at h
    rw [after_permitted hpermits]
    simp only [call, upshot, h.1, h.2, changed]
    exact ⟨rfl, rfl⟩

/-- The file is empty. -/
theorem openWrite_opens (h : (onStore env).openWrite w p path = true) : ∃ i,
    (System.after env w p (.call (.openWrite path))).fileNumber p path = some i ∧
      (System.after env w p (.call (.openWrite path))).files.contents i = [] ∧
      (System.after env w p (.call (.openWrite path))).opening = some (.writing i 0) := by
  obtain ⟨l, hat, hopening, hfiles⟩ := openWrite_opened h
  refine ⟨_, congrArg (Option.map _) hat, ?_, hopening⟩
  rcases hfiles with ⟨-, hfiles⟩ | ⟨hv, hfiles⟩
  · rw [hfiles, FileStore.write_contents, FileStore.write_number, Function.update_self]
  · obtain ⟨-, hnumber, hcontents, -⟩ := FileStore.create_of_vacant hv
    rw [hfiles, hcontents, hnumber, Function.update_self, Function.update_self]

end System

end CftpServer
