import CftpServer.Config.Manager
import Mathlib.Logic.Function.Basic

/-!
# The default configuration file (`config_manager/config_manager.c`)

`seed_default_config_if_missing` writes the default text to a file of its own and renames it. Its calls can fail at any
point and a write can be partial: `Outcomes` says what they do.

* `seedDefaultConfigIfMissing_all_or_nothing`: in the end there is the whole text or what was there before
-/

namespace CftpServer.Config

open CLib

def CFTP_SERVER_CONFIG_FILE : Bytes := ascii "/etc/cftp_server.conf"

/-- `content`. -/
def defaultConfig : Bytes :=
  ["# cftp server configuration (directive=value, '#' for comments)\n",
    "\n# Limits and timeouts\n",
    "max_connections=10000\n",
    "connection_accept_timeout=60\n",
    "data_connection_accept_timeout=9\n",
    "\n# Ports range (IANA dynamic/private ports)\n",
    "passive_port_start=40000\n",
    "passive_port_end=41000\n",
    "port=21\n",
    "\n# Identity\n",
    "server_name=Harkirat's CFTP Server\n",
    "\n# TLS settings\n",
    "\n# Certificate paths (adjust per distro)\n",
    "ssl_cert_file=/etc/ssl/certs/cftp_server.crt\n",
    "ssl_key_file=/etc/ssl/private/cftp_server.key\n"].flatMap ascii

/-! ## The calls -/

/-- What a path names: a file with its mode and its bytes, or something that is no regular file. -/
inductive Entry where
  | file (mode : Nat) (content : Bytes)
  | other (mode : Nat)
deriving DecidableEq, Repr

abbrev Files := Bytes → Option Entry

/-- `stat`: the path is there, it is not (`ENOENT`), or the call fails. -/
inductive Stat where
  | found
  | missing
  | failed
deriving DecidableEq, Repr

/-- What the calls do: the letters `mkstemp` puts in place of the `X`, the bytes each `write` takes, and whether the
others succeed; `none` is a failure. -/
structure Outcomes where
  stat : Stat
  mkstemp : Option Bytes
  fchmod : Bool
  writes : List (Option Nat)
  fsync : Bool
  close : Bool
  rename : Bool
deriving DecidableEq, Repr

/-- `mkstemp`: an empty file under a name that was free. -/
def mkstemp (letters : Option Bytes) (path : Bytes) (fs : Files) : Option (Bytes × Files) :=
  letters.bind fun letters =>
    let tmpPath := path ++ ascii ".tmp." ++ letters
    if (fs tmpPath).isNone then some (tmpPath, Function.update fs tmpPath (some (.file 0o600 []))) else none

def fchmod (tmpPath : Bytes) (mode : Nat) (fs : Files) : Files :=
  match fs tmpPath with
  | some (.file _ content) => Function.update fs tmpPath (some (.file mode content))
  | _ => fs

/-- `write` at the end of the file. -/
def write (tmpPath : Bytes) (bytes : Bytes) (fs : Files) : Files :=
  match fs tmpPath with
  | some (.file mode content) => Function.update fs tmpPath (some (.file mode (content ++ bytes)))
  | _ => fs

def unlink (tmpPath : Bytes) (fs : Files) : Files := Function.update fs tmpPath none

def rename (tmpPath path : Bytes) (fs : Files) : Files := unlink tmpPath (Function.update fs path (fs tmpPath))

/-! ## Seeding -/

/-- `while (to_write > 0)`: whether all was written; `none` if the writes do not come to an end. -/
def writeLoop (tmpPath : Bytes) : List (Option Nat) → Bytes → Files → Option (Bool × Files)
  | _, [], fs => some (true, fs)
  | [], _ :: _, _ => none
  | none :: _, _ :: _, fs => some (false, fs)
  | some w :: writes, c :: p, fs => writeLoop tmpPath writes ((c :: p).drop w) (write tmpPath ((c :: p).take w) fs)

/-- `seed_default_config_if_missing`, up to the `fsync` of the directory, whose failure is ignored; `none` if it does
not return. -/
def seedDefaultConfigIfMissing (o : Outcomes) (pathOpt : Option Bytes) (fs : Files) : Option (Int × Files) :=
  let path := pathOpt.getD CFTP_SERVER_CONFIG_FILE
  match o.stat with
  | .found => some (1, fs)
  | .failed => some (-1, fs)
  | .missing =>
    if path.length ≥ PATH_MAX - 16 then some (-1, fs)
    else
      match mkstemp o.mkstemp path fs with
      | none => some (-1, fs)
      | some (tmpPath, fs) =>
        if !o.fchmod then some (-1, unlink tmpPath fs)
        else
          match writeLoop tmpPath o.writes defaultConfig (fchmod tmpPath 0o644 fs) with
          | none => none
          | some (false, fs) => some (-1, unlink tmpPath fs)
          | some (true, fs) =>
            if !o.fsync then some (-1, unlink tmpPath fs)
            else if !o.close then some (-1, unlink tmpPath fs)
            else if !o.rename then some (-1, unlink tmpPath fs)
            else some (0, rename tmpPath path fs)

/-! ## The file that is written -/

/-- `fs'` is `fs` but for the path. -/
def SameBut (path : Bytes) (fs fs' : Files) : Prop := ∀ p, p ≠ path → fs' p = fs p

theorem SameBut.refl (path : Bytes) (fs : Files) : SameBut path fs fs := fun _ _ => rfl

theorem SameBut.trans {path : Bytes} {fs fs' fs'' : Files} (h : SameBut path fs fs') (h' : SameBut path fs' fs'') :
    SameBut path fs fs'' := fun p hp => (h' p hp).trans (h p hp)

theorem sameBut_update (path : Bytes) (fs : Files) (e : Option Entry) : SameBut path fs (Function.update fs path e) :=
  fun _ hp => Function.update_of_ne hp e fs

/-- A path that was free is free again once it is unlinked. -/
theorem SameBut.unlink {tmpPath : Bytes} {fs fs' : Files} (h : SameBut tmpPath fs fs') (hfree : fs tmpPath = none) :
    unlink tmpPath fs' = fs := by
  funext p
  by_cases hp : p = tmpPath
  · rw [hp, Config.unlink, Function.update_self, hfree]
  · rw [Config.unlink, Function.update_of_ne hp, h p hp]

theorem mkstemp_spec {letters : Option Bytes} {path tmpPath : Bytes} {fs fs' : Files}
    (h : mkstemp letters path fs = some (tmpPath, fs')) :
    tmpPath ≠ path ∧ fs tmpPath = none ∧ SameBut tmpPath fs fs' ∧ fs' tmpPath = some (.file 0o600 []) := by
  obtain ⟨l, -, h⟩ := Option.bind_eq_some_iff.mp h
  simp only [Option.ite_none_right_eq_some, Option.some.injEq, Prod.mk.injEq, Option.isNone_iff_eq_none] at h
  obtain ⟨hfree, rfl, rfl⟩ := h
  refine ⟨fun heq => ?_, hfree, sameBut_update _ fs _, Function.update_self _ _ _⟩
  have := congrArg List.length heq
  simp [ascii] at this

theorem fchmod_file {tmpPath content : Bytes} {mode : Nat} {fs : Files} (h : fs tmpPath = some (.file mode content))
    (mode' : Nat) : fchmod tmpPath mode' fs = Function.update fs tmpPath (some (.file mode' content)) := by
  simp only [fchmod, h]

theorem write_file {tmpPath content : Bytes} {mode : Nat} {fs : Files} (h : fs tmpPath = some (.file mode content))
    (bytes : Bytes) : write tmpPath bytes fs = Function.update fs tmpPath (some (.file mode (content ++ bytes))) := by
  simp only [write, h]

/-- The loop writes to the one file, and at its end all of the text, whatever the writes took. -/
theorem writeLoop_spec {tmpPath : Bytes} {mode : Nat} : ∀ {writes : List (Option Nat)} {p content : Bytes}
    {fs fs' : Files} {done : Bool}, fs tmpPath = some (.file mode content) →
    writeLoop tmpPath writes p fs = some (done, fs') →
    SameBut tmpPath fs fs' ∧ (done = true → fs' tmpPath = some (.file mode (content ++ p)))
  | _, [], content, fs, _, _, hfs, h => by
    simp only [writeLoop, Option.some.injEq, Prod.mk.injEq] at h
    obtain ⟨rfl, rfl⟩ := h
    exact ⟨SameBut.refl _ _, fun _ => by rw [hfs, List.append_nil]⟩
  | [], _ :: _, _, _, _, _, _, h => by simp [writeLoop] at h
  | none :: _, _ :: _, _, _, _, _, _, h => by
    simp only [writeLoop, Option.some.injEq, Prod.mk.injEq] at h
    obtain ⟨rfl, rfl⟩ := h
    exact ⟨SameBut.refl _ _, fun h => by cases h⟩
  | some w :: writes, c :: p, content, fs, fs', done, hfs, h => by
    rw [writeLoop, write_file hfs] at h
    obtain ⟨hsame, hall⟩ := writeLoop_spec (Function.update_self _ _ _) h
    refine ⟨(sameBut_update _ _ _).trans hsame, fun hdone => ?_⟩
    rw [hall hdone, List.append_assoc, List.take_append_drop]

/-- The file in its name's place, and the name gone. -/
theorem rename_spec {tmpPath path : Bytes} {fs fs' : Files} (hne : tmpPath ≠ path) (h : SameBut tmpPath fs fs')
    (hfree : fs tmpPath = none) :
    rename tmpPath path fs' path = fs' tmpPath ∧ SameBut path fs (rename tmpPath path fs') := by
  constructor
  · rw [rename, unlink, Function.update_of_ne hne.symm, Function.update_self]
  · intro p hp
    by_cases htmp : p = tmpPath
    · rw [rename, unlink, htmp, Function.update_self, hfree]
    · rw [rename, unlink, Function.update_of_ne htmp, Function.update_of_ne hp, h p htmp]

/-! ## All or nothing -/

/-- **Seeding is all or nothing.** Whatever the calls do, when it returns: with 0 the target is a file with the whole
default text and nothing else has changed, with anything else nothing has changed. -/
theorem seedDefaultConfigIfMissing_all_or_nothing {o : Outcomes} {pathOpt : Option Bytes} {fs fs' : Files}
    {result : Int} (h : seedDefaultConfigIfMissing o pathOpt fs = some (result, fs')) :
    (result = 0 → fs' (pathOpt.getD CFTP_SERVER_CONFIG_FILE) = some (.file 0o644 defaultConfig) ∧
      ∀ p, p ≠ pathOpt.getD CFTP_SERVER_CONFIG_FILE → fs' p = fs p) ∧
    (result ≠ 0 → fs' = fs) := by
  -- a failure that leaves the files as they were
  have hfailed : ∀ {r : Int} {fs₁ : Files}, some (r, fs₁) = some (result, fs') → r ≠ 0 → fs₁ = fs →
      (result = 0 → fs' (pathOpt.getD CFTP_SERVER_CONFIG_FILE) = some (.file 0o644 defaultConfig) ∧
        ∀ p, p ≠ pathOpt.getD CFTP_SERVER_CONFIG_FILE → fs' p = fs p) ∧ (result ≠ 0 → fs' = fs) := by
    intro r fs₁ heq hr hfs
    simp only [Option.some.injEq, Prod.mk.injEq] at heq
    obtain ⟨rfl, rfl⟩ := heq
    exact ⟨fun h => (hr h).elim, fun _ => hfs⟩
  unfold seedDefaultConfigIfMissing at h
  cases hstat : o.stat with
  | found =>
    simp only [hstat] at h
    exact hfailed h (by decide) rfl
  | failed =>
    simp only [hstat] at h
    exact hfailed h (by decide) rfl
  | missing =>
    simp only [hstat] at h
    split at h
    · exact hfailed h (by decide) rfl
    cases htemp : mkstemp o.mkstemp (pathOpt.getD CFTP_SERVER_CONFIG_FILE) fs with
    | none =>
      simp only [htemp] at h
      exact hfailed h (by decide) rfl
    | some created =>
      obtain ⟨tmpPath, fs₁⟩ := created
      obtain ⟨hne, hfree, hsame₁, hfile₁⟩ := mkstemp_spec htemp
      simp only [htemp] at h
      split at h
      · exact hfailed h (by decide) (hsame₁.unlink hfree)
      cases hwrite : writeLoop tmpPath o.writes defaultConfig (fchmod tmpPath 0o644 fs₁) with
      | none =>
        simp only [hwrite] at h
        cases h
      | some written =>
        obtain ⟨done, fs₂⟩ := written
        rw [fchmod_file hfile₁] at hwrite
        obtain ⟨hsame₂, hall⟩ := writeLoop_spec (Function.update_self _ _ _) hwrite
        rw [List.nil_append] at hall
        have hsame : SameBut tmpPath fs fs₂ := (hsame₁.trans (sameBut_update _ _ _)).trans hsame₂
        rw [← fchmod_file hfile₁] at hwrite
        simp only [hwrite] at h
        cases done with
        | false => exact hfailed h (by decide) (hsame.unlink hfree)
        | true =>
          simp only at h
          split at h
          · exact hfailed h (by decide) (hsame.unlink hfree)
          split at h
          · exact hfailed h (by decide) (hsame.unlink hfree)
          split at h
          · exact hfailed h (by decide) (hsame.unlink hfree)
          · simp only [Option.some.injEq, Prod.mk.injEq] at h
            obtain ⟨rfl, rfl⟩ := h
            obtain ⟨htarget, hothers⟩ := rename_spec hne hsame hfree
            exact ⟨fun _ => ⟨htarget.trans (hall rfl), hothers⟩, fun h => (h rfl).elim⟩

/-- All calls succeed, and the text takes three writes. -/
def threeWrites : Outcomes where
  stat := .missing
  mkstemp := some (ascii "a1B2c3")
  fchmod := true
  writes := [some 100, some 0, some 1000]
  fsync := true
  close := true
  rename := true

/-- A partial write is resumed. -/
theorem seedDefaultConfigIfMissing_threeWrites :
    ∃ fs', seedDefaultConfigIfMissing threeWrites none (fun _ => none) = some (0, fs') ∧
      fs' CFTP_SERVER_CONFIG_FILE = some (.file 0o644 defaultConfig) := by
  have hreturns : (seedDefaultConfigIfMissing threeWrites none fun _ => none).map Prod.fst = some 0 := by
    decide +kernel
  obtain ⟨⟨result, fs'⟩, h, rfl⟩ := Option.map_eq_some_iff.mp hreturns
  exact ⟨fs', h, ((seedDefaultConfigIfMissing_all_or_nothing h).1 rfl).1⟩

end CftpServer.Config
