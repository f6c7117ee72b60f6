import CftpServer.Session.List

/-!
# DELE (`actions/dele.c`)

A file is unlinked. A directory is only deleted with `-r`, together with everything in it.
-/

namespace CftpServer.Session

open CLib Command Security

/-- `dele_args_t`. -/
structure DeleArgs where
  recursive : Bool
  force : Bool
  target : Option Bytes
deriving DecidableEq, Repr

/-- The loop of `parse_dele_params`. -/
def parseDeleLoop : List Bytes → DeleArgs → Option DeleArgs
  | [], a => some a
  | arg :: args, a =>
    if arg = ascii "-r" then parseDeleLoop args { a with recursive := true }
    else if arg = ascii "-f" then parseDeleLoop args { a with force := true }
    else if a.target.isNone then parseDeleLoop args { a with target := some arg }
    else none

/-- `parse_dele_params`: the target and the two flags `-r` and `-f`. -/
def parseDeleParams (args : List Bytes) : Option (Bytes × Bool × Bool) :=
  (parseDeleLoop args ⟨false, false, none⟩).bind fun a => a.target.map fun target => (target, a.recursive, a.force)

section

variable {σ : Type} (env : Env σ)

/-- The loop of `delete_directory_recursively` over the names of a directory, given the function for the directories
among them: whether it comes to its end. -/
def deleteEntries (sub : Bytes → Session σ → Bool × Session σ) (path : Bytes) :
    List Bytes → Session σ → Bool × Session σ
  | [], s => (true, s)
  | name :: names, s =>
    if name = ascii "." ∨ name = ascii ".." then deleteEntries sub path names s
    else
      let filepath := cut PATH_MAX (path ++ ascii "/" ++ name)
      let (st, s) := sysLstat env filepath s
      match st with
      | none => deleteEntries sub path names s
      | some st =>
        if st.isDir then
          let (ok, s) := sub filepath s
          if ok then deleteEntries sub path names s else (false, s)
        else
          let (_, s) := sysUnlink env filepath s
          deleteEntries sub path names s

/-- `delete_directory_recursively`, with room for so many nested calls: whether it returns 0. -/
def deleteDirectoryRecursively : Nat → Bytes → Session σ → Bool × Session σ
  | 0, _, s => (false, crash s)
  | depth + 1, path, s =>
    let (dir, s) := sysOpendir env path s
    match dir with
    | none => (false, s)
    | some (fd, names) =>
      let (ok, s) := deleteEntries env (deleteDirectoryRecursively depth) path names s
      if s.ended.isSome then (false, s)
      else
        let s := closeFd env fd s
        if ok then sysRmdir env path s else (false, s)

/-- The end of `handle_dele_command`. -/
def replyDeleted (deleted force : Bool) (s : Session σ) : Session σ :=
  if !deleted then
    if force then sendControlMessage env 250 (ascii "Force delete: error ignored.") s
    else sendControlMessage env 550 (ascii "Failed to delete.") s
  else sendControlMessage env 250 (ascii "Delete successful.") s

/-- `handle_dele_command`, for a target that passed the checks. -/
def deleteTarget (target : Bytes) (recursive force : Bool) (s : Session σ) : Session σ :=
  let (st, s) := sysStat env target s
  match st with
  | none =>
    if force then sendControlMessage env 250 (ascii "Force delete: file does not exist.") s
    else sendControlMessage env 550 (ascii "File not found.") s
  | some st =>
    if st.isDir then
      if !recursive then
        sendControlMessage env 550 (ascii "Target is a directory. Use -r to delete recursively.") s
      else
        let (deleted, s) := deleteDirectoryRecursively env env.stack target s
        s.andThen (replyDeleted env deleted force)
    else
      let (deleted, s) := sysUnlink env target s
      replyDeleted env deleted force s

/-- `handle_dele_command`. -/
def handleDeleCommand (command : CftpCommand) (s : Session σ) : Session σ :=
  match parseDeleParams command.args with
  | none => sendControlMessage env 501 (ascii "Invalid arguments for DELE.") s
  | some (target, recursive, force) =>
    if !isPathSafe target then sendControlMessage env 550 (ascii "Invalid path") s
    else deleteTarget env target recursive force s

end

end CftpServer.Session
