import CftpServer.Command.Parser
import CftpServer.HashMap.FiniteMap

/-!
# The command table and its registry (`actions/command_actions.h`, `engine/command_parser.c`)

`commandActions` is the table of the header: a name and the two callbacks, for clients that are logged in and for those
that are not. `initializeExecutionEngine` puts every row into a new hash table, and `execute_ftp_command` looks the
command word up there. `lookup_registry`: the hash table answers as a scan of the table.
-/

namespace CftpServer.Command

open CLib HashMap

/-- The functions of `command_actions.c` that the table names. -/
inductive Action where
  | syst | quit | auth | pbsz | prot | noop | feat
  | type | epsv | pasv | nlst | list | size | retr | stor | mdtm | cwd | pwd | abor | mkd | rmd | dele
  | nonAuthenticated | user | pass | authenticated
deriving DecidableEq, Repr

/-- The actions that make no call on a path. -/
def Action.pathless : Action → Bool
  | nlst | list | size | retr | stor | mdtm | cwd | mkd | rmd | dele => false
  | _ => true

/-- `command_action`. -/
structure CommandAction where
  action : Bytes
  authenticatedCb : Action
  nonAuthenticatedCb : Action
deriving DecidableEq, Repr

/-- `ADD_COMMAND_WITH_SAME_ACTION`. -/
def addCommandWithSameAction (command : String) (function : Action) : CommandAction :=
  ⟨ascii command, function, function⟩

/-- `ADD_COMMAND_WITH_DIFF_ACTION`. -/
def addCommandWithDiffAction (command : String) (authenticatedFunction nonAuthenticatedFunction : Action) :
    CommandAction :=
  ⟨ascii command, authenticatedFunction, nonAuthenticatedFunction⟩

/-- `command_actions`. -/
def commandActions : List CommandAction := [
  -- authenticated and non authenticated
  addCommandWithSameAction "SYST" .syst,
  addCommandWithSameAction "QUIT" .quit,
  addCommandWithSameAction "AUTH" .auth,
  addCommandWithSameAction "PBSZ" .pbsz,
  addCommandWithSameAction "PROT" .prot,
  addCommandWithSameAction "NOOP" .noop,
  addCommandWithSameAction "FEAT" .feat,
  -- authenticated only
  addCommandWithDiffAction "TYPE" .type .nonAuthenticated,
  addCommandWithDiffAction "EPSV" .epsv .nonAuthenticated,
  addCommandWithDiffAction "PASV" .pasv .nonAuthenticated,
  addCommandWithDiffAction "NLST" .nlst .nonAuthenticated,
  addCommandWithDiffAction "LIST" .list .nonAuthenticated,
  addCommandWithDiffAction "SIZE" .size .nonAuthenticated,
  addCommandWithDiffAction "RETR" .retr .nonAuthenticated,
  addCommandWithDiffAction "STOR" .stor .nonAuthenticated,
  addCommandWithDiffAction "MDTM" .mdtm .nonAuthenticated,
  addCommandWithDiffAction "CWD" .cwd .nonAuthenticated,
  addCommandWithDiffAction "PWD" .pwd .nonAuthenticated,
  addCommandWithDiffAction "ABOR" .abor .nonAuthenticated,
  addCommandWithDiffAction "MKD" .mkd .nonAuthenticated,
  addCommandWithDiffAction "RMD" .rmd .nonAuthenticated,
  addCommandWithDiffAction "DELE" .dele .nonAuthenticated,
  -- non authenticated only
  addCommandWithDiffAction "USER" .authenticated .user,
  addCommandWithDiffAction "PASS" .authenticated .pass]

/-- `register_command`: the registry after it and the value of `insert_entry`. -/
def registerCommand (registry : HashTable CommandAction) (a : CommandAction) : Option (HashTable CommandAction × Nat) :=
  insertEntry registry a.action (some a)

/-- The loop of `initialize_execution_engine`; a row that cannot be registered ends the process. -/
def registerAll : List CommandAction → HashTable CommandAction → Option (HashTable CommandAction)
  | [], registry => some registry
  | a :: as, registry =>
    match registerCommand registry a with
    | some (registry, r) => if r = HASH_ENTRY_FAILED then none else registerAll as registry
    | none => none

/-- `initialize_execution_engine`: the command registry. -/
def initializeExecutionEngine : Option (HashTable CommandAction) := registerAll commandActions createHashTable

/-- `get_ptr_to_value_by_key(command_registry, command)`. -/
def lookupRegistry (command : Bytes) : Option CommandAction :=
  initializeExecutionEngine.bind fun registry => (getPtrToValueByKey registry command).join

/-- The row a scan of the table finds. -/
def scan (command : Bytes) : Option CommandAction := commandActions.find? fun a => a.action = command

/-- Registering a list of rows replays their insertions. -/
theorem registerAll_spec (as : List CommandAction) : ∀ {registry : HashTable CommandAction} {m : Map CommandAction},
    Represents registry m → ∃ registry', registerAll as registry = some registry' ∧
      Represents registry' (replay (as.map fun a => .insert a.action (some a)) m) := by
  induction as with
  | nil => intro registry m h; exact ⟨registry, rfl, h⟩
  | cons a as ih =>
    intro registry m h
    obtain ⟨t, r, hc, ht, hr, -⟩ := insertEntry_spec h a.action (some a)
    obtain ⟨t', ht', h'⟩ := ih ht
    have hne : r ≠ HASH_ENTRY_FAILED := by rintro rfl; exact hr rfl
    refine ⟨t', ?_, h'⟩
    simp only [registerAll, registerCommand, hc, if_neg hne, ht']

/-- Replaying the rows of a table in which no name comes twice gives the row of every name. -/
theorem replay_rows (as : List CommandAction) (hnd : (as.map CommandAction.action).Nodup) (k : Bytes) :
    ∀ m : Map CommandAction, replay (as.map fun a => .insert a.action (some a)) m k =
      match as.find? fun a => a.action = k with
      | some a => some (some a)
      | none => m k := by
  induction as with
  | nil => intro m; rfl
  | cons a as ih =>
    intro m
    rw [List.map_cons, List.nodup_cons] at hnd
    simp only [List.map_cons, replay, Op.replay, ih hnd.2, List.find?_cons]
    by_cases hk : a.action = k
    · have hno : as.find? (fun a => a.action = k) = none := by
        rw [List.find?_eq_none]
        intro b hb hbk
        rw [decide_eq_true_iff] at hbk
        exact hnd.1 (List.mem_map.mpr ⟨b, hb, by rw [hbk, hk]⟩)
      simp [hk, hno]
    · simp only [hk, decide_false]
      cases as.find? fun a => a.action = k with
      | some b => rfl
      | none => simp [Function.update_of_ne (Ne.symm hk)]

/-- **Dispatch.** Looking a command up in the registry is scanning the table for it. -/
theorem lookup_registry (command : Bytes) : lookupRegistry command = scan command := by
  obtain ⟨t, ht, h⟩ := registerAll_spec commandActions createHashTable_represents
  have hrow := replay_rows commandActions (by decide) command fun _ => none
  rw [lookupRegistry, initializeExecutionEngine, ht, Option.bind_some, getPtrToValueByKey_eq h, hrow, scan]
  cases commandActions.find? fun a => a.action = command <;> rfl

end CftpServer.Command
