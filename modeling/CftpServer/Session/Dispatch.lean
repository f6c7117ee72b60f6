import CftpServer.Session.Actions

/-!
# Dispatch

The word of a command line is looked up in a hash table that the start of a session has filled, row by row, from the
command table. `dispatch_is_scan`: what is called is what a scan of the command table finds.
-/

namespace CftpServer.Session

open CLib Command

variable {σ : Type} (env : Env σ)

/-- The first word of a line, in upper case. -/
def firstWord (line : Bytes) : Bytes := ((skipSpaces line).takeWhile fun c => !isspace c).map toupper

/-- The column of a row for a client that is logged in, or is not. -/
def column (authenticated : Bool) (row : CommandAction) : Action :=
  if authenticated then row.authenticatedCb else row.nonAuthenticatedCb

theorem scan_eq_none_iff {word : Bytes} : scan word = none ↔ ∀ row ∈ commandActions, row.action ≠ word := by
  simp [scan]

/-- The tokenizer cuts long words; no row has a name that long. -/
theorem scan_command (line : Bytes) : scan (parseTextCommand line).command = scan (firstWord line) := by
  by_cases hl : ((skipSpaces line).takeWhile fun c => !isspace c).length ≤ MAX_ARG_LEN - 1
  · simp only [parseTextCommand, commandWord, List.take_of_length_le hl, firstWord]
  · have hshort : ∀ row ∈ commandActions, row.action.length < MAX_ARG_LEN - 1 := by decide
    have hcut : (parseTextCommand line).command.length = MAX_ARG_LEN - 1 := by
      simp only [parseTextCommand, commandWord, List.length_map, List.length_take]
      omega
    have hfull : MAX_ARG_LEN - 1 < (firstWord line).length := by
      simp only [firstWord, List.length_map]
      omega
    have hlong : ∀ {word : Bytes}, MAX_ARG_LEN - 1 ≤ word.length → scan word = none := by
      intro word hw
      refine scan_eq_none_iff.mpr fun row hrow heq => ?_
      have := hshort row hrow
      rw [heq] at this
      omega
    rw [hlong hcut.ge, hlong hfull.le]

/-- The handler of a line. -/
theorem actionFor_command (line : Bytes) (authenticated : Bool) :
    actionFor (parseTextCommand line).command authenticated = (scan (firstWord line)).map (column authenticated) := by
  rw [actionFor, lookup_registry, scan_command]
  rfl

theorem initializeExecutionEngine_isSome : initializeExecutionEngine.isSome = true := by
  obtain ⟨registry, hregistry, -⟩ := registerAll_spec commandActions HashMap.createHashTable_represents
  rw [initializeExecutionEngine, hregistry]
  rfl

/-- **Dispatch is a scan of the command table.** The registry can be filled, and for every line the function called is
that of the row with the first word of the line, in the column of the client; no row has that word exactly when it is
`cftp_invalid_action`. -/
theorem dispatch_is_scan (line : Bytes) (s : Session σ) :
    initializeExecutionEngine.isSome = true ∧
      executeFtpCommand env line s =
        (match scan (firstWord line) with
        | some row => runAction env (column s.conn.authenticated row) (parseTextCommand line) s
        | none => cftpInvalidAction env s) ∧
      (actionFor (parseTextCommand line).command s.conn.authenticated = none ↔
        ∀ row ∈ commandActions, row.action ≠ firstWord line) := by
  refine ⟨initializeExecutionEngine_isSome, ?_, ?_⟩
  · rw [executeFtpCommand, actionFor_command]
    cases scan (firstWord line) <;> rfl
  · rw [actionFor_command, Option.map_eq_none_iff, scan_eq_none_iff]

example : (scan (firstWord (ascii " retr x\r\n"))).map (column false) = some .nonAuthenticated := by decide

end CftpServer.Session
