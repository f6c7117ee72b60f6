import CftpServer.Lib.Buffer
import CftpServer.Lib.Numeral

/-!
# Log records (`core/logger.c`)

`print_log` puts a record together in an array of 520 bytes: the header, the body behind it, and `KNRM` behind both.
Where the body is too long a warning is put over its end, and then `KNRM` is put 43 bytes too far.

* `formatRecord_fits`: a short body is shown whole
* `formatRecord_truncated`: behind a long one, the message ends with the warning
* `formatRecord_isSome_iff`: when all writes are inside the array
-/

namespace CftpServer.Logger

open CLib Memory

def LOGGER_HALF_BUFFER : Nat := 0x100
def NORMAL_LEN : Nat := 8

def TRUNC_LOG_WARN : Bytes := ascii "[.. Log truncated due to too much length]"
def TRUNC_LOG_LEN : Nat := 43

/-- A colour: ESC and this. -/
def escape (s : String) : Bytes := 27 :: ascii s

def KNRM : Bytes := escape "[1;0m"
def KRED : Bytes := escape "[1;31m"
def KGRN : Bytes := escape "[32m"
def KYEL : Bytes := escape "[1;33m"
def KMAG : Bytes := escape "[35m"
def KCYN : Bytes := escape "[1;36m"
def KWHT : Bytes := escape "[37m"

def ERR_LEVEL : Nat := 0x1
def INF_LEVEL : Nat := 0x2
def WRN_LEVEL : Nat := 0x4
def DBG_LEVEL : Nat := 0x8
def PRN_LEVEL : Nat := 0x10

/-- `get_log_str`. -/
def getLogStr (type : Nat) : Bytes :=
  if type = ERR_LEVEL then KRED ++ ascii "ERROR"
  else if type = INF_LEVEL then KGRN ++ ascii "INFO"
  else if type = WRN_LEVEL then KYEL ++ ascii "WARNING"
  else if type = DBG_LEVEL then KCYN ++ ascii "DEBUG"
  else if type = PRN_LEVEL then KWHT
  else KMAG ++ ascii "INVALID"

/-- `%d` of an `unsigned int`. -/
def decInt (n : UInt32) : Bytes := if n < 0x80000000 then dec n.toNat else 45 :: dec (0x100000000 - n.toNat)

/-- What is behind the last slash of `source_file`. -/
def baseName (sourceFile : Bytes) : Bytes := (sourceFile.reverse.takeWhile (· ≠ 47)).reverse

/-- The header of a record; `timeBuf` is what `strftime` gave. -/
def logHeader (type : Nat) (timeBuf sourceFile : Bytes) (lineNumber : UInt32) (functionName : Bytes) : Bytes :=
  if type &&& PRN_LEVEL = 0 then
    ascii "[" ++ timeBuf ++ ascii "] " ++ getLogStr type ++ ascii ": " ++ baseName sourceFile ++ ascii ":" ++
      decInt lineNumber ++ ascii ": " ++ functionName ++ ascii ": "
  else ascii "[" ++ timeBuf ++ ascii "] " ++ getLogStr type

/-- `message1`. -/
abbrev Message := Buffer UInt8 (LOGGER_HALF_BUFFER * 2 + NORMAL_LEN)

def INT_MAX : Nat := 0x7FFFFFFF

/-- What `snprintf` and its kin return: the length of the whole text, or -1 if that is no `int`. -/
def printed (s : Bytes) : Int := if s.length ≤ INT_MAX then s.length else -1

/-- A text and its NUL, written from an address on. -/
def put (m : Message) (i : Int) (s : Bytes) : Option Message := if 0 ≤ i then m.write i.toNat (s ++ [0]) else none

/-- `"... %s"` of the warning. -/
def warning : Bytes := ascii "... " ++ TRUNC_LOG_WARN

/-- `print_log`: a record with this header and this formatted body in `message1`. -/
def formatRecord (header body : Bytes) : Option Message :=
  (put (.fill _ 0) 0 (cut LOGGER_HALF_BUFFER header)).bind fun message1 =>
  let res1 := printed header
  (put message1 res1 (cut LOGGER_HALF_BUFFER body)).bind fun message1 =>
  let res2 := printed body
  if max res1 res2 + 1 ≥ (LOGGER_HALF_BUFFER : Int) then
    (put message1 (res1 + LOGGER_HALF_BUFFER - TRUNC_LOG_LEN) warning).bind fun message1 =>
    put message1 (res1 + (LOGGER_HALF_BUFFER + printed warning)) (cut NORMAL_LEN KNRM)
  else put message1 (res1 + res2) (cut NORMAL_LEN KNRM)

/-- `print_log`: the strings that are passed to the log function, as `print_log_event` passes them. -/
def printLog (enabledLogs type : Nat) (timeBuf sourceFile : Bytes) (lineNumber : UInt32) (functionName body : Bytes) :
    Option (List Bytes) :=
  if enabledLogs &&& type = 0 then some []
  else (formatRecord (logHeader type timeBuf sourceFile lineNumber functionName) body).map fun message1 =>
    message1.str :: if type &&& PRN_LEVEL = 0 then [ascii "\n"] else []

/-- A record is shown: the header, the body or, where that does not fit, the beginning of it and the warning, and the
colour reset. -/
def Shown (header body message : Bytes) : Prop :=
  message = header ++ body ++ KNRM ∨
    (LOGGER_HALF_BUFFER ≤ body.length + 1 ∧ ∃ start, start <+: body ∧ message = header ++ start ++ warning ++ KNRM)

/-! ## The record in memory -/

section Record

variable {header body : Bytes}

theorem printed_of_le {s : Bytes} (h : s.length ≤ INT_MAX) : printed s = s.length := if_pos h

theorem warning_length : warning.length = 45 := by decide

theorem printed_warning : printed warning = 45 := by rw [printed_of_le] <;> rw [warning_length] <;> decide

theorem reset_length : KNRM.length = 6 := by decide

/-- There is room for the whole colour reset. -/
theorem cut_reset : cut NORMAL_LEN KNRM = KNRM := cut_of_lt (by rw [reset_length]; decide)

theorem put_isSome_iff {m : Message} {i : Int} {s : Bytes} :
    (put m i s).isSome ↔ 0 ≤ i ∧ i + s.length < LOGGER_HALF_BUFFER * 2 + NORMAL_LEN := by
  rw [put]
  split
  · rw [Buffer.write_isSome, List.length_append, List.length_singleton]
    omega
  · rename_i hneg
    exact iff_of_false Bool.false_ne_true fun h => hneg h.1

theorem put_holds {m : Message} {l s : Bytes} (h : Holds m l)
    (hroom : l.length + s.length < LOGGER_HALF_BUFFER * 2 + NORMAL_LEN) :
    ∃ m', put m l.length s = some m' ∧ Holds m' (l ++ (s ++ [0])) := by
  obtain ⟨m', hm', hholds⟩ := Buffer.write_holds (m := s ++ [0]) h
    (by rw [List.length_append, List.length_singleton]; omega)
  exact ⟨m', by rw [put, if_pos (Int.natCast_nonneg _), Int.toNat_natCast, hm'], hholds⟩

/-- The header and the body are in the array, the body cut to half of it. -/
theorem formatRecord_head (body : Bytes) (hheader : header.length < LOGGER_HALF_BUFFER) :
    ∃ m₁ m₂ : Message, put (.fill _ 0) 0 (cut LOGGER_HALF_BUFFER header) = some m₁ ∧
      put m₁ header.length (cut LOGGER_HALF_BUFFER body) = some m₂ ∧
      Holds m₂ (header ++ body.take (LOGGER_HALF_BUFFER - 1)) := by
  have hhalf : LOGGER_HALF_BUFFER = 256 := rfl
  have hnormal : NORMAL_LEN = 8 := rfl
  obtain ⟨m₁, hm₁, hholds₁⟩ := put_holds (s := header) (holds_nil (.fill (LOGGER_HALF_BUFFER * 2 + NORMAL_LEN) 0))
    (by rw [List.length_nil]; omega)
  rw [List.nil_append] at hholds₁
  obtain ⟨m₂, hm₂, hholds₂⟩ := put_holds (s := body.take (LOGGER_HALF_BUFFER - 1)) hholds₁.left
    (by rw [List.length_take]; omega)
  refine ⟨m₁, m₂, by rw [cut_of_lt hheader]; exact hm₁, hm₂, ?_⟩
  rw [← List.append_assoc] at hholds₂
  exact hholds₂.left

/-- What is left to do behind header and body. -/
theorem formatRecord_tail (body : Bytes) (hheader : header.length < LOGGER_HALF_BUFFER) :
    ∃ m : Message, Holds m (header ++ body.take (LOGGER_HALF_BUFFER - 1)) ∧
      formatRecord header body = if max (header.length : Int) (printed body) + 1 ≥ (LOGGER_HALF_BUFFER : Int) then
          (put m (header.length + LOGGER_HALF_BUFFER - TRUNC_LOG_LEN) warning).bind fun m =>
          put m (header.length + (LOGGER_HALF_BUFFER + printed warning)) (cut NORMAL_LEN KNRM)
        else put m (header.length + printed body) (cut NORMAL_LEN KNRM) := by
  obtain ⟨m₁, m₂, hm₁, hm₂, hholds⟩ := formatRecord_head body hheader
  have hhalf : LOGGER_HALF_BUFFER = 256 := rfl
  have hint : printed header = header.length := printed_of_le (by rw [INT_MAX]; omega)
  refine ⟨m₂, hholds, ?_⟩
  simp only [formatRecord, hint, hm₁, hm₂, Option.bind_some]

/-- A body that is short enough is shown whole. -/
theorem formatRecord_fits (hheader : header.length + 1 < LOGGER_HALF_BUFFER)
    (hbody : body.length + 1 < LOGGER_HALF_BUFFER) :
    ∃ m, formatRecord header body = some m ∧ Holds m (header ++ body ++ KNRM ++ [0]) := by
  have hhalf : LOGGER_HALF_BUFFER = 256 := rfl
  have hnormal : NORMAL_LEN = 8 := rfl
  have hreset := reset_length
  have hint : printed body = body.length := printed_of_le (by rw [INT_MAX]; omega)
  have hlt : header.length < LOGGER_HALF_BUFFER := by omega
  obtain ⟨m, hholds, hformat⟩ := formatRecord_tail body hlt
  rw [List.take_of_length_le (by omega)] at hholds
  obtain ⟨m', hm', hholds'⟩ := put_holds (s := KNRM) hholds (by rw [List.length_append]; omega)
  rw [List.length_append, Int.natCast_add] at hm'
  refine ⟨m', ?_, by rw [List.append_assoc _ KNRM]; exact hholds'⟩
  rw [hformat, hint, if_neg (by omega), cut_reset, hm']

/-- Behind a longer body the message ends with the warning: the colour reset is further on, behind a NUL. -/
theorem formatRecord_truncated (hheader : header.length ≤ 212) (hlong : LOGGER_HALF_BUFFER ≤ body.length + 1)
    (hint : body.length ≤ INT_MAX) :
    ∃ m, formatRecord header body = some m ∧
      Holds m (header ++ body.take (LOGGER_HALF_BUFFER - TRUNC_LOG_LEN) ++ warning ++ [0]) := by
  have hhalf : LOGGER_HALF_BUFFER = 256 := rfl
  have hnormal : NORMAL_LEN = 8 := rfl
  have htrunc : TRUNC_LOG_LEN = 43 := rfl
  have hwarning := warning_length
  have hprinted := printed_warning
  have hreset := reset_length
  have hlt : header.length < LOGGER_HALF_BUFFER := by omega
  obtain ⟨m, hholds, hformat⟩ := formatRecord_tail body hlt
  rw [cut_reset] at hformat
  have hstart : Holds m (header ++ body.take (LOGGER_HALF_BUFFER - TRUNC_LOG_LEN)) := by
    refine List.IsPrefix.trans ?_ hholds
    exact (List.prefix_append_right_inj header).mpr (List.take_prefix_take_left (by omega))
  have hlength : (header ++ body.take (LOGGER_HALF_BUFFER - TRUNC_LOG_LEN)).length = header.length + 213 := by
    rw [List.length_append, List.length_take]
    omega
  obtain ⟨m₁, hm₁, hholds₁⟩ := put_holds (s := warning) hstart (by omega)
  have hoffset : (header.length + LOGGER_HALF_BUFFER - TRUNC_LOG_LEN : Int) =
      (header ++ body.take (LOGGER_HALF_BUFFER - TRUNC_LOG_LEN)).length := by omega
  rw [← List.append_assoc] at hholds₁
  obtain ⟨m₂, hm₂⟩ := Option.isSome_iff_exists.mp (put_isSome_iff.mpr (⟨by omega, by omega⟩ :
    0 ≤ (header.length + (LOGGER_HALF_BUFFER + printed warning) : Int) ∧ _ + (KNRM.length : Int) < _))
  refine ⟨m₂, ?_, ?_⟩
  · rw [hformat, printed_of_le hint, if_pos (by omega), hoffset, hm₁, Option.bind_some]
    exact hm₂
  · rw [put, if_pos (by omega)] at hm₂
    refine Buffer.write_beyond hholds₁ ?_ hm₂
    simp only [List.length_append, List.length_singleton] at hlength ⊢
    omega

/-- A body of a length that is no `int`: the colour reset is put over the end of the header. -/
theorem formatRecord_overflow (hheader : header.length + 1 < LOGGER_HALF_BUFFER) {start : Bytes} {c : UInt8}
    (hstart : header = start ++ [c]) (hlong : INT_MAX < body.length) :
    ∃ m, formatRecord header body = some m ∧ Holds m (start ++ KNRM ++ [0]) := by
  have hhalf : LOGGER_HALF_BUFFER = 256 := rfl
  have hnormal : NORMAL_LEN = 8 := rfl
  have hreset := reset_length
  have hint : printed body = -1 := if_neg (by omega)
  have hlength : header.length = start.length + 1 := by rw [hstart, List.length_append, List.length_singleton]
  have hlt : header.length < LOGGER_HALF_BUFFER := by omega
  obtain ⟨m, hholds, hformat⟩ := formatRecord_tail body hlt
  have hholds₀ : Holds m start := by
    rw [hstart, List.append_assoc] at hholds
    exact hholds.left
  obtain ⟨m', hm', hholds'⟩ := put_holds (s := KNRM) hholds₀ (by omega)
  have hoffset : (header.length + (-1) : Int) = start.length := by omega
  refine ⟨m', ?_, by rw [List.append_assoc]; exact hholds'⟩
  rw [hformat, hint, if_neg (by omega), cut_reset, hoffset, hm']

/-- **All writes are inside the array** exactly for a short header, or a header and a body that are not cut. -/
theorem formatRecord_isSome_iff (hne : header ≠ []) (hheader : header.length < LOGGER_HALF_BUFFER) :
    (formatRecord header body).isSome ↔ header.length ≤ 212 ∨
      (header.length + 1 < LOGGER_HALF_BUFFER ∧ (body.length + 1 < LOGGER_HALF_BUFFER ∨ INT_MAX < body.length)) := by
  have hhalf : LOGGER_HALF_BUFFER = 256 := rfl
  have hnormal : NORMAL_LEN = 8 := rfl
  have htrunc : TRUNC_LOG_LEN = 43 := rfl
  have hwarning := warning_length
  have hprinted := printed_warning
  have hreset := reset_length
  have hpos := List.length_pos_iff.mpr hne
  obtain ⟨m, -, hformat⟩ := formatRecord_tail body hheader
  have hbody : printed body = body.length ∧ body.length ≤ INT_MAX ∨ printed body = -1 ∧ INT_MAX < body.length := by
    rw [printed]
    split
    · exact .inl ⟨rfl, by omega⟩
    · exact .inr ⟨rfl, by omega⟩
  rw [hformat, cut_reset]
  split
  · rename_i hcut
    obtain ⟨m₁, hm₁⟩ := Option.isSome_iff_exists.mp (put_isSome_iff (m := m).mpr (⟨by omega, by omega⟩ :
      0 ≤ (header.length + LOGGER_HALF_BUFFER - TRUNC_LOG_LEN : Int) ∧ _ + (warning.length : Int) < _))
    rw [hm₁, Option.bind_some, put_isSome_iff]
    omega
  · rename_i hfits
    rw [put_isSome_iff]
    omega

/-! ## What is shown -/

theorem Shown.reset {message : Bytes} (h : Shown header body message) : KNRM <:+ message := by
  rcases h with rfl | ⟨-, start, -, rfl⟩
  · exact List.suffix_append ..
  · exact List.suffix_append ..

theorem Shown.length_le {message : Bytes} (h : Shown header body message) :
    header.length + KNRM.length ≤ message.length := by
  rcases h with rfl | ⟨-, start, -, rfl⟩
  · simp only [List.length_append]
    omega
  · simp only [List.length_append]
    omega

/-- The text of the warning is not a colour reset. -/
theorem not_reset_of_warning {s : Bytes} : ¬ KNRM <:+ s ++ warning := by
  intro h
  have hwarning : KNRM <:+ warning := List.suffix_of_suffix_length_le h (List.suffix_append s warning) (by decide)
  revert hwarning
  decide

/-- A record is shown exactly if its body need not be cut. -/
theorem formatRecord_shown_iff (hheader : header.length ≤ 200) (hne : header ≠ []) (hheaderNul : 0 ∉ header)
    (hbodyNul : 0 ∉ body) : ∃ m, formatRecord header body = some m ∧
      (Shown header body m.str ↔ body.length + 1 < LOGGER_HALF_BUFFER) := by
  have hhalf : LOGGER_HALF_BUFFER = 256 := rfl
  have hresetNul : 0 ∉ KNRM := by decide
  have hwarningNul : 0 ∉ warning := by decide
  by_cases hfits : body.length + 1 < LOGGER_HALF_BUFFER
  · have hlt : header.length + 1 < LOGGER_HALF_BUFFER := by omega
    obtain ⟨m, hm, hholds⟩ := formatRecord_fits hlt hfits
    have hstr : m.str = header ++ body ++ KNRM := Buffer.str_of_holds hholds (by simp [hheaderNul, hbodyNul, hresetNul])
    exact ⟨m, hm, iff_of_true (.inl hstr) hfits⟩
  · by_cases hint : body.length ≤ INT_MAX
    · have hle : header.length ≤ 212 := by omega
      obtain ⟨m, hm, hholds⟩ := formatRecord_truncated hle (Nat.le_of_not_lt hfits) hint
      have hstartNul : 0 ∉ body.take (LOGGER_HALF_BUFFER - TRUNC_LOG_LEN) := fun h => hbodyNul (List.mem_of_mem_take h)
      have hstr := Buffer.str_of_holds hholds (by simp [hheaderNul, hstartNul, hwarningNul])
      refine ⟨m, hm, iff_of_false (fun hshown => ?_) hfits⟩
      have hreset := hshown.reset
      rw [hstr] at hreset
      exact not_reset_of_warning hreset
    · obtain ⟨start, c, hstart⟩ := (List.eq_nil_or_concat header).resolve_left hne
      rw [List.concat_eq_append] at hstart
      obtain ⟨m, hm, hholds⟩ := formatRecord_overflow (by omega) hstart (Nat.lt_of_not_le hint)
      have hstartNul : 0 ∉ start := fun h => hheaderNul (by rw [hstart]; exact List.mem_append_left _ h)
      have hstr := Buffer.str_of_holds hholds (by simp [hstartNul, hresetNul])
      refine ⟨m, hm, iff_of_false (fun hshown => ?_) hfits⟩
      have hlength := hshown.length_le
      rw [hstr, hstart, List.length_append, List.length_append, List.length_singleton] at hlength
      omega

end Record

/-! ## The header -/

section Header

variable {type : Nat} {timeBuf sourceFile : Bytes} {lineNumber : UInt32} {functionName : Bytes}

theorem logHeader_ne_nil : logHeader type timeBuf sourceFile lineNumber functionName ≠ [] := by
  rw [logHeader]
  split <;> simp [ascii]

theorem getLogStr_nul : 0 ∉ getLogStr type := by
  unfold getLogStr
  split_ifs <;> decide

theorem decInt_nul {n : UInt32} : 0 ∉ decInt n := by
  have hdec : ∀ k : Nat, 0 ∉ dec k := fun k h => absurd ((dec_spec k).2.1 0 h) (by decide)
  rw [decInt]
  split
  · exact hdec _
  · simp [hdec]

theorem baseName_subset : baseName sourceFile ⊆ sourceFile := fun _ hc =>
  List.mem_reverse.mp ((List.takeWhile_sublist _).subset (List.mem_reverse.mp hc))

/-- A header of C strings has no NUL. -/
theorem logHeader_nul (htime : 0 ∉ timeBuf) (hfile : 0 ∉ sourceFile) (hfunction : 0 ∉ functionName) :
    0 ∉ logHeader type timeBuf sourceFile lineNumber functionName := by
  have hbase : 0 ∉ baseName sourceFile := fun h => hfile (baseName_subset h)
  have htype : 0 ∉ getLogStr type := getLogStr_nul
  have hline : 0 ∉ decInt lineNumber := decInt_nul
  rw [logHeader]
  split <;> simp [ascii, htime, hbase, htype, hline, hfunction]

end Header

/-! ## Calls of `print_log` -/

section Calls

variable {enabledLogs type : Nat} {timeBuf sourceFile : Bytes} {lineNumber : UInt32} {functionName body : Bytes}

/-- **A record is shown, with the colour reset behind it**, exactly if its body is shorter than half of the array. -/
theorem printLog_shown_iff_short (henabled : enabledLogs &&& type ≠ 0)
    (hheader : (logHeader type timeBuf sourceFile lineNumber functionName).length ≤ 200) (htime : 0 ∉ timeBuf)
    (hfile : 0 ∉ sourceFile) (hfunction : 0 ∉ functionName) (hbody : 0 ∉ body) :
    (∃ message rest,
      printLog enabledLogs type timeBuf sourceFile lineNumber functionName body = some (message :: rest) ∧
      Shown (logHeader type timeBuf sourceFile lineNumber functionName) body message) ↔
      body.length + 1 < LOGGER_HALF_BUFFER := by
  obtain ⟨m, hm, hshown⟩ := formatRecord_shown_iff hheader logHeader_ne_nil (logHeader_nul htime hfile hfunction) hbody
  rw [printLog, if_neg henabled, hm, Option.map_some, ← hshown]
  constructor
  · rintro ⟨message, rest, hmessage, h⟩
    rw [Option.some.injEq, List.cons.injEq] at hmessage
    rw [hmessage.1]
    exact h
  · exact fun h => ⟨m.str, _, rfl, h⟩

end Calls

/-- The server reports that it listens. -/
theorem printLog_shown_iff_short_main :
    ∃ message rest, printLog 7 INF_LEVEL (ascii "2025-01-01 00:00:00") (ascii "engine/main.c") 42 (ascii "main")
      (ascii "started") = some (message :: rest) ∧
      Shown (logHeader INF_LEVEL (ascii "2025-01-01 00:00:00") (ascii "engine/main.c") 42 (ascii "main"))
        (ascii "started") message :=
  (printLog_shown_iff_short (by decide) (by decide) (by decide) (by decide) (by decide) (by decide)).mpr (by decide)

/-- What `cftp_invalid_action` reports of a command without arguments. -/
def unknownReport (command : Bytes) : Bytes := ascii "This command is unknown: " ++ command ++ ascii " "

theorem unknownReport_length {command : Bytes} : (unknownReport command).length = command.length + 26 := by
  have hfront : (ascii "This command is unknown: ").length = 25 := by decide
  have hback : (ascii " ").length = 1 := rfl
  rw [unknownReport, List.length_append, List.length_append, hfront, hback]
  omega

theorem unknownReport_nul {command : Bytes} (h : 0 ∉ command) : 0 ∉ unknownReport command := by
  simp [unknownReport, ascii, h]

/-- A client sends an unknown command of 240 bytes: the report of it is not shown. -/
theorem unknownCommand_not_shown :
    (logHeader ERR_LEVEL (ascii "2025-01-01 00:00:00") (ascii "actions/command_actions.c") 197
      (ascii "cftp_invalid_action")).length ≤ 200 ∧
    ∃ message, printLog 7 ERR_LEVEL (ascii "2025-01-01 00:00:00") (ascii "actions/command_actions.c") 197
      (ascii "cftp_invalid_action") (unknownReport (List.replicate 240 88)) = some [message, ascii "\n"] ∧
      ¬ Shown (logHeader ERR_LEVEL (ascii "2025-01-01 00:00:00") (ascii "actions/command_actions.c") 197
        (ascii "cftp_invalid_action")) (unknownReport (List.replicate 240 88)) message := by
  have hheader : (logHeader ERR_LEVEL (ascii "2025-01-01 00:00:00") (ascii "actions/command_actions.c") 197
    (ascii "cftp_invalid_action")).length ≤ 200 := by decide +kernel
  have hcommand : (0 : UInt8) ∉ List.replicate 240 88 := fun h => absurd (List.eq_of_mem_replicate h) (by decide)
  obtain ⟨m, hm, hshown⟩ := formatRecord_shown_iff hheader logHeader_ne_nil
    (logHeader_nul (by decide) (by decide) (by decide)) (unknownReport_nul hcommand)
  refine ⟨hheader, m.str, ?_, fun h => ?_⟩
  · rw [printLog, if_neg (by decide), hm, Option.map_some, if_pos (by decide)]
  · have hshort := hshown.mp h
    rw [unknownReport_length, List.length_replicate] at hshort
    exact absurd hshort (by decide)

section Bounds

variable {enabledLogs type : Nat} {timeBuf sourceFile : Bytes} {lineNumber : UInt32} {functionName body : Bytes}

/-- **No write of `print_log` leaves its array** exactly if the header leaves room for a colour reset that is put 301
bytes behind it, or neither the header nor the body is cut. -/
theorem printLog_within_iff
    (hheader : (logHeader type timeBuf sourceFile lineNumber functionName).length < LOGGER_HALF_BUFFER) :
    (printLog enabledLogs type timeBuf sourceFile lineNumber functionName body).isSome ↔
      enabledLogs &&& type = 0 ∨ (logHeader type timeBuf sourceFile lineNumber functionName).length ≤ 212 ∨
        ((logHeader type timeBuf sourceFile lineNumber functionName).length + 1 < LOGGER_HALF_BUFFER ∧
          (body.length + 1 < LOGGER_HALF_BUFFER ∨ INT_MAX < body.length)) := by
  rw [printLog]
  split
  · rename_i hdisabled
    exact iff_of_true rfl (.inl hdisabled)
  · rename_i henabled
    rw [Option.isSome_map, formatRecord_isSome_iff logHeader_ne_nil hheader, or_iff_right henabled]

end Bounds

/-- A longer header with a short body. -/
theorem printLog_within_iff_longName :
    (printLog 7 ERR_LEVEL (ascii "2025-01-01 00:00:00") (ascii "actions/command_actions.c") 197 (List.replicate 190 97)
      (ascii "failed")).isSome :=
  (printLog_within_iff (by decide +kernel)).mpr (.inr (.inr (by decide +kernel)))

/-- Where the name of the function and the body are long, a write leaves the array. -/
theorem longName_outside :
    (logHeader ERR_LEVEL (ascii "2025-01-01 00:00:00") (ascii "actions/command_actions.c") 197
      (List.replicate 160 97)).length < LOGGER_HALF_BUFFER ∧
    printLog 7 ERR_LEVEL (ascii "2025-01-01 00:00:00") (ascii "actions/command_actions.c") 197 (List.replicate 160 97)
      (List.replicate 255 88) = none :=
  ⟨by decide +kernel, by decide +kernel⟩

end CftpServer.Logger
