import CftpServer.Command.Parser
import CftpServer.Lib.Run
import Mathlib.Data.List.Forall2

/-!
# Reading the control stream (`core/connection.c`)

`on_read` runs once for each time new bytes arrive. It removes at most `sizeof(input) - 1` bytes from the input buffer
of the control connection, whatever lines they hold, and executes the one command it finds in them.

* `executed_length`: as many commands as reads
* `executed_of_framed`: when every read takes one line, up to blanks around its text, the commands are the lines
-/

namespace CftpServer.Command

open CLib Runs

/-- The bytes `on_read` has room for: `char input[1024]` less its NUL. -/
def INPUT_LEN : Nat := 1023

/-- The string `on_read` takes from the input buffer. -/
def readInput (buf : Bytes) : Bytes := cstr (buf.take INPUT_LEN)

/-- What `evbuffer_remove` leaves in the buffer. -/
def readRest (buf : Bytes) : Bytes := buf.drop INPUT_LEN

/-- The control connection as a reader: the bytes that wait in its input buffer, and the commands handed to
`execute_ftp_command` so far. -/
structure Reader where
  buf : Bytes
  executed : List CftpCommand
deriving DecidableEq, Repr

/-- `on_read` after a chunk has arrived. -/
def onRead (chunk : Bytes) (r : Reader) : Reader :=
  let buf := r.buf ++ chunk
  ⟨readRest buf, r.executed ++ [parseTextCommand (readInput buf)]⟩

/-- The commands executed for a stream that arrives in these chunks. -/
def executed (chunks : List Bytes) : List CftpCommand := (run onRead chunks ⟨[], []⟩).executed

/-- The bytes each read removes from the buffer. -/
def windows : Bytes → List Bytes → List Bytes
  | _, [] => []
  | buf, c :: cs => (buf ++ c).take INPUT_LEN :: windows (readRest (buf ++ c)) cs

def CRLF : Bytes := [13, 10]

/-- A command line: a text without CR, LF and NUL, then CRLF, within the room of one read. -/
def IsLine (l : Bytes) : Prop := ∃ t : Bytes, l = t ++ CRLF ∧ (∀ c ∈ t, c ≠ 13 ∧ c ≠ 10 ∧ c ≠ 0) ∧ l.length ≤ INPUT_LEN

/-- A read holds one line: both are the same text between blanks, where the blanks behind it may differ only if the
text is closed (an open quote takes them into its argument). -/
def Framed (window line : Bytes) : Prop :=
  ∃ w w' t e e' : Bytes, window = w ++ (t ++ e) ∧ line = w' ++ (t ++ e') ∧ Blank w ∧ Blank w' ∧
    (e = e' ∨ Blank e ∧ Blank e' ∧ Closed t = true)

theorem run_onRead (chunks : List Bytes) : ∀ r : Reader, (run onRead chunks r).executed =
    r.executed ++ (windows r.buf chunks).map fun w => parseTextCommand (cstr w) := by
  induction chunks with
  | nil => intro r; simp [windows]
  | cons c cs ih =>
    intro r
    rw [run_cons, ih]
    simp [onRead, windows, readInput]

/-- A read executes the window it takes. -/
theorem executed_eq (chunks : List Bytes) :
    executed chunks = (windows [] chunks).map fun w => parseTextCommand (cstr w) := by
  rw [executed, run_onRead, List.nil_append]

theorem windows_length (chunks : List Bytes) : ∀ buf, (windows buf chunks).length = chunks.length := by
  induction chunks with
  | nil => intro buf; rfl
  | cons c cs ih => intro buf; simp [windows, ih]

/-- One command for each read. -/
theorem executed_length (chunks : List Bytes) : (executed chunks).length = chunks.length := by
  rw [executed_eq, List.length_map, windows_length]

/-- Every window is within the room of a read, and made of bytes of the stream. -/
theorem mem_windows (chunks : List Bytes) : ∀ {buf w : Bytes}, w ∈ windows buf chunks →
    w.length ≤ INPUT_LEN ∧ ∀ c ∈ w, c ∈ buf ++ chunks.flatten := by
  induction chunks with
  | nil => intro buf w h; cases h
  | cons d ds ih =>
    intro buf w h
    rcases List.mem_cons.mp h with rfl | h
    · refine ⟨List.length_take_le _ _, fun c hc => ?_⟩
      have hc' := List.mem_of_mem_take hc
      simp only [List.flatten_cons, List.mem_append] at hc' ⊢
      tauto
    · obtain ⟨hl, hm⟩ := ih h
      refine ⟨hl, fun c hc => ?_⟩
      have hc' := hm c hc
      simp only [List.flatten_cons, List.mem_append] at hc' ⊢
      rcases hc' with hc' | hc'
      · have := List.mem_of_mem_drop hc'
        simp only [List.mem_append] at this
        tauto
      · tauto

theorem cstr_eq_self {l : Bytes} (h : ∀ c ∈ l, c ≠ 0) : cstr l = l :=
  List.takeWhile_eq_self_iff.mpr fun c hc => by simpa using h c hc

theorem IsLine.ne_zero {l : Bytes} (h : IsLine l) : ∀ c ∈ l, c ≠ 0 := by
  obtain ⟨t, rfl, ht, -⟩ := h
  intro c hc
  rcases List.mem_append.mp hc with hc | hc
  · exact (ht c hc).2.2
  · simp only [CRLF, List.mem_cons, List.not_mem_nil, or_false] at hc
    rcases hc with rfl | rfl <;> decide

/-- A line, checked byte by byte. -/
theorem isLine_of_all {l t : Bytes} (hl : l = t ++ CRLF) (ht : t.all (fun c => c != 13 && c != 10 && c != 0) = true)
    (hlen : l.length ≤ INPUT_LEN) : IsLine l := by
  refine ⟨t, hl, fun c hc => ?_, hlen⟩
  simpa [and_assoc] using List.all_eq_true.mp ht c hc

/-- A window and a line with the same text parse alike. -/
theorem Framed.parse_eq {window line : Bytes} (h : Framed window line) (hw : window.length ≤ INPUT_LEN)
    (hl : line.length ≤ INPUT_LEN) : parseTextCommand window = parseTextCommand line := by
  obtain ⟨w, w', t, e, e', rfl, rfl, hbw, hbw', he⟩ := h
  rw [parseTextCommand_blanks_append hbw, parseTextCommand_blanks_append hbw']
  rcases he with rfl | ⟨hbe, hbe', hc⟩
  · rfl
  · simp only [List.length_append, INPUT_LEN] at hw hl
    rw [parseTextCommand_append_blanks hbe hc (by rw [MAX_ARG_LEN]; omega),
      parseTextCommand_append_blanks hbe' hc (by rw [MAX_ARG_LEN]; omega)]

/-- A line that arrives alone in one read. -/
theorem executed_line {l : Bytes} (hl : IsLine l) : executed [l] = [parseTextCommand l] := by
  obtain ⟨-, -, -, hlen⟩ := id hl
  rw [executed_eq]
  simp only [windows, List.nil_append, List.map_cons, List.map_nil, List.take_of_length_le hlen,
    cstr_eq_self hl.ne_zero]

section Stream

variable {lines chunks : List Bytes}

/-- Windows that frame their lines execute them. -/
theorem executed_of_framed (hlines : ∀ l ∈ lines, IsLine l) (hcut : chunks.flatten = lines.flatten)
    (hf : List.Forall₂ Framed (windows [] chunks) lines) : executed chunks = lines.flatMap fun l => executed [l] := by
  have hne : ∀ w ∈ windows [] chunks, w.length ≤ INPUT_LEN ∧ cstr w = w := by
    intro w hw
    obtain ⟨hlen, hm⟩ := mem_windows chunks hw
    refine ⟨hlen, cstr_eq_self fun c hc => ?_⟩
    have hc' := hm c hc
    rw [List.nil_append, hcut] at hc'
    obtain ⟨l, hl, hcl⟩ := List.mem_flatten.mp hc'
    exact (hlines l hl).ne_zero c hcl
  rw [executed_eq]
  -- window by window, along the pairing with the lines
  generalize windows [] chunks = ws at hf hne
  clear hcut
  induction hf with
  | nil => rfl
  | @cons w l ws ls hwl _ ih =>
    obtain ⟨hlen, hcs⟩ := hne w List.mem_cons_self
    have hl := hlines l List.mem_cons_self
    obtain ⟨-, -, -, hll⟩ := id hl
    rw [List.map_cons, List.flatMap_cons, executed_line hl, hcs, hwl.parse_eq hlen hll, List.singleton_append]
    congr 1
    exact ih (fun x hx => hlines x (List.mem_cons_of_mem _ hx)) (fun x hx => hne x (List.mem_cons_of_mem _ hx))

/-- **Lines in, commands out.** A stream whose reads each take one line, up to blanks outside its text, executes
exactly its lines; and only a stream read once for each line can. -/
theorem control_stream_executes_lines (hlines : ∀ l ∈ lines, IsLine l)
    (hcut : chunks.flatten = lines.flatten) :
    (List.Forall₂ Framed (windows [] chunks) lines → executed chunks = lines.flatMap fun l => executed [l]) ∧
      (executed chunks = (lines.flatMap fun l => executed [l]) → chunks.length = lines.length) := by
  refine ⟨executed_of_framed hlines hcut, fun h => ?_⟩
  have hlen := congrArg List.length h
  rw [executed_length] at hlen
  simpa [List.length_flatMap, executed_length] using hlen

/-- Three lines; the first read stops before the LF of its line, the third starts with the blanks left over. -/
theorem control_stream_executes_noops :
    executed [ascii "noop \r", ascii "\nTYPE I\r\n", ascii "PWD\r\n"] =
      [ascii "noop \r\n", ascii "TYPE I\r\n", ascii "PWD\r\n"].flatMap fun l => executed [l] := by
  refine (control_stream_executes_lines ?_ (by decide)).1 ?_
  · intro l hl
    simp only [List.mem_cons, List.not_mem_nil, or_false] at hl
    rcases hl with rfl | rfl | rfl
    · exact isLine_of_all (t := ascii "noop ") (by decide) (by decide) (by decide)
    · exact isLine_of_all (t := ascii "TYPE I") (by decide) (by decide) (by decide)
    · exact isLine_of_all (t := ascii "PWD") (by decide) (by decide) (by decide)
  · refine .cons ⟨[], [], ascii "noop", ascii " \r", ascii " \r\n", by decide, by decide, ?_⟩ (.cons
      ⟨ascii "\n", [], ascii "TYPE I", CRLF, CRLF, by decide, by decide, ?_⟩ (.cons
      ⟨[], [], ascii "PWD", CRLF, CRLF, by decide, by decide, ?_⟩ .nil))
    all_goals decide

/-- Two lines in one chunk: the second becomes an argument of the first. -/
theorem pipelined_lines_execute_one_command :
    ¬ ∀ lines chunks : List Bytes, (∀ l ∈ lines, IsLine l) → (∀ c ∈ chunks, c ≠ []) →
      chunks.flatten = lines.flatten → executed chunks = lines.flatMap fun l => executed [l] := by
  intro h
  have := h [ascii "NOOP\r\n", ascii "PWD\r\n"] [ascii "NOOP\r\nPWD\r\n"] ?_ (by decide) (by decide)
  · exact absurd this (by decide)
  · intro l hl
    simp only [List.mem_cons, List.not_mem_nil, or_false] at hl
    rcases hl with rfl | rfl
    · exact isLine_of_all (t := ascii "NOOP") (by decide) (by decide) (by decide)
    · exact isLine_of_all (t := ascii "PWD") (by decide) (by decide) (by decide)

end Stream

end CftpServer.Command
