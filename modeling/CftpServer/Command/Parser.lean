import CftpServer.Lib.CString
import Mathlib.Data.List.DropRight

/-!
# The command tokenizer (`engine/command_parser.c`)

`parseTextCommand` reads a C string: a command word, upper-cased, then up to `MAX_ARGS` arguments with double quotes
and backslash escapes. The input of a loop is the text that is left, so the end of the list is the terminating NUL.

Blanks before the text change nothing (`parseTextCommand_blanks_append`). Blanks after it change nothing either when
the text is `Closed`: its last quote is closed and it does not end in a backslash
(`parseTextCommand_append_blanks`).
-/

namespace CftpServer.Command

open CLib

def MAX_ARGS : Nat := 256
def MAX_ARG_LEN : Nat := 4096

/-- `cftp_command_t`; `argc` is the length of `args`. -/
structure CftpCommand where
  command : Bytes
  args : List Bytes
deriving DecidableEq, Repr

def quote : UInt8 := 34
def backslash : UInt8 := 92

/-- One more byte in front of an argument. -/
def push (c : UInt8) (r : Bytes × Bytes) : Bytes × Bytes := (c :: r.1, r.2)

/-- The loop that fills one argument from its index `j` on: the bytes it adds and the text it leaves. The last
argument is set between a backslash and the byte `input[1]` that it takes along. -/
def argLoop : Bytes → Nat → Bool → Bool → Bytes × Bytes
  | [], _, _, _ => ([], [])
  | c :: cs, j, inQuotes, true => push c (argLoop cs (j + 1) inQuotes false)
  | c :: cs, j, inQuotes, false =>
    if j < MAX_ARG_LEN - 1 then
      if c = quote ∧ inQuotes = false then argLoop cs j true false
      else if c = quote ∧ inQuotes = true then argLoop cs j false false
      else if inQuotes = false ∧ isspace c = true then ([], c :: cs)
      else if c = backslash ∧ cs ≠ [] then argLoop cs j inQuotes true
      else push c (argLoop cs (j + 1) inQuotes false)
    else ([], c :: cs)

/-- The loop over the arguments, with the number that may still be filled. -/
def argsLoop : Nat → Bytes → List Bytes
  | 0, _ => []
  | n + 1, input =>
    match skipSpaces input with
    | [] => []
    | c :: cs =>
      let r := argLoop (c :: cs) 0 false false
      r.1 :: argsLoop n (skipSpaces r.2)

/-- The command word: at most `MAX_ARG_LEN - 1` bytes. -/
def commandWord (input : Bytes) : Bytes := (input.takeWhile fun c => !isspace c).take (MAX_ARG_LEN - 1)

/-- `parse_text_command`. -/
def parseTextCommand (input : Bytes) : CftpCommand :=
  let input := skipSpaces input
  let word := commandWord input
  { command := word.map toupper, args := argsLoop MAX_ARGS (skipSpaces (input.drop word.length)) }

example : parseTextCommand (ascii "retr \"my file\".txt\r\n") = ⟨ascii "RETR", [ascii "my file.txt"]⟩ := by decide

/-! ## Room -/

/-- An argument fits its buffer; a byte behind a backslash finds room too, since the backslash was met with room. -/
theorem argLoop_length : ∀ (s : Bytes) (j : Nat) (q e : Bool), j + e.toNat ≤ MAX_ARG_LEN - 1 →
    j + (argLoop s j q e).1.length ≤ MAX_ARG_LEN - 1 := by
  intro s
  induction s with
  | nil => intro j q e h; simp only [argLoop, List.length_nil]; omega
  | cons c cs ih =>
    intro j q e h
    cases e with
    | true =>
      have := ih (j + 1) q false h
      simp only [argLoop, push, List.length_cons]
      omega
    | false =>
      simp only [Bool.toNat_false, Nat.add_zero] at h
      simp only [argLoop]
      split
      · rename_i hlt
        split
        · exact ih j true false h
        · split
          · exact ih j false false h
          · split
            · simpa using h
            · split
              · exact ih j q true hlt
              · have := ih (j + 1) q false hlt
                simp only [push, List.length_cons]
                omega
      · simpa using h

theorem argsLoop_length (n : Nat) : ∀ {input arg : Bytes}, arg ∈ argsLoop n input → arg.length ≤ MAX_ARG_LEN - 1 := by
  induction n with
  | zero => intro input arg h; cases h
  | succ n ih =>
    intro input arg h
    simp only [argsLoop] at h
    split at h
    · cases h
    · rename_i c cs _
      rcases List.mem_cons.mp h with rfl | h
      · simpa using argLoop_length (c :: cs) 0 false false (Nat.zero_le _)
      · exact ih h

/-- Every argument fits its buffer. -/
theorem length_of_mem_args {input arg : Bytes} (h : arg ∈ (parseTextCommand input).args) :
    arg.length ≤ MAX_ARG_LEN - 1 := argsLoop_length _ h

/-! ## Blanks around a text -/

/-- Only blanks. -/
def Blank (w : Bytes) : Prop := ∀ c ∈ w, isspace c = true

instance (w : Bytes) : Decidable (Blank w) := List.decidableBAll (fun c => isspace c = true) w

/-- No quote is open at the end of the text, nor a backslash without its byte. -/
def closedFrom : Bytes → Bool → Bool → Bool
  | [], inQuotes, escaped => !inQuotes && !escaped
  | _ :: cs, inQuotes, true => closedFrom cs inQuotes false
  | c :: cs, inQuotes, false =>
    if c = quote then closedFrom cs (!inQuotes) false
    else if c = backslash then closedFrom cs inQuotes true
    else closedFrom cs inQuotes false

/-- The text behind the command word. -/
def argsText (t : Bytes) : Bytes := (skipSpaces t).dropWhile fun c => !isspace c

/-- The arguments of a text end with it. -/
def Closed (t : Bytes) : Bool := closedFrom (argsText t) false false

section Blanks

variable {w : Bytes}

theorem blank_ne_quote {c : UInt8} (hc : isspace c = true) : c ≠ quote := by
  rintro rfl; revert hc; decide

theorem blank_ne_backslash {c : UInt8} (hc : isspace c = true) : c ≠ backslash := by
  rintro rfl; revert hc; decide

theorem skipSpaces_blank_append (hw : Blank w) (s : Bytes) : skipSpaces (w ++ s) = skipSpaces s := by
  exact List.dropWhile_append_of_pos hw

theorem argsLoop_skipSpaces (n : Nat) (s : Bytes) : argsLoop n (skipSpaces s) = argsLoop n s := by
  cases n with
  | zero => rfl
  | succ n =>
    have h : skipSpaces (skipSpaces s) = skipSpaces s := List.dropWhile_idempotent isspace s
    simp only [argsLoop, h]

/-- Blanks behind a text stay behind it, unless the text is blank itself. -/
theorem skipSpaces_append_blank (hw : Blank w) (s : Bytes) :
    (skipSpaces s = [] ∧ skipSpaces (s ++ w) = []) ∨
      (skipSpaces s ≠ [] ∧ skipSpaces (s ++ w) = skipSpaces s ++ w) := by
  unfold skipSpaces
  rw [List.dropWhile_append]
  by_cases hs : s.dropWhile isspace = []
  · left
    rw [hs]
    exact ⟨rfl, List.dropWhile_eq_nil_iff.mpr hw⟩
  · right
    refine ⟨hs, ?_⟩
    rw [if_neg (by simpa using hs)]

theorem closedFrom_skipSpaces (s : Bytes) : closedFrom (skipSpaces s) false false = closedFrom s false false := by
  induction s with
  | nil => rfl
  | cons c cs ih =>
    by_cases hc : isspace c = true
    · have hq := blank_ne_quote hc
      have hb := blank_ne_backslash hc
      simp only [skipSpaces, List.dropWhile_cons, hc, if_true, closedFrom, if_neg hq, if_neg hb]
      exact ih
    · simp [skipSpaces, hc]

/-- Filling an argument from a closed text with blanks behind it: the argument is the same and the text left is
closed. The bound keeps the argument inside its buffer. -/
theorem argLoop_append (hw : Blank w) : ∀ (s : Bytes) (j : Nat) (q e : Bool), closedFrom s q e = true →
    j + s.length ≤ MAX_ARG_LEN - 1 →
    argLoop (s ++ w) j q e = ((argLoop s j q e).1, (argLoop s j q e).2 ++ w) ∧
      closedFrom (argLoop s j q e).2 false false = true ∧ (argLoop s j q e).2.length ≤ s.length := by
  intro s
  induction s with
  | nil =>
    intro j q e hc _
    simp only [closedFrom, Bool.and_eq_true, Bool.not_eq_true'] at hc
    obtain ⟨rfl, rfl⟩ := hc
    refine ⟨?_, rfl, Nat.le_refl _⟩
    cases w with
    | nil => rfl
    | cons b w =>
      have hb : isspace b = true := hw b List.mem_cons_self
      have hq := blank_ne_quote hb
      simp only [List.nil_append, argLoop, hq, false_and, if_false, hb, and_self, if_true]
      split <;> rfl
  | cons c cs ih =>
    intro j q e hc hj
    simp only [List.length_cons] at hj
    cases e with
    | true =>
      obtain ⟨h₁, h₂, h₃⟩ := ih (j + 1) q false hc (by omega)
      simp only [List.cons_append, argLoop, push, h₁, List.length_cons]
      exact ⟨trivial, h₂, by omega⟩
    | false =>
      have hlt : j < MAX_ARG_LEN - 1 := by omega
      simp only [closedFrom] at hc
      simp only [List.cons_append, argLoop, if_pos hlt, List.length_cons]
      by_cases hq : c = quote
      · rw [if_pos hq] at hc
        cases q with
        | false =>
          obtain ⟨h₁, h₂, h₃⟩ := ih j true false hc (by omega)
          simp only [hq, and_self, if_true, h₁]
          exact ⟨trivial, h₂, by omega⟩
        | true =>
          obtain ⟨h₁, h₂, h₃⟩ := ih j false false hc (by omega)
          simp only [hq, Bool.true_eq_false, and_false, if_false, and_self, if_true, h₁]
          exact ⟨trivial, h₂, by omega⟩
      · rw [if_neg hq] at hc
        simp only [hq, false_and, if_false]
        by_cases hs : q = false ∧ isspace c = true
        · -- the argument ends here, in front of a blank
          have hb := blank_ne_backslash hs.2
          rw [if_neg hb, hs.1] at hc
          simp only [if_pos hs, List.length_cons, List.cons_append, closedFrom, if_neg hq, if_neg hb]
          exact ⟨trivial, hc, Nat.le_refl _⟩
        · simp only [if_neg hs]
          by_cases hb : c = backslash
          · rw [if_pos hb] at hc
            have hcs : cs ≠ [] := by rintro rfl; simp [closedFrom] at hc
            obtain ⟨h₁, h₂, h₃⟩ := ih j q true hc (by omega)
            have hcw : cs ++ w ≠ [] := by simp [hcs]
            simp only [hb, hcs, hcw, ne_eq, not_false_eq_true, and_self, if_true, h₁]
            exact ⟨trivial, h₂, by omega⟩
          · rw [if_neg hb] at hc
            obtain ⟨h₁, h₂, h₃⟩ := ih (j + 1) q false hc (by omega)
            simp only [hb, false_and, if_false, push, h₁]
            exact ⟨trivial, h₂, by omega⟩

/-- The arguments of a closed text with blanks behind it. -/
theorem argsLoop_append (hw : Blank w) : ∀ (n : Nat) (s : Bytes), closedFrom s false false = true →
    s.length ≤ MAX_ARG_LEN - 1 → argsLoop n (s ++ w) = argsLoop n s := by
  intro n
  induction n with
  | zero => intro s _ _; rfl
  | succ n ih =>
    intro s hc hl
    have hlen : (skipSpaces s).length ≤ s.length := List.length_dropWhile_le _ _
    rw [← closedFrom_skipSpaces] at hc
    simp only [argsLoop]
    rcases skipSpaces_append_blank hw s with ⟨h₁, h₂⟩ | ⟨h₁, h₂⟩
    · rw [h₁, h₂]
    · rw [h₂]
      obtain ⟨c, cs, hcs⟩ := List.exists_cons_of_ne_nil h₁
      rw [hcs] at hc hlen ⊢
      obtain ⟨ha, hcl, hle⟩ := argLoop_append hw (c :: cs) 0 false false hc (by omega)
      rw [List.cons_append] at ha
      simp only [List.cons_append, ha]
      congr 1
      -- the text behind the argument, its blanks skipped
      rcases skipSpaces_append_blank hw (argLoop (c :: cs) 0 false false).2 with ⟨h₃, h₄⟩ | ⟨h₃, h₄⟩
      · rw [h₃, h₄]
      · rw [h₄]
        have hle' : (skipSpaces (argLoop (c :: cs) 0 false false).2).length ≤ _ := List.length_dropWhile_le _ _
        exact ih _ (by rw [closedFrom_skipSpaces]; exact hcl) (by omega)

/-- A text shorter than the command buffer splits at its first blank. -/
theorem parseTextCommand_eq {t : Bytes} (ht : t.length ≤ MAX_ARG_LEN - 1) :
    parseTextCommand t = ⟨((skipSpaces t).takeWhile fun c => !isspace c).map toupper,
      argsLoop MAX_ARGS (skipSpaces (argsText t))⟩ := by
  have hl : (skipSpaces t).length ≤ t.length := List.length_dropWhile_le _ _
  have hw : commandWord (skipSpaces t) = (skipSpaces t).takeWhile fun c => !isspace c := by
    apply List.take_of_length_le
    have := (List.takeWhile_prefix (l := skipSpaces t) fun c => !isspace c).length_le
    omega
  have hd : (skipSpaces t).drop ((skipSpaces t).takeWhile fun c => !isspace c).length = argsText t := by
    have hs := List.takeWhile_append_dropWhile (p := fun c => !isspace c) (l := skipSpaces t)
    generalize (skipSpaces t).takeWhile (fun c => !isspace c) = a at hs ⊢
    rw [← hs, List.drop_left]
    rfl
  simp only [parseTextCommand, hw, hd]

/-- Blanks before a text. -/
theorem parseTextCommand_blanks_append (hw : Blank w) (t : Bytes) :
    parseTextCommand (w ++ t) = parseTextCommand t := by
  rw [parseTextCommand, skipSpaces_blank_append hw]; rfl

/-- Blanks behind a text are behind its arguments. -/
theorem parseTextCommand_append (hw : Blank w) {t : Bytes} (hl : t.length + w.length ≤ MAX_ARG_LEN - 1) :
    parseTextCommand (t ++ w) = ⟨((skipSpaces t).takeWhile fun c => !isspace c).map toupper,
      argsLoop MAX_ARGS (skipSpaces (argsText t ++ w))⟩ := by
  rw [parseTextCommand_eq (by simpa using hl)]
  have hwd : w.dropWhile (fun c => !isspace c) = w := by
    cases w with
    | nil => rfl
    | cons b w => simp [hw b List.mem_cons_self]
  have hwt : w.takeWhile (fun c => !isspace c) = [] := by
    cases w with
    | nil => rfl
    | cons b w => simp [hw b List.mem_cons_self]
  rcases skipSpaces_append_blank hw t with ⟨h₁, h₂⟩ | ⟨h₁, h₂⟩
  · have hskip : skipSpaces w = [] := List.dropWhile_eq_nil_iff.mpr hw
    have hnil : skipSpaces [] = [] := rfl
    simp only [argsText, h₁, h₂, List.dropWhile_nil, List.nil_append, hskip, hnil]
  · have htake : (skipSpaces t ++ w).takeWhile (fun c => !isspace c) =
        (skipSpaces t).takeWhile fun c => !isspace c := by
      rw [List.takeWhile_append, hwt, List.append_nil]
      split
      · rename_i he
        exact ((List.takeWhile_prefix _).eq_of_length he).symm
      · rfl
    have hdrop : (skipSpaces t ++ w).dropWhile (fun c => !isspace c) = argsText t ++ w := by
      rw [List.dropWhile_append]
      split
      · rename_i he
        rw [hwd, argsText, List.isEmpty_iff.mp he, List.nil_append]
      · rfl
    have hargs : argsText (t ++ w) = argsText t ++ w := by rw [argsText, h₂, hdrop]
    rw [h₂, htake, hargs]

theorem argsText_length_le (t : Bytes) : (argsText t).length ≤ t.length :=
  (List.length_dropWhile_le _ _).trans (List.length_dropWhile_le _ _)

/-- Blanks behind a closed text. -/
theorem parseTextCommand_append_blanks (hw : Blank w) {t : Bytes} (hc : Closed t = true)
    (hl : t.length + w.length ≤ MAX_ARG_LEN - 1) : parseTextCommand (t ++ w) = parseTextCommand t := by
  rw [parseTextCommand_append hw hl, parseTextCommand_eq (by omega)]
  have hlen : (skipSpaces (argsText t)).length ≤ t.length :=
    (List.length_dropWhile_le _ _).trans (argsText_length_le t)
  congr 1
  rcases skipSpaces_append_blank hw (argsText t) with ⟨h₃, h₄⟩ | ⟨h₃, h₄⟩
  · rw [h₃, h₄]
  · rw [h₄]
    exact argsLoop_append hw _ _ (by rw [closedFrom_skipSpaces]; exact hc) (by omega)

end Blanks

end CftpServer.Command
