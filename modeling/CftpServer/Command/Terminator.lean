import CftpServer.Command.Parser

/-!
# The line terminator (`engine/command_parser.c`)

The tokenizer knows blanks, quotes and backslashes but no lines: CR and LF are blanks only where the text ends outside
quotes and not behind a backslash. `begun` counts the arguments a text begins; what is behind the last that is read
does not matter.

* `terminator_dropped_iff`: a text with CRLF behind it is read as without it exactly if it is closed or has more
  arguments than are read
-/

namespace CftpServer.Command

open CLib

/-- The arguments that begin in a text, from inside an argument, a quote or behind a backslash on. -/
def begun : Bytes → Bool → Bool → Bool → Nat
  | [], _, _, _ => 0
  | _ :: cs, _, inQuotes, true => begun cs true inQuotes false
  | c :: cs, inArg, inQuotes, false =>
    if inQuotes = false ∧ isspace c = true then begun cs false false false
    else
      (if inArg then 0 else 1) +
        if c = quote then begun cs true (!inQuotes) false
        else if c = backslash then begun cs true inQuotes true
        else begun cs true inQuotes false

/-- The arguments a text begins. -/
def arguments (t : Bytes) : Nat := begun (argsText t) false false false

example : arguments (ascii "STOR a \"b c\" d\\ e") = 3 := by decide

/-! ## One argument -/

/-- An argument that ends before the text does ends at the same place with more behind the text. -/
theorem argLoop_left (w : Bytes) (s : Bytes) (j : Nat) (q e : Bool) : (argLoop s j q e).2 ≠ [] →
    argLoop (s ++ w) j q e = ((argLoop s j q e).1, (argLoop s j q e).2 ++ w) := by
  fun_induction argLoop s j q e with
  | case1 => simp
  | case2 c cs j q ih =>
    intro h
    simp only [List.cons_append, argLoop, ih h, push]
  | case3 c cs j q hlt hq ih =>
    intro h
    simp only [List.cons_append, argLoop, if_pos hlt, if_pos hq, ih h]
  | case4 c cs j q hlt hq hq' ih =>
    intro h
    simp only [List.cons_append, argLoop, if_pos hlt, if_neg hq, if_pos hq', ih h]
  | case5 c cs j q hlt hq hq' hs =>
    intro _
    simp only [List.cons_append, argLoop, if_pos hlt, if_neg hq, if_neg hq', if_pos hs]
  | case6 c cs j q hlt hq hq' hs hb ih =>
    intro h
    have hb' : c = backslash ∧ cs ++ w ≠ [] := ⟨hb.1, by simp [hb.2]⟩
    simp only [List.cons_append, argLoop, if_pos hlt, if_neg hq, if_neg hq', if_neg hs, if_pos hb', ih h]
  | case7 c cs j q hlt hq hq' hs hb ih =>
    intro h
    -- a backslash at the end of the text would leave nothing
    have hb' : ¬ (c = backslash ∧ cs ++ w ≠ []) := by
      rintro ⟨hc, -⟩
      have hcs : cs = [] := by
        by_contra hne
        exact hb ⟨hc, hne⟩
      rw [hcs] at h
      exact h rfl
    simp only [List.cons_append, argLoop, if_pos hlt, if_neg hq, if_neg hq', if_neg hs, if_neg hb', ih h, push]
  | case8 c cs j q hlt =>
    intro _
    simp only [List.cons_append, argLoop, if_neg hlt]

theorem argLoop_suffix (s : Bytes) (j : Nat) (q e : Bool) : (argLoop s j q e).2 <:+ s := by
  fun_induction argLoop s j q e with
  | case1 => exact List.suffix_rfl
  | case2 c cs j q ih => exact ih.trans (List.suffix_cons c cs)
  | case3 c cs j q hlt hq ih => exact ih.trans (List.suffix_cons c cs)
  | case4 c cs j q hlt hq hq' ih => exact ih.trans (List.suffix_cons c cs)
  | case5 => exact List.suffix_rfl
  | case6 c cs j q hlt hq hq' hs hb ih => exact ih.trans (List.suffix_cons c cs)
  | case7 c cs j q hlt hq hq' hs hb ih => exact ih.trans (List.suffix_cons c cs)
  | case8 => exact List.suffix_rfl

/-- A byte that neither opens nor closes a quote is none. -/
theorem ne_quote {c : UInt8} {q : Bool} (h : ¬ (c = quote ∧ q = false)) (h' : ¬ (c = quote ∧ q = true)) :
    c ≠ quote := by
  rintro rfl
  cases q
  · exact h ⟨rfl, rfl⟩
  · exact h' ⟨rfl, rfl⟩

/-- Behind an argument the scan goes on outside quotes. -/
theorem scan_argLoop (s : Bytes) (j : Nat) (q e : Bool) : j + s.length ≤ MAX_ARG_LEN - 1 →
    begun s true q e = begun (argLoop s j q e).2 false false false ∧
      ((argLoop s j q e).2 ≠ [] → closedFrom s q e = closedFrom (argLoop s j q e).2 false false) := by
  fun_induction argLoop s j q e with
  | case1 => simp [begun]
  | case2 c cs j q ih =>
    intro h
    simp only [List.length_cons] at h
    exact ih (by omega)
  | case3 c cs j q hlt hq ih =>
    intro h
    obtain ⟨rfl, rfl⟩ := hq
    simp only [List.length_cons] at h
    have hblank : ¬ isspace quote = true := by decide
    simpa [begun, closedFrom, hblank] using ih (by omega)
  | case4 c cs j q hlt hq hq' ih =>
    intro h
    obtain ⟨rfl, rfl⟩ := hq'
    simp only [List.length_cons] at h
    simpa [begun, closedFrom] using ih (by omega)
  | case5 c cs j q hlt hq hq' hs =>
    intro _
    simp [begun, hs]
  | case6 c cs j q hlt hq hq' hs hb ih =>
    intro h
    simp only [List.length_cons] at h
    have hc := ne_quote hq hq'
    obtain ⟨rfl, -⟩ := hb
    simpa [begun, closedFrom, hs, hc] using ih (by omega)
  | case7 c cs j q hlt hq hq' hs hb ih =>
    intro h
    simp only [List.length_cons] at h
    have hc := ne_quote hq hq'
    by_cases hslash : c = backslash
    · obtain rfl : cs = [] := by
        by_contra hne
        exact hb ⟨hslash, hne⟩
      obtain rfl := hslash
      simp [begun, argLoop, push, hs, hc]
    · simpa [begun, closedFrom, hs, hc, hslash, push] using ih (by omega)
  | case8 c cs j q hlt =>
    intro h
    simp only [List.length_cons] at h
    omega

def crlf : Bytes := ascii "\r\n"

theorem blank_crlf : Blank crlf := by decide

/-- An argument that the end of the text cuts short takes CR along. -/
theorem argLoop_unclosed (s : Bytes) (j : Nat) (q e : Bool) : j + s.length + 2 ≤ MAX_ARG_LEN - 1 →
    (argLoop s j q e).2 = [] → closedFrom s q e = false → (argLoop (s ++ crlf) j q e).1 ≠ (argLoop s j q e).1 := by
  fun_induction argLoop s j q e with
  | case1 j q e =>
    intro h _ hopen
    simp only [List.length_nil] at h
    have hlt : j < MAX_ARG_LEN - 1 := by omega
    cases e with
    | true => simp [crlf, ascii, argLoop, push]
    | false =>
      cases q with
      | false => simp [closedFrom] at hopen
      | true =>
        have hcr : (13 : UInt8) ≠ quote ∧ (13 : UInt8) ≠ backslash := by decide
        simp [crlf, ascii, argLoop, push, hlt, hcr.1, hcr.2]
  | case2 c cs j q ih =>
    intro h hend hopen
    simp only [List.length_cons] at h
    have := ih (by omega) hend hopen
    simpa [argLoop, push] using this
  | case3 c cs j q hlt hq ih =>
    intro h hend hopen
    simp only [List.length_cons] at h
    obtain ⟨rfl, rfl⟩ := hq
    have := ih (by omega) hend (by simpa [closedFrom] using hopen)
    simpa [argLoop, hlt] using this
  | case4 c cs j q hlt hq hq' ih =>
    intro h hend hopen
    simp only [List.length_cons] at h
    obtain ⟨rfl, rfl⟩ := hq'
    have := ih (by omega) hend (by simpa [closedFrom] using hopen)
    simpa [argLoop, hlt] using this
  | case5 c cs j q hlt hq hq' hs =>
    intro _ hend _
    exact (List.cons_ne_nil c cs hend).elim
  | case6 c cs j q hlt hq hq' hs hb ih =>
    intro h hend hopen
    simp only [List.length_cons] at h
    have hc := ne_quote hq hq'
    obtain ⟨rfl, hcs⟩ := hb
    have := ih (by omega) hend (by simpa [closedFrom, hc] using hopen)
    simpa [argLoop, hlt, hc, hs, hcs] using this
  | case7 c cs j q hlt hq hq' hs hb ih =>
    intro h hend hopen
    simp only [List.length_cons] at h
    have hc := ne_quote hq hq'
    by_cases hslash : c = backslash
    · obtain rfl : cs = [] := by
        by_contra hne
        exact hb ⟨hslash, hne⟩
      obtain rfl := hslash
      -- alone the backslash stands for itself, before CR it does not
      have hcr : (13 : UInt8) ≠ backslash := by decide
      simp [crlf, ascii, argLoop, push, hlt, hc, hs, hcr]
    · have := ih (by omega) hend (by simpa [closedFrom, hc, hslash] using hopen)
      simpa [argLoop, push, hlt, hc, hs, hslash] using this
  | case8 c cs j q hlt =>
    intro h _ _
    simp only [List.length_cons] at h
    omega

/-! ## All arguments -/

theorem begun_skipSpaces (s : Bytes) : begun (skipSpaces s) false false false = begun s false false false := by
  induction s with
  | nil => rfl
  | cons c cs ih =>
    by_cases hc : isspace c = true
    · have hskip : skipSpaces (c :: cs) = skipSpaces cs := List.dropWhile_cons_of_pos hc
      rw [hskip, ih]
      simp [begun, hc]
    · have hskip : skipSpaces (c :: cs) = c :: cs := List.dropWhile_cons_of_neg hc
      rw [hskip]

theorem begun_solid {c : UInt8} (hc : isspace c = false) (cs : Bytes) :
    begun (c :: cs) false false false = begun (c :: cs) true false false + 1 := by
  simp [begun, hc, Nat.add_comm]

/-- One argument, then the rest. -/
theorem argsLoop_solid {c : UInt8} (hc : isspace c = false) (n : Nat) (cs : Bytes) :
    argsLoop (n + 1) (c :: cs) =
      (argLoop (c :: cs) 0 false false).1 :: argsLoop n (argLoop (c :: cs) 0 false false).2 := by
  have hskip : skipSpaces (c :: cs) = c :: cs := List.dropWhile_cons_of_neg (by simp [hc])
  rw [argsLoop, hskip]
  simp only [argsLoop_skipSpaces]

/-- A text without arguments is closed. -/
theorem closedFrom_of_begun {s : Bytes} (h : begun s false false false = 0) : closedFrom s false false = true := by
  rw [← begun_skipSpaces] at h
  rw [← closedFrom_skipSpaces]
  cases hs : skipSpaces s with
  | nil => rfl
  | cons c cs =>
    have hne : skipSpaces s ≠ [] := by simp [hs]
    have hc : isspace ((skipSpaces s).head hne) = false := List.head_dropWhile_not isspace hne
    simp only [hs, List.head_cons] at hc
    rw [hs, begun_solid hc] at h
    omega

/-- So many arguments are read as without CRLF exactly if the text is closed or has more. -/
theorem argsLoop_crlf_iff (n : Nat) : ∀ {s : Bytes}, s.length + 2 ≤ MAX_ARG_LEN - 1 →
    (argsLoop n (s ++ crlf) = argsLoop n s ↔ closedFrom s false false = true ∨ n < begun s false false false) := by
  induction n with
  | zero =>
    intro s _
    refine iff_of_true rfl ?_
    rcases Nat.eq_zero_or_pos (begun s false false false) with h | h
    · exact .inl (closedFrom_of_begun h)
    · exact .inr h
  | succ n ih =>
    intro s h
    by_cases hcl : closedFrom s false false = true
    · exact iff_of_true (argsLoop_append blank_crlf (n + 1) s hcl (by omega)) (.inl hcl)
    have hlen : (skipSpaces s).length ≤ s.length := List.length_dropWhile_le _ _
    rw [← argsLoop_skipSpaces (n + 1) (s ++ crlf), ← argsLoop_skipSpaces (n + 1) s, ← begun_skipSpaces s]
    rw [← closedFrom_skipSpaces] at hcl ⊢
    rcases skipSpaces_append_blank blank_crlf s with ⟨h₁, -⟩ | ⟨h₁, h₂⟩
    · rw [h₁] at hcl
      exact (hcl rfl).elim
    have hc : isspace ((skipSpaces s).head h₁) = false := List.head_dropWhile_not isspace h₁
    obtain ⟨c, cs, hcs⟩ := List.exists_cons_of_ne_nil h₁
    rw [h₂]
    simp only [hcs, List.head_cons] at hc hcl hlen ⊢
    obtain ⟨hbegun, hclosed⟩ := scan_argLoop (c :: cs) 0 false false (by omega)
    have hrest := (argLoop_suffix (c :: cs) 0 false false).length_le
    rw [begun_solid hc, hbegun, List.cons_append, argsLoop_solid hc, argsLoop_solid hc, ← List.cons_append]
    by_cases hend : (argLoop (c :: cs) 0 false false).2 = []
    · -- the open argument is the last one
      have hopen := argLoop_unclosed (c :: cs) 0 false false (by omega) hend (Bool.eq_false_iff.mpr hcl)
      refine iff_of_false (fun heq => hopen (List.cons.inj heq).1) ?_
      rw [hend, not_or]
      exact ⟨hcl, by simp [begun]⟩
    · rw [hclosed hend, argLoop_left crlf (c :: cs) 0 false false hend, List.cons.injEq, ih (by omega),
        Nat.add_lt_add_iff_right]
      simp only [true_and]

/-- **CRLF is no part of an argument exactly if** the text in front of it ends outside quotes and not in a backslash, or
has more arguments than are read. -/
theorem terminator_dropped_iff {t : Bytes} (hl : t.length + 2 ≤ 1023) :
    parseTextCommand (t ++ crlf) = parseTextCommand t ↔ Closed t = true ∨ MAX_ARGS < arguments t := by
  have hlen : t.length + crlf.length ≤ MAX_ARG_LEN - 1 := Nat.le_trans hl (by decide)
  have hargs := argsText_length_le t
  have hfits : (argsText t).length + 2 ≤ MAX_ARG_LEN - 1 := by
    rw [MAX_ARG_LEN]
    omega
  rw [parseTextCommand_append blank_crlf hlen, parseTextCommand_eq (Nat.le_trans (Nat.le_add_right _ _) hlen),
    CftpCommand.mk.injEq, argsLoop_skipSpaces, argsLoop_skipSpaces, argsLoop_crlf_iff MAX_ARGS hfits, arguments, Closed]
  simp only [true_and]

/-- A plain command. -/
theorem terminator_dropped_retr :
    parseTextCommand (ascii "RETR \"a b\"" ++ crlf) = parseTextCommand (ascii "RETR \"a b\"") :=
  (terminator_dropped_iff (by decide)).mpr (.inl (by decide))

/-- An open quote takes the end of the line into the name. -/
theorem terminator_kept_mkd :
    parseTextCommand (ascii "MKD \"x" ++ crlf) = ⟨ascii "MKD", [ascii "x\r\n"]⟩ ∧
      parseTextCommand (ascii "MKD \"x") = ⟨ascii "MKD", [ascii "x"]⟩ ∧
      parseTextCommand (ascii "MKD \"x" ++ crlf) ≠ parseTextCommand (ascii "MKD \"x") := by
  refine ⟨by decide, by decide, by decide⟩

end CftpServer.Command
