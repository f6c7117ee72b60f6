import CftpServer.Command.Parser
import CftpServer.Lib.Buffer
import CftpServer.Lib.Loop

/-!
# The tokenizer on its buffers (`engine/command_parser.c`)

`parse_text_command` as it reads and writes memory: an index into the input, the arrays of `cftp_command_t`, and a block
of `malloc` for each argument. A read behind the NUL of the input fails, and so do a write outside of an array and a
loop that takes more rounds than the input has bytes. One lemma for each loop says that it does not fail, and what it
leaves; so the buffers hold what `parseTextCommand` gives (`parseTextCommandMem_refines`).
-/

namespace CftpServer.Command

open CLib Memory Loops

/-- `input[i]`: a byte of the text, or its NUL. -/
def inputAt (text : Bytes) (i : Nat) : Option UInt8 := (text ++ [0])[i]?

/-- A block of `malloc(MAX_ARG_LEN)`. -/
abbrev ArgBlock := Buffer UInt8 MAX_ARG_LEN

/-- `cftp_command_t` in memory; a NULL of `args` is `none`. -/
structure CommandMem where
  command : Buffer UInt8 MAX_ARG_LEN
  args : Buffer (Option ArgBlock) (MAX_ARGS + 1)
  argc : Nat

/-- `while (isspace((unsigned char)*input)) input++;` -/
def skipLoop (text : Bytes) (input : Nat) : Option Nat :=
  loop (fun input => (inputAt text input).map fun c => if isspace c = true then .next (input + 1) else .done input)
    (text.length + 1) input

/-- The variables of the loop over the command word. -/
structure WordScan where
  input : Nat
  i : Nat
  command : Buffer UInt8 MAX_ARG_LEN

/-- One round of the loop over the command word. -/
def wordRound (text : Bytes) (s : WordScan) : Option (Round WordScan) :=
  (inputAt text s.input).bind fun c =>
  if c ≠ 0 ∧ isspace c = false ∧ s.i < MAX_ARG_LEN - 1 then
    (s.command.write s.i [toupper c]).map fun command => .next ⟨s.input + 1, s.i + 1, command⟩
  else some (.done s)

/-- The variables of the loop that fills one argument. -/
structure ArgScan where
  input : Nat
  j : Nat
  inQuotes : Bool
  arg : ArgBlock

/-- `arg[j++] = c; input += n;` -/
def putArg (s : ArgScan) (c : UInt8) (n : Nat) : Option (Round ArgScan) :=
  (s.arg.write s.j [c]).map fun arg => .next ⟨s.input + n, s.j + 1, s.inQuotes, arg⟩

/-- One round of the loop that fills one argument. `input[1]` is read behind a backslash only. -/
def argRound (text : Bytes) (s : ArgScan) : Option (Round ArgScan) :=
  (inputAt text s.input).bind fun c =>
  if c ≠ 0 ∧ s.j < MAX_ARG_LEN - 1 then
    if c = quote ∧ s.inQuotes = false then some (.next { s with inQuotes := true, input := s.input + 1 })
    else if c = quote ∧ s.inQuotes = true then some (.next { s with inQuotes := false, input := s.input + 1 })
    else if s.inQuotes = false ∧ isspace c = true then some (.done s)
    else if c = backslash then
      (inputAt text (s.input + 1)).bind fun d => if d ≠ 0 then putArg s d 2 else putArg s c 1
    else putArg s c 1
  else some (.done s)

/-- The variables of the loop over the arguments. -/
structure ArgsScan where
  input : Nat
  argc : Nat
  args : Buffer (Option ArgBlock) (MAX_ARGS + 1)

/-- One round of the loop over the arguments; `malloc n` is what the call for argument `n` gives. -/
def argsRound (malloc : Nat → Option ArgBlock) (text : Bytes) (s : ArgsScan) : Option (Round ArgsScan) :=
  (inputAt text s.input).bind fun c =>
  if c ≠ 0 ∧ s.argc < MAX_ARGS then
    (skipLoop text s.input).bind fun input =>
    (inputAt text input).bind fun c =>
    if c = 0 then some (.done { s with input := input })
    else match malloc s.argc with
      | none => some (.done { s with input := input })
      | some arg =>
        (loop (argRound text) (text.length + 1) ⟨input, 0, false, arg⟩).bind fun r =>
        (r.arg.write r.j [0]).bind fun arg =>
        (s.args.write s.argc [some arg]).bind fun args =>
        (skipLoop text r.input).map fun input => .next ⟨input, s.argc + 1, args⟩
  else some (.done s)

/-- `parse_text_command` in memory. -/
def parseTextCommandMem (malloc : Nat → Option ArgBlock) (text : Bytes) : Option CommandMem :=
  (skipLoop text 0).bind fun input =>
  (loop (wordRound text) (text.length + 1) ⟨input, 0, .fill MAX_ARG_LEN 0⟩).bind fun w =>
  (w.command.write w.i [0]).bind fun command =>
  (skipLoop text w.input).bind fun input =>
  (loop (argsRound malloc text) (MAX_ARGS + 1) ⟨input, 0, .fill (MAX_ARGS + 1) none⟩).bind fun a =>
  (a.args.write a.argc [none]).map fun args => ⟨command, args, a.argc⟩

/-! ## Reading -/

section Reading

variable {text : Bytes} {p : Nat}

/-- The end of the text reads as NUL. -/
theorem inputAt_end (hp : p ≤ text.length) (h : text.drop p = []) : inputAt text p = some 0 := by
  have hlen : text.length ≤ p := List.drop_eq_nil_iff.mp h
  obtain rfl : p = text.length := Nat.le_antisymm hp hlen
  simp [inputAt]

/-- A byte of the text, and what is behind it. -/
theorem inputAt_cons {c : UInt8} {cs : Bytes} (h : text.drop p = c :: cs) :
    inputAt text p = some c ∧ text.drop (p + 1) = cs ∧ p + 1 ≤ text.length ∧ c ∈ text := by
  have hlt : p < text.length := by
    by_contra hge
    rw [List.drop_eq_nil_iff.mpr (Nat.le_of_not_lt hge)] at h
    cases h
  have hget := List.drop_eq_getElem_cons hlt
  rw [h, List.cons.injEq] at hget
  refine ⟨?_, hget.2.symm, hlt, hget.1 ▸ List.getElem_mem hlt⟩
  rw [inputAt, List.getElem?_append_left hlt, List.getElem?_eq_getElem hlt, hget.1]

theorem skipLoop_spec (hp : p ≤ text.length) :
    ∃ p', skipLoop text p = some p' ∧ p' ≤ text.length ∧ text.drop p' = skipSpaces (text.drop p) := by
  refine loop_spec (I := fun i => i ≤ text.length ∧ skipSpaces (text.drop i) = skipSpaces (text.drop p))
    (Q := fun i => i ≤ text.length ∧ text.drop i = skipSpaces (text.drop p)) (m := fun i => text.length - i)
    (fun i hi => ?_) (text.length + 1) ⟨hp, rfl⟩ (by omega)
  obtain ⟨hle, hskip⟩ := hi
  cases h : text.drop i with
  | nil =>
    refine .inr ⟨i, by rw [inputAt_end hle h]; rfl, hle, ?_⟩
    rw [← hskip, h]
    rfl
  | cons c cs =>
    obtain ⟨hread, hcs, hle', -⟩ := inputAt_cons h
    rw [h] at hskip
    by_cases hc : isspace c = true
    · refine .inl ⟨i + 1, by simp [hread, hc], ⟨hle', ?_⟩, by dsimp only; omega⟩
      rw [hcs, ← hskip]
      exact (List.dropWhile_cons_of_pos hc).symm
    · refine .inr ⟨i, by simp [hread, hc], hle, ?_⟩
      rw [← hskip, h]
      exact (List.dropWhile_cons_of_neg hc).symm

end Reading

/-! ## The command word -/

section Loops

variable {text : Bytes} (hnul : 0 ∉ text)
include hnul

/-- The state of the loop over the command word: what it has written, and that the rest of the word is still to come. -/
structure WordFilling (text : Bytes) (p : Nat) (s : WordScan) (word : Bytes) : Prop where
  i : s.i = word.length
  position : s.input = p + s.i
  input : s.input ≤ text.length
  holds : Holds s.command (word.map toupper)
  rest : commandWord (text.drop p) =
    word ++ ((text.drop s.input).takeWhile fun c => !isspace c).take (MAX_ARG_LEN - 1 - word.length)

/-- What the loop over the command word leaves: the whole word. -/
structure WordRead (text : Bytes) (p : Nat) (s : WordScan) : Prop where
  i : s.i = (commandWord (text.drop p)).length
  position : s.input = p + s.i
  input : s.input ≤ text.length
  holds : Holds s.command ((commandWord (text.drop p)).map toupper)

omit hnul in
/-- The loop is left when nothing more of the command word is in front. -/
theorem WordFilling.done {p : Nat} {s : WordScan} {word : Bytes} (h : WordFilling text p s word)
    (hnil : ((text.drop s.input).takeWhile fun c => !isspace c).take (MAX_ARG_LEN - 1 - word.length) = []) :
    WordRead text p s := by
  have hword := h.rest
  rw [hnil, List.append_nil] at hword
  refine ⟨?_, h.position, h.input, ?_⟩
  · rw [hword]
    exact h.i
  · rw [hword]
    exact h.holds

/-- One round of the loop over the command word. -/
theorem WordFilling.round {p : Nat} {s : WordScan} {word : Bytes} (h : WordFilling text p s word) :
    (∃ s', wordRound text s = some (.next s') ∧ (∃ word', WordFilling text p s' word') ∧
      text.length - s'.input < text.length - s.input) ∨
    ∃ s', wordRound text s = some (.done s') ∧ WordRead text p s' := by
  have hmax : MAX_ARG_LEN = 4096 := rfl
  have hi := h.i
  have hposition := h.position
  cases hdrop : text.drop s.input with
  | nil =>
    refine .inr ⟨s, ?_, h.done (by rw [hdrop, List.takeWhile_nil, List.take_nil])⟩
    rw [wordRound, inputAt_end h.input hdrop]
    rfl
  | cons c cs =>
    obtain ⟨hread, hcs, hle, hmem⟩ := inputAt_cons hdrop
    have hc0 : c ≠ 0 := fun h0 => hnul (h0 ▸ hmem)
    by_cases hgo : isspace c = false ∧ s.i < MAX_ARG_LEN - 1
    · obtain ⟨command, hwrite, hholds⟩ := Buffer.write_holds (m := [toupper c]) h.holds
        (by rw [List.length_map, List.length_singleton]; omega)
      rw [List.length_map, ← hi] at hwrite
      refine .inl ⟨⟨s.input + 1, s.i + 1, command⟩, ?_, ⟨word ++ [c], ?_, ?_, hle, ?_, ?_⟩, by dsimp only; omega⟩
      · rw [wordRound, hread, Option.bind_some, if_pos ⟨hc0, hgo⟩, hwrite]
        rfl
      · rw [List.length_append, List.length_singleton, hi]
      · dsimp only
        omega
      · rw [List.map_append]
        exact hholds
      · obtain ⟨n, hn⟩ : ∃ n, MAX_ARG_LEN - 1 - word.length = n + 1 := ⟨MAX_ARG_LEN - 1 - word.length - 1, by omega⟩
        have htake : (c :: cs).takeWhile (fun c => !isspace c) = c :: cs.takeWhile fun c => !isspace c := by
          simp [hgo.1]
        rw [h.rest, hdrop, htake, hn, List.take_succ_cons, hcs, List.append_assoc, List.length_append,
          List.length_singleton, ← Nat.sub_sub, hn]
        rfl
    · refine .inr ⟨s, ?_, h.done ?_⟩
      · rw [wordRound, hread, Option.bind_some, if_neg fun hall => hgo hall.2]
      · rw [hdrop]
        by_cases hc : isspace c = true
        · have htake : (c :: cs).takeWhile (fun c => !isspace c) = [] := by simp [hc]
          rw [htake, List.take_nil]
        · have hfull : MAX_ARG_LEN - 1 - word.length = 0 := by
            have hlong : ¬ s.i < MAX_ARG_LEN - 1 := fun hlt => hgo ⟨by simpa using hc, hlt⟩
            omega
          rw [hfull, List.take_zero]

theorem wordLoop_spec {p : Nat} (hp : p ≤ text.length) (command : Buffer UInt8 MAX_ARG_LEN) :
    ∃ w, loop (wordRound text) (text.length + 1) ⟨p, 0, command⟩ = some w ∧ WordRead text p w :=
  loop_spec (I := fun s => ∃ word, WordFilling text p s word) (m := fun s => text.length - s.input)
    (fun _ ⟨_, hs⟩ => hs.round hnul) (text.length + 1) ⟨[], rfl, rfl, hp, holds_nil _, rfl⟩ (by dsimp only; omega)

/-! ## One argument -/

/-- The state of the loop over one argument: what it has written, and that the rest of the argument is still to come. -/
structure Filling (text : Bytes) (p : Nat) (s : ArgScan) (arg : Bytes) : Prop where
  j : s.j = arg.length
  room : s.j ≤ MAX_ARG_LEN - 1
  input : s.input ≤ text.length
  holds : Holds s.arg arg
  rest : argLoop (text.drop p) 0 false false = (arg ++ (argLoop (text.drop s.input) s.j s.inQuotes false).1,
    (argLoop (text.drop s.input) s.j s.inQuotes false).2)

omit hnul in
/-- A byte more. -/
theorem Filling.put {p n : Nat} {s : ArgScan} {arg : Bytes} {c : UInt8} (h : Filling text p s arg)
    (hroom : s.j < MAX_ARG_LEN - 1) (hn : s.input + n ≤ text.length)
    (hrest : argLoop (text.drop s.input) s.j s.inQuotes false =
      push c (argLoop (text.drop (s.input + n)) (s.j + 1) s.inQuotes false)) :
    ∃ s', putArg s c n = some (.next s') ∧ Filling text p s' (arg ++ [c]) ∧ s'.input = s.input + n := by
  have hmax : MAX_ARG_LEN = 4096 := rfl
  have hj := h.j
  obtain ⟨arg', hwrite, hholds⟩ := Buffer.write_holds (m := [c]) h.holds (by rw [List.length_singleton]; omega)
  rw [← h.j] at hwrite
  refine ⟨⟨s.input + n, s.j + 1, s.inQuotes, arg'⟩, by rw [putArg, hwrite]; rfl, ⟨?_, hroom, hn, hholds, ?_⟩, rfl⟩
  · rw [List.length_append, List.length_singleton, h.j]
  · rw [h.rest, hrest, push, List.append_assoc]
    rfl

/-- What the loop over one argument leaves: the whole argument, with the rest of the text behind it. -/
structure ArgRead (text : Bytes) (p : Nat) (s : ArgScan) : Prop where
  j : s.j = (argLoop (text.drop p) 0 false false).1.length
  input : s.input ≤ text.length
  holds : Holds s.arg (argLoop (text.drop p) 0 false false).1
  left : text.drop s.input = (argLoop (text.drop p) 0 false false).2

omit hnul in
/-- The loop is left where the list function stops. -/
theorem Filling.done {p : Nat} {s : ArgScan} {arg : Bytes} (h : Filling text p s arg)
    (hstop : argLoop (text.drop s.input) s.j s.inQuotes false = ([], text.drop s.input)) : ArgRead text p s := by
  have hrest := h.rest
  rw [hstop, List.append_nil] at hrest
  refine ⟨?_, h.input, ?_, ?_⟩
  · rw [hrest]
    exact h.j
  · rw [hrest]
    exact h.holds
  · rw [hrest]

/-- One round of the loop over one argument. -/
theorem Filling.round {p : Nat} {s : ArgScan} {arg : Bytes} (h : Filling text p s arg) :
    (∃ s', argRound text s = some (.next s') ∧ (∃ arg', Filling text p s' arg') ∧
      text.length - s'.input < text.length - s.input) ∨
    ∃ s', argRound text s = some (.done s') ∧ ArgRead text p s' := by
  cases hdrop : text.drop s.input with
  | nil =>
    refine .inr ⟨s, ?_, h.done (by rw [hdrop]; rfl)⟩
    rw [argRound, inputAt_end h.input hdrop]
    rfl
  | cons c cs =>
    obtain ⟨hread, hcs, hle, hmem⟩ := inputAt_cons hdrop
    have hc0 : c ≠ 0 := fun h0 => hnul (h0 ▸ hmem)
    by_cases hj : s.j < MAX_ARG_LEN - 1
    swap
    · refine .inr ⟨s, ?_, h.done (by rw [hdrop, argLoop, if_neg hj])⟩
      rw [argRound, hread, Option.bind_some, if_neg fun hgo => hj hgo.2]
    -- a byte that stands for itself
    have hbyte : argLoop (text.drop s.input) s.j s.inQuotes false = push c (argLoop cs (s.j + 1) s.inQuotes false) →
        ∃ s', putArg s c 1 = some (.next s') ∧ (∃ arg', Filling text p s' arg') ∧
          text.length - s'.input < text.length - s.input := by
      intro hpush
      obtain ⟨s', hs', hfill, hinput⟩ := h.put hj hle (by rw [hcs]; exact hpush)
      exact ⟨s', hs', ⟨_, hfill⟩, by omega⟩
    unfold argRound
    rw [hread, Option.bind_some, if_pos ⟨hc0, hj⟩]
    by_cases hopen : c = quote ∧ s.inQuotes = false
    · rw [if_pos hopen]
      refine .inl ⟨_, rfl, ⟨arg, h.j, h.room, hle, h.holds, ?_⟩, by dsimp only; omega⟩
      rw [h.rest, hdrop, argLoop, if_pos hj, if_pos hopen, hcs]
    rw [if_neg hopen]
    by_cases hclose : c = quote ∧ s.inQuotes = true
    · rw [if_pos hclose]
      refine .inl ⟨_, rfl, ⟨arg, h.j, h.room, hle, h.holds, ?_⟩, by dsimp only; omega⟩
      rw [h.rest, hdrop, argLoop, if_pos hj, if_neg hopen, if_pos hclose, hcs]
    rw [if_neg hclose]
    by_cases hblank : s.inQuotes = false ∧ isspace c = true
    · rw [if_pos hblank]
      exact .inr ⟨s, rfl, h.done (by rw [hdrop, argLoop, if_pos hj, if_neg hopen, if_neg hclose, if_pos hblank])⟩
    rw [if_neg hblank]
    have hloop : argLoop (text.drop s.input) s.j s.inQuotes false = if c = backslash ∧ cs ≠ [] then
        argLoop cs s.j s.inQuotes true else push c (argLoop cs (s.j + 1) s.inQuotes false) := by
      rw [hdrop, argLoop, if_pos hj, if_neg hopen, if_neg hclose, if_neg hblank]
    by_cases hslash : c = backslash
    swap
    · rw [if_neg hslash]
      exact .inl (hbyte (by rw [hloop, if_neg fun hb => hslash hb.1]))
    rw [if_pos hslash]
    cases cs with
    | nil =>
      rw [inputAt_end hle hcs]
      exact .inl (hbyte (by rw [hloop, if_neg fun hb => hb.2 rfl]))
    | cons d ds =>
      obtain ⟨hread', hds, hle', hmem'⟩ := inputAt_cons hcs
      have hd0 : d ≠ 0 := fun h0 => hnul (h0 ▸ hmem')
      rw [hread', Option.bind_some, if_pos hd0]
      obtain ⟨s', hs', hfill, hinput⟩ := h.put (c := d) (n := 2) hj hle'
        (by rw [hloop, if_pos ⟨hslash, List.cons_ne_nil d ds⟩, hds]; rfl)
      exact .inl ⟨s', hs', ⟨_, hfill⟩, by omega⟩

theorem argLoop_spec {p : Nat} (hp : p ≤ text.length) (block : ArgBlock) :
    ∃ r, loop (argRound text) (text.length + 1) ⟨p, 0, false, block⟩ = some r ∧ ArgRead text p r :=
  loop_spec (I := fun s => ∃ arg, Filling text p s arg) (m := fun s => text.length - s.input)
    (fun _ ⟨_, hs⟩ => hs.round hnul) (text.length + 1)
    ⟨[], rfl, Nat.zero_le _, hp, holds_nil _, rfl⟩ (by dsimp only; omega)

/-! ## All arguments -/

omit hnul in
/-- What an argument is made of comes from the text. -/
theorem argLoop_subset (s : Bytes) (j : Nat) (q e : Bool) : (argLoop s j q e).1 ⊆ s := by
  fun_induction argLoop s j q e with
  | case1 | case5 | case8 => exact List.nil_subset _
  | case2 c cs j q ih | case7 c cs j q _ _ _ _ _ ih => exact List.cons_subset_cons c ih
  | case3 c cs j q _ _ ih | case4 c cs j q _ _ _ ih | case6 c cs j q _ _ _ _ _ ih =>
    exact List.subset_cons_of_subset c ih

/-- The blocks of the arguments so far, in `args`, and that the other arguments are still to come. -/
structure Filled (text : Bytes) (p : Nat) (s : ArgsScan) (blocks : List ArgBlock) : Prop where
  argc : s.argc = blocks.length
  room : s.argc ≤ MAX_ARGS
  input : s.input ≤ text.length
  holds : Holds s.args (blocks.map some)
  terminated : ∀ block ∈ blocks, 0 ∈ block.cells
  rest : argsLoop MAX_ARGS (text.drop p) =
    blocks.map Buffer.str ++ argsLoop (MAX_ARGS - s.argc) (text.drop s.input)

/-- What the loop over the arguments leaves: all of them, or those in front of the first for which there is no block. -/
structure Parsed (malloc : Nat → Option ArgBlock) (all : List Bytes) (s : ArgsScan) (blocks : List ArgBlock) :
    Prop where
  argc : s.argc = blocks.length
  room : s.argc ≤ MAX_ARGS
  holds : Holds s.args (blocks.map some)
  terminated : ∀ block ∈ blocks, 0 ∈ block.cells
  strs : blocks.map Buffer.str <+: all
  full : (∀ n, malloc n ≠ none) → blocks.map Buffer.str = all

omit hnul in
/-- The loop is left when there is nothing more to read. -/
theorem Filled.parsed {malloc : Nat → Option ArgBlock} {p : Nat} {s : ArgsScan} {blocks : List ArgBlock}
    (h : Filled text p s blocks) (hnil : argsLoop (MAX_ARGS - s.argc) (text.drop s.input) = []) {input : Nat} :
    Parsed malloc (argsLoop MAX_ARGS (text.drop p)) { s with input := input } blocks := by
  have hrest := h.rest
  rw [hnil, List.append_nil] at hrest
  exact ⟨h.argc, h.room, h.holds, h.terminated, hrest ▸ List.prefix_refl _, fun _ => hrest.symm⟩

/-- One more argument, in a block that `malloc` gave. -/
theorem Filled.argument {p q : Nat} {s : ArgsScan} {blocks : List ArgBlock} (h : Filled text p s blocks)
    (hmore : s.argc < MAX_ARGS) (hq : q ≤ text.length) (hskipped : text.drop q = skipSpaces (text.drop s.input))
    (hne : text.drop q ≠ []) (block : ArgBlock) :
    ∃ r arg args q', loop (argRound text) (text.length + 1) ⟨q, 0, false, block⟩ = some r ∧
      r.arg.write r.j [0] = some arg ∧ s.args.write s.argc [some arg] = some args ∧ skipLoop text r.input = some q' ∧
      Filled text p ⟨q', s.argc + 1, args⟩ (blocks ++ [arg]) := by
  have hmax : MAX_ARG_LEN = 4096 := rfl
  have hargc := h.argc
  have hlen := argLoop_length (text.drop q) 0 false false (Nat.zero_le _)
  obtain ⟨n, hn⟩ : ∃ n, MAX_ARGS - s.argc = n + 1 := ⟨MAX_ARGS - s.argc - 1, by omega⟩
  obtain ⟨r, hloop, hr⟩ := argLoop_spec hnul hq block
  obtain ⟨arg, hwrite, harg⟩ := Buffer.write_holds (m := [0]) hr.holds (by rw [List.length_singleton]; omega)
  obtain ⟨args, hwrite', hargs⟩ := Buffer.write_holds (m := [some arg]) h.holds
    (by rw [List.length_map, List.length_singleton]; omega)
  obtain ⟨q', hskip, hq', hskipped'⟩ := skipLoop_spec hr.input
  rw [← hr.j] at hwrite
  rw [List.length_map, ← hargc] at hwrite'
  refine ⟨r, arg, args, q', hloop, hwrite, hwrite', hskip, ?_, hmore, hq', ?_, fun b hb => ?_, ?_⟩
  · rw [List.length_append, List.length_singleton, hargc]
  · rw [List.map_append]
    exact hargs
  · rcases List.mem_append.mp hb with hb | hb
    · exact h.terminated b hb
    · rw [List.mem_singleton.mp hb]
      obtain ⟨rest, hrest⟩ := harg
      rw [← hrest]
      simp
  · have hnul' : 0 ∉ (argLoop (text.drop q) 0 false false).1 :=
      fun h0 => hnul (List.mem_of_mem_drop (argLoop_subset _ _ _ _ h0))
    have hrest : argsLoop (MAX_ARGS - s.argc) (text.drop s.input) = (argLoop (text.drop q) 0 false false).1 ::
        argsLoop n (skipSpaces (argLoop (text.drop q) 0 false false).2) := by
      rw [hn, argsLoop, ← hskipped]
      cases hdrop : text.drop q with
      | nil => exact absurd hdrop hne
      | cons d ds => rfl
    rw [h.rest, hrest, List.map_append, List.append_assoc, ← Nat.sub_sub, hn, hskipped', hr.left]
    simp only [List.map_cons, List.map_nil, Buffer.str_of_holds harg hnul']
    rfl

/-- One round of the loop over the arguments. -/
theorem Filled.round {malloc : Nat → Option ArgBlock} {p : Nat} {s : ArgsScan} {blocks : List ArgBlock}
    (h : Filled text p s blocks) :
    (∃ s', argsRound malloc text s = some (.next s') ∧ (∃ blocks', Filled text p s' blocks') ∧
      MAX_ARGS - s'.argc < MAX_ARGS - s.argc) ∨
    ∃ s', argsRound malloc text s = some (.done s') ∧
      ∃ blocks', Parsed malloc (argsLoop MAX_ARGS (text.drop p)) s' blocks' := by
  unfold argsRound
  cases hdrop : text.drop s.input with
  | nil =>
    rw [inputAt_end h.input hdrop]
    refine .inr ⟨s, rfl, blocks, h.parsed ?_⟩
    rw [hdrop]
    cases MAX_ARGS - s.argc <;> rfl
  | cons c cs =>
    obtain ⟨hread, -, -, hmem⟩ := inputAt_cons hdrop
    have hc0 : c ≠ 0 := fun h0 => hnul (h0 ▸ hmem)
    rw [hread, Option.bind_some]
    by_cases hmore : s.argc < MAX_ARGS
    swap
    · rw [if_neg fun hgo => hmore hgo.2]
      refine .inr ⟨s, rfl, blocks, h.parsed ?_⟩
      rw [Nat.sub_eq_zero_of_le (Nat.le_of_not_lt hmore)]
      rfl
    obtain ⟨q, hskip, hq, hskipped⟩ := skipLoop_spec h.input
    rw [if_pos ⟨hc0, hmore⟩, hskip, Option.bind_some]
    cases hq' : text.drop q with
    | nil =>
      rw [inputAt_end hq hq']
      refine .inr ⟨_, rfl, blocks, h.parsed ?_⟩
      obtain ⟨n, hn⟩ : ∃ n, MAX_ARGS - s.argc = n + 1 := ⟨MAX_ARGS - s.argc - 1, by omega⟩
      rw [hn, argsLoop, ← hskipped, hq']
    | cons d ds =>
      obtain ⟨hread', -, -, hmem'⟩ := inputAt_cons hq'
      have hd0 : d ≠ 0 := fun h0 => hnul (h0 ▸ hmem')
      rw [hread', Option.bind_some, if_neg hd0]
      cases hmalloc : malloc s.argc with
      | none =>
        refine .inr ⟨_, rfl, blocks, h.argc, h.room, h.holds, h.terminated, ?_, fun hall => absurd hmalloc (hall _)⟩
        exact h.rest ▸ List.prefix_append ..
      | some block =>
        obtain ⟨r, arg, args, q', hloop, hwrite, hwrite', hskip', hfilled⟩ :=
          h.argument hnul hmore hq hskipped (by rw [hq']; exact List.cons_ne_nil d ds) block
        refine .inl ⟨_, ?_, ⟨_, hfilled⟩, by dsimp only; omega⟩
        simp only [hloop, Option.bind_some, hwrite, hwrite', hskip', Option.map_some]

theorem argsLoop_spec (malloc : Nat → Option ArgBlock) {p : Nat} (hp : p ≤ text.length) :
    ∃ s, loop (argsRound malloc text) (MAX_ARGS + 1) ⟨p, 0, .fill (MAX_ARGS + 1) none⟩ = some s ∧
      ∃ blocks, Parsed malloc (argsLoop MAX_ARGS (text.drop p)) s blocks :=
  loop_spec (I := fun s => ∃ blocks, Filled text p s blocks) (m := fun s => MAX_ARGS - s.argc)
    (fun _ ⟨_, hs⟩ => hs.round hnul) (MAX_ARGS + 1)
    ⟨[], rfl, Nat.zero_le _, hp, holds_nil _, List.forall_mem_nil _, rfl⟩ (by dsimp only; omega)

end Loops

/-! ## The whole command -/

/-- **In memory as on lists.** On a text without NUL, `parse_text_command` ends, reads no further than the NUL behind
the text and writes no further than its arrays; the command word and the arguments it leaves there are those of
`parseTextCommand`, up to the first argument for which `malloc` fails. -/
theorem parseTextCommandMem_refines (malloc : Nat → Option ArgBlock) {text : Bytes} (hnul : 0 ∉ text) :
    ∃ (cmd : CommandMem) (blocks : List ArgBlock), parseTextCommandMem malloc text = some cmd ∧
      cmd.argc = blocks.length ∧ cmd.argc ≤ MAX_ARGS ∧
      Holds cmd.command ((parseTextCommand text).command ++ [0]) ∧ Holds cmd.args (blocks.map some ++ [none]) ∧
      (∀ block ∈ blocks, 0 ∈ block.cells) ∧ blocks.map Buffer.str <+: (parseTextCommand text).args ∧
      ((∀ n, malloc n ≠ none) → blocks.map Buffer.str = (parseTextCommand text).args) := by
  have hmax : MAX_ARG_LEN = 4096 := rfl
  obtain ⟨p, hskip, hp, hdrop⟩ := skipLoop_spec text.length.zero_le
  rw [List.drop_zero] at hdrop
  obtain ⟨w, hword, ⟨hi, hinput, hw, hholds⟩⟩ := wordLoop_spec hnul hp (.fill MAX_ARG_LEN 0)
  have hlen : (commandWord (text.drop p)).length ≤ MAX_ARG_LEN - 1 := by
    rw [commandWord, List.length_take]
    exact Nat.min_le_left ..
  obtain ⟨command, hwrite, hcommand⟩ := Buffer.write_holds (m := [0]) hholds
    (by rw [List.length_map, List.length_singleton]; omega)
  rw [List.length_map, ← hi] at hwrite
  obtain ⟨q, hskip', hq, hdrop'⟩ := skipLoop_spec hw
  obtain ⟨s, hargs, blocks, hparsed⟩ := argsLoop_spec hnul malloc hq
  have hroom := hparsed.room
  have hargc := hparsed.argc
  obtain ⟨args, hwrite', hnull⟩ := Buffer.write_holds (m := [none]) hparsed.holds
    (by rw [List.length_map, List.length_singleton]; omega)
  rw [List.length_map, ← hargc] at hwrite'
  have hall : argsLoop MAX_ARGS (text.drop q) = (parseTextCommand text).args := by
    rw [hdrop', hinput, ← List.drop_drop, hi, hdrop]
    rfl
  refine ⟨⟨command, args, s.argc⟩, blocks, ?_, hargc, hroom, ?_, hnull, hparsed.terminated, hall ▸ hparsed.strs,
    fun hmalloc => (hparsed.full hmalloc).trans hall⟩
  · simp only [parseTextCommandMem, hskip, Option.bind_some, hword, hwrite, hskip', hargs, hwrite', Option.map_some]
  · rw [hdrop] at hcommand
    exact hcommand

/-- **The tokenizer stays within its buffers and ends**: on every text, followed by its NUL, and with any `malloc`, no
read is behind the NUL, no write outside of `command`, `args` or a block, and every loop is left; `argc` is at most 256,
and the command word and every argument are NUL-terminated. -/
theorem parse_text_command_within_buffers (malloc : Nat → Option ArgBlock) (text : Bytes) (hnul : 0 ∉ text) :
    ∃ cmd, parseTextCommandMem malloc text = some cmd ∧ cmd.argc ≤ 256 ∧ 0 ∈ cmd.command.cells ∧
      (∀ i, i < cmd.argc → ∃ arg, cmd.args.cells[i]? = some (some arg) ∧ 0 ∈ arg.cells) ∧
      cmd.args.cells[cmd.argc]? = some none := by
  obtain ⟨cmd, blocks, hcmd, hargc, hroom, ⟨crest, hcommand⟩, ⟨rest, hargs⟩, hterminated, -⟩ :=
    parseTextCommandMem_refines malloc hnul
  refine ⟨cmd, hcmd, hroom, by rw [← hcommand]; simp, fun i hlt => ?_, ?_⟩
  · rw [hargc] at hlt
    refine ⟨blocks[i], ?_, hterminated _ (List.getElem_mem hlt)⟩
    rw [← hargs, List.append_assoc, List.getElem?_append_left (by rwa [List.length_map]), List.getElem?_map,
      List.getElem?_eq_getElem hlt]
    rfl
  · rw [← hargs, hargc, List.append_assoc, List.getElem?_append_right (by rw [List.length_map]), List.length_map,
      Nat.sub_self]
    rfl

/-- An argument with an open quote. -/
theorem parse_text_command_within_buffers_open :
    ∃ cmd, parseTextCommandMem (fun _ => some (.fill MAX_ARG_LEN 1)) (ascii "MKD \"x") = some cmd ∧ cmd.argc ≤ 256 := by
  obtain ⟨cmd, hcmd, hargc, -⟩ := parse_text_command_within_buffers (fun _ => some (.fill MAX_ARG_LEN 1))
    (ascii "MKD \"x") (by decide)
  exact ⟨cmd, hcmd, hargc⟩

end CftpServer.Command
