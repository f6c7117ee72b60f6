import CftpServer.Command.Parser

/-!
# Command lines as they are meant

A `Line` is a command word and arguments, each spelled by pieces: bytes that stand for themselves, bytes behind a
backslash, and runs in double quotes. Whatever the spelling and the blanks, the tokenizer gives back the word and what
the spellings denote (`parseTextCommand_text`); a name that is sent as it is comes back only when it is its own
spelling (`printed_name_accepted_iff`).
-/

namespace CftpServer.Command

open CLib

/-- A byte that stands for itself outside of quotes. -/
def Plain (c : UInt8) : Prop := isspace c = false ∧ c ≠ quote ∧ c ≠ backslash

instance (c : UInt8) : Decidable (Plain c) := inferInstanceAs (Decidable (_ ∧ _))

/-! ## The grammar -/

/-- What stands in quotes: plain bytes and blanks, and pairs of a backslash and a byte. -/
inductive Item where
  | byte (c : UInt8) (nul : c ≠ 0) (special : c ≠ quote ∧ c ≠ backslash)
  | escaped (c : UInt8) (nul : c ≠ 0)

def Item.text : Item → Bytes
  | byte c _ _ => [c]
  | escaped c _ => [backslash, c]

def Item.denotes : Item → UInt8
  | byte c _ _ => c
  | escaped c _ => c

/-- A piece of an argument. -/
inductive Piece where
  | plain (c : UInt8) (nul : c ≠ 0) (plain : Plain c)
  | escaped (c : UInt8) (nul : c ≠ 0)
  | quoted (items : List Item)

def Piece.text : Piece → Bytes
  | plain c _ _ => [c]
  | escaped c _ => [backslash, c]
  | quoted items => quote :: items.flatMap Item.text ++ [quote]

def Piece.denotes : Piece → Bytes
  | plain c _ _ => [c]
  | escaped c _ => [c]
  | quoted items => items.map Item.denotes

/-- An argument with the blanks in front of it. -/
structure Spelling where
  gap : Bytes
  pieces : List Piece
  blank : Blank gap
  apart : gap ≠ []
  something : pieces ≠ []
  fits : (pieces.flatMap Piece.denotes).length ≤ MAX_ARG_LEN - 2

/-- The argument without its blanks. -/
def Spelling.body (a : Spelling) : Bytes := a.pieces.flatMap Piece.text

def Spelling.text (a : Spelling) : Bytes := a.gap ++ a.body

def Spelling.denotes (a : Spelling) : Bytes := a.pieces.flatMap Piece.denotes

/-- A command word. -/
structure Word where
  bytes : Bytes
  something : bytes ≠ []
  fits : bytes.length ≤ MAX_ARG_LEN - 1
  solid : ∀ c ∈ bytes, c ≠ 0 ∧ isspace c = false

theorem solid_of_all {w : Bytes} (h : w.all (fun c => c != 0 && !isspace c) = true) :
    ∀ c ∈ w, c ≠ 0 ∧ isspace c = false := fun c hc => by simpa using List.all_eq_true.mp h c hc

/-- A command line. -/
structure Line where
  lead : Bytes
  word : Word
  args : List Spelling
  trail : Bytes
  leadBlank : Blank lead
  trailBlank : Blank trail
  count : args.length ≤ MAX_ARGS

def Line.text (l : Line) : Bytes := l.lead ++ l.word.bytes ++ l.args.flatMap Spelling.text ++ l.trail

/-! ## Filling an argument -/

/-- The text behind an argument: nothing, or a blank. -/
def Ends (rest : Bytes) : Prop := ∀ c ∈ rest.head?, isspace c = true

/-- More bytes in front of an argument. -/
def prepend (bytes : Bytes) (r : Bytes × Bytes) : Bytes × Bytes := (bytes ++ r.1, r.2)

section ArgLoop

variable {j : Nat} {q : Bool} {rest : Bytes}

theorem ends_cons {c : UInt8} (hc : isspace c = true) (cs : Bytes) : Ends (c :: cs) := by
  intro d hd
  obtain rfl : c = d := by simpa using hd
  exact hc

theorem argLoop_ends (h : Ends rest) (j : Nat) : argLoop rest j false false = ([], rest) := by
  cases rest with
  | nil => rfl
  | cons c cs =>
    have hc : isspace c = true := h c rfl
    have hq := blank_ne_quote hc
    simp [argLoop, hq, hc]

/-- A byte that is neither a quote nor a backslash, nor a blank outside of quotes. -/
theorem argLoop_byte {c : UInt8} (hj : j < MAX_ARG_LEN - 1) (hc : c ≠ quote ∧ c ≠ backslash)
    (hs : q = false → isspace c = false) : argLoop (c :: rest) j q false = push c (argLoop rest (j + 1) q false) := by
  have hstop : ¬ (q = false ∧ isspace c = true) := by
    rintro ⟨hq, ht⟩
    rw [hs hq] at ht
    cases ht
  simp [argLoop, hj, hc.1, hc.2, hstop]

theorem argLoop_escaped {c : UInt8} (hj : j < MAX_ARG_LEN - 1) :
    argLoop (backslash :: c :: rest) j q false = push c (argLoop rest (j + 1) q false) := by
  have hb : backslash ≠ quote := by decide
  have hs : isspace backslash = false := by decide
  simp [argLoop, hj, hb, hs]

theorem argLoop_open (hj : j < MAX_ARG_LEN - 1) :
    argLoop (quote :: rest) j false false = argLoop rest j true false := by
  simp [argLoop, hj]

theorem argLoop_close (hj : j < MAX_ARG_LEN - 1) :
    argLoop (quote :: rest) j true false = argLoop rest j false false := by
  simp [argLoop, hj]

theorem argLoop_item (i : Item) (hj : j < MAX_ARG_LEN - 1) :
    argLoop (i.text ++ rest) j true false = push i.denotes (argLoop rest (j + 1) true false) := by
  cases i with
  | byte c _ hc => exact argLoop_byte hj hc (fun h => by cases h)
  | escaped c _ => exact argLoop_escaped hj

theorem argLoop_items (items : List Item) : ∀ {j : Nat}, j + items.length ≤ MAX_ARG_LEN - 2 →
    argLoop (items.flatMap Item.text ++ rest) j true false =
      prepend (items.map Item.denotes) (argLoop rest (j + items.length) true false) := by
  induction items with
  | nil => intro j _; rfl
  | cons i items ih =>
    intro j hj
    rw [List.length_cons] at hj
    have hroom : j < MAX_ARG_LEN - 1 := by have : MAX_ARG_LEN = 4096 := rfl; omega
    rw [List.flatMap_cons, List.append_assoc, argLoop_item i hroom, ih (by omega), List.length_cons,
      Nat.add_right_comm, Nat.add_assoc]
    rfl

/-- A piece leaves room for a byte behind it, or for its closing quote. -/
theorem argLoop_piece (p : Piece) (hj : j + p.denotes.length ≤ MAX_ARG_LEN - 2) :
    argLoop (p.text ++ rest) j false false =
      prepend p.denotes (argLoop rest (j + p.denotes.length) false false) := by
  have hroom : j + p.denotes.length < MAX_ARG_LEN - 1 := by have : MAX_ARG_LEN = 4096 := rfl; omega
  cases p with
  | plain c _ hc => exact argLoop_byte (Nat.lt_of_succ_lt hroom) hc.2 fun _ => hc.1
  | escaped c _ => exact argLoop_escaped (Nat.lt_of_succ_lt hroom)
  | quoted items =>
    have hlen : (Piece.quoted items).denotes.length = items.length := List.length_map _
    rw [hlen] at hj hroom
    have htext : (Piece.quoted items).text ++ rest = quote :: (items.flatMap Item.text ++ quote :: rest) := by
      simp [Piece.text]
    rw [htext, argLoop_open (by omega), argLoop_items items hj, argLoop_close hroom, hlen]
    rfl

theorem argLoop_pieces (h : Ends rest) (ps : List Piece) : ∀ {j : Nat},
    j + (ps.flatMap Piece.denotes).length ≤ MAX_ARG_LEN - 2 →
      argLoop (ps.flatMap Piece.text ++ rest) j false false = (ps.flatMap Piece.denotes, rest) := by
  induction ps with
  | nil => intro j _; exact argLoop_ends h j
  | cons p ps ih =>
    intro j hj
    rw [List.flatMap_cons, List.length_append] at hj
    rw [List.flatMap_cons, List.flatMap_cons, List.append_assoc, argLoop_piece p (by omega), ih (by omega)]
    rfl

end ArgLoop

/-! ## Lines -/

theorem Piece.text_head (p : Piece) (rest : Bytes) : ∃ c cs, p.text ++ rest = c :: cs ∧ isspace c = false := by
  cases p with
  | plain c _ hc => exact ⟨c, rest, rfl, hc.1⟩
  | escaped c _ => exact ⟨backslash, c :: rest, rfl, by decide⟩
  | quoted items => exact ⟨quote, items.flatMap Item.text ++ [quote] ++ rest, rfl, by decide⟩

theorem skipSpaces_solid {c : UInt8} {cs : Bytes} (hc : isspace c = false) : skipSpaces (c :: cs) = c :: cs := by
  simp [skipSpaces, hc]

/-- The first byte of an argument is no blank. -/
theorem Spelling.body_head (a : Spelling) (rest : Bytes) : ∃ c cs, a.body ++ rest = c :: cs ∧ isspace c = false := by
  obtain ⟨p, ps, hps⟩ := List.exists_cons_of_ne_nil a.something
  rw [Spelling.body, hps, List.flatMap_cons, List.append_assoc]
  exact p.text_head _

/-- What follows a word or an argument is a blank. -/
theorem ends_args (args : List Spelling) {trail : Bytes} (ht : Blank trail) :
    Ends (args.flatMap Spelling.text ++ trail) := by
  intro c hc
  cases args with
  | nil =>
    rw [List.flatMap_nil, List.nil_append] at hc
    exact ht c (List.mem_of_mem_head? hc)
  | cons a args =>
    obtain ⟨b, gap, hgap⟩ := List.exists_cons_of_ne_nil a.apart
    rw [List.flatMap_cons, Spelling.text, hgap] at hc
    obtain rfl : b = c := by simpa using hc
    exact a.blank b (by rw [hgap]; exact List.mem_cons_self)

/-- One argument, from the blanks in front of it on. -/
theorem argsLoop_cons (a : Spelling) {rest : Bytes} (h : Ends rest) (n : Nat) :
    argsLoop (n + 1) (a.text ++ rest) = a.denotes :: argsLoop n (skipSpaces rest) := by
  obtain ⟨c, cs, hbody, hc⟩ := a.body_head rest
  have harg : argLoop (c :: cs) 0 false false = (a.denotes, rest) := by
    rw [← hbody]
    exact argLoop_pieces h a.pieces (by rw [Nat.zero_add]; exact a.fits)
  rw [Spelling.text, List.append_assoc, argsLoop, skipSpaces_blank_append a.blank, hbody, skipSpaces_solid hc]
  simp only [harg]

theorem argsLoop_args {trail : Bytes} (ht : Blank trail) : ∀ (args : List Spelling) {n : Nat}, args.length ≤ n →
    argsLoop n (args.flatMap Spelling.text ++ trail) = args.map Spelling.denotes
  | [], n, _ => by
    have h : skipSpaces trail = [] := List.dropWhile_eq_nil_iff.mpr ht
    rw [List.flatMap_nil, List.nil_append, ← argsLoop_skipSpaces, h]
    cases n <;> rfl
  | a :: args, 0, h => absurd h (Nat.not_succ_le_zero _)
  | a :: args, n + 1, h => by
    rw [List.flatMap_cons, List.append_assoc, argsLoop_cons a (ends_args args ht), argsLoop_skipSpaces,
      argsLoop_args ht args (Nat.le_of_succ_le_succ h)]
    rfl

/-- The command word of a line, and the text behind it. -/
theorem parseTextCommand_word (w : Word) {lead rest : Bytes} (hl : Blank lead) (h : Ends rest) :
    parseTextCommand (lead ++ w.bytes ++ rest) = ⟨w.bytes.map toupper, argsLoop MAX_ARGS rest⟩ := by
  have hskip : skipSpaces (lead ++ w.bytes ++ rest) = w.bytes ++ rest := by
    rw [List.append_assoc, skipSpaces_blank_append hl]
    obtain ⟨c, cs, hcs⟩ := List.exists_cons_of_ne_nil w.something
    rw [hcs]
    exact skipSpaces_solid (w.solid c (by rw [hcs]; exact List.mem_cons_self)).2
  have htake : (w.bytes ++ rest).takeWhile (fun c => !isspace c) = w.bytes := by
    rw [List.takeWhile_append_of_pos fun c hc => by rw [(w.solid c hc).2]; rfl]
    cases rest with
    | nil => rw [List.takeWhile_nil, List.append_nil]
    | cons b rest => rw [List.takeWhile_cons_of_neg (by rw [h b rfl]; decide), List.append_nil]
  have hword : commandWord (w.bytes ++ rest) = w.bytes := by
    rw [commandWord, htake, List.take_of_length_le w.fits]
  simp only [parseTextCommand, hskip, hword, List.drop_left, argsLoop_skipSpaces]

/-- What a line means. -/
theorem parseTextCommand_text (l : Line) :
    parseTextCommand l.text = ⟨l.word.bytes.map toupper, l.args.map Spelling.denotes⟩ := by
  rw [Line.text, List.append_assoc, parseTextCommand_word l.word l.leadBlank (ends_args l.args l.trailBlank),
    argsLoop_args l.trailBlank l.args l.count]

/-! ## Quoting -/

/-- Arguments the tokenizer can hold. -/
structure Arguments where
  args : List Bytes
  count : args.length ≤ MAX_ARGS
  fits : ∀ arg ∈ args, arg.length ≤ MAX_ARG_LEN - 2
  nul : ∀ arg ∈ args, 0 ∉ arg

/-- A byte inside quotes. -/
def escape (c : UInt8) : Bytes := if c = quote ∨ c = backslash then [backslash, c] else [c]

/-- An argument in quotes. -/
def quoteArg (arg : Bytes) : Bytes := quote :: arg.flatMap escape ++ [quote]

/-- A command line with its arguments in quotes. -/
def quoteLine (word : Bytes) (args : List Bytes) : Bytes := word ++ args.flatMap fun arg => 32 :: quoteArg arg

example : quoteLine (ascii "RETR") [ascii "a \"b\""] = ascii "RETR \"a \\\"b\\\"\"" := by decide

/-- Bytes other than NUL as what stands in quotes. -/
theorem exists_items : ∀ arg : Bytes, 0 ∉ arg →
    ∃ items : List Item, items.flatMap Item.text = arg.flatMap escape ∧ items.map Item.denotes = arg
  | [], _ => ⟨[], rfl, rfl⟩
  | c :: arg, h => by
    have hc : c ≠ 0 := fun hc => h (hc ▸ List.mem_cons_self)
    obtain ⟨items, ht, hd⟩ := exists_items arg fun h' => h (List.mem_cons_of_mem _ h')
    by_cases hs : c = quote ∨ c = backslash
    · exact ⟨.escaped c hc :: items, by simp [ht, escape, hs, Item.text], by simp [hd, Item.denotes]⟩
    · exact ⟨.byte c hc (not_or.mp hs) :: items, by simp [ht, escape, hs, Item.text], by simp [hd, Item.denotes]⟩

/-- Quoted arguments as spellings. -/
theorem exists_spellings : ∀ args : List Bytes, (∀ arg ∈ args, arg.length ≤ MAX_ARG_LEN - 2) → (∀ arg ∈ args, 0 ∉ arg) →
    ∃ spellings : List Spelling, spellings.flatMap Spelling.text = (args.flatMap fun arg => 32 :: quoteArg arg) ∧
      spellings.map Spelling.denotes = args
  | [], _, _ => ⟨[], rfl, rfl⟩
  | arg :: args, hl, hn => by
    obtain ⟨spellings, ht, hd⟩ := exists_spellings args (fun a ha => hl a (List.mem_cons_of_mem _ ha))
      fun a ha => hn a (List.mem_cons_of_mem _ ha)
    obtain ⟨items, hti, hdi⟩ := exists_items arg (hn arg List.mem_cons_self)
    refine ⟨⟨[32], [.quoted items], by decide, by decide, List.cons_ne_nil _ _, ?_⟩ :: spellings, ?_, ?_⟩
    · simpa [Piece.denotes, hdi] using hl arg List.mem_cons_self
    · simp [Spelling.text, Spelling.body, Piece.text, hti, ht, quoteArg]
    · simp [Spelling.denotes, Piece.denotes, hdi, hd]

/-- **The tokenizer means what it should.** A line is parsed into its word and what its arguments denote; so quoting
arguments and parsing them gives them back. -/
theorem tokenizer_denotes :
    (∀ l : Line, parseTextCommand l.text = ⟨l.word.bytes.map toupper, l.args.map Spelling.denotes⟩) ∧
      ∀ (w : Word) (a : Arguments), parseTextCommand (quoteLine w.bytes a.args) = ⟨w.bytes.map toupper, a.args⟩ := by
  refine ⟨parseTextCommand_text, fun w a => ?_⟩
  obtain ⟨spellings, ht, hd⟩ := exists_spellings a.args a.fits a.nul
  have hcount : spellings.length ≤ MAX_ARGS := by
    rw [← List.length_map Spelling.denotes, hd]
    exact a.count
  have h := parseTextCommand_text ⟨[], w, spellings, [], by decide, by decide, hcount⟩
  rw [hd] at h
  rw [← h, Line.text, ht, List.nil_append, List.append_nil]
  rfl

/-! ## Names as they are -/

/-- The name of a directory entry, as a listing prints it. -/
structure EntryName where
  bytes : Bytes
  something : bytes ≠ []
  nul : 0 ∉ bytes
  slash : 47 ∉ bytes
  cr : 13 ∉ bytes
  lf : 10 ∉ bytes

/-- The commands that take the name of an entry. -/
def nameCommands : List Bytes := ["RETR", "SIZE", "CWD", "DELE", "MDTM"].map ascii

/-- A command with a name behind it, up to the end of the line. -/
def nameLine (command name : Bytes) : Bytes := command ++ ascii " " ++ name ++ ascii "\r\n"

/-- What goes into an argument is part of the text, in its order. -/
theorem argLoop_sublist : ∀ (s : Bytes) (j : Nat) (q e : Bool), (argLoop s j q e).1.Sublist s := by
  intro s
  induction s with
  | nil => intro j q e; cases e <;> exact List.nil_sublist _
  | cons c cs ih =>
    intro j q e
    cases e with
    | true => exact (ih _ _ _).cons_cons c
    | false =>
      simp only [argLoop]
      split
      · split
        · exact (ih _ _ _).cons c
        · split
          · exact (ih _ _ _).cons c
          · split
            · exact List.nil_sublist _
            · split
              · exact (ih _ _ _).cons c
              · exact (ih _ _ _).cons_cons c
      · exact List.nil_sublist _

/-- Plain bytes go into an argument as they are. -/
theorem argLoop_plain {rest : Bytes} : ∀ (a : Bytes) {j : Nat}, (∀ c ∈ a, Plain c) → j + a.length ≤ MAX_ARG_LEN - 1 →
    argLoop (a ++ rest) j false false = prepend a (argLoop rest (j + a.length) false false)
  | [], _, _, _ => rfl
  | c :: a, j, ha, hj => by
    rw [List.length_cons] at hj
    rw [List.cons_append, argLoop_byte (by omega) (ha c List.mem_cons_self).2 (fun _ => (ha c List.mem_cons_self).1),
      argLoop_plain a (fun d hd => ha d (List.mem_cons_of_mem _ hd)) (by omega), List.length_cons, Nat.add_right_comm,
      Nat.add_assoc]
    rfl

/-- An argument of plain bytes is its own spelling, and with nothing but blanks behind it the only one. -/
theorem argsLoop_plain {a rest : Bytes} (hne : a ≠ []) (ha : ∀ c ∈ a, Plain c) (hl : a.length ≤ MAX_ARG_LEN - 1)
    (hrest : Blank rest) : argsLoop MAX_ARGS (a ++ rest) = [a] := by
  have hend : Ends rest := fun c hc => hrest c (List.mem_of_mem_head? hc)
  have hnil : skipSpaces rest = [] := List.dropWhile_eq_nil_iff.mpr hrest
  have harg : argLoop (a ++ rest) 0 false false = (a, rest) := by
    rw [argLoop_plain a ha (by rw [Nat.zero_add]; exact hl), argLoop_ends hend]
    simp [prepend]
  obtain ⟨c, cs, hcs⟩ := List.exists_cons_of_ne_nil hne
  have hc : isspace c = false := (ha c (by rw [hcs]; exact List.mem_cons_self)).1
  rw [hcs, List.cons_append] at harg
  rw [MAX_ARGS, argsLoop, hcs, List.cons_append, skipSpaces_solid hc]
  simp only [harg, hnil]
  rfl

/-- A byte that is not plain is not taken into the argument by itself. -/
theorem argLoop_special {c : UInt8} (hc : ¬ Plain c) (b : Bytes) {j : Nat} (hj : j < MAX_ARG_LEN - 1) (hb : b ≠ []) :
    (argLoop (c :: b) j false false).1.Sublist b := by
  simp only [argLoop, if_pos hj]
  by_cases hq : c = quote
  · simp only [hq, and_self, if_true]
    exact argLoop_sublist ..
  · simp only [hq, false_and, if_false, true_and]
    by_cases hs : isspace c = true
    · simp only [hs, if_true]
      exact List.nil_sublist _
    · have hback : c = backslash := by
        by_contra hback
        exact hc ⟨by simpa using hs, hq, hback⟩
      rw [if_neg hs, if_pos ⟨hback, hb⟩]
      exact argLoop_sublist ..

/-- The end of the line is no part of a name. -/
theorem sublist_of_crlf {y b : Bytes} (h : y.Sublist (b ++ ascii "\r\n")) (hcr : 13 ∉ y) (hlf : 10 ∉ y) :
    y.Sublist b := by
  obtain ⟨y₁, y₂, rfl, h₁, h₂⟩ := List.sublist_append_iff.mp h
  have hnil : y₂ = [] := by
    rw [List.eq_nil_iff_forall_not_mem]
    intro c hc
    have hmem : c ∈ [(13 : UInt8), 10] := h₂.subset hc
    rcases List.mem_cons.mp hmem with rfl | hmem
    · exact hcr (List.mem_append_right _ hc)
    · rw [List.mem_singleton.mp hmem] at hc
      exact hlf (List.mem_append_right _ hc)
  rw [hnil, List.append_nil]
  exact h₁

/-- The arguments of a line with a name. -/
theorem args_nameLine {command : Bytes} (hc : command ∈ nameCommands) (name : Bytes) :
    parseTextCommand (nameLine command name) =
      ⟨command, argsLoop MAX_ARGS (ascii " " ++ name ++ ascii "\r\n")⟩ := by
  have hword : command ≠ [] ∧ command.length ≤ MAX_ARG_LEN - 1 ∧ (∀ c ∈ command, c ≠ 0 ∧ isspace c = false) ∧
      command.map toupper = command := by
    simp only [nameCommands, List.map_cons, List.map_nil, List.mem_cons, List.not_mem_nil, or_false] at hc
    rcases hc with rfl | rfl | rfl | rfl | rfl
    all_goals exact ⟨by decide, by decide, solid_of_all (by decide), by decide⟩
  obtain ⟨hne, hl, hs, hup⟩ := hword
  have hends : Ends (ascii " " ++ name ++ ascii "\r\n") := ends_cons (c := 32) (by decide) _
  have h := parseTextCommand_word ⟨command, hne, hl, hs⟩ (List.forall_mem_nil _) hends
  rw [List.nil_append, hup] at h
  rw [nameLine, List.append_assoc, List.append_assoc, ← List.append_assoc (ascii " "), h]

/-- An argument is part of the text, in its order. -/
theorem argsLoop_head_sublist {n : Nat} {s arg : Bytes} {args : List Bytes} (h : argsLoop n s = arg :: args) :
    arg.Sublist s := by
  cases n with
  | zero => cases h
  | succ n =>
    simp only [argsLoop] at h
    split at h
    · cases h
    · rename_i c cs hcs
      obtain ⟨rfl, -⟩ := List.cons.inj h
      rw [← hcs]
      exact (argLoop_sublist ..).trans (List.dropWhile_sublist _)

/-- A name with a byte that is not plain loses that byte, or more. -/
theorem argsLoop_special {a b : Bytes} {c : UInt8} (ha : ∀ d ∈ a, Plain d) (hc : ¬ Plain c)
    (hl : a.length < MAX_ARG_LEN - 1) {n : Nat} {arg : Bytes} {args : List Bytes} (hcr : 13 ∉ arg) (hlf : 10 ∉ arg)
    (h : argsLoop n (a ++ c :: b ++ ascii "\r\n") = arg :: args) : arg.length < (a ++ c :: b).length := by
  have hshort : ∀ {y : Bytes}, y.Sublist (b ++ ascii "\r\n") → 13 ∉ y → 10 ∉ y →
      (a ++ y).length < (a ++ c :: b).length := by
    intro y hy hcr hlf
    have hle : y.length ≤ b.length := (sublist_of_crlf hy hcr hlf).length_le
    simp only [List.length_append, List.length_cons]
    omega
  have hcrlf : b ++ ascii "\r\n" ≠ [] := List.append_ne_nil_of_right_ne_nil _ (by decide)
  rw [List.append_assoc, List.cons_append] at h
  by_cases hs : skipSpaces (a ++ c :: (b ++ ascii "\r\n")) = a ++ c :: (b ++ ascii "\r\n")
  · cases n with
    | zero => cases h
    | succ n =>
      obtain ⟨d, ds, hds⟩ : ∃ d ds, a ++ c :: (b ++ ascii "\r\n") = d :: ds :=
        List.exists_cons_of_ne_nil (List.append_ne_nil_of_right_ne_nil _ (List.cons_ne_nil _ _))
      have hloop : argLoop (a ++ c :: (b ++ ascii "\r\n")) 0 false false =
          prepend a (argLoop (c :: (b ++ ascii "\r\n")) (0 + a.length) false false) := argLoop_plain a ha (by omega)
      rw [hds, Nat.zero_add] at hloop
      rw [argsLoop, hs, hds] at h
      simp only [hloop] at h
      obtain ⟨rfl, -⟩ := List.cons.inj h
      exact hshort (argLoop_special hc _ hl hcrlf) (fun hm => hcr (List.mem_append_right _ hm))
        fun hm => hlf (List.mem_append_right _ hm)
  · -- the first byte is a blank
    cases a with
    | cons d a =>
      refine absurd (skipSpaces_solid ?_) hs
      exact (ha d List.mem_cons_self).1
    | nil =>
      have hblank : isspace c = true := by
        by_contra hn
        exact hs (skipSpaces_solid (by simpa using hn))
      rw [List.nil_append, ← argsLoop_skipSpaces, skipSpaces, List.dropWhile_cons_of_pos hblank, ← skipSpaces,
        argsLoop_skipSpaces] at h
      exact hshort (argsLoop_head_sublist h) hcr hlf

/-- What is behind the blank of a line with a name: the only argument is the name itself exactly when every byte of
it is plain and there is room for it. -/
theorem argsLoop_name_iff (n : EntryName) : argsLoop MAX_ARGS (ascii " " ++ n.bytes ++ ascii "\r\n") = [n.bytes] ↔
    n.bytes.length ≤ MAX_ARG_LEN - 1 ∧ ∀ c ∈ n.bytes, Plain c := by
  have hblank : Blank (ascii " ") := by decide
  rw [← argsLoop_skipSpaces, List.append_assoc, skipSpaces_blank_append hblank, argsLoop_skipSpaces]
  constructor
  · intro h
    have hlen : n.bytes.length ≤ MAX_ARG_LEN - 1 := argsLoop_length MAX_ARGS (h ▸ List.mem_singleton_self _)
    refine ⟨hlen, ?_⟩
    by_contra hplain
    obtain ⟨d, hd, hnot⟩ : ∃ d ∈ n.bytes, ¬ Plain d := by simpa using hplain
    obtain ⟨c, hfind⟩ : ∃ c, n.bytes.find? (fun c => ¬ Plain c) = some c :=
      Option.isSome_iff_exists.mp (List.find?_isSome.mpr ⟨d, hd, by simpa using hnot⟩)
    obtain ⟨hc, a, b, hsplit, ha⟩ := List.find?_eq_some_iff_append.mp hfind
    have hl : a.length < MAX_ARG_LEN - 1 := by
      rw [hsplit, List.length_append, List.length_cons] at hlen
      omega
    rw [hsplit] at h
    have hlt := argsLoop_special (fun d hd => by simpa using ha d hd) (by simpa using hc) hl
      (hsplit ▸ n.cr) (hsplit ▸ n.lf) h
    exact lt_irrefl _ hlt
  · rintro ⟨hlen, hplain⟩
    exact argsLoop_plain n.something hplain hlen (by decide)

/-- **Names that are listed and accepted.** The line that names an entry is parsed into the command and that name
exactly when the name has neither blanks nor quotes nor backslashes, and fits an argument. -/
theorem printed_name_accepted_iff (n : EntryName) :
    (∀ command ∈ nameCommands, parseTextCommand (nameLine command n.bytes) = ⟨command, [n.bytes]⟩) ↔
      n.bytes.length ≤ MAX_ARG_LEN - 1 ∧ ∀ c ∈ n.bytes, Plain c := by
  rw [← argsLoop_name_iff]
  constructor
  · intro h
    have hretr := h (ascii "RETR") (by decide)
    rw [args_nameLine (by decide)] at hretr
    exact congrArg CftpCommand.args hretr
  · intro h command hc
    rw [args_nameLine hc, h]

/-- A blank in a name makes two arguments of it. -/
theorem spaced_name_refused :
    ¬ ∀ n : EntryName, ∀ command ∈ nameCommands,
      parseTextCommand (nameLine command n.bytes) = ⟨command, [n.bytes]⟩ := by
  intro h
  have hname := h ⟨ascii "file with space.txt", by decide, by decide, by decide, by decide, by decide⟩ (ascii "RETR")
    (by decide)
  exact absurd hname (by decide)

end CftpServer.Command
