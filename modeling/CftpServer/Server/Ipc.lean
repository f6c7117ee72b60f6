import CftpServer.Command.Spelling
import CftpServer.Command.Reader
import CftpServer.Lib.Numeral
import Mathlib.Algebra.Order.Group.Nat

/-!
# Questions to the parent (`ipc/interprocess_handler.c`)

A session asks its parent for the names of users and groups over a stream socket. Neither questions nor answers are
framed: the parent takes for a question what one read gives it, and a call of the session returns with what its first
read gives.

* `executeRootCommand_question`: what the parent writes when a question comes in one piece
* `step_phase`: one event, when nothing is divided or left over
* `answers_belong`: so every answer is that of its question
-/

namespace CftpServer.Ipc

open CLib Command Runs

/-! ## The parent -/

/-- A name of the databases, a C string. -/
structure Name where
  bytes : Bytes
  nul : 0 ∉ bytes
deriving DecidableEq

/-- The user and group databases of the parent. -/
structure Database where
  getpwuid : Nat → Option Name
  getgrgid : Nat → Option Name

inductive Kind where
  | user | group
deriving DecidableEq, Repr

def Kind.word : Kind → Bytes
  | user => ascii "UID"
  | group => ascii "GID"

/-- The name the parent looks up. -/
def Database.name (db : Database) (kind : Kind) (id : Nat) : Bytes :=
  match kind with
  | .user => ((db.getpwuid id).map Name.bytes).getD (ascii "unknown")
  | .group => ((db.getgrgid id).map Name.bytes).getD (ascii "unknown")

/-- `sscanf(s, "%u", &id) == 1`: the number, as `strtoul` reads it, in 32 bits. -/
def sscanfU (s : Bytes) : Option Nat :=
  (scanInt s).map fun (negative, n, _) =>
    let n := min n (2 ^ 64 - 1)
    (if negative then 2 ^ 64 - n else n) % 2 ^ 32

def INVALID_UID : Bytes := ascii "500 Invalid UID format\r\n"
def INVALID_GID : Bytes := ascii "500 Invalid GID format\r\n"

/-- The branch of `execute_root_command` for one kind of name. -/
def writeName (db : Database) (kind : Kind) (invalid arg : Bytes) : Bytes :=
  match sscanfU arg with
  | some id => cut MAX_ARG_LEN (db.name kind id) ++ [0]
  | none => invalid

/-- `execute_root_command`: the bytes it writes. -/
def executeRootCommand (db : Database) (input : Bytes) : Bytes :=
  let cmd := parseTextCommand input
  match cmd.args with
  | [arg] =>
    if cmd.command = ascii "UID" then writeName db .user INVALID_UID arg
    else if cmd.command = ascii "GID" then writeName db .group INVALID_GID arg
    else []
  | _ => INVALID_UID

/-! ## The session -/

/-- A call of `ask_root_for_username` or `ask_root_for_groupname`. -/
structure Question where
  kind : Kind
  id : UInt32
  bufferSize : Nat
deriving DecidableEq, Repr

/-- `"UID %u"`, `"GID %u"`. -/
def Question.format (q : Question) : Bytes := q.kind.word ++ ascii " " ++ dec q.id.toNat

/-- The string the buffer has room for. -/
def Question.text (q : Question) : Bytes := cut q.bufferSize q.format

/-- Both ends of the socket pair: the bytes on their way, the input buffers of the two bufferevents, the call that
waits, and the calls that have returned with what is in their buffers. -/
structure Channel where
  toParent : Bytes
  parentIn : Bytes
  toChild : Bytes
  childIn : Bytes
  waiting : Option Question
  answers : List (Question × Bytes)

/-- A call, or one end reads so many bytes. -/
inductive Event where
  | ask (q : Question)
  | parentRead (n : Nat)
  | childRead (n : Nat)

/-- `ask_custom_command`, up to its wait. -/
def ask (q : Question) (s : Channel) : Channel :=
  if q.bufferSize = 0 then s else { s with toParent := s.toParent ++ q.text, waiting := some q }

/-- `on_read` in the parent. -/
def onRead (db : Database) (bytes : Bytes) (s : Channel) : Channel :=
  let input := s.parentIn ++ bytes
  { s with
    parentIn := readRest input
    toChild := s.toChild ++ executeRootCommand db (readInput input) }

/-- `ipc_reply_cb`, and the return of the call. -/
def ipcReplyCb (q : Question) (bytes : Bytes) (s : Channel) : Channel :=
  let input := s.childIn ++ bytes
  { s with
    childIn := input.drop (q.bufferSize - 1)
    waiting := none
    answers := s.answers ++ [(q, cstr (input.take (q.bufferSize - 1)))] }

/-- One event. The session asks nothing while a call waits, and reads only then; an empty read does not happen. -/
def step (db : Database) : Event → Channel → Channel
  | .ask q, s => if s.waiting.isSome then s else ask q s
  | .parentRead n, s =>
    if s.toParent.take n = [] then s else onRead db (s.toParent.take n) { s with toParent := s.toParent.drop n }
  | .childRead n, s =>
    match s.waiting with
    | some q =>
      if s.toChild.take n = [] then s else ipcReplyCb q (s.toChild.take n) { s with toChild := s.toChild.drop n }
    | none => s

/-- A new session. -/
def start : Channel := ⟨[], [], [], [], none, []⟩

/-- What the buffer of a call should hold. -/
def answer (db : Database) (q : Question) : Bytes := cut q.bufferSize (db.name q.kind q.id.toNat)

/-- There is room for the question in its buffer, and the parent does not cut the name further than the buffer. -/
def Fits (db : Database) (q : Question) : Prop :=
  q.format.length < q.bufferSize ∧ (q.bufferSize ≤ MAX_ARG_LEN ∨ (db.name q.kind q.id.toNat).length < MAX_ARG_LEN)

/-- Nothing is left of an earlier answer when a question is asked, questions come in one piece, and answers too, as
far as there is room for them. -/
def Undivided (db : Database) : Event → Channel → Prop
  | .ask q, s => s.waiting = none → q.bufferSize ≠ 0 → s.toChild = [] ∧ s.childIn = [] ∧ Fits db q
  | .parentRead n, s => s.toParent.length ≤ n
  | .childRead n, s => ∀ q, s.waiting = some q → min s.toChild.length (q.bufferSize - 1) ≤ n

/-! ## A question in one piece -/

theorem Database.nul (db : Database) (kind : Kind) (id : Nat) : 0 ∉ db.name kind id := by
  have hget : ∀ o : Option Name, 0 ∉ (o.map Name.bytes).getD (ascii "unknown") := by
    intro o
    cases o with
    | none => decide
    | some n => exact n.nul
  cases kind with
  | user => exact hget _
  | group => exact hget _

theorem sscanfU_dec (id : UInt32) : sscanfU (dec id.toNat) = some id.toNat := by
  have hlt := id.toNat_lt
  have hscan : scanInt (dec id.toNat) = some (false, id.toNat, []) := by
    simpa using scanInt_dec id.toNat (fun c (hc : c ∈ ([] : Bytes).head?) => by cases hc)
  rw [sscanfU, hscan, Option.map_some, Option.some.injEq]
  simp only [Bool.false_eq_true, if_false]
  omega

theorem isdigit_plain {c : UInt8} (h : isdigit c = true) : Plain c := by
  refine ⟨(isdigit_solid h).1, ?_, ?_⟩
  · rintro rfl
    revert h
    decide
  · rintro rfl
    revert h
    decide

theorem dec_length (k : Nat) : ∀ {n : Nat}, n < 10 ^ (k + 1) → (dec n).length ≤ k + 1 := by
  induction k with
  | zero =>
    intro n hn
    rw [dec_of_lt (by omega)]
    exact le_refl _
  | succ k ih =>
    intro n hn
    rcases Nat.lt_or_ge n 10 with h10 | h10
    · rw [dec_of_lt h10, List.length_singleton]
      omega
    · have hdiv : n / 10 < 10 ^ (k + 1) := by
        rw [Nat.div_lt_iff_lt_mul (by decide), ← Nat.pow_succ]
        exact hn
      have := ih hdiv
      rw [dec_append h10, List.length_append, List.length_singleton]
      omega

theorem dec_plain (n : Nat) : ∀ c ∈ dec n, Plain c := fun c hc => isdigit_plain ((dec_spec n).2.1 c hc)

/-- A number behind a word is its only argument. -/
theorem parseTextCommand_number (w : Word) {n : Nat} (hn : (dec n).length ≤ MAX_ARG_LEN - 1) :
    parseTextCommand (w.bytes ++ ascii " " ++ dec n) = ⟨w.bytes.map toupper, [dec n]⟩ := by
  have hends : Ends (ascii " " ++ dec n) := ends_cons (c := 32) (by decide) (dec n)
  have hargs : argsLoop MAX_ARGS (dec n ++ []) = [dec n] :=
    argsLoop_plain (dec_spec n).1 (dec_plain n) hn (List.forall_mem_nil _)
  have hblank : Blank (ascii " ") := by decide
  rw [List.append_nil] at hargs
  have hword := parseTextCommand_word w (List.forall_mem_nil _) hends
  rw [List.nil_append, ← List.append_assoc, ← argsLoop_skipSpaces, skipSpaces_blank_append hblank,
    argsLoop_skipSpaces, hargs] at hword
  exact hword

theorem Kind.word_spec (kind : Kind) : kind.word ≠ [] ∧ (kind.word ++ ascii " ").length = 4 ∧
    (∀ c ∈ kind.word, c ≠ 0 ∧ isspace c = false) ∧ (∀ c ∈ kind.word ++ ascii " ", c ≠ 0) ∧
      kind.word.map toupper = kind.word := by
  have hsolid : ∀ c ∈ kind.word, c ≠ 0 ∧ isspace c = false := by
    cases kind <;> exact solid_of_all (by decide)
  refine ⟨by cases kind <;> decide, by cases kind <;> decide, hsolid, fun c hc => ?_, by cases kind <;> decide⟩
  rcases List.mem_append.mp hc with hc | hc
  · exact (hsolid c hc).1
  · obtain rfl : c = 32 := List.mem_singleton.mp hc
    decide

theorem format_length (q : Question) : q.format.length ≤ INPUT_LEN := by
  have hdec : (dec q.id.toNat).length ≤ 10 := dec_length 9 (lt_trans q.id.toNat_lt (by decide))
  have hword := q.kind.word_spec.2.1
  have : INPUT_LEN = 1023 := rfl
  rw [Question.format, List.length_append]
  omega

/-- What `on_read` takes out of the buffer is the question itself. -/
theorem readInput_format (q : Question) : readInput q.format = q.format := by
  rw [readInput, List.take_of_length_le (format_length q), cstr, List.takeWhile_eq_self_iff]
  intro c hc
  rcases List.mem_append.mp hc with hc | hc
  · simpa using q.kind.word_spec.2.2.2.1 c hc
  · have hdigit := (dec_spec _).2.1 c hc
    simp only [bne_iff_ne, ne_eq]
    rintro rfl
    exact absurd hdigit (by decide)

/-- **A question in one piece** is answered with the name and its NUL. -/
theorem executeRootCommand_question (db : Database) (q : Question) :
    executeRootCommand db (readInput q.format) = cut MAX_ARG_LEN (db.name q.kind q.id.toNat) ++ [0] := by
  have hlen : (dec q.id.toNat).length ≤ MAX_ARG_LEN - 1 :=
    (dec_length 9 (lt_trans q.id.toNat_lt (by decide))).trans (by decide)
  obtain ⟨hne, hwordLen, hsolid, -, hup⟩ := q.kind.word_spec
  have hfits : q.kind.word.length ≤ MAX_ARG_LEN - 1 := by
    have : MAX_ARG_LEN = 4096 := rfl
    rw [List.length_append] at hwordLen
    omega
  have hparse := parseTextCommand_number ⟨q.kind.word, hne, hfits, hsolid⟩ hlen
  simp only [hup] at hparse
  rw [readInput_format, Question.format]
  simp only [executeRootCommand, hparse]
  have hother : ascii "GID" ≠ ascii "UID" := by decide
  cases q.kind with
  | user => simp only [Kind.word, if_true, writeName, sscanfU_dec]
  | group => simp only [Kind.word, hother, if_false, if_true, writeName, sscanfU_dec]

theorem cstr_take_append_nul {a : Bytes} (ha : 0 ∉ a) (k : Nat) : cstr ((a ++ [0]).take k) = a.take k := by
  have hself : ∀ {b : Bytes}, 0 ∉ b → cstr b = b := by
    intro b hb
    rw [cstr, List.takeWhile_eq_self_iff]
    intro c hc
    simpa using fun h0 : c = 0 => hb (h0 ▸ hc)
  rw [List.take_append]
  rcases Nat.lt_or_ge a.length k with hk | hk
  · obtain ⟨m, hm⟩ : ∃ m, k - a.length = m + 1 := ⟨k - a.length - 1, by omega⟩
    rw [hm, List.take_of_length_le hk.le, cstr, List.takeWhile_append_of_pos fun c hc => by
      simpa using fun h0 : c = 0 => ha (h0 ▸ hc)]
    simp
  · rw [Nat.sub_eq_zero_of_le hk, List.take_zero, List.append_nil]
    exact hself fun h => ha (List.mem_of_mem_take h)

/-- What a call is left with when it reads its answer, as far as there is room for it. -/
theorem answer_of_read {db : Database} {q : Question} (hq : Fits db q) {n : Nat}
    (hn : min (cut MAX_ARG_LEN (db.name q.kind q.id.toNat) ++ [0]).length (q.bufferSize - 1) ≤ n) :
    cstr (((cut MAX_ARG_LEN (db.name q.kind q.id.toNat) ++ [0]).take n).take (q.bufferSize - 1)) = answer db q := by
  have hnul := db.nul q.kind q.id.toNat
  have hfits := hq.2
  unfold answer
  generalize db.name q.kind q.id.toNat = name at *
  have htake : ((cut MAX_ARG_LEN name ++ [0]).take n).take (q.bufferSize - 1) =
      (cut MAX_ARG_LEN name ++ [0]).take (q.bufferSize - 1) := by
    rw [List.take_take]
    rw [List.take_eq_take_iff]
    omega
  have hcut : 0 ∉ cut MAX_ARG_LEN name := fun h => hnul (List.mem_of_mem_take h)
  rw [htake, cstr_take_append_nul hcut, cut, cut, List.take_take,
    List.take_eq_take_iff]
  have : MAX_ARG_LEN = 4096 := rfl
  omega

/-! ## Calls, one after another -/

/-- Where a call is: none waits, its question is on the way, or its answer is. -/
inductive Phase (db : Database) (s : Channel) : Prop where
  | idle (waiting : s.waiting = none) (question : s.toParent = []) (parent : s.parentIn = [])
  | asked (q : Question) (waiting : s.waiting = some q) (fits : Fits db q) (question : s.toParent = q.format)
      (parent : s.parentIn = []) (answer : s.toChild = []) (child : s.childIn = [])
  | answered (q : Question) (waiting : s.waiting = some q) (fits : Fits db q) (question : s.toParent = [])
      (parent : s.parentIn = []) (answer : s.toChild = cut MAX_ARG_LEN (db.name q.kind q.id.toNat) ++ [0])
      (child : s.childIn = [])

/-- The calls that have returned have their answers. -/
def Answered (db : Database) (s : Channel) : Prop := ∀ a ∈ s.answers, a.2 = answer db a.1

section Step

variable {db : Database} {s : Channel} {q : Question} {n : Nat}

theorem step_ask (hok : Undivided db (.ask q) s) (h : Phase db s) (ha : Answered db s) :
    Phase db (step db (.ask q) s) ∧ Answered db (step db (.ask q) s) := by
  by_cases hw : s.waiting = none
  · by_cases hsize : q.bufferSize = 0
    · simp only [step, hw, Option.isSome_none, Bool.false_eq_true, if_false, ask, hsize, if_true]
      exact ⟨h, ha⟩
    · obtain ⟨hanswer, hchild, hfits⟩ := hok hw hsize
      obtain ⟨hquestion, hparent⟩ : s.toParent = [] ∧ s.parentIn = [] := by
        cases h with
        | idle _ hq hp => exact ⟨hq, hp⟩
        | asked q' hw' => rw [hw] at hw'; cases hw'
        | answered q' hw' => rw [hw] at hw'; cases hw'
      have htext : q.text = q.format := List.take_of_length_le (Nat.le_sub_one_of_lt hfits.1)
      simp only [step, hw, Option.isSome_none, Bool.false_eq_true, if_false, ask, hsize]
      exact ⟨.asked q rfl hfits (by rw [hquestion, List.nil_append, htext]) hparent hanswer hchild, ha⟩
  · simp only [step, Option.isSome_iff_ne_none.mpr hw, if_true]
    exact ⟨h, ha⟩

theorem step_parentRead (hok : Undivided db (.parentRead n) s) (h : Phase db s) (ha : Answered db s) :
    Phase db (step db (.parentRead n) s) ∧ Answered db (step db (.parentRead n) s) := by
  have hall : s.toParent.take n = s.toParent := List.take_of_length_le hok
  have hnone : s.toParent.drop n = [] := List.drop_eq_nil_of_le hok
  simp only [step, hall, hnone]
  split
  · exact ⟨h, ha⟩
  · rename_i hempty
    cases h with
    | idle _ hq _ => exact absurd hq hempty
    | answered _ _ _ hq => exact absurd hq hempty
    | asked q hw hfits hquestion hparent hanswer hchild =>
      have hwrite := executeRootCommand_question db q
      have hrest : readRest q.format = [] := List.drop_eq_nil_of_le (format_length q)
      simp only [onRead, hparent, List.nil_append, hquestion, hwrite, hrest, hanswer]
      exact ⟨.answered q hw hfits rfl rfl rfl hchild, ha⟩

theorem step_childRead (hok : Undivided db (.childRead n) s) (h : Phase db s) (ha : Answered db s) :
    Phase db (step db (.childRead n) s) ∧ Answered db (step db (.childRead n) s) := by
  cases hw : s.waiting with
  | none =>
    simp only [step, hw]
    exact ⟨h, ha⟩
  | some q =>
    have hread := hok q hw
    simp only [step, hw]
    split
    · exact ⟨h, ha⟩
    · rename_i hsome
      cases h with
      | idle hw' => rw [hw] at hw'; cases hw'
      | asked _ _ _ _ _ hanswer => exact absurd (by rw [hanswer, List.take_nil]) hsome
      | answered q' hw' hfits hquestion hparent hanswer hchild =>
        obtain rfl : q = q' := Option.some.inj (hw.symm.trans hw')
        refine ⟨.idle rfl hquestion hparent, fun a hmem => ?_⟩
        simp only [ipcReplyCb, hchild, List.nil_append, List.mem_append, List.mem_singleton] at hmem
        rcases hmem with hmem | rfl
        · exact ha a hmem
        · rw [hanswer] at hread ⊢
          exact answer_of_read hfits hread

/-- **One event**, with nothing divided and nothing left over. -/
theorem step_phase {e : Event} (hok : Undivided db e s) (h : Phase db s) (ha : Answered db s) :
    Phase db (step db e s) ∧ Answered db (step db e s) := by
  cases e with
  | ask q => exact step_ask hok h ha
  | parentRead n => exact step_parentRead hok h ha
  | childRead n => exact step_childRead hok h ha

end Step

/-- **Every answer belongs to its question**, in every run in which questions and answers come in one piece and nothing
of an answer is left when the next question is asked. -/
theorem answers_belong (db : Database) (es : List Event) (hg : Guarded (step db) (Undivided db) es start) :
    ∀ a ∈ (run (step db) es start).answers, a.2 = cut a.1.bufferSize (db.name a.1.kind a.1.id.toNat) := by
  have hrun := run_inv_of_guarded (P := fun s => Phase db s ∧ Answered db s)
    (fun e s hok h => step_phase hok h.1 h.2) es hg ⟨.idle rfl rfl rfl, fun a ha => by cases ha⟩
  exact hrun.2

/-- Everybody has the same name. -/
def everybody (name : Name) : Database := ⟨fun _ => some name, fun _ => some name⟩

/-- The names of the owner and the group of an entry. -/
theorem owner_and_group_answered :
    ((run (step (everybody ⟨ascii "alice", by decide⟩)) [.ask ⟨.user, 1000, 256⟩, .parentRead 100, .childRead 100,
      .ask ⟨.group, 1000, 256⟩, .parentRead 100, .childRead 100] start).answers.all fun a =>
        a.2 == cut a.1.bufferSize (ascii "alice")) = true := by
  refine List.all_eq_true.mpr fun a ha => beq_iff_eq.mpr ?_
  have hask : ∀ kind, Fits (everybody ⟨ascii "alice", by decide⟩) ⟨kind, 1000, 256⟩ := by
    intro kind
    cases kind <;> exact ⟨by decide, .inl (by decide)⟩
  have h := answers_belong (everybody ⟨ascii "alice", by decide⟩) [.ask ⟨.user, 1000, 256⟩, .parentRead 100,
    .childRead 100, .ask ⟨.group, 1000, 256⟩, .parentRead 100, .childRead 100]
    ⟨fun _ _ => ⟨rfl, rfl, hask .user⟩, by unfold Undivided; decide,
      fun _ _ => (Nat.min_le_left _ _).trans (by decide), fun _ _ => ⟨by decide, by decide, hask .group⟩,
      by unfold Undivided; decide, fun _ _ => (Nat.min_le_left _ _).trans (by decide), trivial⟩ a ha
  rw [h]
  cases a.1.kind <;> rfl

/-- Of a name of 255 bytes the NUL is left, and the next call returns with it. -/
theorem long_name_shifts_answers : ¬ ∀ (db : Database) (es : List Event), ∀ a ∈ (run (step db) es start).answers,
    a.2 = cut a.1.bufferSize (db.name a.1.kind a.1.id.toNat) := by
  intro h
  have hgroup := h (everybody ⟨List.replicate 255 97, by decide⟩)
    [.ask ⟨.user, 1, 256⟩, .parentRead 100, .childRead 4096, .ask ⟨.group, 1, 256⟩, .parentRead 100, .childRead 4096]
    (⟨.group, 1, 256⟩, []) (by decide)
  exact absurd hgroup (by decide)

end CftpServer.Ipc
