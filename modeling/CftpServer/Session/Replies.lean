import CftpServer.Lib.Numeral
import CftpServer.Session.Frame

/-!
# Replies as the client reads them

`send_control_message` squeezes every reply through one buffer. A reply that does not fit loses the end of its line.
PWD puts a path between quotes in such a reply.

* `controlMessage_terminated_iff`: a reply is a terminated line exactly if it fits
* `pwd_decodes_iff`: a path can be read back exactly if it is short and has neither quotes nor line ends
-/

namespace CftpServer.Session

open CLib

/-! ## Terminated lines -/

/-- A line with CRLF at its end and no other CR or LF, which begins with the status code; 0 stands for no code. -/
def Terminated (statusCode : Nat) (bytes : Bytes) : Prop :=
  ∃ line, bytes = line ++ ascii "\r\n" ∧ 13 ∉ line ∧ 10 ∉ line ∧ (statusCode ≠ 0 → dec statusCode <+: line)

/-- What stands before the text of a reply. -/
def codeText (statusCode : Nat) : Bytes := if statusCode ≠ 0 then dec statusCode ++ ascii " " else []

theorem controlMessage_eq (statusCode : Nat) (text : Bytes) :
    controlMessage statusCode text =
      cut MAX_RESPONSE_BUFFER_LENGTH (codeText statusCode ++ text ++ ascii "\r\n") := by
  unfold controlMessage codeText
  split
  · rfl
  · rfl

/-- A status code is printed in digits. -/
theorem codeText_no_lineEnd (statusCode : Nat) : 13 ∉ codeText statusCode ∧ 10 ∉ codeText statusCode := by
  have hdigits := (dec_spec statusCode).2.1
  have hno : ∀ c : UInt8, isdigit c = false → c ≠ 32 → c ∉ codeText statusCode := by
    intro c hc hblank hmem
    unfold codeText at hmem
    split at hmem
    · rcases List.mem_append.mp hmem with hmem | hmem
      · rw [hdigits c hmem] at hc
        cases hc
      · exact hblank (List.mem_singleton.mp hmem)
    · cases hmem
  exact ⟨hno 13 (by decide) (by decide), hno 10 (by decide) (by decide)⟩

/-- A line that is cut has lost its LF. -/
theorem not_mem_cut {size : Nat} {line : Bytes} (hlf : 10 ∉ line) (h : size ≤ line.length + 2) :
    10 ∉ cut size (line ++ ascii "\r\n") := by
  have hcut : cut size (line ++ ascii "\r\n") = (line ++ [13]).take (size - 1) := by
    have hsplit : line ++ ascii "\r\n" = line ++ [13] ++ [10] := by simp [ascii]
    rw [cut, hsplit, List.take_append_of_le_length (by simp; omega)]
  rw [hcut]
  intro hmem
  have := List.mem_of_mem_take hmem
  simp [hlf] at this

/-- **A reply is a terminated line exactly if it fits the buffer.** -/
theorem controlMessage_terminated_iff (statusCode : Nat) {text : Bytes} (hcr : 13 ∉ text) (hlf : 10 ∉ text) :
    Terminated statusCode (controlMessage statusCode text) ↔
      (if statusCode ≠ 0 then (dec statusCode).length + 1 else 0) + text.length + 2 < MAX_RESPONSE_BUFFER_LENGTH := by
  obtain ⟨hcr', hlf'⟩ := codeText_no_lineEnd statusCode
  have hlen : (codeText statusCode).length = if statusCode ≠ 0 then (dec statusCode).length + 1 else 0 := by
    unfold codeText
    split
    · simp [ascii]
    · rfl
  rw [← hlen, controlMessage_eq]
  constructor
  · rintro ⟨line, hline, -⟩
    by_contra hlong
    refine @not_mem_cut MAX_RESPONSE_BUFFER_LENGTH (codeText statusCode ++ text) ?_ ?_ ?_
    · simp [hlf, hlf']
    · rw [List.length_append]
      omega
    · rw [hline]
      simp [ascii]
  · intro hshort
    refine ⟨codeText statusCode ++ text, cut_of_lt ?_, by simp [hcr, hcr'], by simp [hlf, hlf'], fun hcode => ?_⟩
    · simp only [List.length_append]
      exact hshort
    · rw [codeText, if_pos hcode, List.append_assoc]
      exact List.prefix_append _ _

/-- The reply to the end of a transfer. -/
theorem controlMessage_terminated_226 : Terminated 226 (controlMessage 226 (ascii "Transfer complete")) :=
  (controlMessage_terminated_iff 226 (by decide) (by decide)).mpr (by decide)

/-- The text of the reply to PWD. -/
def pwdText (cwd : Bytes) : Bytes := cut (PATH_MAX + 32) (ascii "\"" ++ cwd ++ ascii "\" is current directory")

/-- In a directory with a path of 240 bytes the reply to PWD has no end. -/
theorem controlMessage_pwd_cut :
    ¬ Terminated 257 (controlMessage 257 (pwdText (47 :: List.replicate 239 97))) := by
  rintro ⟨line, hline, -⟩
  have hlost : 10 ∉ controlMessage 257 (pwdText (47 :: List.replicate 239 97)) := by decide +kernel
  rw [hline] at hlost
  exact hlost (by simp [ascii])

/-! ## Quoted paths -/

/-- The text up to a quote that is not doubled; a doubled quote stands for one. -/
def unquote : Bytes → Option Bytes
  | [] => none
  | [c] => if c = 34 then some [] else none
  | c :: d :: s =>
    if c = 34 then
      if d = 34 then (unquote s).map fun p => 34 :: p else some []
    else (unquote (d :: s)).map fun p => c :: p

/-- The line, if the bytes are one. -/
def replyLine (bytes : Bytes) : Option Bytes :=
  let line := bytes.takeWhile fun c => c ≠ 13 && c ≠ 10
  if bytes = line ++ ascii "\r\n" then some line else none

/-- The path that a client takes from the reply to PWD: the text between the first quote and the one that matches it. -/
def decodePwd (bytes : Bytes) : Option Bytes :=
  (replyLine bytes).bind fun line => unquote (line.dropWhile (· ≠ 34)).tail

example : decodePwd (ascii "257 \"/a \"\"b\"\"\" is current directory\r\n") = some (ascii "/a \"b\"") := by decide

theorem unquote_cons {c : UInt8} (hc : c ≠ 34) (s : Bytes) : unquote (c :: s) = (unquote s).map fun p => c :: p := by
  cases s with
  | nil => simp [unquote, hc]
  | cons d s => simp [unquote, hc]

/-- Without a quote in it, a path ends at the quote behind it. -/
theorem unquote_path : ∀ {p : Bytes} {rest : Bytes}, 34 ∉ p → rest.head? ≠ some 34 → unquote (p ++ 34 :: rest) = some p
  | [], [], _, _ => rfl
  | [], d :: rest, _, hrest => by
    have hd : d ≠ 34 := fun h => hrest (by rw [h]; rfl)
    simp [unquote, hd]
  | c :: p, rest, hp, hrest => by
    have hc : c ≠ 34 := fun h => hp (h ▸ List.mem_cons_self)
    have ih : unquote (p ++ 34 :: rest) = some p := unquote_path (fun h => hp (List.mem_cons_of_mem c h)) hrest
    rw [List.cons_append, unquote_cons hc, ih]
    rfl

/-- Every quote of the path takes two, and one more ends it. -/
theorem count_of_unquote (s : Bytes) : ∀ p, unquote s = some p → 2 * p.count 34 + 1 ≤ s.count 34 := by
  fun_induction unquote s with
  | case1 => simp
  | case2 => simp
  | case3 => simp
  | case4 s ih =>
    intro p hp
    obtain ⟨q, hq, rfl⟩ := Option.map_eq_some_iff.mp hp
    have := ih q hq
    simp only [List.count_cons_self]
    omega
  | case5 d s hd =>
    intro p hp
    obtain rfl := Option.some.inj hp
    simp
  | case6 c d s hc ih =>
    intro p hp
    obtain ⟨q, hq, rfl⟩ := Option.map_eq_some_iff.mp hp
    have := ih q hq
    rw [List.count_cons_of_ne hc, List.count_cons_of_ne hc]
    exact this

theorem replyLine_eq_some {bytes line : Bytes} :
    replyLine bytes = some line ↔ bytes = line ++ ascii "\r\n" ∧ 13 ∉ line ∧ 10 ∉ line := by
  constructor
  · intro h
    simp only [replyLine, Option.ite_none_right_eq_some, Option.some.injEq] at h
    obtain ⟨hbytes, rfl⟩ := h
    refine ⟨hbytes, fun hmem => ?_, fun hmem => ?_⟩
    · simpa using List.mem_takeWhile_imp hmem
    · simpa using List.mem_takeWhile_imp hmem
  · rintro ⟨rfl, hcr, hlf⟩
    have hall : ∀ c ∈ line, (decide (c ≠ 13) && decide (c ≠ 10)) = true := by
      intro c hc
      simp only [ne_eq, Bool.and_eq_true, decide_eq_true_eq]
      exact ⟨fun h => hcr (h ▸ hc), fun h => hlf (h ▸ hc)⟩
    have hline : (line ++ ascii "\r\n").takeWhile (fun c => c ≠ 13 && c ≠ 10) = line := by
      rw [List.takeWhile_append_of_pos hall]
      exact List.append_nil line
    simp only [replyLine, hline, if_true]

/-- What is behind the first quote has one quote less. -/
theorem count_tail_dropWhile {line : Bytes} (h : 34 ∈ line) :
    (line.dropWhile (· ≠ 34)).tail.count 34 + 1 = line.count 34 := by
  obtain ⟨u, v, rfl, hu⟩ := List.eq_append_cons_of_mem h
  have hall : ∀ c ∈ u, decide (c ≠ 34) = true := by
    intro c hc
    simp only [ne_eq, decide_eq_true_eq]
    exact fun h => hu (h ▸ hc)
  rw [List.dropWhile_append_of_pos hall, List.dropWhile_cons_of_neg (by simp), List.tail_cons, List.count_append,
    List.count_cons_self, List.count_eq_zero.mpr hu, Nat.zero_add]

/-- The reply to PWD up to the end of the path, and what is behind it. -/
def pwdLead (cwd : Bytes) : Bytes := ascii "257 \"" ++ cwd
def pwdEnd : Bytes := ascii " is current directory"

/-- The line that the reply to PWD should be. -/
def pwdLine (cwd : Bytes) : Bytes := pwdLead cwd ++ 34 :: pwdEnd

theorem pwdLine_length (cwd : Bytes) : (pwdLine cwd).length = cwd.length + 27 := by
  have h₁ : (ascii "257 \"").length = 5 := rfl
  have h₂ : (34 :: pwdEnd).length = 22 := rfl
  rw [pwdLine, pwdLead, List.length_append, List.length_append, h₁, h₂]
  omega

theorem pwdLine_lineEnds (cwd : Bytes) : (13 ∉ pwdLine cwd ↔ 13 ∉ cwd) ∧ (10 ∉ pwdLine cwd ↔ 10 ∉ cwd) := by
  have h₁ : 13 ∉ ascii "257 \"" ∧ 10 ∉ ascii "257 \"" := by decide
  have h₂ : 13 ∉ 34 :: pwdEnd ∧ 10 ∉ 34 :: pwdEnd := by decide
  simp only [pwdLine, pwdLead, List.mem_append, not_or, h₁.1, h₁.2, h₂.1, h₂.2, not_false_eq_true, true_and, and_true,
    and_self]

theorem pwdLine_quotes (cwd : Bytes) : (pwdLead cwd).count 34 = cwd.count 34 + 1 ∧
    (pwdLine cwd ++ ascii "\r\n").count 34 = cwd.count 34 + 2 := by
  have h₁ : (ascii "257 \"").count 34 = 1 := by decide
  have h₂ : (34 :: pwdEnd ++ ascii "\r\n").count 34 = 1 := by decide
  constructor
  · rw [pwdLead, List.count_append, h₁, Nat.add_comm]
  · rw [pwdLine, pwdLead, List.append_assoc, List.count_append, List.count_append, h₁, h₂]
    omega

theorem controlMessage_pwdText {cwd : Bytes} (hlen : cwd.length < PATH_MAX) :
    controlMessage 257 (pwdText cwd) = cut MAX_RESPONSE_BUFFER_LENGTH (pwdLine cwd ++ ascii "\r\n") := by
  have htext : pwdText cwd = ascii "\"" ++ cwd ++ ascii "\" is current directory" := by
    refine cut_of_lt ?_
    have h₁ : (ascii "\"").length = 1 := rfl
    have h₂ : (ascii "\" is current directory").length = 22 := rfl
    simp only [List.length_append, h₁, h₂]
    omega
  rw [controlMessage_eq, htext, pwdLine, pwdLead]
  congr 1

/-- A client that reads back the path has seen all of it, and it has no quote. -/
theorem decoded_whole {cwd line : Bytes} (hline : line <+: pwdLine cwd ++ ascii "\r\n")
    (h : unquote (line.dropWhile (· ≠ 34)).tail = some cwd) : 34 ∉ cwd ∧ ∀ c ∈ cwd, c ∈ line := by
  obtain ⟨hlead, htotal⟩ := pwdLine_quotes cwd
  have hcount := count_of_unquote _ _ h
  have hquote : 34 ∈ line := by
    by_contra hno
    have hnil : line.dropWhile (· ≠ 34) = [] := List.dropWhile_eq_nil_iff.mpr fun c hc => by
      simp only [ne_eq, decide_eq_true_eq]
      exact fun h => hno (h ▸ hc)
    rw [hnil] at hcount
    simp at hcount
  have htail := count_tail_dropWhile hquote
  have hle := hline.sublist.count_le 34
  have hzero : cwd.count 34 = 0 := by omega
  -- there is one quote up to the end of the path, and the line has two
  have hpath : pwdLead cwd <+: line := by
    have hpart : pwdLead cwd <+: pwdLine cwd ++ ascii "\r\n" := by
      rw [pwdLine, List.append_assoc]
      exact List.prefix_append _ _
    rcases List.prefix_or_prefix_of_prefix hpart hline with hpath | hshort
    · exact hpath
    · have := hshort.sublist.count_le 34
      omega
  exact ⟨List.count_eq_zero.mp hzero, fun c hc => hpath.subset (List.mem_append_right _ hc)⟩

/-- **PWD's answer can be read back exactly if** the path has no quote, no CR and no LF and at most 226 bytes. -/
theorem pwd_decodes_iff {σ : Type} (env : Env σ) {s : Session σ} {cwd : Bytes}
    (hcwd : env.getcwd s.os s.proc = some cwd) (hlen : cwd.length < PATH_MAX) :
    (∃ bytes, (cftpPwdAuthenticatedAction env s).ctlOut = s.ctlOut ++ bytes ∧ decodePwd bytes = some cwd) ↔
      34 ∉ cwd ∧ 13 ∉ cwd ∧ 10 ∉ cwd ∧ cwd.length ≤ 226 := by
  have hsent : (cftpPwdAuthenticatedAction env s).ctlOut = s.ctlOut ++ controlMessage 257 (pwdText cwd) := by
    simp only [cftpPwdAuthenticatedAction, hcwd]
    rfl
  have hmessage := controlMessage_pwdText hlen
  have hlength := pwdLine_length cwd
  obtain ⟨hcrIff, hlfIff⟩ := pwdLine_lineEnds cwd
  constructor
  · rintro ⟨bytes, hbytes, hdecode⟩
    obtain rfl := List.append_cancel_left (hsent.symm.trans hbytes)
    obtain ⟨line, hline, hunquote⟩ := Option.bind_eq_some_iff.mp hdecode
    obtain ⟨heq, hcr, hlf⟩ := replyLine_eq_some.mp hline
    have hprefix : line <+: pwdLine cwd ++ ascii "\r\n" := by
      have hcut : cut MAX_RESPONSE_BUFFER_LENGTH (pwdLine cwd ++ ascii "\r\n") <+: pwdLine cwd ++ ascii "\r\n" :=
        List.take_prefix _ _
      rw [← hmessage, heq] at hcut
      exact (List.prefix_append line _).trans hcut
    obtain ⟨hquote, hmem⟩ := decoded_whole hprefix hunquote
    refine ⟨hquote, fun h => hcr (hmem 13 h), fun h => hlf (hmem 10 h), ?_⟩
    by_contra hlong
    have hlost : 10 ∉ cut MAX_RESPONSE_BUFFER_LENGTH (pwdLine cwd ++ ascii "\r\n") := by
      refine not_mem_cut (hlfIff.mpr fun h => hlf (hmem 10 h)) ?_
      rw [hlength, MAX_RESPONSE_BUFFER_LENGTH]
      omega
    rw [← hmessage, heq] at hlost
    exact hlost (by simp [ascii])
  · rintro ⟨hquote, hcr, hlf, hshort⟩
    refine ⟨_, hsent, ?_⟩
    have hfits : (pwdLine cwd ++ ascii "\r\n").length < MAX_RESPONSE_BUFFER_LENGTH := by
      have hend : (ascii "\r\n").length = 2 := rfl
      rw [List.length_append, hlength, hend, MAX_RESPONSE_BUFFER_LENGTH]
      omega
    have hline : replyLine (controlMessage 257 (pwdText cwd)) = some (pwdLine cwd) := by
      rw [hmessage, cut_of_lt hfits]
      exact replyLine_eq_some.mpr ⟨rfl, hcrIff.mpr hcr, hlfIff.mpr hlf⟩
    rw [decodePwd, hline]
    exact unquote_path hquote (by decide)

/-- A system of directories. -/
def directories : Env Unit :=
  { Env.permissive with
    stat := fun _ _ _ => some ⟨.dir, 0o755, 2, 1000, 1000, 4096, 0⟩
    resolve := fun _ _ path => ascii "/" ++ path }

/-- The session of a user who changed to the directory of a name. -/
def changedTo (name : Bytes) : Session Unit :=
  aliceSession directories [.controlRead (ascii "CWD " ++ name ++ ascii "\r\n")]

/-- In a directory with a plain name the path is read back. -/
theorem pwd_decodes_plain :
    ∃ bytes, (cftpPwdAuthenticatedAction directories (changedTo (ascii "x"))).ctlOut =
      (changedTo (ascii "x")).ctlOut ++ bytes ∧ decodePwd bytes = some (ascii "/x") :=
  (pwd_decodes_iff directories (by decide) (by decide)).mpr (by decide)

/-- In a directory with a quote in its name it is not: of `/a"b` the client reads `/a`. -/
theorem pwd_decodes_quote :
    (changedTo (ascii "a\\\"b")).proc.cwd = ascii "/a\"b" ∧
      (cftpPwdAuthenticatedAction directories (changedTo (ascii "a\\\"b"))).ctlOut =
        (changedTo (ascii "a\\\"b")).ctlOut ++ ascii "257 \"/a\"b\" is current directory\r\n" ∧
      decodePwd (ascii "257 \"/a\"b\" is current directory\r\n") = some (ascii "/a") ∧
      ¬ ∃ bytes, (cftpPwdAuthenticatedAction directories (changedTo (ascii "a\\\"b"))).ctlOut =
        (changedTo (ascii "a\\\"b")).ctlOut ++ bytes ∧ decodePwd bytes = some (ascii "/a\"b") := by
  have hsent : (cftpPwdAuthenticatedAction directories (changedTo (ascii "a\\\"b"))).ctlOut =
      (changedTo (ascii "a\\\"b")).ctlOut ++ ascii "257 \"/a\"b\" is current directory\r\n" := by decide +kernel
  have hread : decodePwd (ascii "257 \"/a\"b\" is current directory\r\n") = some (ascii "/a") := by decide
  refine ⟨by decide, hsent, hread, ?_⟩
  rintro ⟨bytes, hbytes, hdecode⟩
  obtain rfl := List.append_cancel_left (hsent.symm.trans hbytes)
  rw [hread] at hdecode
  exact absurd hdecode (by decide)

end CftpServer.Session
