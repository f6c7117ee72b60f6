import CftpServer.Lib.ByteOrder
import CftpServer.Lib.Numeral
import CftpServer.Session.Passive

/-!
# What the client reads from a passive reply

The 227 reply has the address and the port in six numbers, the 229 reply the port between bars. `decodePassive` and
`decodeExtended` are how a client finds them in the line.

* `shiftedBytes_ntohl`: the address is printed in network order on hosts of either byte order
* `passive_reply_decodes`: what is read back is the address of the listener, and the line is whole
-/

namespace CftpServer.Session

open CLib

/-! ## The client -/

/-- A number at the start of a text, and what is behind it. -/
def readNumber (s : Bytes) : Option (Nat × Bytes) :=
  match s.takeWhile isdigit with
  | [] => none
  | d :: ds => some (ofDigits (d :: ds), s.dropWhile isdigit)

/-- So many numbers with commas between them. -/
def readNumbers : Nat → Bytes → Option (List Nat)
  | 0, _ => none
  | 1, s => (readNumber s).map fun (n, _) => [n]
  | k + 2, s =>
    match readNumber s with
    | some (n, 44 :: rest) => (readNumbers (k + 1) rest).map fun ns => n :: ns
    | _ => none

/-- The first six numbers with commas between them that a line has. -/
def decodePassive (line : Bytes) : Option (List Nat) := line.tails.findSome? (readNumbers 6)

/-- `(|||port|)`. -/
def readBars : Bytes → Option Nat
  | 40 :: 124 :: 124 :: 124 :: rest =>
    match readNumber rest with
    | some (n, 124 :: 41 :: _) => some n
    | _ => none
  | _ => none

/-- The first number between bars that a line has. -/
def decodeExtended (line : Bytes) : Option Nat := line.tails.findSome? readBars

example : decodePassive (ascii "227 Entering Passive Mode. 192,168,0,1,156,64\r\n") =
    some [192, 168, 0, 1, 156, 64] := by decide

theorem readNumber_dec (n : Nat) {rest : Bytes} (h : ∀ c ∈ rest.head?, isdigit c = false) :
    readNumber (dec n ++ rest) = some (n, rest) := by
  obtain ⟨htake, hdrop⟩ := span_dec n h
  obtain ⟨hne, -, hval⟩ := dec_spec n
  obtain ⟨d, ds, hds⟩ := List.exists_cons_of_ne_nil hne
  rw [hds] at htake hval
  simp only [readNumber, hdrop]
  rw [hds, htake]
  simp only [hval]

/-- A number and a comma are read, then the rest. -/
theorem readNumbers_dec (k n : Nat) (rest : Bytes) :
    readNumbers (k + 2) (dec n ++ 44 :: rest) = (readNumbers (k + 1) rest).map fun ns => n :: ns := by
  have hread : readNumber (dec n ++ 44 :: rest) = some (n, 44 :: rest) := by
    refine readNumber_dec n ?_
    simp [isdigit]
  simp only [readNumbers, hread]

theorem readNumbers_last (n : Nat) {rest : Bytes} (h : ∀ c ∈ rest.head?, isdigit c = false) :
    readNumbers 1 (dec n ++ rest) = some [n] := by
  simp only [readNumbers, readNumber_dec n h, Option.map_some]

/-- What the search finds at once. -/
theorem findSome_tails {α : Type} {f : Bytes → Option α} {s : Bytes} {x : α} (h : f s = some x) :
    s.tails.findSome? f = some x := by
  cases s with
  | nil => simp [h]
  | cons c s => simp [h]

/-! ## The two lines -/

/-- The 227 reply in full. -/
def passiveLine (ip : FourBytes) (port : Nat) : Bytes :=
  ascii "227 Entering Passive Mode. " ++ (dec ip.1.toNat ++ 44 :: (dec ip.2.1.toNat ++ 44 :: (dec ip.2.2.1.toNat ++
    44 :: (dec ip.2.2.2.toNat ++ 44 :: (dec (port / 256) ++ 44 :: (dec (port % 256) ++ ascii "\r\n"))))))

/-- The 229 reply in full. -/
def extendedLine (port : Nat) : Bytes :=
  ascii "229 Entering Extended Passive Mode (|||" ++ (dec port ++ ascii "|)\r\n")

set_option maxRecDepth 2000 in
theorem decodePassive_passiveLine (ip : FourBytes) (port : Nat) :
    decodePassive (passiveLine ip port) =
      some [ip.1.toNat, ip.2.1.toNat, ip.2.2.1.toNat, ip.2.2.2.toNat, port / 256, port % 256] := by
  -- no number is found before the address
  have hskip : ∀ rest : Bytes, (ascii "227 Entering Passive Mode. " ++ rest).tails.findSome? (readNumbers 6) =
      rest.tails.findSome? (readNumbers 6) := fun _ => rfl
  rw [decodePassive, passiveLine, hskip]
  refine findSome_tails ?_
  rw [readNumbers_dec, readNumbers_dec, readNumbers_dec, readNumbers_dec, readNumbers_dec,
    readNumbers_last _ (by decide)]
  rfl

set_option maxRecDepth 2000 in
theorem decodeExtended_extendedLine (port : Nat) : decodeExtended (extendedLine port) = some port := by
  have hskip : ∀ rest : Bytes, (ascii "229 Entering Extended Passive Mode (|||" ++ rest).tails.findSome? readBars =
      (ascii "(|||" ++ rest).tails.findSome? readBars := fun _ => rfl
  rw [decodeExtended, extendedLine, hskip]
  refine findSome_tails ?_
  have hread : readNumber (dec port ++ ascii "|)\r\n") = some (port, ascii "|)\r\n") := readNumber_dec port (by decide)
  show readBars (40 :: 124 :: 124 :: 124 :: (dec port ++ ascii "|)\r\n")) = some port
  rw [readBars, hread]
  rfl

theorem dec_byte_length {n : Nat} (h : n < 256) : (dec n).length ≤ 3 :=
  dec_length_le (dec_length_le (dec_length_lt_ten (by omega)))

theorem dec_port_length {n : Nat} (h : n ≤ 65535) : (dec n).length ≤ 5 :=
  dec_length_le (dec_length_le (dec_length_le (dec_length_le (dec_length_lt_ten (by omega)))))

/-- The 227 reply is not cut, neither in its own buffer nor in that of the replies. -/
theorem controlMessage_passiveText (ip : FourBytes) {port : Nat} (hport : port ≤ 65535) :
    controlMessage 227 (passiveText ip port) = passiveLine ip port := by
  have h₁ := dec_byte_length ip.1.toNat_lt
  have h₂ := dec_byte_length ip.2.1.toNat_lt
  have h₃ := dec_byte_length ip.2.2.1.toNat_lt
  have h₄ := dec_byte_length ip.2.2.2.toNat_lt
  have h₅ : (dec (port / 256)).length ≤ 3 := dec_byte_length (by omega)
  have h₆ : (dec (port % 256)).length ≤ 3 := dec_byte_length (by omega)
  have hlead : (ascii "Entering Passive Mode. ").length = 23 := rfl
  have hcomma : (ascii ",").length = 1 := rfl
  have hcode : (dec 227).length = 3 := rfl
  have hblank : (ascii " ").length = 1 := rfl
  have hend : (ascii "\r\n").length = 2 := rfl
  rw [passiveText, cut_of_lt (by simp only [List.length_append, hlead, hcomma]; omega), controlMessage,
    if_pos (by decide), cut_of_lt (by
      simp only [List.length_append, hlead, hcomma, hcode, hblank, hend, MAX_RESPONSE_BUFFER_LENGTH]
      omega)]
  simp only [List.append_assoc]
  rfl

theorem controlMessage_extendedPassiveText {port : Nat} (hport : port ≤ 65535) :
    controlMessage 229 (extendedPassiveText port) = extendedLine port := by
  have h := dec_port_length hport
  have hlead : (ascii "Entering Extended Passive Mode (|||").length = 35 := rfl
  have hbar : (ascii "|)").length = 2 := rfl
  have hcode : (dec 229).length = 3 := rfl
  have hblank : (ascii " ").length = 1 := rfl
  have hend : (ascii "\r\n").length = 2 := rfl
  rw [extendedPassiveText, cut_of_lt (by simp only [List.length_append, hlead, hbar]; omega), controlMessage,
    if_pos (by decide), cut_of_lt (by
      simp only [List.length_append, hlead, hbar, hcode, hblank, hend, MAX_RESPONSE_BUFFER_LENGTH]
      omega)]
  simp only [List.append_assoc]
  rfl

/-! ## The reply that is sent -/

/-- The address as the code takes it from the socket: `s_addr` through `ntohl`, shifts and masks. -/
theorem shiftedBytes_ntohl (order : ByteOrder) (ip : FourBytes) : shiftedBytes (ntohl order (load order ip)) = ip := by
  rw [ntohl_load, shiftedBytes_load]

variable {σ : Type} (env : Env σ)

/-- Closing the old listener sends nothing. -/
theorem dropListener_log (s : Session σ) :
    (dropListener env s).ctlOut = s.ctlOut ∧ ∃ d, (dropListener env s).log = s.log ++ d ∧
      ∀ l port, Effect.listenerNew l port ∉ d := by
  unfold dropListener
  split
  · rename_i l _
    unfold listenerFree
    split
    · exact ⟨rfl, [.listenerFree l], rfl, by simp⟩
    · exact ⟨rfl, [.listenerFree l], rfl, by simp⟩
  · exact ⟨rfl, [], (List.append_nil _).symm, by simp⟩

/-- The loop sends nothing, and if it got a listener, that is the one of the port it stopped at. -/
theorem portLoop_bound : ∀ (fuel port : Nat) {s : Session σ}, s.conn.pasvListener = none →
    (portLoop env fuel port s).2.ctlOut = s.ctlOut ∧ ∃ d, (portLoop env fuel port s).2.log = s.log ++ d ∧
      ∀ l p, Effect.listenerNew l p ∈ d → p = (portLoop env fuel port s).1 ∧
        (portLoop env fuel port s).2.conn.pasvListener.isSome = true ∧
        (portLoop env fuel port s).2.ended = s.ended
  | 0, _, s, _ => ⟨rfl, [], (List.append_nil _).symm, by simp⟩
  | fuel + 1, port, s, hp => by
    by_cases hport : port ≤ env.pasvRange.end
    · cases hbind : env.newBind s.os port with
      | true =>
        have hsome : (tryPort env port s).conn.pasvListener.isSome = true := by simp [tryPort, hbind, fresh, emit]
        simp only [portLoop, if_pos hport, hsome, if_true]
        refine ⟨by simp [tryPort, hbind, fresh, emit], [.bind port, .listenerNew s.nextId port], ?_, ?_⟩
        · simp [tryPort, hbind, fresh, emit]
        · intro l p hmem
          simp only [List.mem_cons, reduceCtorEq, Effect.listenerNew.injEq, List.not_mem_nil, or_false,
            false_or] at hmem
          exact ⟨hmem.2, trivial, tryPort_ended env port s⟩
      | false =>
        rw [portLoop_round env hp hport hbind]
        obtain ⟨hctl, d, hlog, hd⟩ := portLoop_bound fuel ((port + 1) % 2 ^ 16) (s := emit env (.bind port) s) hp
        refine ⟨hctl, .bind port :: d, by rw [hlog]; simp [emit], fun l p hmem => hd l p ?_⟩
        simpa using hmem
    · rw [portLoop, if_neg hport]
      exact ⟨rfl, [], (List.append_nil _).symm, by simp⟩

/-- With a listener, the port is announced. -/
theorem announcePort_some (extended : Bool) (ip : FourBytes) (port : Nat) {s : Session σ}
    (h : s.conn.pasvListener.isSome = true) :
    (announcePort env extended ip port s).ctlOut =
        s.ctlOut ++ controlMessage (announcement extended ip port).1 (announcement extended ip port).2 ∧
      ∃ d, (announcePort env extended ip port s).log = s.log ++ d ∧ ∀ l p, Effect.listenerNew l p ∉ d := by
  have hnone : s.conn.pasvListener.isNone = false := by simpa [← Option.not_isSome] using h
  cases extended
  · refine ⟨?_, [.timerNew s.nextId, .reply 227 (passiveText ip port)], ?_, by simp⟩
    · simp [announcePort, hnone, timerNew, sendControlMessage, announcement, fresh, emit]
    · simp [announcePort, hnone, timerNew, sendControlMessage, fresh, emit]
  · refine ⟨?_, [.timerNew s.nextId, .reply 229 (extendedPassiveText port)], ?_, by simp⟩
    · simp [announcePort, hnone, timerNew, sendControlMessage, announcement, fresh, emit]
    · simp [announcePort, hnone, timerNew, sendControlMessage, fresh, emit]

/-- A listener that a passive command binds is announced on the control connection. -/
theorem passive_reply (extended : Bool) {s : Session σ} {l port : Nat}
    (hbound : Effect.listenerNew l port ∈ newEffects s (dataConnectionListenerConfig env extended s)) :
    ∃ ip, env.getsockname (dropListener env s).os = some ip ∧
      (dataConnectionListenerConfig env extended s).ctlOut =
        s.ctlOut ++ controlMessage (announcement extended ip port).1 (announcement extended ip port).2 := by
  obtain ⟨hctl, d, hlog, hd⟩ := dropListener_log env s
  have hpasv := Extends.dropListener_pasvListener env s
  unfold dataConnectionListenerConfig at hbound ⊢
  unfold andThen at hbound ⊢
  by_cases hended : (dropListener env s).ended.isSome = true
  · rw [if_pos hended, newEffects_eq hlog] at hbound
    exact (hd l port hbound).elim
  rw [if_neg hended] at hbound ⊢
  cases hip : env.getsockname (dropListener env s).os with
  | none =>
    simp only [hip] at hbound
    have hsent : (sendControlMessage env 425 (ascii "Can't open passive connection") (dropListener env s)).log =
        s.log ++ (d ++ [.reply 425 (ascii "Can't open passive connection")]) := by
      simp [sendControlMessage, emit, hlog]
    rw [newEffects_eq hsent] at hbound
    simp [hd l port] at hbound
  | some ip =>
    simp only [hip] at hbound ⊢
    obtain ⟨hctl', d', hlog', hd'⟩ := portLoop_bound env env.spin env.pasvRange.start hpasv
    generalize portLoop env env.spin env.pasvRange.start (dropListener env s) = r at hbound hctl' hlog' hd' ⊢
    obtain ⟨q, s₁⟩ := r
    simp only at hbound hctl' hlog' hd' ⊢
    rw [hlog, List.append_assoc] at hlog'
    by_cases hgone : s₁.ended.isSome = true
    · rw [if_pos hgone, newEffects_eq hlog'] at hbound
      rcases List.mem_append.mp hbound with hmem | hmem
      · exact (hd l port hmem).elim
      · rw [(hd' l port hmem).2.2] at hgone
        exact (hended hgone).elim
    rw [if_neg hgone] at hbound ⊢
    by_cases hsome : s₁.conn.pasvListener.isSome = true
    · obtain ⟨hsent, d'', hlog'', hd''⟩ := announcePort_some env extended ip q hsome
      rw [hlog', List.append_assoc] at hlog''
      rw [newEffects_eq hlog''] at hbound
      rcases List.mem_append.mp hbound with hmem | hmem
      · rcases List.mem_append.mp hmem with hmem | hmem
        · exact (hd l port hmem).elim
        · obtain ⟨rfl, -⟩ := hd' l port hmem
          exact ⟨ip, rfl, by rw [hsent, hctl', hctl]⟩
      · exact (hd'' l port hmem).elim
    · rw [announcePort_none env extended ip (by simpa using hsome)] at hbound
      have hsent : (sendControlMessage env cannotOpen.1 cannotOpen.2 s₁).log =
          s.log ++ (d ++ d' ++ [.reply cannotOpen.1 cannotOpen.2]) := by
        simp [sendControlMessage, emit, hlog']
      rw [newEffects_eq hsent] at hbound
      rcases List.mem_append.mp hbound with hmem | hmem
      · rcases List.mem_append.mp hmem with hmem | hmem
        · exact (hd l port hmem).elim
        · exact (hsome (hd' l port hmem).2.1).elim
      · simp at hmem

/-- **The passive replies decode to the address of the listener.** For every address and every port on which a passive
command bound its listener: the 227 line gives the four bytes of the address in network order and the port in two
numbers, the 229 line gives the port, and neither is cut. -/
theorem passive_reply_decodes (order : ByteOrder) (extended : Bool) {s : Session σ} {l port : Nat}
    (hbound : Effect.listenerNew l port ∈ newEffects s (dataConnectionListenerConfig env extended s))
    (hport : 1 ≤ port ∧ port ≤ 65535) :
    ∃ ip line, env.getsockname (dropListener env s).os = some ip ∧
      shiftedBytes (ntohl order (load order ip)) = ip ∧
      (dataConnectionListenerConfig env extended s).ctlOut = s.ctlOut ++ line ∧
      if extended then line = extendedLine port ∧ decodeExtended line = some port
      else line = passiveLine ip port ∧ ∃ p₁ p₂,
        decodePassive line = some [ip.1.toNat, ip.2.1.toNat, ip.2.2.1.toNat, ip.2.2.2.toNat, p₁, p₂] ∧
        p₁ * 256 + p₂ = port ∧
        ∀ n ∈ [ip.1.toNat, ip.2.1.toNat, ip.2.2.1.toNat, ip.2.2.2.toNat, p₁, p₂], n ≤ 255 := by
  obtain ⟨ip, hip, hsent⟩ := passive_reply env extended hbound
  cases extended with
  | true =>
    refine ⟨ip, extendedLine port, hip, shiftedBytes_ntohl order ip, ?_, ?_⟩
    · rw [hsent, ← controlMessage_extendedPassiveText hport.2]
      rfl
    · exact ⟨rfl, decodeExtended_extendedLine port⟩
  | false =>
    refine ⟨ip, passiveLine ip port, hip, shiftedBytes_ntohl order ip, ?_, ?_⟩
    · rw [hsent, ← controlMessage_passiveText ip hport.2]
      rfl
    · refine ⟨rfl, port / 256, port % 256, decodePassive_passiveLine ip port, by omega, ?_⟩
      have h₁ := ip.1.toNat_lt
      have h₂ := ip.2.1.toNat_lt
      have h₃ := ip.2.2.1.toNat_lt
      have h₄ := ip.2.2.2.toNat_lt
      intro n hn
      simp only [List.mem_cons, List.not_mem_nil, or_false] at hn
      omega

/-- PASV on port 40000. -/
theorem passive_reply_decodes_alice :
    ∃ ip line, Env.permissive.getsockname (dropListener Env.permissive (aliceSession Env.permissive [])).os = some ip ∧
      shiftedBytes (ntohl .littleEndian (load .littleEndian ip)) = ip ∧
      (dataConnectionListenerConfig Env.permissive false (aliceSession Env.permissive [])).ctlOut =
        (aliceSession Env.permissive []).ctlOut ++ line ∧
      if false then line = extendedLine 40000 ∧ decodeExtended line = some 40000
      else line = passiveLine ip 40000 ∧ ∃ p₁ p₂,
        decodePassive line = some [ip.1.toNat, ip.2.1.toNat, ip.2.2.1.toNat, ip.2.2.2.toNat, p₁, p₂] ∧
        p₁ * 256 + p₂ = 40000 ∧
        ∀ n ∈ [ip.1.toNat, ip.2.1.toNat, ip.2.2.1.toNat, ip.2.2.2.toNat, p₁, p₂], n ≤ 255 :=
  passive_reply_decodes Env.permissive .littleEndian false (l := (aliceSession Env.permissive []).nextId)
    (by decide) (by decide)

end CftpServer.Session
