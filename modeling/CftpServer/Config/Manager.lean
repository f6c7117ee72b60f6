import CftpServer.Lib.Numeral
import CftpServer.Session.Env
import Mathlib.Data.List.DropRight

/-!
# The configuration (`config_manager/config_manager.c`)

A configuration file has lines `key=value`. `assignKv` takes a value only if it is in the range of its key, and
`postValidate` puts the passive ports in order.

* `assignKv_assignable`: one assignment keeps every field in its range
* `configuration_usable`: so whatever the file, the configuration can be used
-/

namespace CftpServer.Config

open CLib

def PATH_MAX : Nat := 4096
def SERVER_NAME_SIZE : Nat := 256

/-- `configurations_t`; a string is what its array holds before the NUL. -/
structure Configurations where
  maxConnections : Nat
  connectionAcceptTimeout : Int
  dataConnectionAcceptTimeout : Int
  port : Int
  passivePortStart : Int
  passivePortEnd : Int
  serverName : Bytes
  sslCertFile : Bytes
  sslKeyFile : Bytes
deriving DecidableEq, Repr

/-- `fill_default_configurations`. -/
def fillDefaultConfigurations : Configurations where
  maxConnections := 10000
  connectionAcceptTimeout := 60
  dataConnectionAcceptTimeout := 9
  port := 21
  passivePortStart := 40000
  passivePortEnd := 41000
  serverName := cut SERVER_NAME_SIZE (ascii "Harkirat's FTP Server")
  sslCertFile := cut PATH_MAX (ascii "/etc/ssl/certs/cftp_server.crt")
  sslKeyFile := cut PATH_MAX (ascii "/etc/ssl/private/cftp_server.key")

/-! ## Strings -/

def tolower (c : UInt8) : UInt8 := if 65 ≤ c && c ≤ 90 then c + 32 else c

/-- `trim_right_inplace`. -/
def trimRightInplace (s : Bytes) : Bytes := s.rdropWhile isspace

/-- `trim_inplace`. -/
def trimInplace (s : Bytes) : Bytes := trimRightInplace (skipSpaces s)

/-- `equals_icase`. -/
def equalsIcase : Bytes → Bytes → Bool
  | a :: as, b :: bs => if tolower a ≠ tolower b then false else equalsIcase as bs
  | [], [] => true
  | _, _ => false

/-- `strtol(v, &end, 10)` without an error, `long` having 64 bits: the value and the text at `end`. -/
def strtol (v : Bytes) : Option (Int × Bytes) :=
  (scanInt v).bind fun (negative, n, rest) =>
    let val : Int := if negative then -n else n
    if -2 ^ 63 ≤ val ∧ val ≤ 2 ^ 63 - 1 then some (val, rest) else none

/-- `parse_int`. -/
def parseInt (v : Bytes) : Option Int :=
  (strtol v).bind fun (val, rest) =>
    if skipSpaces rest = [] ∧ -2 ^ 31 ≤ val ∧ val ≤ 2 ^ 31 - 1 then some val else none

example : parseInt (ascii " 040000 ") = some 40000 := by decide

/-! ## Assignments -/

/-- `if (parse_int(v, &iv) && …) cfg->… = iv`. -/
def assignInt (v : Bytes) (accepts : Int → Bool) (set : Int → Configurations) (cfg : Configurations) : Configurations :=
  match parseInt v with
  | some iv => if accepts iv then set iv else cfg
  | none => cfg

/-- `snprintf(…, size, "%s", v)` and `trim_right_inplace`. -/
def assignString (size : Nat) (v : Bytes) : Bytes := trimRightInplace (cut size v)

/-- `assign_kv`. -/
def assignKv (cfg : Configurations) (k v : Bytes) : Configurations :=
  if equalsIcase k (ascii "max_connections") then
    assignInt v (fun iv => iv > 0) (fun iv => { cfg with maxConnections := (iv % 2 ^ 32).toNat }) cfg
  else if equalsIcase k (ascii "connection_accept_timeout") then
    assignInt v (fun iv => iv ≥ 0) (fun iv => { cfg with connectionAcceptTimeout := iv }) cfg
  else if equalsIcase k (ascii "data_connection_accept_timeout") then
    assignInt v (fun iv => iv ≥ 0) (fun iv => { cfg with dataConnectionAcceptTimeout := iv }) cfg
  else if equalsIcase k (ascii "passive_port_start") then
    assignInt v (fun iv => iv ≥ 1024 && iv ≤ 65535) (fun iv => { cfg with passivePortStart := iv }) cfg
  else if equalsIcase k (ascii "passive_port_end") then
    assignInt v (fun iv => iv ≥ 1024 && iv ≤ 65535) (fun iv => { cfg with passivePortEnd := iv }) cfg
  else if equalsIcase k (ascii "port") then
    assignInt v (fun iv => iv ≥ 20 && iv ≤ 65535) (fun iv => { cfg with port := iv }) cfg
  else if equalsIcase k (ascii "server_name") then
    { cfg with serverName := assignString SERVER_NAME_SIZE v }
  else if equalsIcase k (ascii "ssl_cert_file") then { cfg with sslCertFile := assignString PATH_MAX v }
  else if equalsIcase k (ascii "ssl_key_file") then { cfg with sslKeyFile := assignString PATH_MAX v }
  else cfg

/-- `post_validate`. -/
def postValidate (cfg : Configurations) : Configurations :=
  let cfg := if cfg.passivePortStart < 1 then { cfg with passivePortStart := 1 } else cfg
  let cfg := if cfg.passivePortEnd > 65535 then { cfg with passivePortEnd := 65535 } else cfg
  if cfg.passivePortEnd < cfg.passivePortStart then
    { cfg with passivePortStart := cfg.passivePortEnd, passivePortEnd := cfg.passivePortStart }
  else cfg

/-! ## The file -/

/-- `sizeof(line)`. -/
def LINE_SIZE : Nat := 256

/-- `fgets` with room for so many bytes: what it stores and what is left of the file. -/
def fgets : Nat → Bytes → Bytes × Bytes
  | 0, file => ([], file)
  | _ + 1, [] => ([], [])
  | room + 1, c :: file =>
    if c = 10 then ([c], file)
    else
      let (line, rest) := fgets room file
      (c :: line, rest)

/-- The records `fgets` returns until the end of the file; a record takes a byte or more. -/
def fgetsLoop : Nat → Bytes → List Bytes
  | 0, _ => []
  | n + 1, file =>
    if file = [] then []
    else
      let (line, rest) := fgets (LINE_SIZE - 1) file
      line :: fgetsLoop n rest

/-- `while (fgets(line, sizeof(line), fp))`. -/
def records (file : Bytes) : List Bytes := fgetsLoop file.length file

/-- `strchr(line, '=')`: the text before the first `=` and the text behind it. -/
def splitAtEq (line : Bytes) : Option (Bytes × Bytes) :=
  match line.dropWhile (· ≠ 61) with
  | [] => none
  | _ :: val => some (line.takeWhile (· ≠ 61), val)

/-- The body of the loop of `read_configurations`. -/
def readRecord (cfg : Configurations) (record : Bytes) : Configurations :=
  let line := trimInplace (cstr record)
  if line = [] then cfg
  else if line.head? = some 35 then cfg
  else
    match splitAtEq line with
    | none => cfg
    | some (key, val) =>
      let key := trimInplace key
      let val := trimInplace val
      if key = [] then cfg else assignKv cfg key val

/-- `read_configurations`, of the file that is there once the defaults were seeded; `none` if it cannot be opened. -/
def readConfigurations (file : Option Bytes) : Configurations :=
  match file with
  | none => fillDefaultConfigurations
  | some file => postValidate ((records file).foldl readRecord fillDefaultConfigurations)

example : (readConfigurations (some (ascii "passive_port_start = 50000\n# port=1\nPORT=2121"))).port = 2121 := by decide

/-! ## What every configuration has -/

/-- Every field is in its range; the passive ports may still be in the wrong order. -/
structure Assignable (c : Configurations) : Prop where
  maxConnections : 1 ≤ c.maxConnections ∧ c.maxConnections ≤ 2 ^ 31 - 1
  connectionAcceptTimeout : 0 ≤ c.connectionAcceptTimeout
  dataConnectionAcceptTimeout : 0 ≤ c.dataConnectionAcceptTimeout
  port : 20 ≤ c.port ∧ c.port ≤ 65535
  passivePortStart : 1024 ≤ c.passivePortStart ∧ c.passivePortStart ≤ 65535
  passivePortEnd : 1024 ≤ c.passivePortEnd ∧ c.passivePortEnd ≤ 65535
  serverName : c.serverName.length < SERVER_NAME_SIZE
  sslCertFile : c.sslCertFile.length < PATH_MAX
  sslKeyFile : c.sslKeyFile.length < PATH_MAX

/-- A configuration the server can run with. -/
structure Usable (c : Configurations) : Prop extends Assignable c where
  ordered : c.passivePortStart ≤ c.passivePortEnd

theorem parseInt_range {v : Bytes} {iv : Int} (h : parseInt v = some iv) : -2 ^ 31 ≤ iv ∧ iv ≤ 2 ^ 31 - 1 := by
  obtain ⟨⟨val, rest⟩, -, hval⟩ := Option.bind_eq_some_iff.mp h
  simp only at hval
  split at hval
  · rename_i hrange
    obtain rfl := Option.some.inj hval
    exact hrange.2
  · cases hval

/-- A number is assigned only when it is accepted. -/
theorem assignInt_inv {P : Configurations → Prop} {v : Bytes} {accepts : Int → Bool} {set : Int → Configurations}
    {cfg : Configurations} (h : P cfg)
    (hset : ∀ iv, accepts iv = true → -2 ^ 31 ≤ iv → iv ≤ 2 ^ 31 - 1 → P (set iv)) :
    P (assignInt v accepts set cfg) := by
  unfold assignInt
  cases hv : parseInt v with
  | none => exact h
  | some iv =>
    obtain ⟨hlo, hhi⟩ := parseInt_range hv
    simp only
    split
    · rename_i hacc
      exact hset iv hacc hlo hhi
    · exact h

/-- A string is terminated within its array. -/
theorem assignString_length {size : Nat} (hsize : 0 < size) (v : Bytes) : (assignString size v).length < size := by
  have htrim : (assignString size v).length ≤ (cut size v).length := (List.rdropWhile_prefix _ _).length_le
  have hcut : (cut size v).length ≤ size - 1 := List.length_take_le _ _
  omega

theorem fillDefaultConfigurations_usable : Usable fillDefaultConfigurations := by
  constructor
  · constructor <;> decide
  · decide

/-- One assignment. -/
theorem assignKv_assignable {cfg : Configurations} (h : Assignable cfg) (k v : Bytes) :
    Assignable (assignKv cfg k v) := by
  unfold assignKv
  refine iteInduction (fun _ => ?_) fun _ => ?_
  · refine assignInt_inv h fun iv hacc _ hhi => { h with maxConnections := ?_ }
    have hpos : 0 < iv := by simpa using hacc
    simp only
    omega
  refine iteInduction (fun _ => ?_) fun _ => ?_
  · exact assignInt_inv h fun iv hacc _ _ => { h with connectionAcceptTimeout := by simpa using hacc }
  refine iteInduction (fun _ => ?_) fun _ => ?_
  · exact assignInt_inv h fun iv hacc _ _ => { h with dataConnectionAcceptTimeout := by simpa using hacc }
  refine iteInduction (fun _ => ?_) fun _ => ?_
  · exact assignInt_inv h fun iv hacc _ _ => { h with passivePortStart := by simpa using hacc }
  refine iteInduction (fun _ => ?_) fun _ => ?_
  · exact assignInt_inv h fun iv hacc _ _ => { h with passivePortEnd := by simpa using hacc }
  refine iteInduction (fun _ => ?_) fun _ => ?_
  · exact assignInt_inv h fun iv hacc _ _ => { h with port := by simpa using hacc }
  refine iteInduction (fun _ => ?_) fun _ => ?_
  · exact { h with serverName := assignString_length (by decide) v }
  refine iteInduction (fun _ => ?_) fun _ => ?_
  · exact { h with sslCertFile := assignString_length (by decide) v }
  refine iteInduction (fun _ => ?_) fun _ => ?_
  · exact { h with sslKeyFile := assignString_length (by decide) v }
  · exact h

theorem readRecord_assignable {cfg : Configurations} (h : Assignable cfg) (record : Bytes) :
    Assignable (readRecord cfg record) := by
  unfold readRecord
  simp only
  split
  · exact h
  split
  · exact h
  split
  · exact h
  · split
    · exact h
    · exact assignKv_assignable h _ _

theorem foldl_readRecord_assignable : ∀ (rs : List Bytes) {cfg : Configurations}, Assignable cfg →
    Assignable (rs.foldl readRecord cfg)
  | [], _, h => h
  | r :: rs, _, h => foldl_readRecord_assignable rs (readRecord_assignable h r)

/-- In their ranges neither port is clamped: they are put in order and nothing else changes. -/
theorem postValidate_eq {cfg : Configurations} (h : Assignable cfg) :
    postValidate cfg = { cfg with
      passivePortStart := min cfg.passivePortStart cfg.passivePortEnd
      passivePortEnd := max cfg.passivePortStart cfg.passivePortEnd } := by
  have hstart := h.passivePortStart
  have hend := h.passivePortEnd
  have hlow : ¬ cfg.passivePortStart < 1 := by omega
  have hhigh : ¬ cfg.passivePortEnd > 65535 := by omega
  simp only [postValidate, hlow, hhigh, if_false]
  split
  · rename_i hswap
    rw [Int.min_eq_right (Int.le_of_lt hswap), Int.max_eq_left (Int.le_of_lt hswap)]
  · rename_i hordered
    rw [Int.min_eq_left (Int.not_lt.mp hordered), Int.max_eq_right (Int.not_lt.mp hordered)]

theorem postValidate_usable {cfg : Configurations} (h : Assignable cfg) : Usable (postValidate cfg) := by
  have hstart := h.passivePortStart
  have hend := h.passivePortEnd
  rw [postValidate_eq h]
  exact { h with
    passivePortStart := ⟨Int.le_min.mpr ⟨hstart.1, hend.1⟩, Int.le_trans (Int.min_le_left ..) hstart.2⟩
    passivePortEnd := ⟨Int.le_trans hstart.1 (Int.le_max_left ..), Int.max_le.mpr ⟨hstart.2, hend.2⟩⟩
    ordered := Int.le_trans (Int.min_le_left ..) (Int.le_max_left ..) }

theorem readConfigurations_usable (file : Option Bytes) : Usable (readConfigurations file) := by
  cases file with
  | none => exact fillDefaultConfigurations_usable
  | some file =>
    exact postValidate_usable (foldl_readRecord_assignable _ fillDefaultConfigurations_usable.toAssignable)

/-- The passive range of a usable configuration is stored as it is. -/
theorem connectionsInitPasvRange_usable {c : Configurations} (h : Usable c) :
    ((connectionsInitPasvRange c.passivePortStart c.passivePortEnd).start : Int) = c.passivePortStart ∧
      ((connectionsInitPasvRange c.passivePortStart c.passivePortEnd).end : Int) = c.passivePortEnd ∧
      (connectionsInitPasvRange c.passivePortStart c.passivePortEnd).n = c.passivePortEnd - c.passivePortStart + 1 := by
  have hstart := h.passivePortStart
  have hend := h.passivePortEnd
  have hordered := h.ordered
  have hlow : ¬ c.passivePortStart < 1 := by omega
  have hhigh : ¬ c.passivePortEnd > 65535 := by omega
  simp only [connectionsInitPasvRange, if_neg (Int.not_lt.mpr hordered), hlow, hhigh, if_false]
  have hfits : ∀ p : Int, 1024 ≤ p → p ≤ 65535 → ((p % 2 ^ 16).toNat : Int) = p := by
    intro p hlo hhi
    rw [Int.emod_eq_of_lt (by omega) (by omega), Int.toNat_of_nonneg (by omega)]
  exact ⟨hfits _ hstart.1 hstart.2, hfits _ hend.1 hend.2, trivial⟩

/-- **Any file yields a usable configuration.** Whatever the file holds, and when it cannot be opened: the limits, the
timeouts, the ports and the strings are in their ranges, and the range of passive ports is stored without a cut. -/
theorem configuration_usable (file : Option Bytes) :
    Usable (readConfigurations file) ∧
      ∃ range, range = connectionsInitPasvRange (readConfigurations file).passivePortStart
          (readConfigurations file).passivePortEnd ∧
        (range.start : Int) = (readConfigurations file).passivePortStart ∧
        (range.end : Int) = (readConfigurations file).passivePortEnd ∧
        range.n = (readConfigurations file).passivePortEnd - (readConfigurations file).passivePortStart + 1 ∧
        1 ≤ range.n := by
  have h := readConfigurations_usable file
  obtain ⟨hstart, hend, hn⟩ := connectionsInitPasvRange_usable h
  refine ⟨h, _, rfl, hstart, hend, hn, ?_⟩
  rw [hn]
  have := h.ordered
  omega

end CftpServer.Config
