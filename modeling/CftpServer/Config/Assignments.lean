import CftpServer.Config.Manager
import CftpServer.Lib.Trim
import Mathlib.Algebra.Order.Group.Int

/-!
# What a configuration file assigns (`config_manager/config_manager.c`)

`Assigns line k x` says, without a scan, that the line gives the key `k` the value `x`. Each record is read as the one
assignment it is, or as nothing (`readRecord_cases`), so what is held in the end is for each key the last value that
was assigned to it.

* `configuration_last_assignment`: the configuration is the last valid assignment per key
-/

namespace CftpServer.Config

open CLib

/-! ## Keys and their values -/

/-- The keys `assign_kv` knows. -/
inductive Key where
  | maxConnections
  | connectionAcceptTimeout
  | dataConnectionAcceptTimeout
  | passivePortStart
  | passivePortEnd
  | port
  | serverName
  | sslCertFile
  | sslKeyFile
deriving DecidableEq, Repr

def Key.name : Key → Bytes
  | .maxConnections => ascii "max_connections"
  | .connectionAcceptTimeout => ascii "connection_accept_timeout"
  | .dataConnectionAcceptTimeout => ascii "data_connection_accept_timeout"
  | .passivePortStart => ascii "passive_port_start"
  | .passivePortEnd => ascii "passive_port_end"
  | .port => ascii "port"
  | .serverName => ascii "server_name"
  | .sslCertFile => ascii "ssl_cert_file"
  | .sslKeyFile => ascii "ssl_key_file"

def INT_MAX : Int := 2147483647

/-- The least and the greatest number a key takes; `none` if it takes any text. -/
def Key.range : Key → Option (Int × Int)
  | .maxConnections => some (1, INT_MAX)
  | .connectionAcceptTimeout | .dataConnectionAcceptTimeout => some (0, INT_MAX)
  | .passivePortStart | .passivePortEnd => some (1024, 65535)
  | .port => some (20, 65535)
  | .serverName | .sslCertFile | .sslKeyFile => none

inductive Value where
  | number (n : Int)
  | text (s : Bytes)
deriving DecidableEq, Repr

/-- The text `v` is a value for the key. -/
inductive Key.Takes : Key → Bytes → Value → Prop
  | number {k : Key} {v : Bytes} {lo hi n : Int} :
    k.range = some (lo, hi) → Decimal v n → lo ≤ n → n ≤ hi → k.Takes v (.number n)
  | text {k : Key} {v : Bytes} : k.range = none → k.Takes v (.text v)

/-- The line is no comment, it has the key in front of its first `=`, and a value for it behind. -/
def Assigns (line : Bytes) (k : Key) (x : Value) : Prop :=
  ∃ before behind, trim line = before ++ 61 :: behind ∧ 61 ∉ before ∧ (trim line).head? ≠ some 35 ∧
    (trim before).map tolower = k.name ∧ k.Takes (trim behind) x

namespace Configurations

/-- The value held for a key. -/
def get (c : Configurations) : Key → Value
  | .maxConnections => .number c.maxConnections
  | .connectionAcceptTimeout => .number c.connectionAcceptTimeout
  | .dataConnectionAcceptTimeout => .number c.dataConnectionAcceptTimeout
  | .passivePortStart => .number c.passivePortStart
  | .passivePortEnd => .number c.passivePortEnd
  | .port => .number c.port
  | .serverName => .text c.serverName
  | .sslCertFile => .text c.sslCertFile
  | .sslKeyFile => .text c.sslKeyFile

def set (c : Configurations) : Key → Value → Configurations
  | .maxConnections, .number n => { c with maxConnections := n.toNat }
  | .connectionAcceptTimeout, .number n => { c with connectionAcceptTimeout := n }
  | .dataConnectionAcceptTimeout, .number n => { c with dataConnectionAcceptTimeout := n }
  | .passivePortStart, .number n => { c with passivePortStart := n }
  | .passivePortEnd, .number n => { c with passivePortEnd := n }
  | .port, .number n => { c with port := n }
  | .serverName, .text s => { c with serverName := s }
  | .sslCertFile, .text s => { c with sslCertFile := s }
  | .sslKeyFile, .text s => { c with sslKeyFile := s }
  | _, _ => c

theorem ext_get {c c' : Configurations} (h : ∀ k, c.get k = c'.get k) : c = c' := by
  have hmax := h .maxConnections
  have haccept := h .connectionAcceptTimeout
  have hdata := h .dataConnectionAcceptTimeout
  have hstart := h .passivePortStart
  have hend := h .passivePortEnd
  have hport := h .port
  have hname := h .serverName
  have hcert := h .sslCertFile
  have hkey := h .sslKeyFile
  simp only [get, Value.number.injEq, Value.text.injEq, Int.natCast_inj]
    at hmax haccept hdata hstart hend hport hname hcert hkey
  cases c
  cases c'
  simp only at hmax haccept hdata hstart hend hport hname hcert hkey
  subst hmax haccept hdata hstart hend hport hname hcert hkey
  rfl

/-- Setting a key changes its value and no other. -/
theorem get_set (c : Configurations) {k : Key} {v : Bytes} {x : Value} (h : k.Takes v x) (k' : Key) :
    (c.set k x).get k' = if k' = k then x else c.get k' := by
  cases h with
  | number hrange _ hlo _ =>
    cases k <;> simp only [Key.range, Option.some.injEq, Prod.mk.injEq, reduceCtorEq] at hrange <;> cases k' <;> try rfl
    -- the number of connections is not negative
    simp only [set, get, if_true, Value.number.injEq]
    exact Int.toNat_of_nonneg (by omega)
  | text hrange => cases k <;> simp only [Key.range, reduceCtorEq] at hrange <;> cases k' <;> rfl

end Configurations

/-! ## Keys -/

theorem equalsIcase_iff : ∀ {a b : Bytes}, equalsIcase a b = true ↔ a.map tolower = b.map tolower
  | [], [] => by simp [equalsIcase]
  | [], b :: bs => by simp [equalsIcase]
  | a :: as, [] => by simp [equalsIcase]
  | a :: as, b :: bs => by
    by_cases hab : tolower a = tolower b
    · simp [equalsIcase, hab, equalsIcase_iff (a := as) (b := bs)]
    · simp [equalsIcase, hab]

theorem Key.name_lower (k : Key) : k.name.map tolower = k.name := by cases k <;> rfl

theorem Key.name_injective {k k' : Key} (h : k.name = k'.name) : k = k' := by
  revert h
  cases k <;> cases k' <;> decide

/-- A text in the letters of one key is none of the others. -/
theorem equalsIcase_name {s : Bytes} {k : Key} (h : s.map tolower = k.name) (k' : Key) :
    equalsIcase s k'.name = decide (k = k') := by
  rw [Bool.eq_iff_iff, equalsIcase_iff, h, k'.name_lower, decide_eq_true_eq]
  constructor
  · exact Key.name_injective
  · rintro rfl
    rfl

/-- The branches of `assign_kv`, by the key. -/
def assignKey (cfg : Configurations) (v : Bytes) : Key → Configurations
  | .maxConnections =>
    assignInt v (fun iv => iv > 0) (fun iv => { cfg with maxConnections := (iv % 2 ^ 32).toNat }) cfg
  | .connectionAcceptTimeout =>
    assignInt v (fun iv => iv ≥ 0) (fun iv => { cfg with connectionAcceptTimeout := iv }) cfg
  | .dataConnectionAcceptTimeout =>
    assignInt v (fun iv => iv ≥ 0) (fun iv => { cfg with dataConnectionAcceptTimeout := iv }) cfg
  | .passivePortStart =>
    assignInt v (fun iv => iv ≥ 1024 && iv ≤ 65535) (fun iv => { cfg with passivePortStart := iv }) cfg
  | .passivePortEnd =>
    assignInt v (fun iv => iv ≥ 1024 && iv ≤ 65535) (fun iv => { cfg with passivePortEnd := iv }) cfg
  | .port => assignInt v (fun iv => iv ≥ 20 && iv ≤ 65535) (fun iv => { cfg with port := iv }) cfg
  | .serverName => { cfg with serverName := assignString SERVER_NAME_SIZE v }
  | .sslCertFile => { cfg with sslCertFile := assignString PATH_MAX v }
  | .sslKeyFile => { cfg with sslKeyFile := assignString PATH_MAX v }

/-- The keys in the order in which `assign_kv` tries them. -/
def keys : List Key :=
  [.maxConnections, .connectionAcceptTimeout, .dataConnectionAcceptTimeout, .passivePortStart, .passivePortEnd, .port,
    .serverName, .sslCertFile, .sslKeyFile]

theorem find?_cons_elim {ι β : Type*} (p : ι → Bool) (x : ι) (l : List ι) (c : β) (f : ι → β) :
    ((x :: l).find? p).elim c f = if p x then f x else (l.find? p).elim c f := by
  rw [List.find?_cons]
  cases p x <;> rfl

/-- `assign_kv` takes the branch of the first key that fits. -/
theorem assignKv_eq (cfg : Configurations) (s v : Bytes) :
    assignKv cfg s v = (keys.find? fun k => equalsIcase s k.name).elim cfg (assignKey cfg v) := by
  simp only [keys, find?_cons_elim]
  rfl

theorem assignKv_key {s : Bytes} {k : Key} (h : s.map tolower = k.name) (cfg : Configurations) (v : Bytes) :
    assignKv cfg s v = assignKey cfg v k := by
  have hfind : (keys.find? fun k' => equalsIcase s k'.name) = some k := by
    rw [funext (equalsIcase_name h)]
    cases k <;> rfl
  rw [assignKv_eq, hfind, Option.elim_some]

theorem assignKv_unknown {s : Bytes} (h : ∀ k : Key, s.map tolower ≠ k.name) (cfg : Configurations) (v : Bytes) :
    assignKv cfg s v = cfg := by
  have hfind : (keys.find? fun k => equalsIcase s k.name) = none := by
    refine List.find?_eq_none.mpr fun k _ => ?_
    rw [equalsIcase_iff, k.name_lower]
    exact h k
  rw [assignKv_eq, hfind, Option.elim_none]

/-! ## Values -/

/-- A trimmed text is taken for an `int` exactly if it is a number in the range of `int`. -/
theorem parseInt_iff {v : Bytes} (hv : Trimmed v v) {n : Int} :
    parseInt v = some n ↔ Decimal v n ∧ -INT_MAX - 1 ≤ n ∧ n ≤ INT_MAX := by
  rw [decimal_iff hv.first]
  constructor
  · intro h
    obtain ⟨⟨val, rest⟩, hstrtol, h⟩ := Option.bind_eq_some_iff.mp h
    obtain ⟨⟨negative, m, rest'⟩, hscan, hval⟩ := Option.bind_eq_some_iff.mp hstrtol
    simp only [Option.ite_none_right_eq_some, Option.some.injEq, Prod.mk.injEq] at h hval
    obtain ⟨-, rfl, rfl⟩ := hval
    obtain ⟨⟨hrest, hlo, hhi⟩, rfl⟩ := h
    -- there is no blank at the end of the text
    have hnil : rest' = [] := by
      by_contra hne
      obtain ⟨pre, rfl⟩ := scanInt_suffix hscan
      have hblank : isspace (rest'.getLast hne) = true :=
        List.dropWhile_eq_nil_iff.mp hrest _ (List.getLast_mem hne)
      have hlast := hv.last (rest'.getLast hne) (by
        rw [List.getLast?_append_of_ne_nil _ hne]
        exact List.getLast?_eq_some_getLast hne)
      rw [hblank] at hlast
      cases hlast
    rw [hnil] at hscan
    refine ⟨⟨negative, m, hscan, rfl⟩, ?_, ?_⟩
    · simp only [INT_MAX]
      omega
    · simp only [INT_MAX]
      omega
  · rintro ⟨⟨negative, m, hscan, rfl⟩, hlo, hhi⟩
    simp only [INT_MAX, signed] at hlo hhi
    have hlong : ∀ val : Int, -2147483647 - 1 ≤ val → val ≤ 2147483647 → -2 ^ 63 ≤ val ∧ val ≤ 2 ^ 63 - 1 := by
      intro val _ _
      omega
    have hint : ∀ val : Int, -2147483647 - 1 ≤ val → val ≤ 2147483647 → -2 ^ 31 ≤ val ∧ val ≤ 2 ^ 31 - 1 := by
      intro val _ _
      omega
    simp only [parseInt, strtol, hscan, Option.bind_some, hlong _ hlo hhi, hint _ hlo hhi, skipSpaces,
      List.dropWhile_nil, and_self, if_true, signed]

theorem decimal_unique {v : Bytes} {n m : Int} (hv : Trimmed v v) (hn : Decimal v n) (hm : Decimal v m) : n = m := by
  obtain ⟨negative, a, hscan, rfl⟩ := (decimal_iff hv.first).mp hn
  obtain ⟨negative', b, hscan', rfl⟩ := (decimal_iff hv.first).mp hm
  rw [hscan] at hscan'
  cases hscan'
  rfl

theorem Key.Takes.unique {k : Key} {v : Bytes} {x y : Value} (hv : Trimmed v v) (hx : k.Takes v x)
    (hy : k.Takes v y) : x = y := by
  cases hx with
  | number hrange hn =>
    cases hy with
    | number _ hm => rw [decimal_unique hv hn hm]
    | text hnone => rw [hrange] at hnone; cases hnone
  | text hnone =>
    cases hy with
    | number hrange => rw [hrange] at hnone; cases hnone
    | text => rfl

/-- What a text does to a key: its value is set if it has one, else nothing happens. -/
structure Settles (v : Bytes) (k : Key) (f : Configurations → Configurations) : Prop where
  sets : ∀ x, k.Takes v x → ∀ cfg, f cfg = cfg.set k x
  ignores : (∀ x, ¬ k.Takes v x) → ∀ cfg, f cfg = cfg

theorem assignInt_settles {v : Bytes} (hv : Trimmed v v) {k : Key} {lo hi : Int} (hrange : k.range = some (lo, hi))
    {accepts : Int → Bool} {set : Configurations → Int → Configurations}
    (haccepts : ∀ n, -INT_MAX - 1 ≤ n → n ≤ INT_MAX → (accepts n = true ↔ lo ≤ n ∧ n ≤ hi))
    (hbounds : -INT_MAX - 1 ≤ lo ∧ hi ≤ INT_MAX)
    (hset : ∀ cfg n, lo ≤ n → n ≤ hi → set cfg n = cfg.set k (.number n)) :
    Settles v k fun cfg => assignInt v accepts (set cfg) cfg := by
  constructor
  · intro x hx cfg
    cases hx with
    | text hnone => rw [hrange] at hnone; cases hnone
    | @number _ _ n hrange' hn hlo hhi =>
      rw [hrange] at hrange'
      cases hrange'
      have hint : -INT_MAX - 1 ≤ n ∧ n ≤ INT_MAX := ⟨by omega, by omega⟩
      have hparse : parseInt v = some n := (parseInt_iff hv).mpr ⟨hn, hint.1, hint.2⟩
      have hacc : accepts n = true := (haccepts n hint.1 hint.2).mpr ⟨hlo, hhi⟩
      simp only [assignInt, hparse, hacc, if_true]
      exact hset cfg n hlo hhi
  · intro hnone cfg
    unfold assignInt
    cases hparse : parseInt v with
    | none => rfl
    | some n =>
      obtain ⟨hn, hlo, hhi⟩ := (parseInt_iff hv).mp hparse
      have hacc : accepts n ≠ true := by
        intro hacc
        obtain ⟨hlo', hhi'⟩ := (haccepts n hlo hhi).mp hacc
        exact hnone _ (.number hrange hn hlo' hhi')
      simp only [if_neg hacc]

/-- A short text is stored whole. -/
theorem assignString_eq {size : Nat} {v : Bytes} (hv : Trimmed v v) (hlen : v.length < size) :
    assignString size v = v := by
  have htrim := rdropWhile_blank (r := []) (fun _ hc => (List.not_mem_nil hc).elim) hv.last
  rw [List.append_nil] at htrim
  rw [assignString, cut_of_lt hlen]
  exact htrim

theorem settles_text {v : Bytes} {k : Key} (hrange : k.range = none) {f : Configurations → Configurations}
    (hf : ∀ cfg, f cfg = cfg.set k (.text v)) : Settles v k f := by
  constructor
  · intro x hx cfg
    cases hx with
    | number hsome => rw [hrange] at hsome; cases hsome
    | text => exact hf cfg
  · intro hnone
    exact (hnone _ (.text hrange)).elim

theorem assignKey_settles {v : Bytes} (hv : Trimmed v v) (hlen : v.length < SERVER_NAME_SIZE) (k : Key) :
    Settles v k fun cfg => assignKey cfg v k := by
  have hpath : v.length < PATH_MAX := Nat.lt_trans hlen (by decide)
  cases k with
  | maxConnections =>
    refine assignInt_settles hv rfl (fun n _ hhi => ?_) (by decide) fun cfg n hlo hhi => ?_
    · simp only [decide_eq_true_eq]
      omega
    · simp only [INT_MAX] at hhi
      rw [Int.emod_eq_of_lt (by omega) (by omega)]
      rfl
  | connectionAcceptTimeout =>
    refine assignInt_settles hv rfl (fun n _ hhi => ?_) (by decide) fun _ _ _ _ => rfl
    simp only [decide_eq_true_eq]
    omega
  | dataConnectionAcceptTimeout =>
    refine assignInt_settles hv rfl (fun n _ hhi => ?_) (by decide) fun _ _ _ _ => rfl
    simp only [decide_eq_true_eq]
    omega
  | passivePortStart => exact assignInt_settles hv rfl (fun n _ _ => by simp) (by decide) fun _ _ _ _ => rfl
  | passivePortEnd => exact assignInt_settles hv rfl (fun n _ _ => by simp) (by decide) fun _ _ _ _ => rfl
  | port => exact assignInt_settles hv rfl (fun n _ _ => by simp) (by decide) fun _ _ _ _ => rfl
  | serverName => exact settles_text rfl fun cfg => by simp [assignKey, assignString_eq hv hlen, Configurations.set]
  | sslCertFile => exact settles_text rfl fun cfg => by simp [assignKey, assignString_eq hv hpath, Configurations.set]
  | sslKeyFile => exact settles_text rfl fun cfg => by simp [assignKey, assignString_eq hv hpath, Configurations.set]

/-! ## One record -/

theorem splitAtEq_none {line : Bytes} : splitAtEq line = none ↔ 61 ∉ line := by
  have hdrop : line.dropWhile (· ≠ 61) = [] ↔ 61 ∉ line := by
    rw [List.dropWhile_eq_nil_iff]
    constructor
    · intro h hmem
      simpa using h 61 hmem
    · intro h c hc
      simp only [ne_eq, decide_eq_true_eq]
      rintro rfl
      exact h hc
  unfold splitAtEq
  cases hcase : line.dropWhile (· ≠ 61) with
  | nil => simpa using hdrop.mp hcase
  | cons c rest => simpa using fun h => List.cons_ne_nil c rest (hcase.symm.trans (hdrop.mpr h))

theorem splitAtEq_append {before : Bytes} (h : 61 ∉ before) (behind : Bytes) :
    splitAtEq (before ++ 61 :: behind) = some (before, behind) := by
  have hall : ∀ c ∈ before, decide (c ≠ 61) = true := by
    intro c hc
    simp only [ne_eq, decide_eq_true_eq]
    rintro rfl
    exact h hc
  have hdrop : (before ++ 61 :: behind).dropWhile (· ≠ 61) = 61 :: behind := by
    rw [List.dropWhile_append_of_pos hall, List.dropWhile_cons_of_neg (by simp)]
  have htake : (before ++ 61 :: behind).takeWhile (· ≠ 61) = before := by
    rw [List.takeWhile_append_of_pos hall, List.takeWhile_cons_of_neg (by simp), List.append_nil]
  simp only [splitAtEq, hdrop, htake]

theorem append_eq_of_splitAtEq {line before behind : Bytes} (h : splitAtEq line = some (before, behind)) :
    line = before ++ 61 :: behind ∧ 61 ∉ before := by
  have hmem : 61 ∈ line := by
    by_contra hnone
    rw [splitAtEq_none.mpr hnone] at h
    cases h
  obtain ⟨u, v, rfl, hu⟩ := List.eq_append_cons_of_mem hmem
  rw [splitAtEq_append hu] at h
  cases h
  exact ⟨rfl, hu⟩

theorem Assigns.unique {line : Bytes} {k k' : Key} {x x' : Value} (h : Assigns line k x) (h' : Assigns line k' x') :
    k = k' ∧ x = x' := by
  obtain ⟨before, behind, hline, hbefore, -, hname, hx⟩ := h
  obtain ⟨before', behind', hline', hbefore', -, hname', hx'⟩ := h'
  have hsplit := splitAtEq_append hbefore behind
  rw [← hline, hline', splitAtEq_append hbefore' behind'] at hsplit
  cases hsplit
  obtain rfl : k = k' := Key.name_injective (hname.symm.trans hname')
  exact ⟨rfl, hx.unique (trimmed_trim _).self hx'⟩

/-- A record that assigns nothing. -/
def Ignored (line : Bytes) : Prop := ∀ k x, ¬ Assigns line k x

/-- What reading a record does to the configuration. -/
structure ReadAs (r : Bytes) : Prop where
  assigned : ∀ {k x}, Assigns r k x → ∀ cfg, readRecord cfg r = cfg.set k x
  ignored : Ignored r → ∀ cfg, readRecord cfg r = cfg

/-- A record is read as the assignment it is, or as nothing. -/
theorem readRecord_cases {r : Bytes} (hnul : 0 ∉ r) (hlen : r.length < LINE_SIZE) :
    (∃ k x, Assigns r k x ∧ ∀ cfg, readRecord cfg r = cfg.set k x) ∨ (Ignored r ∧ ∀ cfg, readRecord cfg r = cfg) := by
  have hcstr : cstr r = r := List.takeWhile_eq_self_iff.mpr fun c hc => by
    simpa using fun h : c = 0 => hnul (h ▸ hc)
  have hline : trimInplace (cstr r) = trim r := by rw [hcstr]; rfl
  by_cases hcomment : (trim r).head? = some 35
  · refine .inr ⟨?_, fun cfg => ?_⟩
    · rintro k x ⟨_, _, _, _, hno, _⟩
      exact hno hcomment
    · simp only [readRecord, hline, hcomment, if_true, ite_self]
  cases hsplit : splitAtEq (trim r) with
  | none =>
    refine .inr ⟨?_, fun cfg => ?_⟩
    · rintro k x ⟨before, behind, heq, -⟩
      exact splitAtEq_none.mp hsplit (by rw [heq]; simp)
    · simp only [readRecord, hline, hcomment, hsplit, ite_self]
  | some parts =>
    obtain ⟨before, behind⟩ := parts
    obtain ⟨heq, hbefore⟩ := append_eq_of_splitAtEq hsplit
    have hnil : trim r ≠ [] := by rw [heq]; simp
    have hread : ∀ cfg, readRecord cfg r =
        if trim before = [] then cfg else assignKv cfg (trim before) (trim behind) := by
      intro cfg
      simp only [readRecord, hline, hcomment, hsplit, hnil, if_false]
      rfl
    by_cases hkey : ∃ k : Key, (trim before).map tolower = k.name
    · obtain ⟨k, hk⟩ := hkey
      have hne : trim before ≠ [] := by
        intro h
        rw [h] at hk
        exact absurd hk (by cases k <;> decide)
      have hvlen : (trim behind).length < SERVER_NAME_SIZE := by
        have h₁ := (trimmed_trim behind).length_le
        have h₂ := (trimmed_trim r).length_le
        rw [heq] at h₂
        simp only [List.length_append, List.length_cons, LINE_SIZE, SERVER_NAME_SIZE] at *
        omega
      have hsettles := assignKey_settles (trimmed_trim behind).self hvlen k
      have hassign : ∀ cfg, readRecord cfg r = assignKey cfg (trim behind) k := by
        intro cfg
        rw [hread, if_neg hne, assignKv_key hk]
      by_cases hx : ∃ x, k.Takes (trim behind) x
      · obtain ⟨x, hx⟩ := hx
        refine .inl ⟨k, x, ⟨before, behind, heq, hbefore, hcomment, hk, hx⟩, fun cfg => ?_⟩
        rw [hassign]
        exact hsettles.sets x hx cfg
      · refine .inr ⟨?_, fun cfg => ?_⟩
        · rintro k' x' ⟨before', behind', heq', hbefore', -, hk', hx'⟩
          rw [heq', splitAtEq_append hbefore'] at hsplit
          cases hsplit
          obtain rfl : k' = k := Key.name_injective (hk'.symm.trans hk)
          exact hx ⟨x', hx'⟩
        · rw [hassign]
          exact hsettles.ignores (fun x h => hx ⟨x, h⟩) cfg
    · refine .inr ⟨?_, fun cfg => ?_⟩
      · rintro k' x' ⟨before', behind', heq', hbefore', -, hk', -⟩
        rw [heq', splitAtEq_append hbefore'] at hsplit
        cases hsplit
        exact hkey ⟨k', hk'⟩
      · rw [hread, assignKv_unknown (fun k hk => hkey ⟨k, hk⟩), ite_self]

theorem readRecord_readAs {r : Bytes} (hnul : 0 ∉ r) (hlen : r.length < LINE_SIZE) : ReadAs r := by
  rcases readRecord_cases hnul hlen with ⟨k, x, hassigns, hset⟩ | ⟨hignored, hsame⟩
  · constructor
    · intro k' x' h
      obtain ⟨rfl, rfl⟩ := hassigns.unique h
      exact hset
    · intro h
      exact (h k x hassigns).elim
  · constructor
    · intro k x h
      exact (hignored k x h).elim
    · exact fun _ => hsame

/-- After a record that gives `k` a value it is that, after any other it is what it was. -/
theorem ReadAs.get {r : Bytes} (h : ReadAs r) (cfg : Configurations) (k : Key) :
    (∀ x, Assigns r k x → (readRecord cfg r).get k = x) ∧
      ((∀ x, ¬ Assigns r k x) → (readRecord cfg r).get k = cfg.get k) := by
  have hset : ∀ {k' x}, Assigns r k' x → (readRecord cfg r).get k = if k = k' then x else cfg.get k := by
    intro k' x hx
    rw [h.assigned hx cfg]
    obtain ⟨_, _, _, _, _, _, htakes⟩ := hx
    exact Configurations.get_set cfg htakes k
  constructor
  · intro x hx
    rw [hset hx, if_pos rfl]
  · intro hnone
    by_cases hother : Ignored r
    · rw [h.ignored hother]
    · simp only [Ignored, not_forall, not_not] at hother
      obtain ⟨k', x, hx⟩ := hother
      rw [hset hx, if_neg]
      rintro rfl
      exact hnone x hx

/-! ## The records of a file -/

theorem fgets_append : ∀ (room : Nat) (file : Bytes), (fgets room file).1 ++ (fgets room file).2 = file
  | 0, _ => rfl
  | _ + 1, [] => rfl
  | room + 1, c :: file => by
    have ih := fgets_append room file
    by_cases hc : c = 10
    · simp [fgets, hc]
    · simp [fgets, hc, ih]

theorem fgets_length_le : ∀ (room : Nat) (file : Bytes), (fgets room file).1.length ≤ room
  | 0, _ => Nat.le_refl 0
  | _ + 1, [] => Nat.zero_le _
  | room + 1, c :: file => by
    have ih := fgets_length_le room file
    by_cases hc : c = 10
    · simp [fgets, hc]
    · simpa [fgets, hc] using ih

/-- `fgets` makes progress. -/
theorem fgets_rest_lt {room : Nat} (hroom : 0 < room) {file : Bytes} (hfile : file ≠ []) :
    (fgets room file).2.length < file.length := by
  obtain ⟨room, rfl⟩ := Nat.exists_eq_succ_of_ne_zero (Nat.ne_of_gt hroom)
  obtain ⟨c, file, rfl⟩ := List.exists_cons_of_ne_nil hfile
  have happend := congrArg List.length (fgets_append room file)
  rw [List.length_append] at happend
  by_cases hc : c = 10
  · simp [fgets, hc]
  · simp only [fgets, hc, if_false, List.length_cons]
    omega

theorem fgetsLoop_flatten : ∀ (n : Nat) {file : Bytes}, file.length ≤ n → (fgetsLoop n file).flatten = file
  | 0, file, h => by
    rw [List.eq_nil_of_length_eq_zero (Nat.le_zero.mp h)]
    rfl
  | n + 1, file, h => by
    by_cases hfile : file = []
    · simp [fgetsLoop, hfile]
    · have hlt : (fgets (LINE_SIZE - 1) file).2.length < file.length := fgets_rest_lt (by decide) hfile
      have ih := @fgetsLoop_flatten n (fgets (LINE_SIZE - 1) file).2 (by omega)
      simp only [fgetsLoop, if_neg hfile, List.flatten_cons, ih]
      exact fgets_append _ _

/-- The records are the file, cut up. -/
theorem records_flatten (file : Bytes) : (records file).flatten = file := fgetsLoop_flatten _ (Nat.le_refl _)

theorem fgetsLoop_length_lt : ∀ (n : Nat) (file : Bytes), ∀ r ∈ fgetsLoop n file, r.length < LINE_SIZE
  | 0, _, _, hr => (List.not_mem_nil hr).elim
  | n + 1, file, r, hr => by
    by_cases hfile : file = []
    · simp [fgetsLoop, hfile] at hr
    · simp only [fgetsLoop, if_neg hfile] at hr
      rcases List.mem_cons.mp hr with rfl | hr
      · exact Nat.lt_of_le_of_lt (fgets_length_le _ _) (by decide)
      · exact fgetsLoop_length_lt n _ r hr

theorem records_readAs {file : Bytes} (hfile : 0 ∉ file) : ∀ r ∈ records file, ReadAs r := by
  intro r hr
  refine readRecord_readAs (fun hnul => hfile ?_) (fgetsLoop_length_lt _ _ r hr)
  rw [← records_flatten file]
  exact List.mem_flatten.mpr ⟨r, hr, hnul⟩

/-! ## The last assignment of a key -/

/-- `x` is what the last of the records that assign `k` gives it. -/
def LastAssigned (rs : List Bytes) (k : Key) (x : Value) : Prop :=
  ∃ pre r post, rs = pre ++ r :: post ∧ Assigns r k x ∧ ∀ r' ∈ post, ∀ y, ¬ Assigns r' k y

/-- What `read_configurations` holds before `post_validate`. -/
def unvalidated (file : Bytes) : Configurations := (records file).foldl readRecord fillDefaultConfigurations

/-- Reading records keeps for each key the last value, or what was there. -/
theorem get_foldl {rs : List Bytes} (hrs : ∀ r ∈ rs, ReadAs r) (cfg : Configurations) (k : Key) :
    LastAssigned rs k ((rs.foldl readRecord cfg).get k) ∨
      (∀ r ∈ rs, ∀ x, ¬ Assigns r k x) ∧ (rs.foldl readRecord cfg).get k = cfg.get k := by
  induction rs using List.reverseRecOn with
  | nil => exact .inr ⟨fun _ h => (List.not_mem_nil h).elim, rfl⟩
  | append_singleton rs r ih =>
    have hr := (hrs r (by simp)).get (rs.foldl readRecord cfg) k
    rw [List.foldl_append, List.foldl_cons, List.foldl_nil]
    by_cases hx : ∃ x, Assigns r k x
    · obtain ⟨x, hx⟩ := hx
      rw [hr.1 x hx]
      exact .inl ⟨rs, r, [], rfl, hx, fun _ h => (List.not_mem_nil h).elim⟩
    · have hnone : ∀ x, ¬ Assigns r k x := fun x h => hx ⟨x, h⟩
      rw [hr.2 hnone]
      have hbefore := ih fun r' hr' => hrs r' (List.mem_append_left _ hr')
      rcases hbefore with ⟨pre, r', post, rfl, hassigns, hpost⟩ | ⟨hno, hsame⟩
      · refine .inl ⟨pre, r', post ++ [r], by simp, hassigns, fun r'' hr'' => ?_⟩
        rcases List.mem_append.mp hr'' with hr'' | hr''
        · exact hpost r'' hr''
        · rw [List.mem_singleton.mp hr'']
          exact hnone
      · refine .inr ⟨fun r'' hr'' => ?_, hsame⟩
        rcases List.mem_append.mp hr'' with hr'' | hr''
        · exact hno r'' hr''
        · rw [List.mem_singleton.mp hr'']
          exact hnone

open Classical in
/-- Only the records that assign the key matter for its value. -/
theorem get_foldl_filter {rs : List Bytes} (hrs : ∀ r ∈ rs, ReadAs r) (cfg : Configurations) (k : Key) :
    ((rs.filter fun r => ∃ x, Assigns r k x).foldl readRecord cfg).get k = (rs.foldl readRecord cfg).get k := by
  induction rs using List.reverseRecOn with
  | nil => rfl
  | append_singleton rs r ih =>
    have hr := hrs r (by simp)
    have ih := ih fun r' hr' => hrs r' (List.mem_append_left _ hr')
    rw [List.filter_append, List.foldl_append, List.foldl_append, List.foldl_cons, List.foldl_nil]
    by_cases hx : ∃ x, Assigns r k x
    · rw [List.filter_cons_of_pos (by simpa using hx), List.filter_nil, List.foldl_cons, List.foldl_nil]
      obtain ⟨x, hx⟩ := hx
      rw [(hr.get _ k).1 x hx, (hr.get _ k).1 x hx]
    · rw [List.filter_cons_of_neg (by simpa using hx), List.filter_nil, List.foldl_nil,
        (hr.get _ k).2 fun x h => hx ⟨x, h⟩]
      exact ih

theorem unvalidated_assignable (file : Bytes) : Assignable (unvalidated file) :=
  foldl_readRecord_assignable _ fillDefaultConfigurations_usable.toAssignable

open Classical in
/-- Records that assign nothing can be left out. -/
theorem foldl_filter_ignored {rs : List Bytes} (hrs : ∀ r ∈ rs, ReadAs r) (cfg : Configurations) :
    (rs.filter fun r => ¬ Ignored r).foldl readRecord cfg = rs.foldl readRecord cfg := by
  induction rs generalizing cfg with
  | nil => rfl
  | cons r rs ih =>
    have ih := ih fun r' hr' => hrs r' (List.mem_cons_of_mem _ hr')
    by_cases hr : Ignored r
    · rw [List.filter_cons_of_neg (by simpa using hr), List.foldl_cons, (hrs r List.mem_cons_self).ignored hr]
      exact ih cfg
    · rw [List.filter_cons_of_pos (by simpa using hr), List.foldl_cons, List.foldl_cons]
      exact ih _

open Classical in
/-- **The configuration is the last valid assignment per key.** Before `post_validate` each key holds what the last
record that assigns it gives, or its default if there is none; records that assign nothing have no effect; the passive
range is the pair in increasing order. So records can change places as long as those of one key do not. -/
theorem configuration_last_assignment {file : Bytes} (hfile : 0 ∉ file) :
    (∀ k, LastAssigned (records file) k ((unvalidated file).get k) ∨
      (∀ r ∈ records file, ∀ x, ¬ Assigns r k x) ∧
        (unvalidated file).get k = fillDefaultConfigurations.get k) ∧
    ((records file).filter fun r => ¬ Ignored r).foldl readRecord fillDefaultConfigurations = unvalidated file ∧
    readConfigurations (some file) = { unvalidated file with
      passivePortStart := min (unvalidated file).passivePortStart (unvalidated file).passivePortEnd
      passivePortEnd := max (unvalidated file).passivePortStart (unvalidated file).passivePortEnd } ∧
    ∀ rs : List Bytes, rs.Perm (records file) →
      (∀ k, (rs.filter fun r => ∃ x, Assigns r k x) = (records file).filter fun r => ∃ x, Assigns r k x) →
      postValidate (rs.foldl readRecord fillDefaultConfigurations) = readConfigurations (some file) := by
  have hread := records_readAs hfile
  refine ⟨get_foldl hread fillDefaultConfigurations, foldl_filter_ignored hread fillDefaultConfigurations,
    postValidate_eq (unvalidated_assignable file), fun rs hperm hsame => ?_⟩
  have hrs : ∀ r ∈ rs, ReadAs r := fun r hr => hread r (hperm.mem_iff.mp hr)
  have heq : rs.foldl readRecord fillDefaultConfigurations = unvalidated file := by
    refine Configurations.ext_get fun k => ?_
    rw [← get_foldl_filter hrs, hsame k, get_foldl_filter hread]
    rfl
  rw [heq]
  rfl

/-- A value out of range does not undo the one before it. -/
theorem configuration_last_assignment_port :
    LastAssigned (records (ascii "# port=1\n PORT = +2121\nport=99999\n")) .port (.number 2121) := by
  have hfile : 0 ∉ ascii "# port=1\n PORT = +2121\nport=99999\n" := by decide
  have hget : (unvalidated (ascii "# port=1\n PORT = +2121\nport=99999\n")).get .port = .number 2121 := by decide
  rcases (configuration_last_assignment hfile).1 .port with h | ⟨-, h⟩
  · rwa [hget] at h
  · rw [hget] at h
    exact absurd h (by decide)

end CftpServer.Config
