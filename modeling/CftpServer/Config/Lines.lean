import CftpServer.Config.Assignments

/-!
# Lines longer than a record (`config_manager/config_manager.c`)

`fgets` delivers a line in records of at most 255 bytes, and each record is read as if it were a line. `CountsOnce` says
that a line nevertheless counts as the one assignment it spells in full; `Undivided` is when that is so.

* `config_lines`: every line of a file counts once exactly if every line is undivided
-/

namespace CftpServer.Config

open CLib

/-- The lines of a file, each with its newline; the last one may have none. -/
def lines : Bytes → List Bytes
  | [] => []
  | c :: file =>
    if c = 10 then [10] :: lines file
    else
      match lines file with
      | [] => [[c]]
      | line :: rest => (c :: line) :: rest

/-- Reading a line, record by record, has the effect of the assignment it spells in full, or none. -/
def CountsOnce (line : Bytes) : Prop :=
  (∀ cfg, (records line).foldl readRecord cfg = cfg) ∨
    ∃ k x, Assigns line k x ∧ ∀ cfg, (records line).foldl readRecord cfg = cfg.set k x

/-- No record of the line is an assignment by itself, or the line is one record among blanks. The number 0 may go on
behind that record: more zeros do not change it. -/
def Undivided (line : Bytes) : Prop :=
  (∀ r ∈ records line, Ignored (cstr r)) ∨
    ∃ before r after, records line = before ++ r :: after ∧ (∀ b ∈ before, AllSpace b) ∧
      (0 ∉ r ∧ (∀ a ∈ after, AllSpace a) ∨ 61 ∈ cstr r ∧ ∃ k, Assigns line k (.number 0))

/-! ## The records of a line -/

/-- So many steps as there are bytes are enough. -/
theorem fgetsLoop_eq : ∀ {n m : Nat} {file : Bytes}, file.length ≤ n → file.length ≤ m →
    fgetsLoop n file = fgetsLoop m file
  | 0, 0, _, _, _ => rfl
  | 0, m + 1, file, h, _ => by simp [fgetsLoop, List.eq_nil_of_length_eq_zero (Nat.le_zero.mp h)]
  | n + 1, 0, file, _, h => by simp [fgetsLoop, List.eq_nil_of_length_eq_zero (Nat.le_zero.mp h)]
  | n + 1, m + 1, file, hn, hm => by
    by_cases hfile : file = []
    · simp [fgetsLoop, hfile]
    · have hlt : (fgets (LINE_SIZE - 1) file).2.length < file.length := fgets_rest_lt (by decide) hfile
      simp only [fgetsLoop, if_neg hfile]
      rw [fgetsLoop_eq (n := n) (m := m) (by omega) (by omega)]

theorem records_cons {file : Bytes} (hfile : file ≠ []) :
    records file = (fgets (LINE_SIZE - 1) file).1 :: records (fgets (LINE_SIZE - 1) file).2 := by
  have hlt : (fgets (LINE_SIZE - 1) file).2.length < file.length := fgets_rest_lt (by decide) hfile
  obtain ⟨n, hn⟩ := Nat.exists_eq_succ_of_ne_zero (Nat.ne_of_gt (List.length_pos_iff.mpr hfile))
  rw [records, hn, fgetsLoop, if_neg hfile, records]
  simp only
  rw [fgetsLoop_eq (n := n) (m := (fgets (LINE_SIZE - 1) file).2.length) (by omega) (Nat.le_refl _)]

/-- A record ends with the line at the latest. -/
theorem fgets_line : ∀ (room : Nat) {l : Bytes} (rest : Bytes), 10 ∉ l →
    fgets room (l ++ 10 :: rest) =
      if l.length < room then (l ++ [10], rest) else (l.take room, l.drop room ++ 10 :: rest)
  | 0, l, rest, _ => by simp [fgets]
  | room + 1, [], rest, _ => by simp [fgets]
  | room + 1, c :: l, rest, hl => by
    have hc : c ≠ 10 := fun h => hl (h ▸ List.mem_cons_self)
    have ih := fgets_line room rest fun h => hl (List.mem_cons_of_mem c h)
    simp only [List.cons_append, fgets, if_neg hc, ih, List.length_cons, Nat.add_lt_add_iff_right]
    split
    · rfl
    · rfl

/-- What is behind a line is read as if it stood alone. -/
theorem records_line (n : Nat) : ∀ {l : Bytes} (rest : Bytes), l.length = n → 10 ∉ l →
    records (l ++ 10 :: rest) = records (l ++ [10]) ++ records rest := by
  induction n using Nat.strong_induction_on with
  | _ n ih =>
    intro l rest hn hl
    rw [records_cons (by simp), @records_cons (l ++ [10]) (by simp), fgets_line _ rest hl,
      fgets_line _ [] hl]
    by_cases hlen : l.length < LINE_SIZE - 1
    · simp only [if_pos hlen]
      rfl
    · have hdrop : (l.drop (LINE_SIZE - 1)).length < n := by
        rw [List.length_drop, ← hn]
        simp only [LINE_SIZE] at hlen ⊢
        omega
      simp only [if_neg hlen, List.cons_append]
      rw [ih _ hdrop rest rfl fun h => hl (List.mem_of_mem_drop h)]

theorem lines_cons : ∀ {l : Bytes} (rest : Bytes), 10 ∉ l → lines (l ++ 10 :: rest) = (l ++ [10]) :: lines rest
  | [], rest, _ => by simp [lines]
  | c :: l, rest, hl => by
    have hc : c ≠ 10 := fun h => hl (h ▸ List.mem_cons_self)
    have ih := lines_cons (l := l) rest fun h => hl (List.mem_cons_of_mem c h)
    simp only [List.cons_append, lines, if_neg hc, ih]

theorem lines_last : ∀ {l : Bytes}, l ≠ [] → 10 ∉ l → lines l = [l]
  | [], h, _ => (h rfl).elim
  | [c], _, hl => by
    have hc : c ≠ 10 := fun h => hl (h ▸ List.mem_cons_self)
    simp [lines, hc]
  | c :: d :: l, _, hl => by
    have hc : c ≠ 10 := fun h => hl (h ▸ List.mem_cons_self)
    have ih := lines_last (List.cons_ne_nil d l) fun h => hl (List.mem_cons_of_mem c h)
    simp only [lines, if_neg hc] at ih ⊢
    rw [ih]

/-- The records of a file are those of its lines. -/
theorem records_eq_flatMap (n : Nat) :
    ∀ {file : Bytes}, file.length = n → records file = (lines file).flatMap records := by
  induction n using Nat.strong_induction_on with
  | _ n ih =>
    intro file hn
    by_cases hmem : 10 ∈ file
    · obtain ⟨l, rest, rfl, hl⟩ := List.eq_append_cons_of_mem hmem
      have hlt : rest.length < n := by
        rw [← hn]
        simp
        omega
      rw [records_line _ rest rfl hl, lines_cons rest hl, List.flatMap_cons, ih _ hlt rfl]
    · by_cases hfile : file = []
      · rw [hfile]
        rfl
      · rw [lines_last hfile hmem, List.flatMap_singleton]

/-- A file is read line by line. -/
theorem unvalidated_eq (file : Bytes) :
    unvalidated file =
      (lines file).foldl (fun cfg line => (records line).foldl readRecord cfg) fillDefaultConfigurations := by
  rw [unvalidated, records_eq_flatMap _ rfl, List.foldl_flatMap]

/-! ## Assignments without trimming the line -/

theorem Key.name_head (k : Key) : k.name ≠ [] ∧ k.name.head? ≠ some 35 := by cases k <;> decide

/-- A comment has no key: a key does not start with `#`. -/
theorem assigns_iff {line : Bytes} {k : Key} {x : Value} :
    Assigns line k x ↔ ∃ before behind, line = before ++ 61 :: behind ∧ 61 ∉ before ∧
      (trim before).map tolower = k.name ∧ k.Takes (trim behind) x := by
  have hsolid : ∀ {t : Bytes}, AllSpace t → 61 ∉ t := by
    intro t ht hmem
    exact absurd (ht 61 hmem) (by decide)
  constructor
  · rintro ⟨before, behind, hline, hbefore, -, hname, hx⟩
    obtain ⟨l, r, hsplit, hl, hr⟩ := (trimmed_trim line).split
    refine ⟨l ++ before, behind ++ r, ?_, ?_, ?_, ?_⟩
    · conv_lhs => rw [hsplit, hline]
      simp
    · simp [hsolid hl, hbefore]
    · rwa [trim_blank_append hl]
    · rwa [trim_append_blank hr]
  · rintro ⟨before, behind, rfl, hbefore, hname, hx⟩
    obtain ⟨l, r, hsplit, hl, hr⟩ := (trimmed_trim before).split
    obtain ⟨l', r', hsplit', hl', hr'⟩ := (trimmed_trim behind).split
    have hkey : trim before ≠ [] := by
      intro h
      rw [h] at hname
      exact k.name_head.1 hname.symm
    obtain ⟨c, t, ht⟩ := List.exists_cons_of_ne_nil hkey
    -- the line starts with its key and ends with its value, or with `=`
    have htrim : trim (before ++ 61 :: behind) =
        trim before ++ r ++ 61 :: (if trim behind = [] then [] else l' ++ trim behind) := by
      refine Trimmed.eq_trim ⟨?_, ?_, ?_⟩
      · by_cases hvalue : trim behind = []
        · refine ⟨l, behind, ?_, hl, trim_eq_nil.mp hvalue⟩
          conv_lhs => rw [hsplit]
          simp [hvalue]
        · refine ⟨l, r', ?_, hl, hr'⟩
          conv_lhs => rw [hsplit, hsplit']
          simp [hvalue]
      · intro d hd
        refine (trimmed_trim before).first d ?_
        rw [ht] at hd ⊢
        exact hd
      · intro d hd
        by_cases hvalue : trim behind = []
        · simp only [hvalue, if_true, List.getLast?_append, List.getLast?_singleton, Option.some_or,
            Option.mem_some_iff] at hd
          rw [← hd]
          decide
        · refine (trimmed_trim behind).last d ?_
          have hsame : (trim before ++ r ++ 61 :: (l' ++ trim behind)).getLast? = (trim behind).getLast? := by
            rw [← List.cons_append, ← List.append_assoc, List.getLast?_append_of_ne_nil _ hvalue]
          rwa [if_neg hvalue, hsame] at hd
    refine ⟨trim before ++ r, _, htrim, ?_, ?_, ?_, ?_⟩
    · rw [hsplit] at hbefore
      simp only [List.mem_append, not_or] at hbefore ⊢
      exact ⟨hbefore.1.2, hbefore.2⟩
    · rw [htrim, ht]
      intro hcomment
      rw [ht, List.map_cons] at hname
      cases hcomment
      exact k.name_head.2 (by rw [← hname]; rfl)
    · rw [trim_append_blank hr, (trimmed_trim before).self.eq_trim]
      exact hname
    · split
      · rename_i hvalue
        rw [hvalue] at hx
        exact hx
      · rw [trim_blank_append hl', (trimmed_trim behind).self.eq_trim]
        exact hx

/-- In front of and behind a line blanks do not matter. -/
theorem assigns_among_blanks {u p v : Bytes} (hu : AllSpace u) (hv : AllSpace v) {k : Key} {x : Value} :
    Assigns (u ++ p ++ v) k x ↔ Assigns p k x := by
  have htrim : trim (u ++ p ++ v) = trim p := by rw [trim_append_blank hv, trim_blank_append hu]
  unfold Assigns
  rw [htrim]

theorem Assigns.eq_mem {line : Bytes} {k : Key} {x : Value} (h : Assigns line k x) : 61 ∈ line := by
  obtain ⟨before, behind, rfl, -⟩ := assigns_iff.mp h
  simp

theorem Key.Takes.decimal {k : Key} {v : Bytes} {n : Int} (h : k.Takes v (.number n)) : Decimal v n := by
  cases h with
  | number _ hn => exact hn

theorem Key.Takes.eq_text {k : Key} {v s : Bytes} (h : k.Takes v (.text s)) : v = s := by
  cases h with
  | text => rfl

/-- A number has no `=` behind its key. -/
theorem not_mem_of_number {behind : Bytes} {n : Int} (h : Decimal (trim behind) n) : 61 ∉ behind := by
  intro hmem
  rcases h.mem 61 (mem_trim hmem (by decide)) with h | h | h
  · cases h
  · cases h
  · exact absurd h (by decide)

theorem trim_append_length {s v : Bytes} (hv : ¬ AllSpace v) : (trim s).length < (trim (s ++ v)).length := by
  obtain ⟨w, hw, heq⟩ := trim_append (s := s) hv
  have := List.length_pos_iff.mpr hw
  rw [heq, List.length_append]
  omega

theorem trim_prepend_length {u s : Bytes} (hu : ¬ AllSpace u) : (trim s).length < (trim (u ++ s)).length := by
  obtain ⟨w, hw, heq⟩ := trim_prepend (s := s) hu
  have := List.length_pos_iff.mpr hw
  rw [heq, List.length_append]
  omega

/-- A text is cut at its first `=` in one way. -/
theorem eq_of_first_eq {a a' b b' : Bytes} (ha : 61 ∉ a) (ha' : 61 ∉ a') (h : a ++ 61 :: b = a' ++ 61 :: b') :
    a = a' ∧ b = b' := by
  have hsplit := splitAtEq_append ha b
  rw [h, splitAtEq_append ha' b'] at hsplit
  cases hsplit
  exact ⟨rfl, rfl⟩

/-- The same key in front of the same `=` has only blanks in front of it. -/
theorem blank_of_key {u a : Bytes} {k : Key} (h : (trim a).map tolower = k.name)
    (h' : (trim (u ++ a)).map tolower = k.name) : AllSpace u := by
  by_contra hu
  have hlt := trim_prepend_length (s := a) hu
  have hlen := congrArg List.length (h.trans h'.symm)
  rw [List.length_map, List.length_map] at hlen
  omega

/-- **A part of a line that assigns what the whole line does** has only blanks in front of it, and behind it too unless
that is the number 0. -/
theorem Assigns.infix {u p v : Bytes} {k : Key} {x : Value} (hp : Assigns p k x) (hline : Assigns (u ++ p ++ v) k x) :
    AllSpace u ∧ (AllSpace v ∨ x = .number 0) := by
  obtain ⟨a, b, rfl, ha, hname, hx⟩ := assigns_iff.mp hp
  obtain ⟨before, behind, hsplit, hbefore, hname', hx'⟩ := assigns_iff.mp hline
  by_cases hu : 61 ∈ u
  · -- the part is inside the value of the line, which is longer
    obtain ⟨c, u', rfl, hc⟩ := List.eq_append_cons_of_mem hu
    obtain ⟨rfl, rfl⟩ := eq_of_first_eq (b := u' ++ (a ++ 61 :: b) ++ v) hc hbefore (by simpa using hsplit)
    cases x with
    | number n => exact (not_mem_of_number hx'.decimal (by simp)).elim
    | text s =>
      have hlen := congrArg List.length (hx.eq_text.trans hx'.eq_text.symm)
      have hfront : ¬ AllSpace (u' ++ a ++ [61]) := by
        intro h
        exact absurd (h 61 (by simp)) (by decide)
      have hlt := trim_prepend_length (s := b ++ v) hfront
      have hle : (trim b).length ≤ (trim (b ++ v)).length := by
        by_cases hv : AllSpace v
        · rw [trim_append_blank hv]
        · exact (trim_append_length hv).le
      have hassoc : u' ++ a ++ [61] ++ (b ++ v) = u' ++ (a ++ 61 :: b) ++ v := by simp
      rw [hassoc] at hlt
      omega
  · obtain ⟨rfl, rfl⟩ := eq_of_first_eq (a := u ++ a) (b := b ++ v) (by simp [hu, ha]) hbefore (by simpa using hsplit)
    refine ⟨blank_of_key hname hname', ?_⟩
    by_contra hcon
    rw [not_or] at hcon
    obtain ⟨w, hw, heq⟩ := trim_append (s := b) hcon.1
    cases x with
    | text s =>
      have hlen := congrArg List.length (hx.eq_text.trans hx'.eq_text.symm)
      have := trim_append_length (s := b) hcon.1
      omega
    | number n =>
      have hn' := hx'.decimal
      rw [heq] at hn'
      have hten := decimal_append hx.decimal hn' hw
      exact hcon.2 (congrArg Value.number (by omega))

/-- A record of a line that assigns 0 in full assigns nothing else. -/
theorem Assigns.eq_zero {u p v : Bytes} (hu : AllSpace u) {k k' : Key} {y : Value}
    (hline : Assigns (u ++ p ++ v) k (.number 0)) (hp : Assigns p k' y) : k' = k ∧ y = .number 0 := by
  obtain ⟨a, b, rfl, ha, hname, hy⟩ := assigns_iff.mp hp
  obtain ⟨before, behind, hsplit, hbefore, hname', hx'⟩ := assigns_iff.mp hline
  have hu' : 61 ∉ u := by
    intro hmem
    exact absurd (hu 61 hmem) (by decide)
  obtain ⟨rfl, rfl⟩ := eq_of_first_eq (a := u ++ a) (b := b ++ v) (by simp [hu', ha]) hbefore (by simpa using hsplit)
  rw [trim_blank_append hu] at hname'
  obtain rfl : k' = k := Key.name_injective (hname.symm.trans hname')
  refine ⟨rfl, ?_⟩
  cases hy with
  | text hnone =>
    cases hx' with
    | number hrange => rw [hrange] at hnone; cases hnone
  | @number _ _ m _ hm =>
    have hn := hx'.decimal
    by_cases hv : AllSpace v
    · rw [trim_append_blank hv] at hn
      rw [decimal_unique (trimmed_trim b).self hm hn]
    · obtain ⟨w, hw, heq⟩ := trim_append (s := b) hv
      rw [heq] at hn
      have hten := decimal_append hm hn hw
      exact congrArg Value.number (by omega)

/-- Behind a record with the `=` of a line that assigns a number, no record assigns anything. -/
theorem ignored_behind {u p v a : Bytes} (hu : AllSpace u) (hp : 61 ∈ p) {k : Key} {n : Int}
    (hline : Assigns (u ++ p ++ v) k (.number n)) (ha : a ⊆ v) : Ignored a := by
  intro k' y hy
  obtain ⟨a', b, rfl, ha'⟩ := List.eq_append_cons_of_mem hp
  obtain ⟨before, behind, hsplit, hbefore, -, hx⟩ := assigns_iff.mp hline
  have hu' : 61 ∉ u := by
    intro hmem
    exact absurd (hu 61 hmem) (by decide)
  obtain ⟨rfl, rfl⟩ := eq_of_first_eq (a := u ++ a') (b := b ++ v) (by simp [hu', ha']) hbefore (by simpa using hsplit)
  exact not_mem_of_number hx.decimal (List.mem_append_right _ (ha hy.eq_mem))

/-! ## What the records of a line do -/

theorem cstr_sublist (r : Bytes) : (cstr r).Sublist r := List.takeWhile_sublist _

theorem readRecord_cstr {line r : Bytes} (hr : r ∈ records line) :
    (∀ {k x}, Assigns (cstr r) k x → ∀ cfg, readRecord cfg r = cfg.set k x) ∧
      (Ignored (cstr r) → ∀ cfg, readRecord cfg r = cfg) := by
  have hnul : 0 ∉ cstr r := by
    intro hmem
    simpa using List.mem_takeWhile_imp hmem
  have hlen : (cstr r).length < LINE_SIZE :=
    Nat.lt_of_le_of_lt (cstr_sublist r).length_le (fgetsLoop_length_lt _ _ r hr)
  have hcstr : cstr (cstr r) = cstr r := List.takeWhile_idem
  have hsame : ∀ cfg, readRecord cfg r = readRecord cfg (cstr r) := by
    intro cfg
    simp only [readRecord, hcstr]
  have hread := readRecord_readAs hnul hlen
  constructor
  · intro k x h cfg
    rw [hsame, hread.assigned h]
  · intro h cfg
    rw [hsame, hread.ignored h]

theorem foldl_readRecord_same {rs : List Bytes} (h : ∀ r ∈ rs, ∀ cfg, readRecord cfg r = cfg) (cfg : Configurations) :
    rs.foldl readRecord cfg = cfg := by
  induction rs with
  | nil => rfl
  | cons r rs ih =>
    rw [List.foldl_cons, h r List.mem_cons_self]
    exact ih fun r' hr' => h r' (List.mem_cons_of_mem _ hr')

theorem ignored_of_blank {b : Bytes} (hb : AllSpace b) : Ignored (cstr b) := by
  intro k x h
  exact absurd (hb 61 ((cstr_sublist b).subset h.eq_mem)) (by decide)

/-- No value is held for a key by every configuration. -/
theorem exists_get_ne (k : Key) (x : Value) : ∃ cfg : Configurations, cfg.get k ≠ x := by
  by_contra hall
  push Not at hall
  have hnumbers := (hall (fillDefaultConfigurations.set k (.number 1))).trans
    (hall (fillDefaultConfigurations.set k (.number 2))).symm
  have htexts := (hall (fillDefaultConfigurations.set k (.text []))).trans
    (hall (fillDefaultConfigurations.set k (.text [97]))).symm
  revert hnumbers htexts
  cases k <;> decide

/-- The last member of a list that is not of a kind. -/
theorem exists_last {P : Bytes → Prop} : ∀ {rs : List Bytes}, (¬ ∀ r ∈ rs, P r) →
    ∃ pre r post, rs = pre ++ r :: post ∧ ¬ P r ∧ ∀ r' ∈ post, P r'
  | [], h => (h fun _ hr => (List.not_mem_nil hr).elim).elim
  | r :: rs, h => by
    by_cases hrs : ∀ r' ∈ rs, P r'
    · refine ⟨[], r, rs, rfl, fun hr => h fun r' hr' => ?_, hrs⟩
      rcases List.mem_cons.mp hr' with rfl | hr'
      · exact hr
      · exact hrs r' hr'
    · obtain ⟨pre, r', post, rfl, hr', hpost⟩ := exists_last hrs
      exact ⟨r :: pre, r', post, rfl, hr', hpost⟩

/-- A line around what one of its records holds before a NUL. -/
theorem line_eq {line : Bytes} {pre post : List Bytes} {r : Bytes} (h : records line = pre ++ r :: post) :
    line = pre.flatten ++ cstr r ++ (r.dropWhile (· != 0) ++ post.flatten) := by
  have hr : cstr r ++ r.dropWhile (· != 0) = r := List.takeWhile_append_dropWhile
  conv_lhs => rw [← records_flatten line, h, List.flatten_append, List.flatten_cons, ← hr]
  simp

theorem blank_flatten {bs : List Bytes} : AllSpace bs.flatten ↔ ∀ b ∈ bs, AllSpace b := List.forall_mem_flatten

/-- A line that counts once is undivided. -/
theorem CountsOnce.undivided {line : Bytes} (h : CountsOnce line) : Undivided line := by
  by_cases hall : ∀ r ∈ records line, Ignored (cstr r)
  · exact .inl hall
  -- the last record that assigns something decides
  obtain ⟨pre, r, post, hsplit, hr, hpost⟩ := exists_last hall
  simp only [Ignored, not_forall, not_not] at hr
  obtain ⟨k, x, hx⟩ := hr
  have hmem : ∀ {r'}, r' ∈ r :: post → r' ∈ records line := by
    intro r' hr'
    rw [hsplit]
    exact List.mem_append_right _ hr'
  have hget : ∀ cfg, ((records line).foldl readRecord cfg).get k = x := by
    intro cfg
    have hset : (records line).foldl readRecord cfg = (pre.foldl readRecord cfg).set k x := by
      rw [hsplit, List.foldl_append, List.foldl_cons, (readRecord_cstr (hmem List.mem_cons_self)).1 hx]
      exact foldl_readRecord_same
        (fun r' hr' => (readRecord_cstr (hmem (List.mem_cons_of_mem _ hr'))).2 (hpost r' hr')) _
    obtain ⟨_, _, _, _, _, _, htakes⟩ := hx
    rw [hset, Configurations.get_set _ htakes, if_pos rfl]
  rcases h with hsame | ⟨k', x', hline, hset⟩
  · obtain ⟨cfg, hne⟩ := exists_get_ne k x
    have := hget cfg
    rw [hsame cfg] at this
    exact (hne this).elim
  · have hget' : ∀ cfg : Configurations, (cfg.set k' x').get k = x := by
      intro cfg
      rw [← hset cfg]
      exact hget cfg
    have htakes := hline
    obtain ⟨_, _, _, _, _, _, htakes⟩ := htakes
    obtain rfl : k = k' := by
      by_contra hne
      obtain ⟨cfg, hcfg⟩ := exists_get_ne k x
      have := hget' cfg
      rw [Configurations.get_set _ htakes, if_neg hne] at this
      exact hcfg this
    obtain rfl : x' = x := by
      have := hget' fillDefaultConfigurations
      rwa [Configurations.get_set _ htakes, if_pos rfl] at this
    have hline' := hline
    rw [line_eq hsplit] at hline'
    obtain ⟨hbefore, hafter⟩ := hx.infix hline'
    refine .inr ⟨pre, r, post, hsplit, blank_flatten.mp hbefore, ?_⟩
    rcases hafter with hafter | rfl
    · obtain ⟨htail, hafter⟩ := blank_append.mp hafter
      refine .inl ⟨fun hnul => ?_, blank_flatten.mp hafter⟩
      have hr : cstr r ++ r.dropWhile (· != 0) = r := List.takeWhile_append_dropWhile
      rw [← hr] at hnul
      rcases List.mem_append.mp hnul with hnul | hnul
      · simpa using List.mem_takeWhile_imp hnul
      · exact absurd (htail 0 hnul) (by decide)
    · exact .inr ⟨hx.eq_mem, k, hline⟩

/-- An undivided line counts once. -/
theorem Undivided.countsOnce {line : Bytes} (h : Undivided line) : CountsOnce line := by
  rcases h with hnone | ⟨pre, r, post, hsplit, hpre, hr⟩
  · exact .inl (foldl_readRecord_same fun r hr => (readRecord_cstr hr).2 (hnone r hr))
  have hmem : ∀ {r'}, r' ∈ pre ++ r :: post → r' ∈ records line := by
    intro r' hr'
    rwa [hsplit]
  -- behind the record nothing is assigned
  have hpost : ∀ r' ∈ post, Ignored (cstr r') := by
    intro r' hr'
    rcases hr with ⟨-, hafter⟩ | ⟨heq, k, hline⟩
    · exact ignored_of_blank (hafter r' hr')
    · rw [line_eq hsplit] at hline
      refine ignored_behind (blank_flatten.mpr hpre) heq hline fun c hc => List.mem_append_right _ ?_
      exact List.mem_flatten.mpr ⟨r', hr', (cstr_sublist r').subset hc⟩
  have hfold : ∀ cfg, (records line).foldl readRecord cfg = readRecord cfg r := by
    intro cfg
    rw [hsplit, List.foldl_append, List.foldl_cons]
    rw [foldl_readRecord_same fun r' hr' => (readRecord_cstr (hmem (List.mem_append_left _ hr'))).2
      (ignored_of_blank (hpre r' hr'))]
    exact foldl_readRecord_same
      (fun r' hr' => (readRecord_cstr (hmem (List.mem_append_right _ (List.mem_cons_of_mem _ hr')))).2 (hpost r' hr')) _
  have hread := readRecord_cstr (hmem (List.mem_append_right _ List.mem_cons_self))
  by_cases hignored : Ignored (cstr r)
  · refine .inl fun cfg => ?_
    rw [hfold, hread.2 hignored]
  · simp only [Ignored, not_forall, not_not] at hignored
    obtain ⟨k, x, hx⟩ := hignored
    refine .inr ⟨k, x, ?_, fun cfg => ?_⟩
    · rcases hr with ⟨hnul, hafter⟩ | ⟨-, k', hline⟩
      · have hcstr : cstr r = r := List.takeWhile_eq_self_iff.mpr fun c hc => by
          simpa using fun h : c = 0 => hnul (h ▸ hc)
        have hdrop : r.dropWhile (· != 0) = [] := List.dropWhile_eq_nil_iff.mpr fun c hc => by
          simpa using fun h : c = 0 => hnul (h ▸ hc)
        rw [line_eq hsplit, hdrop, List.nil_append]
        exact (assigns_among_blanks (blank_flatten.mpr hpre) (blank_flatten.mpr hafter)).mpr hx
      · have hline' := hline
        rw [line_eq hsplit] at hline'
        obtain ⟨rfl, rfl⟩ := hline'.eq_zero (blank_flatten.mpr hpre) hx
        exact hline
    · rw [hfold, hread.1 hx]

/-- **A line counts as one exactly if it is not divided.** -/
theorem config_lines (file : Bytes) :
    unvalidated file =
        (lines file).foldl (fun cfg line => (records line).foldl readRecord cfg) fillDefaultConfigurations ∧
      ((∀ line ∈ lines file, CountsOnce line) ↔ ∀ line ∈ lines file, Undivided line) :=
  ⟨unvalidated_eq file, fun h line hline => (h line hline).undivided, fun h line hline => (h line hline).countsOnce⟩

/-- A comment of which the second record is an assignment. -/
def longComment : Bytes := 35 :: List.replicate 254 120 ++ ascii "port=2121\n"

/-- The comment sets the port. -/
theorem config_lines_longComment :
    ((unvalidated longComment).port = 2121 ∧ ¬ ∀ line ∈ lines longComment, CountsOnce line) := by
  have hlines : lines longComment = [longComment] := by decide +kernel
  have hrecords : records longComment = [35 :: List.replicate 254 120, ascii "port=2121\n"] := by
    decide +kernel
  have hport : (unvalidated longComment).port = 2121 := by
    rw [unvalidated, hrecords]
    decide
  refine ⟨hport, fun h => ?_⟩
  rcases h longComment (by rw [hlines]; exact List.mem_cons_self) with hsame | ⟨k, x, ⟨_, _, _, _, hcomment, _⟩, -⟩
  · have hport' : (unvalidated longComment).port = 21 := by
      rw [unvalidated, hsame]
      rfl
    rw [hport] at hport'
    cases hport'
  · exact hcomment (by decide)

end CftpServer.Config
