import CftpServer.Lib.CString
import Mathlib.Data.List.TakeWhile

/-!
# Decimal numerals

What `strtol` and `sscanf("%u")` read: blanks, a sign, and the longest run of digits (`scanInt`). Printing a number and
reading it gives it back (`scanInt_dec`). `Decimal` says which texts are numbers, and which.
-/

namespace CLib

/-- `isdigit`. -/
def isdigit (c : UInt8) : Bool := 48 ≤ c && c ≤ 57

/-- The value of a digit. -/
def digitVal (c : UInt8) : Nat := c.toNat - 48

/-- The value of a run of digits. -/
def ofDigits (ds : Bytes) : Nat := ds.foldl (fun n c => 10 * n + digitVal c) 0

/-- The sign in front of a number, and what is behind it. -/
def scanSign : Bytes → Bool × Bytes
  | 45 :: s => (true, s)
  | 43 :: s => (false, s)
  | s => (false, s)

/-- A number in base 10 with blanks and a sign in front of it: its sign, its absolute value and what is behind it. -/
def scanInt (s : Bytes) : Option (Bool × Nat × Bytes) :=
  let (negative, s) := scanSign (skipSpaces s)
  match s.takeWhile isdigit with
  | [] => none
  | d :: ds => some (negative, ofDigits (d :: ds), s.dropWhile isdigit)

theorem digit_of_lt {d : Nat} (hd : d < 10) :
    isdigit (Nat.digitChar d).toNat.toUInt8 = true ∧ digitVal (Nat.digitChar d).toNat.toUInt8 = d := by
  revert d
  decide

theorem dec_of_lt {n : Nat} (hn : n < 10) : dec n = [(Nat.digitChar n).toNat.toUInt8] := by
  rw [dec, Nat.toDigits_of_lt_base hn]
  rfl

theorem dec_append {n : Nat} (hn : 10 ≤ n) : dec n = dec (n / 10) ++ [(Nat.digitChar (n % 10)).toNat.toUInt8] := by
  rw [dec, Nat.toDigits_of_base_le (by decide) hn, List.map_append]
  rfl

/-- What is printed is a run of digits with the value of the number. -/
theorem dec_spec (n : Nat) : dec n ≠ [] ∧ (∀ c ∈ dec n, isdigit c = true) ∧ ofDigits (dec n) = n := by
  induction n using Nat.strong_induction_on with
  | _ n ih =>
    rcases Nat.lt_or_ge n 10 with hn | hn
    · obtain ⟨hdigit, hval⟩ := digit_of_lt hn
      rw [dec_of_lt hn]
      exact ⟨List.cons_ne_nil _ _, by simpa using hdigit, by simpa [ofDigits] using hval⟩
    · obtain ⟨hne, hdigits, hval⟩ := ih (n / 10) (by omega)
      obtain ⟨hdigit, hlast⟩ := digit_of_lt (Nat.mod_lt n (by decide : 0 < 10))
      rw [dec_append hn]
      refine ⟨List.append_ne_nil_of_left_ne_nil hne _, ?_, ?_⟩
      · intro c hc
        rcases List.mem_append.mp hc with hc | hc
        · exact hdigits c hc
        · rw [List.mem_singleton.mp hc]
          exact hdigit
      · unfold ofDigits at hval ⊢
        rw [List.foldl_append, hval, List.foldl_cons, List.foldl_nil, hlast]
        omega

/-- A digit is neither a blank nor a sign. -/
theorem isdigit_solid {c : UInt8} (h : isdigit c = true) : isspace c = false ∧ c ≠ 45 ∧ c ≠ 43 := by
  simp only [isdigit, Bool.and_eq_true, decide_eq_true_eq, UInt8.le_iff_toNat_le, UInt8.toNat_ofNat] at h
  refine ⟨?_, ?_, ?_⟩
  · simp only [isspace, Bool.or_eq_false_iff, Bool.and_eq_false_iff, beq_eq_false_iff_ne, decide_eq_false_iff_not,
      UInt8.le_iff_toNat_le, ne_eq, ← UInt8.toNat_inj, UInt8.toNat_ofNat]
    omega
  · rintro rfl
    revert h
    decide
  · rintro rfl
    revert h
    decide

theorem scanSign_of_digit {d : UInt8} (hd : isdigit d = true) (ds : Bytes) : scanSign (d :: ds) = (false, d :: ds) := by
  obtain ⟨-, hminus, hplus⟩ := isdigit_solid hd
  unfold scanSign
  split
  · rename_i heq
    exact absurd (List.cons.inj heq).1 hminus
  · rename_i heq
    exact absurd (List.cons.inj heq).1 hplus
  · rfl

/-- A printed number ends where no digit follows. -/
theorem span_dec (n : Nat) {rest : Bytes} (h : ∀ c ∈ rest.head?, isdigit c = false) :
    (dec n ++ rest).takeWhile isdigit = dec n ∧ (dec n ++ rest).dropWhile isdigit = rest := by
  have hdigits := (dec_spec n).2.1
  have hrest : rest.takeWhile isdigit = [] ∧ rest.dropWhile isdigit = rest := by
    cases rest with
    | nil => exact ⟨rfl, rfl⟩
    | cons c cs =>
      have hc : isdigit c = false := h c rfl
      exact ⟨List.takeWhile_cons_of_neg (by simp [hc]), List.dropWhile_cons_of_neg (by simp [hc])⟩
  constructor
  · rw [List.takeWhile_append_of_pos hdigits, hrest.1, List.append_nil]
  · rw [List.dropWhile_append_of_pos hdigits, hrest.2]

/-- A printed number is read back. -/
theorem scanInt_dec (n : Nat) {rest : Bytes} (h : ∀ c ∈ rest.head?, isdigit c = false) :
    scanInt (dec n ++ rest) = some (false, n, rest) := by
  obtain ⟨hne, hdigits, hval⟩ := dec_spec n
  obtain ⟨htake, hdrop⟩ := span_dec n h
  obtain ⟨d, ds, hds⟩ := List.exists_cons_of_ne_nil hne
  have hd : isdigit d = true := hdigits d (by rw [hds]; exact List.mem_cons_self)
  obtain ⟨hspace, -, -⟩ := isdigit_solid hd
  have hsign : scanSign (skipSpaces (dec n ++ rest)) = (false, dec n ++ rest) := by
    rw [hds, List.cons_append, skipSpaces, List.dropWhile_cons_of_neg (by simp [hspace])]
    exact scanSign_of_digit hd _
  rw [hds] at htake hval
  simp only [scanInt, hsign, hdrop]
  rw [hds, htake]
  simp only [hval]

/-- A factor of ten is a digit more. -/
theorem dec_length_le {n k : Nat} (h : (dec (n / 10)).length ≤ k) : (dec n).length ≤ k + 1 := by
  rcases Nat.lt_or_ge n 10 with hn | hn
  · rw [dec_of_lt hn, List.length_singleton]
    omega
  · rw [dec_append hn, List.length_append, List.length_singleton]
    omega

theorem dec_length_lt_ten {n : Nat} (h : n < 10) : (dec n).length ≤ 1 := by
  rw [dec_of_lt h, List.length_singleton]

/-! ## Texts that are numbers -/

/-- Digits with at most a sign in front of them, and their value. -/
inductive Decimal : Bytes → Int → Prop
  | plain {ds : Bytes} : ds ≠ [] → (∀ c ∈ ds, isdigit c = true) → Decimal ds (ofDigits ds)
  | plus {ds : Bytes} : ds ≠ [] → (∀ c ∈ ds, isdigit c = true) → Decimal (43 :: ds) (ofDigits ds)
  | minus {ds : Bytes} : ds ≠ [] → (∀ c ∈ ds, isdigit c = true) → Decimal (45 :: ds) (-ofDigits ds)

/-- What is behind the sign. -/
theorem scanSign_cases (s : Bytes) :
    (∃ t, s = 45 :: t ∧ scanSign s = (true, t)) ∨ (∃ t, s = 43 :: t ∧ scanSign s = (false, t)) ∨
      scanSign s = (false, s) := by
  unfold scanSign
  split
  · exact .inl ⟨_, rfl, rfl⟩
  · exact .inr (.inl ⟨_, rfl, rfl⟩)
  · exact .inr (.inr rfl)

theorem scanInt_suffix {s rest : Bytes} {negative : Bool} {n : Nat} (h : scanInt s = some (negative, n, rest)) :
    rest <:+ s := by
  have hspaces : skipSpaces s <:+ s := List.dropWhile_suffix isspace
  have hsign : (scanSign (skipSpaces s)).2 <:+ skipSpaces s := by
    rcases scanSign_cases (skipSpaces s) with ⟨t, ht, hscan⟩ | ⟨t, ht, hscan⟩ | hscan
    · rw [hscan, ht]
      exact List.suffix_cons _ _
    · rw [hscan, ht]
      exact List.suffix_cons _ _
    · rw [hscan]
  simp only [scanInt] at h
  cases htake : (scanSign (skipSpaces s)).2.takeWhile isdigit with
  | nil => simp [htake] at h
  | cons d ds =>
    simp only [htake, Option.some.injEq, Prod.mk.injEq] at h
    rw [← h.2.2]
    exact (List.dropWhile_suffix isdigit).trans (hsign.trans hspaces)

/-- The value with its sign. -/
def signed (negative : Bool) (n : Nat) : Int := if negative then -(n : Int) else n

/-- A text is a number exactly if `scanInt` reads it without blanks in front and to its end. -/
theorem decimal_iff {s : Bytes} {n : Int} (hs : ∀ c ∈ s.head?, isspace c = false) :
    Decimal s n ↔ ∃ negative m, scanInt s = some (negative, m, []) ∧ n = signed negative m := by
  have hskip : skipSpaces s = s := by
    cases s with
    | nil => rfl
    | cons c s => exact List.dropWhile_cons_of_neg (by simp [hs c rfl])
  -- digits are read to their end
  have hread : ∀ {ds : Bytes}, ds ≠ [] → (∀ c ∈ ds, isdigit c = true) →
      ds.takeWhile isdigit = ds ∧ ds.dropWhile isdigit = [] := fun _ hds =>
    ⟨List.takeWhile_eq_self_iff.mpr hds, List.dropWhile_eq_nil_iff.mpr hds⟩
  constructor
  · intro h
    cases h with
    | plain hne hds =>
      obtain ⟨d, ds, rfl⟩ := List.exists_cons_of_ne_nil hne
      refine ⟨false, ofDigits (d :: ds), ?_, rfl⟩
      simp only [scanInt, hskip, scanSign_of_digit (hds d List.mem_cons_self), (hread hne hds).1, (hread hne hds).2]
    | plus hne hds =>
      obtain ⟨d, ds, rfl⟩ := List.exists_cons_of_ne_nil hne
      refine ⟨false, ofDigits (d :: ds), ?_, rfl⟩
      simp only [scanInt, hskip, scanSign, (hread hne hds).1, (hread hne hds).2]
    | minus hne hds =>
      obtain ⟨d, ds, rfl⟩ := List.exists_cons_of_ne_nil hne
      refine ⟨true, ofDigits (d :: ds), ?_, rfl⟩
      simp only [scanInt, hskip, scanSign, (hread hne hds).1, (hread hne hds).2]
  · rintro ⟨negative, m, h, rfl⟩
    -- what is behind the sign is digits only
    have hdigits : ∀ {negative' : Bool} {t : Bytes}, scanSign s = (negative', t) →
        t ≠ [] ∧ (∀ c ∈ t, isdigit c = true) ∧ negative = negative' ∧ m = ofDigits t := by
      intro negative' t hsign
      simp only [scanInt, hskip, hsign] at h
      cases htake : t.takeWhile isdigit with
      | nil => simp [htake] at h
      | cons d ds =>
        simp only [htake, Option.some.injEq, Prod.mk.injEq] at h
        obtain ⟨rfl, rfl, hrest⟩ := h
        have ht : t = d :: ds := by
          rw [← List.takeWhile_append_dropWhile (p := isdigit) (l := t), hrest, htake, List.append_nil]
        refine ⟨by rw [ht]; exact List.cons_ne_nil d ds, List.dropWhile_eq_nil_iff.mp hrest, rfl, by rw [ht]⟩
    rcases scanSign_cases s with ⟨t, rfl, hsign⟩ | ⟨t, rfl, hsign⟩ | hsign
    · obtain ⟨hne, hds, rfl, rfl⟩ := hdigits hsign
      exact .minus hne hds
    · obtain ⟨hne, hds, rfl, rfl⟩ := hdigits hsign
      exact .plus hne hds
    · obtain ⟨hne, hds, rfl, rfl⟩ := hdigits hsign
      exact .plain hne hds

/-- A number is made of digits and a sign. -/
theorem Decimal.mem {s : Bytes} {n : Int} (h : Decimal s n) : ∀ c ∈ s, c = 43 ∨ c = 45 ∨ isdigit c = true := by
  cases h with
  | plain _ hds => exact fun c hc => .inr (.inr (hds c hc))
  | plus _ hds =>
    intro c hc
    rcases List.mem_cons.mp hc with rfl | hc
    · exact .inl rfl
    · exact .inr (.inr (hds c hc))
  | minus _ hds =>
    intro c hc
    rcases List.mem_cons.mp hc with rfl | hc
    · exact .inr (.inl rfl)
    · exact .inr (.inr (hds c hc))

/-- Each further digit multiplies the value by ten or more. -/
theorem ofDigits_append_le (ds : Bytes) {w : Bytes} (hw : w ≠ []) : 10 * ofDigits ds ≤ ofDigits (ds ++ w) := by
  induction w using List.reverseRecOn with
  | nil => exact (hw rfl).elim
  | append_singleton w c ih =>
    have hlast : ofDigits (ds ++ (w ++ [c])) = 10 * ofDigits (ds ++ w) + digitVal c := by
      rw [← List.append_assoc, ofDigits, List.foldl_append]
      rfl
    by_cases hnil : w = []
    · rw [hlast, hnil, List.append_nil]
      omega
    · have := ih hnil
      omega

/-- A number that goes on is at least ten times as large. -/
theorem decimal_append {s w : Bytes} {n m : Int} (h : Decimal s n) (h' : Decimal (s ++ w) m) (hw : w ≠ []) :
    10 * n.natAbs ≤ m.natAbs := by
  -- a sign is no digit, so that both numbers start the same way
  have hsign : ∀ {d : UInt8} {ds : Bytes}, (∀ c ∈ d :: ds, isdigit c = true) → d ≠ 43 ∧ d ≠ 45 := by
    intro d ds hds
    obtain ⟨-, hminus, hplus⟩ := isdigit_solid (hds d List.mem_cons_self)
    exact ⟨hplus, hminus⟩
  generalize ht : s ++ w = t at h'
  cases h with
  | @plain ds hne hds =>
    obtain ⟨d, ds', rfl⟩ := List.exists_cons_of_ne_nil hne
    cases h' with
    | plain =>
      rw [← ht]
      simpa using ofDigits_append_le (d :: ds') hw
    | plus => exact absurd (List.cons.inj ht).1 (hsign hds).1
    | minus => exact absurd (List.cons.inj ht).1 (hsign hds).2
  | @plus ds hne hds =>
    cases h' with
    | plain _ hds' =>
      rw [← ht] at hds'
      exact absurd rfl (hsign hds').1
    | plus =>
      rw [← (List.cons.inj ht).2]
      simpa using ofDigits_append_le ds hw
    | minus => cases (List.cons.inj ht).1
  | @minus ds hne hds =>
    cases h' with
    | plain _ hds' =>
      rw [← ht] at hds'
      exact absurd rfl (hsign hds').2
    | plus => cases (List.cons.inj ht).1
    | minus =>
      rw [← (List.cons.inj ht).2]
      simpa using ofDigits_append_le ds hw

end CLib
