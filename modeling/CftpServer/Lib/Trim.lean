import CftpServer.Lib.CString
import Mathlib.Data.List.DropRight

/-!
# Text without the blanks at its ends

`Trimmed s t` says what trimming `s` gives, `trim` computes it (`Trimmed.eq_trim`). More text at an end is seen in the
result as soon as it is not blank (`trim_append`, `trim_prepend`).
-/

namespace CLib

/-- Nothing but blanks. -/
def AllSpace (s : Bytes) : Prop := ∀ c ∈ s, isspace c = true

/-- `t` is `s` without the blanks at its ends. -/
structure Trimmed (s t : Bytes) : Prop where
  split : ∃ l r, s = l ++ t ++ r ∧ AllSpace l ∧ AllSpace r
  first : ∀ c ∈ t.head?, isspace c = false
  last : ∀ c ∈ t.getLast?, isspace c = false

/-- Blanks dropped from the left, then from the right. -/
def trim (s : Bytes) : Bytes := (skipSpaces s).rdropWhile isspace

theorem blank_append {s t : Bytes} : AllSpace (s ++ t) ↔ AllSpace s ∧ AllSpace t := List.forall_mem_append

theorem AllSpace.reverse {s : Bytes} (h : AllSpace s) : AllSpace s.reverse := fun c hc => h c (List.mem_reverse.mp hc)

/-! ## What trimming gives -/

/-- Blanks on the right are dropped up to a byte that is none. -/
theorem rdropWhile_blank {t r : Bytes} (hr : AllSpace r) (ht : ∀ c ∈ t.getLast?, isspace c = false) :
    (t ++ r).rdropWhile isspace = t := by
  induction r using List.reverseRecOn with
  | nil =>
    rw [List.append_nil, List.rdropWhile_eq_self_iff]
    intro hne
    have hlast := ht (t.getLast hne) (List.getLast?_eq_some_getLast hne)
    simp [hlast]
  | append_singleton r c ih =>
    have hrc := blank_append.mp hr
    rw [← List.append_assoc, List.rdropWhile_concat_pos _ _ _ (hrc.2 c List.mem_cons_self)]
    exact ih hrc.1

/-- Trimming is a function, and `trim` computes it. -/
theorem Trimmed.eq_trim {s t : Bytes} (h : Trimmed s t) : trim s = t := by
  obtain ⟨l, r, rfl, hl, hr⟩ := h.split
  have hskip : skipSpaces (l ++ t ++ r) = skipSpaces (t ++ r) := by
    rw [List.append_assoc, skipSpaces, List.dropWhile_append_of_pos hl, skipSpaces]
  rw [trim, hskip]
  cases t with
  | nil =>
    have hall : skipSpaces ([] ++ r) = [] := List.dropWhile_eq_nil_iff.mpr hr
    rw [hall, List.rdropWhile_nil]
  | cons c t =>
    have hc : isspace c = false := h.first c rfl
    have hself : skipSpaces (c :: t ++ r) = c :: t ++ r := List.dropWhile_cons_of_neg (by simp [hc])
    rw [hself]
    exact rdropWhile_blank hr h.last

theorem trimmed_trim (s : Bytes) : Trimmed s (trim s) := by
  have hleft : s.takeWhile isspace ++ skipSpaces s = s := List.takeWhile_append_dropWhile
  have hright : trim s ++ (skipSpaces s).rtakeWhile isspace = skipSpaces s := List.rdropWhile_append_rtakeWhile
  refine ⟨⟨s.takeWhile isspace, (skipSpaces s).rtakeWhile isspace, ?_, ?_, ?_⟩, ?_, ?_⟩
  · rw [List.append_assoc, hright, hleft]
  · intro c hc
    exact List.mem_takeWhile_imp hc
  · intro c hc
    exact List.mem_rtakeWhile_imp hc
  · -- what is left starts as `skipSpaces s` does
    intro c hc
    have hne : skipSpaces s ≠ [] := by
      intro hnil
      simp [trim, hnil] at hc
    have hhead : (skipSpaces s).head? = some c := by
      rw [← hright, List.head?_append, hc]
      rfl
    have hnot : isspace ((skipSpaces s).head hne) = false := List.head_dropWhile_not isspace hne
    rw [List.head?_eq_some_head hne] at hhead
    rwa [← Option.some.inj hhead]
  · intro c hc
    have hne : trim s ≠ [] := by
      intro hnil
      simp [hnil] at hc
    have hnot : ¬ isspace ((trim s).getLast hne) = true := List.rdropWhile_last_not isspace (skipSpaces s) hne
    rw [List.getLast?_eq_some_getLast hne] at hc
    rw [← Option.some.inj hc]
    exact Bool.eq_false_iff.mpr hnot

theorem Trimmed.self {s t : Bytes} (h : Trimmed s t) : Trimmed t t :=
  ⟨⟨[], [], by simp, fun _ hc => (List.not_mem_nil hc).elim, fun _ hc => (List.not_mem_nil hc).elim⟩, h.first, h.last⟩

theorem Trimmed.length_le {s t : Bytes} (h : Trimmed s t) : t.length ≤ s.length := by
  obtain ⟨l, r, rfl, -, -⟩ := h.split
  simp only [List.length_append]
  omega

theorem Trimmed.reverse {s t : Bytes} (h : Trimmed s t) : Trimmed s.reverse t.reverse := by
  obtain ⟨l, r, rfl, hl, hr⟩ := h.split
  refine ⟨⟨r.reverse, l.reverse, by simp, hr.reverse, hl.reverse⟩, ?_, ?_⟩
  · rw [List.head?_reverse]
    exact h.last
  · rw [List.getLast?_reverse]
    exact h.first

theorem trim_reverse (s : Bytes) : trim s.reverse = (trim s).reverse := (trimmed_trim s).reverse.eq_trim

/-- What is no blank stays. -/
theorem mem_trim {s : Bytes} {c : UInt8} (hc : c ∈ s) (hsolid : isspace c = false) : c ∈ trim s := by
  obtain ⟨l, r, hs, hl, hr⟩ := (trimmed_trim s).split
  rw [hs] at hc
  have hno : ∀ {t : Bytes}, AllSpace t → c ∉ t := by
    intro t ht hmem
    rw [ht c hmem] at hsolid
    cases hsolid
  simpa [hno hl, hno hr] using hc

/-! ## More text at an end -/

theorem trim_eq_nil {s : Bytes} : trim s = [] ↔ AllSpace s := by
  constructor
  · intro h
    obtain ⟨l, r, hs, hl, hr⟩ := (trimmed_trim s).split
    rw [h, List.append_nil] at hs
    rw [hs]
    exact blank_append.mpr ⟨hl, hr⟩
  · intro h
    exact Trimmed.eq_trim ⟨⟨s, [], by simp, h, fun _ hc => (List.not_mem_nil hc).elim⟩, by simp, by simp⟩

theorem trim_append_blank {s v : Bytes} (hv : AllSpace v) : trim (s ++ v) = trim s := by
  have h := trimmed_trim s
  obtain ⟨l, r, hs, hl, hr⟩ := h.split
  refine Trimmed.eq_trim ⟨⟨l, r ++ v, ?_, hl, blank_append.mpr ⟨hr, hv⟩⟩, h.first, h.last⟩
  conv_lhs => rw [hs]
  simp

/-- Text behind, unless blank, makes the result longer. -/
theorem trim_append {s v : Bytes} (hv : ¬ AllSpace v) : ∃ w, w ≠ [] ∧ trim (s ++ v) = trim s ++ w := by
  have hs := trimmed_trim s
  have ht := trimmed_trim v
  obtain ⟨l, r, hsplit, hl, hr⟩ := hs.split
  obtain ⟨l', r', hsplit', hl', hr'⟩ := ht.split
  have hne : trim v ≠ [] := fun h => hv (trim_eq_nil.mp h)
  cases hcase : trim s with
  | nil =>
    have hblank : AllSpace s := trim_eq_nil.mp hcase
    refine ⟨trim v, hne, ?_⟩
    refine Trimmed.eq_trim ⟨⟨s ++ l', r', ?_, blank_append.mpr ⟨hblank, hl'⟩, hr'⟩, ht.first, ht.last⟩
    conv_lhs => rw [hsplit']
    simp
  | cons c t =>
    rw [hcase] at hs hsplit
    refine ⟨r ++ l' ++ trim v, by simp [hne], ?_⟩
    refine Trimmed.eq_trim ⟨⟨l, r', ?_, hl, hr'⟩, hs.first, ?_⟩
    · conv_lhs => rw [hsplit, hsplit']
      simp
    · intro d hd
      refine ht.last d ?_
      rwa [← List.append_assoc, List.getLast?_append_of_ne_nil _ hne] at hd

theorem trim_blank_append {u s : Bytes} (hu : AllSpace u) : trim (u ++ s) = trim s := by
  have h := trim_append_blank (s := s.reverse) hu.reverse
  rw [← List.reverse_append, trim_reverse, trim_reverse] at h
  exact List.reverse_injective h

/-- Text in front, unless blank, makes the result longer. -/
theorem trim_prepend {u s : Bytes} (hu : ¬ AllSpace u) : ∃ w, w ≠ [] ∧ trim (u ++ s) = w ++ trim s := by
  have hrev : ¬ AllSpace u.reverse := fun h => hu (by simpa using h.reverse)
  obtain ⟨w, hw, h⟩ := trim_append (s := s.reverse) hrev
  rw [← List.reverse_append, trim_reverse, trim_reverse] at h
  refine ⟨w.reverse, by simpa using hw, ?_⟩
  rw [← List.reverse_reverse (trim (u ++ s)), h]
  simp

end CLib
