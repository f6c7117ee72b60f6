import Mathlib.Data.List.Basic

/-!
# Ledgers

The entries of a log create and free objects. An object is live after a log that has an entry creating it and none
freeing it (`Live`); a log is orderly when every entry that frees an object finds it live (`Orderly`), so that nothing
is freed twice or without having been created. Objects are numbered as they are created, and a table of the live ones
is kept: `Books` says that the table and the log agree, and `Books.append`, `Books.create` and `Books.free` what one
more entry must do to the table.
-/

namespace Ledger

variable {ε κ : Type*} (created freed : ε → Option κ)

/-- The object was created, and not freed. -/
def Live (log : List ε) (k : κ) : Prop := (∃ e ∈ log, created e = some k) ∧ ∀ e ∈ log, freed e ≠ some k

/-- What is freed is live just before. -/
def Orderly (log : List ε) : Prop :=
  ∀ pre e post k, log = pre ++ e :: post → freed e = some k → Live created freed pre k

variable {created freed} {log d : List ε} {e : ε} {k : κ}

theorem orderly_nil : Orderly created freed [] := by
  intro pre e post k h
  simp at h

/-- Entries of other kinds. -/
theorem live_append (hd : ∀ e ∈ d, created e = none ∧ freed e = none) :
    Live created freed (log ++ d) k ↔ Live created freed log k := by
  constructor
  · rintro ⟨⟨e, he, hk⟩, hfree⟩
    refine ⟨⟨e, ?_, hk⟩, fun e he => hfree e (List.mem_append_left _ he)⟩
    rcases List.mem_append.mp he with he | he
    · exact he
    · rw [(hd e he).1] at hk
      cases hk
  · rintro ⟨⟨e, he, hk⟩, hfree⟩
    refine ⟨⟨e, List.mem_append_left _ he, hk⟩, fun e he => ?_⟩
    rcases List.mem_append.mp he with he | he
    · exact hfree e he
    · rw [(hd e he).2]
      exact Option.some_ne_none _ |>.symm

/-- An entry that creates a new object. -/
theorem live_append_created (hc : created e = some k) (hf : freed e = none) (hnew : ∀ e ∈ log, freed e ≠ some k)
    (k' : κ) :
    Live created freed (log ++ [e]) k' ↔ Live created freed log k' ∨ k' = k := by
  have hmem : e ∈ log ++ [e] := List.mem_append_right _ List.mem_cons_self
  constructor
  · rintro ⟨⟨e', he', hk'⟩, hfree⟩
    rcases List.mem_append.mp he' with he' | he'
    · exact .inl ⟨⟨e', he', hk'⟩, fun e he => hfree e (List.mem_append_left _ he)⟩
    · rw [List.mem_singleton.mp he', hc, Option.some.injEq] at hk'
      exact .inr hk'.symm
  · have hno : ∀ {k'}, (∀ e ∈ log, freed e ≠ some k') → ∀ e' ∈ log ++ [e], freed e' ≠ some k' := by
      intro k' h e' he'
      rcases List.mem_append.mp he' with he' | he'
      · exact h e' he'
      · rw [List.mem_singleton.mp he', hf]
        exact Option.some_ne_none _ |>.symm
    rintro (⟨⟨e', he', hk'⟩, hfree⟩ | rfl)
    · exact ⟨⟨e', List.mem_append_left _ he', hk'⟩, hno hfree⟩
    · exact ⟨⟨e, hmem, hc⟩, hno hnew⟩

/-- An entry that frees an object. -/
theorem live_append_freed (hc : created e = none) (hf : freed e = some k) (k' : κ) :
    Live created freed (log ++ [e]) k' ↔ Live created freed log k' ∧ k' ≠ k := by
  have hmem : e ∈ log ++ [e] := List.mem_append_right _ List.mem_cons_self
  constructor
  · rintro ⟨⟨e', he', hk'⟩, hfree⟩
    refine ⟨⟨⟨e', ?_, hk'⟩, fun e he => hfree e (List.mem_append_left _ he)⟩, fun heq => ?_⟩
    · rcases List.mem_append.mp he' with he' | he'
      · exact he'
      · rw [List.mem_singleton.mp he', hc] at hk'
        cases hk'
    · exact hfree e hmem (by rw [hf, heq])
  · rintro ⟨⟨⟨e', he', hk'⟩, hfree⟩, hne⟩
    refine ⟨⟨e', List.mem_append_left _ he', hk'⟩, fun e'' he'' => ?_⟩
    rcases List.mem_append.mp he'' with he'' | he''
    · exact hfree e'' he''
    · rw [List.mem_singleton.mp he'', hf, ne_eq, Option.some.injEq]
      exact Ne.symm hne

/-- One more entry, on objects that are live. -/
theorem Orderly.concat (h : Orderly created freed log) (he : ∀ k, freed e = some k → Live created freed log k) :
    Orderly created freed (log ++ [e]) := by
  intro pre e' post k heq hk
  rcases List.eq_nil_or_concat post with rfl | ⟨post', e'', rfl⟩
  · obtain ⟨rfl, hlast⟩ := List.append_inj' heq rfl
    rw [List.singleton_inj] at hlast
    subst hlast
    exact he k hk
  · rw [List.concat_eq_append, ← List.cons_append, ← List.append_assoc] at heq
    exact h pre e' post' k (List.append_inj' heq rfl).1 hk

/-- More entries that free nothing. -/
theorem Orderly.append (h : Orderly created freed log) (hd : ∀ e ∈ d, freed e = none) :
    Orderly created freed (log ++ d) := by
  induction d generalizing log with
  | nil => rw [List.append_nil]; exact h
  | cons e d ih =>
    rw [← List.singleton_append, ← List.append_assoc]
    refine ih (h.concat fun k hk => ?_) fun e' he' => hd e' (List.mem_cons_of_mem _ he')
    rw [hd e List.mem_cons_self] at hk
    cases hk

/-- In an orderly log nothing is freed that was not created. -/
theorem Orderly.created_of_freed (h : Orderly created freed log) (he : e ∈ log) (hk : freed e = some k) :
    ∃ e' ∈ log, created e' = some k := by
  obtain ⟨pre, post, rfl⟩ := List.append_of_mem he
  obtain ⟨⟨e', he', hk'⟩, -⟩ := h pre e post k rfl hk
  exact ⟨e', List.mem_append_left _ he', hk'⟩

/-- The table `T` has the live objects of an orderly log, and all numbers used are below `n`. -/
structure Books (created freed : ε → Option Nat) (log : List ε) (T : Nat → Prop) (n : Nat) : Prop where
  live : ∀ k, T k ↔ Live created freed log k
  orderly : Orderly created freed log
  old : ∀ e ∈ log, ∀ k, created e = some k → k < n

namespace Books

variable {created freed : ε → Option Nat} {T T' : Nat → Prop} {n n' k : Nat}

/-- An object of the table has an old number. -/
theorem lt (h : Books created freed log T n) (hk : T k) : k < n := by
  obtain ⟨⟨e, he, hc⟩, -⟩ := (h.live k).mp hk
  exact h.old e he k hc

/-- Entries of other kinds. -/
theorem append (h : Books created freed log T n) (hd : ∀ e ∈ d, created e = none ∧ freed e = none)
    (hT : ∀ k, T' k ↔ T k) (hn : n ≤ n') : Books created freed (log ++ d) T' n' where
  live k := by rw [hT, live_append hd, h.live]
  orderly := h.orderly.append fun e he => (hd e he).2
  old e he k hk := by
    rcases List.mem_append.mp he with he | he
    · exact Nat.lt_of_lt_of_le (h.old e he k hk) hn
    · rw [(hd e he).1] at hk
      cases hk

/-- A new object gets the next number. -/
theorem create (h : Books created freed log T n) (hc : created e = some n) (hf : freed e = none)
    (hT : ∀ k, T' k ↔ T k ∨ k = n) : Books created freed (log ++ [e]) T' (n + 1) where
  live k := by
    have hnew : ∀ e ∈ log, freed e ≠ some n := by
      intro e he hk
      obtain ⟨e', he', hk'⟩ := h.orderly.created_of_freed he hk
      exact Nat.lt_irrefl n (h.old e' he' n hk')
    rw [hT, live_append_created hc hf hnew, h.live]
  orderly := h.orderly.append fun e' he' => by rw [List.mem_singleton.mp he', hf]
  old e' he' k hk := by
    rcases List.mem_append.mp he' with he' | he'
    · exact Nat.lt_succ_of_lt (h.old e' he' k hk)
    · rw [List.mem_singleton.mp he', hc, Option.some.injEq] at hk
      rw [← hk]
      exact Nat.lt_succ_self n

/-- An object of the table is freed. -/
theorem free (h : Books created freed log T n) (hk : T k) (hc : created e = none) (hf : freed e = some k)
    (hT : ∀ k', T' k' ↔ T k' ∧ k' ≠ k) : Books created freed (log ++ [e]) T' n where
  live k' := by rw [hT, live_append_freed hc hf, h.live]
  orderly := by
    refine h.orderly.concat fun k' hk' => ?_
    rw [hf, Option.some.injEq] at hk'
    rw [← hk']
    exact (h.live k).mp hk
  old e' he' k' hk' := by
    rcases List.mem_append.mp he' with he' | he'
    · exact h.old e' he' k' hk'
    · rw [List.mem_singleton.mp he', hc] at hk'
      cases hk'

end Books

end Ledger
