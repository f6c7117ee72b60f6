import CftpServer.Lib.CString

/-!
# Buffers of a fixed size

A block of memory with its size, whose writes are checked: one that would leave the block fails. `Holds b l` says that
the block begins with `l`; a write right behind `l` extends it (`Buffer.write_holds`). A block of bytes with a NUL holds
a C string, the bytes before the first NUL (`Buffer.str_of_holds`).
-/

namespace Memory

open CLib

variable {β : Type*} {n : Nat}

/-- A block of `n` cells. -/
structure Buffer (β : Type*) (n : Nat) where
  cells : List β
  size : cells.length = n

/-- `memset`: all cells alike. -/
def Buffer.fill (n : Nat) (x : β) : Buffer β n := ⟨List.replicate n x, List.length_replicate⟩

/-- A write of some cells from the index `i` on. -/
def Buffer.write (b : Buffer β n) (i : Nat) (l : List β) : Option (Buffer β n) :=
  if h : i + l.length ≤ n then
    some ⟨b.cells.take i ++ (l ++ b.cells.drop (i + l.length)), by
      have := b.size
      simp only [List.length_append, List.length_take, List.length_drop]
      omega⟩
  else none

/-- The block begins with `l`. -/
def Holds (b : Buffer β n) (l : List β) : Prop := l <+: b.cells

theorem holds_nil (b : Buffer β n) : Holds b [] := List.nil_prefix

/-- A write fails exactly if it leaves the block. -/
theorem Buffer.write_isSome {b : Buffer β n} {i : Nat} {l : List β} : (b.write i l).isSome ↔ i + l.length ≤ n := by
  rw [Buffer.write]
  split <;> simp_all

/-- The cells after a write: those before it, those written, and the rest. -/
theorem Buffer.write_cells {b : Buffer β n} {i : Nat} {l : List β} (h : i + l.length ≤ n) :
    ∃ b', b.write i l = some b' ∧ b'.cells = b.cells.take i ++ (l ++ b.cells.drop (i + l.length)) :=
  ⟨_, dif_pos h, rfl⟩

/-- A write behind what a block holds is held as well. -/
theorem Buffer.write_holds {b : Buffer β n} {l m : List β} (h : Holds b l) (hroom : l.length + m.length ≤ n) :
    ∃ b', b.write l.length m = some b' ∧ Holds b' (l ++ m) := by
  obtain ⟨b', hb', hcells⟩ := b.write_cells hroom
  obtain ⟨rest, hrest⟩ := h
  refine ⟨b', hb', ?_⟩
  rw [Holds, hcells, ← hrest, List.take_left, ← List.append_assoc]
  exact List.prefix_append ..

theorem Holds.left {b : Buffer β n} {l m : List β} (h : Holds b (l ++ m)) : Holds b l :=
  (List.prefix_append l m).trans h

/-- A write further on leaves what a block holds. -/
theorem Buffer.write_beyond {b b' : Buffer β n} {l m : List β} {i : Nat} (h : Holds b l) (hi : l.length ≤ i)
    (hb' : b.write i m = some b') : Holds b' l := by
  have hroom : i + m.length ≤ n := Buffer.write_isSome.mp (by rw [hb']; rfl)
  obtain ⟨b'', hb'', hcells⟩ := b.write_cells hroom
  rw [hb', Option.some.injEq] at hb''
  obtain ⟨rest, hrest⟩ := h
  have htake : l <+: b.cells.take i := by
    rw [← hrest, List.take_append, List.take_of_length_le hi]
    exact List.prefix_append ..
  rw [Holds, hb'', hcells]
  exact htake.trans (List.prefix_append ..)

/-- The C string in a block. -/
def Buffer.str (b : Buffer UInt8 n) : Bytes := cstr b.cells

/-- A block that begins with a text and a NUL holds that text. -/
theorem Buffer.str_of_holds {b : Buffer UInt8 n} {s : Bytes} (h : Holds b (s ++ [0])) (hs : 0 ∉ s) : b.str = s := by
  obtain ⟨rest, hrest⟩ := h
  have hall : ∀ c ∈ s, (c != 0) = true := by
    intro c hc
    rw [bne_iff_ne]
    rintro rfl
    exact hs hc
  rw [Buffer.str, cstr, ← hrest, List.append_assoc, List.takeWhile_append_of_pos hall]
  simp

end Memory
