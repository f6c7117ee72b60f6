import Mathlib.Data.List.Basic
import Mathlib.Data.List.Infix

/-!
# C strings as byte lists

A C string is the list of the bytes before its terminating NUL. The functions of `ctype.h`, `string.h` and `stdio.h`
that are used on such lists, in the C locale: `isspace`, `toupper`, bounded comparison, substring search, decimal
and hexadecimal printing, and the cut that `snprintf` makes.
-/

namespace CLib

abbrev Bytes := List UInt8

/-- The bytes of an ASCII literal. -/
def ascii (s : String) : Bytes := s.toList.map fun c => c.toNat.toUInt8

/-- The string a C function sees in a byte array: what stands before the first NUL. -/
def cstr (l : Bytes) : Bytes := l.takeWhile (· != 0)

/-- `isspace`: blank, `\t`, `\n`, `\v`, `\f`, `\r`. -/
def isspace (c : UInt8) : Bool := c == 32 || (9 ≤ c && c ≤ 13)

def toupper (c : UInt8) : UInt8 := if 97 ≤ c && c ≤ 122 then c - 32 else c

/-- `while (isspace(*s)) s++`. -/
def skipSpaces (s : Bytes) : Bytes := s.dropWhile isspace

/-- `strncmp(a, b, n) == 0` on NUL-free contents. -/
def strncmpEq (n : Nat) (a b : Bytes) : Bool := a.take n == b.take n

/-- `strstr(s, sub) != NULL`. -/
def strstr (s sub : Bytes) : Bool := s.tails.any sub.isPrefixOf

/-- What `snprintf` into an array of `size` bytes leaves before its NUL. -/
def cut (size : Nat) (s : Bytes) : Bytes := s.take (size - 1)

/-- `%u`. -/
def dec (n : Nat) : Bytes := (Nat.toDigits 10 n).map fun c => c.toNat.toUInt8

/-- `%x`. -/
def hex (n : Nat) : Bytes := (Nat.toDigits 16 n).map fun c => c.toNat.toUInt8

/-- `%-8s` and its kin: padded with blanks on the right. -/
def padRight (width : Nat) (s : Bytes) : Bytes := s ++ List.replicate (width - s.length) 32

/-- `%10s`, `%8d`: padded with blanks on the left. -/
def padLeft (width : Nat) (s : Bytes) : Bytes := List.replicate (width - s.length) 32 ++ s

/-- What fits is not cut. -/
theorem cut_of_lt {size : Nat} {s : Bytes} (h : s.length < size) : cut size s = s :=
  List.take_of_length_le (Nat.le_sub_one_of_lt h)

theorem strncmpEq_iff {n : Nat} {a b : Bytes} : strncmpEq n a b = true ↔ a.take n = b.take n := by
  simp [strncmpEq]

theorem strstr_iff {s sub : Bytes} : strstr s sub = true ↔ sub <:+: s := by
  simp only [strstr, List.any_eq_true, List.mem_tails, List.isPrefixOf_iff_prefix]
  constructor
  · rintro ⟨t, ht, hp⟩
    exact hp.isInfix.trans ht.isInfix
  · rintro ⟨u, v, h⟩
    exact ⟨sub ++ v, ⟨u, by rw [← List.append_assoc]; exact h⟩, List.prefix_append _ _⟩

theorem infix_intercalate {sep part : Bytes} : ∀ {parts : List Bytes}, part ∈ parts →
    part <:+: sep.intercalate parts
  | [], h => by cases h
  | [p], h => by simp at h; subst h; simp
  | p :: q :: parts, h => by
    rw [List.intercalate_cons_cons]
    rcases List.mem_cons.mp h with rfl | h
    · exact ⟨[], sep ++ sep.intercalate (q :: parts), by simp⟩
    · exact (infix_intercalate h).trans (List.suffix_append _ _).isInfix

/-- A part of a split list is a contiguous piece of it. -/
theorem infix_of_mem_splitOn {sep : UInt8} {s part : Bytes} (h : part ∈ s.splitOn sep) : part <:+: s := by
  have hs : [sep].intercalate (s.splitOn sep) = s := List.intercalate_splitOn sep
  have hp : part <:+: [sep].intercalate (s.splitOn sep) := infix_intercalate h
  rwa [hs] at hp

end CLib
