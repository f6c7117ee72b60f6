import CftpServer.Lib.CString
import Mathlib.Algebra.Order.Group.Nat

/-!
# Words of four bytes

A word stands in memory in the byte order of the host. `ntohl` makes the number of it that its bytes spell with the
most significant one first, on hosts of either order (`ntohl_load`).
-/

namespace CLib

/-- The order of the bytes of a number in memory. -/
inductive ByteOrder where
  | littleEndian | bigEndian
deriving DecidableEq, Repr

abbrev FourBytes := UInt8 × UInt8 × UInt8 × UInt8

/-- The number that four bytes of memory are. -/
def load : ByteOrder → FourBytes → UInt32
  | .littleEndian, (a, b, c, d) => (a.toNat + 256 * (b.toNat + 256 * (c.toNat + 256 * d.toNat))).toUInt32
  | .bigEndian, (a, b, c, d) => (d.toNat + 256 * (c.toNat + 256 * (b.toNat + 256 * a.toNat))).toUInt32

/-- The bytes of a number in memory. -/
def store (order : ByteOrder) (w : UInt32) : FourBytes :=
  let a := w.toNat.toUInt8
  let b := (w.toNat / 256).toUInt8
  let c := (w.toNat / 256 / 256).toUInt8
  let d := (w.toNat / 256 / 256 / 256).toUInt8
  match order with
  | .littleEndian => (a, b, c, d)
  | .bigEndian => (d, c, b, a)

/-- `ntohl`: the number that the bytes are in network order. -/
def ntohl (order : ByteOrder) (w : UInt32) : UInt32 := load .bigEndian (store order w)

theorem toNat_packed (a b c d : UInt8) :
    (a.toNat + 256 * (b.toNat + 256 * (c.toNat + 256 * d.toNat))).toUInt32.toNat =
      a.toNat + 256 * (b.toNat + 256 * (c.toNat + 256 * d.toNat)) := by
  have ha := a.toNat_lt
  have hb := b.toNat_lt
  have hc := c.toNat_lt
  have hd := d.toNat_lt
  simp only [Nat.toUInt32_eq, UInt32.toNat_ofNat']
  omega

theorem toUInt8_eq {n : Nat} {c : UInt8} (h : n % 256 = c.toNat) : n.toUInt8 = c := by
  rw [← UInt8.toNat_inj, Nat.toUInt8_eq, UInt8.toNat_ofNat']
  exact h

/-- What is loaded has the bytes it was loaded from. -/
theorem store_load (order : ByteOrder) (bytes : FourBytes) : store order (load order bytes) = bytes := by
  obtain ⟨a, b, c, d⟩ := bytes
  have ha := a.toNat_lt
  have hb := b.toNat_lt
  have hc := c.toNat_lt
  have hd := d.toNat_lt
  cases order <;> simp only [store, load, toNat_packed]
  all_goals
    rw [toUInt8_eq (c := a) (by omega), toUInt8_eq (c := b) (by omega), toUInt8_eq (c := c) (by omega),
      toUInt8_eq (c := d) (by omega)]

theorem ntohl_load (order : ByteOrder) (bytes : FourBytes) :
    ntohl order (load order bytes) = load .bigEndian bytes := by
  rw [ntohl, store_load]

/-- `(w >> 24) & 0xFF` and so on down to `w & 0xFF`. -/
def shiftedBytes (w : UInt32) : FourBytes :=
  (((w >>> 24) &&& 0xFF).toUInt8, ((w >>> 16) &&& 0xFF).toUInt8, ((w >>> 8) &&& 0xFF).toUInt8, (w &&& 0xFF).toUInt8)

/-- Shifts and masks take a number apart, the most significant byte first. -/
theorem shiftedBytes_load (bytes : FourBytes) : shiftedBytes (load .bigEndian bytes) = bytes := by
  obtain ⟨a, b, c, d⟩ := bytes
  have ha := a.toNat_lt
  have hb := b.toNat_lt
  have hc := c.toNat_lt
  have hd := d.toNat_lt
  have hmask : ∀ (w : UInt32) {e : UInt8}, w.toNat % 256 = e.toNat → (w &&& 0xFF).toUInt8 = e := by
    intro w e h
    rw [← UInt8.toNat_inj, UInt32.toNat_toUInt8, UInt32.toNat_and]
    have hand : w.toNat &&& (0xFF : UInt32).toNat = w.toNat % 256 := Nat.and_two_pow_sub_one_eq_mod w.toNat 8
    rw [hand, ← h]
    omega
  have hshift : ∀ k : UInt32, ∀ n, k.toNat % 32 = n →
      (load .bigEndian (a, b, c, d) >>> k).toNat =
        (d.toNat + 256 * (c.toNat + 256 * (b.toNat + 256 * a.toNat))) / 2 ^ n := by
    rintro k n rfl
    rw [UInt32.toNat_shiftRight, Nat.shiftRight_eq_div_pow, load, toNat_packed]
  have h24 := hshift 24 24 rfl
  have h16 := hshift 16 16 rfl
  have h8 := hshift 8 8 rfl
  simp only [shiftedBytes]
  rw [hmask _ (e := a) (by omega), hmask _ (e := b) (by omega), hmask _ (e := c) (by omega),
    hmask _ (e := d) (by rw [load, toNat_packed]; omega)]

end CLib
