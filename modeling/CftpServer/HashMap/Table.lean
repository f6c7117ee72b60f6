import CftpServer.Lib.CString
import CftpServer.Lib.Rounding
import Mathlib.Logic.Function.Basic
import Mathlib.Algebra.Group.Int.Defs

/-!
# The chained hash table (`core/structures/hashmap.c`)

Elements live in a heap of cells reached by pointers; a bucket is a pointer to the first cell of its chain. Every
operation returns `none` when the C code would dereference a pointer outside the heap or follow a chain forever: a
walk may visit as many cells as were ever allocated, so a longer one is on a cycle. Allocations succeed.
-/

namespace CftpServer.HashMap

open CLib Rounding

abbrev Ptr := Nat

/-- `struct hash_table_elem`; a NULL `address` is `none`. -/
structure HashTableElem (α : Type) where
  next : Option Ptr
  prev : Option Ptr
  key : Bytes
  address : Option α

abbrev Heap (α : Type) := Ptr → Option (HashTableElem α)

/-- `struct hash_table` with the cells it owns. `load_factor` is the constant of `checkGrow`. -/
structure HashTable (α : Type) where
  length : Nat
  table : Nat → Option Ptr
  elemCount : Int
  heap : Heap α
  brk : Nat

variable {α : Type}

def HASH_TABLE_INTIAL_SIZE : Nat := 21

def HASH_ENTRY_FAILED : Nat := 0x0
def HASH_ENTRY_SUCCESS : Nat := 0x1
def HASH_ENTRY_COLLISION : Nat := 0x2
def HASH_TABLE_RESIZED : Nat := 0x4
def HASH_ENTRY_UPDATED : Nat := 0x10

/-- `fnv1a_string_hash`. -/
def fnv1aStringHash (str : Bytes) : Nat :=
  (str.foldl (fun hash c => (hash ^^^ c.toUInt64) * 0x100000001B3) (0xCBF29CE484222325 : UInt64)).toNat

/-- `create_hash_table`. -/
def createHashTable : HashTable α :=
  { length := HASH_TABLE_INTIAL_SIZE, table := fun _ => none, elemCount := 0, heap := fun _ => none, brk := 0 }

/-- The value of a 32-bit `int` after an operation on it. -/
def int32 (i : Int) : Int := i.bmod (2 ^ 32)

/-- A whole number converted to `float`, which keeps 24 significant bits. -/
def float (i : Int) : Int := i.sign * (roundBits 24 i.natAbs : Int)

/-- `check_grow`: the new length, or zero. The comparison `length * 0.75f <= elem_count + 1` is made in `float`; both
sides are multiplied by four here, which changes no rounding. -/
def checkGrow (t : HashTable α) : Nat :=
  if float (3 * float t.length) ≤ 4 * float (int32 (t.elemCount + 1)) then t.length * 2 % 2 ^ 64 else 0

def Heap.setNext (h : Heap α) (p : Ptr) (q : Option Ptr) : Option (Heap α) :=
  (h p).map fun e => Function.update h p (some { e with next := q })

def Heap.setPrev (h : Heap α) (p : Ptr) (q : Option Ptr) : Option (Heap α) :=
  (h p).map fun e => Function.update h p (some { e with prev := q })

/-- `if (p) p->prev = q;` -/
def Heap.setPrevOf (h : Heap α) (p : Option Ptr) (q : Option Ptr) : Option (Heap α) :=
  match p with
  | none => some h
  | some p => h.setPrev p q

def Heap.setAddress (h : Heap α) (p : Ptr) (address : Option α) : Option (Heap α) :=
  (h p).map fun e => Function.update h p (some { e with address := address })

def Heap.free (h : Heap α) (p : Ptr) : Heap α := Function.update h p none

/-- The walk of `get_ptr_to_elem_by_key` along one chain. -/
def findElem (h : Heap α) (keyname : Bytes) : Nat → Option Ptr → Option (Option Ptr)
  | _, none => some none
  | 0, some _ => none
  | fuel + 1, some p => (h p).bind fun e =>
    if e.key = keyname then some (some p) else findElem h keyname fuel e.next

/-- `get_ptr_to_elem_by_key`. -/
def getPtrToElemByKey (t : HashTable α) (keyname : Bytes) : Option (Option Ptr) :=
  findElem t.heap keyname (t.brk + 1) (t.table (fnv1aStringHash keyname % t.length))

/-- `check_key_exists`. -/
def checkKeyExists (t : HashTable α) (keyname : Bytes) : Option Bool :=
  (getPtrToElemByKey t keyname).map Option.isSome

/-- `get_ptr_to_value_by_key`: NULL when there is no element, and also when its address is NULL. -/
def getPtrToValueByKey (t : HashTable α) (keyname : Bytes) : Option (Option α) :=
  (getPtrToElemByKey t keyname).bind fun
    | none => some none
    | some p => (t.heap p).map (·.address)

/-- `create_hash_table_elem`: a fresh cell. -/
def createHashTableElem (t : HashTable α) (key : Bytes) (address : Option α) : HashTable α :=
  { t with heap := Function.update t.heap t.brk (some ⟨none, none, key, address⟩), brk := t.brk + 1 }

/-- `insert_entry`: the new element becomes the first of its bucket. -/
def linkFirst (t : HashTable α) (keyhash : Nat) (ptr : Ptr) : Option (HashTable α × Nat) :=
  match t.table keyhash with
  | none => some ({ t with table := Function.update t.table keyhash (some ptr) }, HASH_ENTRY_SUCCESS)
  | some first =>
    (t.heap.setNext ptr (some first)).bind fun h =>
    (h.setPrev first (some ptr)).map fun h =>
      ({ t with heap := h, table := Function.update t.table keyhash (some ptr) },
        HASH_ENTRY_SUCCESS ||| HASH_ENTRY_COLLISION)

/-- The cells and the new table while `insert_entry` reallocates. -/
abbrev Moving (α : Type) := Heap α × (Nat → Option Ptr)

/-- One element to the head of its bucket in the new table. Its own `prev` is left as it was. -/
def moveElem (newLength : Nat) (ptr : Ptr) (e : HashTableElem α) (st : Moving α) : Option (Moving α) :=
  let newHashValue := fnv1aStringHash e.key % newLength
  (st.1.setNext ptr (st.2 newHashValue)).bind fun h =>
  (h.setPrevOf (st.2 newHashValue) (some ptr)).map fun h =>
    (h, Function.update st.2 newHashValue (some ptr))

/-- The inner `while (ptr)` of the reallocation. The writes to the old table are left out: it is freed at the end. -/
def moveChain (newLength : Nat) : Nat → Option Ptr → Moving α → Option (Moving α)
  | _, none, st => some st
  | 0, some _, _ => none
  | fuel + 1, some ptr, st => (st.1 ptr).bind fun e =>
    (moveElem newLength ptr e st).bind fun st' => moveChain newLength fuel e.next st'

/-- The reallocation of `insert_entry`. -/
def resize (t : HashTable α) (newLength : Nat) : Option (HashTable α) :=
  ((List.range t.length).foldlM (fun st i => moveChain newLength (t.brk + 1) (t.table i) st)
    (t.heap, fun _ => none)).map fun st => { t with heap := st.1, table := st.2, length := newLength }

/-- `insert_entry`. -/
def insertEntry (t : HashTable α) (keyname : Bytes) (address : Option α) : Option (HashTable α × Nat) :=
  let keyhash := fnv1aStringHash keyname % t.length
  (getPtrToElemByKey t keyname).bind fun
    | some ptr => (t.heap.setAddress ptr address).map fun h =>
        ({ t with heap := h }, HASH_ENTRY_SUCCESS ||| HASH_ENTRY_UPDATED)
    | none =>
      (linkFirst (createHashTableElem t keyname address) keyhash t.brk).bind fun (t, result) =>
        let t := { t with elemCount := int32 (t.elemCount + 1) }
        let newLength := checkGrow t
        if newLength = 0 then some (t, result)
        else (resize t newLength).map fun t => (t, result ||| HASH_TABLE_RESIZED)

/-- The walk of `delete_entry` after the first element of a bucket; `true` when the element was found. -/
def deleteAfter (h : Heap α) (keyname : Bytes) : Nat → Ptr → Option Ptr → Option (Heap α × Bool)
  | _, _, none => some (h, false)
  | 0, _, some _ => none
  | fuel + 1, prev, some ptr => (h ptr).bind fun e =>
    if e.key = keyname then
      ((h.free ptr).setNext prev e.next).bind fun h =>
      (h.setPrevOf e.next (some prev)).map fun h => (h, true)
    else deleteAfter h keyname fuel ptr e.next

/-- `delete_entry`. `elem_count` is left as it was. -/
def deleteEntry (t : HashTable α) (keyname : Bytes) : Option (HashTable α × Nat) :=
  let keyhash := fnv1aStringHash keyname % t.length
  match t.table keyhash with
  | none => some (t, HASH_ENTRY_FAILED)
  | some first => (t.heap first).bind fun e =>
    if e.key = keyname then
      ((t.heap.free first).setPrevOf e.next none).map fun h =>
        ({ t with heap := h, table := Function.update t.table keyhash e.next }, HASH_ENTRY_SUCCESS)
    else
      (deleteAfter t.heap keyname (t.brk + 1) first e.next).map fun (h, found) =>
        ({ t with heap := h }, if found then HASH_ENTRY_SUCCESS ||| HASH_ENTRY_COLLISION else HASH_ENTRY_FAILED)

/-- A call on the table. -/
inductive Op (α : Type) where
  | insert (keyname : Bytes) (address : Option α)
  | delete (keyname : Bytes)

/-- One call: the table after it and its return value. -/
def Op.call (t : HashTable α) : Op α → Option (HashTable α × Nat)
  | .insert keyname address => insertEntry t keyname address
  | .delete keyname => deleteEntry t keyname

/-- The table after a sequence of calls. -/
def runOps (t : HashTable α) : List (Op α) → Option (HashTable α)
  | [] => some t
  | op :: ops => (op.call t).bind fun r => runOps r.1 ops

end CftpServer.HashMap
