import Mathlib.Data.List.Basic

/-!
# Prefix codecs

A code over bytes that needs no separator: what was written is read back whatever bytes follow it
(`read_write`). Codecs are built from those of bytes and numbers: `pair`, `list`, `option`, and
`via` for a type that is written as another one.
-/

namespace Terminator.Java

/-- A code over bytes; `read` returns what it leaves unread. -/
structure Codec (α : Type) where
  write : α → List UInt8
  read : List UInt8 → Option (α × List UInt8)
  read_write : ∀ a rest, read (write a ++ rest) = some (a, rest)

namespace Codec

variable {α β : Type}

/-- A byte. -/
def byte : Codec UInt8 where
  write b := [b]
  read
    | [] => none
    | b :: rest => some (b, rest)
  read_write _ _ := rfl

/-- The number of leading ones, which a zero ends. -/
def readNat : List UInt8 → Option (Nat × List UInt8)
  | [] => none
  | b :: rest => if b = 0 then some (0, rest) else (readNat rest).map fun p => (p.1 + 1, p.2)

theorem readNat_replicate (n : Nat) (rest : List UInt8) :
    readNat (List.replicate n 1 ++ 0 :: rest) = some (n, rest) := by
  induction n with
  | zero => rfl
  | succ n ih =>
    rw [List.replicate_succ, List.cons_append, readNat, if_neg (by decide), ih]
    rfl

/-- A number, in unary. -/
def nat : Codec Nat where
  write n := List.replicate n 1 ++ [0]
  read := readNat
  read_write n rest := by rw [List.append_assoc, List.singleton_append, readNat_replicate]

/-- One value after the other. -/
def pair (c : Codec α) (d : Codec β) : Codec (α × β) where
  write p := c.write p.1 ++ d.write p.2
  read bytes := (c.read bytes).bind fun p => (d.read p.2).map fun q => ((p.1, q.1), q.2)
  read_write p rest := by
    rw [List.append_assoc, c.read_write, Option.bind_some, d.read_write, Option.map_some]

/-- `n` values. -/
def readMany (c : Codec α) : Nat → List UInt8 → Option (List α × List UInt8)
  | 0, bytes => some ([], bytes)
  | n + 1, bytes =>
    (c.read bytes).bind fun p => (readMany c n p.2).map fun q => (p.1 :: q.1, q.2)

theorem readMany_flatMap (c : Codec α) (as : List α) (rest : List UInt8) :
    readMany c as.length (as.flatMap c.write ++ rest) = some (as, rest) := by
  induction as with
  | nil => rfl
  | cons a as ih =>
    rw [List.length_cons, readMany, List.flatMap_cons, List.append_assoc, c.read_write,
      Option.bind_some, ih]
    rfl

/-- The number of values, and the values. -/
def list (c : Codec α) : Codec (List α) where
  write as := nat.write as.length ++ as.flatMap c.write
  read bytes := (nat.read bytes).bind fun p => readMany c p.1 p.2
  read_write as rest := by
    rw [List.append_assoc, nat.read_write, Option.bind_some, readMany_flatMap]

/-- A type that is written as another one. -/
def via (c : Codec β) (f : α → β) (g : β → Option α) (h : ∀ a, g (f a) = some a) : Codec α where
  write a := c.write (f a)
  read bytes := (c.read bytes).bind fun p => (g p.1).map fun a => (a, p.2)
  read_write a rest := by rw [c.read_write, Option.bind_some, h, Option.map_some]

/-- A value that may be missing, as the list of it. -/
def option (c : Codec α) : Codec (Option α) :=
  c.list.via Option.toList (fun as => some as.head?) fun o => by cases o <;> rfl

/-- A bit. -/
def bool : Codec Bool :=
  byte.via (fun b => if b then 1 else 0) (fun b => some (b == 1)) fun b => by cases b <;> rfl

/-- Sixteen bits, the high byte first. -/
def word : Codec UInt16 :=
  (byte.pair byte).via (fun c => (UInt8.ofNat (c.toNat / 256), UInt8.ofNat c.toNat))
    (fun p => some (UInt16.ofNat (p.1.toNat * 256 + p.2.toNat))) fun c => by
      have hc : c.toNat < 65536 := c.toNat_lt
      have hsum : c.toNat / 256 % 256 * 256 + c.toNat % 256 = c.toNat := by omega
      simp only [UInt8.toNat_ofNat', hsum, UInt16.ofNat_toNat]

end Codec

end Terminator.Java
