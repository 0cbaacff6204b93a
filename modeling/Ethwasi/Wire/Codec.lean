import Ethwasi.Rust.Bytes

/-!
# Self-delimiting encodings

A codec writes a value as bytes and reads it back from the front of any byte string. Codecs of
small types are put together to codecs of records, lists and alternatives, and each inherits its
law from its parts.
-/

namespace Ethwasi.Wire

open Ethwasi.Rust

/-- A writer with a reader that consumes exactly what was written. -/
structure Codec (α : Type) where
  put : α → Bytes
  take : Bytes → Option (α × Bytes)
  take_put : ∀ value rest, take (put value ++ rest) = some (value, rest)

namespace Codec

variable {α β : Type}

/-- Read a whole byte string. -/
def read (codec : Codec α) (bytes : Bytes) : Option α :=
  match codec.take bytes with
  | some (value, []) => some value
  | _ => none

theorem read_put (codec : Codec α) (value : α) : codec.read (codec.put value) = some value := by
  have taken := codec.take_put value []
  rw [List.append_nil] at taken
  simp only [read, taken]

/-- One byte. -/
def byte : Codec UInt8 where
  put value := [value]
  take
    | [] => none
    | value :: rest => some (value, rest)
  take_put _ _ := rfl

/-- Count the bytes before the first zero. -/
def takeUnary : Bytes → Option (Nat × Bytes)
  | [] => none
  | mark :: rest =>
    if mark = 0 then some (0, rest)
    else (takeUnary rest).map fun counted => (counted.1 + 1, counted.2)

/-- A number as that many ones and a zero. -/
def unary : Codec Nat where
  put count := List.replicate count 1 ++ [0]
  take := takeUnary
  take_put count rest := by
    induction count with
    | zero => rfl
    | succ count ih =>
      simpa [List.replicate_succ, takeUnary] using ih

/-- A byte string of a known length. -/
def fixed (size : Nat) : Codec (FixedBytes size) where
  put value := value.bytes
  take bytes :=
    if long : size ≤ bytes.length then
      some (⟨bytes.take size, by simp [long]⟩, bytes.drop size)
    else none
  take_put value rest := by
    have long : size ≤ (value.bytes ++ rest).length := by simp [value.length_eq]
    rw [dif_pos long]
    congr 2
    · exact FixedBytes.ext (List.take_left' value.length_eq)
    · exact List.drop_left' value.length_eq

/-- Two values in order. -/
def pair (first : Codec α) (second : Codec β) : Codec (α × β) where
  put value := first.put value.1 ++ second.put value.2
  take bytes := do
    let (left, bytes) ← first.take bytes
    let (right, bytes) ← second.take bytes
    some ((left, right), bytes)
  take_put value rest := by
    simp [List.append_assoc, first.take_put, second.take_put]

/-- One of two kinds of values, told apart by the first byte. -/
def either (first : Codec α) (second : Codec β) : Codec (α ⊕ β) where
  put
    | .inl value => 0 :: first.put value
    | .inr value => 1 :: second.put value
  take
    | [] => none
    | kind :: bytes =>
      if kind = 0 then (first.take bytes).map fun taken => (.inl taken.1, taken.2)
      else (second.take bytes).map fun taken => (.inr taken.1, taken.2)
  take_put value rest := by
    cases value with
    | inl value => simp [first.take_put]
    | inr value => simp [second.take_put]

/-- Read a given number of values. -/
def takeMany (codec : Codec α) : Nat → Bytes → Option (List α × Bytes)
  | 0, bytes => some ([], bytes)
  | count + 1, bytes => do
    let (value, bytes) ← codec.take bytes
    let (values, bytes) ← takeMany codec count bytes
    some (value :: values, bytes)

theorem takeMany_put (codec : Codec α) (values : List α) (rest : Bytes) :
    takeMany codec values.length (values.flatMap codec.put ++ rest) = some (values, rest) := by
  induction values with
  | nil => rfl
  | cons value values ih =>
    simp [takeMany, List.append_assoc, codec.take_put, ih]

/-- A list behind its length. -/
def list (codec : Codec α) : Codec (List α) where
  put values := unary.put values.length ++ values.flatMap codec.put
  take bytes := do
    let (count, bytes) ← unary.take bytes
    takeMany codec count bytes
  take_put values rest := by
    simp [List.append_assoc, unary.take_put, takeMany_put]

/-- The same encoding for a type with the same values. -/
def map (codec : Codec α) (wrap : α → β) (unwrap : β → α)
    (inverse : ∀ value, wrap (unwrap value) = value) : Codec β where
  put value := codec.put (unwrap value)
  take bytes := (codec.take bytes).map fun taken => (wrap taken.1, taken.2)
  take_put value rest := by
    simp [codec.take_put, inverse]

/-- A character as its code point in three bytes. -/
def char : Codec Char :=
  (fixed 3).map (fun digits => Char.ofNat (fromLeBytes digits.bytes))
    (fun c => ⟨toLeBytes 3 c.toNat, toLeBytes_length 3 c.toNat⟩) (by
      intro c
      have bound : c.toNat < 256 ^ 3 := by
        have valid := c.valid
        unfold UInt32.isValidChar Nat.isValidChar at valid
        show c.val.toNat < 256 ^ 3
        omega
      show Char.ofNat (fromLeBytes (toLeBytes 3 c.toNat)) = c
      rw [fromLeBytes_toLeBytes bound, Char.ofNat_toNat])

/-- A text as the list of its characters. -/
def text : Codec String := (list char).map String.ofList String.toList (by simp)

end Codec

end Ethwasi.Wire
