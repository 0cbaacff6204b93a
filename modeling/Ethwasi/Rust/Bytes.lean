import Mathlib.Algebra.Order.Ring.Nat
import Ethwasi.Rust.Outcome

/-!
# Byte strings, machine words and slices

`Vec<u8>` is a list of bytes and `[u8; N]` is a list that carries its length. The
operations on them that can panic return an `Outcome`. Machine additions are natural
additions with the word size made explicit: a build with overflow checks panics when a
sum leaves the word, a build without them reduces it. Both builds are modelled, because
they fail at different places.
-/

namespace Ethwasi.Rust

/-- `Vec<u8>`. -/
abbrev Bytes := List UInt8

/-- `[u8; N]`. -/
structure FixedBytes (size : Nat) where
  /-- The bytes in order. -/
  bytes : Bytes
  /-- There are exactly `N` of them. -/
  length_eq : bytes.length = size
  deriving DecidableEq

namespace FixedBytes

variable {size : Nat}

/-- Two arrays with the same bytes are equal. -/
@[ext] theorem ext {left right : FixedBytes size} (same : left.bytes = right.bytes) :
    left = right := by
  cases left
  cases right
  simpa using same

/-- `[byte; N]`. -/
def filled (size : Nat) (byte : UInt8) : FixedBytes size :=
  ⟨List.replicate size byte, List.length_replicate⟩

/-- `copy_from_slice` into an array of `N` bytes panics unless the slice has `N` bytes. -/
def copyFromSlice {ε : Type} (size : Nat) (source : Bytes) : Outcome ε (FixedBytes size) :=
  if same : source.length = size then .ok ⟨source, same⟩ else .panic .lengthMismatch

/-- Copying the bytes of an array recovers the array. -/
@[simp] theorem copyFromSlice_bytes {ε : Type} (array : FixedBytes size) :
    (copyFromSlice size array.bytes : Outcome ε (FixedBytes size)) = .ok array := by
  simp [copyFromSlice, array.length_eq]

/-- A slice of the right length is copied without a panic. -/
theorem copyFromSlice_of_length {ε : Type} {source : Bytes} (same : source.length = size) :
    (copyFromSlice size source : Outcome ε (FixedBytes size)) = .ok ⟨source, same⟩ := by
  simp [copyFromSlice, same]

/-- `copy_from_slice` unwraps nothing. -/
theorem copyFromSlice_ne_unwrapFailed {ε : Type} (size : Nat) (source : Bytes) :
    (copyFromSlice size source : Outcome ε (FixedBytes size)) ≠ .panic .unwrapFailed := by
  unfold copyFromSlice
  split <;> nofun

end FixedBytes

/-- `data[start..end]`. -/
def slice {ε : Type} (data : Bytes) (start stop : Nat) : Outcome ε Bytes :=
  if start ≤ stop ∧ stop ≤ data.length then .ok ((data.take stop).drop start)
  else .panic .sliceRange

/-- A slice in range is taken without a panic. -/
theorem slice_of_range {ε : Type} {data : Bytes} {start stop : Nat} (ordered : start ≤ stop)
    (inside : stop ≤ data.length) :
    (slice data start stop : Outcome ε Bytes) = .ok ((data.take stop).drop start) := by
  simp [slice, ordered, inside]

/-- A slice out of range panics. -/
theorem slice_out_of_range {ε : Type} {data : Bytes} {start stop : Nat}
    (outside : ¬(start ≤ stop ∧ stop ≤ data.length)) :
    (slice data start stop : Outcome ε Bytes) = .panic .sliceRange := if_neg outside

/-- A slice unwraps nothing. -/
theorem slice_ne_unwrapFailed {ε : Type} (data : Bytes) (start stop : Nat) :
    (slice data start stop : Outcome ε Bytes) ≠ .panic .unwrapFailed := by
  unfold slice
  split <;> nofun

/-- `data.split_at(middle)`. -/
def splitAt {ε : Type} (data : Bytes) (middle : Nat) : Outcome ε (Bytes × Bytes) :=
  if middle ≤ data.length then .ok (data.take middle, data.drop middle) else .panic .sliceRange

/-- A front is split off at its length. -/
theorem splitAt_append {ε : Type} (front rest : Bytes) :
    (splitAt (front ++ rest) front.length : Outcome ε (Bytes × Bytes)) = .ok (front, rest) := by
  rw [splitAt, if_pos (by simp), List.take_left, List.drop_left]

/-- What is split off and what is left make up the bytes. -/
theorem splitAt_eq_ok {ε : Type} {data front rest : Bytes} {middle : Nat}
    (returned : (splitAt data middle : Outcome ε (Bytes × Bytes)) = .ok (front, rest)) :
    front.length = middle ∧ data = front ++ rest := by
  unfold splitAt at returned
  split at returned
  · rename_i inside
    cases returned
    exact ⟨List.length_take_of_le inside, (List.take_append_drop middle data).symm⟩
  · cases returned

/-- The bytes before `start` and the slice from `start` make up the bytes before `stop`. -/
theorem take_append_slice {data : Bytes} {start stop : Nat} (ordered : start ≤ stop) :
    data.take start ++ (data.take stop).drop start = data.take stop := by
  have shorter : data.take start = (data.take stop).take start := by
    rw [List.take_take, Nat.min_eq_left ordered]
  rw [shorter, List.take_append_drop]

/-- What the build does when a machine addition leaves its word. -/
inductive OverflowMode where
  /-- Overflow checks are on: the addition panics. -/
  | checked
  /-- Overflow checks are off: the sum is reduced modulo the word size. -/
  | wrapping
  deriving DecidableEq, Repr

/-- `usize` addition on a 64-bit target. -/
def usizeAdd {ε : Type} (mode : OverflowMode) (left right : Nat) : Outcome ε Nat :=
  if left + right < 2 ^ 64 then .ok (left + right)
  else
    match mode with
    | .checked => .panic .arithmeticOverflow
    | .wrapping => .ok ((left + right) % 2 ^ 64)

/-- A sum inside the word is the natural sum in both builds. -/
theorem usizeAdd_of_lt {ε : Type} {mode : OverflowMode} {left right : Nat}
    (fits : left + right < 2 ^ 64) :
    (usizeAdd mode left right : Outcome ε Nat) = .ok (left + right) := by
  unfold usizeAdd
  rw [if_pos fits]

/-- Without overflow checks a sum is always reduced modulo the word size. -/
theorem usizeAdd_wrapping {ε : Type} (left right : Nat) :
    (usizeAdd .wrapping left right : Outcome ε Nat) = .ok ((left + right) % 2 ^ 64) := by
  unfold usizeAdd
  split
  · rename_i fits
    rw [Nat.mod_eq_of_lt fits]
  · rfl

/-- With overflow checks a sum panics exactly when it leaves the word. -/
theorem usizeAdd_checked_of_ge {ε : Type} {left right : Nat} (leaves : 2 ^ 64 ≤ left + right) :
    (usizeAdd .checked left right : Outcome ε Nat) = .panic .arithmeticOverflow := by
  unfold usizeAdd
  rw [if_neg (by omega)]

/-- A machine addition unwraps nothing. -/
theorem usizeAdd_ne_unwrapFailed {ε : Type} (mode : OverflowMode) (left right : Nat) :
    (usizeAdd mode left right : Outcome ε Nat) ≠ .panic .unwrapFailed := by
  unfold usizeAdd
  split
  · nofun
  · cases mode <;> nofun

/-- `to_le_bytes` at any width: base-256 digits, least significant first. -/
def toLeBytes : Nat → Nat → Bytes
  | 0, _ => []
  | width + 1, word => UInt8.ofNat word :: toLeBytes width (word / 256)

/-- `from_le_bytes`: the number whose base-256 digits are the bytes. -/
def fromLeBytes : Bytes → Nat
  | [] => 0
  | digit :: digits => digit.toNat + 256 * fromLeBytes digits

/-- A word has as many bytes as its width. -/
@[simp] theorem toLeBytes_length (width word : Nat) : (toLeBytes width word).length = width := by
  induction width generalizing word with
  | zero => rfl
  | succ width ih => simp [toLeBytes, ih]

/-- Reading the digits of a word recovers the word when it fits its width. -/
theorem fromLeBytes_toLeBytes {width word : Nat} (fits : word < 256 ^ width) :
    fromLeBytes (toLeBytes width word) = word := by
  induction width generalizing word with
  | zero =>
    have zero : word = 0 := by simpa using fits
    subst zero
    rfl
  | succ width ih =>
    have high : word / 256 < 256 ^ width := by
      rw [Nat.div_lt_iff_lt_mul (by decide), ← Nat.pow_succ]
      exact fits
    simp only [toLeBytes, fromLeBytes, ih high, UInt8.toNat_ofNat']
    omega

/-- Every byte string is the digits of the number it denotes. -/
theorem toLeBytes_fromLeBytes (digits : Bytes) :
    toLeBytes digits.length (fromLeBytes digits) = digits := by
  induction digits with
  | nil => rfl
  | cons digit digits ih =>
    have bound := digit.toNat_lt
    have low : UInt8.ofNat (digit.toNat + 256 * fromLeBytes digits) = digit :=
      UInt8.toNat_inj.mp (by simp only [UInt8.toNat_ofNat']; omega)
    have high : (digit.toNat + 256 * fromLeBytes digits) / 256 = fromLeBytes digits := by omega
    simp only [List.length_cons, fromLeBytes, toLeBytes, low, high, ih]

/-- A byte string denotes a number below the power of its length. -/
theorem fromLeBytes_lt (digits : Bytes) : fromLeBytes digits < 256 ^ digits.length := by
  induction digits with
  | nil => simp [fromLeBytes]
  | cons digit digits ih =>
    have bound := digit.toNat_lt
    simp only [fromLeBytes, List.length_cons, Nat.pow_succ]
    omega

end Ethwasi.Rust
