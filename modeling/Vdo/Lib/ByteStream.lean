import Mathlib.Data.List.Basic
import Mathlib.Algebra.Order.Group.Nat

/-!
# Little-endian fields in a byte stream

A stream of bytes (each a natural below 256) that an encoder appends fields
to and a decoder takes fields off the front of. `leBytes width value` is the
field, least significant byte first; `takeLE` reads one back, or fails on a
stream too short for it.

`takeLE_leBytes_append` is the round trip every codec built on this needs: a
field written and then read back from the front of a longer stream gives the
value, less what does not fit, and the rest of the stream.
-/

namespace ByteStream

/-- The `width` low bytes of `value`, least significant first. -/
def leBytes : ℕ → ℕ → List ℕ
  | 0, _ => []
  | width + 1, value => value % 256 :: leBytes width (value / 256)

/-- The value of little-endian bytes. -/
def leValue : List ℕ → ℕ
  | [] => 0
  | byte :: bytes => byte + 256 * leValue bytes

/-- A `width`-byte field taken off the front of a stream, and the rest. -/
def takeLE (width : ℕ) (stream : List ℕ) : Option (ℕ × List ℕ) :=
  if width ≤ stream.length then some (leValue (stream.take width), stream.drop width) else none

@[simp]
theorem length_leBytes (width value : ℕ) : (leBytes width value).length = width := by
  induction width generalizing value with
  | zero => rfl
  | succ width ih => simp [leBytes, ih]

theorem leValue_leBytes (width value : ℕ) : leValue (leBytes width value) = value % 256 ^ width := by
  induction width generalizing value with
  | zero => rw [leBytes, leValue, pow_zero, Nat.mod_one]
  | succ width ih => rw [leBytes, leValue, ih, pow_succ', Nat.mod_mul]

/-- A field written and read back off the front of a longer stream. -/
theorem takeLE_leBytes_append (width value : ℕ) (rest : List ℕ) :
    takeLE width (leBytes width value ++ rest) = some (value % 256 ^ width, rest) := by
  have htake : (leBytes width value ++ rest).take width = leBytes width value := by
    simp
  have hdrop : (leBytes width value ++ rest).drop width = rest := by
    simp
  rw [takeLE, if_pos (by simp), htake, hdrop, leValue_leBytes]

end ByteStream
