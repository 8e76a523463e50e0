import Mathlib

/-!
# Journal points and journal operations

A journal point names one entry of a journal: the sequence number of its
block and the entry's index in that block (`journalPoint.h`). The slab journal
and the recovery journal order their entries by journal points, and a
reference block records, per sector, the point up to which its counters are
accurate. Points are packed into 64 bits as the 48 low bits of the sequence
number above the 16-bit entry count.
-/

namespace Vdo

/-- `JournalPoint`: a block sequence number and an entry index in that block. -/
structure JournalPoint where
  /-- The sequence number of the journal block. -/
  sequenceNumber : ℕ
  /-- The index of the entry within its block. -/
  entryCount : ℕ
  deriving DecidableEq, Repr

/-- The point before every entry, as a zero-filled structure holds it. -/
def JournalPoint.zero : JournalPoint := ⟨0, 0⟩

/-- `isValidJournalPoint`: a point is valid when it is present (`none` models a
`NULL` pointer) and its sequence number is positive. -/
def isValidJournalPoint : Option JournalPoint → Bool
  | none => false
  | some point => 0 < point.sequenceNumber

/-- `beforeJournalPoint`: the lexicographic order of points. -/
def beforeJournalPoint (first second : JournalPoint) : Bool :=
  decide (first.sequenceNumber < second.sequenceNumber) ||
    (decide (first.sequenceNumber = second.sequenceNumber) &&
      decide (first.entryCount < second.entryCount))

/-- `packJournalPoint`: the 64-bit word `(sequenceNumber << 16) | entryCount`;
the entry count is a 16-bit field. -/
def packJournalPoint (point : JournalPoint) : ℕ :=
  (point.sequenceNumber * 2 ^ 16 + point.entryCount % 2 ^ 16) % 2 ^ 64

/-- `unpackJournalPoint`: the high 48 bits are the sequence number and the low
16 bits the entry count. -/
def unpackJournalPoint (packed : ℕ) : JournalPoint :=
  ⟨packed / 2 ^ 16, packed % 2 ^ 16⟩

/-- `JournalOperation`: what a journal entry does to a reference count. -/
inductive JournalOperation
  | dataDecrement
  | dataIncrement
  | blockMapDecrement
  | blockMapIncrement
  deriving DecidableEq, Repr

/-- `isIncrementOperation` (`recoveryJournal.h`). -/
def isIncrementOperation : JournalOperation → Bool
  | .dataIncrement => true
  | .blockMapIncrement => true
  | _ => false

/-- `beforeJournalPoint` is the strict lexicographic order. -/
theorem beforeJournalPoint_iff {first second : JournalPoint} :
    beforeJournalPoint first second = true ↔
      first.sequenceNumber < second.sequenceNumber ∨
        (first.sequenceNumber = second.sequenceNumber ∧ first.entryCount < second.entryCount) := by
  simp [beforeJournalPoint]

/-- No point precedes itself. -/
@[simp] theorem beforeJournalPoint_self (point : JournalPoint) :
    beforeJournalPoint point point = false := by
  simp [beforeJournalPoint]

/-- The order of points is transitive. -/
theorem beforeJournalPoint_trans {a b c : JournalPoint} (hab : beforeJournalPoint a b = true)
    (hbc : beforeJournalPoint b c = true) : beforeJournalPoint a c = true := by
  rw [beforeJournalPoint_iff] at *
  omega

/-- Of two points at most one precedes the other. -/
theorem beforeJournalPoint_asymm {a b : JournalPoint} (hab : beforeJournalPoint a b = true) :
    beforeJournalPoint b a = false := by
  rw [beforeJournalPoint_iff] at hab
  rw [Bool.eq_false_iff, ne_eq, beforeJournalPoint_iff]
  omega

/-- No point precedes the zero point. -/
@[simp] theorem beforeJournalPoint_zero (point : JournalPoint) :
    beforeJournalPoint point JournalPoint.zero = false := by
  simp [beforeJournalPoint, JournalPoint.zero]

/-- The zero point precedes every point of a block with a positive sequence
number. -/
theorem zero_beforeJournalPoint {point : JournalPoint} (hpos : 0 < point.sequenceNumber) :
    beforeJournalPoint JournalPoint.zero point = true := by
  rw [beforeJournalPoint_iff]
  exact Or.inl hpos

/-- Of two distinct points one precedes the other. -/
theorem beforeJournalPoint_total {a b : JournalPoint} (hne : a ≠ b) :
    beforeJournalPoint a b = true ∨ beforeJournalPoint b a = true := by
  rw [beforeJournalPoint_iff, beforeJournalPoint_iff]
  by_cases hsequence : a.sequenceNumber = b.sequenceNumber
  · have hentry : a.entryCount ≠ b.entryCount := by
      intro hentry
      apply hne
      cases a
      cases b
      simp_all
    omega
  · omega

/-- Packing loses nothing for a sequence number below `2 ^ 48` and a 16-bit
entry count. -/
theorem unpackJournalPoint_packJournalPoint {point : JournalPoint}
    (hsequence : point.sequenceNumber < 2 ^ 48) (hentry : point.entryCount < 2 ^ 16) :
    unpackJournalPoint (packJournalPoint point) = point := by
  obtain ⟨sequence, entry⟩ := point
  simp only at hsequence hentry
  have hsmall : sequence * 2 ^ 16 + entry < 2 ^ 64 := by omega
  have hmod : entry % 2 ^ 16 = entry := Nat.mod_eq_of_lt hentry
  simp only [unpackJournalPoint, packJournalPoint, hmod, Nat.mod_eq_of_lt hsmall]
  congr 1 <;> omega

end Vdo
