import Vdo.Uds.OpenChapterZone
import Vdo.Lib.TriangularProbe
import Vdo.Lib.IndexCount

/-!
# The probe chains of an open chapter zone

A zone is consistent when its hash table is a power of two larger than twice
its capacity, its slots hold exactly `size` record numbers, its deleted flags
are `deleted` flags on record numbers, and every live record lies on the probe
sequence of its name, behind slots where that probe does not stop. The probe
sequence visits every slot within `slotCount` probes (`TriangularProbe`), and a
slot is empty because the table is never full, so the probe stops within
`slotCount` probes; it stops at the live record of the name if there is one,
and the operations keep the zone consistent.
-/

namespace Vdo.Uds

open TriangularProbe IndexCount

namespace OpenChapterZone

variable {Name Data : Type*}

section Predicates

variable (chapterIndexBytes : Name → ℕ) (openChapter : OpenChapterZone Name Data)

/-- The slot of the probe on attempt `j + 1` for a name. -/
def probePosition (name : Name) (j : ℕ) : ℕ :=
  (chapterIndexBytes name + triangle j) % openChapter.slotCount

/-- A record number whose record has the name and is not deleted. -/
def HoldsLive (name : Name) (recordNumber : ℕ) : Prop :=
  recordNumber ≠ 0 ∧ (openChapter.records recordNumber).1 = name ∧
    (openChapter.slots recordNumber).recordDeleted = false

/-- The probe for a name stops on attempt `j + 1`: its slot is empty or holds a
live record of the name. -/
def StopsAt (name : Name) (j : ℕ) : Prop :=
  (openChapter.slots (openChapter.probePosition chapterIndexBytes name j)).recordNumber = 0 ∨
    openChapter.HoldsLive name
      (openChapter.slots (openChapter.probePosition chapterIndexBytes name j)).recordNumber

/-- A record added to the zone and not removed. -/
def Live (recordNumber : ℕ) : Prop :=
  1 ≤ recordNumber ∧ recordNumber ≤ openChapter.size ∧
    (openChapter.slots recordNumber).recordDeleted = false

/-- The invariant of a zone made by `makeOpenChapter` and changed only by the
operations. -/
structure Consistent : Prop where
  slotCount_pow : ∃ k, openChapter.slotCount = 2 ^ k
  capacity_pos : 0 < openChapter.capacity
  two_mul_capacity_le : 2 * openChapter.capacity ≤ openChapter.slotCount
  capacity_le_max : openChapter.capacity ≤ openChapterMaxRecordNumber
  size_le : openChapter.size ≤ openChapter.capacity
  recordNumber_le : ∀ s < openChapter.slotCount, (openChapter.slots s).recordNumber ≤ openChapter.size
  /-- Each record added occupies one slot. -/
  occupied_eq : countWhere (Finset.range openChapter.slotCount) (· ≠ 0)
    (fun s => (openChapter.slots s).recordNumber) = openChapter.size
  deleted_mem : ∀ i < openChapter.slotCount, (openChapter.slots i).recordDeleted = true →
    1 ≤ i ∧ i ≤ openChapter.size
  deleted_eq : countWhere (Finset.Icc 1 openChapter.size) (· = true)
    (fun i => (openChapter.slots i).recordDeleted) = openChapter.deleted
  /-- A live record is in the probe sequence of its name, after slots where
  that probe does not stop. -/
  chain : ∀ r, openChapter.Live r → ∃ j,
    (openChapter.slots (openChapter.probePosition chapterIndexBytes (openChapter.records r).1 j)).recordNumber =
      r ∧ ∀ j' < j, ¬ openChapter.StopsAt chapterIndexBytes (openChapter.records r).1 j'
  unique : ∀ r r', openChapter.Live r → openChapter.Live r' →
    (openChapter.records r).1 = (openChapter.records r').1 → r = r'

@[simp] theorem addRecord_probePosition (slot : ℕ) (name : Name) (metadata : Data) :
    (openChapter.addRecord slot name metadata).probePosition chapterIndexBytes =
      openChapter.probePosition chapterIndexBytes := rfl

@[simp] theorem markDeleted_probePosition (recordNumber : ℕ) :
    (openChapter.markDeleted recordNumber).probePosition chapterIndexBytes =
      openChapter.probePosition chapterIndexBytes := rfl

end Predicates

/-! ## Where the probe stops -/

section Probe

variable {chapterIndexBytes : Name → ℕ} {openChapter : OpenChapterZone Name Data}

namespace Consistent

variable (h : openChapter.Consistent chapterIndexBytes)
include h

theorem capacity_lt : openChapter.capacity < openChapter.slotCount := by
  have := h.two_mul_capacity_le
  have := h.capacity_pos
  omega

theorem size_lt : openChapter.size < openChapter.slotCount :=
  lt_of_le_of_lt h.size_le h.capacity_lt

theorem probePosition_lt (name : Name) (j : ℕ) :
    openChapter.probePosition chapterIndexBytes name j < openChapter.slotCount :=
  Nat.mod_lt _ (lt_of_le_of_lt (Nat.zero_le _) h.size_lt)

/-- The table is never full: some slot is empty. -/
theorem exists_empty : ∃ s < openChapter.slotCount, (openChapter.slots s).recordNumber = 0 := by
  by_contra hfull
  have hall : countWhere (Finset.range openChapter.slotCount) (· ≠ 0)
      (fun s => (openChapter.slots s).recordNumber) = openChapter.slotCount := by
    rw [countWhere_eq_card fun s hs hzero => hfull ⟨s, Finset.mem_range.mp hs, hzero⟩,
      Finset.card_range]
  have := h.size_lt
  rw [h.occupied_eq] at hall
  omega

/-- Within `slotCount` attempts the probe for any name reaches an empty slot,
so it stops. -/
theorem exists_stopsAt (name : Name) :
    ∃ j < openChapter.slotCount, openChapter.StopsAt chapterIndexBytes name j := by
  obtain ⟨s, hs, hempty⟩ := h.exists_empty
  obtain ⟨k, hk⟩ := h.slotCount_pow
  rw [hk] at hs
  obtain ⟨j, hj, hpos⟩ := @exists_probe_eq k (chapterIndexBytes name) s hs
  refine ⟨j, hk ▸ hj, Or.inl ?_⟩
  rw [probePosition, hk, hpos, hempty]

/-- A record number read from a slot is a live record when it holds the name
live. -/
theorem live_of_holdsLive {s : ℕ} (hs : s < openChapter.slotCount) {name : Name}
    (hlive : openChapter.HoldsLive name (openChapter.slots s).recordNumber) :
    openChapter.Live (openChapter.slots s).recordNumber :=
  ⟨Nat.one_le_iff_ne_zero.mpr hlive.1, h.recordNumber_le s hs, hlive.2.2⟩

/-- A live record's name has its first stop at the record. -/
theorem first_stop_of_live {r : ℕ} (hlive : openChapter.Live r) {j : ℕ}
    (hstop : openChapter.StopsAt chapterIndexBytes (openChapter.records r).1 j)
    (hfirst : ∀ j' < j, ¬ openChapter.StopsAt chapterIndexBytes (openChapter.records r).1 j') :
    (openChapter.slots (openChapter.probePosition chapterIndexBytes (openChapter.records r).1 j)).recordNumber =
      r := by
  obtain ⟨jr, hslot, hbefore⟩ := h.chain r hlive
  have hstop_r : openChapter.StopsAt chapterIndexBytes (openChapter.records r).1 jr := by
    refine Or.inr ⟨?_, ?_, ?_⟩ <;> rw [hslot]
    · exact Nat.one_le_iff_ne_zero.mp hlive.1
    · exact hlive.2.2
  have hle : ¬ jr < j := fun hlt => hfirst jr hlt hstop_r
  have hge : ¬ j < jr := fun hlt => hbefore j hlt hstop
  rw [show j = jr by omega, hslot]

end Consistent

theorem nameToHashSlot_eq_probePosition (name : Name) :
    nameToHashSlot chapterIndexBytes name openChapter.slotCount =
      openChapter.probePosition chapterIndexBytes name 0 := by
  rw [nameToHashSlot, probePosition, triangle_zero, Nat.add_zero]

/-- The code's next probe is the probe position of the next attempt. -/
theorem probe_next_eq (name : Name) (i : ℕ) :
    (if openChapter.slotCount ≤ openChapter.probePosition chapterIndexBytes name i + (i + 1) then
        (openChapter.probePosition chapterIndexBytes name i + (i + 1)) % openChapter.slotCount
      else openChapter.probePosition chapterIndexBytes name i + (i + 1)) =
      openChapter.probePosition chapterIndexBytes name (i + 1) := by
  rw [probe_reduce_eq_mod, probePosition, probePosition, probe_succ]

variable [DecidableEq Name]

/-- The loop on attempt `i + 1` is at the probe position of attempt `i + 1`,
and runs to the first stop at or after it, when it comes within the fuel. -/
theorem probeChapterSlotsFrom_of_first {name : Name} {j : ℕ}
    (hstop : openChapter.StopsAt chapterIndexBytes name j) :
    ∀ fuel i, i ≤ j → j < i + fuel →
      (∀ j', i ≤ j' → j' < j → ¬ openChapter.StopsAt chapterIndexBytes name j') →
      probeChapterSlotsFrom openChapter name (openChapter.probePosition chapterIndexBytes name i) (i + 1) fuel =
        some (openChapter.probePosition chapterIndexBytes name j,
          (openChapter.slots (openChapter.probePosition chapterIndexBytes name j)).recordNumber) := by
  intro fuel
  induction fuel with
  | zero => intro i hle hlt; omega
  | succ fuel ih =>
    intro i hle hlt hbefore
    rw [probeChapterSlotsFrom_succ]
    rcases Nat.eq_or_lt_of_le hle with rfl | hlt_i
    · rcases hstop with hempty | ⟨hne, hname, hdeleted⟩
      · rw [if_pos hempty, hempty]
      · rw [if_neg hne, if_pos ⟨hname, hdeleted⟩]
    · have hnot := hbefore i le_rfl hlt_i
      simp only [StopsAt, HoldsLive, not_or, not_and] at hnot
      rw [if_neg hnot.1, if_neg fun hboth => hnot.2 hnot.1 hboth.1 hboth.2, probe_next_eq]
      exact ih (i + 1) hlt_i (by omega) fun j' hj' hj'lt => hbefore j' (by omega) hj'lt

/-- In a consistent zone the probe stops, at the first attempt that stops. -/
theorem Consistent.probeChapterSlots_spec (h : openChapter.Consistent chapterIndexBytes) (name : Name) :
    ∃ j < openChapter.slotCount, openChapter.StopsAt chapterIndexBytes name j ∧
      (∀ j' < j, ¬ openChapter.StopsAt chapterIndexBytes name j') ∧
      probeChapterSlots chapterIndexBytes openChapter name =
        some (openChapter.probePosition chapterIndexBytes name j,
          (openChapter.slots (openChapter.probePosition chapterIndexBytes name j)).recordNumber) := by
  classical
  have hex := h.exists_stopsAt name
  let j := Nat.find hex
  obtain ⟨hj, hstop⟩ := Nat.find_spec hex
  have hfirst : ∀ j' < j, ¬ openChapter.StopsAt chapterIndexBytes name j' := fun j' hj' hstop' =>
    Nat.find_min hex hj' ⟨lt_trans hj' hj, hstop'⟩
  refine ⟨j, hj, hstop, hfirst, ?_⟩
  rw [probeChapterSlots, nameToHashSlot_eq_probePosition]
  exact probeChapterSlotsFrom_of_first hstop _ 0 (Nat.zero_le _) (by omega)
    fun j' _ hj' => hfirst j' hj'

/-- The probe reads nothing outside the zone's slots and records: two zones
that agree there probe alike. -/
theorem Consistent.probeChapterSlots_congr (h : openChapter.Consistent chapterIndexBytes)
    {other : OpenChapterZone Name Data} (hcount : other.slotCount = openChapter.slotCount)
    (hslots : ∀ s < openChapter.slotCount, other.slots s = openChapter.slots s)
    (hrecords : ∀ r ≤ openChapter.capacity, other.records r = openChapter.records r) (name : Name) :
    probeChapterSlots chapterIndexBytes other name = probeChapterSlots chapterIndexBytes openChapter name := by
  have hpos : ∀ j, other.probePosition chapterIndexBytes name j =
      openChapter.probePosition chapterIndexBytes name j := fun j => by
    rw [probePosition, probePosition, hcount]
  have hloop : ∀ fuel i,
      probeChapterSlotsFrom other name (openChapter.probePosition chapterIndexBytes name i) (i + 1) fuel =
        probeChapterSlotsFrom openChapter name (openChapter.probePosition chapterIndexBytes name i) (i + 1)
          fuel := by
    intro fuel
    induction fuel with
    | zero => intro i; rfl
    | succ fuel ih =>
      intro i
      have hlt := h.probePosition_lt name i
      have hnumber := h.recordNumber_le _ hlt
      rw [probeChapterSlotsFrom_succ, probeChapterSlotsFrom_succ, hslots _ hlt,
        hrecords _ (hnumber.trans h.size_le), hslots _ (lt_of_le_of_lt hnumber h.size_lt), hcount,
        probe_next_eq, ih]
  rw [probeChapterSlots, probeChapterSlots, hcount, nameToHashSlot_eq_probePosition, hloop]

end Probe

/-! ## What the probe finds -/

section Found

variable {chapterIndexBytes : Name → ℕ} {openChapter : OpenChapterZone Name Data}

namespace Consistent

variable [DecidableEq Name] (h : openChapter.Consistent chapterIndexBytes)
include h

/-- The probe for the name of a live record stops at that record. -/
theorem probe_of_live {r : ℕ} (hlive : openChapter.Live r) :
    ∃ slot, probeChapterSlots chapterIndexBytes openChapter (openChapter.records r).1 = some (slot, r) := by
  obtain ⟨j, hj, hstop, hfirst, hprobe⟩ := h.probeChapterSlots_spec (openChapter.records r).1
  exact ⟨_, hprobe.trans (by rw [h.first_stop_of_live hlive hstop hfirst])⟩

/-- The probe for a name no live record has stops at an empty slot, after
slots where it does not stop. -/
theorem probe_of_absent {name : Name} (habsent : ∀ r, openChapter.Live r → (openChapter.records r).1 ≠ name) :
    ∃ j, (∀ j' < j, ¬ openChapter.StopsAt chapterIndexBytes name j') ∧
      (openChapter.slots (openChapter.probePosition chapterIndexBytes name j)).recordNumber = 0 ∧
      probeChapterSlots chapterIndexBytes openChapter name =
        some (openChapter.probePosition chapterIndexBytes name j, 0) := by
  obtain ⟨j, hj, hstop, hfirst, hprobe⟩ := h.probeChapterSlots_spec name
  rcases hstop with hempty | hholds
  · exact ⟨j, hfirst, hempty, by rw [hprobe, hempty]⟩
  · exact absurd hholds.2.1 (habsent _ (h.live_of_holdsLive (h.probePosition_lt name j) hholds))

end Consistent

end Found

/-! ## The operations keep a zone consistent -/

section Preserve

variable {chapterIndexBytes : Name → ℕ} {openChapter : OpenChapterZone Name Data}

/-- A zone with the same slots, sizes and record names as a consistent zone is
consistent: the invariant reads no metadata. -/
theorem Consistent.of_names (h : openChapter.Consistent chapterIndexBytes) {other : OpenChapterZone Name Data}
    (hcapacity : other.capacity = openChapter.capacity) (hsize : other.size = openChapter.size)
    (hdeleted : other.deleted = openChapter.deleted) (hcount : other.slotCount = openChapter.slotCount)
    (hslots : other.slots = openChapter.slots)
    (hnames : ∀ i, (other.records i).1 = (openChapter.records i).1) :
    other.Consistent chapterIndexBytes := by
  have hpos : other.probePosition chapterIndexBytes = openChapter.probePosition chapterIndexBytes := by
    funext name j
    rw [probePosition, probePosition, hcount]
  have hholds : other.HoldsLive = openChapter.HoldsLive := by
    funext name recordNumber
    rw [HoldsLive, HoldsLive, hnames, hslots]
  have hstops : other.StopsAt chapterIndexBytes = openChapter.StopsAt chapterIndexBytes := by
    funext name j
    rw [StopsAt, StopsAt, hpos, hholds, hslots]
  have hlive : other.Live = openChapter.Live := by
    funext r
    rw [Live, Live, hsize, hslots]
  refine ⟨?_, ?_, ?_, ?_, ?_, ?_, ?_, ?_, ?_, ?_, ?_⟩ <;>
    simp only [hcapacity, hsize, hdeleted, hcount, hslots, hnames, hpos, hstops, hlive]
  exacts [h.slotCount_pow, h.capacity_pos, h.two_mul_capacity_le, h.capacity_le_max, h.size_le,
    h.recordNumber_le, h.occupied_eq, h.deleted_mem, h.deleted_eq, h.chain, h.unique]

theorem Consistent.setMetadata (h : openChapter.Consistent chapterIndexBytes) (recordNumber : ℕ)
    (metadata : Data) : (openChapter.setMetadata recordNumber metadata).Consistent chapterIndexBytes :=
  h.of_names rfl rfl rfl rfl rfl fun i => setMetadata_name openChapter recordNumber i metadata

/-- The record `addRecord` numbers `size + 1` fits the slot's 23 bits. -/
theorem Consistent.succ_size_mod (h : openChapter.Consistent chapterIndexBytes)
    (hroom : openChapter.size < openChapter.capacity) :
    (openChapter.size + 1) % 2 ^ openChapterRecordNumberBits = openChapter.size + 1 := by
  have hmax := h.capacity_le_max
  rw [openChapterMaxRecordNumber] at hmax
  exact Nat.mod_eq_of_lt (by omega)

/-- The flag of the record number `addRecord` takes is clear. -/
theorem Consistent.flag_succ_size (h : openChapter.Consistent chapterIndexBytes)
    (hroom : openChapter.size < openChapter.capacity) :
    (openChapter.slots (openChapter.size + 1)).recordDeleted = false := by
  by_contra hflag
  have := (h.deleted_mem _ (by have := h.capacity_lt; omega) (Bool.not_eq_false _ ▸ hflag)).2
  omega

/-- The new record is live, and the other live records are those of the zone. -/
theorem Consistent.addRecord_live (h : openChapter.Consistent chapterIndexBytes)
    (hroom : openChapter.size < openChapter.capacity) (slot : ℕ) (name : Name) (metadata : Data)
    (r : ℕ) : (openChapter.addRecord slot name metadata).Live r ↔ openChapter.Live r ∨ r = openChapter.size + 1 := by
  have hfresh := h.flag_succ_size hroom
  simp only [Live, addRecord_size, addRecord_recordDeleted]
  constructor
  · rintro ⟨hge, hle, hflag⟩
    rcases Nat.lt_or_ge r (openChapter.size + 1) with hlt | hge'
    · exact Or.inl ⟨hge, by omega, hflag⟩
    · exact Or.inr (by omega)
  · rintro (⟨hge, hle, hflag⟩ | rfl)
    · exact ⟨hge, by omega, hflag⟩
    · exact ⟨by omega, le_rfl, hfresh⟩

/-- The slot `addRecord` fills now holds the new record number, every other
slot what it held. -/
theorem Consistent.recordNumber_addRecord (h : openChapter.Consistent chapterIndexBytes)
    (hroom : openChapter.size < openChapter.capacity) (slot : ℕ) (name : Name) (metadata : Data) (i : ℕ) :
    ((openChapter.addRecord slot name metadata).slots i).recordNumber =
      if i = slot then openChapter.size + 1 else (openChapter.slots i).recordNumber := by
  rw [addRecord_recordNumber, h.succ_size_mod hroom]

/-- A slot the probe does not stop at holds a record, so it is not the empty
slot `addRecord` fills. -/
theorem ne_slot_of_not_stopsAt {slot : ℕ} (hfree : (openChapter.slots slot).recordNumber = 0)
    {name : Name} {j : ℕ} (hnot : ¬ openChapter.StopsAt chapterIndexBytes name j) :
    openChapter.probePosition chapterIndexBytes name j ≠ slot := by
  rintro hpos
  exact hnot (Or.inl (hpos ▸ hfree))

/-- Away from the slot it fills, `addRecord` leaves every probe's stops as they
were: the slot's record number is unchanged and at most `size`. -/
theorem Consistent.addRecord_stopsAt_iff (h : openChapter.Consistent chapterIndexBytes)
    (hroom : openChapter.size < openChapter.capacity) (slot : ℕ) (name : Name) (metadata : Data)
    (other : Name) (j : ℕ) (hne : openChapter.probePosition chapterIndexBytes other j ≠ slot) :
    (openChapter.addRecord slot name metadata).StopsAt chapterIndexBytes other j ↔
      openChapter.StopsAt chapterIndexBytes other j := by
  have hnumber := h.recordNumber_le _ (h.probePosition_lt other j)
  simp only [StopsAt, HoldsLive, addRecord_probePosition, h.recordNumber_addRecord hroom, if_neg hne,
    addRecord_records,
    addRecord_recordDeleted]
  rw [if_neg (by omega)]

theorem Consistent.addRecord_occupied_eq (h : openChapter.Consistent chapterIndexBytes)
    (hroom : openChapter.size < openChapter.capacity) {slot : ℕ} (hslot : slot < openChapter.slotCount)
    (hfree : (openChapter.slots slot).recordNumber = 0) (name : Name) (metadata : Data) :
    countWhere (Finset.range openChapter.slotCount) (· ≠ 0)
      (fun s => ((openChapter.addRecord slot name metadata).slots s).recordNumber) = openChapter.size + 1 := by
  have hfun : (fun s => ((openChapter.addRecord slot name metadata).slots s).recordNumber) =
      Function.update (fun s => (openChapter.slots s).recordNumber) slot (openChapter.size + 1) := by
    funext i
    rw [h.recordNumber_addRecord hroom, Function.update_apply]
  have hcount := @countWhere_update_of_mem ℕ (Finset.range openChapter.slotCount) (· ≠ 0) _
    (fun s => (openChapter.slots s).recordNumber) slot (Finset.mem_range.mpr hslot) (openChapter.size + 1)
  simp only [hfree, ne_eq, not_true_eq_false, if_false, Nat.add_one_ne_zero, not_false_eq_true,
    if_true, h.occupied_eq] at hcount
  rw [hfun]
  omega

theorem Consistent.addRecord_deleted_eq (h : openChapter.Consistent chapterIndexBytes)
    (hroom : openChapter.size < openChapter.capacity) (slot : ℕ) (name : Name) (metadata : Data) :
    countWhere (Finset.Icc 1 (openChapter.size + 1)) (· = true)
      (fun i => ((openChapter.addRecord slot name metadata).slots i).recordDeleted) = openChapter.deleted := by
  simp only [addRecord_recordDeleted]
  rw [← Finset.insert_Icc_right_eq_Icc_add_one (by omega), countWhere_insert (by simp),
    h.flag_succ_size hroom, h.deleted_eq]
  rfl

/-- `putOpenChapter` adding a name no live record has, in the empty slot its
probe stopped at, keeps the zone consistent. -/
theorem Consistent.addRecord (h : openChapter.Consistent chapterIndexBytes) {name : Name} {j : ℕ}
    (hfirst : ∀ j' < j, ¬ openChapter.StopsAt chapterIndexBytes name j')
    (hfree : (openChapter.slots (openChapter.probePosition chapterIndexBytes name j)).recordNumber = 0)
    (hroom : openChapter.size < openChapter.capacity)
    (habsent : ∀ r, openChapter.Live r → (openChapter.records r).1 ≠ name) (metadata : Data) :
    (openChapter.addRecord (openChapter.probePosition chapterIndexBytes name j) name metadata).Consistent
      chapterIndexBytes := by
  set slot := openChapter.probePosition chapterIndexBytes name j with hslot_def
  have hslot : slot < openChapter.slotCount := h.probePosition_lt name j
  have hlive := h.addRecord_live hroom slot name metadata
  have hnumber := h.recordNumber_addRecord hroom slot name metadata
  have hstops := h.addRecord_stopsAt_iff hroom slot name metadata
  have hnew : (openChapter.addRecord slot name metadata).records (openChapter.size + 1) = (name, metadata) := by
    rw [addRecord_records, if_pos rfl]
  have hold : ∀ r, openChapter.Live r → (openChapter.addRecord slot name metadata).records r = openChapter.records r :=
    fun r hr => by rw [addRecord_records, if_neg (by have := hr.2.1; omega)]
  refine ⟨h.slotCount_pow, h.capacity_pos, h.two_mul_capacity_le, h.capacity_le_max, hroom, ?_,
    h.addRecord_occupied_eq hroom hslot hfree name metadata, ?_,
    h.addRecord_deleted_eq hroom slot name metadata, ?_, ?_⟩
  · intro s hs
    rw [addRecord_size, hnumber]
    split_ifs
    · exact le_rfl
    · exact (h.recordNumber_le s hs).trans (Nat.le_succ _)
  · intro i hi hflag
    rw [addRecord_recordDeleted] at hflag
    obtain ⟨hge, hle⟩ := h.deleted_mem i hi hflag
    exact ⟨hge, hle.trans (Nat.le_succ _)⟩
  · intro r hr
    rcases (hlive r).mp hr with hr_old | rfl
    · obtain ⟨jr, hslot_r, hbefore⟩ := h.chain r hr_old
      rw [hold r hr_old]
      have hne : openChapter.probePosition chapterIndexBytes (openChapter.records r).1 jr ≠ slot := by
        intro hpos
        rw [hpos, hfree] at hslot_r
        have := hr_old.1
        omega
      refine ⟨jr, ?_, fun j' hj' => ?_⟩
      · rw [addRecord_probePosition, hnumber, if_neg hne, hslot_r]
      · rw [hstops _ _ (ne_slot_of_not_stopsAt hfree (hbefore j' hj'))]
        exact hbefore j' hj'
    · rw [hnew]
      refine ⟨j, ?_, fun j' hj' => ?_⟩
      · rw [addRecord_probePosition, hnumber, if_pos hslot_def.symm]
      · rw [hstops _ _ (ne_slot_of_not_stopsAt hfree (hfirst j' hj'))]
        exact hfirst j' hj'
  · intro r r' hr hr' hname
    rcases (hlive r).mp hr with hr_old | rfl <;> rcases (hlive r').mp hr' with hr'_old | rfl
    · rw [hold r hr_old, hold r' hr'_old] at hname
      exact h.unique r r' hr_old hr'_old hname
    · rw [hold r hr_old, hnew] at hname
      exact absurd hname (habsent r hr_old)
    · rw [hold r' hr'_old, hnew] at hname
      exact absurd hname.symm (habsent r' hr'_old)
    · rfl

/-- The live records after `markDeleted` are the others. -/
theorem markDeleted_live (recordNumber r : ℕ) :
    (openChapter.markDeleted recordNumber).Live r ↔ openChapter.Live r ∧ r ≠ recordNumber := by
  simp only [Live, markDeleted_size, markDeleted_recordDeleted]
  by_cases hr : r = recordNumber
  · simp [hr]
  · simp [hr]

/-- Setting a flag only takes stops away from the probes. -/
theorem stopsAt_of_markDeleted {recordNumber : ℕ} {name : Name} {j : ℕ}
    (hstop : (openChapter.markDeleted recordNumber).StopsAt chapterIndexBytes name j) :
    openChapter.StopsAt chapterIndexBytes name j := by
  simp only [StopsAt, HoldsLive, markDeleted_probePosition, markDeleted_recordNumber, markDeleted_records,
    markDeleted_recordDeleted] at hstop
  rcases hstop with hempty | ⟨hne, hname, hflag⟩
  · exact Or.inl hempty
  · refine Or.inr ⟨hne, hname, ?_⟩
    split_ifs at hflag
    exact hflag

/-- `removeFromOpenChapter` flagging a live record keeps the zone consistent. -/
theorem Consistent.markDeleted (h : openChapter.Consistent chapterIndexBytes) {recordNumber : ℕ}
    (hlive : openChapter.Live recordNumber) :
    (openChapter.markDeleted recordNumber).Consistent chapterIndexBytes := by
  have hnumbers : (fun s => ((openChapter.markDeleted recordNumber).slots s).recordNumber) =
      fun s => (openChapter.slots s).recordNumber := funext fun s => markDeleted_recordNumber _ _ _
  have hflags : (fun i => ((openChapter.markDeleted recordNumber).slots i).recordDeleted) =
      Function.update (fun i => (openChapter.slots i).recordDeleted) recordNumber true := by
    funext i
    rw [markDeleted_recordDeleted, Function.update_apply]
  refine ⟨h.slotCount_pow, h.capacity_pos, h.two_mul_capacity_le, h.capacity_le_max, h.size_le, ?_, ?_,
    ?_, ?_, ?_, ?_⟩
  · intro s hs
    rw [markDeleted_recordNumber]
    exact h.recordNumber_le s hs
  · rw [hnumbers]
    exact h.occupied_eq
  · intro i hi hflag
    rw [markDeleted_recordDeleted] at hflag
    split_ifs at hflag with hi_eq
    · exact ⟨hi_eq ▸ hlive.1, hi_eq ▸ hlive.2.1⟩
    · exact h.deleted_mem i hi hflag
  · have hcount := @countWhere_update_of_mem Bool (Finset.Icc 1 openChapter.size) (· = true) _
      (fun i => (openChapter.slots i).recordDeleted) recordNumber
      (Finset.mem_Icc.mpr ⟨hlive.1, hlive.2.1⟩) true
    simp only [hlive.2.2, Bool.false_eq_true, if_false, if_true, h.deleted_eq] at hcount
    rw [markDeleted_size, hflags, markDeleted_deleted, ← hcount, Nat.add_zero]
  · intro r hr
    obtain ⟨hr_old, -⟩ := (markDeleted_live recordNumber r).mp hr
    obtain ⟨jr, hslot, hbefore⟩ := h.chain r hr_old
    refine ⟨jr, ?_, fun j' hj' hstop => hbefore j' hj' (stopsAt_of_markDeleted hstop)⟩
    rw [markDeleted_records, markDeleted_probePosition, markDeleted_recordNumber, hslot]
  · intro r r' hr hr' hname
    exact h.unique r r' ((markDeleted_live recordNumber r).mp hr).1 ((markDeleted_live recordNumber r').mp hr').1
      hname

/-- A zone whose hash table is a power of two at least twice its capacity is
consistent once reset. -/
theorem consistent_resetOpenChapter [Inhabited Name] [Inhabited Data]
    (hpow : ∃ k, openChapter.slotCount = 2 ^ k) (hpos : 0 < openChapter.capacity)
    (htwice : 2 * openChapter.capacity ≤ openChapter.slotCount)
    (hmax : openChapter.capacity ≤ openChapterMaxRecordNumber) :
    (resetOpenChapter openChapter).Consistent chapterIndexBytes := by
  have hslots : ∀ s < openChapter.slotCount, (resetOpenChapter openChapter).slots s = Slot.empty :=
    fun s hs => resetOpenChapter_slots openChapter hs
  have hnone : ∀ r, ¬ (resetOpenChapter openChapter).Live r := fun r hr => by
    have := hr.1
    have := hr.2.1
    rw [resetOpenChapter_size] at this
    omega
  refine ⟨hpow, hpos, htwice, hmax, Nat.zero_le _, ?_, ?_, ?_, ?_, fun r hr => absurd hr (hnone r),
    fun r _ hr => absurd hr (hnone r)⟩
  · intro s hs
    rw [hslots s hs]
    exact Nat.zero_le _
  · exact countWhere_eq_zero fun s hs => by
      rw [hslots s (Finset.mem_range.mp hs)]
      exact fun hne => hne rfl
  · intro i hi hflag
    rw [hslots i hi] at hflag
    cases hflag
  · rw [resetOpenChapter_size, resetOpenChapter_deleted, Finset.Icc_eq_empty (by omega)]
    rfl

theorem Consistent.resetOpenChapter [Inhabited Name] [Inhabited Data]
    (h : openChapter.Consistent chapterIndexBytes) :
    (resetOpenChapter openChapter).Consistent chapterIndexBytes :=
  consistent_resetOpenChapter h.slotCount_pow h.capacity_pos h.two_mul_capacity_le h.capacity_le_max

end Preserve

end OpenChapterZone

end Vdo.Uds
