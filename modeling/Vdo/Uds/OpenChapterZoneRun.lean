import Vdo.Uds.OpenChapterZoneInvariant
import Vdo.Lib.Reachability

/-!
# The open chapter zone is a bounded map

A zone is tracked together with the contents it stands for: the metadata of
each name's last successful put, unless a successful remove came after it.
Over every run of puts, removes and resets from a zone `makeOpenChapter` made,
the zone stays consistent and its live records are exactly the contents; from
that follow the search results, the capacity a put consumes, and the count of
distinct names. The hash table of a geometry whose `capacity * ratio` passes
`2 ^ 30` need not be larger than the zone: `nextPowerOfTwo` takes its argument
as an `unsigned int`, and a table of one slot makes a probe loop for ever.
-/

namespace Vdo.Uds

open OpenChapterZone IndexCount

/-- An open chapter zone, and the contents it stands for. -/
structure TrackedOpenChapter (Name Data : Type*) where
  zone : OpenChapterZone Name Data
  contents : Name → Option Data

namespace TrackedOpenChapter

variable {Name Data : Type*} (chapterIndexBytes : Name → ℕ)

/-- A zone made by `makeOpenChapter` and reset, standing for no names; when
`bounded`, the table size `capacity * openChapterLoadRatio` of the geometry is
at most `2 ^ 30`. -/
def OpenChapterStart [Inhabited Name] [Inhabited Data] (bounded : Bool) (t : TrackedOpenChapter Name Data) :
    Prop :=
  ∃ geometry zoneCount, ∃ made : OpenChapterZone Name Data, makeOpenChapter geometry zoneCount = .ok made ∧
    (bounded = true → geometry.recordsPerChapter / zoneCount * geometry.openChapterLoadRatio ≤ 2 ^ 30) ∧
    t.zone = resetOpenChapter made ∧ t.contents = fun _ => none

/-- The calls that change a zone, when they return: a put, which changes the
contents when it succeeds; a remove, which changes them when it removes; and a
reset. A search changes nothing. -/
inductive OpenChapterStep [DecidableEq Name] [Inhabited Name] [Inhabited Data] :
    TrackedOpenChapter Name Data → TrackedOpenChapter Name Data → Prop
  | put (t : TrackedOpenChapter Name Data) (name : Name) (metadata : Data) {zone : OpenChapterZone Name Data}
      {result : Except UdsError ℕ}
      (hput : putOpenChapter chapterIndexBytes t.zone name metadata = some (zone, result)) :
      OpenChapterStep t
        ⟨zone, if result.isOk then Function.update t.contents name (some metadata) else t.contents⟩
  | remove (t : TrackedOpenChapter Name Data) (name : Name) {zone : OpenChapterZone Name Data} {removed : Bool}
      (hremove : removeFromOpenChapter chapterIndexBytes t.zone name = some (zone, removed)) :
      OpenChapterStep t ⟨zone, if removed then Function.update t.contents name none else t.contents⟩
  | reset (t : TrackedOpenChapter Name Data) :
      OpenChapterStep t ⟨resetOpenChapter t.zone, fun _ => none⟩

/-- The zone is consistent, and its live records are the contents. -/
structure Invariant (t : TrackedOpenChapter Name Data) : Prop where
  consistent : t.zone.Consistent chapterIndexBytes
  contents_eq : ∀ name data, t.contents name = some data ↔
    ∃ r, t.zone.Live r ∧ t.zone.records r = (name, data)

namespace Invariant

variable {chapterIndexBytes} {t : TrackedOpenChapter Name Data}

/-- A name stands for nothing exactly when no live record has it. -/
theorem contents_eq_none (h : t.Invariant chapterIndexBytes) (name : Name) :
    t.contents name = none ↔ ∀ r, t.zone.Live r → (t.zone.records r).1 ≠ name := by
  constructor
  · intro hnone r hlive hname
    have := (h.contents_eq name (t.zone.records r).2).mpr ⟨r, hlive, by rw [← hname]⟩
    rw [hnone] at this
    cases this
  · intro habsent
    by_contra hsome
    obtain ⟨data, hdata⟩ := Option.ne_none_iff_exists'.mp hsome
    obtain ⟨r, hlive, hrecord⟩ := (h.contents_eq name data).mp hdata
    exact habsent r hlive (by rw [hrecord])

theorem contents_of_live (h : t.Invariant chapterIndexBytes) {r : ℕ} (hlive : t.zone.Live r) :
    t.contents (t.zone.records r).1 = some (t.zone.records r).2 :=
  (h.contents_eq _ _).mpr ⟨r, hlive, rfl⟩

/-- A name that stands for something has a live record. -/
theorem exists_live (h : t.Invariant chapterIndexBytes) {name : Name} (hpresent : t.contents name ≠ none) :
    ∃ r, t.zone.Live r ∧ (t.zone.records r).1 = name := by
  obtain ⟨data, hdata⟩ := Option.ne_none_iff_exists'.mp hpresent
  obtain ⟨r, hlive, hrecord⟩ := (h.contents_eq name data).mp hdata
  exact ⟨r, hlive, by rw [hrecord]⟩

variable [DecidableEq Name]

/-- `searchOpenChapter` answers the contents. -/
theorem searchOpenChapter_eq (h : t.Invariant chapterIndexBytes) (name : Name) :
    searchOpenChapter chapterIndexBytes t.zone name = some (t.contents name) := by
  by_cases hpresent : t.contents name = none
  · obtain ⟨j, -, -, hprobe⟩ := h.consistent.probe_of_absent ((h.contents_eq_none name).mp hpresent)
    rw [searchOpenChapter_of_probe hprobe, hpresent, if_pos rfl]
  · obtain ⟨r, hlive, rfl⟩ := h.exists_live hpresent
    obtain ⟨slot, hprobe⟩ := h.consistent.probe_of_live hlive
    rw [searchOpenChapter_of_probe hprobe, h.contents_of_live hlive, if_neg (by have := hlive.1; omega)]

/-- A put of a name that stands for something finds its live record and sets
its metadata. -/
theorem putOpenChapter_of_present (h : t.Invariant chapterIndexBytes) {r : ℕ} (hlive : t.zone.Live r)
    (metadata : Data) :
    putOpenChapter chapterIndexBytes t.zone (t.zone.records r).1 metadata =
      some (t.zone.setMetadata r metadata, .ok (t.zone.capacity - t.zone.size)) := by
  obtain ⟨slot, hprobe⟩ := h.consistent.probe_of_live hlive
  rw [putOpenChapter_of_probe hprobe, if_pos (by have := hlive.1; omega)]

/-- A put of a name that stands for nothing adds a record in the empty slot its
probe stops at, unless the zone is full. -/
theorem putOpenChapter_of_absent (h : t.Invariant chapterIndexBytes) {name : Name}
    (habsent : t.contents name = none) (metadata : Data) :
    ∃ j, (∀ j' < j, ¬ t.zone.StopsAt chapterIndexBytes name j') ∧
      (t.zone.slots (t.zone.probePosition chapterIndexBytes name j)).recordNumber = 0 ∧
      putOpenChapter chapterIndexBytes t.zone name metadata =
        some (if t.zone.capacity ≤ t.zone.size then (t.zone, .error .volumeOverflow)
          else (t.zone.addRecord (t.zone.probePosition chapterIndexBytes name j) name metadata,
            .ok (t.zone.capacity - (t.zone.size + 1)))) := by
  obtain ⟨j, hfirst, hfree, hprobe⟩ := h.consistent.probe_of_absent ((h.contents_eq_none name).mp habsent)
  exact ⟨j, hfirst, hfree, by rw [putOpenChapter_of_probe hprobe, if_neg (by simp)]⟩

/-- Setting the metadata of the live record of a name makes the name stand for
the new metadata. -/
theorem setMetadata (h : t.Invariant chapterIndexBytes) {r : ℕ} (hlive : t.zone.Live r) (metadata : Data) :
    Invariant chapterIndexBytes
      ⟨t.zone.setMetadata r metadata, Function.update t.contents (t.zone.records r).1 (some metadata)⟩ := by
  refine ⟨h.consistent.setMetadata r metadata, fun name data => ?_⟩
  have hlive_eq : (t.zone.setMetadata r metadata).Live = t.zone.Live := rfl
  simp only [hlive_eq, setMetadata_records]
  rw [Function.update_apply]
  split_ifs with hname
  · subst hname
    constructor
    · rintro ⟨⟩
      exact ⟨r, hlive, by rw [if_pos rfl]⟩
    · rintro ⟨r', hlive', hrecord⟩
      split_ifs at hrecord with hr'
      · obtain ⟨-, rfl⟩ := Prod.mk.inj hrecord
        rfl
      · exact absurd (h.consistent.unique r' r hlive' hlive (by rw [hrecord])) hr'
  · rw [h.contents_eq]
    constructor
    · rintro ⟨r', hlive', hrecord⟩
      refine ⟨r', hlive', ?_⟩
      rw [if_neg fun hr' => hname (by rw [← hr', hrecord])]
      exact hrecord
    · rintro ⟨r', hlive', hrecord⟩
      split_ifs at hrecord with hr'
      · exact absurd (Prod.mk.inj hrecord).1.symm hname
      · exact ⟨r', hlive', hrecord⟩

/-- Adding a record for a name that stood for nothing makes it stand for the
record's metadata. -/
theorem addRecord (h : t.Invariant chapterIndexBytes) {name : Name} {j : ℕ}
    (hfirst : ∀ j' < j, ¬ t.zone.StopsAt chapterIndexBytes name j')
    (hfree : (t.zone.slots (t.zone.probePosition chapterIndexBytes name j)).recordNumber = 0)
    (hroom : t.zone.size < t.zone.capacity) (habsent : t.contents name = none) (metadata : Data) :
    Invariant chapterIndexBytes
      ⟨t.zone.addRecord (t.zone.probePosition chapterIndexBytes name j) name metadata,
        Function.update t.contents name (some metadata)⟩ := by
  have hnone := (h.contents_eq_none name).mp habsent
  refine ⟨h.consistent.addRecord hfirst hfree hroom hnone metadata, fun other data => ?_⟩
  simp only [h.consistent.addRecord_live hroom, addRecord_records]
  rw [Function.update_apply]
  split_ifs with hother
  · subst hother
    constructor
    · rintro ⟨⟩
      exact ⟨t.zone.size + 1, Or.inr rfl, by rw [if_pos rfl]⟩
    · rintro ⟨r, hr | rfl, hrecord⟩
      · rw [if_neg (by have := hr.2.1; omega)] at hrecord
        exact absurd (by rw [hrecord]) (hnone r hr)
      · rw [if_pos rfl] at hrecord
        obtain ⟨-, rfl⟩ := Prod.mk.inj hrecord
        rfl
  · rw [h.contents_eq]
    constructor
    · rintro ⟨r, hr, hrecord⟩
      exact ⟨r, Or.inl hr, by rw [if_neg (by have := hr.2.1; omega)]; exact hrecord⟩
    · rintro ⟨r, hr | rfl, hrecord⟩
      · rw [if_neg (by have := hr.2.1; omega)] at hrecord
        exact ⟨r, hr, hrecord⟩
      · rw [if_pos rfl] at hrecord
        exact absurd (Prod.ext_iff.mp hrecord).1.symm hother

/-- Flagging the live record of a name deleted makes it stand for nothing. -/
theorem markDeleted (h : t.Invariant chapterIndexBytes) {r : ℕ} (hlive : t.zone.Live r) :
    Invariant chapterIndexBytes ⟨t.zone.markDeleted r, Function.update t.contents (t.zone.records r).1 none⟩ := by
  refine ⟨h.consistent.markDeleted hlive, fun name data => ?_⟩
  simp only [markDeleted_live, markDeleted_records]
  rw [Function.update_apply]
  split_ifs with hname
  · subst hname
    constructor
    · rintro ⟨⟩
    · rintro ⟨r', ⟨hlive', hne⟩, hrecord⟩
      exact absurd (h.consistent.unique r' r hlive' hlive (by rw [hrecord])) hne
  · rw [h.contents_eq]
    constructor
    · rintro ⟨r', hlive', hrecord⟩
      exact ⟨r', ⟨hlive', fun hr' => hname (by rw [← hr', hrecord])⟩, hrecord⟩
    · rintro ⟨r', ⟨hlive', -⟩, hrecord⟩
      exact ⟨r', hlive', hrecord⟩

omit [DecidableEq Name] in
/-- A reset zone stands for nothing. -/
theorem resetOpenChapter [Inhabited Name] [Inhabited Data] (h : t.Invariant chapterIndexBytes) :
    Invariant chapterIndexBytes (⟨Vdo.Uds.resetOpenChapter t.zone, fun _ => none⟩ : TrackedOpenChapter Name Data) := by
  refine ⟨h.consistent.resetOpenChapter, fun name data => ⟨fun hnone => absurd hnone (by simp), ?_⟩⟩
  rintro ⟨r, hlive, -⟩
  have := hlive.1
  have := hlive.2.1
  rw [resetOpenChapter_size] at this
  omega

/-- Every call that returns keeps the invariant. -/
theorem step [Inhabited Name] [Inhabited Data] (h : t.Invariant chapterIndexBytes)
    {t' : TrackedOpenChapter Name Data} (hstep : OpenChapterStep chapterIndexBytes t t') :
    t'.Invariant chapterIndexBytes := by
  cases hstep with
  | put name metadata hput =>
    by_cases hpresent : t.contents name = none
    · obtain ⟨j, hfirst, hfree, hprobe⟩ := h.putOpenChapter_of_absent hpresent metadata
      rw [hput] at hprobe
      split_ifs at hprobe with hfull
      · cases hprobe
        exact h
      · cases hprobe
        exact h.addRecord hfirst hfree (Nat.lt_of_not_le hfull) hpresent metadata
    · obtain ⟨r, hlive, rfl⟩ := h.exists_live hpresent
      rw [h.putOpenChapter_of_present hlive metadata] at hput
      cases hput
      exact h.setMetadata hlive metadata
  | remove name hremove =>
    by_cases hpresent : t.contents name = none
    · obtain ⟨j, -, -, hprobe⟩ := h.consistent.probe_of_absent ((h.contents_eq_none name).mp hpresent)
      rw [removeFromOpenChapter_of_probe hprobe, if_pos rfl] at hremove
      cases hremove
      exact h
    · obtain ⟨r, hlive, rfl⟩ := h.exists_live hpresent
      obtain ⟨slot, hprobe⟩ := h.consistent.probe_of_live hlive
      rw [removeFromOpenChapter_of_probe hprobe, if_neg (by have := hlive.1; omega)] at hremove
      cases hremove
      exact h.markDeleted hlive
  | reset => exact h.resetOpenChapter

omit [DecidableEq Name] in
/-- A zone `makeOpenChapter` made for a geometry whose table size is at most
`2 ^ 30` is consistent once reset: its table is a power of two at least
`capacity * openChapterLoadRatio`, which is at least twice the capacity. -/
theorem of_start [Inhabited Name] [Inhabited Data] (hstart : OpenChapterStart true t) :
    t.Invariant chapterIndexBytes := by
  obtain ⟨geometry, zoneCount, made, hmake, hbound, hzone, hcontents⟩ := hstart
  obtain ⟨hzones, hratio, hmax, hfew, hcapacity, hslots⟩ := makeOpenChapter_eq_ok hmake
  have hcap_pos : 0 < geometry.recordsPerChapter / zoneCount := Nat.div_pos hfew hzones
  have htwice : 2 * (geometry.recordsPerChapter / zoneCount) ≤
      geometry.recordsPerChapter / zoneCount * geometry.openChapterLoadRatio := by
    rw [Nat.mul_comm]
    exact Nat.mul_le_mul_left _ hratio
  obtain ⟨k, hpow, hge⟩ := nextPowerOfTwo_spec (by omega) (hbound rfl)
  have hslotCount : made.slotCount = 2 ^ k := hslots.trans hpow
  rw [← hcapacity] at hcap_pos htwice hge
  have hconsistent : (Vdo.Uds.resetOpenChapter made).Consistent chapterIndexBytes :=
    consistent_resetOpenChapter ⟨k, hslotCount⟩ hcap_pos (htwice.trans (hge.trans hslotCount.symm.le))
      (hcapacity ▸ (Nat.div_le_self _ _).trans hmax)
  refine ⟨hzone ▸ hconsistent, fun name data => ?_⟩
  rw [hcontents, hzone]
  constructor
  · intro hnone
    cases hnone
  · rintro ⟨r, hlive, -⟩
    have := hlive.1
    have := hlive.2.1
    rw [resetOpenChapter_size] at this
    omega

/-- A put of a name that stands for nothing fails with `UDS_VOLUME_OVERFLOW`
exactly when the zone is full, and otherwise takes one more record. -/
theorem putOpenChapter_absent_spec (h : t.Invariant chapterIndexBytes) {name : Name}
    (habsent : t.contents name = none) (metadata : Data) :
    ((∃ zone, putOpenChapter chapterIndexBytes t.zone name metadata = some (zone, .error .volumeOverflow)) ↔
        t.zone.size = t.zone.capacity) ∧
      (t.zone.size ≠ t.zone.capacity → ∃ zone, putOpenChapter chapterIndexBytes t.zone name metadata =
        some (zone, .ok (t.zone.capacity - zone.size)) ∧ zone.size = t.zone.size + 1) := by
  obtain ⟨j, -, -, hput⟩ := h.putOpenChapter_of_absent habsent metadata
  have hle := h.consistent.size_le
  refine ⟨⟨fun ⟨zone, hzone⟩ => ?_, fun hfull => ⟨t.zone, ?_⟩⟩,
    fun hroom => ⟨t.zone.addRecord (t.zone.probePosition chapterIndexBytes name j) name metadata, ?_,
      addRecord_size _ _ _ _⟩⟩
  · rw [hput] at hzone
    split_ifs at hzone with hfull
    · omega
    · cases hzone
  · rw [hput, if_pos (by omega)]
  · rw [hput, if_neg (by omega), addRecord_size]

/-- A put of a name that stands for something consumes no capacity. -/
theorem putOpenChapter_present_spec (h : t.Invariant chapterIndexBytes) {name : Name}
    (hpresent : t.contents name ≠ none) (metadata : Data) :
    ∃ zone, putOpenChapter chapterIndexBytes t.zone name metadata =
      some (zone, .ok (t.zone.capacity - t.zone.size)) ∧ zone.size = t.zone.size := by
  obtain ⟨r, hlive, rfl⟩ := h.exists_live hpresent
  exact ⟨_, h.putOpenChapter_of_present hlive metadata, rfl⟩

/-- The records not deleted are the names that stand for something, one each. -/
theorem openChapterSize_eq_ncard (h : t.Invariant chapterIndexBytes) :
    openChapterSize t.zone = Set.ncard {name | t.contents name ≠ none} := by
  let live := (Finset.Icc 1 t.zone.size).filter fun i => ¬ (t.zone.slots i).recordDeleted = true
  have hmem_live : ∀ r, r ∈ live ↔ t.zone.Live r := fun r => by
    simp only [live, Finset.mem_filter, Finset.mem_Icc, Bool.not_eq_true, Live, and_assoc]
  have hnames : {name | t.contents name ≠ none} = ↑(live.image fun r => (t.zone.records r).1) := by
    ext name
    simp only [Set.mem_ofPred_eq, Finset.coe_image, Set.mem_image, Finset.mem_coe, hmem_live]
    constructor
    · exact h.exists_live
    · rintro ⟨r, hlive, rfl⟩
      rw [h.contents_of_live hlive]
      exact Option.some_ne_none _
  have hinj : Set.InjOn (fun r => (t.zone.records r).1) ↑live := fun r hr r' hr' hname =>
    h.consistent.unique r r' ((hmem_live r).mp hr) ((hmem_live r').mp hr') hname
  have hcount : t.zone.deleted + live.card = t.zone.size := by
    have hsplit := @countWhere_add_countWhere_not Bool (Finset.Icc 1 t.zone.size) (· = true) _
      fun i => (t.zone.slots i).recordDeleted
    rw [h.consistent.deleted_eq, Nat.card_Icc, Nat.add_sub_cancel] at hsplit
    exact hsplit
  rw [hnames, Set.ncard_coe_finset, Finset.card_image_of_injOn hinj, openChapterSize]
  omega

/-- The invariant holds over every run of a bounded geometry. -/
theorem of_reachable [Inhabited Name] [Inhabited Data]
    (h : Reachability.Reachable (OpenChapterStart true) (OpenChapterStep chapterIndexBytes) t) :
    t.Invariant chapterIndexBytes :=
  @Reachability.Reachable.invariant _ _ _ (Invariant chapterIndexBytes) (fun _ hstart => of_start hstart)
    (fun _ _ hinv hstep => hinv.step hstep) t h

end Invariant

/-- The open chapter zone over every run of puts, removes and resets from a
zone `makeOpenChapter` made for a geometry whose table size
`capacity * openChapterLoadRatio` is at most `2 ^ 30`: its table is a power of
two at least twice its capacity; (a) every probe stops within `slotCount`
probes, at a slot of the table, and reads no slot or record outside the zone;
(b) a search finds the metadata of a name's last successful put unless a
successful remove came after it; (c) a put of an absent name fails with
`UDS_VOLUME_OVERFLOW` exactly when `size = capacity`, and otherwise answers the
capacity left after it, while a put of a present name consumes none; (d)
`openChapterSize` is the number of names present, and the deleted flags are
`deleted` flags on the record numbers `1..size`. -/
theorem openChapter_refines_bounded_map [DecidableEq Name] [Inhabited Name] [Inhabited Data]
    {t : TrackedOpenChapter Name Data}
    (h : Reachability.Reachable (OpenChapterStart true) (OpenChapterStep chapterIndexBytes) t) :
    ((∃ k, t.zone.slotCount = 2 ^ k) ∧ 2 * t.zone.capacity ≤ t.zone.slotCount) ∧
    (∀ name, ∃ probe, probeChapterSlots chapterIndexBytes t.zone name = some probe ∧
      probe.1 < t.zone.slotCount ∧
      ∀ other : OpenChapterZone Name Data, other.slotCount = t.zone.slotCount →
        (∀ s < t.zone.slotCount, other.slots s = t.zone.slots s) →
        (∀ r ≤ t.zone.capacity, other.records r = t.zone.records r) →
        probeChapterSlots chapterIndexBytes other name = some probe) ∧
    (∀ name, searchOpenChapter chapterIndexBytes t.zone name = some (t.contents name)) ∧
    (∀ name metadata, t.contents name = none →
      ((∃ zone, putOpenChapter chapterIndexBytes t.zone name metadata = some (zone, .error .volumeOverflow)) ↔
          t.zone.size = t.zone.capacity) ∧
        (t.zone.size ≠ t.zone.capacity → ∃ zone, putOpenChapter chapterIndexBytes t.zone name metadata =
          some (zone, .ok (t.zone.capacity - zone.size)) ∧ zone.size = t.zone.size + 1)) ∧
    (∀ name metadata, t.contents name ≠ none → ∃ zone, putOpenChapter chapterIndexBytes t.zone name metadata =
      some (zone, .ok (t.zone.capacity - t.zone.size)) ∧ zone.size = t.zone.size) ∧
    openChapterSize t.zone = Set.ncard {name | t.contents name ≠ none} ∧
    countWhere (Finset.Icc 1 t.zone.size) (· = true) (fun i => (t.zone.slots i).recordDeleted) = t.zone.deleted ∧
    ∀ i < t.zone.slotCount, (t.zone.slots i).recordDeleted = true → 1 ≤ i ∧ i ≤ t.zone.size := by
  have hinv := Invariant.of_reachable h
  have hzone := hinv.consistent
  refine ⟨⟨hzone.slotCount_pow, hzone.two_mul_capacity_le⟩, fun name => ?_, hinv.searchOpenChapter_eq,
    fun name metadata habsent => hinv.putOpenChapter_absent_spec habsent metadata,
    fun name metadata hpresent => hinv.putOpenChapter_present_spec hpresent metadata,
    hinv.openChapterSize_eq_ncard, hzone.deleted_eq, hzone.deleted_mem⟩
  obtain ⟨j, -, -, -, hprobe⟩ := hzone.probeChapterSlots_spec name
  exact ⟨_, hprobe, hzone.probePosition_lt name j,
    fun other hcount hslots hrecords => (hzone.probeChapterSlots_congr hcount hslots hrecords name).trans hprobe⟩

/-- A zone of four records in a table of eight slots, reset. -/
def freshOpenChapter : TrackedOpenChapter ℕ ℕ :=
  ⟨resetOpenChapter
    { capacity := 4, size := 0, deleted := 0, records := fun _ => default, slotCount := 8,
      slots := fun _ => Slot.empty }, fun _ => none⟩

theorem freshOpenChapter_start : OpenChapterStart true freshOpenChapter :=
  ⟨⟨4, 1, 4, 2⟩, 1, _, rfl, fun _ => by decide, rfl, rfl⟩

theorem openChapter_refines_bounded_map_fresh :
    ((∃ k, freshOpenChapter.zone.slotCount = 2 ^ k) ∧
      2 * freshOpenChapter.zone.capacity ≤ freshOpenChapter.zone.slotCount) ∧
    (∀ name, ∃ probe, probeChapterSlots id freshOpenChapter.zone name = some probe ∧
      probe.1 < freshOpenChapter.zone.slotCount ∧
      ∀ other : OpenChapterZone ℕ ℕ, other.slotCount = freshOpenChapter.zone.slotCount →
        (∀ s < freshOpenChapter.zone.slotCount, other.slots s = freshOpenChapter.zone.slots s) →
        (∀ r ≤ freshOpenChapter.zone.capacity, other.records r = freshOpenChapter.zone.records r) →
        probeChapterSlots id other name = some probe) ∧
    (∀ name, searchOpenChapter id freshOpenChapter.zone name = some (freshOpenChapter.contents name)) ∧
    (∀ name metadata, freshOpenChapter.contents name = none →
      ((∃ zone, putOpenChapter id freshOpenChapter.zone name metadata = some (zone, .error .volumeOverflow)) ↔
          freshOpenChapter.zone.size = freshOpenChapter.zone.capacity) ∧
        (freshOpenChapter.zone.size ≠ freshOpenChapter.zone.capacity →
          ∃ zone, putOpenChapter id freshOpenChapter.zone name metadata =
            some (zone, .ok (freshOpenChapter.zone.capacity - zone.size)) ∧
            zone.size = freshOpenChapter.zone.size + 1)) ∧
    (∀ name metadata, freshOpenChapter.contents name ≠ none →
      ∃ zone, putOpenChapter id freshOpenChapter.zone name metadata =
        some (zone, .ok (freshOpenChapter.zone.capacity - freshOpenChapter.zone.size)) ∧
        zone.size = freshOpenChapter.zone.size) ∧
    openChapterSize freshOpenChapter.zone = Set.ncard {name | freshOpenChapter.contents name ≠ none} ∧
    countWhere (Finset.Icc 1 freshOpenChapter.zone.size) (· = true)
      (fun i => (freshOpenChapter.zone.slots i).recordDeleted) = freshOpenChapter.zone.deleted ∧
    ∀ i < freshOpenChapter.zone.slotCount, (freshOpenChapter.zone.slots i).recordDeleted = true →
      1 ≤ i ∧ i ≤ freshOpenChapter.zone.size :=
  openChapter_refines_bounded_map id (Reachability.Reachable.init freshOpenChapter_start)

/-! ## A geometry whose table wraps -/

/-- With `capacity * openChapterLoadRatio = 2 ^ 32 + 1`, `nextPowerOfTwo` sees
`2 ^ 32` as the `unsigned int` zero and makes a table of one slot: a zone of
641 records, reset. -/
def wrappedOpenChapter : TrackedOpenChapter ℕ ℕ :=
  ⟨resetOpenChapter
    { capacity := 641, size := 0, deleted := 0, records := fun _ => default, slotCount := 1,
      slots := fun _ => Slot.empty }, fun _ => none⟩

theorem wrappedOpenChapter_start : OpenChapterStart false wrappedOpenChapter :=
  ⟨⟨641, 1, 641, 6700417⟩, 1, _, rfl, fun hbounded => absurd hbounded Bool.false_ne_true, rfl, rfl⟩

/-- A probe in a table of one slot, holding a record of another name, never
stops. -/
theorem probeChapterSlotsFrom_single_slot [DecidableEq Name] {zone : OpenChapterZone Name Data}
    (hcount : zone.slotCount = 1) {name : Name}
    (hoccupied : (zone.slots 0).recordNumber ≠ 0)
    (hother : (zone.records (zone.slots 0).recordNumber).1 ≠ name) :
    ∀ fuel probeAttempts, 1 ≤ probeAttempts → probeChapterSlotsFrom zone name 0 probeAttempts fuel = none := by
  intro fuel
  induction fuel with
  | zero => intro _ _; rfl
  | succ fuel ih =>
    intro probeAttempts hattempts
    rw [probeChapterSlotsFrom_succ, if_neg hoccupied, if_neg fun hboth => hother hboth.1, hcount,
      if_pos (by omega), Nat.mod_one]
    exact ih (probeAttempts + 1) (by omega)

end TrackedOpenChapter

end Vdo.Uds
