import Vdo.Lib.Reachability
import Vdo.Lib.IndexCount

/-!
# The chapter writer hand-off

Every zone thread closes its chapters by `openNextChapter` (`indexZone.c`):
`swapOpenChapter` waits in `finishPreviousChapter` (`chapterWriter.c`) until
the index's `newestVirtualChapter` has reached the zone's own, swaps the zone's
open and writing chapters, and the zone advances its chapter number, resets
its new open chapter and submits the writing one by `startClosingChapter`. The
writer thread (`closeChapters`) waits until `zonesToWrite` reaches the zone
count, calls `closeOpenChapter` out of the mutex, and then, under the mutex,
advances `newestVirtualChapter` (`advanceActiveChapters`), stores the result
and clears `zonesToWrite`.

Each critical section under the writer's mutex is one step, and a wait on the
condition variable ends in a step enabled when the condition it waits for
holds. A zone's two `OpenChapterZone`s are named by a `Bool`: which of them is
open. As ghost state the steps record what each zone submitted for each
virtual chapter, and each call of `closeOpenChapter` with the chapters it
reads. The zone's other work in `openNextChapter` (reaping, checkpoints,
`announceChapterClosed`, `forgetChapter`) and the writer's `stop` flag are not
part of the hand-off and are left out; so are the errors of
`reapOldestChapter` and `processCheckpointing`, which end `openNextChapter`
between the swap and `startClosingChapter` and leave the zone there for good.

`HandOff` is the invariant of every reachable state; `chapterWriter_hand_off`
draws the protocol's guarantees from it.
-/

namespace Vdo.Uds

open IndexCount

/-- Where a zone thread is in closing its chapter. -/
inductive ZonePhase where
  /-- Adding records to its open chapter. -/
  | filling
  /-- In `finishPreviousChapter`, waiting for `newestVirtualChapter`. -/
  | waiting
  /-- Past `swapOpenChapter` and `resetOpenChapter`, before `startClosingChapter`. -/
  | closing
  deriving DecidableEq, Repr

/-- A zone thread: its `newestVirtualChapter`, which of its two chapters is
open, and where it is. -/
structure ZoneThread where
  newestVirtualChapter : ℕ
  openChapter : Bool
  phase : ZonePhase
  deriving DecidableEq, Repr

/-- The zone's `writingChapter`: the one of its two chapters not open. -/
def ZoneThread.writingChapter (zone : ZoneThread) : Bool := !zone.openChapter

/-- The writer, the index's chapter number and the zone threads. -/
structure ChapterWriterState where
  /-- `index->newestVirtualChapter`. -/
  newestVirtualChapter : ℕ
  /-- `writer->zonesToWrite`. -/
  zonesToWrite : ℕ
  /-- `writer->chapters`: the chapter each zone submitted. -/
  chapters : ℕ → Bool
  /-- Whether `writer->result` is `UDS_SUCCESS`. -/
  resultOk : Bool
  /-- The writer thread is in `closeOpenChapter`, out of the mutex. -/
  writing : Bool
  zones : ℕ → ZoneThread
  /-- Ghost: the chapter each zone submitted for each virtual chapter. -/
  submitted : ℕ → ℕ → Option Bool
  /-- Ghost: the virtual chapters `closeOpenChapter` was called for, in order,
  with the chapters it read. -/
  closed : List (ℕ × (ℕ → Bool))

/-- A writer made by `makeChapterWriter` for zones that all start filling the
open chapter `first`, the index's `newestVirtualChapter`. -/
def ChapterWriterStart (first : ℕ) (s : ChapterWriterState) : Prop :=
  s.newestVirtualChapter = first ∧ s.zonesToWrite = 0 ∧ s.resultOk = true ∧ s.writing = false ∧
    (∀ z, (s.zones z).newestVirtualChapter = first ∧ (s.zones z).phase = .filling) ∧
    (∀ z c, s.submitted z c = none) ∧ s.closed = []

/-! ## The steps -/

namespace ChapterWriterState

/-- Zone `z` moves to `phase`: into the wait of `finishPreviousChapter`, or out
of it when `openNextChapter` fails. -/
def setZonePhase (s : ChapterWriterState) (z : ℕ) (phase : ZonePhase) : ChapterWriterState :=
  { s with zones := Function.update s.zones z { s.zones z with phase := phase } }

/-- `swapOpenChapter` of zone `z` once its wait is over, with the rest of
`openNextChapter` up to `startClosingChapter`: the zone's chapter number
advances and its new open chapter is reset. -/
def swapOpenChapter (s : ChapterWriterState) (z : ℕ) : ChapterWriterState :=
  { s with
    zones := Function.update s.zones z
      { newestVirtualChapter := (s.zones z).newestVirtualChapter + 1
        openChapter := (s.zones z).writingChapter
        phase := .closing } }

/-- `startClosingChapter` of zone `z`: count the zone and hand its writing
chapter, for the chapter it closed, to the writer. -/
def startClosingChapter (s : ChapterWriterState) (z : ℕ) : ChapterWriterState :=
  { s with
    zonesToWrite := s.zonesToWrite + 1
    chapters := Function.update s.chapters z (s.zones z).writingChapter
    zones := Function.update s.zones z { s.zones z with phase := .filling }
    submitted := Function.update s.submitted z
      (Function.update (s.submitted z) ((s.zones z).newestVirtualChapter - 1)
        (some (s.zones z).writingChapter)) }

/-- The writer leaves the mutex and calls `closeOpenChapter` for
`newestVirtualChapter` with the submitted chapters. -/
def closeOpenChapter (s : ChapterWriterState) : ChapterWriterState :=
  { s with writing := true, closed := s.closed ++ [(s.newestVirtualChapter, s.chapters)] }

/-- Back under the mutex: `advanceActiveChapters`, the result of the write,
and `zonesToWrite = 0`. -/
def advanceActiveChapters (s : ChapterWriterState) (resultOk : Bool) : ChapterWriterState :=
  { s with
    writing := false
    newestVirtualChapter := s.newestVirtualChapter + 1
    resultOk := resultOk
    zonesToWrite := 0 }

end ChapterWriterState

/-- The steps of the zone threads below `zoneCount` and of the writer thread. -/
inductive ChapterWriterStep (zoneCount : ℕ) : ChapterWriterState → ChapterWriterState → Prop
  /-- The zone's open chapter is full: `openNextChapter` enters
  `finishPreviousChapter`. -/
  | openNextChapter (s : ChapterWriterState) {z : ℕ} (hz : z < zoneCount)
      (hphase : (s.zones z).phase = .filling) :
      ChapterWriterStep zoneCount s (s.setZonePhase z .waiting)
  /-- `finishPreviousChapter` returns success once `newestVirtualChapter` has
  reached the zone's. -/
  | swapOpenChapter (s : ChapterWriterState) {z : ℕ} (hz : z < zoneCount)
      (hphase : (s.zones z).phase = .waiting)
      (hreached : (s.zones z).newestVirtualChapter ≤ s.newestVirtualChapter) (hok : s.resultOk = true) :
      ChapterWriterStep zoneCount s (s.swapOpenChapter z)
  /-- `finishPreviousChapter` returns the writer's error: `openNextChapter`
  fails with nothing swapped. -/
  | finishPreviousChapterFails (s : ChapterWriterState) {z : ℕ} (hz : z < zoneCount)
      (hphase : (s.zones z).phase = .waiting)
      (hreached : (s.zones z).newestVirtualChapter ≤ s.newestVirtualChapter) (hfailed : s.resultOk = false) :
      ChapterWriterStep zoneCount s (s.setZonePhase z .filling)
  | startClosingChapter (s : ChapterWriterState) {z : ℕ} (hz : z < zoneCount)
      (hphase : (s.zones z).phase = .closing) :
      ChapterWriterStep zoneCount s (s.startClosingChapter z)
  /-- The writer's wait ends once `zonesToWrite` has reached the zone count. -/
  | closeOpenChapter (s : ChapterWriterState) (hidle : s.writing = false)
      (hzones : zoneCount ≤ s.zonesToWrite) :
      ChapterWriterStep zoneCount s s.closeOpenChapter
  | advanceActiveChapters (s : ChapterWriterState) (hwriting : s.writing = true) (resultOk : Bool) :
      ChapterWriterStep zoneCount s (s.advanceActiveChapters resultOk)

/-! ## The invariant -/

/-- The zone has handed chapter `chapter` to the writer: it is past it, and
not between its swap and `startClosingChapter`. -/
def ZoneThread.Submitted (chapter : ℕ) (zone : ZoneThread) : Prop :=
  zone.newestVirtualChapter = chapter + 1 ∧ zone.phase ≠ .closing

instance (chapter : ℕ) : DecidablePred (ZoneThread.Submitted chapter) := fun zone =>
  inferInstanceAs (Decidable (zone.newestVirtualChapter = chapter + 1 ∧ zone.phase ≠ .closing))

/-- The chapters the zone has submitted are those before this one. -/
def ZoneThread.submittedUpTo (zone : ZoneThread) : ℕ :=
  if zone.phase = .closing then zone.newestVirtualChapter - 1 else zone.newestVirtualChapter

/-- The hand-off from the chapter `first` on, with `N` the index's
`newestVirtualChapter`: each zone is at `N` or has closed it, and is past it
while closing; `zonesToWrite` counts the zones that have submitted `N`, whose
writing chapters are in `writer->chapters`; while the writer writes, every
zone has submitted; each zone has submitted exactly the chapters from `first`
before its own; `closeOpenChapter` was called once for each chapter from
`first` to `N`, the last while the writer writes, each time with the chapters
the zones submitted for it. -/
structure HandOff (zoneCount first : ℕ) (s : ChapterWriterState) : Prop where
  first_le : first ≤ s.newestVirtualChapter
  zone_newest : ∀ z < zoneCount, (s.zones z).newestVirtualChapter = s.newestVirtualChapter ∨
    (s.zones z).newestVirtualChapter = s.newestVirtualChapter + 1
  closing_newest : ∀ z < zoneCount, (s.zones z).phase = .closing →
    (s.zones z).newestVirtualChapter = s.newestVirtualChapter + 1
  zonesToWrite_eq : s.zonesToWrite =
    countWhere (Finset.range zoneCount) (ZoneThread.Submitted s.newestVirtualChapter) s.zones
  chapters_eq : ∀ z < zoneCount, (s.zones z).Submitted s.newestVirtualChapter →
    s.chapters z = (s.zones z).writingChapter ∧ s.submitted z s.newestVirtualChapter = some (s.chapters z)
  writing_submitted : s.writing = true → ∀ z < zoneCount, (s.zones z).Submitted s.newestVirtualChapter
  writing_chapters : s.writing = true → s.closed.getLast? = some (s.newestVirtualChapter, s.chapters)
  submitted_iff : ∀ z < zoneCount, ∀ c, (s.submitted z c).isSome ↔ first ≤ c ∧ c < (s.zones z).submittedUpTo
  closed_chapters : s.closed.map Prod.fst =
    List.range' first (s.newestVirtualChapter - first + s.writing.toNat)
  closed_submitted : ∀ entry ∈ s.closed, ∀ z < zoneCount, s.submitted z entry.1 = some (entry.2 z)

namespace HandOff

variable {zoneCount first : ℕ} {s : ChapterWriterState}

theorem start (hstart : ChapterWriterStart first s) : HandOff zoneCount first s := by
  obtain ⟨hnewest, hzonesToWrite, -, hidle, hzones, hsubmitted, hclosed⟩ := hstart
  have hnone : ∀ z, ¬ (s.zones z).Submitted s.newestVirtualChapter := fun z hsub => by
    have := (hzones z).1
    have := hsub.1
    omega
  refine ⟨hnewest.ge, fun z _ => Or.inl (by rw [(hzones z).1, hnewest]), fun z _ hclosing => ?_, ?_,
    fun z _ hsub => absurd hsub (hnone z), fun hwriting => ?_, fun hwriting => ?_, fun z _ c => ?_, ?_, ?_⟩
  · rw [(hzones z).2] at hclosing
    cases hclosing
  · rw [hzonesToWrite, countWhere_eq_zero fun z _ => hnone z]
  · rw [hidle] at hwriting
    cases hwriting
  · rw [hidle] at hwriting
    cases hwriting
  · rw [hsubmitted, ZoneThread.submittedUpTo, if_neg (by rw [(hzones z).2]; decide), (hzones z).1]
    simp only [Option.isSome_none, Bool.false_eq_true, false_iff, not_and, not_lt]
    exact id
  · rw [hclosed, hidle, hnewest, Nat.sub_self]
    rfl
  · rw [hclosed]
    intro entry hentry
    cases hentry

/-- A closed entry names a chapter before the writer's, unless it is the one
being written. -/
theorem closed_lt (h : HandOff zoneCount first s) (hidle : s.writing = false) :
    ∀ entry ∈ s.closed, entry.1 < s.newestVirtualChapter := by
  intro entry hentry
  have hmem : entry.1 ∈ List.range' first (s.newestVirtualChapter - first + s.writing.toNat) := by
    rw [← h.closed_chapters]
    exact List.mem_map_of_mem hentry
  rw [hidle, List.mem_range'_1] at hmem
  have := h.first_le
  simp only [Bool.toNat_false] at hmem
  omega

/-- A zone step that changes neither whether the zone has submitted the
writer's chapter nor what it submitted, keeps the zone at the writer's chapter
or past it, and keeps the chapters it has submitted. -/
theorem update_zone (h : HandOff zoneCount first s) {z : ℕ} (hz : z < zoneCount) (zone : ZoneThread)
    (hsubmitted : zone.Submitted s.newestVirtualChapter ↔ (s.zones z).Submitted s.newestVirtualChapter)
    (hwritingChapter : zone.Submitted s.newestVirtualChapter → zone.writingChapter = (s.zones z).writingChapter)
    (hupTo : zone.submittedUpTo = (s.zones z).submittedUpTo)
    (hnewest : zone.newestVirtualChapter = s.newestVirtualChapter ∨
      zone.newestVirtualChapter = s.newestVirtualChapter + 1)
    (hclosing : zone.phase = .closing → zone.newestVirtualChapter = s.newestVirtualChapter + 1) :
    HandOff zoneCount first { s with zones := Function.update s.zones z zone } := by
  have hsame : ∀ i ≠ z, Function.update s.zones z zone i = s.zones i := fun i hi =>
    Function.update_of_ne hi zone s.zones
  have hsubmitted' : ∀ i, (Function.update s.zones z zone i).Submitted s.newestVirtualChapter ↔
      (s.zones i).Submitted s.newestVirtualChapter := by
    intro i
    rcases eq_or_ne i z with rfl | hi
    · rw [Function.update_self, hsubmitted]
    · rw [hsame i hi]
  refine ⟨h.first_le, fun i hi => ?_, fun i hi hphase => ?_, ?_, fun i hi hsub => ?_,
    fun hwriting i hi => (hsubmitted' i).mpr (h.writing_submitted hwriting i hi), h.writing_chapters,
    fun i hi c => ?_, h.closed_chapters, h.closed_submitted⟩
  · dsimp only
    rcases eq_or_ne i z with rfl | hne
    · rw [Function.update_self]
      exact hnewest
    · rw [hsame i hne]
      exact h.zone_newest i hi
  · dsimp only at hphase ⊢
    rcases eq_or_ne i z with rfl | hne
    · rw [Function.update_self] at hphase ⊢
      exact hclosing hphase
    · rw [hsame i hne] at hphase ⊢
      exact h.closing_newest i hi hphase
  · dsimp only
    rw [h.zonesToWrite_eq]
    exact countWhere_congr_iff fun i _ => (hsubmitted' i).symm
  · dsimp only at hsub ⊢
    rcases eq_or_ne i z with rfl | hne
    · rw [Function.update_self] at hsub ⊢
      rw [hwritingChapter hsub]
      exact h.chapters_eq i hi (hsubmitted.mp hsub)
    · rw [hsame i hne] at hsub ⊢
      exact h.chapters_eq i hi hsub
  · dsimp only
    rcases eq_or_ne i z with rfl | hne
    · rw [Function.update_self, hupTo]
      exact h.submitted_iff i hi c
    · rw [hsame i hne]
      exact h.submitted_iff i hi c

/-- A zone entering or leaving its wait changes nothing the invariant reads. -/
theorem set_phase (h : HandOff zoneCount first s) {z : ℕ} (hz : z < zoneCount) {phase : ZonePhase}
    (hphase : phase ≠ .closing) (hold : (s.zones z).phase ≠ .closing) :
    HandOff zoneCount first (s.setZonePhase z phase) := by
  refine h.update_zone hz _ ?_ (fun _ => rfl) ?_ (h.zone_newest z hz) fun hclosing => absurd hclosing hphase
  · exact and_congr_right fun _ => ⟨fun _ => hold, fun _ => hphase⟩
  · rw [ZoneThread.submittedUpTo, ZoneThread.submittedUpTo, if_neg hphase, if_neg hold]

/-- The swap: the zone was at the writer's chapter, and now closes it. -/
theorem swapOpenChapter (h : HandOff zoneCount first s) {z : ℕ} (hz : z < zoneCount)
    (hphase : (s.zones z).phase = .waiting)
    (hreached : (s.zones z).newestVirtualChapter ≤ s.newestVirtualChapter) :
    HandOff zoneCount first (s.swapOpenChapter z) := by
  have hat : (s.zones z).newestVirtualChapter = s.newestVirtualChapter := by
    have := h.zone_newest z hz
    omega
  refine h.update_zone hz _ ⟨fun hsub => absurd rfl hsub.2, fun hsub => ?_⟩
    (fun hsub => absurd rfl hsub.2) ?_ (Or.inr (by rw [hat])) fun _ => by rw [hat]
  · have := hsub.1
    omega
  · rw [ZoneThread.submittedUpTo, ZoneThread.submittedUpTo, if_pos rfl, if_neg (by rw [hphase]; decide), hat,
      Nat.add_sub_cancel]

/-- `startClosingChapter`: the zone has submitted the writer's chapter, which
it had not before. -/
theorem startClosingChapter (h : HandOff zoneCount first s) {z : ℕ} (hz : z < zoneCount)
    (hphase : (s.zones z).phase = .closing) :
    HandOff zoneCount first (s.startClosingChapter z) := by
  unfold ChapterWriterState.startClosingChapter
  have hpast := h.closing_newest z hz hphase
  have hidle : s.writing = false := by
    by_contra hwriting
    exact (h.writing_submitted (by simpa using hwriting) z hz).2 hphase
  have hchapter : (s.zones z).newestVirtualChapter - 1 = s.newestVirtualChapter := by omega
  rw [hchapter]
  have hsame : ∀ i ≠ z, Function.update s.zones z { s.zones z with phase := .filling } i = s.zones i :=
    fun i hi => Function.update_of_ne hi _ s.zones
  have hnow : ({ s.zones z with phase := .filling } : ZoneThread).Submitted s.newestVirtualChapter :=
    ⟨hpast, by simp⟩
  have hcount := countWhere_update_of_mem (Finset.mem_range.mpr hz) { s.zones z with phase := .filling }
    (p := ZoneThread.Submitted s.newestVirtualChapter) (f := s.zones)
  dsimp only at hcount
  rw [if_neg fun hsub => hsub.2 hphase, if_pos hnow] at hcount
  refine ⟨h.first_le, fun i hi => ?_, fun i hi hclosing => ?_, ?_, fun i hi hsub => ?_,
    fun hwriting => absurd hwriting (by simp [hidle]),
    fun hwriting => absurd hwriting (by simp [hidle]), fun i hi c => ?_, h.closed_chapters,
    fun entry hentry i hi => ?_⟩
  · dsimp only
    rcases eq_or_ne i z with rfl | hne
    · rw [Function.update_self]
      exact Or.inr hpast
    · rw [hsame i hne]
      exact h.zone_newest i hi
  · dsimp only at hclosing ⊢
    rcases eq_or_ne i z with rfl | hne
    · rw [Function.update_self] at hclosing
      cases hclosing
    · rw [hsame i hne] at hclosing ⊢
      exact h.closing_newest i hi hclosing
  · dsimp only
    rw [h.zonesToWrite_eq]
    omega
  · dsimp only at hsub ⊢
    rcases eq_or_ne i z with rfl | hne
    · simp only [Function.update_self]
      exact ⟨rfl, trivial⟩
    · rw [hsame i hne] at hsub ⊢
      rw [Function.update_of_ne hne, Function.update_of_ne hne]
      exact h.chapters_eq i hi hsub
  · dsimp only
    rcases eq_or_ne i z with rfl | hne
    · have hold := h.submitted_iff i hi c
      rw [ZoneThread.submittedUpTo, if_pos hphase, hchapter] at hold
      rw [Function.update_self, Function.update_self, ZoneThread.submittedUpTo, if_neg (by simp), hpast,
        Function.update_apply]
      have := h.first_le
      split_ifs with hc
      · simp only [Option.isSome_some, true_iff]
        omega
      · rw [hold]
        omega
    · rw [hsame i hne, Function.update_of_ne hne]
      exact h.submitted_iff i hi c
  · have hlt := h.closed_lt hidle entry hentry
    dsimp only
    rcases eq_or_ne i z with rfl | hne
    · rw [Function.update_self, Function.update_of_ne hlt.ne]
      exact h.closed_submitted entry hentry i hi
    · rw [Function.update_of_ne hne]
      exact h.closed_submitted entry hentry i hi

/-- `closeOpenChapter` starts once every zone has submitted. -/
theorem closeOpenChapter (h : HandOff zoneCount first s) (hidle : s.writing = false)
    (hzones : zoneCount ≤ s.zonesToWrite) :
    HandOff zoneCount first s.closeOpenChapter := by
  unfold ChapterWriterState.closeOpenChapter
  have hall : ∀ z < zoneCount, (s.zones z).Submitted s.newestVirtualChapter := by
    intro z hz
    refine of_card_le_countWhere ?_ z (Finset.mem_range.mpr hz)
    rw [Finset.card_range, ← h.zonesToWrite_eq]
    exact hzones
  refine ⟨h.first_le, h.zone_newest, h.closing_newest, h.zonesToWrite_eq, h.chapters_eq,
    fun _ => hall, fun _ => List.getLast?_concat .., h.submitted_iff, ?_, fun entry hentry z hz => ?_⟩
  · dsimp only
    have := h.closed_chapters
    rw [hidle] at this
    rw [List.map_append, this, Bool.toNat_false, Bool.toNat_true, Nat.add_zero, List.range'_1_concat,
      Nat.add_sub_cancel' h.first_le]
    rfl
  · rcases List.mem_append.mp hentry with hold | hnew
    · exact h.closed_submitted entry hold z hz
    · rw [List.mem_singleton.mp hnew]
      exact (h.chapters_eq z hz (hall z hz)).2

/-- `advanceActiveChapters` after a write: every zone had submitted it, so
none has submitted the next. -/
theorem advanceActiveChapters (h : HandOff zoneCount first s) (hwriting : s.writing = true)
    (resultOk : Bool) :
    HandOff zoneCount first (s.advanceActiveChapters resultOk) := by
  unfold ChapterWriterState.advanceActiveChapters
  have hall := h.writing_submitted hwriting
  refine ⟨Nat.le_succ_of_le h.first_le, fun z hz => Or.inl (hall z hz).1,
    fun z hz hclosing => absurd hclosing (hall z hz).2, ?_, fun z hz hsub => ?_,
    fun hwriting' => absurd hwriting' (by simp), fun hwriting' => absurd hwriting' (by simp),
    h.submitted_iff, ?_, h.closed_submitted⟩
  · dsimp only
    refine (countWhere_eq_zero fun z hz => fun hsub => ?_).symm
    have := (hall z (Finset.mem_range.mp hz)).1
    have := hsub.1
    omega
  · dsimp only at hsub
    have := (hall z hz).1
    have := hsub.1
    omega
  · dsimp only
    have := h.closed_chapters
    rw [hwriting] at this
    rw [this, Bool.toNat_true, Bool.toNat_false, Nat.add_zero]
    have := h.first_le
    rw [show s.newestVirtualChapter + 1 - first + 0 = s.newestVirtualChapter - first + 1 by omega]

/-- Every step keeps the invariant. -/
theorem step (h : HandOff zoneCount first s) {s' : ChapterWriterState}
    (hstep : ChapterWriterStep zoneCount s s') : HandOff zoneCount first s' := by
  cases hstep with
  | openNextChapter hz hphase => exact h.set_phase hz (by decide) (by rw [hphase]; decide)
  | swapOpenChapter hz hphase hreached => exact h.swapOpenChapter hz hphase hreached
  | finishPreviousChapterFails hz hphase => exact h.set_phase hz (by decide) (by rw [hphase]; decide)
  | startClosingChapter hz hphase => exact h.startClosingChapter hz hphase
  | closeOpenChapter hidle hzones => exact h.closeOpenChapter hidle hzones
  | advanceActiveChapters hwriting resultOk => exact h.advanceActiveChapters hwriting resultOk

theorem of_reachable
    (hreach : Reachability.Reachable (ChapterWriterStart first) (ChapterWriterStep zoneCount) s) :
    HandOff zoneCount first s :=
  hreach.invariant (fun _ hstart => start hstart) fun _ _ h hstep => h.step hstep

/-- `zonesToWrite` counts zones, so never exceeds their number. -/
theorem zonesToWrite_le (h : HandOff zoneCount first s) : s.zonesToWrite ≤ zoneCount := by
  rw [h.zonesToWrite_eq]
  exact countWhere_le_card.trans (Finset.card_range zoneCount).le

/-- While the writer writes, every zone fills the other chapter than the one
it handed over, and none can swap until the writer is done. -/
theorem writing_separates (h : HandOff zoneCount first s) (hwriting : s.writing = true) {z : ℕ}
    (hz : z < zoneCount) :
    (s.zones z).openChapter ≠ s.chapters z ∧ (s.zones z).phase ≠ .closing ∧
      s.newestVirtualChapter < (s.zones z).newestVirtualChapter := by
  have hsub := h.writing_submitted hwriting z hz
  refine ⟨?_, hsub.2, by rw [hsub.1]; exact Nat.lt_succ_self _⟩
  rw [(h.chapters_eq z hz hsub).1, ZoneThread.writingChapter]
  cases (s.zones z).openChapter <;> decide

/-- A zone whose wait can end finds the writer done with every chapter before
its own. -/
theorem written_before_swap (h : HandOff zoneCount first s) {z : ℕ} (hz : z < zoneCount)
    (hreached : (s.zones z).newestVirtualChapter ≤ s.newestVirtualChapter) :
    s.writing = false ∧ ∀ c, first ≤ c → c < (s.zones z).newestVirtualChapter → c ∈ s.closed.map Prod.fst := by
  have hidle : s.writing = false := by
    by_contra hwriting
    have := (h.writing_separates (by simpa using hwriting) hz).2.2
    omega
  refine ⟨hidle, fun c hfirst hc => ?_⟩
  rw [h.closed_chapters, hidle, Bool.toNat_false, Nat.add_zero, List.mem_range'_1]
  omega

/-- A chapter before the one a zone has closed past is written. -/
theorem written_of_lt (h : HandOff zoneCount first s) {z : ℕ} (hz : z < zoneCount) {c : ℕ}
    (hfirst : first ≤ c) (hpast : c + 2 ≤ (s.zones z).newestVirtualChapter) :
    c < s.newestVirtualChapter ∧ c ∈ s.closed.map Prod.fst := by
  have hat := h.zone_newest z hz
  have hlt : c < s.newestVirtualChapter := by omega
  refine ⟨hlt, ?_⟩
  rw [h.closed_chapters, List.mem_range'_1]
  omega

/-- No reachable state is stuck: a zone not blocked in its wait can step, and
when every zone is blocked the writer can. -/
theorem exists_step (h : HandOff zoneCount first s) : ∃ s', ChapterWriterStep zoneCount s s' := by
  by_cases hblocked : ∀ z < zoneCount,
      (s.zones z).phase = .waiting ∧ s.newestVirtualChapter < (s.zones z).newestVirtualChapter
  · cases hwriting : s.writing
    · have hall : ∀ z < zoneCount, (s.zones z).Submitted s.newestVirtualChapter := fun z hz => by
        have := h.zone_newest z hz
        have := (hblocked z hz).2
        exact ⟨by omega, by rw [(hblocked z hz).1]; decide⟩
      have hcount : s.zonesToWrite = zoneCount := by
        rw [h.zonesToWrite_eq, countWhere_eq_card fun z hz => hall z (Finset.mem_range.mp hz),
          Finset.card_range]
      exact ⟨_, .closeOpenChapter s hwriting hcount.ge⟩
    · exact ⟨_, .advanceActiveChapters s hwriting true⟩
  · push Not at hblocked
    obtain ⟨z, hz, hfree⟩ := hblocked
    cases hphase : (s.zones z).phase with
    | filling => exact ⟨_, .openNextChapter s hz hphase⟩
    | closing => exact ⟨_, .startClosingChapter s hz hphase⟩
    | waiting =>
      have hreached := hfree hphase
      cases hok : s.resultOk
      · exact ⟨_, .finishPreviousChapterFails s hz hphase hreached hok⟩
      · exact ⟨_, .swapOpenChapter s hz hphase hreached hok⟩

end HandOff

/-! ## Runs -/

/-- An endless run of steps from a start. -/
def ChapterWriterRun (zoneCount first : ℕ) (run : ℕ → ChapterWriterState) : Prop :=
  ChapterWriterStart first (run 0) ∧ ∀ i, ChapterWriterStep zoneCount (run i) (run (i + 1))

/-- Every state of a run is reachable. -/
theorem ChapterWriterRun.reachable {zoneCount first : ℕ} {run : ℕ → ChapterWriterState}
    (hrun : ChapterWriterRun zoneCount first run) (i : ℕ) :
    Reachability.Reachable (ChapterWriterStart first) (ChapterWriterStep zoneCount) (run i) := by
  induction i with
  | zero => exact .init hrun.1
  | succ i ih => exact ih.tail (hrun.2 i)

/-- The chapter writer hand-off among `zoneCount` zone threads and the writer,
from the open chapter `first`. In every reachable state: (a) `zonesToWrite` is
at most the zone count; (b) `closeOpenChapter` has been called exactly once
for each chapter from `first` on, in order, up to the index's
`newestVirtualChapter` (that one too while the writer writes), each time with
the chapters every zone submitted for it, and each zone has submitted exactly
the chapters from `first` before its own, once each; (c) while the writer
writes, it reads the chapters of its last call, no zone fills or resets one of
them and none can swap, and a zone's wait in `finishPreviousChapter` ends only
when the writer has finished every chapter before the zone's; (d) some step
can be taken. And in every endless run in which each zone keeps closing
chapters, every chapter from `first` on is written. -/
theorem chapterWriter_hand_off (zoneCount first : ℕ) :
    (∀ s, Reachability.Reachable (ChapterWriterStart first) (ChapterWriterStep zoneCount) s →
      s.zonesToWrite ≤ zoneCount ∧
      s.closed.map Prod.fst = List.range' first (s.newestVirtualChapter - first + s.writing.toNat) ∧
      (∀ entry ∈ s.closed, ∀ z < zoneCount, s.submitted z entry.1 = some (entry.2 z)) ∧
      (∀ z < zoneCount, ∀ c, (s.submitted z c).isSome ↔ first ≤ c ∧ c < (s.zones z).submittedUpTo) ∧
      (s.writing = true → s.closed.getLast? = some (s.newestVirtualChapter, s.chapters) ∧
        ∀ z < zoneCount, (s.zones z).openChapter ≠ s.chapters z ∧ (s.zones z).phase ≠ .closing ∧
          s.newestVirtualChapter < (s.zones z).newestVirtualChapter) ∧
      (∀ z < zoneCount, (s.zones z).newestVirtualChapter ≤ s.newestVirtualChapter →
        s.writing = false ∧
          ∀ c, first ≤ c → c < (s.zones z).newestVirtualChapter → c ∈ s.closed.map Prod.fst) ∧
      ∃ s', ChapterWriterStep zoneCount s s') ∧
    ∀ run, ChapterWriterRun zoneCount first run → 0 < zoneCount →
      (∀ z < zoneCount, ∀ c, ∃ i, c ≤ ((run i).zones z).newestVirtualChapter) →
      ∀ c, first ≤ c → ∃ i, c < (run i).newestVirtualChapter ∧ c ∈ (run i).closed.map Prod.fst := by
  refine ⟨fun s hreach => ?_, fun run hrun hpos hclosing c hfirst => ?_⟩
  · have h := HandOff.of_reachable hreach
    exact ⟨h.zonesToWrite_le, h.closed_chapters, h.closed_submitted, h.submitted_iff,
      fun hwriting => ⟨h.writing_chapters hwriting, fun z hz => h.writing_separates hwriting hz⟩,
      fun z hz hreached => h.written_before_swap hz hreached, h.exists_step⟩
  · obtain ⟨i, hpast⟩ := hclosing 0 hpos (c + 2)
    exact ⟨i, (HandOff.of_reachable (hrun.reachable i)).written_of_lt hpos hfirst hpast⟩

/-- One zone and the writer taking turns, each round closing one chapter: the
zone's chapter fills, it waits, swaps and submits, and the writer writes. -/
def singleZoneTurn : ℕ → ChapterWriterState → ChapterWriterState
  | 0, s => s.setZonePhase 0 .waiting
  | 1, s => s.swapOpenChapter 0
  | 2, s => s.startClosingChapter 0
  | 3, s => s.closeOpenChapter
  | _, s => s.advanceActiveChapters true

/-- The rounds of `singleZoneTurn` from a writer made for chapter 0. -/
def singleZoneRun : ℕ → ChapterWriterState
  | 0 => ⟨0, 0, fun _ => false, true, false, fun _ => ⟨0, true, .filling⟩, fun _ _ => none, []⟩
  | i + 1 => singleZoneTurn (i % 5) (singleZoneRun i)

theorem singleZoneRun_add (k r : ℕ) (hr : r < 5) :
    singleZoneRun (5 * k + r + 1) = singleZoneTurn r (singleZoneRun (5 * k + r)) := by
  rw [singleZoneRun, Nat.mul_add_mod_self_left, Nat.mod_eq_of_lt hr]

/-- Each round starts with the zone filling chapter `k`, the writer idle. -/
theorem singleZoneRun_round (k : ℕ) :
    (singleZoneRun (5 * k)).newestVirtualChapter = k ∧
      ((singleZoneRun (5 * k)).zones 0).newestVirtualChapter = k ∧
      ((singleZoneRun (5 * k)).zones 0).phase = .filling ∧
      (singleZoneRun (5 * k)).writing = false ∧ (singleZoneRun (5 * k)).resultOk = true ∧
      (singleZoneRun (5 * k)).zonesToWrite = 0 := by
  induction k with
  | zero => exact ⟨rfl, rfl, rfl, rfl, rfl, rfl⟩
  | succ k ih =>
    rw [show 5 * (k + 1) = 5 * k + 4 + 1 by omega, singleZoneRun_add k 4 (by omega),
      singleZoneRun_add k 3 (by omega), singleZoneRun_add k 2 (by omega),
      show 5 * k + 2 = 5 * k + 1 + 1 by omega, singleZoneRun_add k 1 (by omega),
      show 5 * k + 1 = 5 * k + 0 + 1 by omega, singleZoneRun_add k 0 (by omega), Nat.add_zero]
    generalize singleZoneRun (5 * k) = s at ih ⊢
    obtain ⟨hnewest, hzone, hphase, hidle, hok, hcount⟩ := ih
    simp [singleZoneTurn, ChapterWriterState.setZonePhase, ChapterWriterState.swapOpenChapter,
      ChapterWriterState.startClosingChapter, ChapterWriterState.closeOpenChapter,
      ChapterWriterState.advanceActiveChapters, hnewest, hzone]

/-- Every turn of the single-zone run is a step. -/
theorem singleZoneRun_run : ChapterWriterRun 1 0 singleZoneRun := by
  refine ⟨⟨rfl, rfl, rfl, rfl, fun _ => ⟨rfl, rfl⟩, fun _ _ => rfl, rfl⟩, fun i => ?_⟩
  obtain ⟨hnewest, hzone, hphase, hidle, hok, hcount⟩ := singleZoneRun_round (i / 5)
  have hi : i = 5 * (i / 5) + i % 5 := (Nat.div_add_mod i 5).symm
  have hr : i % 5 < 5 := Nat.mod_lt i (by decide)
  rw [hi, singleZoneRun_add (i / 5) (i % 5) hr]
  generalize i % 5 = r at hr ⊢
  have hturns : ∀ r' < r, singleZoneRun (5 * (i / 5) + r' + 1) =
      singleZoneTurn r' (singleZoneRun (5 * (i / 5) + r')) := fun r' hr' => singleZoneRun_add _ r' (by omega)
  generalize hk : i / 5 = k at hturns hnewest hzone hphase hidle hok hcount
  interval_cases r
  · exact .openNextChapter _ one_pos hphase
  · rw [hturns 0 (by decide)]
    generalize singleZoneRun (5 * k + 0) = s at hnewest hzone hphase hidle hok hcount
    refine .swapOpenChapter _ one_pos ?_ ?_ ?_ <;>
      simp [singleZoneTurn, ChapterWriterState.setZonePhase, hnewest, hzone, hok]
  · rw [hturns 1 (by decide), hturns 0 (by decide)]
    generalize singleZoneRun (5 * k + 0) = s at hnewest hzone hphase hidle hok hcount
    refine .startClosingChapter _ one_pos ?_
    simp [singleZoneTurn, ChapterWriterState.setZonePhase, ChapterWriterState.swapOpenChapter]
  · rw [hturns 2 (by decide), hturns 1 (by decide), hturns 0 (by decide)]
    generalize singleZoneRun (5 * k + 0) = s at hnewest hzone hphase hidle hok hcount
    refine .closeOpenChapter _ ?_ ?_ <;>
      simp [singleZoneTurn, ChapterWriterState.setZonePhase, ChapterWriterState.swapOpenChapter,
        ChapterWriterState.startClosingChapter, hidle]
  · rw [hturns 3 (by decide), hturns 2 (by decide), hturns 1 (by decide), hturns 0 (by decide)]
    generalize singleZoneRun (5 * k + 0) = s at hnewest hzone hphase hidle hok hcount
    exact .advanceActiveChapters _ rfl true

/-- Two zones and the writer taking turns, each round closing one chapter:
both zones' chapters fill and wait, both swap and submit, and the writer
writes. -/
def twoZoneTurn : ℕ → ChapterWriterState → ChapterWriterState
  | 0, s => s.setZonePhase 0 .waiting
  | 1, s => s.setZonePhase 1 .waiting
  | 2, s => s.swapOpenChapter 0
  | 3, s => s.swapOpenChapter 1
  | 4, s => s.startClosingChapter 0
  | 5, s => s.startClosingChapter 1
  | 6, s => s.closeOpenChapter
  | _, s => s.advanceActiveChapters true

/-- The rounds of `twoZoneTurn` from a writer made for chapter 0. -/
def twoZoneRun : ℕ → ChapterWriterState
  | 0 => ⟨0, 0, fun _ => false, true, false, fun _ => ⟨0, true, .filling⟩, fun _ _ => none, []⟩
  | i + 1 => twoZoneTurn (i % 8) (twoZoneRun i)

/-- The state `r` turns into round `k`. -/
theorem twoZoneRun_offset (k : ℕ) {r : ℕ} (hr : r ≤ 8) :
    twoZoneRun (8 * k + r) = (List.range r).foldl (fun s j => twoZoneTurn j s) (twoZoneRun (8 * k)) := by
  induction r with
  | zero => rfl
  | succ r ih =>
    rw [← Nat.add_assoc, twoZoneRun, Nat.mul_add_mod_self_left, Nat.mod_eq_of_lt (by omega), ih (by omega),
      List.range_succ, List.foldl_append, List.foldl_cons, List.foldl_nil]

/-- The facts a round starts from: chapter `k` is filling in both zones and
the writer is idle. -/
def TwoZoneRoundStart (k : ℕ) (s : ChapterWriterState) : Prop :=
  s.newestVirtualChapter = k ∧ (s.zones 0).newestVirtualChapter = k ∧ (s.zones 1).newestVirtualChapter = k ∧
    (s.zones 0).phase = .filling ∧ (s.zones 1).phase = .filling ∧ s.writing = false ∧ s.resultOk = true ∧
    s.zonesToWrite = 0

theorem twoZoneRun_round (k : ℕ) : TwoZoneRoundStart k (twoZoneRun (8 * k)) := by
  induction k with
  | zero => exact ⟨rfl, rfl, rfl, rfl, rfl, rfl, rfl, rfl⟩
  | succ k ih =>
    rw [show 8 * (k + 1) = 8 * k + 8 by omega, twoZoneRun_offset k le_rfl]
    generalize twoZoneRun (8 * k) = s at ih ⊢
    obtain ⟨hnewest, hzone0, hzone1, hphase0, hphase1, hidle, hok, hcount⟩ := ih
    simp [TwoZoneRoundStart, List.range_succ, twoZoneTurn, ChapterWriterState.setZonePhase,
      ChapterWriterState.swapOpenChapter, ChapterWriterState.startClosingChapter,
      ChapterWriterState.closeOpenChapter, ChapterWriterState.advanceActiveChapters,
      hnewest, hzone0, hzone1]

/-- From a round start, each of the round's turns is a step of two zones. -/
theorem twoZoneTurn_step {k : ℕ} {s : ChapterWriterState} (hs : TwoZoneRoundStart k s) {r : ℕ} (hr : r < 8) :
    ChapterWriterStep 2 ((List.range r).foldl (fun s j => twoZoneTurn j s) s)
      ((List.range (r + 1)).foldl (fun s j => twoZoneTurn j s) s) := by
  obtain ⟨hnewest, hzone0, hzone1, hphase0, hphase1, hidle, hok, hcount⟩ := hs
  rw [List.range_succ, List.foldl_append, List.foldl_cons, List.foldl_nil]
  interval_cases r
  · exact .openNextChapter _ (by decide) hphase0
  · exact .openNextChapter _ (by decide) (by simp [twoZoneTurn, ChapterWriterState.setZonePhase, hphase1])
  · refine .swapOpenChapter _ (z := 0) (by decide) ?_ ?_ ?_ <;>
      simp [List.range_succ, twoZoneTurn, ChapterWriterState.setZonePhase, hnewest, hzone0, hok]
  · refine .swapOpenChapter _ (z := 1) (by decide) ?_ ?_ ?_ <;>
      simp [List.range_succ, twoZoneTurn, ChapterWriterState.setZonePhase, ChapterWriterState.swapOpenChapter,
        hnewest, hzone1, hok]
  · refine .startClosingChapter _ (z := 0) (by decide) ?_
    simp [List.range_succ, twoZoneTurn, ChapterWriterState.setZonePhase, ChapterWriterState.swapOpenChapter]
  · refine .startClosingChapter _ (z := 1) (by decide) ?_
    simp [List.range_succ, twoZoneTurn, ChapterWriterState.setZonePhase, ChapterWriterState.swapOpenChapter,
      ChapterWriterState.startClosingChapter]
  · refine .closeOpenChapter _ ?_ ?_ <;>
      simp [List.range_succ, twoZoneTurn, ChapterWriterState.setZonePhase, ChapterWriterState.swapOpenChapter,
        ChapterWriterState.startClosingChapter, hidle, hcount]
  · exact .advanceActiveChapters _ rfl true

/-- Every turn of the two-zone run is a step. -/
theorem twoZoneRun_run : ChapterWriterRun 2 0 twoZoneRun := by
  refine ⟨⟨rfl, rfl, rfl, rfl, fun _ => ⟨rfl, rfl⟩, fun _ _ => rfl, rfl⟩, fun i => ?_⟩
  have hr : i % 8 < 8 := Nat.mod_lt i (by decide)
  rw [← Nat.div_add_mod i 8, twoZoneRun_offset _ hr.le, Nat.add_assoc,
    twoZoneRun_offset _ (show i % 8 + 1 ≤ 8 by omega)]
  exact twoZoneTurn_step (twoZoneRun_round (i / 8)) hr

/-- The single-zone and the two-zone runs close chapters for ever, so each
writes every chapter. -/
theorem chapterWriter_hand_off_one_and_two_zones :
    (ChapterWriterRun 1 0 singleZoneRun ∧
      (∀ c, ∃ i, c ≤ ((singleZoneRun i).zones 0).newestVirtualChapter) ∧
      ∀ c, ∃ i, c < (singleZoneRun i).newestVirtualChapter ∧ c ∈ (singleZoneRun i).closed.map Prod.fst) ∧
    (ChapterWriterRun 2 0 twoZoneRun ∧
      (∀ z < 2, ∀ c, ∃ i, c ≤ ((twoZoneRun i).zones z).newestVirtualChapter) ∧
      ∀ c, ∃ i, c < (twoZoneRun i).newestVirtualChapter ∧ c ∈ (twoZoneRun i).closed.map Prod.fst) := by
  have hsingle : ∀ c, ∃ i, c ≤ ((singleZoneRun i).zones 0).newestVirtualChapter :=
    fun c => ⟨5 * c, (singleZoneRun_round c).2.1.ge⟩
  have htwo : ∀ z < 2, ∀ c, ∃ i, c ≤ ((twoZoneRun i).zones z).newestVirtualChapter := by
    intro z hz c
    obtain ⟨-, hzone0, hzone1, -⟩ := twoZoneRun_round c
    refine ⟨8 * c, ?_⟩
    interval_cases z
    · exact hzone0.ge
    · exact hzone1.ge
  refine ⟨⟨singleZoneRun_run, hsingle, fun c => ?_⟩, ⟨twoZoneRun_run, htwo, fun c =>
    (chapterWriter_hand_off 2 0).2 twoZoneRun twoZoneRun_run (by decide) htwo c (Nat.zero_le c)⟩⟩
  refine (chapterWriter_hand_off 1 0).2 singleZoneRun singleZoneRun_run one_pos (fun z hz => ?_) c
    (Nat.zero_le c)
  obtain rfl : z = 0 := by omega
  exact hsingle

end Vdo.Uds
