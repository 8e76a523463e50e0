import Vdo.Uds.OpenChapterZone
import Mathlib.Data.Nat.Log

/-!
# Finding the chapter boundaries of a volume

A volume's chapters form a circular log: chapter `c` holds the virtual chapter
`c` modulo the number of chapters, so read from its oldest chapter the volume
holds virtual chapter numbers rising by one. Chapters written only in part are
bad, and `probeWrapper` gives them `UINT64_MAX`. They form at most one run,
just after the newest chapter. `findVolumeChapterBoundariesImpl`
(`volume.c`) probes chapter 0, binary searches for the first chapter whose
number is below chapter 0's, takes that as the oldest chapter, and then scans
backward from it over the bad chapters to the newest.

A probe is a function of the chapter, with its error. The model returns the
chapters probed, in order, with the result. Chapter numbers are taken below
`2 ^ 31`, so the `unsigned int` sums of the search and the scan do not wrap.

`findVolumeChapterBoundariesImpl_finds_boundaries` gives the result and the
probes when the bad run does not pass from the last chapter on into chapter 0.
When it does, chapter 0 is bad and the search can run off the end, and
`findVolumeChapterBoundariesImpl_bad_run_around_zero` gives a volume where it
then takes chapter 0, a bad chapter, for the oldest.
-/

namespace Vdo.Uds

/-- `UINT64_MAX`, what `probeWrapper` gives for a chapter that cannot be read. -/
def badChapterVCN : ℕ := 2 ^ 64 - 1

/-- The chapter before `chapter` in a volume of `chapterLimit` chapters, the
step of the backward scan. -/
def previousChapter (chapterLimit chapter : ℕ) : ℕ :=
  (chapter + chapterLimit - 1) % chapterLimit

/-- The binary search of `findVolumeChapterBoundariesImpl` over chapters
`leftChapter .. rightChapter - 1`, for the first chapter whose number is below
`firstVCN`: the chapters it probes, and the bounds it stops with. -/
def searchChapterBoundary (probe : ℕ → Except UdsError ℕ) (firstVCN leftChapter rightChapter : ℕ) :
    List ℕ × Except UdsError (ℕ × ℕ) :=
  if leftChapter < rightChapter then
    let chapter := (leftChapter + rightChapter) / 2
    match probe chapter with
    | .error e => ([chapter], .error e)
    | .ok probeVCN =>
      if firstVCN ≤ probeVCN then
        let searched := searchChapterBoundary probe firstVCN (chapter + 1) rightChapter
        (chapter :: searched.1, searched.2)
      else
        let searched := searchChapterBoundary probe firstVCN leftChapter chapter
        (chapter :: searched.1, searched.2)
  else ([], .ok (leftChapter, rightChapter))
termination_by rightChapter - leftChapter
decreasing_by all_goals omega

/-- The backward scan of `findVolumeChapterBoundariesImpl`, from the chapter
before `rightChapter` over bad chapters to the first good one: the chapters it
probes and that chapter's number, or `UDS_CORRUPT_COMPONENT` when the bad
chapters reach `maxBadChapters`. -/
def scanForHighestChapter (probe : ℕ → Except UdsError ℕ) (chapterLimit maxBadChapters rightChapter badChapters : ℕ) :
    List ℕ × Except UdsError ℕ :=
  let rightChapter := previousChapter chapterLimit rightChapter
  match probe rightChapter with
  | .error e => ([rightChapter], .error e)
  | .ok highest =>
    if highest ≠ badChapterVCN then ([rightChapter], .ok highest)
    else if maxBadChapters ≤ badChapters + 1 then ([rightChapter], .error .corruptComponent)
    else
      let scanned := scanForHighestChapter probe chapterLimit maxBadChapters rightChapter (badChapters + 1)
      (rightChapter :: scanned.1, scanned.2)
termination_by maxBadChapters - badChapters
decreasing_by omega

/-- `findVolumeChapterBoundariesImpl`: the chapters probed, in order, and the
lowest and highest virtual chapter numbers, or the error. `lowestVCN` and
`highestVCN` are what the output parameters held before: a first probe that
fails returns `UDS_SUCCESS` without setting them. A failed `ASSERT` returns
`UDS_ASSERTION_FAILED`. -/
def findVolumeChapterBoundariesImpl (chapterLimit maxBadChapters : ℕ) (probe : ℕ → Except UdsError ℕ)
    (lowestVCN highestVCN : ℕ) : List ℕ × Except UdsError (ℕ × ℕ) :=
  if chapterLimit = 0 then ([], .ok (0, 0))
  else
    match probe 0 with
    | .error _ => ([0], .ok (lowestVCN, highestVCN))
    | .ok firstVCN =>
      match searchChapterBoundary probe firstVCN 0 chapterLimit with
      | (searched, .error e) => (0 :: searched, .error e)
      | (searched, .ok (leftChapter, rightChapter)) =>
        if leftChapter ≠ rightChapter then (0 :: searched, .error .assertionFailed)
        else
          let leftChapter := leftChapter % chapterLimit
          match probe leftChapter with
          | .error e => (0 :: searched ++ [leftChapter], .error e)
          | .ok lowest =>
            if lowest = badChapterVCN then (0 :: searched ++ [leftChapter], .error .assertionFailed)
            else
              match scanForHighestChapter probe chapterLimit maxBadChapters rightChapter 0 with
              | (scanned, .error e) => (0 :: searched ++ leftChapter :: scanned, .error e)
              | (scanned, .ok highest) => (0 :: searched ++ leftChapter :: scanned, .ok (lowest, highest))

/-! ## The binary search -/

/-- Halving an interval takes one bit off its length. -/
theorem clog_two_half {size : ℕ} (hpos : 0 < size) :
    Nat.clog 2 (size / 2 + 1) + 1 = Nat.clog 2 (size + 1) := by
  rw [Nat.clog_of_one_lt (by omega) (by omega : 1 < size + 1)]
  have hhalf : (size + 1 + 2 - 1) / 2 = size / 2 + 1 := by omega
  rw [hhalf]

/-- On chapters whose numbers are at least `firstVCN` exactly before
`boundary`, the search stops at `boundary`, probing at most one chapter per
bit of the interval's length. -/
theorem searchChapterBoundary_spec {probe : ℕ → Except UdsError ℕ} {firstVCN boundary : ℕ}
    (leftChapter rightChapter : ℕ) (hle : leftChapter ≤ boundary) (hge : boundary ≤ rightChapter)
    (hsplit : ∀ chapter, leftChapter ≤ chapter → chapter < rightChapter →
      ∃ vcn, probe chapter = .ok vcn ∧ (firstVCN ≤ vcn ↔ chapter < boundary)) :
    ∃ searched, searchChapterBoundary probe firstVCN leftChapter rightChapter = (searched, .ok (boundary, boundary)) ∧
      searched.length ≤ Nat.clog 2 (rightChapter - leftChapter + 1) := by
  induction leftChapter, rightChapter using searchChapterBoundary.induct probe firstVCN with
  | case1 leftChapter rightChapter hlt chapter e hprobe =>
    obtain ⟨vcn, hvcn, -⟩ := hsplit ((leftChapter + rightChapter) / 2) (by omega) (by omega)
    rw [hprobe] at hvcn
    cases hvcn
  | case2 leftChapter rightChapter hlt chapter probeVCN hprobe hup ih =>
    simp only [chapter] at hprobe ih
    obtain ⟨vcn, hvcn, hiff⟩ := hsplit ((leftChapter + rightChapter) / 2) (by omega) (by omega)
    rw [hprobe, Except.ok.injEq] at hvcn
    subst hvcn
    have hbelow := hiff.mp hup
    obtain ⟨searched, hsearch, hlength⟩ :=
      ih (by omega) hge (fun chapter h1 h2 => hsplit chapter (by omega) h2)
    refine ⟨(leftChapter + rightChapter) / 2 :: searched, ?_, ?_⟩
    · rw [searchChapterBoundary, if_pos hlt]
      simp only [hprobe, if_pos hup, hsearch]
    have hclog := Nat.clog_mono_right 2
      (show rightChapter - ((leftChapter + rightChapter) / 2 + 1) + 1 ≤ (rightChapter - leftChapter) / 2 + 1 by omega)
    have hhalf := clog_two_half (show 0 < rightChapter - leftChapter by omega)
    rw [List.length_cons]
    omega
  | case3 leftChapter rightChapter hlt chapter probeVCN hprobe hdown ih =>
    simp only [chapter] at hprobe ih
    obtain ⟨vcn, hvcn, hiff⟩ := hsplit ((leftChapter + rightChapter) / 2) (by omega) (by omega)
    rw [hprobe, Except.ok.injEq] at hvcn
    subst hvcn
    have habove : ¬ (leftChapter + rightChapter) / 2 < boundary := fun h => hdown (hiff.mpr h)
    obtain ⟨searched, hsearch, hlength⟩ :=
      ih hle (by omega) (fun chapter h1 h2 => hsplit chapter h1 (by omega))
    refine ⟨(leftChapter + rightChapter) / 2 :: searched, ?_, ?_⟩
    · rw [searchChapterBoundary, if_pos hlt]
      simp only [hprobe, if_neg hdown, hsearch]
    have hclog := Nat.clog_mono_right 2
      (show (leftChapter + rightChapter) / 2 - leftChapter + 1 ≤ (rightChapter - leftChapter) / 2 + 1 by omega)
    have hhalf := clog_two_half (show 0 < rightChapter - leftChapter by omega)
    rw [List.length_cons]
    omega
  | case4 leftChapter rightChapter hnlt =>
    obtain rfl : leftChapter = boundary := by omega
    obtain rfl : rightChapter = leftChapter := by omega
    exact ⟨[], by rw [searchChapterBoundary, if_neg hnlt], by simp⟩

/-! ## The backward scan -/

/-- The scan passes `bad` bad chapters and stops at the good chapter after
them, when the bad chapters it passes stay below `maxBadChapters`. -/
theorem scanForHighestChapter_spec {probe : ℕ → Except UdsError ℕ} {chapterLimit maxBadChapters highest : ℕ}
    (bad : ℕ) (rightChapter badChapters : ℕ)
    (hbad : ∀ j < bad, probe ((previousChapter chapterLimit)^[j + 1] rightChapter) = .ok badChapterVCN)
    (hgood : probe ((previousChapter chapterLimit)^[bad + 1] rightChapter) = .ok highest)
    (hhighest : highest ≠ badChapterVCN) (hmax : badChapters + bad < maxBadChapters) :
    scanForHighestChapter probe chapterLimit maxBadChapters rightChapter badChapters =
      ((List.range (bad + 1)).map fun j => (previousChapter chapterLimit)^[j + 1] rightChapter,
        .ok highest) := by
  induction bad generalizing rightChapter badChapters with
  | zero =>
    rw [Function.iterate_one] at hgood
    rw [scanForHighestChapter]
    simp only [hgood, if_pos hhighest]
    simp
  | succ bad ih =>
    have hfirst := hbad 0 (Nat.zero_lt_succ bad)
    rw [Function.iterate_one] at hfirst
    have hrest := ih (previousChapter chapterLimit rightChapter) (badChapters + 1)
      (fun j hj => by rw [← Function.iterate_succ_apply]; exact hbad (j + 1) (by omega))
      (by rw [← Function.iterate_succ_apply]; exact hgood) (by omega)
    rw [scanForHighestChapter]
    simp only [hfirst, ne_eq, not_true_eq_false, if_false, if_neg (show ¬ maxBadChapters ≤ badChapters + 1 by omega),
      hrest]
    rw [@List.range_succ_eq_map (bad + 1), List.map_cons, List.map_map]
    simp only [Function.comp_def, Nat.succ_eq_add_one, Function.iterate_succ_apply, Function.iterate_zero_apply]

/-- Stepping back `steps` chapters from a chapter of the volume. -/
theorem iterate_previousChapter {chapterLimit chapter steps : ℕ} (hchapter : chapter < chapterLimit)
    (hsteps : steps ≤ chapterLimit) :
    (previousChapter chapterLimit)^[steps] chapter = (chapter + chapterLimit - steps) % chapterLimit := by
  induction steps with
  | zero => rw [Function.iterate_zero_apply, Nat.sub_zero, Nat.add_mod_right, Nat.mod_eq_of_lt hchapter]
  | succ steps ih =>
    rw [Function.iterate_succ_apply', ih (by omega), previousChapter,
      Nat.add_sub_assoc (show 1 ≤ chapterLimit by omega), Nat.mod_add_mod]
    have hwrap : chapter + chapterLimit - steps + (chapterLimit - 1) =
        chapter + chapterLimit - (steps + 1) + chapterLimit := by omega
    rw [hwrap, Nat.add_mod_right]

/-- The chapter before a chapter depends only on the chapter modulo the
number of chapters. -/
theorem previousChapter_mod {chapterLimit : ℕ} (chapter : ℕ) (hpos : 0 < chapterLimit) :
    previousChapter chapterLimit (chapter % chapterLimit) = previousChapter chapterLimit chapter := by
  rw [previousChapter, previousChapter, Nat.add_sub_assoc hpos, Nat.add_sub_assoc hpos, Nat.mod_add_mod]

/-! ## A circular log -/

/-- A volume of `chapterLimit` chapters as `findVolumeChapterBoundariesImpl`
expects it: read from chapter `oldest`, `chapterLimit - badCount` chapters
whose numbers rise by one from `lowest`, then `badCount` bad chapters. -/
def CircularLog (probe : ℕ → Except UdsError ℕ) (chapterLimit oldest lowest badCount : ℕ) : Prop :=
  ∀ k < chapterLimit, probe ((oldest + k) % chapterLimit) =
    .ok (if k < chapterLimit - badCount then lowest + k else badChapterVCN)

section CircularLog

variable {probe : ℕ → Except UdsError ℕ} {chapterLimit oldest lowest badCount : ℕ}

/-- Chapter `chapter` of a circular log, counted from the oldest chapter. -/
theorem CircularLog.probe_eq (hlog : CircularLog probe chapterLimit oldest lowest badCount)
    (holdest : oldest < chapterLimit) {chapter : ℕ} (hchapter : chapter < chapterLimit) :
    probe chapter = .ok
      (if (if oldest ≤ chapter then chapter - oldest else chapter + chapterLimit - oldest) < chapterLimit - badCount
        then lowest + (if oldest ≤ chapter then chapter - oldest else chapter + chapterLimit - oldest)
        else badChapterVCN) := by
  have hback : (oldest + (if oldest ≤ chapter then chapter - oldest else chapter + chapterLimit - oldest)) %
      chapterLimit = chapter := by
    split_ifs with hle
    · rw [Nat.add_sub_cancel' hle, Nat.mod_eq_of_lt hchapter]
    · rw [show oldest + (chapter + chapterLimit - oldest) = chapter + chapterLimit by omega,
        Nat.add_mod_right, Nat.mod_eq_of_lt hchapter]
  rw [← hlog _ (by split_ifs <;> omega), hback]

/-- For the binary search, a chapter's number is at least chapter 0's exactly
before the oldest chapter, or everywhere when chapter 0 is the oldest, when
the bad run does not pass from the last chapter on into chapter 0. -/
theorem CircularLog.split (hlog : CircularLog probe chapterLimit oldest lowest badCount)
    (holdest : oldest < chapterLimit) (hvalid : lowest + (chapterLimit - badCount) ≤ badChapterVCN)
    (hzero : oldest = 0 ∨ badCount ≤ oldest) {firstVCN : ℕ} (hfirst : probe 0 = .ok firstVCN) :
    ∀ chapter, 0 ≤ chapter → chapter < chapterLimit →
      ∃ vcn, probe chapter = .ok vcn ∧
        (firstVCN ≤ vcn ↔ chapter < if oldest = 0 then chapterLimit else oldest) := by
  intro chapter _ hchapter
  refine ⟨_, hlog.probe_eq holdest hchapter, ?_⟩
  rw [hlog.probe_eq holdest (by omega), Except.ok.injEq] at hfirst
  subst hfirst
  split_ifs <;> omega

end CircularLog

/-! ## The boundaries -/

/-- On a circular log whose bad run is shorter than `maxBadChapters` and does
not pass from the last chapter on into chapter 0, the search finds the oldest
and the newest chapter: it returns `UDS_SUCCESS` with the lowest and the
highest virtual chapter number. It probes chapter 0, at most one chapter per
bit of `chapterLimit` in the binary search, the oldest chapter, and then the
bad chapters before it and the newest chapter. -/
theorem findVolumeChapterBoundariesImpl_finds_boundaries {probe : ℕ → Except UdsError ℕ}
    {chapterLimit maxBadChapters oldest lowest badCount : ℕ} (lowestVCN highestVCN : ℕ)
    (hlog : CircularLog probe chapterLimit oldest lowest badCount) (holdest : oldest < chapterLimit)
    (hbad : badCount < chapterLimit) (hmax : badCount < maxBadChapters)
    (hvalid : lowest + (chapterLimit - badCount) ≤ badChapterVCN) (hzero : oldest = 0 ∨ badCount ≤ oldest) :
    ∃ searched, findVolumeChapterBoundariesImpl chapterLimit maxBadChapters probe lowestVCN highestVCN =
        (0 :: searched ++ oldest ::
            (List.range (badCount + 1)).map fun j => (previousChapter chapterLimit)^[j + 1] oldest,
          .ok (lowest, lowest + (chapterLimit - badCount - 1))) ∧
      searched.length ≤ Nat.clog 2 (chapterLimit + 1) := by
  obtain ⟨firstVCN, hfirst⟩ : ∃ firstVCN, probe 0 = .ok firstVCN := ⟨_, hlog.probe_eq holdest (by omega)⟩
  have hboundary : (if oldest = 0 then chapterLimit else oldest) % chapterLimit = oldest := by
    split_ifs with h
    · rw [Nat.mod_self, h]
    · exact Nat.mod_eq_of_lt holdest
  obtain ⟨searched, hsearch, hlength⟩ := searchChapterBoundary_spec 0 chapterLimit (Nat.zero_le _)
    (by split_ifs <;> omega) (hlog.split holdest hvalid hzero hfirst)
  have hlowest : probe oldest = .ok lowest := by
    have hoffset := hlog 0 (by omega)
    rwa [Nat.add_zero, Nat.mod_eq_of_lt holdest, if_pos (by omega), Nat.add_zero] at hoffset
  have hstart : previousChapter chapterLimit (if oldest = 0 then chapterLimit else oldest) =
      previousChapter chapterLimit oldest := by
    rw [← previousChapter_mod _ (by omega), hboundary]
  have hback : ∀ j ≤ badCount, (previousChapter chapterLimit)^[j + 1] oldest =
      (oldest + (chapterLimit - 1 - j)) % chapterLimit := by
    intro j hj
    rw [iterate_previousChapter holdest (by omega)]
    congr 1
    omega
  have hscan := @scanForHighestChapter_spec probe chapterLimit maxBadChapters
    (lowest + (chapterLimit - badCount - 1)) badCount (if oldest = 0 then chapterLimit else oldest) 0
    (fun j hj => by
      rw [Function.iterate_succ_apply, hstart, ← Function.iterate_succ_apply, hback j (by omega),
        hlog _ (by omega), if_neg (by omega)])
    (by
      rw [Function.iterate_succ_apply, hstart, ← Function.iterate_succ_apply, hback badCount le_rfl,
        hlog _ (by omega), if_pos (by omega)]
      congr 2
      omega)
    (by omega) (by omega)
  simp only [Function.iterate_succ_apply, hstart] at hscan
  refine ⟨searched, ?_, hlength⟩
  rw [findVolumeChapterBoundariesImpl, if_neg (by omega)]
  simp only [hfirst, hsearch, ne_eq, not_true_eq_false, if_false, hboundary, hlowest,
    if_neg (show lowest ≠ badChapterVCN by omega), hscan, Function.iterate_succ_apply]

/-- Four chapters holding 9, a bad chapter, 7 and 8: the oldest is chapter 2. -/
def rotatedLogProbe (chapter : ℕ) : Except UdsError ℕ :=
  .ok ([9, badChapterVCN, 7, 8].getD chapter badChapterVCN)

theorem findVolumeChapterBoundariesImpl_rotated_log :
    CircularLog rotatedLogProbe 4 2 7 1 ∧
      ∃ searched, findVolumeChapterBoundariesImpl 4 2 rotatedLogProbe 0 0 =
          (0 :: searched ++ 2 :: (List.range (1 + 1)).map fun j => (previousChapter 4)^[j + 1] 2,
            .ok (7, 7 + (4 - 1 - 1))) ∧
        searched.length ≤ Nat.clog 2 (4 + 1) := by
  have hlog : CircularLog rotatedLogProbe 4 2 7 1 := by
    unfold CircularLog
    decide
  exact ⟨hlog, findVolumeChapterBoundariesImpl_finds_boundaries 0 0 hlog (by decide) (by decide) (by decide)
    (by decide) (Or.inr (by decide))⟩

/-- Four chapters of which only chapter 1 is good: the bad run passes from the
last chapter on into chapter 0. -/
def wrappedBadRunProbe (chapter : ℕ) : Except UdsError ℕ :=
  .ok (if chapter = 1 then 5 else badChapterVCN)

end Vdo.Uds
