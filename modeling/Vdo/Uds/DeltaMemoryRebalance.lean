import Vdo.Uds.DeltaMemory

/-!
# Rebalancing keeps every delta list

`rebalanceDeltaMemory` moves lists `first .. last` of a delta memory to the
offsets in `tempOffsets` with one `memmove` per list, within one buffer. Lists
move both ways, and two lists next to each other may share a byte. The moves
still never overwrite a byte that a list waiting to be moved reads. That
needs each list to keep its bit offset within its byte, the lists to lie in
order at their old offsets, and the lists to lie in byte order at their new
offsets (`Rebalanceable`). If the middle list moves up, then every list after
it ends up above every byte the lists up to it read, so those are moved
first. If it moves down or stays, every list up to it ends up below every
byte the lists after it read.

`rebalanceDeltaMemory_spec` says what a rebalance leaves (`Rebalanced`):
every list's header at its new offset, and its bytes there as they were. Every
bit outside the bytes a moved list now takes is as before. The proof is by
induction along the function's own recursion.

The layout `extendDeltaMemory` computes meets `Rebalanceable` whenever the
lists and the growth fit (`rebalanceable_layoutOffsets`). So
`extendDeltaMemory_moves_lists` keeps the layout invariant and every list's
bits, and leaves the growth free before the growing list. That last part
needs the growing list to be a real list or the tail guard: the head guard
list never moves (`extendDeltaMemory_head_list_no_room`).
-/

namespace Vdo.Uds

/-- Where `rebalanceDeltaMemory` puts list `i`'s header. -/
def movedList (lists : ℕ → DeltaListSpan) (tempOffsets : ℕ → ℕ) (i : ℕ) : DeltaListSpan :=
  { lists i with startOffset := tempOffsets i }

/-- `bit` lies in one of the bytes `deltaList` touches. -/
def InBytes (deltaList : DeltaListSpan) (bit : ℕ) : Prop :=
  8 * getDeltaListByteStart deltaList ≤ bit ∧
    bit < 8 * (getDeltaListByteStart deltaList + getDeltaListByteSize deltaList)

/-- What a rebalance of lists `first .. last` needs of the old headers and the
new offsets: each list keeps its offset within its byte, and the lists lie in
order at their old offsets and in byte order at their new ones. -/
structure Rebalanceable (lists : ℕ → DeltaListSpan) (tempOffsets : ℕ → ℕ) (first last : ℕ) : Prop where
  bitOffset : ∀ i, first ≤ i → i ≤ last → tempOffsets i % 8 = getDeltaListStart (lists i) % 8
  oldOrder : ∀ i, first ≤ i → i < last → getDeltaListEnd (lists i) ≤ getDeltaListStart (lists (i + 1))
  newOrder : ∀ i, first ≤ i → i < last →
    getDeltaListByteStart (movedList lists tempOffsets i) + getDeltaListByteSize (movedList lists tempOffsets i) ≤
      getDeltaListByteStart (movedList lists tempOffsets (i + 1))

/-- What a rebalance of lists `first .. last` leaves, from lists whose bytes
held `original`: the other fields as they were, each list's header at its new
offset and its bytes there, the other headers as they were, and every bit
outside the new bytes of a moved list as before. -/
structure Rebalanced (lists : ℕ → DeltaListSpan) (tempOffsets : ℕ → ℕ) (original : ℕ → Bool) (first last : ℕ)
    (before after : DeltaMemory) : Prop where
  fields : after = { before with memory := after.memory, deltaLists := after.deltaLists }
  moved : ∀ i, first ≤ i → i ≤ last → after.deltaLists i = movedList lists tempOffsets i
  others : ∀ i, i < first ∨ last < i → after.deltaLists i = before.deltaLists i
  copied : ∀ i, first ≤ i → i ≤ last → ∀ k < 8 * getDeltaListByteSize (movedList lists tempOffsets i),
    after.memory (8 * getDeltaListByteStart (movedList lists tempOffsets i) + k) =
      original (8 * getDeltaListByteStart (lists i) + k)
  frame : ∀ bit, (∀ i, first ≤ i → i ≤ last → getDeltaListStart (lists i) ≠ tempOffsets i →
    ¬ InBytes (movedList lists tempOffsets i) bit) → after.memory bit = before.memory bit

section Geometry

variable {lists : ℕ → DeltaListSpan} {tempOffsets : ℕ → ℕ} {first last : ℕ}

@[simp]
theorem getDeltaListStart_movedList (i : ℕ) : getDeltaListStart (movedList lists tempOffsets i) = tempOffsets i :=
  rfl

@[simp]
theorem getDeltaListSize_movedList (i : ℕ) :
    getDeltaListSize (movedList lists tempOffsets i) = getDeltaListSize (lists i) :=
  rfl

/-- A list that does not move keeps its header. -/
theorem movedList_eq_of_start {i : ℕ} (h : getDeltaListStart (lists i) = tempOffsets i) :
    movedList lists tempOffsets i = lists i := by
  simp only [movedList, ← h, getDeltaListStart]

theorem Rebalanceable.mono (h : Rebalanceable lists tempOffsets first last) {first' last' : ℕ}
    (hfirst : first ≤ first') (hlast : last' ≤ last) : Rebalanceable lists tempOffsets first' last' where
  bitOffset i h1 h2 := h.bitOffset i (by omega) (by omega)
  oldOrder i h1 h2 := h.oldOrder i (by omega) (by omega)
  newOrder i h1 h2 := h.newOrder i (by omega) (by omega)

/-- A moved list touches as many bytes as it did. -/
theorem Rebalanceable.byteSize_movedList (h : Rebalanceable lists tempOffsets first last) {i : ℕ}
    (h1 : first ≤ i) (h2 : i ≤ last) :
    getDeltaListByteSize (movedList lists tempOffsets i) = getDeltaListByteSize (lists i) :=
  getDeltaListByteSize_eq (h.bitOffset i h1 h2) rfl

/-- At their old offsets a list ends before any later one starts. -/
theorem Rebalanceable.end_le_start (h : Rebalanceable lists tempOffsets first last) {i j : ℕ}
    (hi : first ≤ i) (hij : i < j) (hj : j ≤ last) :
    getDeltaListEnd (lists i) ≤ getDeltaListStart (lists j) := by
  induction j, hij using Nat.le_induction with
  | base => exact h.oldOrder i hi (by omega)
  | succ j hij ih =>
    have hstep := h.oldOrder j (by omega) (by omega)
    have hle := ih (by omega)
    simp only [getDeltaListEnd] at hstep hle ⊢
    omega

/-- At their new offsets a list's bytes end before any later list's begin. -/
theorem Rebalanceable.byteEnd_le_byteStart (h : Rebalanceable lists tempOffsets first last) {i j : ℕ}
    (hi : first ≤ i) (hij : i < j) (hj : j ≤ last) :
    getDeltaListByteStart (movedList lists tempOffsets i) + getDeltaListByteSize (movedList lists tempOffsets i) ≤
      getDeltaListByteStart (movedList lists tempOffsets j) := by
  induction j, hij using Nat.le_induction with
  | base => exact h.newOrder i hi (by omega)
  | succ j hij ih =>
    have hstep := h.newOrder j (by omega) (by omega)
    have hle := ih (by omega)
    omega

/-- The new bytes of a list lie below those of any later list. -/
theorem Rebalanceable.lt_of_inBytes_moved (h : Rebalanceable lists tempOffsets first last) {i j bit : ℕ}
    (hi : first ≤ i) (hij : i < j) (hj : j ≤ last) (hbit : InBytes (movedList lists tempOffsets i) bit) :
    bit < 8 * getDeltaListByteStart (movedList lists tempOffsets j) := by
  have hle := h.byteEnd_le_byteStart hi hij hj
  exact lt_of_lt_of_le hbit.2 (by omega)

/-- When the middle list moves up, every byte a list up to it reads lies below
the new bytes of every list after it. -/
theorem Rebalanceable.lt_of_inBytes_of_moves_up (h : Rebalanceable lists tempOffsets first last)
    {i middle k bit : ℕ} (hi : first ≤ i) (him : i ≤ middle) (hmk : middle < k) (hk : k ≤ last)
    (hup : getDeltaListStart (lists middle) < tempOffsets middle) (hbit : InBytes (lists i) bit) :
    bit < 8 * getDeltaListByteStart (movedList lists tempOffsets k) := by
  have hbyte := h.byteSize_movedList (show first ≤ middle by omega) (show middle ≤ last by omega)
  have hoffset := h.bitOffset middle (by omega) (by omega)
  have hnew := h.byteEnd_le_byteStart (show first ≤ middle by omega) hmk hk
  have hstart : getDeltaListByteStart (lists middle) + 1 ≤ getDeltaListByteStart (movedList lists tempOffsets middle) := by
    simp only [getDeltaListByteStart, getDeltaListStart_movedList] at hoffset ⊢
    omega
  have hread : getDeltaListByteStart (lists i) + getDeltaListByteSize (lists i) ≤
      getDeltaListByteStart (lists middle) + getDeltaListByteSize (lists middle) + 1 := by
    rcases Nat.eq_or_lt_of_le him with rfl | hlt
    · omega
    · have hend := byteEnd_le_of_getDeltaListEnd_le (h.end_le_start hi hlt (by omega))
      simp only [getDeltaListByteStart] at hend ⊢
      omega
  have hlt := hbit.2
  omega

/-- When the middle list moves down or stays, the new bytes of every list up
to it that moves lie below every byte a list after it reads. -/
theorem Rebalanceable.lt_of_inBytes_moved_of_moves_down (h : Rebalanceable lists tempOffsets first last)
    {j middle i bit : ℕ} (hj : first ≤ j) (hjm : j ≤ middle) (hmi : middle < i) (hi : i ≤ last)
    (hdown : tempOffsets middle ≤ getDeltaListStart (lists middle))
    (hmoves : getDeltaListStart (lists j) ≠ tempOffsets j) (hbit : InBytes (movedList lists tempOffsets j) bit) :
    bit < 8 * getDeltaListByteStart (lists i) := by
  have hoffset := h.bitOffset middle (by omega) (by omega)
  have hmiddleEnd := byteEnd_le_of_getDeltaListEnd_le (h.end_le_start (show first ≤ middle by omega) hmi hi)
  rcases Nat.eq_or_lt_of_le hjm with rfl | hlt
  · have hbyte := h.byteSize_movedList hj (show j ≤ last by omega)
    have hstart : getDeltaListByteStart (movedList lists tempOffsets j) + 1 ≤ getDeltaListByteStart (lists j) := by
      simp only [getDeltaListByteStart, getDeltaListStart_movedList] at hoffset ⊢
      omega
    have hlt := hbit.2
    rw [hbyte] at hlt
    simp only [getDeltaListByteStart] at hmiddleEnd hstart hlt ⊢
    omega
  · have hnew := h.lt_of_inBytes_moved hj hlt (by omega) hbit
    have hstart : getDeltaListByteStart (movedList lists tempOffsets middle) ≤ getDeltaListByteStart (lists middle) := by
      simp only [getDeltaListByteStart, getDeltaListStart_movedList]
      omega
    have hstartEnd := h.end_le_start (show first ≤ middle by omega) hmi hi
    simp only [getDeltaListEnd, getDeltaListByteStart] at hstartEnd hstart hnew ⊢
    omega

end Geometry

section Spec

variable {lists : ℕ → DeltaListSpan} {tempOffsets : ℕ → ℕ} {original : ℕ → Bool}

theorem Rebalanced.tempOffsets_eq {first last : ℕ} {before after : DeltaMemory}
    (h : Rebalanced lists tempOffsets original first last before after) : after.tempOffsets = before.tempOffsets := by
  rw [h.fields]

/-- Two rebalances of ranges that split `first .. last`, one after the other,
are a rebalance of the whole range when no list of one range moves into the
new bytes of a list of the other. -/
theorem Rebalanced.comp {first₁ last₁ first₂ last₂ first last : ℕ} {before between after : DeltaMemory}
    (hcover : ∀ i, first ≤ i ∧ i ≤ last ↔ first₁ ≤ i ∧ i ≤ last₁ ∨ first₂ ≤ i ∧ i ≤ last₂)
    (hranges : ∀ i, first₁ ≤ i → i ≤ last₁ → ¬ (first₂ ≤ i ∧ i ≤ last₂))
    (hdisjoint : ∀ i j bit, first₁ ≤ i → i ≤ last₁ → first₂ ≤ j → j ≤ last₂ →
      InBytes (movedList lists tempOffsets i) bit → ¬ InBytes (movedList lists tempOffsets j) bit)
    (hfirst : Rebalanced lists tempOffsets original first₁ last₁ before between)
    (hsecond : Rebalanced lists tempOffsets original first₂ last₂ between after) :
    Rebalanced lists tempOffsets original first last before after where
  fields := by
    rw [hsecond.fields, hfirst.fields]
  moved i h1 h2 := by
    rcases (hcover i).mp ⟨h1, h2⟩ with hin | hin
    · rw [hsecond.others i (by have := hranges i hin.1 hin.2; omega), hfirst.moved i hin.1 hin.2]
    · exact hsecond.moved i hin.1 hin.2
  others i hout := by
    have hnot := (hcover i).not.mp (by omega)
    rw [hsecond.others i (by omega), hfirst.others i (by omega)]
  copied i h1 h2 k hk := by
    rcases (hcover i).mp ⟨h1, h2⟩ with hin | hin
    · have hin' : InBytes (movedList lists tempOffsets i) (8 * getDeltaListByteStart (movedList lists tempOffsets i) + k) :=
        ⟨by omega, by omega⟩
      rw [hsecond.frame _ fun j h1 h2 _ => hdisjoint i j _ hin.1 hin.2 h1 h2 hin', hfirst.copied i hin.1 hin.2 k hk]
    · exact hsecond.copied i hin.1 hin.2 k hk
  frame bit hbit := by
    rw [hsecond.frame bit fun j h1 h2 => hbit j ((hcover j).mpr (.inr ⟨h1, h2⟩)).1 ((hcover j).mpr (.inr ⟨h1, h2⟩)).2,
      hfirst.frame bit fun j h1 h2 => hbit j ((hcover j).mpr (.inl ⟨h1, h2⟩)).1 ((hcover j).mpr (.inl ⟨h1, h2⟩)).2]

/-- Moving one list: its header to its new offset, and its bytes there when
it moves. -/
theorem moveDeltaList_rebalanced {deltaMemory : DeltaMemory} {index : ℕ}
    (hoffset : tempOffsets index % 8 = getDeltaListStart (lists index) % 8)
    (htemp : deltaMemory.tempOffsets = tempOffsets) (hlist : deltaMemory.deltaLists index = lists index)
    (hsource : ∀ bit, InBytes (lists index) bit → deltaMemory.memory bit = original bit) :
    Rebalanced lists tempOffsets original index index deltaMemory (moveDeltaList deltaMemory index) := by
  by_cases hstays : getDeltaListStart (lists index) = tempOffsets index
  · have hsame : moveDeltaList deltaMemory index = deltaMemory := by
      rw [moveDeltaList, if_neg (by rw [hlist, htemp]; exact not_not.mpr hstays)]
    rw [hsame]
    refine ⟨rfl, fun i h1 h2 => ?_, fun _ _ => rfl, fun i h1 h2 k hk => ?_, fun _ _ => rfl⟩
    · obtain rfl : i = index := by omega
      rw [hlist, movedList_eq_of_start hstays]
    · obtain rfl : i = index := by omega
      rw [movedList_eq_of_start hstays] at hk ⊢
      exact hsource _ ⟨by omega, by omega⟩
  · have hmoved : moveDeltaList deltaMemory index =
        { deltaMemory with
          deltaLists := Function.update deltaMemory.deltaLists index (movedList lists tempOffsets index)
          memory := moveBytes deltaMemory.memory (getDeltaListByteStart (movedList lists tempOffsets index))
            (getDeltaListByteStart (lists index)) (getDeltaListByteSize (movedList lists tempOffsets index)) } := by
      rw [moveDeltaList, if_pos (by rw [hlist, htemp]; exact hstays)]
      simp only [hlist, htemp, movedList]
    rw [hmoved]
    refine ⟨rfl, fun i h1 h2 => ?_, fun i hout => ?_, fun i h1 h2 k hk => ?_, fun bit hbit => ?_⟩
    · obtain rfl : i = index := by omega
      exact Function.update_self ..
    · exact Function.update_of_ne (by omega) _ _
    · obtain rfl : i = index := by omega
      simp only
      have hbyte : getDeltaListByteSize (movedList lists tempOffsets i) = getDeltaListByteSize (lists i) :=
        getDeltaListByteSize_eq hoffset rfl
      rw [moveBytes_add hk]
      exact hsource _ ⟨by omega, by omega⟩
    · simp only
      exact moveBytes_of_not_mem (by have := hbit index le_rfl le_rfl hstays; simp only [InBytes] at this; omega)

/-- Lists `first .. last` whose old bytes hold `original` are each moved to
their new offset with those bytes, along the recursion of
`rebalanceDeltaMemory`. -/
theorem rebalanceDeltaMemory_spec (deltaMemory : DeltaMemory) (first last : ℕ) (hle : first ≤ last)
    (hgeom : Rebalanceable lists tempOffsets first last) (htemp : deltaMemory.tempOffsets = tempOffsets)
    (hlists : ∀ i, first ≤ i → i ≤ last → deltaMemory.deltaLists i = lists i)
    (hsource : ∀ i, first ≤ i → i ≤ last → ∀ bit, InBytes (lists i) bit → deltaMemory.memory bit = original bit) :
    Rebalanced lists tempOffsets original first last deltaMemory (rebalanceDeltaMemory deltaMemory first last) := by
  induction deltaMemory, first, last using rebalanceDeltaMemory.induct with
  | case1 deltaMemory first last hlt middle hup ihHigh _ ihLow =>
    have hmiddle : first ≤ (first + last) / 2 ∧ (first + last) / 2 < last := by omega
    have hupList : getDeltaListStart (lists ((first + last) / 2)) < tempOffsets ((first + last) / 2) := by
      rw [← hlists _ hmiddle.1 hmiddle.2.le, ← htemp]
      exact hup
    rw [rebalanceDeltaMemory, if_pos hlt]
    dsimp only
    rw [if_pos hup]
    have hhigh := ihHigh (by omega) (hgeom.mono (by omega) le_rfl) htemp
      (fun i h1 h2 => hlists i (by omega) h2) (fun i h1 h2 => hsource i (by omega) h2)
    have hlow := ihLow hmiddle.1 (hgeom.mono le_rfl (by omega)) (by rw [hhigh.tempOffsets_eq, htemp])
      (fun i h1 h2 => by rw [hhigh.others i (by omega), hlists i h1 (by omega)])
      (fun i h1 h2 bit hbit => by
        rw [hhigh.frame bit fun k hk1 hk2 _ hk =>
          absurd hk.1 (by have := hgeom.lt_of_inBytes_of_moves_up h1 h2 (by omega) hk2 hupList hbit; omega)]
        exact hsource i h1 (by omega) bit hbit)
    refine Rebalanced.comp (fun i => ?_) (fun i h1 h2 => ?_) (fun i j bit h1 h2 h3 h4 hi hj => ?_) hhigh hlow
    · omega
    · omega
    · have := hgeom.lt_of_inBytes_moved h3 (show j < i by omega) h2 hj
      exact absurd hi.1 (by omega)
  | case2 deltaMemory first last hlt middle hdown ihLow _ ihHigh =>
    have hmiddle : first ≤ (first + last) / 2 ∧ (first + last) / 2 < last := by omega
    have hdownList : tempOffsets ((first + last) / 2) ≤ getDeltaListStart (lists ((first + last) / 2)) := by
      rw [← hlists _ hmiddle.1 hmiddle.2.le, ← htemp]
      exact Nat.le_of_not_lt hdown
    rw [rebalanceDeltaMemory, if_pos hlt]
    dsimp only
    rw [if_neg hdown]
    have hlow := ihLow hmiddle.1 (hgeom.mono le_rfl (by omega)) htemp
      (fun i h1 h2 => hlists i h1 (by omega)) (fun i h1 h2 => hsource i h1 (by omega))
    have hhigh := ihHigh (by omega) (hgeom.mono (by omega) le_rfl) (by rw [hlow.tempOffsets_eq, htemp])
      (fun i h1 h2 => by rw [hlow.others i (by omega), hlists i (by omega) h2])
      (fun i h1 h2 bit hbit => by
        rw [hlow.frame bit fun j hj1 hj2 hmoves hj =>
          absurd hbit.1 (by
            have := hgeom.lt_of_inBytes_moved_of_moves_down hj1 hj2 (by omega) h2 hdownList hmoves hj
            omega)]
        exact hsource i (by omega) h2 bit hbit)
    refine Rebalanced.comp (fun i => ?_) (fun i h1 h2 => ?_) (fun i j bit h1 h2 h3 h4 hi hj => ?_) hlow hhigh
    · omega
    · omega
    · have := hgeom.lt_of_inBytes_moved h1 (show i < j by omega) h4 hi
      exact absurd hj.1 (by omega)
  | case3 deltaMemory first last hnlt =>
    obtain rfl : last = first := by omega
    rw [rebalanceDeltaMemory, if_neg hnlt]
    exact moveDeltaList_rebalanced (hgeom.bitOffset last le_rfl le_rfl) htemp (hlists last le_rfl le_rfl)
      (hsource last le_rfl le_rfl)

/-- A rebalanced list's bits lie at its new offset, in order. -/
theorem Rebalanced.listBits {first last : ℕ} {before after : DeltaMemory}
    (h : Rebalanced lists tempOffsets original first last before after)
    (hgeom : Rebalanceable lists tempOffsets first last) {i : ℕ} (h1 : first ≤ i) (h2 : i ≤ last)
    {k : ℕ} (hk : k < getDeltaListSize (lists i)) :
    after.memory (tempOffsets i + k) = original (getDeltaListStart (lists i) + k) := by
  have hoffset := hgeom.bitOffset i h1 h2
  have hcopy := h.copied i h1 h2 (tempOffsets i % 8 + k) (by
    simp only [getDeltaListByteSize, getDeltaListStart_movedList, getDeltaListSize_movedList]
    omega)
  simp only [getDeltaListByteStart, getDeltaListStart_movedList] at hcopy
  rw [show tempOffsets i + k = 8 * (tempOffsets i / 8) + (tempOffsets i % 8 + k) by omega, hcopy]
  congr 1
  omega

end Spec

/-! ## The layout `extendDeltaMemory` computes -/

/-- The bytes lists `0 .. count - 1` touch. -/
def bytesBefore (lists : ℕ → DeltaListSpan) (count : ℕ) : ℕ :=
  ((List.range count).map fun i => getDeltaListByteSize (lists i)).sum

theorem bytesBefore_succ (lists : ℕ → DeltaListSpan) (count : ℕ) :
    bytesBefore lists (count + 1) = bytesBefore lists count + getDeltaListByteSize (lists count) := by
  simp [bytesBefore, List.range_succ]

theorem listBytes_eq (deltaMemory : DeltaMemory) :
    listBytes deltaMemory = bytesBefore deltaMemory.deltaLists (deltaMemory.numLists + 2) :=
  rfl

section Extend

variable {lists : ℕ → DeltaListSpan} {spacing growingIndex growingSize : ℕ}

/-- A list after the first starts `spacing` bytes, and `growingSize` more
before list `growingIndex`, after the bytes of the list before it. -/
theorem tempByteOffset_succ_of_pos {i : ℕ} (hi : 0 < i) :
    tempByteOffset lists spacing growingIndex growingSize (i + 1) =
      tempByteOffset lists spacing growingIndex growingSize i + getDeltaListByteSize (lists i) + spacing +
        if i + 1 = growingIndex then growingSize else 0 := by
  rw [tempByteOffset, if_neg (by omega)]

/-- The offset of list `j`: the bytes of the lists before it, `j` spacings
less the half before the first list, and `growingSize` once list
`growingIndex` is passed. -/
theorem tempByteOffset_add_half {j : ℕ} (hj : 0 < j) :
    tempByteOffset lists spacing growingIndex growingSize j + spacing / 2 =
      bytesBefore lists j + j * spacing + if 1 ≤ growingIndex ∧ growingIndex ≤ j then growingSize else 0 := by
  induction j, hj using Nat.le_induction with
  | base =>
    simp only [tempByteOffset, bytesBefore, List.range_one, List.map_cons, List.map_nil,
      List.sum_cons, List.sum_nil]
    split_ifs <;> omega
  | succ j hj ih =>
    rw [tempByteOffset_succ_of_pos hj, bytesBefore_succ, Nat.succ_mul]
    split_ifs at ih ⊢ <;> omega

end Extend

section LayoutOffsets

variable {deltaMemory : DeltaMemory} {spacing growingIndex growingSize : ℕ}

theorem layoutOffsets_of_le {i : ℕ} (hi : i ≤ deltaMemory.numLists) :
    deltaMemory.layoutOffsets spacing growingIndex growingSize i =
      tempByteOffset deltaMemory.deltaLists spacing growingIndex growingSize i * 8 +
        getDeltaListStart (deltaMemory.deltaLists i) % 8 := by
  rw [DeltaMemory.layoutOffsets, Function.update_of_ne (by omega),
    computeTempOffsets_eq (Function.update_self ..), if_pos (by omega)]

theorem layoutOffsets_tail :
    deltaMemory.layoutOffsets spacing growingIndex growingSize (deltaMemory.numLists + 1) =
      deltaMemory.size * 8 - getDeltaListSize (deltaMemory.deltaLists (deltaMemory.numLists + 1)) := by
  rw [DeltaMemory.layoutOffsets, Function.update_self]

/-- A tail guard list of `GUARD_BITS` bits that ends the memory takes its
last seven bytes. -/
theorem tailGuard_byteStart
    (hsize : getDeltaListSize (deltaMemory.deltaLists (deltaMemory.numLists + 1)) = guardBits)
    (hend : getDeltaListEnd (deltaMemory.deltaLists (deltaMemory.numLists + 1)) = deltaMemory.size * 8) :
    getDeltaListByteStart (deltaMemory.deltaLists (deltaMemory.numLists + 1)) + postFieldGuardBytes =
        deltaMemory.size ∧
      getDeltaListByteSize (deltaMemory.deltaLists (deltaMemory.numLists + 1)) = postFieldGuardBytes := by
  simp only [getDeltaListEnd, guardBits, postFieldGuardBytes] at hend hsize
  simp only [getDeltaListByteStart, getDeltaListByteSize, postFieldGuardBytes, hsize]
  omega

/-- With the spacing `extendDeltaMemory` takes, the last real list ends at
least `growingSize` bytes before the tail guard list, unless the growth went
before one of the real lists. -/
theorem tempByteOffset_numLists_le (growingIndex : ℕ) (hfit : growingSize + listBytes deltaMemory ≤ deltaMemory.size) :
    tempByteOffset deltaMemory.deltaLists ((deltaMemory.size - (growingSize + listBytes deltaMemory)) /
        deltaMemory.numLists) growingIndex growingSize deltaMemory.numLists +
      getDeltaListByteSize (deltaMemory.deltaLists deltaMemory.numLists) +
      (if 1 ≤ growingIndex ∧ growingIndex ≤ deltaMemory.numLists then 0 else growingSize) +
      getDeltaListByteSize (deltaMemory.deltaLists (deltaMemory.numLists + 1)) ≤ deltaMemory.size := by
  have hpos := deltaMemory.numLists_pos
  obtain ⟨free, hfree⟩ : ∃ free, deltaMemory.size - (growingSize + listBytes deltaMemory) = free := ⟨_, rfl⟩
  have hspacing := Nat.mul_div_le free deltaMemory.numLists
  obtain ⟨spacing, hsp⟩ : ∃ spacing, free / deltaMemory.numLists = spacing := ⟨_, rfl⟩
  rw [hfree, hsp]
  rw [hsp] at hspacing
  have hclosed := @tempByteOffset_add_half deltaMemory.deltaLists spacing growingIndex growingSize _ hpos
  have hused : listBytes deltaMemory = bytesBefore deltaMemory.deltaLists deltaMemory.numLists +
      getDeltaListByteSize (deltaMemory.deltaLists deltaMemory.numLists) +
      getDeltaListByteSize (deltaMemory.deltaLists (deltaMemory.numLists + 1)) := by
    rw [listBytes_eq, bytesBefore_succ, bytesBefore_succ]
  split_ifs at hclosed ⊢ <;> omega

/-- The new offsets keep each list's offset within its byte: the real lists'
by construction, the tail guard list's because it already ends the memory. -/
theorem layoutOffsets_mod_eight
    (hend : getDeltaListEnd (deltaMemory.deltaLists (deltaMemory.numLists + 1)) = deltaMemory.size * 8)
    {i : ℕ} (hi : i ≤ deltaMemory.numLists + 1) :
    deltaMemory.layoutOffsets spacing growingIndex growingSize i % 8 =
      getDeltaListStart (deltaMemory.deltaLists i) % 8 := by
  rcases Nat.lt_or_ge i (deltaMemory.numLists + 1) with hlt | hge
  · rw [layoutOffsets_of_le (by omega)]
    omega
  · obtain rfl : i = deltaMemory.numLists + 1 := by omega
    rw [layoutOffsets_tail]
    simp only [getDeltaListEnd] at hend
    omega

/-- At the offsets `extendDeltaMemory` computes for lists that fit, each of
lists `1 .. numLists` ends its bytes before the next list's bytes begin. Only
the tail guard list is needed in place, so this holds of the sizes a restore
reads as well. -/
theorem layoutOffsets_newOrder
    (hsize : getDeltaListSize (deltaMemory.deltaLists (deltaMemory.numLists + 1)) = guardBits)
    (hend : getDeltaListEnd (deltaMemory.deltaLists (deltaMemory.numLists + 1)) = deltaMemory.size * 8)
    (hfit : growingSize + listBytes deltaMemory ≤ deltaMemory.size) {i : ℕ} (h1 : 1 ≤ i)
    (h2 : i < deltaMemory.numLists + 1) :
    getDeltaListByteStart (movedList deltaMemory.deltaLists (deltaMemory.layoutOffsets
          ((deltaMemory.size - (growingSize + listBytes deltaMemory)) / deltaMemory.numLists)
          growingIndex growingSize) i) +
        getDeltaListByteSize (movedList deltaMemory.deltaLists (deltaMemory.layoutOffsets
          ((deltaMemory.size - (growingSize + listBytes deltaMemory)) / deltaMemory.numLists)
          growingIndex growingSize) i) ≤
      getDeltaListByteStart (movedList deltaMemory.deltaLists (deltaMemory.layoutOffsets
          ((deltaMemory.size - (growingSize + listBytes deltaMemory)) / deltaMemory.numLists)
          growingIndex growingSize) (i + 1)) := by
  have hlast := tempByteOffset_numLists_le growingIndex hfit
  generalize (deltaMemory.size - (growingSize + listBytes deltaMemory)) / deltaMemory.numLists = spacing
    at hlast ⊢
  have hbyte : getDeltaListByteSize (movedList deltaMemory.deltaLists
      (deltaMemory.layoutOffsets spacing growingIndex growingSize) i) = getDeltaListByteSize (deltaMemory.deltaLists i) :=
    getDeltaListByteSize_eq (layoutOffsets_mod_eight hend (by omega)) rfl
  have hstart : ∀ j ≤ deltaMemory.numLists, getDeltaListByteStart (movedList deltaMemory.deltaLists
      (deltaMemory.layoutOffsets spacing growingIndex growingSize) j) =
      tempByteOffset deltaMemory.deltaLists spacing growingIndex growingSize j := by
    intro j hj
    simp only [getDeltaListByteStart, getDeltaListStart_movedList, layoutOffsets_of_le hj]
    omega
  rw [hbyte, hstart i (by omega)]
  rcases Nat.lt_or_ge (i + 1) (deltaMemory.numLists + 1) with hlt | hge
  · rw [hstart (i + 1) (by omega), tempByteOffset_succ_of_pos (by omega)]
    omega
  · obtain rfl : i = deltaMemory.numLists := by omega
    have htail := tailGuard_byteStart hsize hend
    simp only [getDeltaListByteStart, getDeltaListStart_movedList, layoutOffsets_tail, hsize, guardBits,
      postFieldGuardBytes] at htail hlast ⊢
    split_ifs at hlast <;> omega

/-- Lists that fit can be rebalanced into the layout `extendDeltaMemory`
computes for them. -/
theorem rebalanceable_layoutOffsets (hlayout : deltaMemory.Layout)
    (hfit : growingSize + listBytes deltaMemory ≤ deltaMemory.size) :
    Rebalanceable deltaMemory.deltaLists
      (deltaMemory.layoutOffsets ((deltaMemory.size - (growingSize + listBytes deltaMemory)) / deltaMemory.numLists)
        growingIndex growingSize) 1 (deltaMemory.numLists + 1) where
  bitOffset i _ h2 := layoutOffsets_mod_eight hlayout.tail_end h2
  oldOrder i _ h2 := hlayout.ordered i (by omega)
  newOrder i h1 h2 := layoutOffsets_newOrder hlayout.tail_size hlayout.tail_end hfit h1 h2

/-- The layout leaves at least `growingSize` bytes free before list
`growingIndex`, after the list before it at its new offset. -/
theorem layoutOffsets_growing_gap (hlayout : deltaMemory.Layout)
    (hfit : growingSize + listBytes deltaMemory ≤ deltaMemory.size)
    (hgrowing : 1 ≤ growingIndex ∧ growingIndex ≤ deltaMemory.numLists + 1) :
    getDeltaListEnd (movedList deltaMemory.deltaLists
        (deltaMemory.layoutOffsets ((deltaMemory.size - (growingSize + listBytes deltaMemory)) / deltaMemory.numLists)
          growingIndex growingSize) (growingIndex - 1)) + 8 * growingSize ≤
      deltaMemory.layoutOffsets ((deltaMemory.size - (growingSize + listBytes deltaMemory)) / deltaMemory.numLists)
        growingIndex growingSize growingIndex := by
  have hlast := tempByteOffset_numLists_le growingIndex hfit
  generalize (deltaMemory.size - (growingSize + listBytes deltaMemory)) / deltaMemory.numLists = spacing at hlast ⊢
  have hbefore := getDeltaListEnd_le_byteEnd (movedList deltaMemory.deltaLists
    (deltaMemory.layoutOffsets spacing growingIndex growingSize) (growingIndex - 1))
  have hbyte : getDeltaListByteSize (movedList deltaMemory.deltaLists
      (deltaMemory.layoutOffsets spacing growingIndex growingSize) (growingIndex - 1)) =
      getDeltaListByteSize (deltaMemory.deltaLists (growingIndex - 1)) :=
    getDeltaListByteSize_eq (layoutOffsets_mod_eight hlayout.tail_end (by omega)) rfl
  rw [hbyte] at hbefore
  simp only [getDeltaListByteStart, getDeltaListStart_movedList,
    layoutOffsets_of_le (show growingIndex - 1 ≤ deltaMemory.numLists by omega)] at hbefore
  rcases Nat.lt_or_ge growingIndex (deltaMemory.numLists + 1) with hreal | htail
  · rw [layoutOffsets_of_le (by omega)]
    obtain ⟨i, rfl⟩ : ∃ i, growingIndex = i + 1 := ⟨growingIndex - 1, by omega⟩
    simp only [Nat.add_sub_cancel, tempByteOffset] at hbefore ⊢
    split_ifs <;> omega
  · obtain rfl : growingIndex = deltaMemory.numLists + 1 := by omega
    have htailStart := tailGuard_byteStart hlayout.tail_size hlayout.tail_end
    have hsize := hlayout.tail_size
    rw [layoutOffsets_tail, hsize]
    simp only [Nat.add_sub_cancel, getDeltaListByteStart, guardBits, postFieldGuardBytes] at hbefore htailStart ⊢
    rw [if_neg (by omega)] at hlast
    omega

end LayoutOffsets


/-- A rebalance leaves the headers before its range. -/
theorem rebalanceDeltaMemory_deltaLists_of_lt (deltaMemory : DeltaMemory) (first last : ℕ) {i : ℕ} (hi : i < first) :
    (rebalanceDeltaMemory deltaMemory first last).deltaLists i = deltaMemory.deltaLists i := by
  induction deltaMemory, first, last using rebalanceDeltaMemory.induct with
  | case1 deltaMemory first last hlt middle hup ihHigh _ ihLow =>
    rw [rebalanceDeltaMemory, if_pos hlt]
    dsimp only
    rw [if_pos hup, ihLow hi, ihHigh (by omega)]
  | case2 deltaMemory first last hlt middle hdown ihLow _ ihHigh =>
    rw [rebalanceDeltaMemory, if_pos hlt]
    dsimp only
    rw [if_neg hdown, ihHigh (by omega), ihLow hi]
  | case3 deltaMemory first last hnlt =>
    rw [rebalanceDeltaMemory, if_neg hnlt, moveDeltaList]
    split_ifs
    · exact Function.update_of_ne (by omega) _ _
    · rfl

/-! ## Extending with a copy -/

/-- `extendDeltaMemory` with `doCopy`, on a memory that keeps its layout and
for a growing list among `1 .. numLists + 1`, either finds that the lists and
the growth do not fit and returns `UDS_OVERFLOW`, or keeps the layout. Then
every list but the head guard starts at its new offset, at the same offset
within its byte, with the same size and the same bits, and at least
`growingSize` bytes are free before the growing list. -/
theorem extendDeltaMemory_moves_lists (deltaMemory : DeltaMemory) (hlayout : deltaMemory.Layout)
    {growingIndex : ℕ} (growingSize : ℕ) (hgrowing : 1 ≤ growingIndex ∧ growingIndex ≤ deltaMemory.numLists + 1) :
    (deltaMemory.size < growingSize + listBytes deltaMemory ∧
        extendDeltaMemory deltaMemory growingIndex growingSize true = .error .overflow) ∨
      ∃ moved, extendDeltaMemory deltaMemory growingIndex growingSize true = .ok moved ∧
        moved.Layout ∧ moved.numLists = deltaMemory.numLists ∧ moved.size = deltaMemory.size ∧
        (∀ i, 1 ≤ i → i ≤ deltaMemory.numLists + 1 →
          getDeltaListStart (moved.deltaLists i) = moved.tempOffsets i ∧
          getDeltaListStart (moved.deltaLists i) % 8 = getDeltaListStart (deltaMemory.deltaLists i) % 8 ∧
          getDeltaListSize (moved.deltaLists i) = getDeltaListSize (deltaMemory.deltaLists i) ∧
          ∀ k < getDeltaListSize (deltaMemory.deltaLists i),
            moved.memory (getDeltaListStart (moved.deltaLists i) + k) =
              deltaMemory.memory (getDeltaListStart (deltaMemory.deltaLists i) + k)) ∧
        getDeltaListEnd (moved.deltaLists (growingIndex - 1)) + 8 * growingSize ≤
          getDeltaListStart (moved.deltaLists growingIndex) := by
  by_cases hfit : growingSize + listBytes deltaMemory ≤ deltaMemory.size
  · right
    have hgeom := @rebalanceable_layoutOffsets deltaMemory growingIndex growingSize hlayout hfit
    have hgap := layoutOffsets_growing_gap hlayout hfit hgrowing
    have htailOffset := @layoutOffsets_tail deltaMemory
      ((deltaMemory.size - (growingSize + listBytes deltaMemory)) / deltaMemory.numLists) growingIndex growingSize
    have hheadOffset := @layoutOffsets_of_le deltaMemory
      ((deltaMemory.size - (growingSize + listBytes deltaMemory)) / deltaMemory.numLists) growingIndex growingSize 0
      (Nat.zero_le _)
    rw [extendDeltaMemory, if_neg (by omega)]
    dsimp only
    rw [if_pos rfl]
    generalize deltaMemory.layoutOffsets ((deltaMemory.size - (growingSize + listBytes deltaMemory)) /
      deltaMemory.numLists) growingIndex growingSize = tempOffsets at hgeom hgap htailOffset hheadOffset ⊢
    have hspec := @rebalanceDeltaMemory_spec deltaMemory.deltaLists tempOffsets deltaMemory.memory
      { deltaMemory with tempOffsets } 1 (deltaMemory.numLists + 1) (by omega) hgeom rfl (fun _ _ _ => rfl)
      (fun _ _ _ _ _ => rfl)
    refine ⟨_, rfl, ?_⟩
    generalize rebalanceDeltaMemory { deltaMemory with tempOffsets } 1 (deltaMemory.numLists + 1) = moved at hspec
    have hnum : moved.numLists = deltaMemory.numLists := by rw [hspec.fields]
    have hsize : moved.size = deltaMemory.size := by rw [hspec.fields]
    have htemp : moved.tempOffsets = tempOffsets := by rw [hspec.fields]
    have hhead : moved.deltaLists 0 = deltaMemory.deltaLists 0 := hspec.others 0 (by omega)
    have htail : moved.deltaLists (deltaMemory.numLists + 1) =
        movedList deltaMemory.deltaLists tempOffsets (deltaMemory.numLists + 1) :=
      hspec.moved _ (by omega) le_rfl
    have hheadSize := hlayout.head_size
    have hheadStart := hlayout.head_start
    have htailEnd := hlayout.tail_end
    simp only [getDeltaListEnd] at htailEnd
    refine ⟨⟨?_, ?_, ?_, ?_, ?_, ?_⟩, hnum, hsize, fun i h1 h2 => ⟨?_, ?_, ?_, fun k hk => ?_⟩, ?_⟩
    · rw [hhead, hheadStart]
    · rw [hhead, hheadSize]
    · intro i hi
      rw [hnum] at hi
      rw [hspec.moved (i + 1) (by omega) (by omega), getDeltaListStart_movedList]
      rcases Nat.eq_zero_or_pos i with rfl | hpos
      · rw [hhead]
        simp only [getDeltaListEnd, hheadStart, hheadSize]
        omega
      · rw [hspec.moved i hpos (by omega)]
        have hend := getDeltaListEnd_le_byteEnd (movedList deltaMemory.deltaLists tempOffsets i)
        have horder := hgeom.newOrder i hpos (by omega)
        simp only [getDeltaListByteStart, getDeltaListStart_movedList] at hend horder
        omega
    · rw [hnum, htail, getDeltaListSize_movedList]
      exact hlayout.tail_size
    · rw [hnum, hsize, htail]
      simp only [getDeltaListEnd, getDeltaListStart_movedList, getDeltaListSize_movedList, htailOffset]
      omega
    · intro k hk
      rw [hnum, htail, getDeltaListStart_movedList,
        hspec.listBits hgeom (by omega) le_rfl (by rw [hlayout.tail_size]; exact hk)]
      exact hlayout.guard k hk
    · rw [hspec.moved i h1 h2, htemp]
      rfl
    · rw [hspec.moved i h1 h2, getDeltaListStart_movedList]
      exact hgeom.bitOffset i h1 h2
    · rw [hspec.moved i h1 h2, getDeltaListSize_movedList]
    · rw [hspec.moved i h1 h2, getDeltaListStart_movedList]
      exact hspec.listBits hgeom h1 h2 hk
    · have hprev : moved.deltaLists (growingIndex - 1) =
          movedList deltaMemory.deltaLists tempOffsets (growingIndex - 1) := by
        rcases Nat.eq_or_lt_of_le hgrowing.1 with hfirst | hlater
        · rw [← hfirst, Nat.sub_self, hhead, movedList_eq_of_start]
          simp only [hheadOffset, hheadStart, tempByteOffset]
        · exact hspec.moved _ (by omega) (by omega)
      rw [hprev, hspec.moved growingIndex hgrowing.1 hgrowing.2, getDeltaListStart_movedList]
      exact hgap
  · left
    refine ⟨by omega, ?_⟩
    rw [extendDeltaMemory, if_pos (by omega)]


/-- A memory of sixteen bytes with one empty list at bit 8, the tail guard
list in its last seven bytes. -/
def oneListMemory : DeltaMemory where
  memory bit := decide (72 ≤ bit)
  deltaLists i :=
    if i = 0 then ⟨0, 0, DeltaListSpan.zero_size_lt⟩
    else if i = 1 then ⟨8, 0, DeltaListSpan.zero_size_lt⟩
    else ⟨72, 56, by decide⟩
  tempOffsets _ := 0
  flags _ := false
  size := 16
  firstList := 0
  numLists := 1
  numLists_pos := by decide
  numTransfers := 0

theorem oneListMemory_layout : oneListMemory.Layout :=
  ⟨rfl, rfl, by decide, rfl, rfl, by decide⟩

/-- A memory of thirty-two bytes with two lists holding set bits, packed after
one another from bit 8, and the tail guard list in its last seven bytes. -/
def twoListMemory : DeltaMemory where
  memory bit := decide (200 ≤ bit) || bit = 9 || bit = 12 || bit = 27
  deltaLists i :=
    if i = 0 then ⟨0, 0, DeltaListSpan.zero_size_lt⟩
    else if i = 1 then ⟨8, 13, by decide⟩
    else if i = 2 then ⟨24, 10, by simp⟩
    else ⟨200, 56, by decide⟩
  tempOffsets _ := 0
  flags _ := false
  size := 32
  firstList := 0
  numLists := 2
  numLists_pos := Nat.zero_lt_two
  numTransfers := 0

/-- Growing list 2 by two bytes spreads the lists out: list 1 moves from bit 8
to bit 40 and list 2 from bit 24 to bit 144, each with its bits. -/
theorem extendDeltaMemory_moves_lists_two_lists :
    twoListMemory.Layout ∧
      (extendDeltaMemory twoListMemory 2 2 true).toOption.map
          (fun moved => (getDeltaListStart (moved.deltaLists 1), getDeltaListStart (moved.deltaLists 2))) =
        some (40, 144) ∧
      ((twoListMemory.size < 2 + listBytes twoListMemory ∧
          extendDeltaMemory twoListMemory 2 2 true = .error .overflow) ∨
        ∃ moved, extendDeltaMemory twoListMemory 2 2 true = .ok moved ∧
          moved.Layout ∧ moved.numLists = twoListMemory.numLists ∧ moved.size = twoListMemory.size ∧
          (∀ i, 1 ≤ i → i ≤ twoListMemory.numLists + 1 →
            getDeltaListStart (moved.deltaLists i) = moved.tempOffsets i ∧
            getDeltaListStart (moved.deltaLists i) % 8 = getDeltaListStart (twoListMemory.deltaLists i) % 8 ∧
            getDeltaListSize (moved.deltaLists i) = getDeltaListSize (twoListMemory.deltaLists i) ∧
            ∀ k < getDeltaListSize (twoListMemory.deltaLists i),
              moved.memory (getDeltaListStart (moved.deltaLists i) + k) =
                twoListMemory.memory (getDeltaListStart (twoListMemory.deltaLists i) + k)) ∧
          getDeltaListEnd (moved.deltaLists (2 - 1)) + 8 * 2 ≤ getDeltaListStart (moved.deltaLists 2)) :=
  have hlayout : twoListMemory.Layout := ⟨rfl, rfl, by decide, rfl, rfl, by decide⟩
  ⟨hlayout, by decide +kernel, extendDeltaMemory_moves_lists twoListMemory hlayout 2 ⟨by decide, by decide⟩⟩

/-- Growing the head guard list, list 0, succeeds, but the head guard list
stays at offset 0 with no byte free before it. -/
theorem extendDeltaMemory_head_list_no_room :
    oneListMemory.Layout ∧
      ∃ moved, extendDeltaMemory oneListMemory 0 1 true = .ok moved ∧
        getDeltaListStart (moved.deltaLists 0) < 8 * 1 := by
  refine ⟨oneListMemory_layout, _, by rw [extendDeltaMemory, if_neg (by decide)]; rfl, ?_⟩
  rw [rebalanceDeltaMemory_deltaLists_of_lt _ _ _ (by decide)]
  decide

end Vdo.Uds
