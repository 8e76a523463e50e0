import Mathlib.Data.List.Chain
import Mathlib.Data.List.Nodup

/-!
# Adjacent elements of a list

`[a, b] <:+: l` says that `b` comes right after `a` in `l`. A list of
distinct elements gives each element at most one successor, and a relation
that holds along a chain holds of every adjacent pair; these are the facts a
linked structure modelled by the list of its nodes is reasoned about with.
-/

namespace Adjacent

variable {α : Type} {a b c x : α} {l m : List α}

theorem mem_left (h : [a, b] <:+: l) : a ∈ l :=
  h.subset (List.mem_cons_self)

theorem append_right (h : [a, b] <:+: l) (m : List α) : [a, b] <:+: l ++ m :=
  h.trans (List.infix_append [] l m)

/-- The last element and one appended after it are adjacent. -/
theorem getLast_append (h : l.getLast? = some a) (b : α) : [a, b] <:+: l ++ [b] := by
  obtain ⟨init, rfl⟩ : ∃ init, l = init ++ [a] := by
    have hne : l ≠ [] := by
      rintro rfl
      simp at h
    refine ⟨l.dropLast, ?_⟩
    rw [List.getLast?_eq_some_getLast hne, Option.some.injEq] at h
    rw [← h, List.dropLast_append_getLast]
  exact ⟨init, [], by simp⟩

/-- An adjacent pair not at the front lies in the tail. -/
theorem of_cons (h : [a, b] <:+: x :: l) (hne : a ≠ x) : [a, b] <:+: l := by
  rcases List.infix_cons_iff.mp h with hprefix | hinfix
  · exact absurd (List.cons_prefix_cons.mp hprefix).1 hne
  · exact hinfix

/-- In a list of distinct elements, an element has at most one successor. -/
theorem eq_of_nodup (hl : l.Nodup) (h₁ : [a, b] <:+: l) (h₂ : [a, c] <:+: l) : b = c := by
  induction l with
  | nil => simp at h₁
  | cons x l ih =>
    obtain ⟨hx, hl⟩ := List.nodup_cons.mp hl
    by_cases hax : a = x
    · subst hax
      have hfront : ∀ {d}, [a, d] <:+: a :: l → l.head? = some d := by
        intro d hd
        rcases List.infix_cons_iff.mp hd with hprefix | hinfix
        · obtain ⟨t, ht⟩ := (List.cons_prefix_cons.mp hprefix).2
          rw [← ht]
          rfl
        · exact absurd (mem_left hinfix) hx
      exact Option.some.inj ((hfront h₁).symm.trans (hfront h₂))
    · exact ih hl (of_cons h₁ hax) (of_cons h₂ hax)

/-- In a list of distinct elements, the last element has no successor. -/
theorem ne_getLast (hl : l.Nodup) (h : [a, b] <:+: l) : l.getLast? ≠ some a := by
  obtain ⟨init, rest, rfl⟩ := h
  have hsuffix : (a :: b :: rest).Nodup := hl.sublist (by simp)
  intro hlast
  have hlast' : (b :: rest).getLast? = some a := by
    simpa [List.getLast?_append] using hlast
  exact (List.nodup_cons.mp hsuffix).1 (List.mem_of_getLast? hlast')

/-- A relation along a chain holds of every adjacent pair. -/
theorem rel_of_isChain {R : α → α → Prop} (hR : l.IsChain R) (h : [a, b] <:+: l) : R a b := by
  obtain ⟨init, rest, rfl⟩ := h
  have hl : init ++ [a, b] ++ rest = init ++ a :: b :: rest := by simp
  exact List.isChain_iff_forall_rel_of_append_cons_cons.mp hR hl

/-- A chain of `R` is a chain of `S` when `S` follows from `R` on adjacent pairs. -/
theorem isChain_imp {R S : α → α → Prop} (hR : l.IsChain R)
    (H : ∀ a b, [a, b] <:+: l → R a b → S a b) : l.IsChain S := by
  refine List.isChain_iff_forall_rel_of_append_cons_cons.mpr ?_
  intro a b init rest hl
  have hadjacent : [a, b] <:+: l := ⟨init, rest, by simp [hl]⟩
  exact H a b hadjacent (rel_of_isChain hR hadjacent)

/-- A chain extended past its last element by one related to it. -/
theorem isChain_append_singleton {R : α → α → Prop} (hR : l.IsChain R)
    (hlast : ∀ a ∈ l.getLast?, R a b) : (l ++ [b]).IsChain R := by
  refine List.isChain_append.mpr ⟨hR, List.isChain_singleton _, fun a ha c hc => ?_⟩
  rw [List.head?_cons, Option.mem_some_iff] at hc
  exact hc ▸ hlast a ha

theorem nodup_append_singleton (hl : l.Nodup) (hb : b ∉ l) : (l ++ [b]).Nodup := by
  rw [← List.concat_eq_append]
  exact hl.concat hb

end Adjacent
