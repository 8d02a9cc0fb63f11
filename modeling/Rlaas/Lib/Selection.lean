import Mathlib.Data.List.MinMax
import Mathlib.Data.List.Sort

/-! Choosing the best element of a list: the head of a stable descending sort is
the first element of maximal rank, and what a filter does to the choice. -/

set_option autoImplicit false

namespace Selection

variable {α κ : Type} [LinearOrder κ] (rank : α → κ)

theorem head_insertionSort_eq_argmax {precedes : α → α → Prop} [DecidableRel precedes]
    (descends : ∀ left right, precedes left right ↔ rank right ≤ rank left) (candidates : List α) :
    (candidates.insertionSort precedes).head? = candidates.argmax rank := by
  induction candidates with
  | nil => rfl
  | cons first rest ih =>
      rw [List.insertionSort_cons, List.argmax_cons, ← ih]
      cases rest.insertionSort precedes with
      | nil => rfl
      | cons best _ =>
          by_cases outranked : rank first < rank best
          · simp [descends, outranked, not_le.mpr outranked]
          · simp [descends, outranked, not_lt.mp outranked]

theorem argmax_filter_of_kept {keep : α → Bool} {candidates : List α} {best : α}
    (chosen : candidates.argmax rank = some best) (kept : keep best = true) :
    (candidates.filter keep).argmax rank = some best := by
  induction candidates generalizing best with
  | nil => simp at chosen
  | cons first rest ih =>
      rw [List.argmax_cons] at chosen
      cases found : rest.argmax rank with
      | none =>
          have alone : rest = [] := List.argmax_eq_none.mp found
          subst alone
          simp only [found, Option.some.injEq] at chosen
          subst chosen
          simp [kept]
      | some later =>
          simp only [found] at chosen
          split at chosen
          · next outranked =>
              obtain rfl := Option.some.inj chosen
              have tail := ih found kept
              by_cases keepFirst : keep first = true
              · simp [List.filter_cons_of_pos keepFirst, List.argmax_cons, tail, outranked]
              · rw [List.filter_cons_of_neg keepFirst, tail]
          · next unbeaten =>
              obtain rfl := Option.some.inj chosen
              rw [List.filter_cons_of_pos kept, List.argmax_cons]
              cases filtered : (rest.filter keep).argmax rank with
              | none => rfl
              | some other =>
                  have member : other ∈ rest :=
                    (List.mem_filter.mp (List.argmax_mem filtered)).1
                  have bounded : rank other ≤ rank later := List.le_of_mem_argmax member found
                  simp [not_lt.mpr (le_trans bounded (not_lt.mp unbeaten))]

/-- Filtering leaves the choice alone exactly when it keeps the chosen element. -/
theorem argmax_filter_eq_iff (keep : α → Bool) (candidates : List α) :
    (candidates.filter keep).argmax rank = candidates.argmax rank ↔
      ∀ best, candidates.argmax rank = some best → keep best = true := by
  constructor
  · intro same best chosen
    rw [chosen] at same
    exact (List.mem_filter.mp (List.argmax_mem same)).2
  · intro kept
    cases chosen : candidates.argmax rank with
    | none => simp [List.argmax_eq_none.mp chosen]
    | some best => exact argmax_filter_of_kept rank chosen (kept best chosen)

/-- The chosen element is kept exactly when every dropped one is outranked by a
kept one, or ties with a kept one that comes earlier. -/
theorem argmax_kept_iff [DecidableEq α] (keep : α → Bool) (candidates : List α) :
    (∀ best, candidates.argmax rank = some best → keep best = true) ↔
      ∀ dropped ∈ candidates, keep dropped = false → ∃ kept ∈ candidates, keep kept = true ∧
        (rank dropped < rank kept ∨
          rank dropped = rank kept ∧ candidates.idxOf kept < candidates.idxOf dropped) := by
  constructor
  · intro keeps dropped member lost
    cases chosen : candidates.argmax rank with
    | none =>
        rw [List.argmax_eq_none.mp chosen] at member
        cases member
    | some best =>
        have kept : keep best = true := keeps best chosen
        have found : best ∈ candidates := List.argmax_mem chosen
        refine ⟨best, found, kept, ?_⟩
        rcases lt_or_eq_of_le (List.le_of_mem_argmax member chosen) with below | tied
        · exact .inl below
        · refine .inr ⟨tied, lt_of_le_of_ne (List.index_of_argmax chosen member tied.symm.le) ?_⟩
          intro samePlace
          rw [(List.idxOf_inj found).mp samePlace, lost] at kept
          cases kept
  · intro outranked best chosen
    cases kept : keep best with
    | true => rfl
    | false =>
        obtain ⟨other, member, _, better⟩ := outranked best (List.argmax_mem chosen) kept
        rcases better with above | ⟨tied, earlier⟩
        · exact absurd above (List.not_lt_of_mem_argmax member chosen)
        · exact absurd (List.index_of_argmax chosen member tied.le) (not_le.mpr earlier)

section Unique

variable {candidates : List α}
  (distinct : ∀ left ∈ candidates, ∀ right ∈ candidates, rank left = rank right → left = right)

include distinct

/-- With distinct ranks the choice is the only element above all others. -/
theorem argmax_eq_some_iff_above {best : α} :
    candidates.argmax rank = some best ↔
      best ∈ candidates ∧ ∀ other ∈ candidates, other ≠ best → rank other < rank best := by
  constructor
  · intro chosen
    refine ⟨List.argmax_mem chosen, fun other member different => ?_⟩
    refine lt_of_le_of_ne (List.le_of_mem_argmax member chosen) fun tied => different ?_
    exact distinct other member best (List.argmax_mem chosen) tied
  · rintro ⟨member, above⟩
    cases chosen : candidates.argmax rank with
    | none =>
        rw [List.argmax_eq_none.mp chosen] at member
        cases member
    | some other =>
        by_cases same : other = best
        · rw [same]
        · have below := above other (List.argmax_mem chosen) same
          exact absurd (List.le_of_mem_argmax member chosen) (not_le.mpr below)

theorem argmax_perm {reordered : List α} (same : candidates.Perm reordered) :
    candidates.argmax rank = reordered.argmax rank := by
  cases chosen : candidates.argmax rank with
  | none =>
      have empty : candidates = [] := List.argmax_eq_none.mp chosen
      rw [empty] at same
      rw [List.nil_perm.mp same, List.argmax_nil]
  | some best =>
      obtain ⟨member, above⟩ := (argmax_eq_some_iff_above rank distinct).mp chosen
      have distinct' : ∀ left ∈ reordered, ∀ right ∈ reordered,
          rank left = rank right → left = right := fun left inLeft right inRight =>
        distinct left (same.mem_iff.mpr inLeft) right (same.mem_iff.mpr inRight)
      refine ((argmax_eq_some_iff_above rank distinct').mpr ⟨same.mem_iff.mp member, ?_⟩).symm
      intro other inOther different
      exact above other (same.mem_iff.mpr inOther) different

end Unique

section Ordered

variable {r : α → α → Prop} {items : List α}

theorem find_least (refl : ∀ x, r x x) (ordered : items.Pairwise r) {p : α → Bool} {found : α}
    (first : items.find? p = some found) : ∀ other ∈ items, p other = true → r found other := by
  obtain ⟨_, before, after, shape, missed⟩ := List.find?_eq_some_iff_append.mp first
  rw [shape] at ordered ⊢
  have later := (List.pairwise_cons.mp (List.pairwise_append.mp ordered).2.1).1
  intro other member passes
  rcases List.mem_append.mp member with early | rest
  · exact absurd passes (by simpa using missed other early)
  · rcases List.mem_cons.mp rest with rfl | late
    · exact refl other
    · exact later other late

theorem last_greatest (refl : ∀ x, r x x) (ordered : items.Pairwise r) {last : α}
    (ended : items.getLast? = some last) : ∀ other ∈ items, r other last := by
  obtain ⟨init, shape⟩ := List.getLast?_eq_some_iff.mp ended
  rw [shape] at ordered ⊢
  have earlier := (List.pairwise_append.mp ordered).2.2
  intro other member
  rcases List.mem_append.mp member with early | final
  · exact earlier other early last (List.mem_singleton_self _)
  · rw [List.mem_singleton.mp final]
    exact refl last

end Ordered

end Selection
