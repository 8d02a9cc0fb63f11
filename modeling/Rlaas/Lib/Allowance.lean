import Mathlib.Algebra.Order.Field.Basic
import Mathlib.Data.List.Chain
import Mathlib.Tactic.Linarith

/-! A budget that refills with time up to a capacity and is drawn from. What a
draw finds was left by the one before it or has been refilled since; what is
left is only known up to a slack. -/

set_option autoImplicit false

namespace Allowance

/-- When something was taken out of the budget, how much, and what was left. -/
structure Draw (K : Type) where
  time : K
  amount : K
  left : K

section Draws

variable {K : Type} [Field K] [LinearOrder K] {capacity rate slack : K}
variable {draws : List (Draw K)}

def total (draws : List (Draw K)) : K := (draws.map Draw.amount).sum

/-- How far a clock ran forward from each reading to the next, added up. -/
def climb : List K → K
  | first :: second :: rest => max 0 (second - first) + climb (second :: rest)
  | _ => 0

/-- No draw finds more than the capacity, nor more than was left before it and refilled since. -/
structure Funded (capacity rate slack : K) (draws : List (Draw K)) : Prop where
  solvent : ∀ draw ∈ draws, 0 ≤ draw.left
  held : ∀ draw ∈ draws, draw.amount + draw.left ≤ capacity + slack
  refilled : draws.IsChain fun earlier later =>
    later.amount + later.left ≤ earlier.left + rate * max 0 (later.time - earlier.time) + slack

theorem Funded.nil : Funded capacity rate slack ([] : List (Draw K)) :=
  ⟨by simp, by simp, .nil⟩

theorem Funded.snoc {draw : Draw K} (funded : Funded capacity rate slack draws)
    (solvent : 0 ≤ draw.left) (held : draw.amount + draw.left ≤ capacity + slack)
    (refilled : ∀ latest ∈ draws.getLast?,
      draw.amount + draw.left ≤ latest.left + rate * max 0 (draw.time - latest.time) + slack) :
    Funded capacity rate slack (draws ++ [draw]) := by
  refine ⟨?_, ?_, ?_⟩
  · exact List.forall_mem_append.mpr ⟨funded.solvent, List.forall_mem_singleton.mpr solvent⟩
  · exact List.forall_mem_append.mpr ⟨funded.held, List.forall_mem_singleton.mpr held⟩
  · refine List.isChain_append.mpr ⟨funded.refilled, .singleton draw, fun latest last next here => ?_⟩
    cases here
    exact refilled latest last

theorem Funded.segment {before segment after : List (Draw K)}
    (funded : Funded capacity rate slack (before ++ segment ++ after)) :
    Funded capacity rate slack segment := by
  have within : ∀ draw ∈ segment, draw ∈ before ++ segment ++ after := fun draw member =>
    List.mem_append_left after (List.mem_append_right before member)
  exact ⟨fun draw member => funded.solvent draw (within draw member),
    fun draw member => funded.held draw (within draw member),
    funded.refilled.left_of_append.right_of_append⟩

variable [IsStrictOrderedRing K]

/-- The draws of a segment are paid out of what the first one found and the refills after it. -/
theorem Funded.total_le_first {first : Draw K} {rest : List (Draw K)}
    (funded : Funded capacity rate slack (first :: rest)) :
    total (first :: rest) ≤
      first.amount + first.left + rate * climb ((first :: rest).map Draw.time) +
        slack * rest.length := by
  induction rest generalizing first with
  | nil =>
      have solvent := funded.solvent first List.mem_cons_self
      simp only [total, climb, List.map_cons, List.map_nil, List.sum_cons, List.sum_nil,
        List.length_nil, Nat.cast_zero]
      linarith
  | cons second rest ih =>
      have whole : Funded capacity rate slack ([first] ++ (second :: rest) ++ []) := by
        rwa [List.append_nil]
      have later := ih whole.segment
      have next := (List.isChain_cons_cons.mp funded.refilled).1
      simp only [total, climb, List.map_cons, List.sum_cons, List.length_cons, Nat.cast_succ]
        at later ⊢
      linarith

theorem Funded.total_le (funded : Funded capacity rate slack draws) (some : draws ≠ []) :
    total draws ≤ capacity + rate * climb (draws.map Draw.time) + slack * draws.length := by
  obtain ⟨first, rest, rfl⟩ := List.exists_cons_of_ne_nil some
  have paid := funded.total_le_first
  have held := funded.held first List.mem_cons_self
  rw [List.length_cons, Nat.cast_succ]
  linarith

theorem climb_nonneg (readings : List K) : 0 ≤ climb readings := by
  induction readings with
  | nil => exact le_refl 0
  | cons first rest ih =>
      cases rest with
      | nil => exact le_refl 0
      | cons second rest => exact add_nonneg (le_max_left _ _) ih

/-- A clock that is read once more climbs no less. -/
theorem climb_cons_le_add (first middle : K) (rest : List K) :
    climb (first :: rest) ≤ max 0 (middle - first) + climb (middle :: rest) := by
  cases rest with
  | nil => exact add_nonneg (le_max_left _ _) (le_refl 0)
  | cons second rest =>
      rw [climb, climb, ← add_assoc]
      refine add_le_add_left (max_le ?_ ?_) _
      · exact add_nonneg (le_max_left _ _) (le_max_left _ _)
      · have before := le_max_right 0 (middle - first)
        have after := le_max_right 0 (second - middle)
        linarith

theorem climb_cons_sublist {first : K} {fewer readings : List K} (part : fewer.Sublist readings) :
    climb (first :: fewer) ≤ climb (first :: readings) := by
  induction part generalizing first with
  | slnil => exact le_refl _
  | cons second _ ih => exact (climb_cons_le_add first second _).trans (add_le_add_right ih _)
  | cons_cons second _ ih => exact add_le_add_right ih _

theorem climb_sublist {fewer readings : List K} (part : fewer.Sublist readings) :
    climb fewer ≤ climb readings := by
  induction part with
  | slnil => exact le_refl _
  | @cons fewer readings first part ih =>
      refine ih.trans ?_
      cases readings with
      | nil => exact le_refl _
      | cons second rest => exact le_add_of_nonneg_left (le_max_left _ _)
  | cons_cons first part _ => exact climb_cons_sublist part

theorem climb_div (readings : List K) {unit : K} (positive : 0 < unit) :
    climb (readings.map (· / unit)) = climb readings / unit := by
  induction readings with
  | nil => exact (zero_div unit).symm
  | cons first rest ih =>
      cases rest with
      | nil => exact (zero_div unit).symm
      | cons second rest =>
          rw [List.map_cons] at ih
          rw [List.map_cons, List.map_cons, climb, climb, ih, add_div, ← sub_div,
            ← max_div_div_right positive.le, zero_div]

/-- A clock that does not run backwards climbs from its first reading to its last. -/
theorem climb_of_ordered {first : K} {rest : List K} (ordered : (first :: rest).IsChain (· ≤ ·)) :
    climb (first :: rest) = (first :: rest).getLast (List.cons_ne_nil _ _) - first := by
  induction rest generalizing first with
  | nil => exact (sub_self _).symm
  | cons second rest ih =>
      obtain ⟨next, later⟩ := List.isChain_cons_cons.mp ordered
      rw [climb, ih later, max_eq_right (sub_nonneg.mpr next), List.getLast_cons_cons,
        sub_add_sub_cancel']

theorem Funded.total_le_of_ordered {first final : Draw K}
    (funded : Funded capacity rate slack draws) (ordered : (draws.map Draw.time).IsChain (· ≤ ·))
    (starts : first ∈ draws.head?) (ends : final ∈ draws.getLast?) :
    total draws ≤ capacity + rate * (final.time - first.time) + slack * draws.length := by
  cases draws with
  | nil => cases starts
  | cons head rest =>
      cases starts
      have paid := funded.total_le (List.cons_ne_nil _ _)
      have last : ((first :: rest).map Draw.time).getLast (List.cons_ne_nil _ _) = final.time := by
        rw [List.getLast_map, List.getLast_of_mem_getLast? ends]
      have climbed : climb ((first :: rest).map Draw.time) = final.time - first.time :=
        (climb_of_ordered ordered).trans (congrArg (· - first.time) last)
      rwa [climbed] at paid

end Draws

end Allowance
