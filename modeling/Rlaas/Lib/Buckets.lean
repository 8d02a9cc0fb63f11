import Mathlib.Algebra.BigOperators.Group.List.Basic
import Mathlib.Algebra.Ring.Int.Defs
import Mathlib.Data.List.Basic

/-! Values counted in the first of a row of buckets that takes them. When a later bucket
takes whatever an earlier one takes, the counts added up along the row are the numbers of
values that each bucket would take alone. -/

set_option autoImplicit false

namespace Buckets

variable {β ν : Type} (fits : ν → β → Bool)

/-- The bucket that takes a value, or the place after the last one. -/
def slot (buckets : List β) (v : ν) : Nat := buckets.findIdx (fits v)

/-- The number of values in every bucket, and of those that no bucket takes. -/
def tally : List β → List ν → List Int
  | [], values => [values.length]
  | b :: buckets, values =>
      values.countP (fits · b) :: tally buckets (values.filter fun v => !fits v b)

/-- Every bucket with the counts added up to it. -/
def cumulate : Int → List β → List Int → List (β × Int)
  | cum, b :: buckets, count :: counts => (b, cum + count) :: cumulate (cum + count) buckets counts
  | _, _, _ => []

/-- A later bucket takes whatever an earlier one takes. -/
def Nested (buckets : List β) : Prop :=
  buckets.Pairwise fun b c => ∀ v, fits v b = true → fits v c = true

variable {fits}

theorem tally_nil (buckets : List β) :
    tally fits buckets [] = List.replicate (buckets.length + 1) 0 := by
  induction buckets with
  | nil => rfl
  | cons b buckets ih =>
      rw [tally, List.filter_nil, ih]
      rfl

theorem tally_concat (buckets : List β) (values : List ν) (v : ν) :
    tally fits buckets (values ++ [v]) =
      (tally fits buckets values).modify (slot fits buckets v) (· + 1) := by
  induction buckets generalizing values with
  | nil => simp [tally, slot]
  | cons b buckets ih =>
      rw [tally, tally, List.countP_append, List.filter_append, slot, List.findIdx_cons]
      cases taken : fits v b with
      | true => simp [taken]
      | false =>
          have later := ih (values.filter fun v => !fits v b)
          simp [taken, later, slot]

theorem countP_eq_add {b c : β} (nested : ∀ v, fits v b = true → fits v c = true)
    (values : List ν) :
    values.countP (fits · c) =
      values.countP (fits · b) + (values.filter fun v => !fits v b).countP (fits · c) := by
  induction values with
  | nil => rfl
  | cons v values ih =>
      rw [List.countP_cons, List.countP_cons, ih, List.filter_cons]
      cases taken : fits v b with
      | true => simp [nested v taken, Nat.add_right_comm]
      | false => simp [List.countP_cons, Nat.add_assoc]

theorem sum_tally (buckets : List β) (values : List ν) :
    (tally fits buckets values).sum = values.length := by
  induction buckets generalizing values with
  | nil => simp [tally]
  | cons b buckets ih =>
      have parts := values.length_eq_countP_add_countP (fits · b)
      rw [tally, List.sum_cons, ih, parts, ← List.countP_eq_length_filter]
      simp

theorem cumulate_tally {buckets : List β} (nested : Nested fits buckets) (cum : Int)
    (values : List ν) :
    cumulate cum buckets (tally fits buckets values) =
      buckets.map fun b => (b, cum + values.countP (fits · b)) := by
  induction buckets generalizing cum values with
  | nil => rfl
  | cons b buckets ih =>
      obtain ⟨first, rest⟩ := List.pairwise_cons.mp nested
      rw [tally, cumulate, ih rest, List.map_cons]
      refine congrArg _ (List.map_congr_left fun c member => ?_)
      rw [countP_eq_add (first c member) values, Int.natCast_add, Int.add_assoc]

end Buckets
