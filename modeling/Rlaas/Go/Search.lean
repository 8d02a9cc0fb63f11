import Rlaas.Go.Arith
import Mathlib.Data.List.Sort
import Mathlib.Data.Prod.Lex

/-! Package `sort` as far as it is used on `float64`: the order that `Float64s` sorts by,
and the binary search of `Search` and `SearchFloat64s`. -/

set_option autoImplicit false

namespace Rlaas.Go

/-- `Float64Slice.Less`: not-a-number comes before every other value. -/
def float64Less (x y : GoFloat) : Bool := x.lt y || (x == .nan && y != .nan)

def float64s (values : List GoFloat) : List GoFloat :=
  values.insertionSort fun x y => float64Less y x = false

/-- The loop of `Search`. The interval shrinks in every round, so that its length bounds
the rounds. -/
def searchRounds (holds : Nat → Bool) : Nat → Nat → Nat → Nat
  | 0, low, _ => low
  | rounds + 1, low, high =>
      if low < high then
        let middle := (low + high) / 2
        if !holds middle then searchRounds holds rounds (middle + 1) high
        else searchRounds holds rounds low middle
      else low

def search (n : Nat) (holds : Nat → Bool) : Nat := searchRounds holds n 0 n

/-- The least index of a sorted list whose value is not less than `x`. -/
def searchFloat64s (values : List GoFloat) (x : GoFloat) : Nat :=
  search values.length fun i => (values[i]?.map x.le).getD false

section Order

/-- The place of a value in the order of `Float64s`. -/
def float64Rank : GoFloat → Int ×ₗ ℚ
  | .nan => toLex (0, 0)
  | .inf true => toLex (1, 0)
  | .fin q => toLex (2, q)
  | .inf false => toLex (3, 0)

theorem float64Less_eq_false_iff (x y : GoFloat) :
    float64Less y x = false ↔ float64Rank x ≤ float64Rank y := by
  rcases x with _ | (_ | _) | q <;> rcases y with _ | (_ | _) | r <;>
    simp [float64Less, float64Rank, GoFloat.lt, Prod.Lex.toLex_le_toLex]

theorem le_iff_rank (q : ℚ) (b : GoFloat) :
    GoFloat.le (.fin q) b = true ↔ float64Rank (.fin q) ≤ float64Rank b := by
  rcases b with _ | (_ | _) | r <;> simp [float64Rank, GoFloat.le, Prod.Lex.toLex_le_toLex]

theorem float64s_perm (values : List GoFloat) : (float64s values).Perm values :=
  List.perm_insertionSort _ values

theorem float64s_ordered (values : List GoFloat) :
    (float64s values).Pairwise fun x y => float64Less y x = false := by
  have total : Std.Total fun x y => float64Less y x = false :=
    ⟨fun x y => by simpa only [float64Less_eq_false_iff] using le_total (float64Rank x) (float64Rank y)⟩
  have trans : IsTrans GoFloat fun x y => float64Less y x = false :=
    ⟨fun x y z => by simpa only [float64Less_eq_false_iff] using le_trans⟩
  exact List.pairwise_insertionSort _ values

end Order

section Search

variable {holds : Nat → Bool}

/-- The test fails below an interval and holds from its end on. -/
structure Bracket (holds : Nat → Bool) (n low high : Nat) : Prop where
  ordered : low ≤ high
  inside : high ≤ n
  below : ∀ i < low, holds i = false
  above : ∀ i, high ≤ i → i < n → holds i = true

/-- From an index at which the test holds it holds up to the end. -/
def Upward (holds : Nat → Bool) (n : Nat) : Prop :=
  ∀ i j, i ≤ j → j < n → holds i = true → holds j = true

theorem Bracket.searchRounds {n rounds low high : Nat} (upward : Upward holds n)
    (bracket : Bracket holds n low high) (enough : high - low ≤ rounds) :
    Bracket holds n (searchRounds holds rounds low high) (searchRounds holds rounds low high) := by
  obtain ⟨ordered, inside, below, above⟩ := bracket
  induction rounds generalizing low high with
  | zero =>
      obtain rfl : high = low := by omega
      exact ⟨le_rfl, inside, below, above⟩
  | succ rounds ih =>
      by_cases more : low < high
      · rw [Go.searchRounds, if_pos more]
        cases tested : holds ((low + high) / 2) with
        | false =>
            simp only [tested, Bool.not_false, if_true]
            refine ih (by omega) (by omega) inside (fun i before => ?_) above
            -- A test that held before the middle would hold in the middle.
            by_contra passed
            have held := upward i ((low + high) / 2) (by omega) (by omega) (by simpa using passed)
            exact Bool.false_ne_true (tested.symm.trans held)
        | true =>
            simp only [tested, Bool.not_true, Bool.false_eq_true, if_false]
            exact ih (by omega) (by omega) (by omega) below fun i after within =>
              upward _ i after within tested
      · obtain rfl : high = low := by omega
        rw [Go.searchRounds, if_neg more]
        exact ⟨le_rfl, inside, below, above⟩

theorem search_bracket {n : Nat} (upward : Upward holds n) :
    Bracket holds n (search n holds) (search n holds) :=
  Bracket.searchRounds upward ⟨Nat.zero_le n, le_rfl, fun _ before => absurd before (Nat.not_lt_zero _),
    fun _ after within => absurd within (not_lt.mpr after)⟩ (Nat.sub_le ..)

/-- In a sorted list the binary search ends at the first value that is not less. -/
theorem searchFloat64s_eq_findIdx {values : List GoFloat} {q : ℚ}
    (ordered : values.Pairwise fun x y => float64Less y x = false) :
    searchFloat64s values (.fin q) = values.findIdx (GoFloat.le (.fin q)) := by
  have tested : ∀ i (within : i < values.length),
      (values[i]?.map (GoFloat.le (.fin q))).getD false = GoFloat.le (.fin q) (values.get ⟨i, within⟩) := by
    intro i within
    simp [within]
  have upward : Upward (fun i => (values[i]?.map (GoFloat.le (.fin q))).getD false) values.length := by
    intro i j before within holds
    rcases before.eq_or_lt with rfl | before
    · exact holds
    · have later := List.pairwise_iff_get.mp ordered ⟨i, by omega⟩ ⟨j, within⟩ before
      simp only [tested i (by omega), tested j within, le_iff_rank] at holds ⊢
      exact le_trans holds ((float64Less_eq_false_iff _ _).mp later)
  obtain ⟨_, inside, below, above⟩ := search_bracket upward
  rw [searchFloat64s]
  rcases inside.lt_or_eq with found | none
  · refine ((List.findIdx_eq found).mpr ⟨?_, fun j before => ?_⟩).symm
    · exact (tested _ found).symm.trans (above _ le_rfl found)
    · exact (tested j (before.trans found)).symm.trans (below j before)
  · rw [none, eq_comm, List.findIdx_eq_length]
    intro b member
    obtain ⟨i, rfl⟩ := List.get_of_mem member
    exact (tested i i.isLt).symm.trans (below i (by rw [none]; exact i.isLt))

end Search

end Rlaas.Go
