import Mathlib.Order.Basic
import Mathlib.Algebra.Order.Group.Int

/-! Values that expire, as what a read returns at each time if nothing else happens
meanwhile. Two implementations of such a value are the same as long as no read from now on
tells them apart. -/

set_option autoImplicit false

namespace Expiring

/-- What a read returns, by time. -/
abbrev Register := Int → Int

/-- The value up to its deadline, and nothing afterwards. -/
def armed (value deadline : Int) : Register := fun time => if time ≤ deadline then value else 0

/-- A value with a deadline, if it has one. -/
def lasting (value : Int) (deadline : Option Int) : Register := fun time =>
  if deadline.all (time ≤ ·) then value else 0

theorem lasting_some (value deadline : Int) : lasting value (some deadline) = armed value deadline := by
  funext time
  simp only [lasting, armed, Option.all_some, decide_eq_true_eq]

/-- No read from now on tells the two apart. -/
def Agree (now : Int) (left right : Register) : Prop := ∀ time, now ≤ time → left time = right time

theorem Agree.later {now reached : Int} {left right : Register} (agree : Agree now left right)
    (ordered : now ≤ reached) : Agree reached left right :=
  fun time after => agree time (ordered.trans after)

end Expiring
