import Mathlib.Data.List.Basic

/-! Programs over an abstract interface of operations. A program is a finite
tree: it returns, or it performs one operation and continues with the answer.
The same program is read against a fixed handler, against every possible
pattern of answers, and (in `Rlaas.Lib.Pool`) interleaved with other programs. -/

set_option autoImplicit false

namespace Effect

/-- A computation that returns a result or asks its environment to perform an
operation. There is no recursion through the environment, so every program ends. -/
inductive Program (Op : Type) (Res : Op → Type) (α : Type) where
  | done (result : α) : Program Op Res α
  | call (op : Op) (next : Res op → Program Op Res α) : Program Op Res α

structure Event (Op : Type) (Res : Op → Type) where
  op : Op
  result : Res op

/-- How operations are performed: the answer and the state after it, at a reading. -/
abbrev Handler (Op : Type) (Res : Op → Type) (σ τ : Type) := τ → (op : Op) → σ → Res op × σ

variable {Op : Type} {Res : Op → Type} {α β σ τ : Type}

namespace Program

variable {program : Program Op Res α} {after : α → Program Op Res β} {Op' : Type}
  {Res' : Op' → Type}

def bind : Program Op Res α → (α → Program Op Res β) → Program Op Res β
  | .done result, after => after result
  | .call op next, after => .call op fun answer => (next answer).bind after

@[simp] theorem bind_call (op : Op) (next : Res op → Program Op Res α)
    (after : α → Program Op Res β) :
    (Program.call op next).bind after = .call op fun answer => (next answer).bind after := rfl

theorem bind_done (program : Program Op Res α) : program.bind .done = program := by
  induction program with
  | done result => rfl
  | call op next ih => exact congrArg (Program.call op) (funext ih)

/-- A loop that is left with a result, cut off after a number of rounds. -/
def rounds (body : Program Op Res (Option α)) : Nat → Program Op Res (Option α)
  | 0 => .done none
  | count + 1 => body.bind fun left =>
      match left with
      | some result => .done (some result)
      | none => rounds body count

/-- What a program that has ended returns. -/
def result? : Program Op Res α → Option α
  | .done result => some result
  | .call .. => none

theorem result?_eq_some {result : α} :
    program.result? = some result ↔ program = .done result := by
  cases program with
  | done other => simp [result?]
  | call op next => simp [result?]

def mapOp (embed : Op → Op') (back : (op : Op) → Res' (embed op) → Res op) :
    Program Op Res α → Program Op' Res' α
  | .done result => .done result
  | .call op next => .call (embed op) fun answer => (next (back op answer)).mapOp embed back

/-- Run a program alone. Operation number `n` is handled at reading `clock n`,
so the clock may advance between two operations of one program. -/
def exec (handler : Handler Op Res σ τ) :
    (Nat → τ) → Program Op Res α → σ → α × σ
  | _, .done result, state => (result, state)
  | clock, .call op next, state =>
      (next (handler (clock 0) op state).1).exec handler (fun n => clock (n + 1))
        (handler (clock 0) op state).2

def events (handler : Handler Op Res σ τ) :
    (Nat → τ) → Program Op Res α → σ → List (Event Op Res)
  | _, .done _, _ => []
  | clock, .call op next, state =>
      ⟨op, (handler (clock 0) op state).1⟩ ::
        (next (handler (clock 0) op state).1).events handler (fun n => clock (n + 1))
          (handler (clock 0) op state).2

@[simp] theorem exec_done (handler : Handler Op Res σ τ) (clock : Nat → τ) (result : α)
    (state : σ) :
    (Program.done result : Program Op Res α).exec handler clock state = (result, state) := rfl

theorem exec_call (handler : Handler Op Res σ τ) (clock : Nat → τ) (op : Op)
    (next : Res op → Program Op Res α) (state : σ) :
    (Program.call op next).exec handler clock state =
      (next (handler (clock 0) op state).1).exec handler (fun n => clock (n + 1))
        (handler (clock 0) op state).2 := rfl

/-- A complete run of a program against an environment that may give any
answer to any operation. -/
inductive Runs : Program Op Res α → List (Event Op Res) → α → Prop where
  | done {result : α} : Runs (.done result) [] result
  | call {op : Op} {next : Res op → Program Op Res α} {answer : Res op}
      {events : List (Event Op Res)} {result : α} :
      Runs (next answer) events result → Runs (.call op next) (⟨op, answer⟩ :: events) result

theorem exec_runs (handler : Handler Op Res σ τ) (program : Program Op Res α) (clock : Nat → τ)
    (state : σ) :
    Runs program (program.events handler clock state) (program.exec handler clock state).1 := by
  induction program generalizing clock state with
  | done result => exact .done
  | call op next ih => exact .call (ih _ _ _)

/-- An abstraction of the state that the handler commutes with commutes with
whole executions, and the result is the same. -/
theorem exec_map {σ' : Type} {handler : Handler Op Res σ τ} {abstract : Handler Op Res σ' τ}
    (view : σ → σ')
    (commutes : ∀ time op state, abstract time op (view state) =
      ((handler time op state).1, view (handler time op state).2)) (program : Program Op Res α)
    (clock : Nat → τ) (state : σ) :
    program.exec abstract clock (view state) =
      ((program.exec handler clock state).1, view (program.exec handler clock state).2) := by
  induction program generalizing clock state with
  | done result => rfl
  | call op next ih =>
      rw [exec_call, exec_call, commutes]
      exact ih _ _ _

theorem exec_kept {handler : Handler Op Res σ τ} (invariant : σ → Prop)
    (preserve : ∀ time op state, invariant state → invariant (handler time op state).2)
    (program : Program Op Res α) (clock : Nat → τ) {state : σ} (initial : invariant state) :
    invariant (program.exec handler clock state).2 := by
  induction program generalizing clock state with
  | done result => exact initial
  | call op next ih => exact ih _ _ (preserve (clock 0) op state initial)

/-- An embedded program runs against the wider handler as it runs alone, and
what follows it starts with the readings it has left. -/
theorem exec_mapOp_bind {σ' : Type} {embed : Op → Op'} {back : (op : Op) → Res' (embed op) → Res op}
    {narrow : Handler Op Res σ τ} {wide : Handler Op' Res' σ' τ} (lift : σ → σ')
    (commutes : ∀ time op state,
      back op (wide time (embed op) (lift state)).1 = (narrow time op state).1 ∧
        (wide time (embed op) (lift state)).2 = lift (narrow time op state).2)
    (program : Program Op Res α) (after : α → Program Op' Res' β) (clock : Nat → τ) (state : σ) :
    ((program.mapOp embed back).bind after).exec wide clock (lift state) =
      (after (program.exec narrow clock state).1).exec wide
        (fun n => clock (n + (program.events narrow clock state).length))
        (lift (program.exec narrow clock state).2) := by
  induction program generalizing clock state with
  | done result => rfl
  | call op next ih =>
      obtain ⟨answered, moved⟩ := commutes (clock 0) op state
      simp only [mapOp, bind_call, exec_call, answered, moved, ih, events, List.length_cons]
      rfl

theorem Runs.bind {first rest : List (Event Op Res)} {middle : α} {result : β}
    (firstRun : Runs program first middle) (restRun : Runs (after middle) rest result) :
    Runs (program.bind after) (first ++ rest) result := by
  induction firstRun with
  | done => exact restRun
  | call _ ih => exact .call (ih restRun)

theorem Runs.of_bind {events : List (Event Op Res)} {result : β}
    (run : Runs (program.bind after) events result) :
    ∃ first middle rest, events = first ++ rest ∧ Runs program first middle ∧
      Runs (after middle) rest result := by
  induction program generalizing events with
  | done middle => exact ⟨[], middle, events, rfl, .done, run⟩
  | call op next ih =>
      cases run with
      | call tail =>
          obtain ⟨first, middle, rest, rfl, firstRun, restRun⟩ := ih _ tail
          exact ⟨_ :: first, middle, rest, rfl, .call firstRun, restRun⟩

theorem Runs.mapOp (embed : Op → Op') (back : (op : Op) → Res' (embed op) → Res op)
    (forth : (op : Op) → Res op → Res' (embed op))
    (inverse : ∀ op answer, back op (forth op answer) = answer) {events : List (Event Op Res)}
    {result : α} (run : Runs program events result) :
    Runs (program.mapOp embed back)
      (events.map fun event => ⟨embed event.op, forth event.op event.result⟩) result := by
  induction run with
  | done => exact .done
  | call _ ih =>
      refine .call ?_
      simp only [inverse]
      exact ih

theorem Runs.of_mapOp {embed : Op → Op'} {back : (op : Op) → Res' (embed op) → Res op}
    {events : List (Event Op' Res')} {result : α}
    (run : Runs (program.mapOp embed back) events result) :
    ∃ own, Runs program own result := by
  induction program generalizing events with
  | done middle =>
      cases run with
      | done => exact ⟨[], .done⟩
  | call op next ih =>
      cases run with
      | call tail =>
          obtain ⟨own, ownRun⟩ := ih _ tail
          exact ⟨_ :: own, .call ownRun⟩

/-- A run of an embedded program followed by another that starts with a
complete run of the first part continues as a run of the second. -/
theorem Runs.mapOp_after (embed : Op → Op') (back : (op : Op) → Res' (embed op) → Res op)
    (forth : (op : Op) → Res op → Res' (embed op))
    (inverse : ∀ op answer, back op (forth op answer) = answer)
    {after : α → Program Op' Res' β} {first : List (Event Op Res)} {rest : List (Event Op' Res')}
    {middle : α} {result : β} (firstRun : Runs program first middle)
    (whole : Runs ((program.mapOp embed back).bind after)
      (first.map (fun event => ⟨embed event.op, forth event.op event.result⟩) ++ rest) result) :
    Runs (after middle) rest result := by
  induction firstRun with
  | done => exact whole
  | call _ ih =>
      simp only [Program.mapOp, bind_call, List.map_cons, List.cons_append] at whole
      cases whole with
      | call tail =>
          simp only [inverse] at tail
          exact ih tail

/-- A run that ends as described makes a number of operations at least. -/
def Lasts (ending : α → Prop) (steps : Nat) (program : Program Op Res α) : Prop :=
  ∀ events result, Runs program events result → ending result → steps ≤ events.length

theorem Lasts.bind {middle : α → Prop} {ending : β → Prop} {steps : Nat}
    (lasts : program.Lasts middle steps)
    (continues : ∀ result, ¬middle result → (after result).Lasts ending steps) :
    (program.bind after).Lasts ending steps := by
  intro events result run ends
  obtain ⟨first, between, rest, rfl, firstRun, restRun⟩ := run.of_bind
  rw [List.length_append]
  by_cases cut : middle between
  · exact Nat.le_trans (lasts first between firstRun cut) (Nat.le_add_right _ _)
  · exact Nat.le_trans (continues between cut rest result restRun ends) (Nat.le_add_left _ _)

theorem lasts_bind {ending : β → Prop} {steps : Nat} (program : Program Op Res α)
    (continues : ∀ result, (after result).Lasts ending steps) :
    (program.bind after).Lasts ending steps := by
  have first : program.Lasts (fun _ => False) steps := fun _ _ _ never => never.elim
  exact first.bind fun result _ => continues result

theorem lasts_done {ending : α → Prop} {result : α} (steps : Nat) (other : ¬ending result) :
    (done result : Program Op Res α).Lasts ending steps := by
  intro events _ run ends
  cases run
  exact absurd ends other

/-- A loop whose rounds begin with an operation is not cut off before it has made as many
operations as it has rounds. -/
theorem lasts_rounds {ending : Option α → Prop} {op : Op} {next : Res op → Program Op Res (Option α)}
    {count : Nat} (round : ∀ steps < count, ∀ answer,
      (next answer).Lasts (fun left => left ≠ none ∧ ending left) steps) :
    ((call op next).rounds count).Lasts ending count := by
  induction count with
  | zero => exact fun _ _ _ _ => Nat.zero_le _
  | succ count ih =>
      have rest := ih fun steps below => round steps (Nat.lt_succ_of_lt below)
      intro events result run ends
      cases run with
      | call run =>
          refine Nat.succ_le_succ (Lasts.bind (round count count.lt_succ_self _)
            (fun left other => ?_) _ result run ends)
          cases left with
          | none => exact rest
          | some result => exact lasts_done count fun ends => other ⟨nofun, ends⟩

end Program

end Effect
