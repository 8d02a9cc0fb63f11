import Rlaas.Lib.Program

/-! Monitors: finite observers that follow a program one operation at a time.
A monitor states which operations may come next and which results are
acceptable given what was seen so far. Acceptance is a structural property of
the program, proved once, and holds of every run of it. -/

set_option autoImplicit false

namespace Effect

/-- An observer with states `S` of programs that return `α`. `expects` limits
the answers the environment may give; `guard` is what the program promises
about its next operation and `accept` about its result. -/
structure Monitor (Op : Type) (Res : Op → Type) (S α : Type) where
  expects : S → (op : Op) → Res op → Prop
  guard : S → Op → Prop
  advance : S → (op : Op) → Res op → S
  accept : S → α → Prop

variable {Op : Type} {Res : Op → Type} {S α β : Type}

namespace Monitor

variable {program : Program Op Res α} {state : S}

/-- Every operation the program can reach is guarded and every result accepted. -/
def Accepts (monitor : Monitor Op Res S α) : S → Program Op Res α → Prop
  | state, .done result => monitor.accept state result
  | state, .call op next =>
      monitor.guard state op ∧ ∀ answer, monitor.expects state op answer →
        monitor.Accepts (monitor.advance state op answer) (next answer)

def follow (monitor : Monitor Op Res S α) (state : S) (events : List (Event Op Res)) : S :=
  events.foldl (fun current event => monitor.advance current event.op event.result) state

@[simp] theorem follow_nil (monitor : Monitor Op Res S α) (state : S) :
    monitor.follow state [] = state := rfl

@[simp] theorem follow_cons (monitor : Monitor Op Res S α) (state : S) (event : Event Op Res)
    (events : List (Event Op Res)) :
    monitor.follow state (event :: events) =
      monitor.follow (monitor.advance state event.op event.result) events := rfl

theorem follow_append (monitor : Monitor Op Res S α) (state : S)
    (left right : List (Event Op Res)) :
    monitor.follow state (left ++ right) = monitor.follow (monitor.follow state left) right := by
  simp [follow, List.foldl_append]

theorem follow_kept {κ : Type} (monitor : Monitor Op Res S α) (view : S → κ)
    (kept : ∀ state op result, view (monitor.advance state op result) = view state)
    (state : S) (events : List (Event Op Res)) :
    view (monitor.follow state events) = view state := by
  induction events generalizing state with
  | nil => rfl
  | cons event rest ih => exact (ih _).trans (kept _ _ _)

/-- A flag that some operations raise and none lowers. -/
theorem follow_flag (monitor : Monitor Op Res S α) (flag : S → Bool)
    {raises : (op : Op) → Res op → Bool}
    (advanced : ∀ state op result,
      flag (monitor.advance state op result) = (flag state || raises op result))
    (state : S) (events : List (Event Op Res)) :
    flag (monitor.follow state events) =
      (flag state || events.any fun event => raises event.op event.result) := by
  induction events generalizing state with
  | nil => rw [follow_nil, List.any_nil, Bool.or_false]
  | cons event rest ih => rw [follow_cons, ih, advanced, List.any_cons, Bool.or_assoc]

/-- A monitor of a wider interface accepts an embedded program when it treats the embedded
operations as the narrower monitor does, in the images of its states, and the continuation
when it accepts it from every state with which the program can end. -/
theorem accepts_image {S' : Type} {Op' : Type} {Res' : Op' → Type} (narrow : Monitor Op Res S α)
    (wide : Monitor Op' Res' S' β) (image : S → S') {embed : Op → Op'}
    {back : (op : Op) → Res' (embed op) → Res op} {after : α → Program Op' Res' β}
    (guards : ∀ state op, narrow.guard state op → wide.guard (image state) (embed op))
    (expects : ∀ state op answer, wide.expects (image state) (embed op) answer →
      narrow.expects state op (back op answer))
    (advances : ∀ state op answer,
      wide.advance (image state) (embed op) answer = image (narrow.advance state op (back op answer)))
    (continues : ∀ state result, narrow.accept state result →
      wide.Accepts (image state) (after result))
      (accepted : narrow.Accepts state program) :
    wide.Accepts (image state) ((program.mapOp embed back).bind after) := by
  induction program generalizing state with
  | done result => exact continues state result accepted
  | call op next ih =>
      refine ⟨guards state op accepted.1, fun answer expected => ?_⟩
      rw [advances]
      exact ih _ (accepted.2 _ (expects state op answer expected))

theorem accepts_mapOp_bind {Op' : Type} {Res' : Op' → Type} (narrow : Monitor Op Res S α)
    (wide : Monitor Op' Res' S β) {embed : Op → Op'} {back : (op : Op) → Res' (embed op) → Res op}
    {after : α → Program Op' Res' β}
    (guards : ∀ state op, narrow.guard state op → wide.guard state (embed op))
    (expects : ∀ state op answer, wide.expects state (embed op) answer →
      narrow.expects state op (back op answer))
    (advances : ∀ state op answer,
      wide.advance state (embed op) answer = narrow.advance state op (back op answer))
    (continues : ∀ state result, narrow.accept state result → wide.Accepts state (after result))
      (accepted : narrow.Accepts state program) :
    wide.Accepts state ((program.mapOp embed back).bind after) :=
  accepts_image narrow wide id guards expects advances continues accepted

/-- The same observer of programs with another result. -/
def returning (monitor : Monitor Op Res S β) (accept : S → α → Prop) : Monitor Op Res S α where
  expects := monitor.expects
  guard := monitor.guard
  advance := monitor.advance
  accept

theorem Accepts.bind {monitor : Monitor Op Res S β} {middle : S → α → Prop}
    {after : α → Program Op Res β} (accepted : (monitor.returning middle).Accepts state program)
    (continues : ∀ state result, middle state result → monitor.Accepts state (after result)) :
    monitor.Accepts state (program.bind after) := by
  induction program generalizing state with
  | done result => exact continues state result accepted
  | call op next ih =>
      exact ⟨accepted.1, fun answer expected => ih answer (accepted.2 answer expected)⟩

theorem Accepts.imp {monitor : Monitor Op Res S β} {first second : S → α → Prop}
    (accepted : (monitor.returning first).Accepts state program)
    (weaker : ∀ state result, first state result → second state result) :
    (monitor.returning second).Accepts state program := by
  induction program generalizing state with
  | done result => exact weaker state result accepted
  | call op next ih =>
      exact ⟨accepted.1, fun answer expected => ih answer (accepted.2 answer expected)⟩

/-- A round ends with the result of the loop or where the next round starts. -/
def Ends (monitor : Monitor Op Res S (Option α)) (going : S → Prop) (state : S) :
    Option α → Prop
  | some result => monitor.accept state (some result)
  | none => going state

/-- A loop is accepted if each of its rounds is; where a round starts may depend on how many
are left. -/
theorem accepts_rounds_left {monitor : Monitor Op Res S (Option α)}
    {body : Program Op Res (Option α)} (going : Nat → S → Prop)
    (round : ∀ left state, going (left + 1) state →
      (monitor.returning (monitor.Ends (going left))).Accepts state body)
    (cut : ∀ state, going 0 state → monitor.accept state none) (count : Nat)
    (start : going count state) :
    monitor.Accepts state (body.rounds count) := by
  induction count generalizing state with
  | zero => exact cut state start
  | succ count ih =>
      refine Accepts.bind (round count state start) fun state left ended => ?_
      cases left with
      | some result => exact ended
      | none => exact ih ended

/-- A loop is accepted if each of its rounds is, from where a round that goes on ends. -/
theorem accepts_rounds {monitor : Monitor Op Res S (Option α)} {body : Program Op Res (Option α)}
    (round : ∀ state, monitor.accept state none → monitor.Accepts state body) (count : Nat)
    (start : monitor.accept state none) :
    monitor.Accepts state (body.rounds count) := by
  have rounds : ∀ (_ : Nat) state, monitor.accept state none →
      (monitor.returning (monitor.Ends fun state => monitor.accept state none)).Accepts state
        body := by
    intro _ state going
    refine Accepts.imp (round state going) fun state left ended => ?_
    cases left with
    | some result => exact ended
    | none => exact ended
  exact accepts_rounds_left (fun _ state => monitor.accept state none) rounds
    (fun _ going => going) count start

/-- A monitor of a wider interface as one of the operations embedded in it. -/
def within {Op' : Type} {Res' : Op' → Type} (wide : Monitor Op' Res' S β) (embed : Op → Op')
    (forth : (op : Op) → Res op → Res' (embed op)) (accept : S → α → Prop) :
    Monitor Op Res S α where
  expects state op answer := wide.expects state (embed op) (forth op answer)
  guard state op := wide.guard state (embed op)
  advance state op answer := wide.advance state (embed op) (forth op answer)
  accept

theorem Accepts.embedded {Op' : Type} {Res' : Op' → Type} {wide : Monitor Op' Res' S β}
    {embed : Op → Op'} {forth : (op : Op) → Res op → Res' (embed op)}
    {back : (op : Op) → Res' (embed op) → Res op} {middle : S → α → Prop}
    {after : α → Program Op' Res' β}
    (accepted : (wide.within embed forth middle).Accepts state program)
    (inverse : ∀ op answer, forth op (back op answer) = answer)
    (continues : ∀ state result, middle state result → wide.Accepts state (after result)) :
    wide.Accepts state ((program.mapOp embed back).bind after) := by
  refine accepts_mapOp_bind (wide.within embed forth middle) wide (fun _ _ guarded => guarded)
    (fun state op answer expected => ?_) (fun state op answer => ?_) continues accepted
  · change wide.expects state (embed op) (forth op (back op answer))
    rwa [inverse]
  · change _ = wide.advance state (embed op) (forth op (back op answer))
    rw [inverse]

/-- Which operations and which results there may be, with answers of a kind. -/
def permits (allowed : Op → Prop) (answers : (op : Op) → Res op → Prop) (results : α → Prop) :
    Monitor Op Res Unit α where
  expects _ := answers
  guard _ := allowed
  advance _ _ _ := ()
  accept _ := results

theorem permits_bind {allowed : Op → Prop} {answers : (op : Op) → Res op → Prop} {middle : α → Prop}
    {results : β → Prop} {after : α → Program Op Res β}
    (accepted : (permits allowed answers middle).Accepts () program)
    (continues : ∀ result, middle result →
      (permits allowed answers results).Accepts () (after result)) :
    (permits allowed answers results).Accepts () (program.bind after) := by
  have first : ((permits allowed answers results).returning fun _ => middle).Accepts () program :=
    accepted
  exact first.bind fun _ result => continues result

def both {S' : Type} (first : Monitor Op Res S α) (second : Monitor Op Res S' α) :
    Monitor Op Res (S × S') α where
  expects state op answer := first.expects state.1 op answer ∧ second.expects state.2 op answer
  guard state op := first.guard state.1 op ∧ second.guard state.2 op
  advance state op answer := (first.advance state.1 op answer, second.advance state.2 op answer)
  accept state result := first.accept state.1 result ∧ second.accept state.2 result

theorem follow_both {S' : Type} (first : Monitor Op Res S α) (second : Monitor Op Res S' α)
    (state : S × S') (events : List (Event Op Res)) :
    (first.both second).follow state events =
      (first.follow state.1 events, second.follow state.2 events) := by
  induction events generalizing state with
  | nil => rfl
  | cons event rest ih => exact ih _

theorem Accepts.both {S' : Type} {first : Monitor Op Res S α} {second : Monitor Op Res S' α}
    {state' : S'} (accepted : first.Accepts state program)
    (accepted' : second.Accepts state' program) :
    (first.both second).Accepts (state, state') program := by
  induction program generalizing state state' with
  | done result => exact ⟨accepted, accepted'⟩
  | call op next ih =>
      refine ⟨⟨accepted.1, accepted'.1⟩, ?_⟩
      intro answer expected
      exact ih answer (accepted.2 answer expected.1) (accepted'.2 answer expected.2)

theorem Accepts.result {monitor : Monitor Op Res S α} {events : List (Event Op Res)} {result : α}
    (accepted : monitor.Accepts state program) (run : program.Runs events result)
    (expected : ∀ state op answer, monitor.expects state op answer) :
    monitor.accept (monitor.follow state events) result := by
  induction run generalizing state with
  | done => exact accepted
  | call _ ih => exact ih (accepted.2 _ (expected _ _ _))

/-- A joint invariant of monitor and state that every guarded operation keeps
holds after an execution, whose result the monitor accepts. -/
theorem Accepts.exec {σ τ : Type} {monitor : Monitor Op Res S α} {handler : Handler Op Res σ τ}
    (invariant : S → σ → Prop) (readings : τ → Prop)
    (preserve : ∀ watch state time op, invariant watch state → readings time →
      monitor.guard watch op →
      monitor.expects watch op (handler time op state).1 ∧
        invariant (monitor.advance watch op (handler time op state).1) (handler time op state).2)
    {watch : S} (accepted : monitor.Accepts watch program) (clock : Nat → τ)
    (timely : ∀ n, readings (clock n)) {state : σ} (initial : invariant watch state) :
    invariant (monitor.follow watch (program.events handler clock state))
        (program.exec handler clock state).2 ∧
      monitor.accept (monitor.follow watch (program.events handler clock state))
        (program.exec handler clock state).1 := by
  induction program generalizing watch clock state with
  | done result => exact ⟨initial, accepted⟩
  | call op next ih =>
      obtain ⟨expected, kept⟩ := preserve watch state (clock 0) op initial (timely 0) accepted.1
      exact ih _ (accepted.2 _ expected) _ (fun n => timely (n + 1)) kept

theorem Accepts.exec_related {σ τ : Type} {monitor : Monitor Op Res S α}
    {handler : Handler Op Res σ τ} (relation : σ → σ → Prop) (readings : τ → Prop)
    (respects : ∀ watch left right time op, relation left right → readings time →
      monitor.guard watch op →
      monitor.expects watch op (handler time op left).1 ∧
        (handler time op left).1 = (handler time op right).1 ∧
        relation (handler time op left).2 (handler time op right).2) {watch : S}
    (accepted : monitor.Accepts watch program) (clock : Nat → τ) (timely : ∀ n, readings (clock n))
    {left right : σ} (related : relation left right) :
    (program.exec handler clock left).1 = (program.exec handler clock right).1 ∧
      relation (program.exec handler clock left).2 (program.exec handler clock right).2 := by
  induction program generalizing watch clock left right with
  | done result => exact ⟨rfl, related⟩
  | call op next ih =>
      obtain ⟨expected, same, kept⟩ := respects watch left right (clock 0) op related (timely 0)
        accepted.1
      have rest := ih _ (accepted.2 _ expected) _ (fun n => timely (n + 1)) kept
      rw [Program.exec_call, Program.exec_call, ← same]
      exact rest

end Monitor

end Effect
