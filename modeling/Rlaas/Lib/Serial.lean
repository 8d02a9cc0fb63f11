import Rlaas.Lib.Monitor

/-! Serial runs: calls executed one after another over one state, each with its
own readings. A run is kept as the list of its turns, so that what held before
and after every call can be spoken about. -/

set_option autoImplicit false

namespace Effect

variable {Op : Type} {Res : Op → Type} {S C α σ τ : Type}

structure Turn (Op : Type) (Res : Op → Type) (C α σ : Type) where
  call : C
  before : σ
  events : List (Event Op Res)
  result : α
  after : σ

section Serial

variable (handler : Handler Op Res σ τ) (program : C → Program Op Res α)
  (clock : C → Nat → τ)

def turn (call : C) (state : σ) : Turn Op Res C α σ where
  call
  before := state
  events := (program call).events handler (clock call) state
  result := ((program call).exec handler (clock call) state).1
  after := ((program call).exec handler (clock call) state).2

def serial : List C → σ → List (Turn Op Res C α σ)
  | [], _ => []
  | call :: rest, state =>
      turn handler program clock call state ::
        serial rest (turn handler program clock call state).after

/-- The state a run ends with. -/
def serialState : List C → σ → σ
  | [], state => state
  | call :: rest, state => serialState rest (turn handler program clock call state).after

end Serial

/-- A property of the turns so far, the calls to come and the current state that every turn
keeps holds at the end of a run. -/
theorem serial_remaining (handler : Handler Op Res σ τ) (program : C → Program Op Res α)
    (clock : C → Nat → τ) (invariant : List (Turn Op Res C α σ) → List C → σ → Prop)
    (preserve : ∀ past call rest state, invariant past (call :: rest) state →
      invariant (past ++ [turn handler program clock call state]) rest
        (turn handler program clock call state).after) (calls : List C)
    (past : List (Turn Op Res C α σ)) (state : σ) (initial : invariant past calls state) :
    ∃ final, invariant (past ++ serial handler program clock calls state) [] final := by
  induction calls generalizing past state with
  | nil => exact ⟨state, by simpa [serial] using initial⟩
  | cons call rest ih =>
      have remaining := ih _ _ (preserve past call rest state initial)
      rw [List.append_assoc] at remaining
      exact remaining

/-- A property of the turns so far and the current state that every allowed
turn keeps holds at the end of a run of allowed turns. -/
theorem serial_invariant (handler : Handler Op Res σ τ) (program : C → Program Op Res α)
    (clock : C → Nat → τ) (allowed : Turn Op Res C α σ → Prop)
    (invariant : List (Turn Op Res C α σ) → σ → Prop)
    (preserve : ∀ past state call, invariant past state →
      allowed (turn handler program clock call state) →
      invariant (past ++ [turn handler program clock call state])
        (turn handler program clock call state).after) (calls : List C)
    (past : List (Turn Op Res C α σ)) (state : σ) (initial : invariant past state)
    (along : ∀ done ∈ serial handler program clock calls state, allowed done) :
    ∃ final, invariant (past ++ serial handler program clock calls state) final := by
  obtain ⟨final, kept, _⟩ := serial_remaining handler program clock
    (fun past rest state => invariant past state ∧
      ∀ done ∈ serial handler program clock rest state, allowed done)
    (fun past call rest state ⟨kept, along⟩ =>
      ⟨preserve past state call kept (along _ List.mem_cons_self),
        fun done member => along done (List.mem_cons_of_mem _ member)⟩)
    calls past state ⟨initial, along⟩
  exact ⟨final, kept⟩

theorem serialState_invariant {handler : Handler Op Res σ τ} {program : C → Program Op Res α}
    {clock : C → Nat → τ} (invariant : σ → Prop) {calls : List C}
    (preserve : ∀ call ∈ calls, ∀ state, invariant state →
      invariant (turn handler program clock call state).after) {state : σ}
    (initial : invariant state) :
    invariant (serialState handler program clock calls state) := by
  induction calls generalizing state with
  | nil => exact initial
  | cons call rest ih =>
      obtain ⟨first, later⟩ := List.forall_mem_cons.mp preserve
      exact ih later (first state initial)

section Turns

variable (handler : Handler Op Res σ τ) (program : C → Program Op Res α)
  (clock : C → Nat → τ)

theorem serial_calls (calls : List C) (state : σ) :
    (serial handler program clock calls state).map (·.call) = calls := by
  induction calls generalizing state with
  | nil => rfl
  | cons call rest ih => exact congrArg (call :: ·) (ih _)

theorem call_mem_of_mem_serial {calls : List C} {state : σ} {done : Turn Op Res C α σ}
    (member : done ∈ serial handler program clock calls state) : done.call ∈ calls := by
  have listed := List.mem_map_of_mem (f := Turn.call) member
  rwa [serial_calls] at listed

theorem exists_turn_of_mem_serial {calls : List C} {state : σ} {done : Turn Op Res C α σ}
    (member : done ∈ serial handler program clock calls state) :
    ∃ call before, done = turn handler program clock call before := by
  induction calls generalizing state with
  | nil => cases member
  | cons call rest ih =>
      rcases List.mem_cons.mp member with first | later
      · exact ⟨call, state, first⟩
      · exact ih later

/-- Leaving out turns. The run without them is compared with the whole run by a
relation of their states that kept turns respect and left out turns keep; it
may depend on the calls that are still to come. -/
theorem serial_omit (keep : Turn Op Res C α σ → Bool) (relation : List C → σ → σ → Prop)
    (kept : ∀ call rest whole reduced, relation (call :: rest) whole reduced →
      keep (turn handler program clock call whole) = true →
      (turn handler program clock call whole).result =
          (turn handler program clock call reduced).result ∧
        relation rest (turn handler program clock call whole).after
          (turn handler program clock call reduced).after)
    (omitted : ∀ call rest whole reduced, relation (call :: rest) whole reduced →
      keep (turn handler program clock call whole) = false →
      relation rest (turn handler program clock call whole).after reduced)
    (calls : List C) (whole reduced : σ) (related : relation calls whole reduced) :
    (serial handler program clock
        (((serial handler program clock calls whole).filter keep).map (·.call))
        reduced).map (·.result) =
      ((serial handler program clock calls whole).filter keep).map (·.result) := by
  induction calls generalizing whole reduced with
  | nil => rfl
  | cons call rest ih =>
      rw [serial, List.filter_cons]
      cases chosen : keep (turn handler program clock call whole) with
      | true =>
          obtain ⟨same, after⟩ := kept call rest whole reduced related chosen
          have remaining := ih _ _ after
          exact congrArg₂ List.cons same.symm remaining
      | false => exact ih _ _ (omitted call rest whole reduced related chosen)

end Turns

end Effect
