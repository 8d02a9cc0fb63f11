import Rlaas.Algorithm.Footprint
import Rlaas.Algorithm.Runs

/-! Calls under different limit keys of one builder do not influence each other. -/

set_option autoImplicit false

namespace Rlaas.Algorithm

open Go Model Store Key Effect

def AgreeUnder (key : String) (left right : Cells) : Prop :=
  ∀ storageKey, Under key storageKey → left storageKey = right storageKey

section Isolation

variable {A : Arith} {key otherKey : String} {policy : Policy}

private theorem env_agrees {left right : Cells} (agree : AgreeUnder key left right) (time : Time)
    {now : Option Time} {op : EnvOp} {timely : Time → Prop}
    (touches : Touches A policy key timely now op) :
    (Cells.env A time op left).1 = (Cells.env A time op right).1 ∧
      AgreeUnder key (Cells.env A time op left).2 (Cells.env A time op right).2 := by
  cases op with
  | now => exact ⟨rfl, agree⟩
  | wallClock => exact ⟨rfl, agree⟩
  | store op =>
      have same := agree op.key touches.1
      refine ⟨by simp only [Cells.env, Cells.handle, same], ?_⟩
      exact Cells.handle_related (R := fun storageKey left right => Under key storageKey → left = right)
        agree fun _ => by rw [same]

private theorem env_apart
    (apart : ∀ storageKey, Under key storageKey → ¬Under otherKey storageKey) {cells past : Cells}
    (agree : AgreeUnder key cells past) (time : Time) {now : Option Time} {op : EnvOp}
    {timely : Time → Prop} (touches : Touches A policy otherKey timely now op) :
    AgreeUnder key (Cells.env A time op cells).2 past := by
  cases op with
  | now => exact agree
  | wallClock => exact agree
  | store op =>
      intro storageKey under
      have different : storageKey ≠ op.key := by
        intro same
        exact apart storageKey under (same ▸ touches.1)
      rw [← agree storageKey under]
      exact Cells.handle_other different cells

private theorem own_exec {call : SharedCall} (own : call.own = true) {left right : MemoryStore}
    (agree : AgreeUnder key left.cells right.cells) :
    ((call.program A key otherKey).exec (MemoryStore.env A) call.clock left).1 =
        ((call.program A key otherKey).exec (MemoryStore.env A) call.clock right).1 ∧
      AgreeUnder key
        ((call.program A key otherKey).exec (MemoryStore.env A) call.clock left).2.cells
        ((call.program A key otherKey).exec (MemoryStore.env A) call.clock right).2.cells := by
  have accepted : (footprint A call.policy key fun _ => True).Accepts none
      (call.program A key otherKey) := by
    simpa [SharedCall.program, own] using evaluate_footprint A call.policy call.req key _ call.kind
  have respects : ∀ (now : Option Time) (left right : Cells) (time : Time) (op : EnvOp),
      AgreeUnder key left right → True → Touches A call.policy key (fun _ => True) now op →
      (footprint A call.policy key fun _ => True).expects now op (Cells.env A time op left).1 ∧
        (Cells.env A time op left).1 = (Cells.env A time op right).1 ∧
        AgreeUnder key (Cells.env A time op left).2 (Cells.env A time op right).2 := by
    intro now left right time op agree _ touches
    refine ⟨?_, env_agrees agree time touches⟩
    cases op <;> trivial
  have related := accepted.exec_related (AgreeUnder key) (fun _ => True) respects call.clock
    (fun _ => trivial) agree
  rw [MemoryStore.exec_cells, MemoryStore.exec_cells] at related
  exact related

private theorem other_exec
    (apart : ∀ storageKey, Under key storageKey → ¬Under otherKey storageKey) {call : SharedCall}
    (foreign : call.own = false) (store : MemoryStore) :
    AgreeUnder key
      ((call.program A key otherKey).exec (MemoryStore.env A) call.clock store).2.cells
      store.cells := by
  have accepted : (footprint A call.policy otherKey fun _ => True).Accepts none
      (call.program A key otherKey) := by
    simpa [SharedCall.program, foreign] using
      evaluate_footprint A call.policy call.req otherKey _ call.kind
  have preserve : ∀ (now : Option Time) (cells : Cells) (time : Time) (op : EnvOp),
      AgreeUnder key cells store.cells → True →
      Touches A call.policy otherKey (fun _ => True) now op →
      (footprint A call.policy otherKey fun _ => True).expects now op
          (Cells.env A time op cells).1 ∧
        AgreeUnder key (Cells.env A time op cells).2 store.cells := by
    intro now cells time op agree _ touches
    refine ⟨?_, env_apart apart agree time touches⟩
    cases op <;> trivial
  have unchanged := (accepted.exec (fun _ cells => AgreeUnder key cells store.cells)
    (fun _ => True) preserve call.clock (fun _ => trivial) (fun _ _ => rfl)).1
  rw [MemoryStore.exec_cells] at unchanged
  exact unchanged

/-- Calls under another key of the same builder change no answer. -/
theorem calls_isolated (A : Arith) (builder : DefaultBuilder) (policy policy' : Policy)
    (req req' : RequestContext) (different : build builder policy req ≠ build builder policy' req')
    (calls : List SharedCall) (store : MemoryStore) :
    (sharedTurns A (build builder policy req) (build builder policy' req') (calls.filter (·.own))
        store).map (·.result) =
      ((sharedTurns A (build builder policy req) (build builder policy' req') calls store).filter
        (·.call.own)).map (·.result) := by
  have apart : ∀ storageKey, Under (build builder policy req) storageKey →
      ¬Under (build builder policy' req') storageKey := by
    intro storageKey under under'
    exact different (key_eq_of_under under under')
  have isolated := serial_omit (MemoryStore.env A)
    (SharedCall.program A (build builder policy req) (build builder policy' req'))
    SharedCall.clock (fun turn => turn.call.own)
    (fun _ mixed alone => AgreeUnder (build builder policy req) mixed.cells alone.cells)
    (fun call rest mixed alone agree own => own_exec own agree)
    (fun call rest mixed alone agree foreign storageKey under =>
      (other_exec apart foreign mixed storageKey under).trans (agree storageKey under))
    calls store store (fun _ _ => rfl)
  have remaining := congrArg (List.filter (·.own)) (serial_calls (MemoryStore.env A)
    (SharedCall.program A (build builder policy req) (build builder policy' req'))
    SharedCall.clock calls store)
  rw [List.filter_map] at remaining
  simp only [sharedTurns]
  rw [← isolated, ← remaining]
  rfl

private def tenantPolicy : Policy := { scope := { tenantID := "t" }, algorithm := { limit := 1 } }

private def tenantBuilder : DefaultBuilder := { keyPrefix := "rlaas", sha1 := fun _ => [] }

private def tenantCall (own : Bool) : SharedCall where
  own
  kind := .concurrency
  policy := tenantPolicy
  req := {}
  clock _ := ⟨0, utc⟩

theorem calls_isolated_of_tenants :
    (sharedTurns .exact (build tenantBuilder tenantPolicy { tenantID := "a" })
        (build tenantBuilder tenantPolicy { tenantID := "b" }) [tenantCall true]
        (.newSharded 4)).map (·.result) =
      ((sharedTurns .exact (build tenantBuilder tenantPolicy { tenantID := "a" })
        (build tenantBuilder tenantPolicy { tenantID := "b" }) [tenantCall false, tenantCall true]
        (.newSharded 4)).filter (·.call.own)).map (·.result) :=
  calls_isolated .exact tenantBuilder tenantPolicy tenantPolicy { tenantID := "a" }
    { tenantID := "b" } (by decide) [tenantCall false, tenantCall true] (.newSharded 4)

end Isolation

end Rlaas.Algorithm
