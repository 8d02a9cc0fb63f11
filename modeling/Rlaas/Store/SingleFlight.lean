import Rlaas.Store.PolicyCache

/-! How calls on one cache proceed together. Each call is followed through its phases; a
step of the pool is one of the moves below. A record in `sfCalls` belongs to exactly one
call, which removes it. -/

set_option autoImplicit false

namespace Rlaas.Store.Cache

open Go Effect Function

variable {V σ : Type}
variable {calls : List (CacheCall V σ)} {pool : CachePool V σ}
  {loader : σ → String → Except String V × σ} {thread : Nat} {op : CacheOp V σ} {ns : String}
  {record : Nat}

/-- Where a call is. From `leading` to `shown` it owns a record of `sfCalls`. -/
inductive Phase (V : Type) where
  | fresh
  | sweeping (now : Int)
  | missed (ns : String)
  | waiting (call : Nat)
  | leading (ns : String) (call : Nat)
  /-- The loader has returned a list that is not in the cache yet. -/
  | loaded (ns : String) (call : Nat) (policies : V)
  | ready (ns : String) (call : Nat) (result : Except String V)
  | shown (ns : String) (call : Nat) (result : Except String V)
  | ended (answer : Answer V)

namespace Phase

def holds : Phase V → Option (String × Nat)
  | .leading ns call => some (ns, call)
  | .loaded ns call _ => some (ns, call)
  | .ready ns call _ => some (ns, call)
  | .shown ns call _ => some (ns, call)
  | _ => none

/-- The list that a call has loaded and whose record it has not removed yet. -/
def cargo : Phase V → Option (String × Nat × V)
  | .loaded ns call policies => some (ns, call, policies)
  | .ready ns call (.ok policies) => some (ns, call, policies)
  | .shown ns call (.ok policies) => some (ns, call, policies)
  | _ => none

/-- The result the call shows to those that wait for it. -/
def revealed : Phase V → Option (Except String V)
  | .shown _ _ result => some result
  | _ => none

end Phase

/-- The step a call makes next. -/
def Next (call : CacheCall V σ) (op : CacheOp V σ) : Phase V → Prop
  | .fresh =>
      match call with
      | .get ns => op = .get ns
      | .set ns policies => op = .set ns policies
      | .invalidate ns => op = .invalidate ns
      | .sweep => op = .now
      | .getOrLoad ns => op = .get ns
      | .write change => op = .write change
  | .sweeping now => op = .sweep now
  | .missed ns => op = .join ns
  | .waiting record => op = .wait record
  | .leading ns record => op = .load record ns
  | .loaded ns _ policies => op = .set ns policies
  | .ready _ record result => op = .finish record result
  | .shown ns _ _ => op = .forget ns
  | .ended _ => False

def advance (call : CacheCall V σ) : Phase V → (op : CacheOp V σ) → CacheRes op → Phase V
  | .fresh, .get _, some policies => .ended (some (.ok policies))
  | .fresh, .get _, none =>
      match call with
      | .getOrLoad ns => .missed ns
      | _ => .ended none
  | .fresh, .now, now => .sweeping now
  | .missed _, .join _, .waiting record => .waiting record
  | .missed ns, .join _, .leading record => .leading ns record
  | .waiting _, .wait _, result => .ended (some result)
  | .leading ns record, .load .., .ok policies => .loaded ns record policies
  | .leading ns record, .load .., .error err => .ready ns record (.error err)
  | .loaded ns record policies, .set .., _ => .ready ns record (.ok policies)
  | .ready ns record result, .finish .., _ => .shown ns record result
  | .shown _ _ result, .forget _, _ => .ended (some result)
  | _, _, _ => .ended none

def watch (call : CacheCall V σ) : Monitor (CacheOp V σ) CacheRes (Phase V) (Answer V) where
  expects _ _ _ := True
  guard phase op := Next call op phase
  advance := advance call
  accept phase answer := phase = .ended answer

theorem concludeLoad_accepts (call : CacheCall V σ) (ns : String) (record : Nat)
    (result : Except String V) :
    (watch call).Accepts (.ready ns record result) (concludeLoad ns record result) :=
  ⟨rfl, fun _ _ => ⟨rfl, fun _ _ => rfl⟩⟩

theorem steps_accepts (call : CacheCall V σ) : (watch call).Accepts .fresh call.steps := by
  cases call with
  | get ns =>
      refine ⟨rfl, fun hit _ => ?_⟩
      cases hit with
      | none => rfl
      | some policies => rfl
  | set ns policies => exact ⟨rfl, fun _ _ => rfl⟩
  | invalidate ns => exact ⟨rfl, fun _ _ => rfl⟩
  | sweep => exact ⟨rfl, fun _ _ => ⟨rfl, fun _ _ => rfl⟩⟩
  | write change => exact ⟨rfl, fun _ _ => rfl⟩
  | getOrLoad ns =>
      refine ⟨rfl, fun hit _ => ?_⟩
      cases hit with
      | some policies => rfl
      | none =>
          refine ⟨rfl, fun seat _ => ?_⟩
          cases seat with
          | waiting record => exact ⟨rfl, fun _ _ => rfl⟩
          | leading record =>
              refine ⟨rfl, fun result _ => ?_⟩
              cases result with
              | error err => exact concludeLoad_accepts _ ns record (.error err)
              | ok policies =>
                  exact ⟨rfl, fun _ _ => concludeLoad_accepts _ ns record (.ok policies)⟩

/-- What a step that is not blocked does: the call that makes it, its phase and the shared
state before and after. -/
inductive Move (loader : σ → String → Except String V × σ) (reading : Reading V) :
    CacheCall V σ → Shared V σ → Phase V → CacheOp V σ → Shared V σ → Phase V → Prop where
  | hit {call shared ns policies} : call = .get ns ∨ call = .getOrLoad ns →
      shared.cache.get reading.now ns = some policies →
      Move loader reading call shared .fresh (.get ns) shared (.ended (some (.ok policies)))
  | miss {shared ns} : shared.cache.get reading.now ns = none →
      Move loader reading (.get ns) shared .fresh (.get ns) shared (.ended none)
  | missLoad {shared ns} : shared.cache.get reading.now ns = none →
      Move loader reading (.getOrLoad ns) shared .fresh (.get ns) shared (.missed ns)
  | set {shared ns policies} :
      Move loader reading (.set ns policies) shared .fresh (.set ns policies)
        { shared with cache := shared.cache.set reading.now reading.order ns policies }
        (.ended none)
  | invalidate {shared ns} :
      Move loader reading (.invalidate ns) shared .fresh (.invalidate ns)
        { shared with cache := shared.cache.invalidate ns } (.ended none)
  | readClock {shared} :
      Move loader reading .sweep shared .fresh .now shared (.sweeping reading.now)
  | sweep {call shared now} :
      Move loader reading call shared (.sweeping now) (.sweep now)
        { shared with cache := shared.cache.sweep now } (.ended none)
  | write {shared change} :
      Move loader reading (.write change) shared .fresh (.write change)
        { shared with source := change shared.source } (.ended none)
  | join {call shared ns record} : shared.sfCalls ns = some record →
      Move loader reading call shared (.missed ns) (.join ns) shared (.waiting record)
  | lead {call shared ns} : shared.sfCalls ns = none →
      Move loader reading call shared (.missed ns) (.join ns)
        { shared with
          calls := shared.calls ++ [none]
          sfCalls := update shared.sfCalls ns (some shared.calls.length) }
        (.leading ns shared.calls.length)
  | wait {call shared record result} : shared.shown record = some result →
      Move loader reading call shared (.waiting record) (.wait record) shared
        (.ended (some result))
  | load {call shared ns record policies} : (loader shared.source ns).1 = .ok policies →
      Move loader reading call shared (.leading ns record) (.load record ns)
        { shared with source := (loader shared.source ns).2 } (.loaded ns record policies)
  | loadFails {call shared ns record err} : (loader shared.source ns).1 = .error err →
      Move loader reading call shared (.leading ns record) (.load record ns)
        { shared with source := (loader shared.source ns).2 } (.ready ns record (.error err))
  | store {call shared ns record policies} :
      Move loader reading call shared (.loaded ns record policies) (.set ns policies)
        { shared with cache := shared.cache.set reading.now reading.order ns policies }
        (.ready ns record (.ok policies))
  | finish {call shared ns record result} :
      Move loader reading call shared (.ready ns record result) (.finish record result)
        { shared with calls := shared.calls.set record (some result) } (.shown ns record result)
  | forget {call shared ns record result} :
      Move loader reading call shared (.shown ns record result) (.forget ns)
        { shared with sfCalls := update shared.sfCalls ns none }
        (.ended (some result))

section Moves

variable {loader : σ → String → Except String V × σ} {reading : Reading V}
  {call : CacheCall V σ} {shared after : Shared V σ} {phase reached : Phase V} {op : CacheOp V σ}

theorem move_of_get (looks : call = .get ns ∨ call = .getOrLoad ns) :
    Move loader reading call shared .fresh (.get ns) shared
      (advance call .fresh (.get ns : CacheOp V σ) (shared.cache.get reading.now ns)) := by
  cases found : shared.cache.get reading.now ns with
  | some policies => exact .hit looks found
  | none =>
      cases looks with
      | inl get => subst get; exact .miss found
      | inr load => subst load; exact .missLoad found

theorem move_of_join :
    Move loader reading call shared (.missed ns) (.join ns)
      (Shared.perform loader reading (.join ns) shared).2
      (advance call (.missed ns) (.join ns : CacheOp V σ)
        (Shared.perform loader reading (.join ns) shared).1) := by
  rw [Shared.perform]
  cases found : shared.sfCalls ns with
  | some record => exact .join found
  | none => exact .lead found

theorem move_of_load :
    Move loader reading call shared (.leading ns record) (.load record ns)
      { shared with source := (loader shared.source ns).2 }
      (advance call (.leading ns record) (.load record ns : CacheOp V σ)
        (loader shared.source ns).1) := by
  cases found : (loader shared.source ns).1 with
  | ok policies => exact .load found
  | error err => exact .loadFails found

theorem move_of_wait (free : shared.blocked (.wait record) = false) :
    Move loader reading call shared (.waiting record) (.wait record) shared
      (.ended (some ((shared.shown record).getD (.error "")))) := by
  cases found : shared.shown record with
  | some result => exact .wait found
  | none => simp [Shared.blocked, found] at free

/-- Every step of a call that is not blocked is a move. -/
theorem move_of_next (next : Next call op phase) (free : shared.blocked op = false) :
    Move loader reading call shared phase op (Shared.perform loader reading op shared).2
      (advance call phase op (Shared.perform loader reading op shared).1) := by
  cases phase with
  | fresh =>
      cases call with
      | get ns => cases next; exact move_of_get (.inl rfl)
      | set ns policies => cases next; exact .set
      | invalidate ns => cases next; exact .invalidate
      | sweep => cases next; exact .readClock
      | getOrLoad ns => cases next; exact move_of_get (.inr rfl)
      | write change => cases next; exact .write
  | sweeping now => cases next; exact .sweep
  | missed ns => cases next; exact move_of_join
  | waiting record => cases next; exact move_of_wait free
  | leading ns record => cases next; exact move_of_load
  | loaded ns record policies => cases next; exact .store
  | ready ns record result => cases next; exact .finish
  | shown ns record result => cases next; exact .forget
  | ended answer => cases next

end Moves

/-- A record of the table belongs to one call, which leads it, and shows what that call
shows. -/
structure Coherent (shared : Shared V σ) (phases : Nat → Phase V) : Prop where
  listed : ∀ thread ns record, (phases thread).holds = some (ns, record) →
    shared.sfCalls ns = some record
  held : ∀ ns record, shared.sfCalls ns = some record →
    ∃ thread, (phases thread).holds = some (ns, record)
  alone : ∀ left right ns ns' record, (phases left).holds = some (ns, record) →
    (phases right).holds = some (ns', record) → left = right
  begun : ∀ thread ns record, (phases thread).holds = some (ns, record) →
    record < shared.calls.length
  reveals : ∀ thread ns record, (phases thread).holds = some (ns, record) →
    shared.shown record = (phases thread).revealed

section Coherent

variable {loader : σ → String → Except String V × σ} {reading : Reading V}
  {call : CacheCall V σ} {shared after : Shared V σ} {phases : Nat → Phase V} {thread : Nat}
  {reached : Phase V} {op : CacheOp V σ}

theorem Shared.shown_begin (shared : Shared V σ) (table : String → Option Nat) (record : Nat) :
    { shared with calls := shared.calls ++ [none], sfCalls := table }.shown record =
      shared.shown record := by
  simp only [shown]
  rcases Nat.lt_trichotomy record shared.calls.length with before | here | beyond
  · rw [List.getElem?_append_left before]
  · subst here
    simp
  · rw [List.getElem?_eq_none (by simp; omega), List.getElem?_eq_none (by omega)]

theorem Shared.shown_finish {shared : Shared V σ} (inside : record < shared.calls.length)
    (result : Except String V) :
    { shared with calls := shared.calls.set record (some result) }.shown =
      update shared.shown record (some result) := by
  funext other
  rw [update_apply]
  split_ifs with same
  · subst same
    simp [shown, inside]
  · simp [shown, List.getElem?_set_ne (Ne.symm same)]

theorem coherent_start (cache : MemoryPolicyCache V) (source : σ) :
    Coherent (Shared.start cache source) fun _ => .fresh where
  listed _ _ _ owned := by cases owned
  held _ _ entered := by cases entered
  alone _ _ _ _ _ owned := by cases owned
  begun _ _ _ owned := by cases owned
  reveals _ _ _ owned := by cases owned

section

variable (coherent : Coherent shared phases)

include coherent

theorem Coherent.keep (records : after.calls = shared.calls)
    (table : after.sfCalls = shared.sfCalls) (held : reached.holds = (phases thread).holds)
    (revealed : reached.revealed = (phases thread).revealed) :
    Coherent after (update phases thread reached) := by
  have sameHolds := view_update_same Phase.holds held
  have sameRevealed := view_update_same Phase.revealed revealed
  have sameShown : ∀ record, after.shown record = shared.shown record := fun record => by
    rw [Shared.shown, records, Shared.shown]
  constructor
  · simp only [sameHolds, table]
    exact coherent.listed
  · simp only [sameHolds, table]
    exact coherent.held
  · simp only [sameHolds]
    exact coherent.alone
  · simp only [sameHolds, records]
    exact coherent.begun
  · simp only [sameHolds, sameRevealed, sameShown]
    exact coherent.reveals

theorem Coherent.lead (missed : phases thread = .missed ns) (absent : shared.sfCalls ns = none) :
    Coherent { shared with
        calls := shared.calls ++ [none]
        sfCalls := update shared.sfCalls ns (some shared.calls.length) }
      (update phases thread (.leading ns shared.calls.length)) := by
  constructor
  · intro other ns' record owned
    cases view_update_cases Phase.holds owned with
    | inl here =>
        cases here.2
        exact update_self ..
    | inr there =>
        have entered := coherent.listed other ns' record there.2
        dsimp only
        rw [update_of_ne]
        · exact entered
        · rintro rfl
          rw [absent] at entered
          cases entered
  · intro ns' record entered
    dsimp only at entered
    rw [update_apply] at entered
    split_ifs at entered with same
    · cases entered
      exact ⟨thread, by rw [update_self, same]; rfl⟩
    · obtain ⟨other, owned⟩ := coherent.held ns' record entered
      refine ⟨other, ?_⟩
      rw [update_of_ne]
      · exact owned
      · rintro rfl
        rw [missed] at owned
        cases owned
  · intro left right ns' ns'' record first second
    cases view_update_cases Phase.holds first with
    | inl here =>
        cases here.2
        cases view_update_cases Phase.holds second with
        | inl same => exact here.1.trans same.1.symm
        | inr older => exact absurd (coherent.begun right ns'' _ older.2) (Nat.lt_irrefl _)
    | inr before =>
        cases view_update_cases Phase.holds second with
        | inl here =>
            cases here.2
            exact absurd (coherent.begun left ns' _ before.2) (Nat.lt_irrefl _)
        | inr older => exact coherent.alone left right ns' ns'' record before.2 older.2
  · intro other ns' record owned
    rw [List.length_append]
    cases view_update_cases Phase.holds owned with
    | inl here =>
        cases here.2
        exact Nat.lt_succ_self _
    | inr before => exact Nat.lt_succ_of_lt (coherent.begun other ns' record before.2)
  · intro other ns' record owned
    rw [Shared.shown_begin]
    cases view_update_cases Phase.holds owned with
    | inl here =>
        cases here.2
        rw [here.1, update_self]
        simp [Shared.shown, Phase.revealed]
    | inr before =>
        rw [update_of_ne before.1]
        exact coherent.reveals other ns' record before.2

theorem Coherent.finish {result : Except String V}
    (ready : phases thread = .ready ns record result) :
    Coherent { shared with calls := shared.calls.set record (some result) }
      (update phases thread (.shown ns record result)) := by
  have mine : (phases thread).holds = some (ns, record) := by
    rw [ready]
    rfl
  have sameHolds := view_update_same Phase.holds
    (show (Phase.shown ns record result).holds = _ from mine.symm)
  constructor
  · simp only [sameHolds]
    exact coherent.listed
  · simp only [sameHolds]
    exact coherent.held
  · simp only [sameHolds]
    exact coherent.alone
  · simp only [sameHolds, List.length_set]
    exact coherent.begun
  · intro other ns' record' owned
    rw [sameHolds] at owned
    rw [Shared.shown_finish (coherent.begun thread ns record mine)]
    by_cases same : other = thread
    · subst same
      rw [mine] at owned
      cases owned
      rw [update_self, update_self]
      rfl
    · have different : record' ≠ record := fun equal =>
        same (coherent.alone other thread ns' ns record (equal ▸ owned) mine)
      rw [update_of_ne different, update_of_ne same]
      exact coherent.reveals other ns' record' owned

theorem Coherent.forget {result : Except String V}
    (shown : phases thread = .shown ns record result) :
    Coherent { shared with sfCalls := update shared.sfCalls ns none }
      (update phases thread (.ended (some result))) := by
  have mine : (phases thread).holds = some (ns, record) := by
    rw [shown]
    rfl
  have owners : ∀ other ns' record',
      (update phases thread (.ended (some result)) other).holds = some (ns', record') →
      other ≠ thread ∧ (phases other).holds = some (ns', record') := by
    intro other ns' record' owned
    cases view_update_cases Phase.holds owned with
    | inl here => cases here.2
    | inr there => exact there
  constructor
  · intro other ns' record' owned
    obtain ⟨different, before⟩ := owners other ns' record' owned
    have entered := coherent.listed other ns' record' before
    dsimp only
    rw [update_of_ne]
    · exact entered
    · rintro rfl
      rw [coherent.listed thread ns' record mine] at entered
      cases entered
      exact different (coherent.alone other thread ns' ns' record before mine)
  · intro ns' record' entered
    dsimp only at entered
    rw [update_apply] at entered
    split_ifs at entered with same
    obtain ⟨other, owned⟩ := coherent.held ns' record' entered
    refine ⟨other, ?_⟩
    rw [update_of_ne]
    · exact owned
    · rintro rfl
      rw [mine] at owned
      cases owned
      exact same rfl
  · intro left right ns' ns'' record' first second
    exact coherent.alone left right ns' ns'' record' (owners left ns' record' first).2
      (owners right ns'' record' second).2
  · intro other ns' record' owned
    exact coherent.begun other ns' record' (owners other ns' record' owned).2
  · intro other ns' record' owned
    obtain ⟨different, before⟩ := owners other ns' record' owned
    rw [update_of_ne different]
    exact coherent.reveals other ns' record' before

theorem Coherent.move (move : Move loader reading call shared (phases thread) op after reached) :
    Coherent after (update phases thread reached) := by
  generalize before : phases thread = phase at move
  cases move with
  | lead absent => exact coherent.lead before absent
  | finish => exact coherent.finish before
  | forget => exact coherent.forget before
  | _ => exact coherent.keep rfl rfl (by rw [before]; rfl) (by rw [before]; rfl)

end

end Coherent

/-- What a load of a record has returned. -/
def loadOf : Event (CacheOp V σ) CacheRes → Option (Nat × Except String V)
  | ⟨.load record _, result⟩ => some (record, result)
  | _ => none

/-- The calls of the loader so far. -/
def loads (history : List (Entry (CacheOp V σ) CacheRes (Reading V))) :
    List (Nat × Except String V) :=
  history.filterMap fun entry => loadOf entry.event

theorem loads_snoc (history : List (Entry (CacheOp V σ) CacheRes (Reading V))) (thread : Nat)
    (reading : Reading V) (event : Event (CacheOp V σ) CacheRes) :
    loads (history ++ [⟨thread, reading, event⟩]) = loads history ++ (loadOf event).toList :=
  filterMap_snoc _ history _

def watchAt (calls : List (CacheCall V σ)) (thread : Nat) :
    Monitor (CacheOp V σ) CacheRes (Phase V) (Answer V) :=
  watch (calls[thread]?.getD .sweep)

def phasesOf (calls : List (CacheCall V σ))
    (history : List (Entry (CacheOp V σ) CacheRes (Reading V))) : Nat → Phase V :=
  Pool.stages (watchAt calls) (fun _ => .fresh) history

/-- A schedule that lets no call go on that waits. -/
def Unblocked (loader : σ → String → Except String V × σ) (pool : CachePool V σ)
    (schedule : List (Nat × Reading V)) : Prop :=
  pool.Along (Shared.perform loader) (fun shared _ _ _ op => shared.blocked op = false) schedule

instance (loader : σ → String → Except String V × σ) (pool : CachePool V σ)
    (schedule : List (Nat × Reading V)) : Decidable (Unblocked loader pool schedule) :=
  inferInstanceAs (Decidable (Pool.Along ..))

/-- Each call of the pool is where its phase says. -/
structure Tracked (calls : List (CacheCall V σ)) (pool : CachePool V σ) : Prop where
  size : pool.threads.length = calls.length
  followed : pool.Followed (watchAt calls) fun _ => .fresh
  absent : ∀ thread, calls.length ≤ thread → own pool.history thread = []

theorem tracked_begin (calls : List (CacheCall V σ)) (shared : Shared V σ) :
    Tracked calls (CachePool.begin calls shared) where
  size := List.length_map _
  followed := Pool.followed_start fun thread program lookup => by
    rw [List.getElem?_map] at lookup
    obtain ⟨call, found, rfl⟩ := Option.map_eq_some_iff.mp lookup
    rw [watchAt, found]
    exact steps_accepts call
  absent _ _ := rfl

theorem Tracked.ended (tracked : Tracked calls pool) {answer : Answer V}
    (done : pool.results[thread]? = some (some answer)) :
    phasesOf calls pool.history thread = .ended answer :=
  tracked.followed thread _ (Pool.results_eq_some.mp done)

theorem Tracked.next (tracked : Tracked calls pool) {next : CacheRes op → Steps V σ}
    (found : pool.threads[thread]? = some (.call op next)) :
    Next (calls[thread]?.getD .sweep) op (phasesOf calls pool.history thread) :=
  (tracked.followed thread _ found).1

theorem phasesOf_step
       {next : CacheRes op → Steps V σ} (found : pool.threads[thread]? = some (.call op next))
    (reading : Reading V) :
    phasesOf calls (pool.step (Shared.perform loader) (thread, reading)).history =
      update (phasesOf calls pool.history) thread
        (advance (calls[thread]?.getD .sweep) (phasesOf calls pool.history thread) op
          (Shared.perform loader reading op pool.state).1) := by
  rw [Pool.step_of_call found]
  exact Pool.stages_snoc ..

theorem Tracked.step
    (tracked : Tracked calls pool) {next : CacheRes op → Steps V σ}
    (found : pool.threads[thread]? = some (.call op next)) (reading : Reading V) :
    Tracked calls (pool.step (Shared.perform loader) (thread, reading)) where
  size := (Pool.step_threads_length _ _ _).trans tracked.size
  followed := tracked.followed.step found trivial
  absent other beyond :=
    (Pool.own_run_of_idle [(thread, reading)] fun _ _ _ => tracked.size.le.trans beyond).trans
      (tracked.absent other beyond)

theorem Tracked.found (tracked : Tracked calls pool)
    (begun : phasesOf calls pool.history thread ≠ .fresh) :
    ∃ program, pool.threads[thread]? = some program := by
  by_cases inside : thread < pool.threads.length
  · exact ⟨_, List.getElem?_eq_getElem inside⟩
  · refine absurd ?_ begun
    rw [phasesOf, Pool.stages, tracked.absent thread (by have := tracked.size; omega)]
    rfl

theorem Tracked.coherent
      (tracked : Tracked calls pool) (coherent : Coherent pool.state (phasesOf calls pool.history))
    {next : CacheRes op → Steps V σ} (found : pool.threads[thread]? = some (.call op next))
    (free : pool.state.blocked op = false) (reading : Reading V) :
    Coherent (pool.step (Shared.perform loader) (thread, reading)).state
      (phasesOf calls (pool.step (Shared.perform loader) (thread, reading)).history) := by
  rw [phasesOf_step found, Pool.step_of_call found]
  exact coherent.move (move_of_next (tracked.next found) free)

theorem Tracked.turn (tracked : Tracked calls pool)
    (begun : phasesOf calls pool.history thread ≠ .fresh)
    (going : ∀ answer, phasesOf calls pool.history thread ≠ .ended answer)
    (only : ∀ other, Next (calls[thread]?.getD .sweep) other
      (phasesOf calls pool.history thread) → other = op) :
    ∃ next, pool.threads[thread]? = some (.call op next) := by
  obtain ⟨program, found⟩ := tracked.found begun
  cases program with
  | done answer => exact absurd (tracked.ended (Pool.results_eq_some.mpr found)) (going answer)
  | call other next =>
      cases only other (tracked.next found)
      exact ⟨next, found⟩

/-- The rule for an invariant of the shared state, the phases and the loads. -/
theorem run_moves {condition : Shared V σ → Reading V → CacheOp V σ → Prop}
    (invariant : Shared V σ → (Nat → Phase V) → List (Nat × Except String V) → Prop)
    (preserve : ∀ shared phases loads thread call reading op after reached,
      calls[thread]? = some call → invariant shared phases loads → condition shared reading op →
      Move loader reading call shared (phases thread) op after reached →
      invariant after (update phases thread reached)
        (loads ++ (loadOf ⟨op, (Shared.perform loader reading op shared).1⟩).toList))
    (schedule : List (Nat × Reading V)) (tracked : Tracked calls pool)
    (valid : invariant pool.state (phasesOf calls pool.history) (loads pool.history))
    (free : Unblocked loader pool schedule)
    (along : pool.Along (Shared.perform loader)
      (fun shared _ _ reading op => condition shared reading op) schedule) :
    Tracked calls (pool.run (Shared.perform loader) schedule) ∧
      invariant (pool.run (Shared.perform loader) schedule).state
        (phasesOf calls (pool.run (Shared.perform loader) schedule).history)
        (loads (pool.run (Shared.perform loader) schedule).history) := by
  obtain ⟨followed, kept⟩ := Pool.run_invariant (Shared.perform loader) (watchAt calls)
    (fun _ => .fresh)
    (fun shared history => invariant shared (phasesOf calls history) (loads history))
    (fun shared history thread reading op inRange holds allowed next => by
      have found : calls[thread]? = some (calls[thread]?.getD .sweep) := by
        rw [List.getElem?_eq_getElem inRange]
        rfl
      refine ⟨trivial, ?_⟩
      rw [phasesOf, Pool.stages_snoc, loads_snoc]
      exact preserve shared (phasesOf calls history) (loads history) thread _ reading op _ _ found
        holds allowed.2 (move_of_next next allowed.1))
    schedule pool tracked.size tracked.followed valid (free.and along)
  refine ⟨⟨(Pool.run_threads_length _ _ _).trans tracked.size, followed, ?_⟩, kept⟩
  intro thread beyond
  exact (Pool.own_run_of_idle schedule fun _ _ _ => tracked.size.le.trans beyond).trans
    (tracked.absent thread beyond)

end Rlaas.Store.Cache
