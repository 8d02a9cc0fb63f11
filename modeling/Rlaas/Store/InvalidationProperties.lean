import Rlaas.Store.SingleFlightProperties

/-! Invalidation under concurrency. Every list carries the number of the read that it
comes from, which the cache never looks at. After `Invalidate` no later call returns a
list read before it, unless a load of the namespace was then between its read and the
removal of its record. -/

set_option autoImplicit false

namespace Rlaas.Store.Cache

open Go Effect Function

variable {P S : Type}
variable {value : Nat × P}

/-- The calls of the users of a cache over a policy store with states `S`. -/
inductive Access (S : Type) where
  | get (ns : String)
  | getOrLoad (ns : String)
  | invalidate (ns : String)
  | sweep
  | write (change : S → S)

def Access.call (P : Type) : Access S → CacheCall (Nat × P) (S × Nat)
  | .get ns => .get ns
  | .getOrLoad ns => .getOrLoad ns
  | .invalidate ns => .invalidate ns
  | .sweep => .sweep
  | .write change => .write fun source => (change source.1, source.2)

/-- The loader, with its reads of the store numbered. -/
def numbered (read : S → String → Except String P) (source : S × Nat) (ns : String) :
    Except String (Nat × P) × (S × Nat) :=
  ((read source.1 ns).map fun policies => (source.2, policies), (source.1, source.2 + 1))

/-- The namespace that a call is concerned with. -/
def Phase.about {V : Type} : Phase V → Option String
  | .missed ns => some ns
  | .leading ns _ => some ns
  | .loaded ns _ _ => some ns
  | .ready ns _ _ => some ns
  | .shown ns _ _ => some ns
  | _ => none

/-- The record is not one of another namespace, and the list it shows, if it does, is
from `bound` on. -/
structure Sound (ns : String) (bound : Nat) (shared : Shared (Nat × P) (S × Nat))
    (phases : Nat → Phase (Nat × P)) (record : Nat) : Prop where
  begun : record < shared.calls.length
  owned : ∀ thread ns', (phases thread).holds = some (ns', record) → ns' = ns
  shown : ∀ value, shared.shown record = some (.ok value) → bound ≤ value.1

/-- Nothing that the late calls can come by for the namespace was read before `bound`. -/
structure Recent (ns : String) (bound : Nat) (late : Nat → Prop)
    (shared : Shared (Nat × P) (S × Nat)) (phases : Nat → Phase (Nat × P)) : Prop where
  coherent : Coherent shared phases
  count : bound ≤ shared.source.2
  cached : ∀ it, shared.cache.items.find ns = some it → bound ≤ it.policies.1
  cargo : ∀ thread record value, (phases thread).cargo = some (ns, record, value) →
    bound ≤ value.1
  table : ∀ record, shared.sfCalls ns = some record → Sound ns bound shared phases record
  waits : ∀ thread record, late thread → phases thread = .waiting record →
    Sound ns bound shared phases record
  ends : ∀ thread value, late thread → phases thread = .ended (some (.ok value)) →
    bound ≤ value.1
  looks : ∀ thread ns', late thread → (phases thread).about = some ns' → ns' = ns

section Recent

variable {read : S → String → Except String P} {reading : Reading (Nat × P)} {ns : String}
  {bound : Nat} {late : Nat → Prop} {shared after : Shared (Nat × P) (S × Nat)}
  {phases : Nat → Phase (Nat × P)} {thread record : Nat} {reached : Phase (Nat × P)}
  {op : CacheOp (Nat × P) (S × Nat)}
variable {looked : String}

theorem Sound.keep (sound : Sound ns bound shared phases record)
    (records : after.calls = shared.calls)
    (holds : ∀ pair, reached.holds = some pair → (phases thread).holds = some pair) :
    Sound ns bound after (update phases thread reached) record where
  begun := records ▸ sound.begun
  owned other ns' owned := by
    cases view_update_cases Phase.holds owned with
    | inl here => exact sound.owned thread ns' (holds _ here.2)
    | inr there => exact sound.owned other ns' there.2
  shown value shown := by
    rw [Shared.shown, records] at shown
    exact sound.shown value shown

theorem Sound.lead (sound : Sound ns bound shared phases record) (looked : String)
    (table : String → Option Nat) :
    Sound ns bound { shared with calls := shared.calls ++ [none], sfCalls := table }
      (update phases thread (.leading looked shared.calls.length)) record where
  begun := by
    rw [List.length_append]
    exact Nat.lt_add_right _ sound.begun
  owned other ns' owned := by
    cases view_update_cases Phase.holds owned with
    | inl here =>
        cases here.2
        exact absurd sound.begun (Nat.lt_irrefl _)
    | inr there => exact sound.owned other ns' there.2
  shown value shown := by
    rw [Shared.shown_begin] at shown
    exact sound.shown value shown

/-- What a record shows is what the call that owns it has loaded. -/
theorem Sound.finish (sound : Sound ns bound shared phases record) {finished : Nat}
    {result : Except String (Nat × P)} (coherent : Coherent shared phases)
    (ready : phases thread = .ready looked finished result)
    (recent : ∀ value, (phases thread).cargo = some (ns, finished, value) → bound ≤ value.1) :
    Sound ns bound { shared with calls := shared.calls.set finished (some result) }
      (update phases thread (.shown looked finished result)) record where
  begun := by
    rw [List.length_set]
    exact sound.begun
  owned other ns' owned := by
    cases view_update_cases Phase.holds owned with
    | inl here => exact sound.owned thread ns' (by rw [ready]; exact here.2)
    | inr there => exact sound.owned other ns' there.2
  shown value shown := by
    have mine : (phases thread).holds = some (looked, finished) := by rw [ready]; rfl
    rw [Shared.shown_finish (coherent.begun thread looked finished mine)] at shown
    cases update_cases shown with
    | inl here =>
        obtain ⟨rfl, same⟩ := here
        cases Option.some.inj same
        obtain rfl : looked = ns := sound.owned thread looked mine
        exact recent value (by rw [ready]; rfl)
    | inr there => exact sound.shown value there.2

section

variable (recent : Recent ns bound late shared phases)

include recent

/-- What a move has to keep: the records stay sound, and the call that moves gets
nothing old. -/
theorem Recent.step (coherent : Coherent after (update phases thread reached))
    (count : bound ≤ after.source.2)
    (cached : ∀ it, after.cache.items.find ns = some it → bound ≤ it.policies.1)
    (cargo : ∀ record value, reached.cargo = some (ns, record, value) → bound ≤ value.1)
    (sound : ∀ record, Sound ns bound shared phases record →
      Sound ns bound after (update phases thread reached) record)
    (table : ∀ record, after.sfCalls ns = some record → shared.sfCalls ns = some record ∨
      Sound ns bound after (update phases thread reached) record)
    (waits : ∀ record, late thread → reached = .waiting record →
      Sound ns bound shared phases record)
    (ends : ∀ value, late thread → reached = .ended (some (.ok value)) → bound ≤ value.1)
    (looks : ∀ ns', late thread → reached.about = some ns' → ns' = ns) :
    Recent ns bound late after (update phases thread reached) where
  coherent := coherent
  count := count
  cached := cached
  cargo other record value found := by
    cases view_update_cases Phase.cargo found with
    | inl here => exact cargo record value here.2
    | inr there => exact recent.cargo other record value there.2
  table record entered := by
    cases table record entered with
    | inl before => exact sound record (recent.table record before)
    | inr here => exact here
  waits other record isLate located := by
    cases update_cases located with
    | inl here => exact sound record (waits record (here.1 ▸ isLate) here.2)
    | inr there => exact sound record (recent.waits other record isLate there.2)
  ends other value isLate located := by
    cases update_cases located with
    | inl here => exact ends value (here.1 ▸ isLate) here.2
    | inr there => exact recent.ends other value isLate there.2
  looks other ns' isLate found := by
    cases view_update_cases Phase.about found with
    | inl here => exact looks ns' (here.1 ▸ isLate) here.2
    | inr there => exact recent.looks other ns' isLate there.2

theorem Recent.lead (missed : phases thread = .missed looked)
    (coherent : Coherent { shared with
        calls := shared.calls ++ [none]
        sfCalls := update shared.sfCalls looked (some shared.calls.length) }
      (update phases thread (.leading looked shared.calls.length))) :
    Recent ns bound late { shared with
        calls := shared.calls ++ [none]
        sfCalls := update shared.sfCalls looked (some shared.calls.length) }
      (update phases thread (.leading looked shared.calls.length)) := by
  refine recent.step coherent recent.count recent.cached (fun _ _ none => by cases none)
    (fun record sound => sound.lead looked _) (fun record entered => ?_)
    (fun _ _ same => by cases same) (fun _ _ same => by cases same) fun ns' isLate same => ?_
  · cases update_cases entered with
    | inl here =>
        obtain ⟨rfl, same⟩ := here
        cases same
        refine .inr ⟨?_, fun other ns' owned => ?_, fun value shown => ?_⟩
        · rw [List.length_append]
          exact Nat.lt_succ_self _
        · cases view_update_cases Phase.holds owned with
          | inl mine =>
              cases mine.2
              rfl
          | inr theirs =>
              exact absurd (recent.coherent.begun other ns' _ theirs.2) (Nat.lt_irrefl _)
        · rw [Shared.shown_begin] at shown
          simp [Shared.shown] at shown
    | inr there => exact .inl there.2
  · exact recent.looks thread ns' isLate (by rw [missed]; exact same)

theorem Recent.finish {finished : Nat} {result : Except String (Nat × P)}
    (ready : phases thread = .ready looked finished result)
    (coherent : Coherent { shared with calls := shared.calls.set finished (some result) }
      (update phases thread (.shown looked finished result))) :
    Recent ns bound late { shared with calls := shared.calls.set finished (some result) }
      (update phases thread (.shown looked finished result)) := by
  have mine : (phases thread).cargo = (Phase.shown looked finished result).cargo := by
    rw [ready]
    cases result <;> rfl
  refine recent.step coherent recent.count recent.cached
    (fun record value found => recent.cargo thread record value (mine.trans found))
    (fun record sound => sound.finish recent.coherent ready fun value found =>
      recent.cargo thread finished value found)
    (fun record entered => .inl entered) (fun _ _ same => by cases same)
    (fun _ _ same => by cases same) fun ns' isLate same => ?_
  exact recent.looks thread ns' isLate (by rw [ready]; exact same)

/-- A move that leaves the records alone and enters none. It says what it gives the call; most
moves give nothing. -/
structure Quiet (ns : String) (bound : Nat) (late : Nat → Prop)
    (shared : Shared (Nat × P) (S × Nat)) (phases : Nat → Phase (Nat × P)) (thread : Nat)
    (after : Shared (Nat × P) (S × Nat)) (reached : Phase (Nat × P)) : Prop where
  records : after.calls = shared.calls := by rfl
  table : ∀ record, after.sfCalls ns = some record → shared.sfCalls ns = some record := by
    exact fun _ entered => entered
  count : bound ≤ after.source.2
  cached : ∀ it, after.cache.items.find ns = some it → bound ≤ it.policies.1
  cargo : ∀ record value, reached.cargo = some (ns, record, value) → bound ≤ value.1 := by
    intro _ _ none; cases none
  holds : ∀ pair, reached.holds = some pair → (phases thread).holds = some pair := by
    intro _ none; cases none
  waits : ∀ record, late thread → reached = .waiting record →
      Sound ns bound shared phases record := by
    intro _ _ none; cases none
  ends : ∀ value, late thread → reached = .ended (some (.ok value)) → bound ≤ value.1 := by
    intro _ _ none; cases none
  looks : ∀ ns', late thread → reached.about = some ns' → ns' = ns := by
    intro _ _ none; cases none

theorem Recent.quiet (coherent : Coherent after (update phases thread reached))
    (quiet : Quiet ns bound late shared phases thread after reached) :
    Recent ns bound late after (update phases thread reached) :=
  recent.step coherent quiet.count quiet.cached quiet.cargo
    (fun _ sound => sound.keep quiet.records quiet.holds)
    (fun record entered => .inl (quiet.table record entered)) quiet.waits quiet.ends quiet.looks

end

theorem namespace_of_call {access : Access S} (target : access = .get ns ∨ access = .getOrLoad ns)
    (looks : access.call P = .get looked ∨
      access.call P = .getOrLoad looked) : looked = ns := by
  cases target with
  | inl get =>
      subst get
      cases looks with
      | inl same => exact (CacheCall.get.inj same).symm
      | inr same => cases same
  | inr load =>
      subst load
      cases looks with
      | inl same => cases same
      | inr same => exact (CacheCall.getOrLoad.inj same).symm

theorem number_of_load {source : S × Nat} (loaded : (numbered read source looked).1 = .ok value) :
    value.1 = source.2 := by
  unfold numbered at loaded
  cases found : read source.1 looked with
  | error err =>
      rw [found] at loaded
      cases loaded
  | ok policies =>
      rw [found] at loaded
      cases loaded
      rfl

theorem Recent.move (recent : Recent ns bound late shared phases) {access : Access S}
    (target : late thread → access = .get ns ∨ access = .getOrLoad ns)
    (move : Move (numbered read) reading (access.call P) shared (phases thread) op after reached) :
    Recent ns bound late after (update phases thread reached) := by
  have coherent := recent.coherent.move move
  have about := recent.looks thread
  have carried := recent.cargo thread
  generalize before : phases thread = phase at move
  rw [before] at about carried
  generalize made : access.call P = call at move
  cases move with
  | lead absent => exact recent.lead before coherent
  | finish => exact recent.finish before coherent
  | set => cases access <;> cases made
  | @hit _ _ looked value looks found =>
      refine recent.quiet coherent
        { count := recent.count, cached := recent.cached, ends := fun value isLate same => ?_ }
      cases same
      obtain rfl : looked = ns := namespace_of_call (target isLate) (made ▸ looks)
      obtain ⟨it, entry, _, same⟩ := MemoryPolicyCache.get_eq_some.mp found
      exact same ▸ recent.cached it entry
  | miss absent => exact recent.quiet coherent { count := recent.count, cached := recent.cached }
  | missLoad absent =>
      refine recent.quiet coherent
        { count := recent.count, cached := recent.cached, looks := fun ns' isLate same => ?_ }
      cases same
      exact namespace_of_call (target isLate) (.inr made)
  | invalidate =>
      exact recent.quiet coherent
        { count := recent.count
          cached := fun it found => recent.cached it (Items.find_delete found) }
  | readClock => exact recent.quiet coherent { count := recent.count, cached := recent.cached }
  | sweep =>
      exact recent.quiet coherent
        { count := recent.count
          cached := fun it found => recent.cached it (Items.find_filter found) }
  | write =>
      have count : bound ≤ shared.source.2 := recent.count
      cases access with
      | write change =>
          cases made
          exact recent.quiet coherent { count, cached := recent.cached }
      | _ => cases made
  | join entered =>
      refine recent.quiet coherent
        { count := recent.count, cached := recent.cached, waits := fun record isLate same => ?_ }
      cases same
      exact recent.table _ (about _ isLate rfl ▸ entered)
  | wait shown =>
      refine recent.quiet coherent
        { count := recent.count, cached := recent.cached, ends := fun value isLate same => ?_ }
      cases same
      exact (recent.waits thread _ isLate before).shown value shown
  | load loaded =>
      refine recent.quiet coherent
        { count := recent.count.trans (Nat.le_succ _)
          cached := recent.cached
          cargo := fun record value same => ?_
          holds := fun pair same => by rw [before]; exact same
          looks := about }
      cases same
      exact number_of_load loaded ▸ recent.count
  | loadFails failed =>
      exact recent.quiet coherent
        { count := recent.count.trans (Nat.le_succ _)
          cached := recent.cached
          holds := fun pair same => by rw [before]; exact same
          looks := about }
  | store =>
      refine recent.quiet coherent
        { count := recent.count
          cached := fun it found => ?_
          cargo := carried
          holds := fun pair same => by rw [before]; exact same
          looks := about }
      cases MemoryPolicyCache.find_set found with
      | inr old => exact recent.cached it old
      | inl written =>
          obtain ⟨same, rfl⟩ := written
          rw [same]
          exact carried _ _ rfl
  | @forget _ _ looked record result =>
      refine recent.quiet coherent
        { count := recent.count
          cached := recent.cached
          table := fun record entered => ?_
          ends := fun value isLate same => ?_ }
      · cases update_cases entered with
        | inl here => cases here.2
        | inr there => exact there.2
      · cases same
        obtain rfl : looked = ns := about looked isLate rfl
        exact carried record value rfl

end Recent

/-- Lists on their way were read before now. -/
def Issued (shared : Shared (Nat × P) (S × Nat)) (phases : Nat → Phase (Nat × P)) : Prop :=
  ∀ thread ns record value, (phases thread).cargo = some (ns, record, value) →
    value.1 < shared.source.2

section Issued

variable {read : S → String → Except String P} {reading : Reading (Nat × P)}
  {access : Access S} {shared after : Shared (Nat × P) (S × Nat)}
  {phases : Nat → Phase (Nat × P)} {thread : Nat} {phase reached : Phase (Nat × P)}
  {op : CacheOp (Nat × P) (S × Nat)}

theorem count_le_of_move
    (move : Move (numbered read) reading (access.call P) shared phase op after reached) :
    shared.source.2 ≤ after.source.2 := by
  generalize made : access.call P = call at move
  cases move with
  | load loaded => exact Nat.le_succ _
  | loadFails failed => exact Nat.le_succ _
  | write =>
      cases access with
      | write change => cases made; exact Nat.le_refl _
      | _ => cases made
  | _ => exact Nat.le_refl _

/-- A call keeps its list or has just read it. -/
theorem cargo_of_move
    (move : Move (numbered read) reading (access.call P) shared phase op after reached)
    {ns : String} {record : Nat} (carried : reached.cargo = some (ns, record, value)) :
    phase.cargo = some (ns, record, value) ∨ value.1 < after.source.2 := by
  generalize access.call P = call at move
  cases move with
  | load loaded =>
      cases carried
      rw [number_of_load loaded]
      exact .inr (Nat.lt_succ_self _)
  | store => exact .inl carried
  | @finish _ _ _ _ result =>
      cases result with
      | error err => cases carried
      | ok value => exact .inl carried
  | _ => cases carried

theorem Issued.move (issued : Issued shared phases)
    (move : Move (numbered read) reading (access.call P) shared (phases thread) op after reached) :
    Issued after (update phases thread reached) := by
  intro other ns record value carried
  have later := count_le_of_move move
  cases view_update_cases Phase.cargo carried with
  | inl here =>
      cases cargo_of_move move here.2 with
      | inl before => exact (issued thread ns record value before).trans_le later
      | inr now => exact now
  | inr there => exact (issued other ns record value there.2).trans_le later

end Issued

/-- The calls of some users on a new cache. -/
def users (P : Type) (ttl : Duration) (maxItems : Int) (store : S) (accesses : List (Access S)) :
    CachePool (Nat × P) (S × Nat) :=
  CachePool.begin (accesses.map (Access.call P))
    (.start (newMemoryPolicyCacheWithLimits ttl maxItems) (store, 0))

/-- More users call. -/
def CachePool.admitMore (later : List (Access S)) (pool : CachePool (Nat × P) (S × Nat)) :
    CachePool (Nat × P) (S × Nat) :=
  pool.spawn (later.map fun access => (access.call P).steps)

section Runs

variable {read : S → String → Except String P} {accesses : List (Access S)}
  {pool : CachePool (Nat × P) (S × Nat)}

theorem Tracked.admitMore (tracked : Tracked (accesses.map (Access.call P)) pool)
    (later : List (Access S)) :
    Tracked ((accesses ++ later).map (Access.call P)) (pool.admitMore later) ∧
      phasesOf ((accesses ++ later).map (Access.call P)) pool.history =
        phasesOf (accesses.map (Access.call P)) pool.history := by
  have size : pool.threads.length = accesses.length := tracked.size.trans (List.length_map _)
  have absent : ∀ thread, accesses.length ≤ thread → own pool.history thread = [] :=
    fun thread beyond => tracked.absent thread (by rw [List.length_map]; exact beyond)
  have same : ∀ thread < accesses.length, watchAt ((accesses ++ later).map (Access.call P)) thread =
      watchAt (accesses.map (Access.call P)) thread := by
    intro thread inside
    rw [watchAt, watchAt, List.map_append, List.getElem?_append_left (by simpa using inside)]
  refine ⟨⟨?_, ?_, ?_⟩, ?_⟩
  · simp [CachePool.admitMore, Pool.spawn, size]
  · intro thread program found
    by_cases inside : thread < accesses.length
    · rw [same thread inside]
      refine tracked.followed thread program ?_
      simpa [CachePool.admitMore, Pool.spawn, List.getElem?_append_left (size.symm ▸ inside)]
        using found
    · have beyond : accesses.length ≤ thread := Nat.le_of_not_lt inside
      simp only [CachePool.admitMore, Pool.spawn] at found ⊢
      rw [List.getElem?_append_right (size.symm ▸ beyond), List.getElem?_map, size] at found
      obtain ⟨access, listed, rfl⟩ := Option.map_eq_some_iff.mp found
      rw [absent thread beyond, watchAt, List.getElem?_map, List.getElem?_append_right beyond, listed]
      exact steps_accepts (access.call P)
  · intro thread beyond
    rw [List.length_map, List.length_append] at beyond
    exact absent thread (by omega)
  · funext thread
    by_cases inside : thread < accesses.length
    · rw [phasesOf, Pool.stages, same thread inside]
      rfl
    · rw [phasesOf, Pool.stages, phasesOf, Pool.stages,
        absent thread (Nat.le_of_not_lt inside)]
      rfl

end Runs

section Showing

variable {V σ : Type} (loader : σ → String → Except String V × σ) {calls : List (CacheCall V σ)}
  {pool : CachePool V σ} {leader record : Nat} {ns : String} {policies : V}

theorem shown_of_ready (tracked : Tracked calls pool)
    (coherent : Coherent pool.state (phasesOf calls pool.history))
    (ready : phasesOf calls pool.history leader = .ready ns record (.ok policies))
    (reading : Reading V) :
    ∃ next, pool.threads[leader]? = some (.call (.finish record (.ok policies)) next) ∧
      (pool.step (Shared.perform loader) (leader, reading)).state.shown record =
        some (.ok policies) := by
  obtain ⟨next, found⟩ := tracked.turn (by rw [ready]; nofun) (by rw [ready]; nofun)
    (fun other turn => by rw [ready] at turn; exact turn)
  refine ⟨next, found, ?_⟩
  have begun := coherent.begun leader ns record (by rw [ready]; rfl)
  rw [Pool.step_of_call found]
  change ({ pool.state with
    calls := pool.state.calls.set record (some (.ok policies)) } : Shared V σ).shown record = _
  rw [Shared.shown_finish begun, update_self]

/-- A call that has loaded a list can show it, whatever the others do. -/
theorem exists_shown (tracked : Tracked calls pool)
    (coherent : Coherent pool.state (phasesOf calls pool.history))
    (carried : (phasesOf calls pool.history leader).cargo = some (ns, record, policies))
    (reading : Reading V) :
    ∃ turns, Unblocked loader pool turns ∧
      (pool.run (Shared.perform loader) turns).state.shown record = some (.ok policies) ∧
      ∀ other, other ≠ leader →
        (pool.run (Shared.perform loader) turns).threads[other]? = pool.threads[other]? := by
  cases phase : phasesOf calls pool.history leader with
  | shown ns' record' result =>
      cases result with
      | error err => rw [phase] at carried; cases carried
      | ok policies' =>
          rw [phase] at carried
          cases carried
          refine ⟨[], trivial, ?_, fun _ _ => rfl⟩
          have revealed := coherent.reveals leader ns record (by rw [phase]; rfl)
          rw [phase] at revealed
          exact revealed
  | ready ns' record' result =>
      cases result with
      | error err => rw [phase] at carried; cases carried
      | ok policies' =>
          rw [phase] at carried
          cases carried
          obtain ⟨next, found, shown⟩ := shown_of_ready loader tracked coherent phase reading
          exact ⟨[(leader, reading)], .of_call found rfl trivial, shown,
            fun other different => pool.step_threads_other _ different⟩
  | loaded ns' record' policies' =>
      rw [phase] at carried
      cases carried
      obtain ⟨next, found⟩ := tracked.turn (by rw [phase]; nofun) (by rw [phase]; nofun)
        (fun other turn => by rw [phase] at turn; exact turn)
      let stored := pool.step (Shared.perform loader) (leader, reading)
      have ready : phasesOf calls stored.history leader = .ready ns record (.ok policies) := by
        rw [phasesOf_step found, update_self, phase]
        rfl
      obtain ⟨next', found', shown⟩ := shown_of_ready loader (tracked.step found reading)
        (tracked.coherent coherent found rfl reading) ready reading
      exact ⟨[(leader, reading), (leader, reading)],
        .of_call found rfl (.of_call found' rfl trivial), shown, fun other different =>
          (stored.step_threads_other _ different).trans (pool.step_threads_other _ different)⟩
  | _ => rw [phase] at carried; cases carried

/-- A call that misses the cache while a load is under way joins it. -/
theorem joins_load {joiner : Nat} {reading : Reading V}
    (found : pool.threads[joiner]? = some (getOrLoad ns))
    (absent : pool.state.cache.get reading.now ns = none)
    (entered : pool.state.sfCalls ns = some record) :
    let turns := [(joiner, reading), (joiner, reading)]
    Unblocked loader pool turns ∧ (pool.run (Shared.perform loader) turns).state = pool.state ∧
      (pool.run (Shared.perform loader) turns).threads[joiner]? =
        some (.call (.wait record) fun result => .done (some result)) := by
  have inside := (List.getElem?_eq_some_iff.mp found).1
  let missed := pool.step (Shared.perform loader) (joiner, reading)
  have missedState : missed.state = pool.state := by
    change (pool.step _ _).state = _
    rw [Pool.step_of_call found]
    rfl
  have looks : ∃ next, missed.threads[joiner]? = some (.call (.join ns) next) ∧
      next (.waiting record) = .call (.wait record) fun result => .done (some result) := by
    change ∃ next, (pool.step _ _).threads[joiner]? = _ ∧ _
    rw [Pool.step_of_call found]
    simp only [List.getElem?_set_self inside, Shared.perform, absent]
    exact ⟨_, rfl, rfl⟩
  obtain ⟨next, found', waits⟩ := looks
  have inside' := (List.getElem?_eq_some_iff.mp found').1
  refine ⟨.of_call found rfl (.of_call found' rfl trivial), ?_, ?_⟩
  · change (missed.step _ _).state = _
    rw [Pool.step_of_call found', missedState]
    simp only [Shared.perform, entered]
  · change (missed.step _ _).threads[joiner]? = _
    rw [Pool.step_of_call found', missedState]
    simp only [List.getElem?_set_self inside', Shared.perform, entered, waits]

end Showing

/-- The thread is a call that looks the namespace up. -/
def Looks (accesses : List (Access S)) (ns : String) (thread : Nat) : Prop :=
  accesses[thread]? = some (.get ns) ∨ accesses[thread]? = some (.getOrLoad ns)

section Invalidated

variable {read : S → String → Except String P} {accesses later : List (Access S)} {ns : String}
  {pool : CachePool (Nat × P) (S × Nat)} {thread : Nat} {reading : Reading (Nat × P)}

theorem access_of_call {call : CacheCall (Nat × P) (S × Nat)}
    (found : (accesses.map (Access.call P))[thread]? = some call) :
    ∃ access, accesses[thread]? = some access ∧ access.call P = call := by
  rw [List.getElem?_map] at found
  exact Option.map_eq_some_iff.mp found

/-- In every run lists on their way are numbered, and the table is coherent. -/
theorem issued_run (ttl : Duration) (maxItems : Int) (store : S)
    {schedule : List (Nat × Reading (Nat × P))}
    (free : Unblocked (numbered read) (users P ttl maxItems store accesses) schedule) :
    let pool := (users P ttl maxItems store accesses).run (Shared.perform (numbered read)) schedule
    Tracked (accesses.map (Access.call P)) pool ∧
      Coherent pool.state (phasesOf (accesses.map (Access.call P)) pool.history) ∧
        Issued pool.state (phasesOf (accesses.map (Access.call P)) pool.history) := by
  refine run_moves (fun shared phases _ => Coherent shared phases ∧ Issued shared phases) ?_
    schedule (tracked_begin _ _) ⟨coherent_start _ _, fun _ _ _ _ none => by cases none⟩ free
    (Pool.along_trivial schedule _)
  intro shared phases loads thread call reading op after reached found both _ move
  obtain ⟨access, _, rfl⟩ := access_of_call found
  exact ⟨both.1.move move, both.2.move move⟩

theorem invalidate_step (tracked : Tracked (accesses.map (Access.call P)) pool)
    (listed : accesses[thread]? = some (.invalidate ns)) (unbegun : own pool.history thread = []) :
    phasesOf (accesses.map (Access.call P)) pool.history thread = .fresh ∧
      ∃ next, pool.threads[thread]? = some (.call (.invalidate ns) next) := by
  have fresh : phasesOf (accesses.map (Access.call P)) pool.history thread = .fresh := by
    rw [phasesOf, Pool.stages, unbegun]
    rfl
  have inside : thread < pool.threads.length := by
    rw [tracked.size, List.length_map]
    exact (List.getElem?_eq_some_iff.mp listed).1
  refine ⟨fresh, ?_⟩
  have found := List.getElem?_eq_getElem inside
  cases program : pool.threads[thread] with
  | done answer =>
      rw [program] at found
      cases fresh.symm.trans (tracked.ended (Pool.results_eq_some.mpr found))
  | call op next =>
      rw [program] at found
      have turn := tracked.next found
      rw [fresh, List.getElem?_map, listed] at turn
      cases turn
      exact ⟨next, found⟩

theorem holds_of_cargo {phase : Phase (Nat × P)} {record : Nat}
    (carried : phase.cargo = some (ns, record, value)) : phase.holds = some (ns, record) := by
  cases phase with
  | loaded ns' record' policies => cases carried; rfl
  | ready ns' record' result =>
      cases result with
      | error err => cases carried
      | ok policies => cases carried; rfl
  | shown ns' record' result =>
      cases result with
      | error err => cases carried
      | ok policies => cases carried; rfl
  | _ => cases carried

/-- A list that is shown is on its way until the record is removed. -/
theorem cargo_of_revealed {phase : Phase (Nat × P)} {record : Nat}
    (owned : phase.holds = some (ns, record)) (revealed : phase.revealed = some (.ok value)) :
    phase.cargo = some (ns, record, value) := by
  cases phase with
  | shown ns' record' result =>
      cases owned
      cases revealed
      rfl
  | _ => cases revealed

/-- Right after the invalidation there is nothing old if no load is on its way. -/
theorem recent_after (tracked : Tracked (accesses.map (Access.call P)) pool)
    (coherent : Coherent pool.state (phasesOf (accesses.map (Access.call P)) pool.history))
    (listed : accesses[thread]? = some (.invalidate ns)) (unbegun : own pool.history thread = [])
    (settled : ∀ other record value,
      (phasesOf (accesses.map (Access.call P)) pool.history other).cargo ≠
        some (ns, record, value))
    {late : Nat → Prop}
    (begins : ∀ other, late other →
      own (pool.step (Shared.perform (numbered read)) (thread, reading)).history other = []) :
    let after := pool.step (Shared.perform (numbered read)) (thread, reading)
    Recent ns pool.state.source.2 late after.state
      (phasesOf (accesses.map (Access.call P)) after.history) := by
  intro after
  obtain ⟨fresh, next, found⟩ := invalidate_step tracked listed unbegun
  have kept : Coherent after.state (phasesOf (accesses.map (Access.call P)) after.history) :=
    tracked.coherent coherent found rfl reading
  have state : after.state = { pool.state with cache := pool.state.cache.invalidate ns } := by
    change (pool.step _ _).state = _
    rw [Pool.step_of_call found]
    rfl
  have empty : ∀ other record value,
      (phasesOf (accesses.map (Access.call P)) after.history other).cargo ≠
        some (ns, record, value) := by
    intro other record value carried
    rw [phasesOf_step found, fresh] at carried
    cases view_update_cases Phase.cargo carried with
    | inl here => cases here.2
    | inr there => exact settled other record value there.2
  have idle : ∀ other, late other →
      phasesOf (accesses.map (Access.call P)) after.history other = .fresh := by
    intro other isLate
    rw [phasesOf, Pool.stages, begins other isLate]
    rfl
  constructor
  · exact kept
  · rw [state]
  · intro it entry
    rw [state] at entry
    cases (Items.find_delete_self ns pool.state.cache.items).symm.trans entry
  · intro other record value carried
    exact absurd carried (empty other record value)
  · intro record entered
    obtain ⟨owner, owned⟩ := kept.held ns record entered
    refine ⟨kept.begun owner ns record owned, fun other ns' theirs => ?_, fun value shown => ?_⟩
    · cases kept.alone other owner ns' ns record theirs owned
      cases theirs.symm.trans owned
      rfl
    · rw [kept.reveals owner ns record owned] at shown
      exact absurd (cargo_of_revealed owned shown) (empty owner record value)
  · intro other record isLate located
    cases (idle other isLate).symm.trans located
  · intro other value isLate located
    cases (idle other isLate).symm.trans located
  · intro other ns' isLate about
    rw [idle other isLate] at about
    cases about

/-- A call that starts now misses the cache, joins the load and is shown its list. -/
theorem old_list_returned (tracked : Tracked (accesses.map (Access.call P)) pool)
    (coherent : Coherent pool.state (phasesOf (accesses.map (Access.call P)) pool.history))
    (absent : pool.state.cache.get reading.now ns = none) {leader record : Nat}
    (carried : (phasesOf (accesses.map (Access.call P)) pool.history leader).cargo =
      some (ns, record, value)) :
    ∃ rest, Unblocked (numbered read) (CachePool.admitMore [Access.getOrLoad ns] pool) rest ∧
      ((CachePool.admitMore [Access.getOrLoad ns] pool).run (Shared.perform (numbered read))
        rest).results[accesses.length]? = some (some (some (.ok value))) := by
  obtain ⟨trackedMore, phases⟩ := tracked.admitMore [Access.getOrLoad ns]
  let more := CachePool.admitMore [Access.getOrLoad ns] pool
  have coherentMore : Coherent more.state
      (phasesOf ((accesses ++ [Access.getOrLoad ns]).map (Access.call P)) more.history) := by
    change Coherent pool.state (phasesOf _ pool.history)
    rw [phases]
    exact coherent
  have size : pool.threads.length = accesses.length := tracked.size.trans (List.length_map _)
  have joiner : more.threads[accesses.length]? = some (getOrLoad ns) := by
    change (pool.threads ++ _)[accesses.length]? = _
    rw [List.getElem?_append_right size.le, size, Nat.sub_self]
    rfl
  have different : accesses.length ≠ leader := by
    intro same
    have none := tracked.absent leader (by rw [List.length_map]; exact same.le)
    rw [phasesOf, Pool.stages, none] at carried
    cases carried
  have entered := coherent.listed leader ns record (holds_of_cargo carried)
  obtain ⟨freeJoin, sameState, waits⟩ := joins_load (numbered read) joiner absent entered
  let joined := more.run (Shared.perform (numbered read))
    [(accesses.length, reading), (accesses.length, reading)]
  obtain ⟨trackedJoined, coherentJoined⟩ := run_moves
    (fun shared phases _ => Coherent shared phases)
    (fun _ _ _ _ _ _ _ _ _ _ coherent _ move => coherent.move move) _ trackedMore coherentMore
    freeJoin (Pool.along_trivial _ _)
  have carriedJoined : (phasesOf ((accesses ++ [Access.getOrLoad ns]).map (Access.call P))
      joined.history leader).cargo = some (ns, record, value) := by
    have untouched : own joined.history leader = own more.history leader := by
      refine Pool.own_run_of_idle _ fun choice member same => ?_
      simp only [List.mem_cons, List.not_mem_nil, or_false, or_self] at member
      rw [member] at same
      exact absurd same different
    rw [phasesOf, Pool.stages, untouched]
    change (phasesOf _ pool.history leader).cargo = _
    rw [phases]
    exact carried
  obtain ⟨turns, freeTurns, shown, others⟩ :=
    exists_shown (numbered read) trackedJoined coherentJoined carriedJoined reading
  have waiting := (others accesses.length different).trans waits
  refine ⟨[(accesses.length, reading), (accesses.length, reading)] ++
    (turns ++ [(accesses.length, reading)]),
    freeJoin.append (freeTurns.append (.of_call waiting ?_ trivial)), ?_⟩
  · simp [Shared.blocked, shown]
  · rw [Pool.run_append, Pool.run_append, Pool.results_eq_some]
    have inside := (List.getElem?_eq_some_iff.mp waiting).1
    change (Pool.step _ _ _).threads[accesses.length]? = _
    rw [Pool.step_of_call waiting]
    simp only [List.getElem?_set_self inside, Shared.perform, shown, Option.getD_some]

end Invalidated

/-- Calls that start after an invalidation return nothing read before it exactly if, when
it is made, no load of the namespace is between its read and the removal of its record. -/
theorem fresh_after_invalidate_iff (read : S → String → Except String P) (ttl : Duration)
    (maxItems : Int) (store : S) (accesses : List (Access S))
    (schedule : List (Nat × Reading (Nat × P)))
    (free : Unblocked (numbered read) (users P ttl maxItems store accesses) schedule)
    (ns : String) (thread : Nat) (reading : Reading (Nat × P))
    (listed : accesses[thread]? = some (.invalidate ns))
    (unbegun : own ((users P ttl maxItems store accesses).run (Shared.perform (numbered read))
      schedule).history thread = []) :
    let pool := (users P ttl maxItems store accesses).run (Shared.perform (numbered read)) schedule
    let after := pool.step (Shared.perform (numbered read)) (thread, reading)
    (∀ (later : List (Access S)) (rest : List (Nat × Reading (Nat × P))),
      Unblocked (numbered read) (CachePool.admitMore later after) rest →
        ∀ (late : Nat) (value : Nat × P), own after.history late = [] →
          Looks (accesses ++ later) ns late →
          ((CachePool.admitMore later after).run (Shared.perform (numbered read))
            rest).results[late]? = some (some (some (.ok value))) →
          pool.state.source.2 ≤ value.1) ↔
      ∀ other record value,
        (phasesOf (accesses.map (Access.call P)) pool.history other).cargo ≠
          some (ns, record, value) := by
  intro pool after
  obtain ⟨tracked, coherent, issued⟩ : Tracked (accesses.map (Access.call P)) pool ∧
      Coherent pool.state (phasesOf (accesses.map (Access.call P)) pool.history) ∧
        Issued pool.state (phasesOf (accesses.map (Access.call P)) pool.history) :=
    issued_run ttl maxItems store free
  obtain ⟨fresh, next, found⟩ := invalidate_step tracked listed unbegun
  have trackedAfter : Tracked (accesses.map (Access.call P)) after := tracked.step found reading
  constructor
  · intro clean leader record value carried
    have kept : Coherent after.state (phasesOf (accesses.map (Access.call P)) after.history) :=
      tracked.coherent coherent found rfl reading
    have still : (phasesOf (accesses.map (Access.call P)) after.history leader).cargo =
        some (ns, record, value) := by
      rw [phasesOf_step found, update_of_ne]
      · exact carried
      · intro same
        rw [same, fresh] at carried
        cases carried
    have absent : after.state.cache.get reading.now ns = none := by
      change (pool.step _ _).state.cache.get reading.now ns = none
      rw [Pool.step_of_call found]
      exact MemoryPolicyCache.get_invalidate _ _ _
    obtain ⟨rest, unblocked, returned⟩ := old_list_returned trackedAfter kept absent still
    have recent := clean [.getOrLoad ns] rest unblocked accesses.length value
      (trackedAfter.absent _ (by rw [List.length_map])) (.inr (by simp)) returned
    exact absurd (issued leader ns record value carried) (Nat.not_lt.mpr recent)
  · intro settled later rest unblocked late value begins looks returned
    obtain ⟨trackedMore, phases⟩ := trackedAfter.admitMore later
    obtain ⟨trackedFinal, recent⟩ := run_moves
      (fun shared phases _ => Recent ns pool.state.source.2
        (fun late => own after.history late = [] ∧ Looks (accesses ++ later) ns late) shared phases)
      (fun _ _ _ thread call _ _ _ _ found recent _ move => by
        obtain ⟨access, here, rfl⟩ := access_of_call found
        refine recent.move (fun isLate => ?_) move
        cases isLate.2 with
        | inl get => exact .inl (Option.some.inj (here.symm.trans get))
        | inr load => exact .inr (Option.some.inj (here.symm.trans load)))
      rest trackedMore (by
        change Recent _ _ _ after.state (phasesOf _ after.history)
        rw [phases]
        exact recent_after tracked coherent listed unbegun settled fun _ isLate => isLate.1)
      unblocked (Pool.along_trivial rest _)
    exact recent.ends late value ⟨begins, looks⟩ (trackedFinal.ended returned)

/-- The load has ended when the invalidation is made; the next call reads again. -/
theorem fresh_after_invalidate_of_ended_load :
    let pool : CachePool (Nat × Nat) (Nat × Nat) :=
      (users Nat 60 10 0 [.getOrLoad "acme", .invalidate "acme"]).run
        (Shared.perform (numbered fun store _ => .ok store))
        (List.replicate 6 (0, ⟨0, .listed⟩))
    let after := pool.step (Shared.perform (numbered fun store _ => .ok store)) (1, ⟨0, .listed⟩)
    ((CachePool.admitMore [Access.getOrLoad "acme"] after).run
        (Shared.perform (numbered fun store _ => .ok store))
        (List.replicate 6 (2, ⟨0, .listed⟩))).results[2]? = some (some (some (.ok (1, 0)))) ∧
      pool.state.source.2 ≤ 1 := by
  have settled : ∀ other record value,
      (phasesOf ([Access.getOrLoad "acme", .invalidate "acme"].map (Access.call Nat))
        ((users Nat 60 10 0 [.getOrLoad "acme", .invalidate "acme"]).run
          (Shared.perform (numbered fun store _ => .ok store))
          (List.replicate 6 (0, ⟨0, .listed⟩))).history other).cargo ≠
        some ("acme", record, value) := by
    intro other record value carried
    cases other with
    | zero =>
        rw [show Phase.cargo _ = none by decide +kernel] at carried
        cases carried
    | succ other => cases carried
  refine ⟨by decide +kernel, ?_⟩
  exact (fresh_after_invalidate_iff (fun store _ => .ok store) 60 10 0
    [.getOrLoad "acme", .invalidate "acme"] (List.replicate 6 (0, ⟨0, .listed⟩))
    (by decide +kernel) "acme" 1 ⟨0, .listed⟩ rfl (by rfl)).mpr settled [.getOrLoad "acme"]
    (List.replicate 6 (2, ⟨0, .listed⟩)) (by decide +kernel) 2 (1, 0) (by rfl) (.inr rfl)
    (by decide +kernel)

/-- The first call has read version 0 when version 1 is written and the namespace is
invalidated; it puts version 0 into the cache, where the next call finds it. -/
theorem old_list_after_invalidate :
    let pool : CachePool (Nat × Nat) (Nat × Nat) :=
      (users Nat 60 10 0 [.getOrLoad "acme", .write fun _ => 1, .invalidate "acme",
        .getOrLoad "acme"]).run (Shared.perform (numbered fun store _ => .ok store))
        ([0, 0, 0, 1, 2, 0, 0, 0, 3].map fun thread => (thread, ⟨0, .listed⟩))
    pool.results =
      [some (some (.ok (0, 0))), some none, some none, some (some (.ok (0, 0)))] := by
  decide +kernel

end Rlaas.Store.Cache
