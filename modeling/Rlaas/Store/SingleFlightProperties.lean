import Rlaas.Store.PolicyCacheProperties
import Rlaas.Store.SingleFlight

/-! `GetOrLoad` under concurrency. Calls for one namespace share one load unless a call
that missed the cache comes to the table after the record of the load was removed. -/

set_option autoImplicit false

namespace Rlaas.Store.Cache

open Go Effect Function

variable {V σ : Type}

/-- A call finds no record although a load has been begun, so that its record is gone. -/
def Shared.late (shared : Shared V σ) : CacheOp V σ → Bool
  | .join ns => (shared.sfCalls ns).isNone && !shared.calls.isEmpty
  | _ => false

/-- The result that a call has come to. -/
def Phase.result : Phase V → Option (Except String V)
  | .loaded _ _ policies => some (.ok policies)
  | .ready _ _ result => some result
  | .shown _ _ result => some result
  | .ended answer => answer
  | _ => none

/-- The phases of `GetOrLoad`. -/
def Phase.Loads : Phase V → Prop
  | .sweeping _ => False
  | .ended none => False
  | _ => True

/-- There is one load at most, and every result there is comes from it. -/
structure Joint (cache : MemoryPolicyCache V) (ns : String) (shared : Shared V σ)
    (phases : Nat → Phase V) (loads : List (Nat × Except String V)) : Prop where
  coherent : Coherent shared phases
  single : shared.calls.length ≤ 1
  unloaded : shared.calls = [] → loads = []
  leading : ∀ thread ns record, phases thread = .leading ns record → loads = []
  results : ∀ thread result, (phases thread).result = some result →
    ∃ record, loads = [(record, result)]
  shown : ∀ record result, shared.shown record = some result → ∃ record, loads = [(record, result)]
  cached : ∀ it, shared.cache.items.find ns = some it →
    cache.items.find ns = some it ∨ ∃ record, loads = [(record, .ok it.policies)]
  kinds : ∀ thread, (phases thread).Loads

section Joint

variable {loader : σ → String → Except String V × σ} {cache : MemoryPolicyCache V} {ns : String}
  {reading : Reading V} {shared after : Shared V σ} {phases : Nat → Phase V} {thread : Nat}
  {reached : Phase V} {op : CacheOp V σ} {loads : List (Nat × Except String V)}

theorem joint_start (source : σ) :
    Joint cache ns (Shared.start cache source) (fun _ => .fresh) [] where
  coherent := coherent_start cache source
  single := Nat.zero_le 1
  unloaded _ := rfl
  leading _ _ _ _ := rfl
  results _ _ found := by cases found
  shown _ _ found := by cases found
  cached _ found := .inl found
  kinds _ := trivial

section

variable (joint : Joint cache ns shared phases loads)

include joint

theorem Joint.keep (coherent : Coherent after (update phases thread reached))
    (records : after.calls = shared.calls)
    (cached : ∀ it, after.cache.items.find ns = some it →
      cache.items.find ns = some it ∨ ∃ record, loads = [(record, .ok it.policies)])
    (brings : ∀ result, reached.result = some result → ∃ record, loads = [(record, result)])
    (idle : ∀ ns record, reached ≠ .leading ns record) (kind : reached.Loads) :
    Joint cache ns after (update phases thread reached) loads where
  coherent := coherent
  single := records ▸ joint.single
  unloaded := records ▸ joint.unloaded
  leading other ns record located := by
    cases update_cases located with
    | inl here => exact absurd here.2 (idle ns record)
    | inr there => exact joint.leading other ns record there.2
  results other result found := by
    cases view_update_cases Phase.result found with
    | inl here => exact brings result here.2
    | inr there => exact joint.results other result there.2
  shown record result found := by
    rw [Shared.shown, records] at found
    exact joint.shown record result found
  cached := cached
  kinds := (Function.forall_update_iff phases fun _ => Phase.Loads).mpr
    ⟨kind, fun other _ => joint.kinds other⟩

theorem Joint.lead {looked : String}
    (coherent : Coherent { shared with
        calls := shared.calls ++ [none]
        sfCalls := update shared.sfCalls looked (some shared.calls.length) }
      (update phases thread (.leading looked shared.calls.length)))
    (first : shared.calls = []) :
    Joint cache ns { shared with
        calls := shared.calls ++ [none]
        sfCalls := update shared.sfCalls looked (some shared.calls.length) }
      (update phases thread (.leading looked shared.calls.length)) loads where
  coherent := coherent
  single := by simp [first]
  unloaded empty := by simp at empty
  leading _ _ _ _ := joint.unloaded first
  results other result found := by
    cases view_update_cases Phase.result found with
    | inl here => cases here.2
    | inr there => exact joint.results other result there.2
  shown record result found := by
    rw [Shared.shown_begin] at found
    exact joint.shown record result found
  cached := joint.cached
  kinds := (Function.forall_update_iff phases fun _ => Phase.Loads).mpr
    ⟨trivial, fun other _ => joint.kinds other⟩

theorem Joint.load {looked : String} {record : Nat} {result : Except String V} {source : σ}
    (leading : phases thread = .leading looked record)
    (coherent : Coherent { shared with source } (update phases thread reached))
    (brought : reached.result = some result) (kind : reached.Loads) :
    Joint cache ns { shared with source } (update phases thread reached)
      (loads ++ [(record, result)]) := by
  have mine : (phases thread).holds = some (looked, record) := by rw [leading]; rfl
  have begun := joint.coherent.begun thread looked record mine
  have nothing : loads = [] := joint.leading thread looked record leading
  subst nothing
  refine ⟨coherent, joint.single, ?_, ?_, ?_, ?_, ?_, ?_⟩
  · intro empty
    rw [show shared.calls = [] from empty] at begun
    cases begun
  · intro other ns' record' located
    cases update_cases located with
    | inl here => rw [here.2] at brought; cases brought
    | inr there =>
        have theirs : (phases other).holds = some (ns', record') := by rw [there.2]; rfl
        have same : record' = record := by
          have bound := joint.coherent.begun other ns' record' theirs
          have single := joint.single
          omega
        exact absurd (joint.coherent.alone other thread ns' looked record (same ▸ theirs) mine)
          there.1
  · intro other result' found
    cases view_update_cases Phase.result found with
    | inl here =>
        cases brought.symm.trans here.2
        exact ⟨record, rfl⟩
    | inr there =>
        obtain ⟨_, absurdity⟩ := joint.results other result' there.2
        cases absurdity
  · intro record' result' found
    obtain ⟨_, absurdity⟩ := joint.shown record' result' found
    cases absurdity
  · intro it found
    cases joint.cached it found with
    | inl before => exact .inl before
    | inr loaded => obtain ⟨_, absurdity⟩ := loaded; cases absurdity
  · exact (Function.forall_update_iff phases fun _ => Phase.Loads).mpr
      ⟨kind, fun other _ => joint.kinds other⟩

theorem Joint.finish {looked : String} {record : Nat} {result : Except String V}
    (ready : phases thread = .ready looked record result)
    (coherent : Coherent { shared with calls := shared.calls.set record (some result) }
      (update phases thread (.shown looked record result))) :
    Joint cache ns { shared with calls := shared.calls.set record (some result) }
      (update phases thread (.shown looked record result)) loads := by
  have known := joint.results thread result (by rw [ready]; rfl)
  have mine : (phases thread).holds = some (looked, record) := by rw [ready]; rfl
  refine ⟨coherent, ?_, ?_, ?_, ?_, ?_, joint.cached, ?_⟩
  · rw [List.length_set]
    exact joint.single
  · intro empty
    refine joint.unloaded (List.length_eq_zero_iff.mp ?_)
    rw [← List.length_set, show shared.calls.set record (some result) = [] from empty]
    rfl
  · intro other ns' record' located
    cases update_cases located with
    | inl here => cases here.2
    | inr there => exact joint.leading other ns' record' there.2
  · intro other result' found
    cases view_update_cases Phase.result found with
    | inl here =>
        cases here.2
        exact known
    | inr there => exact joint.results other result' there.2
  · intro record' result' found
    rw [Shared.shown_finish (joint.coherent.begun thread looked record mine)] at found
    cases update_cases found with
    | inl here =>
        cases here.2
        exact known
    | inr there => exact joint.shown record' result' there.2
  · exact (Function.forall_update_iff phases fun _ => Phase.Loads).mpr
      ⟨trivial, fun other _ => joint.kinds other⟩

theorem Joint.move (stale : cache.get reading.now ns = none) (prompt : shared.late op = false)
    (move : Move loader reading (.getOrLoad ns) shared (phases thread) op after reached) :
    Joint cache ns after (update phases thread reached)
      (loads ++ (loadOf ⟨op, (Shared.perform loader reading op shared).1⟩).toList) := by
  have coherent := joint.coherent.move move
  have kind := joint.kinds thread
  have carried := joint.results thread
  generalize before : phases thread = phase at move
  rw [before] at kind carried
  cases move with
  | @hit _ _ looked _ looks found =>
      have same : looked = ns := by
        cases looks with
        | inl get => cases get
        | inr load => exact (CacheCall.getOrLoad.inj load).symm
      subst same
      refine (List.append_nil loads).symm ▸
        joint.keep coherent rfl joint.cached ?_ (fun _ _ => by simp) trivial
      intro result reached
      cases reached
      obtain ⟨it, entry, fresh, same⟩ := MemoryPolicyCache.get_eq_some.mp found
      cases joint.cached it entry with
      | inl initial =>
          rw [MemoryPolicyCache.get_eq_some.mpr ⟨it, initial, fresh, same⟩] at stale
          cases stale
      | inr loaded => exact same ▸ loaded
  | missLoad absent =>
      exact (List.append_nil loads).symm ▸
        joint.keep coherent rfl joint.cached (fun _ none => by cases none) (fun _ _ => by simp) trivial
  | sweep => exact absurd kind id
  | join entered =>
      exact (List.append_nil loads).symm ▸
        joint.keep coherent rfl joint.cached (fun _ none => by cases none) (fun _ _ => by simp) trivial
  | lead absent =>
      refine (List.append_nil loads).symm ▸ joint.lead coherent ?_
      simpa [Shared.late, absent] using prompt
  | wait shown =>
      refine (List.append_nil loads).symm ▸
        joint.keep coherent rfl joint.cached ?_ (fun _ _ => by simp) trivial
      intro result same
      cases same
      exact joint.shown _ _ shown
  | load loaded =>
      have step := joint.load before coherent rfl trivial
      simpa [loadOf, Shared.perform, loaded] using step
  | loadFails failed =>
      have step := joint.load before coherent rfl trivial
      simpa [loadOf, Shared.perform, failed] using step
  | store =>
      refine (List.append_nil loads).symm ▸ joint.keep coherent rfl ?_ carried (fun _ _ => by simp) trivial
      intro it found
      cases MemoryPolicyCache.find_set found with
      | inl written => exact .inr (written.1 ▸ carried _ rfl)
      | inr old => exact joint.cached it old
  | finish => exact (List.append_nil loads).symm ▸ joint.finish before coherent
  | forget =>
      exact (List.append_nil loads).symm ▸
        joint.keep coherent rfl joint.cached carried (fun _ _ => by simp) trivial

end

end Joint

/-- A record is being loaded or has been. -/
def Begun (shared : Shared V σ) (phases : Nat → Phase V) (loads : List (Nat × Except String V)) :
    Prop :=
  ∀ record < shared.calls.length,
    (∃ thread ns, phases thread = .leading ns record) ∨ record ∈ loads.map Prod.fst

section Begun

variable {loader : σ → String → Except String V × σ} {reading : Reading V}
  {call : CacheCall V σ} {shared after : Shared V σ} {phases : Nat → Phase V} {thread : Nat}
  {reached : Phase V} {op : CacheOp V σ} {loads : List (Nat × Except String V)}

theorem Begun.keep (begun : Begun shared phases loads) {more : List (Nat × Except String V)}
    (records : after.calls.length = shared.calls.length)
    (mine : ∀ ns record, phases thread = .leading ns record → record ∈ more.map Prod.fst) :
    Begun after (update phases thread reached) (loads ++ more) := by
  intro record inside
  rw [List.map_append]
  cases begun record (records ▸ inside) with
  | inr loaded => exact .inr (List.mem_append_left _ loaded)
  | inl leading =>
      obtain ⟨other, ns, located⟩ := leading
      by_cases same : other = thread
      · subst same
        exact .inr (List.mem_append_right _ (mine ns record located))
      · exact .inl ⟨other, ns, by rw [update_of_ne same]; exact located⟩

theorem Begun.lead (begun : Begun shared phases loads) {ns : String}
    (missed : phases thread = .missed ns) (table : String → Option Nat) :
    Begun { shared with calls := shared.calls ++ [none], sfCalls := table }
      (update phases thread (.leading ns shared.calls.length)) loads := by
  intro record inside
  rw [List.length_append, List.length_singleton] at inside
  by_cases last : record = shared.calls.length
  · exact .inl ⟨thread, ns, by rw [update_self, last]⟩
  · cases begun record (by omega) with
    | inr loaded => exact .inr loaded
    | inl leading =>
        obtain ⟨other, ns', located⟩ := leading
        refine .inl ⟨other, ns', ?_⟩
        rw [update_of_ne]
        · exact located
        · intro same
          rw [same, missed] at located
          cases located

theorem Begun.move (begun : Begun shared phases loads)
    (move : Move loader reading call shared (phases thread) op after reached) :
    Begun after (update phases thread reached)
      (loads ++ (loadOf ⟨op, (Shared.perform loader reading op shared).1⟩).toList) := by
  generalize before : phases thread = phase at move
  cases move with
  | lead absent =>
      exact (List.append_nil loads).symm ▸ begun.lead before _
  | load loaded =>
      refine begun.keep rfl fun ns record located => ?_
      cases before.symm.trans located
      exact List.mem_singleton_self _
  | loadFails failed =>
      refine begun.keep rfl fun ns record located => ?_
      cases before.symm.trans located
      exact List.mem_singleton_self _
  | finish =>
      refine begun.keep (List.length_set ..) fun ns record located => ?_
      cases before.symm.trans located
  | _ =>
      refine begun.keep rfl fun ns record located => ?_
      cases before.symm.trans located

end Begun

/-- A call waits only for a result that is there or that another call will show. -/
def Attended (shared : Shared V σ) (phases : Nat → Phase V) : Prop :=
  ∀ thread record, phases thread = .waiting record →
    (shared.shown record).isSome = true ∨ ∃ other ns, (phases other).holds = some (ns, record)

section Attended

variable {loader : σ → String → Except String V × σ} {reading : Reading V}
  {call : CacheCall V σ} {shared after : Shared V σ} {phases : Nat → Phase V} {thread : Nat}
  {reached : Phase V} {op : CacheOp V σ}

/-- A move after which the results are still shown, and the call still owns its record
unless it has shown it. -/
theorem Attended.keep (attended : Attended shared phases)
    (shown : ∀ record, (shared.shown record).isSome = true → (after.shown record).isSome = true)
    (holds : ∀ ns record, (phases thread).holds = some (ns, record) →
      reached.holds = some (ns, record) ∨ (after.shown record).isSome = true)
    (mine : ∀ record, reached = .waiting record →
      ∃ other ns, other ≠ thread ∧ (phases other).holds = some (ns, record)) :
    Attended after (update phases thread reached) := by
  intro other record located
  cases update_cases located with
  | inl here =>
      obtain ⟨owner, ns, different, owned⟩ := mine record here.2
      exact .inr ⟨owner, ns, by rw [update_of_ne different]; exact owned⟩
  | inr there =>
      cases attended other record there.2 with
      | inl known => exact .inl (shown record known)
      | inr led =>
          obtain ⟨owner, ns, owned⟩ := led
          by_cases same : owner = thread
          · subst same
            cases holds ns record owned with
            | inl still => exact .inr ⟨owner, ns, by rw [update_self]; exact still⟩
            | inr known => exact .inl known
          · exact .inr ⟨owner, ns, by rw [update_of_ne same]; exact owned⟩

theorem Attended.move (attended : Attended shared phases) (coherent : Coherent shared phases)
    (move : Move loader reading call shared (phases thread) op after reached) :
    Attended after (update phases thread reached) := by
  generalize before : phases thread = phase at move
  cases move with
  | join entered =>
      refine attended.keep (fun _ known => known) (fun _ _ owned => ?_) fun record same => ?_
      · rw [before] at owned
        cases owned
      · cases same
        obtain ⟨other, owned⟩ := coherent.held _ _ entered
        refine ⟨other, _, ?_, owned⟩
        rintro rfl
        rw [before] at owned
        cases owned
  | lead absent =>
      refine attended.keep (fun record known => by rw [Shared.shown_begin]; exact known)
        (fun _ _ owned => ?_) fun _ same => by cases same
      rw [before] at owned
      cases owned
  | finish =>
      have begun := coherent.begun thread _ _ (by rw [before]; rfl)
      refine attended.keep (fun record known => ?_) (fun _ _ owned => ?_) fun _ same => by cases same
      · rw [Shared.shown_finish begun, update_apply]
        split_ifs
        · rfl
        · exact known
      · rw [before] at owned
        exact .inl owned
  | forget =>
      refine attended.keep (fun _ known => known) (fun ns record owned => .inr ?_)
        fun _ same => by cases same
      have shown := coherent.reveals thread ns record owned
      rw [before] at shown
      exact Option.isSome_iff_exists.mpr ⟨_, shown⟩
  | _ =>
      refine attended.keep (fun _ known => known) (fun _ _ owned => .inl ?_)
        fun _ same => by cases same
      rw [before] at owned
      exact owned

end Attended

/-- Only a call that waits for a result that is not shown is blocked. -/
theorem waiting_of_blocked {call : CacheCall V σ} {op : CacheOp V σ} {shared : Shared V σ}
    {phase : Phase V} (next : Next call op phase) (blocked : shared.blocked op = true) :
    ∃ record, phase = .waiting record ∧ shared.shown record = none := by
  cases phase with
  | waiting record =>
      cases next
      exact ⟨record, rfl, Option.isNone_iff_eq_none.mp blocked⟩
  | fresh =>
      cases call with
      | _ => cases next; cases blocked
  | ended answer => cases next
  | _ => cases next; cases blocked

variable (loader : σ → String → Except String V × σ)

/-- Calls never wait for each other: as long as one has not returned, one can go on. -/
theorem some_call_proceeds (calls : List (CacheCall V σ)) (cache : MemoryPolicyCache V) (source : σ)
    (schedule : List (Nat × Reading V))
    (free : Unblocked loader (CachePool.begin calls (.start cache source)) schedule) :
    let final := (CachePool.begin calls (.start cache source)).run (Shared.perform loader) schedule
    (∃ (thread : Nat) (op : _) (next : _), final.threads[thread]? = some (Program.call op next)) →
      ∃ (thread : Nat) (op : _) (next : _), final.threads[thread]? = some (Program.call op next) ∧
        final.state.blocked op = false := by
  intro final ⟨thread, op, next, found⟩
  obtain ⟨tracked, _, attended⟩ : Tracked calls final ∧
      Coherent final.state (phasesOf calls final.history) ∧
        Attended final.state (phasesOf calls final.history) :=
    run_moves (fun shared phases _ => Coherent shared phases ∧ Attended shared phases)
      (fun shared phases loads thread call reading op after reached _ both _ move =>
        ⟨both.1.move move, both.2.move both.1 move⟩)
      schedule (tracked_begin calls _)
      ⟨coherent_start cache source, fun _ _ same => by cases same⟩ free
      (Pool.along_trivial schedule _)
  cases blocked : final.state.blocked op with
  | false => exact ⟨thread, op, next, found, blocked⟩
  | true =>
      obtain ⟨record, waiting, hidden⟩ := waiting_of_blocked (tracked.next found) blocked
      cases attended thread record waiting with
      | inl shown =>
          rw [hidden] at shown
          cases shown
      | inr led =>
          obtain ⟨owner, ns, owned⟩ := led
          obtain ⟨program, running⟩ := tracked.found (fun fresh => by
            rw [fresh] at owned
            cases owned)
          cases program with
          | done answer =>
              rw [tracked.ended (Pool.results_eq_some.mpr running)] at owned
              cases owned
          | call turn after =>
              refine ⟨owner, turn, after, running, Bool.eq_false_iff.mpr fun stuck => ?_⟩
              obtain ⟨_, located, _⟩ := waiting_of_blocked (tracked.next running) stuck
              rw [located] at owned
              cases owned

/-- Every run can go on until all the calls have returned: a call that waits for the load of
another is never left behind. -/
theorem calls_return (calls : List (CacheCall V σ)) (cache : MemoryPolicyCache V) (source : σ)
    (reading : Reading V) {schedule : List (Nat × Reading V)}
    (free : Unblocked loader (CachePool.begin calls (.start cache source)) schedule) :
    ∃ rest, Unblocked loader (CachePool.begin calls (.start cache source)) (schedule ++ rest) ∧
      ((CachePool.begin calls (.start cache source)).run (Shared.perform loader)
        (schedule ++ rest)).finished = true := by
  obtain ⟨rest, along, finished⟩ := Pool.exists_reached_of_enabled id
    (fun pool => pool.finished = true) _
    (fun reached free running => by
      obtain ⟨thread, op, next, found, proceeds⟩ := some_call_proceeds loader calls cache source
        reached free (Pool.exists_call_of_unfinished (Bool.eq_false_iff.mpr running))
      exact ⟨thread, reading, op, next, found, proceeds⟩)
    free
  exact ⟨rest, free.append along, finished⟩

/-- The second call waits for the load of the first, which has just begun. -/
theorem calls_return_of_waiting :
    let pool : CachePool Nat Unit := CachePool.begin (List.replicate 2 (.getOrLoad "acme"))
      (.start (newMemoryPolicyCache 60) ())
    let loader : Unit → String → Except String Nat × Unit := fun source _ => (.ok 7, source)
    let schedule := [0, 0, 1, 1].map fun thread => (thread, (⟨0, .listed⟩ : Reading Nat))
    (pool.run (Shared.perform loader) schedule).state.blocked (.wait 0) = true ∧
      ∃ rest, (pool.run (Shared.perform loader) (schedule ++ rest)).finished = true := by
  intro pool loader schedule
  obtain ⟨rest, _, finished⟩ := calls_return loader (List.replicate 2 (.getOrLoad "acme"))
    (newMemoryPolicyCache 60) () ⟨0, .listed⟩ (by decide +kernel : Unblocked loader pool schedule)
  exact ⟨by decide +kernel, rest, finished⟩

theorem perform_calls_length (reading : Reading V) (op : CacheOp V σ) (shared : Shared V σ) :
    shared.calls.length ≤ (Shared.perform loader reading op shared).2.calls.length := by
  cases op with
  | join ns =>
      rw [Shared.perform]
      split
      · exact Nat.le_refl _
      · exact List.length_append ▸ Nat.le_add_right _ _
  | finish call result => exact (List.length_set ..).symm.le
  | _ => exact Nat.le_refl _

/-- A call that comes late begins a second load. -/
theorem prompt_or_second (schedule : List (Nat × Reading V)) (pool : CachePool V σ) :
    pool.Along (Shared.perform loader) (fun shared _ _ _ op => shared.late op = false) schedule ∨
      2 ≤ (pool.run (Shared.perform loader) schedule).state.calls.length := by
  induction schedule generalizing pool with
  | nil => exact .inl trivial
  | cons choice rest ih =>
      cases ih (pool.step (Shared.perform loader) choice) with
      | inr second => exact .inr second
      | inl along =>
          by_cases prompt : ∀ op next, pool.threads[choice.1]? = some (.call op next) →
              pool.state.late op = false
          · exact .inl ⟨prompt, along⟩
          · right
            push Not at prompt
            obtain ⟨op, next, found, late⟩ := prompt
            refine Pool.run_kept (fun shared : Shared V σ => 2 ≤ shared.calls.length)
              (fun reading op shared two =>
                two.trans (perform_calls_length loader reading op shared)) rest ?_
            rw [Pool.step_of_call found]
            cases op with
            | join ns =>
                simp only [Shared.late, ne_eq, Bool.not_eq_false, Bool.and_eq_true,
                  Option.isNone_iff_eq_none, Bool.not_eq_true', List.isEmpty_eq_false_iff] at late
                have some := List.length_pos_iff.mpr late.2
                simp only [Shared.perform, late.1, List.length_append, List.length_singleton]
                omega
            | _ => exact absurd rfl late

section Complete

variable {cache : MemoryPolicyCache V} {ns : String} {calls : List (CacheCall V σ)}
  {pool : CachePool V σ}

theorem Begun.loaded (tracked : Tracked calls pool)
    (begun : Begun pool.state (phasesOf calls pool.history) (loads pool.history))
    (complete : ∀ result ∈ pool.results, result.isSome = true) {record : Nat}
    (inside : record < pool.state.calls.length) : record ∈ (loads pool.history).map Prod.fst := by
  cases begun record inside with
  | inr member => exact member
  | inl leading =>
      obtain ⟨thread, looked, located⟩ := leading
      obtain ⟨program, found⟩ := tracked.found (by rw [located]; nofun)
      have listed : pool.results[thread]? = some program.result? := by
        rw [Pool.results, List.getElem?_map, found]
        rfl
      obtain ⟨answer, ended⟩ := Option.isSome_iff_exists.mp
        (complete _ (List.mem_of_getElem? listed))
      rw [ended] at listed
      cases located.symm.trans (tracked.ended listed)

/-- Every call that has returned has returned the result of the one load. -/
theorem Joint.answers (tracked : Tracked calls pool)
    (joint : Joint cache ns pool.state (phasesOf calls pool.history) (loads pool.history))
    (complete : ∀ result ∈ pool.results, result.isSome = true)
    {answer : Option (Answer V)} (member : answer ∈ pool.results) :
    ∃ record result, loads pool.history = [(record, result)] ∧ answer = some (some result) := by
  obtain ⟨thread, found⟩ := List.mem_iff_getElem?.mp member
  obtain ⟨answer, rfl⟩ := Option.isSome_iff_exists.mp (complete answer member)
  have phase := tracked.ended found
  cases answer with
  | none =>
      have kind := joint.kinds thread
      rw [phase] at kind
      exact absurd kind id
  | some result =>
      obtain ⟨record, once⟩ := joint.results thread result (by rw [phase]; rfl)
      exact ⟨record, result, once, rfl⟩

end Complete

/-- The runs of `GetOrLoad` calls for one namespace that share one load. -/
theorem loads_once_iff (ns : String) (cache : MemoryPolicyCache V) (source : σ) (others : Nat)
    (schedule : List (Nat × Reading V))
    (stale : ∀ choice ∈ schedule, cache.get choice.2.now ns = none)
    (free : Unblocked loader
      (CachePool.begin (List.replicate (others + 1) (.getOrLoad ns)) (.start cache source))
      schedule)
    (complete : ∀ result ∈ ((CachePool.begin (List.replicate (others + 1) (.getOrLoad ns))
      (.start cache source)).run (Shared.perform loader) schedule).results,
      result.isSome = true) :
    let pool := CachePool.begin (List.replicate (others + 1) (CacheCall.getOrLoad ns))
      (.start cache source)
    let final := pool.run (Shared.perform loader) schedule
    (∃ record result, loads final.history = [(record, result)] ∧
        ∀ answer ∈ final.results, answer = some (some result)) ↔
      pool.Along (Shared.perform loader) (fun shared _ _ _ op => shared.late op = false)
        schedule := by
  intro pool final
  let calls : List (CacheCall V σ) := List.replicate (others + 1) (.getOrLoad ns)
  have tracked : Tracked calls pool := tracked_begin calls _
  constructor
  · rintro ⟨record, result, once, _⟩
    cases prompt_or_second loader schedule pool with
    | inl along => exact along
    | inr second =>
        obtain ⟨tracked, begun⟩ := run_moves Begun
          (fun shared phases loads thread call reading op after reached _ begun _ move =>
            begun.move move) schedule tracked (fun record inside => by cases inside) free
          (Pool.along_trivial schedule pool)
        have loaded : ∀ number < 2, number = record := by
          intro number small
          have member := begun.loaded tracked complete (small.trans_le second)
          rw [once] at member
          exact List.mem_singleton.mp member
        exact absurd ((loaded 0 (by decide)).trans (loaded 1 (by decide)).symm) (by decide)
  · intro prompt
    have allowed : pool.Along (Shared.perform loader) (fun shared _ _ reading op =>
        cache.get reading.now ns = none ∧ shared.late op = false) schedule :=
      (Pool.along_of_readings schedule pool stale).and prompt
    obtain ⟨tracked, joint⟩ : Tracked calls final ∧
        Joint cache ns final.state (phasesOf calls final.history) (loads final.history) := by
      refine run_moves (Joint cache ns) ?_ schedule tracked (joint_start source) free allowed
      intro shared phases loads thread call reading op after reached found joint condition move
      cases List.eq_of_mem_replicate (List.mem_of_getElem? found)
      exact joint.move condition.1 condition.2 move
    have some : 0 < final.results.length := by
      rw [Pool.results, List.length_map, tracked.size, List.length_replicate]
      exact Nat.succ_pos others
    obtain ⟨record, result, once, _⟩ := joint.answers tracked complete (List.getElem_mem some)
    refine ⟨record, result, once, fun answer member => ?_⟩
    obtain ⟨_, _, same, done⟩ := joint.answers tracked complete member
    cases once.symm.trans same
    exact done

/-- The second call comes while the first one loads. -/
theorem loads_once_of_overlap :
    let pool : CachePool Nat Unit := CachePool.begin (List.replicate 2 (.getOrLoad "acme"))
      (.start (newMemoryPolicyCache 60) ())
    let final := pool.run (Shared.perform fun source _ => (.ok 7, source))
      ([0, 0, 1, 1, 0, 0, 0, 1, 0].map fun thread => (thread, ⟨0, .listed⟩))
    ∃ record result, loads final.history = [(record, result)] ∧
      ∀ answer ∈ final.results, answer = some (some result) :=
  (loads_once_iff (fun source _ => (.ok 7, source)) "acme" (newMemoryPolicyCache 60) () 1
    ([0, 0, 1, 1, 0, 0, 0, 1, 0].map fun thread => (thread, ⟨0, .listed⟩)) (fun _ _ => rfl)
    (by decide +kernel) (by decide +kernel)).mpr (by decide +kernel)

/-- The second call has missed the cache before the first one loads, and looks for its
record when that is gone. -/
theorem loads_twice_of_late_call :
    let pool : CachePool Nat Nat := CachePool.begin (List.replicate 2 (.getOrLoad "acme"))
      (.start (newMemoryPolicyCache 60) 0)
    let final := pool.run (Shared.perform fun count _ => (.ok count, count + 1))
      ([1, 0, 0, 0, 0, 0, 0, 1, 1, 1, 1, 1].map fun thread => (thread, ⟨0, .listed⟩))
    (loads final.history).length = 2 ∧
      final.results = [some (some (.ok 0)), some (some (.ok 1))] := by decide +kernel

end Rlaas.Store.Cache
