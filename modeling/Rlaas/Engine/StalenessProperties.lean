import Rlaas.Engine.Evaluator
import Rlaas.Store.FilePolicyProperties
import Rlaas.Store.PolicyCacheProperties

/-! How old the policies of a decision can be. A write to the policy file does not reach the
cache of the engine: an entry stays for its TTL from the moment it is set, and its list was
loaded before that. -/

set_option autoImplicit false

namespace Rlaas.Engine

open Go Model Key Store Store.Cache Effect

/-- The atomic steps of everything that works on one policy file and the cache before it. -/
inductive ResolverOp where
  | policy (op : PolicyOp)
  | write (request : StoreRequest)
  | invalidate (ns : String)
  | sweepTime
  | sweep (now : Int)

@[reducible] def ResolverRes : ResolverOp → Type
  | .policy op => PolicyRes op
  | .write _ => Except String Unit
  | .invalidate _ => Unit
  | .sweepTime => Int
  | .sweep _ => Unit

inductive ResolverCall where
  | pickPolicy (builder : DefaultBuilder) (req : RequestContext)
  | write (request : StoreRequest)
  | invalidate (ns : String)
  | sweep

abbrev Picked := Except String (Option (Policy × String))

/-- Only `pickPolicy` has a result that matters here. -/
def ResolverCall.steps : ResolverCall → Program ResolverOp ResolverRes (Option Picked)
  | .pickPolicy builder req =>
      ((Engine.pickPolicy builder req).mapOp ResolverOp.policy fun _ answer => answer).bind
        fun picked => .done (some picked)
  | .write request => .call (.write request) fun _ => .done none
  | .invalidate ns => .call (.invalidate ns) fun _ => .done none
  | .sweep => .call .sweepTime fun now => .call (.sweep now) fun _ => .done none

structure Resolver where
  file : PolicyFile
  cache : MemoryPolicyCache (List Policy)

/-- What a step reads: the clock of the process, the engine's own `Now`, the order in which
the map of the cache is visited and the faults of the file system. -/
structure ResolverReading where
  now : Int
  engineNow : Time
  order : MapOrder (List Policy)
  faults : FileFaults

def Resolver.perform (reading : ResolverReading) :
    (op : ResolverOp) → Resolver → ResolverRes op × Resolver
  | .policy .now, resolver => (reading.engineNow, resolver)
  | .policy (.cacheGet ns), resolver => (resolver.cache.get reading.now ns, resolver)
  | .policy (.loadPolicies ns), resolver =>
      (resolver.file.loadPolicies reading.faults ns, resolver)
  | .policy (.cacheSet ns policies), resolver =>
      ((), { resolver with cache := resolver.cache.set reading.now reading.order ns policies })
  | .write request, resolver =>
      ((request.apply resolver.file).1, { resolver with file := (request.apply resolver.file).2 })
  | .invalidate ns, resolver => ((), { resolver with cache := resolver.cache.invalidate ns })
  | .sweepTime, resolver => (reading.now, resolver)
  | .sweep now, resolver => ((), { resolver with cache := resolver.cache.sweep now })

abbrev ResolverEvent := Event ResolverOp ResolverRes

abbrev ResolverHistory := List (Entry ResolverOp ResolverRes ResolverReading)

abbrev ResolverPool := Pool ResolverOp ResolverRes (Option Picked) Resolver ResolverReading

def ResolverPool.begin (ttl : Duration) (maxItems : Int) (file : PolicyFile)
    (calls : List ResolverCall) : ResolverPool :=
  Pool.start (calls.map ResolverCall.steps) ⟨file, newMemoryPolicyCacheWithLimits ttl maxItems⟩

/-- The namespace and the list of a step after which a call goes on with that list. -/
def usedBy : (op : ResolverOp) → ResolverRes op → Option (String × List Policy)
  | .policy (.cacheGet ns), found => found.map fun policies => (ns, policies)
  | .policy (.cacheSet ns policies), _ => some (ns, policies)
  | _, _ => none

def loadEvent (ns : String) (policies : List Policy) : ResolverEvent :=
  ⟨.policy (.loadPolicies ns), .ok policies⟩

def ResolverOp.loads : ResolverOp → Bool
  | .policy (.loadPolicies _) => true
  | _ => false

/-- A call that sets the cache has made its load no longer than `gap` ago. -/
def SetsWithin (gap : Duration) (_ : Resolver) (history : ResolverHistory) (thread : Nat)
    (reading : ResolverReading) : ResolverOp → Prop
  | .policy (.cacheSet ..) => ∀ entry ∈ history, entry.thread = thread →
      entry.event.op.loads = true → reading.now ≤ entry.time.now + gap
  | _ => True

instance (gap : Duration) (resolver : Resolver) (history : ResolverHistory) (thread : Nat)
    (reading : ResolverReading) :
    (op : ResolverOp) → Decidable (SetsWithin gap resolver history thread reading op)
  | .policy (.cacheSet ..) => inferInstanceAs (Decidable (∀ entry ∈ history, _ → _ → _))
  | .policy .now => isTrue trivial
  | .policy (.cacheGet _) => isTrue trivial
  | .policy (.loadPolicies _) => isTrue trivial
  | .write _ => isTrue trivial
  | .invalidate _ => isTrue trivial
  | .sweepTime => isTrue trivial
  | .sweep _ => isTrue trivial

/-! ## The steps of one call -/

inductive Progress where
  | fresh
  | timed (now : Time)
  | missed (now : Time)
  | loaded (now : Time) (ns : String) (policies : List Policy)
  | settled (now : Time) (ns : String) (policies : List Policy)
  | failed (ns message : String)

def Progress.guard (ns : String) : Progress → PolicyOp → Prop
  | .fresh, op => op = .now
  | .timed _, op => op = .cacheGet ns
  | .missed _, op => op = .loadPolicies ns
  | .loaded _ ns policies, op => op = .cacheSet ns policies
  | _, _ => False

def Progress.advance : Progress → (op : PolicyOp) → PolicyRes op → Progress
  | .fresh, .now, now => .timed now
  | .timed now, .cacheGet ns, some policies => .settled now ns policies
  | .timed now, .cacheGet _, none => .missed now
  | .missed now, .loadPolicies ns, .ok policies => .loaded now ns policies
  | .missed _, .loadPolicies ns, .error message => .failed ns message
  | .loaded now _ _, .cacheSet ns policies, _ => .settled now ns policies
  | progress, _, _ => progress

def Progress.accept (builder : DefaultBuilder) (req : RequestContext) : Progress → Picked → Prop
  | .settled now ns policies, picked =>
      ns = namespaceOf req ∧ picked = selectPolicy builder now req policies
  | .failed ns message, picked => ns = namespaceOf req ∧ picked = .error message
  | _, _ => False

def pickWatch (builder : DefaultBuilder) (req : RequestContext) :
    Monitor PolicyOp PolicyRes Progress Picked where
  expects _ _ _ := True
  guard := Progress.guard (namespaceOf req)
  advance := Progress.advance
  accept := Progress.accept builder req

theorem pickPolicy_watched (builder : DefaultBuilder) (req : RequestContext) :
    (pickWatch builder req).Accepts .fresh (pickPolicy builder req) := by
  refine ⟨rfl, fun now _ => ⟨rfl, fun hit _ => ?_⟩⟩
  cases hit with
  | some policies => exact ⟨rfl, rfl⟩
  | none =>
      refine ⟨rfl, fun loaded _ => ?_⟩
      cases loaded with
      | error message => exact ⟨rfl, rfl⟩
      | ok policies => exact ⟨rfl, fun _ _ => ⟨rfl, rfl⟩⟩

/-- The calls other than `pickPolicy` make no step of it. -/
def ResolverCall.watch (call : ResolverCall) :
    Monitor ResolverOp ResolverRes Progress (Option Picked) where
  expects _ _ _ := True
  guard progress op :=
    match call, op with
    | .pickPolicy _ req, .policy op => progress.guard (namespaceOf req) op
    | .pickPolicy .., _ => False
    | _, .policy _ => False
    | _, _ => True
  advance progress op answer :=
    match op, answer with
    | .policy op, answer => progress.advance op answer
    | _, _ => progress
  accept progress result :=
    match call with
    | .pickPolicy builder req => ∃ picked, result = some picked ∧ progress.accept builder req picked
    | _ => True

theorem ResolverCall.watched (call : ResolverCall) : call.watch.Accepts .fresh call.steps := by
  cases call with
  | pickPolicy builder req =>
      refine Monitor.accepts_mapOp_bind (pickWatch builder req) _ ?_ ?_ ?_ ?_
        (pickPolicy_watched builder req)
      · exact fun _ _ guarded => guarded
      · exact fun _ _ _ _ => trivial
      · exact fun _ _ _ => rfl
      · exact fun _ picked accepted => ⟨picked, rfl, accepted⟩
  | write request => exact ⟨trivial, fun _ _ => trivial⟩
  | invalidate ns => exact ⟨trivial, fun _ _ => trivial⟩
  | sweep => exact ⟨trivial, fun _ _ => ⟨trivial, fun _ _ => trivial⟩⟩

/-- What a call has done when it is where it is. -/
def Progress.Seen (events : List ResolverEvent) : Progress → Prop
  | .fresh => True
  | .timed now => ⟨.policy .now, now⟩ ∈ events
  | .missed now => ⟨.policy .now, now⟩ ∈ events
  | .loaded now ns policies => ⟨.policy .now, now⟩ ∈ events ∧ loadEvent ns policies ∈ events
  | .settled now ns policies => ⟨.policy .now, now⟩ ∈ events ∧
      ∃ event ∈ events, usedBy event.op event.result = some (ns, policies)
  | .failed ns message => ⟨.policy (.loadPolicies ns), .error message⟩ ∈ events

theorem Progress.Seen.mono {events : List ResolverEvent} {progress : Progress}
    (seen : progress.Seen events) (event : ResolverEvent) : progress.Seen (events ++ [event]) := by
  have kept : ∀ earlier ∈ events, earlier ∈ events ++ [event] := fun _ member =>
    List.mem_append_left _ member
  cases progress with
  | fresh => trivial
  | timed now => exact kept _ seen
  | missed now => exact kept _ seen
  | loaded now ns policies => exact ⟨kept _ seen.1, kept _ seen.2⟩
  | settled now ns policies =>
      obtain ⟨timed, used, member, same⟩ := seen
      exact ⟨kept _ timed, used, kept _ member, same⟩
  | failed ns message => exact kept _ seen

theorem Progress.Seen.advance {events : List ResolverEvent} {progress : Progress}
    (seen : progress.Seen events) (op : PolicyOp) (answer : PolicyRes op) :
    (progress.advance op answer).Seen (events ++ [⟨.policy op, answer⟩]) := by
  have later := seen.mono ⟨.policy op, answer⟩
  have last : ⟨.policy op, answer⟩ ∈ events ++ [⟨.policy op, answer⟩] := by simp
  cases progress with
  | fresh =>
      cases op with
      | now => exact last
      | _ => exact later
  | timed now =>
      cases op with
      | cacheGet ns =>
          cases answer with
          | none => exact later
          | some policies => exact ⟨later, _, last, rfl⟩
      | _ => exact later
  | missed now =>
      cases op with
      | loadPolicies ns =>
          cases answer with
          | error message => exact last
          | ok policies => exact ⟨later, last⟩
      | _ => exact later
  | loaded now ns policies =>
      cases op with
      | cacheSet ns policies => exact ⟨later.1, _, last, rfl⟩
      | _ => exact later
  | settled now ns policies => exact later
  | failed ns message => exact later

theorem seen_follow (call : ResolverCall) (events : List ResolverEvent) :
    (call.watch.follow .fresh events).Seen events := by
  induction events using List.reverseRecOn with
  | nil => trivial
  | append_singleton earlier event ih =>
      rw [Monitor.follow_append]
      obtain ⟨op, answer⟩ := event
      cases op with
      | policy op => exact ih.advance op answer
      | _ => exact ih.mono _

theorem loaded_of_guard {call : ResolverCall} {progress : Progress} {ns : String}
    {policies : List Policy} (guarded : call.watch.guard progress (.policy (.cacheSet ns policies))) :
    ∃ now, progress = .loaded now ns policies := by
  cases call with
  | pickPolicy builder req =>
      cases progress with
      | loaded now other list =>
          obtain ⟨rfl, rfl⟩ := PolicyOp.cacheSet.inj guarded
          exact ⟨now, rfl⟩
      | _ => cases guarded
  | _ => cases guarded

/-- A call that has returned failed to load or selected from a list it went on with. -/
theorem accepted_cases {events : List ResolverEvent} {progress : Progress} {builder : DefaultBuilder}
    {req : RequestContext} {picked : Picked} (seen : progress.Seen events)
    (accepted : progress.accept builder req picked) :
    (∃ message, picked = .error message ∧
      ⟨.policy (.loadPolicies (namespaceOf req)), .error message⟩ ∈ events) ∨
    ∃ now policies, picked = selectPolicy builder now req policies ∧
      ⟨.policy .now, now⟩ ∈ events ∧
      ∃ event ∈ events, usedBy event.op event.result = some (namespaceOf req, policies) := by
  cases progress with
  | settled now ns policies =>
      obtain ⟨rfl, selected⟩ := accepted
      exact .inr ⟨now, policies, selected, seen⟩
  | failed ns message =>
      obtain ⟨rfl, failed⟩ := accepted
      exact .inl ⟨message, failed, seen⟩
  | _ => cases accepted

/-! ## Every cached list and the load it comes from -/

/-- A load of the list no longer before `time` than the TTL and the gap. -/
def LoadedBefore (history : ResolverHistory) (age : Duration) (time : Int) (ns : String)
    (policies : List Policy) : Prop :=
  ∃ entry ∈ history, entry.event = loadEvent ns policies ∧
    time - age ≤ entry.time.now ∧ entry.time.now ≤ time

structure Dated (ttl gap : Duration) (resolver : Resolver) (history : ResolverHistory) :
    Prop where
  same : resolver.cache.ttl = ttl
  cached : ∀ ns it, resolver.cache.items.find ns = some it →
    ∃ entry ∈ history, entry.event = loadEvent ns it.policies ∧
      it.expiry ≤ entry.time.now + gap + ttl
  used : ∀ entry ∈ history, ∀ ns policies,
    usedBy entry.event.op entry.event.result = some (ns, policies) →
      LoadedBefore history (ttl + gap) entry.time.now ns policies

namespace Dated

variable {ttl gap : Duration} {resolver after : Resolver} {history : ResolverHistory}

theorem start (ttl gap : Duration) (maxItems : Int) (file : PolicyFile) :
    Dated (newMemoryPolicyCacheWithLimits (V := List Policy) ttl maxItems).ttl gap
      ⟨file, newMemoryPolicyCacheWithLimits ttl maxItems⟩ [] where
  same := rfl
  cached _ _ found := by cases found
  used _ member := by cases member

theorem snoc (dated : Dated ttl gap resolver history)
    (entry : Entry ResolverOp ResolverRes ResolverReading) (kept : after.cache.ttl = ttl)
    (cached : ∀ ns it, after.cache.items.find ns = some it →
      resolver.cache.items.find ns = some it ∨
        ∃ load ∈ history, load.event = loadEvent ns it.policies ∧
          it.expiry ≤ load.time.now + gap + ttl)
    (used : ∀ ns policies, usedBy entry.event.op entry.event.result = some (ns, policies) →
      LoadedBefore (history ++ [entry]) (ttl + gap) entry.time.now ns policies) :
    Dated ttl gap after (history ++ [entry]) where
  same := kept
  cached ns it found := by
    obtain ⟨load, member, same, bounded⟩ := (cached ns it found).elim (dated.cached ns it) id
    exact ⟨load, List.mem_append_left _ member, same, bounded⟩
  used other member ns policies same := by
    cases List.mem_append.mp member with
    | inl before =>
        obtain ⟨load, loaded, rest⟩ := dated.used other before ns policies same
        exact ⟨load, List.mem_append_left _ loaded, rest⟩
    | inr last =>
        obtain rfl := List.mem_singleton.mp last
        exact used ns policies same

/-- A step that hands out no list and adds nothing to the cache. -/
theorem quiet (dated : Dated ttl gap resolver history) {thread : Nat} {reading : ResolverReading}
    {op : ResolverOp} {answer : ResolverRes op} (kept : after.cache.ttl = resolver.cache.ttl)
    (cached : ∀ ns it, after.cache.items.find ns = some it →
      resolver.cache.items.find ns = some it)
    (unused : usedBy op answer = none) :
    Dated ttl gap after (history ++ [⟨thread, reading, ⟨op, answer⟩⟩]) :=
  dated.snoc _ (kept.trans dated.same) (fun ns it found => .inl (cached ns it found))
    fun _ _ same => by cases unused.symm.trans same

theorem step (dated : Dated ttl gap resolver history) (positive : (0 : Int) < ttl) (call : ResolverCall)
    (thread : Nat) (reading : ResolverReading) (op : ResolverOp)
    (ordered : ∀ entry ∈ history, entry.time.now ≤ reading.now)
    (prompt : SetsWithin gap resolver history thread reading op)
    (guarded : call.watch.guard (call.watch.follow .fresh (own history thread)) op) :
    Dated ttl gap (resolver.perform reading op).2
      (history ++ [⟨thread, reading, ⟨op, (resolver.perform reading op).1⟩⟩]) := by
  cases op with
  | policy op =>
      cases op with
      | now => exact dated.quiet rfl (fun _ _ found => found) rfl
      | cacheGet ns =>
          refine dated.snoc _ dated.same (fun _ _ found => .inl found) fun other policies used => ?_
          obtain ⟨found, hit, same⟩ := Option.map_eq_some_iff.mp used
          obtain ⟨rfl, rfl⟩ := Prod.mk.inj same
          obtain ⟨it, stored, fresh, rfl⟩ := MemoryPolicyCache.get_eq_some.mp hit
          obtain ⟨load, member, event, bounded⟩ := dated.cached ns it stored
          refine ⟨load, List.mem_append_left _ member, event, ?_, ordered load member⟩
          change reading.now - (ttl + gap) ≤ _
          omega
      | loadPolicies ns => exact dated.quiet rfl (fun _ _ found => found) rfl
      | cacheSet ns policies =>
          obtain ⟨now, loaded⟩ : ∃ now, call.watch.follow .fresh (own history thread) =
              .loaded now ns policies := loaded_of_guard guarded
          have seen := seen_follow call (own history thread)
          rw [loaded] at seen
          obtain ⟨load, member, own, event⟩ := mem_own.mp seen.2
          have within := prompt load member own (by rw [event]; rfl)
          refine dated.snoc _ ((MemoryPolicyCache.set_ttl ..).trans dated.same) ?_ ?_
          · intro other it found
            obtain ⟨rfl, rfl⟩ | earlier := MemoryPolicyCache.find_set found
            · refine .inr ⟨load, member, event, ?_⟩
              rw [dated.same]
              change reading.now + ttl ≤ _
              omega
            · exact .inl earlier
          · intro other list used
            obtain ⟨rfl, rfl⟩ := Prod.mk.inj (Option.some.inj used)
            refine ⟨load, List.mem_append_left _ member, event, ?_, ordered load member⟩
            change reading.now - (ttl + gap) ≤ _
            omega
  | write request => exact dated.quiet rfl (fun _ _ found => found) rfl
  | invalidate ns => exact dated.quiet rfl (fun _ _ found => Items.find_delete found) rfl
  | sweepTime => exact dated.quiet rfl (fun _ _ found => found) rfl
  | sweep now => exact dated.quiet rfl (fun _ _ found => Items.find_filter found) rfl

end Dated

def watchOf (calls : List ResolverCall) (thread : Nat) :
    Monitor ResolverOp ResolverRes Progress (Option Picked) :=
  (calls[thread]?.getD .sweep).watch

theorem ttl_positive (ttl : Duration) (maxItems : Int) :
    (0 : Int) < (newMemoryPolicyCacheWithLimits (V := List Policy) ttl maxItems).ttl := by
  change (0 : Int) < if ttl ≤ 0 then 30 * second else ttl
  split_ifs with unset
  · decide
  · exact not_le.mp unset

theorem loadPolicies_clean {faults : FileFaults} {ns : String} {file : PolicyFile}
    {policies : List Policy} (loaded : file.loadPolicies faults ns = .ok policies) :
    file.loadPolicies {} ns = .ok policies := by
  unfold PolicyFile.loadPolicies at loaded ⊢
  cases read : file.readPayload faults with
  | error message =>
      rw [read] at loaded
      cases loaded
  | ok payload =>
      rw [read] at loaded
      rw [readPayload_clean, contents_of_readPayload read]
      exact loaded

section Run

variable (ttl : Duration) (maxItems : Int) (file : PolicyFile) (calls : List ResolverCall)
  (gap : Duration) (schedule : List (Nat × ResolverReading))

theorem run_dated
    (ordered : schedule.Pairwise fun earlier later => earlier.2.now ≤ later.2.now)
    (prompt : (ResolverPool.begin ttl maxItems file calls).Along Resolver.perform (SetsWithin gap)
      schedule) :
    let start := ResolverPool.begin ttl maxItems file calls
    (start.run Resolver.perform schedule).Followed (watchOf calls) (fun _ => .fresh) ∧
      Dated start.state.cache.ttl gap (start.run Resolver.perform schedule).state
        (start.run Resolver.perform schedule).history := by
  have timely : (ResolverPool.begin ttl maxItems file calls).Along Resolver.perform
      (fun _ history _ reading _ => ∀ entry ∈ history, entry.time.now ≤ reading.now) schedule :=
    Pool.along_ordered ResolverReading.now ordered fun _ member => by cases member
  refine Pool.run_invariant Resolver.perform (watchOf calls) (fun _ => .fresh)
    (Dated (newMemoryPolicyCacheWithLimits (V := List Policy) ttl maxItems).ttl gap) ?_ schedule _
    (List.length_map _) ?_ (Dated.start ttl gap maxItems file)
    (timely.and prompt)
  · intro resolver history thread reading op _ dated allowed guarded
    exact ⟨trivial, dated.step (ttl_positive ttl maxItems) _ thread reading op allowed.1 allowed.2
      guarded⟩
  · refine Pool.followed_start fun thread program found => ?_
    rw [List.getElem?_map] at found
    obtain ⟨call, listed, rfl⟩ := Option.map_eq_some_iff.mp found
    rw [watchOf, listed]
    exact call.watched

/-- The list a call goes on with is what the file held at a moment no longer ago than the TTL
and the time a call takes from its load to its `Set`, and its result is computed from it. -/
theorem policies_recent
    (ordered : schedule.Pairwise fun earlier later => earlier.2.now ≤ later.2.now)
    (prompt : (ResolverPool.begin ttl maxItems file calls).Along Resolver.perform (SetsWithin gap)
      schedule) :
    let start := ResolverPool.begin ttl maxItems file calls
    let final := start.run Resolver.perform schedule
    (∀ entry ∈ final.history, ∀ ns policies,
      usedBy entry.event.op entry.event.result = some (ns, policies) →
        ∃ first moment rest, schedule = first ++ moment :: rest ∧
          entry.time.now - start.state.cache.ttl - gap ≤ moment.2.now ∧
          moment.2.now ≤ entry.time.now ∧
          (start.run Resolver.perform first).state.file.loadPolicies {} ns = .ok policies) ∧
    ∀ thread builder req picked, calls[thread]? = some (.pickPolicy builder req) →
      final.results[thread]? = some (some (some picked)) →
        (∃ message, picked = .error message ∧
          ⟨.policy (.loadPolicies (namespaceOf req)), .error message⟩ ∈ own final.history thread) ∨
        ∃ now policies, picked = selectPolicy builder now req policies ∧
          ⟨.policy .now, now⟩ ∈ own final.history thread ∧
          ∃ event ∈ own final.history thread,
            usedBy event.op event.result = some (namespaceOf req, policies) := by
  intro start final
  obtain ⟨followed, dated⟩ := run_dated ttl maxItems file calls gap schedule ordered prompt
  refine ⟨fun entry member ns policies used => ?_, fun thread builder req picked listed ended => ?_⟩
  · obtain ⟨load, loaded, event, low, high⟩ := dated.used entry member ns policies used
    obtain ⟨first, rest, split, answered⟩ : ∃ first rest,
        schedule = first ++ (load.thread, load.time) :: rest ∧
          (Resolver.perform load.time load.event.op (start.run Resolver.perform first).state).1 =
            load.event.result := by
      cases Pool.exists_turn loaded with
      | inl before => cases before
      | inr turn => exact turn
    refine ⟨first, (load.thread, load.time), rest, split, ?_, high, ?_⟩
    · change entry.time.now - start.state.cache.ttl - gap ≤ load.time.now
      rw [Int.sub_sub]
      exact low
    · rw [event] at answered
      exact loadPolicies_clean answered
  · have accepted := followed thread _ (Pool.results_eq_some.mp ended)
    rw [watchOf, listed] at accepted
    obtain ⟨_, same, accepted⟩ := accepted
    cases same
    exact accepted_cases (seen_follow _ _) accepted

end Run

private def readingAt (now : Int) : ResolverReading := ⟨now, ⟨now, utc⟩, .listed, {}⟩

private def plainPick : ResolverCall := .pickPolicy ⟨"", fun _ => []⟩ {}

/-- One call loads the empty file at 1 and sets the cache at 3; a policy is written at 2, and
at 4 another call still finds the empty list. -/
theorem policies_recent_of_prompt_call :
    let calls := [plainPick, .write ⟨.upsert { policyID := "burst" }, {}, ⟨⟨2, utc⟩, ⟨2, utc⟩, ⟨2, utc⟩⟩⟩,
      plainPick]
    let schedule := [(0, readingAt 0), (0, readingAt 0), (0, readingAt 1), (1, readingAt 2),
      (0, readingAt 3), (2, readingAt 4), (2, readingAt 4)]
    ∃ first moment rest, schedule = first ++ moment :: rest ∧
      4 - 60 - 2 ≤ moment.2.now ∧ moment.2.now ≤ 4 ∧
      ((ResolverPool.begin 60 10 .missing calls).run Resolver.perform first).state.file.loadPolicies
        {} "" = .ok [] := by
  intro calls schedule
  obtain ⟨entry, member, same, used⟩ : ∃ entry ∈ ((ResolverPool.begin 60 10 .missing calls).run
      Resolver.perform schedule).history, entry.time.now = 4 ∧
        (usedBy entry.event.op entry.event.result).map (fun used => (used.1, used.2.isEmpty)) =
          some ("", true) := by decide +kernel
  obtain ⟨⟨ns, policies⟩, found, empty⟩ := Option.map_eq_some_iff.mp used
  obtain ⟨rfl, none⟩ := Prod.mk.inj empty
  obtain rfl := List.isEmpty_iff.mp none
  have recent := (policies_recent 60 10 .missing calls 2 schedule (by simp [schedule, readingAt])
    (by decide +kernel)).1 entry member "" [] found
  rw [same] at recent
  exact recent

end Rlaas.Engine
