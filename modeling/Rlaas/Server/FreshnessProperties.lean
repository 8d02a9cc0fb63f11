import Rlaas.Server.DispatcherProperties

/-! Every agent fetches the policies again after a change. An announcement that is dropped
finds a queue that is full, so that another one is on its way to every agent, and each of them
starts a fetch of all policies. -/

set_option autoImplicit false

namespace Rlaas.Server

open Go Store Adapter.ControlPlane Agent Effect Function

variable {n : Nat}
variable {target : Fin n}

def FleetOp.fetches (target : Fin n) : FleetOp n → Bool
  | .agent other .fetchStart => other = target
  | _ => false

/-- A request to an agent that its handler did not get. -/
def FleetOp.lostTo (target : Fin n) : (op : FleetOp n) → FleetRes op → Bool
  | .post _ _, sent => sent.1.target = target && !sent.2
  | _, _ => false

/-- Some policy was written after the last fetch of an agent. -/
def stale (target : Fin n) (history : FleetHistory n) : Bool :=
  history.foldl (fun stale entry => !entry.event.op.fetches target &&
    (stale || (entry.event.op.written? entry.event.result).isSome)) false

theorem stale_snoc (target : Fin n) (history : FleetHistory n)
    (entry : Entry (FleetOp n) FleetRes FleetReading) :
    stale target (history ++ [entry]) = (!entry.event.op.fetches target &&
      (stale target history || (entry.event.op.written? entry.event.result).isSome)) := by
  rw [stale, List.foldl_append]
  rfl

theorem fetches_of_written {op : FleetOp n} {answer : FleetRes op}
    (writes : (op.written? answer).isSome = true) : op.fetches target = false := by
  cases op with
  | agent other op => cases writes
  | _ => rfl

theorem fetch_of_fresh {before after : FleetHistory n}
    {entry : Entry (FleetOp n) FleetRes FleetReading}
    (writes : (entry.event.op.written? entry.event.result).isSome = true)
    (fresh : stale target (before ++ entry :: after) = false) :
    ∃ fetch ∈ after, fetch.event.op.fetches target = true := by
  by_contra none
  have quiet : ∀ later ∈ after, later.event.op.fetches target = false := fun later member =>
    Bool.eq_false_iff.mpr fun fetches => none ⟨later, member, fetches⟩
  suffices still : stale target (before ++ entry :: after) = true by
    rw [fresh] at still
    cases still
  clear fresh none
  induction after using List.reverseRecOn with
  | nil => rw [stale_snoc, fetches_of_written writes, writes, Bool.or_true, Bool.not_false,
      Bool.true_and]
  | append_singleton after last ih =>
      have earlier := ih fun later member => quiet later (List.mem_append_left _ member)
      rw [← List.cons_append, ← List.append_assoc, stale_snoc, earlier, quiet last (by simp)]
      rfl

/-- A thread has something that makes an agent fetch. -/
def FleetStage.carries (target : Fin n) : FleetStage n → Prop
  | .request (.owes _) => True
  | .worker _ pending => ∃ post ∈ pending, post.target = target
  | .loop other stage => other = target ∧ stage.owes = true
  | _ => False

/-- Something that makes an agent fetch is with a thread, in the queue of the dispatcher or in
the channel of the agent. -/
inductive InFlight (target : Fin n) (threads : Nat) (fleet : Fleet n)
    (stages : Nat → FleetStage n) : Prop where
  | carried {thread : Nat} (inside : thread < threads) (carries : (stages thread).carries target)
  | queued (some : fleet.queue.queue ≠ [])
  | delivered (some : (fleet.agents target).invalidations.queue ≠ [])

section Steps

variable {target : Fin n} {threads thread : Nat} {fleet after : Fleet n}
  {stages : Nat → FleetStage n} {next : FleetStage n}

theorem InFlight.mover (inside : thread < threads) (carries : next.carries target) :
    InFlight target threads after (update stages thread next) := by
  refine .carried inside ?_
  rwa [update_self]

theorem InFlight.move (flight : InFlight target threads fleet stages)
    (own : (stages thread).carries target →
      InFlight target threads after (update stages thread next))
    (queued : fleet.queue.queue ≠ [] →
      InFlight target threads after (update stages thread next))
    (delivered : (fleet.agents target).invalidations.queue ≠ [] →
      InFlight target threads after (update stages thread next)) :
    InFlight target threads after (update stages thread next) := by
  cases flight with
  | @carried other inside carries =>
      by_cases here : other = thread
      · exact own (here ▸ carries)
      · refine .carried inside ?_
        rwa [update_of_ne here]
  | queued some => exact queued some
  | delivered some => exact delivered some

theorem InFlight.still (flight : InFlight target threads fleet stages)
    (free : ¬(stages thread).carries target) (queue : after.queue = fleet.queue)
    (agent : after.agents target = fleet.agents target) :
    InFlight target threads after (update stages thread next) := by
  refine flight.move (fun carries => absurd carries free) (fun some => .queued ?_)
    (fun some => .delivered ?_)
  · rwa [queue]
  · rwa [agent]

end Steps

section Agents

variable {state : AgentState}

theorem trySend_ne_nil {channel : Channel String} (room : channel.capacity ≠ 0)
    (policyID : String) : (channel.trySend policyID).2.queue ≠ [] := by
  obtain ⟨after, same, grown, _⟩ | ⟨same, full⟩ := channel.trySend_cases policyID
  · rw [same, grown]
    exact List.append_ne_nil_of_right_ne_nil _ (List.cons_ne_nil _ _)
  · rw [same]
    intro empty
    rw [empty] at full
    exact room full.symm

/-- The handler sends the identifier unless it is blank. -/
theorem invalidate_exec (reading : AgentReading) (policyID : String) :
    ((invalidate ⟨"POST", some policyID⟩).exec AgentState.perform (fun _ => reading) state).2 =
      if Strings.trimSpace policyID.toList = [] then state
      else { state with invalidations := (state.invalidations.trySend policyID).2 } := by
  rw [invalidate, if_neg fun different => different rfl]
  dsimp only
  split_ifs
  · rfl
  · rfl

/-- A `select` receives from the channel or leaves it as it is. -/
theorem select_cases (reading : AgentReading) :
    (state.perform reading .select).2 = state ∨
      ∃ policyID, (state.perform reading .select).1 = .invalidation policyID ∧
        (state.perform reading .select).2.invalidations.capacity =
          state.invalidations.capacity := by
  rw [AgentState.perform]
  cases reading.branch with
  | receive =>
      obtain ⟨_, same⟩ | ⟨policyID, channel, same, _, capacity⟩ :=
        state.invalidations.tryReceive_cases
      · rw [same]
        exact .inl rfl
      · rw [same]
        exact .inr ⟨policyID, rfl, capacity⟩
  | _ => exact .inl rfl

theorem perform_capacity (reading : AgentReading) (op : AgentOp) :
    (state.perform reading op).2.invalidations.capacity = state.invalidations.capacity := by
  cases op with
  | send policyID =>
      obtain ⟨channel, same, _, capacity⟩ | ⟨same, _⟩ := state.invalidations.trySend_cases policyID
      · rw [AgentState.perform, same]
        exact capacity
      · rw [AgentState.perform, same]
  | select =>
      obtain same | ⟨_, _, capacity⟩ := select_cases reading
      · rw [same]
      · exact capacity
  | _ => rfl

theorem perform_ne_nil (reading : AgentReading) {op : AgentOp} (selects : op ≠ .select)
    (receives : op ≠ .receive) (some : state.invalidations.queue ≠ []) :
    (state.perform reading op).2.invalidations.queue ≠ [] := by
  cases op with
  | send policyID =>
      refine trySend_ne_nil (fun none => some ?_) policyID
      exact List.eq_nil_of_length_eq_zero
        (Nat.eq_zero_of_le_zero (none ▸ state.invalidations.fits))
  | select => exact absurd rfl selects
  | receive => exact absurd rfl receives
  | _ => exact some

end Agents

section Steps

variable {target : Fin n} {requests threads thread : Nat} {fleet : Fleet n}
  {written sent : List String} {stages : Nat → FleetStage n}

theorem deliver_self (reading : AgentReading) (post : Post n) :
    (fleet.deliver reading post).agents post.target =
      if Strings.trimSpace post.event.policyID.toList = [] then fleet.agents post.target
      else { fleet.agents post.target with
        invalidations :=
          ((fleet.agents post.target).invalidations.trySend post.event.policyID).2 } :=
  (update_self ..).trans (invalidate_exec reading post.event.policyID)

theorem deliver_other {post : Post n} (other : post.target ≠ target) (reading : AgentReading) :
    (fleet.deliver reading post).agents target = fleet.agents target :=
  update_of_ne other.symm _ _

theorem deliver_capacity (reading : AgentReading) (post : Post n) :
    ((fleet.deliver reading post).agents target).invalidations.capacity =
      (fleet.agents target).invalidations.capacity := by
  by_cases here : post.target = target
  · subst here
    rw [deliver_self]
    split_ifs
    · rfl
    · exact perform_capacity reading (.send post.event.policyID)
  · rw [deliver_other here]

theorem enqueue_agents (event : PolicyEvent) : (fleet.enqueue event).agents = fleet.agents := by
  unfold Fleet.enqueue
  split_ifs
  · rfl
  · split <;> rfl

theorem announce_agents (op : PoliciesOp) : (fleet.announce op).agents = fleet.agents := by
  unfold Fleet.announce
  split
  · exact enqueue_agents _
  · rfl

theorem agents_capacity (reading : FleetReading) (op : FleetOp n) :
    ((fleet.perform reading op).2.agents target).invalidations.capacity =
      (fleet.agents target).invalidations.capacity := by
  cases op with
  | policies op =>
      change ((fleet.announce op).agents target).invalidations.capacity = _
      rw [announce_agents]
  | receive => rfl
  | post first others =>
      let post := (first :: others).getD reading.pick first
      change ((if reading.served then fleet.deliver reading.agent post else fleet).agents
        target).invalidations.capacity = _
      split_ifs
      · exact deliver_capacity reading.agent post
      · rfl
  | agent other op =>
      by_cases here : other = target
      · subst here
        change (update fleet.agents other _ other).invalidations.capacity = _
        rw [update_self]
        exact perform_capacity reading.agent op
      · change (update fleet.agents other _ target).invalidations.capacity = _
        rw [update_of_ne (Ne.symm here)]

theorem mem_pendingTo (took : Nat) {pending : List (Post n)} {post : Post n}
    (member : post ∈ pending) (there : post.target = target) :
    post.event.policyID ∈ (FleetStage.worker took pending).pendingTo target := by
  refine Multiset.mem_coe.mpr (List.mem_map.mpr ⟨post.event, ?_, rfl⟩)
  exact List.mem_map.mpr ⟨post, List.mem_filter.mpr ⟨member, by simpa using there⟩, rfl⟩

theorem Conserved.pending_written
    (conserved : Conserved target requests threads fleet written sent stages)
    (inside : thread < threads) {took : Nat} {pending : List (Post n)}
    (here : stages thread = .worker took pending) {post : Post n} (member : post ∈ pending)
    (there : post.target = target) : post.event.policyID ∈ written := by
  obtain ⟨others, total, _⟩ := gathered_update (FleetStage.pendingTo target) inside stages
  have own : post.event.policyID ∈ (stages thread).pendingTo target := by
    rw [here]
    exact mem_pendingTo took member there
  have flow := conserved.flow
  rw [total] at flow
  refine Multiset.mem_coe.mp (flow ▸ ?_)
  simp only [Multiset.mem_add]
  exact .inl (.inr (.inl own))

/-- After an announcement there is something in the queue: the event, or what filled it. -/
theorem Conserved.enqueue_ne_nil
    (conserved : Conserved target requests threads fleet written sent stages)
    (event : PolicyEvent) : (fleet.enqueue event).queue.queue ≠ [] := by
  rw [Fleet.enqueue, if_neg (Nat.pos_iff_ne_zero.mp (Fin.pos target))]
  obtain ⟨after, same, grown, _⟩ | ⟨same, full⟩ := fleet.queue.trySend_cases event
  · rw [same]
    change after.queue ≠ []
    rw [grown]
    exact List.append_ne_nil_of_right_ne_nil _ (List.cons_ne_nil _ _)
  · rw [same]
    change fleet.queue.queue ≠ []
    intro empty
    rw [empty, conserved.capacity] at full
    cases full

/-- The moves of a loop keep in flight what makes its agent fetch, until it starts a fetch. -/
theorem InFlight.loop (flight : InFlight target threads fleet stages) (inside : thread < threads)
    (reading : FleetReading) {stage : Agent.Stage} (here : stages thread = .loop target stage)
    {op : AgentOp} (guarded : stage.guard op) (continues : op ≠ .fetchStart) :
    InFlight target threads (fleet.perform reading (.agent target op)).2
      (update stages thread (.loop target (stage.advance op
        ((fleet.agents target).perform reading.agent op).1))) := by
  have agent : (fleet.perform reading (.agent target op)).2.agents target =
      ((fleet.agents target).perform reading.agent op).2 := update_self ..
  -- A loop that does not owe a fetch and leaves the channel alone.
  have still : ∀ {next}, stage.owes = false → op ≠ .select → op ≠ .receive →
      InFlight target threads (fleet.perform reading (.agent target op)).2
        (update stages thread next) := by
    intro next free selects receives
    refine flight.move (fun carries => ?_) (fun some => .queued some) fun some => .delivered ?_
    · rw [here] at carries
      exact absurd carries.2 (Bool.eq_false_iff.mp free)
    · rw [agent]
      exact perform_ne_nil reading.agent selects receives some
  cases stage with
  | toFetch owed => exact absurd guarded continues
  | fetching =>
      cases guarded
      exact still rfl nofun nofun
  | reporting =>
      obtain rfl | ⟨t, rfl⟩ | ⟨err, rfl⟩ := guarded <;> exact still rfl nofun nofun
  | selecting =>
      cases guarded
      obtain same | ⟨policyID, received, _⟩ := select_cases reading.agent
      · refine flight.still ?_ rfl (agent.trans same)
        rw [here]
        exact fun carries => nomatch carries.2
      · rw [received]
        exact .mover inside ⟨rfl, rfl⟩
  | draining =>
      cases guarded
      refine .mover inside ⟨rfl, ?_⟩
      cases ((fleet.agents target).perform reading.agent .receive).1 with
      | none => rfl
      | some policyID => rfl
  | running =>
      cases guarded
      exact still rfl nofun nofun
  | asking =>
      obtain ⟨policyID, rfl⟩ := guarded
      exact still rfl nofun nofun
  | _ => cases guarded

/-- A request that writes owes an announcement, and one that announces leaves something in the
queue. -/
theorem InFlight.request
    (conserved : Conserved target requests threads fleet written sent stages)
    (inside : thread < threads) (reading : FleetReading) {errand : Errand}
    (here : stages thread = .request errand) {op : PoliciesOp} (guarded : errand.guard op)
    (answer : PoliciesRes op)
    (flight : written? op answer = none → InFlight target threads fleet stages) :
    InFlight target threads (fleet.perform reading (.policies op)).2
      (update stages thread (.request (errand.advance op answer))) := by
  have agent : (fleet.perform reading (.policies op)).2.agents target = fleet.agents target :=
    congrFun (announce_agents op) target
  have still : ∀ {next}, op.announced? = none → ¬(stages thread).carries target →
      InFlight target threads fleet stages → InFlight target threads
        (fleet.perform reading (.policies op)).2 (update stages thread next) := by
    intro next silent free flight
    refine flight.still free ?_ agent
    change (fleet.announce op).queue = fleet.queue
    rw [Fleet.announce, silent]
  cases errand with
  | fresh =>
      cases result : written? op answer with
      | some policyID =>
          refine .mover inside ?_
          rw [Errand.advance, result]
          trivial
      | none => exact still guarded (by rw [here]; exact id) (flight result)
  | owes policyID =>
      obtain ⟨action, rfl⟩ := guarded
      exact .queued (conserved.enqueue_ne_nil ⟨policyID, action⟩)
  | announced =>
      exact still guarded.1 (by rw [here]; exact id) (flight (written?_eq_none guarded.2 _))

/-- A worker hands what it has received to every agent. -/
theorem InFlight.worker
    (conserved : Conserved target requests threads fleet written sent stages)
    (room : (fleet.agents target).invalidations.capacity ≠ 0)
    (flight : InFlight target threads fleet stages) (inside : thread < threads)
    (reading : FleetReading) {took : Nat} {first : Post n} {others : List (Post n)}
    (here : stages thread = .worker took (first :: others))
    (readable : ∀ policyID ∈ written, Strings.trimSpace policyID.toList ≠ [])
    (kept : (FleetOp.post first others).lostTo target
      (fleet.perform reading (.post first others)).1 = false) :
    InFlight target threads (fleet.perform reading (.post first others)).2
      (update stages thread (.worker took ((first :: others).erase
        ((first :: others).getD reading.pick first)))) := by
  have member := getD_mem first others reading.pick
  change (decide (((first :: others).getD reading.pick first).target = target) &&
    !reading.served) = false at kept
  change InFlight target threads (if reading.served then fleet.deliver reading.agent
    ((first :: others).getD reading.pick first) else fleet) _
  generalize (first :: others).getD reading.pick first = post at member kept
  by_cases there : post.target = target
  · have served : reading.served = true := by simpa [there] using kept
    have named := readable _ (conserved.pending_written inside here member there)
    subst there
    rw [if_pos served]
    refine .delivered ?_
    rw [deliver_self, if_neg named]
    exact trySend_ne_nil room _
  · have agent : (if reading.served then fleet.deliver reading.agent post else fleet).agents
        target = fleet.agents target := by
      split_ifs
      · exact deliver_other there reading.agent
      · rfl
    have queue : (if reading.served then fleet.deliver reading.agent post else fleet).queue =
        fleet.queue := by
      split_ifs
      · rfl
      · rfl
    refine flight.move (fun carries => .mover inside ?_) (fun some => .queued ?_)
      (fun some => .delivered ?_)
    · rw [here] at carries
      obtain ⟨other, pending, toTarget⟩ := carries
      have different : other ≠ post := fun same => there (same ▸ toTarget)
      exact ⟨other, (List.mem_erase_of_ne different).mpr pending, toTarget⟩
    · rwa [queue]
    · rwa [agent]

end Steps

/-- The invariant of a run for one agent: as long as the policies written have identifiers
that are not blank and no request to the agent is lost, it fetches again whenever it is stale. -/
structure Tracked (target : Fin n) (requests threads : Nat) (fleet : Fleet n)
    (history : FleetHistory n) (stages : Nat → FleetStage n) : Prop where
  conserved : Conserved target requests threads fleet (written history) (sentTo target history)
    stages
  room : (fleet.agents target).invalidations.capacity = 32
  flight : (∀ policyID ∈ written history, Strings.trimSpace policyID.toList ≠ []) →
    (∀ entry ∈ history, entry.event.op.lostTo target entry.event.result = false) →
    stale target history = true → InFlight target threads fleet stages

theorem Tracked.step {requests threads thread : Nat} {fleet : Fleet n} {history : FleetHistory n}
    {stages : Nat → FleetStage n} (tracked : Tracked target requests threads fleet history stages)
    (inside : thread < threads) (reading : FleetReading) {op : FleetOp n}
    (guarded : (stages thread).guard op) (ready : fleet.ready op) :
    Tracked target requests threads (fleet.perform reading op).2
      (history ++ [⟨thread, reading, ⟨op, (fleet.perform reading op).1⟩⟩])
      (update stages thread
        ((stages thread).advance op (fleet.perform reading op).1)) := by
  refine ⟨?_, (agents_capacity reading op).trans tracked.room, fun readable kept aged => ?_⟩
  · rw [written, sentTo, filterMap_snoc, filterMap_snoc]
    exact tracked.conserved.step inside reading guarded ready
  · have readable' : ∀ policyID ∈ written history, Strings.trimSpace policyID.toList ≠ [] := by
      intro policyID member
      refine readable policyID ?_
      rw [written, filterMap_snoc]
      exact List.mem_append_left _ member
    have kept' := kept _ (List.mem_append_right history List.mem_cons_self)
    have before := tracked.flight readable' fun entry member =>
      kept entry (List.mem_append_left _ member)
    rw [stale_snoc, Bool.and_eq_true, Bool.or_eq_true] at aged
    obtain ⟨continues, aged⟩ := aged
    have earlier : op.written? (fleet.perform reading op).1 = none →
        InFlight target threads fleet stages := fun silent =>
      before (aged.resolve_right (by rw [silent]; exact Bool.false_ne_true))
    cases here : stages thread with
    | request errand =>
        rw [here] at guarded
        obtain ⟨inner, rfl, guarded⟩ := guarded
        exact .request tracked.conserved inside reading here guarded _ earlier
    | worker took pending =>
        rw [here] at guarded
        cases pending with
        | nil =>
            cases guarded
            obtain ⟨empty, _⟩ | ⟨event, rest, received, _⟩ := fleet.queue.tryReceive_cases
            · exact absurd empty ready
            · rw [Fleet.perform, received]
              exact .mover inside
                ⟨⟨target, event⟩, List.mem_map_of_mem (List.mem_finRange target), rfl⟩
        | cons first others =>
            cases guarded
            have room : (fleet.agents target).invalidations.capacity ≠ 0 := by
              rw [tracked.room]
              decide
            exact .worker tracked.conserved room (earlier rfl) inside reading here readable' kept'
    | loop other stage =>
        rw [here] at guarded
        obtain ⟨inner, rfl, guarded⟩ := guarded
        by_cases same : other = target
        · subst same
          refine (earlier rfl).loop inside reading here guarded ?_
          rintro rfl
          simp [FleetOp.fetches] at continues
        · refine (earlier rfl).still ?_ rfl (update_of_ne (Ne.symm same) _ _)
          rw [here]
          exact fun carries => same carries.1

section Freshness

variable {cfg : HandlerConfig} {requests : List PoliciesRequest} {syncRounds : Nat}
  {file : PolicyFile} {schedule : List (Nat × FleetReading)}

theorem run_tracked (notifier : cfg.notifier = true)
    (legal : (FleetPool.begin n cfg requests syncRounds file).Legal schedule) (target : Fin n) :
    let final := (FleetPool.begin n cfg requests syncRounds file).run Fleet.perform schedule
    Tracked target requests.length (roles n requests).length final.state final.history
      (stagesOf requests final.history) := by
  refine (Pool.run_invariant Fleet.perform (fun _ => fleetWatch (requests.length + 1))
    (initially n requests)
    (fun fleet history => Tracked target requests.length (roles n requests).length fleet history
      (stagesOf requests history)) ?_ schedule _ (List.length_map _)
    (begin_followed notifier requests syncRounds file)
    ⟨conserved_start target requests file, rfl, nofun⟩ legal).2
  intro fleet history thread reading op inside tracked ready guarded
  refine ⟨perform_expects reading ready, ?_⟩
  rw [stagesOf, Pool.stages_snoc]
  exact tracked.step inside reading guarded ready

/-- The loop of this agent waits for an invalidation or a tick. -/
def Role.selecting (target : Fin n) : Role n → FleetSteps n FleetResult → Bool
  | .loop _, .call (.agent _ .select) _ => true
  | .loop other, _ => other ≠ target
  | _, _ => true

/-- An agent has nothing to do, and no invalidation waits in its channel. -/
def Resting (requests : List PoliciesRequest) (pool : FleetPool n) (target : Fin n) : Prop :=
  (∀ thread ∈ (roles n requests).zip pool.threads, thread.1.selecting target thread.2 = true) ∧
    (pool.state.agents target).invalidations.queue = []

instance Resting.decide (requests : List PoliciesRequest) (pool : FleetPool n) (target : Fin n) :
    Decidable (Resting requests pool target) :=
  inferInstanceAs (Decidable (_ ∧ _))

theorem owes_of_selecting {stage : Agent.Stage} {rounds : Nat} {program : FleetSteps n FleetResult}
    (accepted : (fleetWatch rounds).Accepts (.loop target stage) program)
    (selecting : (Role.loop target).selecting target program = true) : stage.owes = false := by
  cases program with
  | done result => simp [Role.selecting] at selecting
  | call op next =>
      obtain ⟨inner, rfl, guarded⟩ := accepted.1
      cases stage with
      | toFetch owed =>
          cases guarded
          simp [Role.selecting] at selecting
      | draining =>
          cases guarded
          simp [Role.selecting] at selecting
      | _ => rfl

/-- When nothing is left to do, nothing is in flight. -/
theorem AtWork.not_inFlight {pool : FleetPool n} (work : AtWork requests pool)
    (idle : Idle requests pool) (resting : Resting requests pool target) :
    ¬InFlight target (roles n requests).length pool.state (stagesOf requests pool.history) := by
  intro flight
  cases flight with
  | queued some => exact some idle.2
  | delivered some => exact some resting.2
  | @carried thread inside carries =>
      have found := List.getElem?_eq_getElem inside
      have here := List.getElem?_eq_getElem (work.size.symm ▸ inside)
      have kind := kind_stagesOf found pool.history
      have free := work.idle_stage idle found here target
      have accepted := work.accepted here
      cases stage : stagesOf requests pool.history thread with
      | request errand =>
          rw [stage] at carries free
          cases errand with
          | owes policyID => exact Multiset.singleton_ne_zero policyID free.1
          | _ => cases carries
      | worker took pending =>
          rw [stage] at carries free
          obtain ⟨post, member, there⟩ := carries
          exact Multiset.notMem_zero _ (free.2 ▸ mem_pendingTo took member there)
      | loop other inner =>
          rw [stage] at carries kind accepted
          obtain ⟨rfl, owes⟩ := carries
          have selecting := resting.1 _ (mem_threads.mpr ⟨thread, found, here⟩)
          generalize (roles n requests)[thread] = role at kind selecting
          cases role with
          | loop target =>
              cases kind
              rw [owes_of_selecting accepted selecting] at owes
              cases owes
          | _ => cases kind

/-- When the server is idle and an agent rests, the agent has started a fetch of all policies
after every change of a policy, even after one whose announcement was dropped, unless a request
to it was lost or a policy has a blank identifier. -/
theorem agents_fetch_after_changes (notifier : cfg.notifier = true)
    (legal : (FleetPool.begin n cfg requests syncRounds file).Legal schedule) (target : Fin n) :
    let final := (FleetPool.begin n cfg requests syncRounds file).run Fleet.perform schedule
    (∀ policyID ∈ written final.history, Strings.trimSpace policyID.toList ≠ []) →
    (∀ entry ∈ final.history, entry.event.op.lostTo target entry.event.result = false) →
    Idle requests final → Resting requests final target →
    ∀ before entry after, final.history = before ++ entry :: after →
      (entry.event.op.written? entry.event.result).isSome = true →
      ∃ fetch ∈ after, fetch.event.op.fetches target = true := by
  intro final readable kept idle resting before entry after split writes
  have work := run_atWork notifier requests syncRounds file schedule legal
  have tracked := run_tracked notifier legal target
  have fresh : stale target final.history = false := Bool.eq_false_iff.mpr fun aged =>
    work.not_inFlight idle resting (tracked.flight readable kept aged)
  rw [split] at fresh
  exact fetch_of_fresh writes fresh

private def fetching : FleetPool 1 :=
  (FleetPool.begin 1 {} [putBurst] 2 .missing).run Fleet.perform
    [(2, calm), (2, calm), (2, calm), (0, calm), (0, calm), (0, calm), (1, calm), (1, calm),
      (2, { calm with agent.branch := .receive }), (2, calm), (2, calm), (2, calm), (2, calm)]

private theorem fetching_long : 3 < fetching.history.length := by decide +kernel

/-- The agent has fetched before the policy is put, and does again. -/
theorem agents_fetch_after_changes_put :
    written (fetching.history.take 4) = ["burst"] ∧
      ∃ fetch ∈ fetching.history.drop 4, fetch.event.op.fetches 0 = true := by
  have split : fetching.history = fetching.history.take 3 ++
      fetching.history.get ⟨3, fetching_long⟩ :: fetching.history.drop 4 :=
    (List.take_append_drop 3 _).symm.trans
      (congrArg (fetching.history.take 3 ++ ·) (List.drop_eq_getElem_cons fetching_long))
  refine ⟨by decide +kernel, ?_⟩
  exact agents_fetch_after_changes rfl (by decide +kernel) 0 (by decide +kernel)
    (by decide +kernel) (by decide +kernel) (by decide +kernel) _ _ _ split (by decide +kernel)

end Freshness

end Rlaas.Server
