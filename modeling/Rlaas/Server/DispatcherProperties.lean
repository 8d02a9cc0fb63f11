import Rlaas.Agent.SyncProperties
import Rlaas.Server.Dispatcher

/-! Every change of a policy is announced to every agent once, as long as the queue of the
dispatcher has room: a balance of what was written against what is still to be announced,
waits in the queue, found no room, is being sent and was sent. -/

set_option autoImplicit false

namespace Rlaas.Server

open Go Store Adapter.ControlPlane Agent Effect

variable {thread : Nat} {requests : List PoliciesRequest}
variable {event : PolicyEvent} {cfg : HandlerConfig}

section FanOut

/-- The requests of an event. -/
def announcements (valid : String → Bool) (targets : List String) (event : PolicyEvent) :
    List (String × PolicyEvent) :=
  ((targets.map invalidateURL).filter valid).map fun url => (url, event)

theorem requests_serial (valid : String → Bool) (targets : List String) (event : PolicyEvent)
    (answers : Fin targets.length → Unit) :
    ((publishBatch valid targets event).serial answers).filterMap (·.request) =
      announcements valid targets event := by
  have jobs : targets = (List.finRange targets.length).map targets.get :=
    (List.map_get_finRange targets).symm
  rw [announcements, Batch.serial, List.filterMap_map]
  conv_rhs => rw [jobs]
  rw [List.map_map, List.filter_map, List.map_map, ← List.filterMap_eq_map, List.filterMap_filter]
  exact List.filterMap_congr fun job _ => by simp [publishBatch]

theorem sent_perm {valid : String → Bool} {targets : List String} {schedule : List (Nat × Unit)}
    {sent : List (String × PolicyEvent)}
    (returned : publishInvalidation valid targets event schedule = some sent) :
    sent.Perm (announcements valid targets event) := by
  unfold publishInvalidation at returned
  split_ifs at returned with none
  · subst none
    obtain rfl := Option.some.inj returned
    exact List.Perm.refl _
  · obtain ⟨⟨final, evaluations⟩, outcome, rfl⟩ := Option.map_eq_some_iff.mp returned
    have employed : 0 < min targets.length 8 :=
      Nat.lt_min.mpr ⟨List.length_pos_iff.mpr none, by decide⟩
    obtain ⟨answers, once, _⟩ := (publishBatch valid targets event).outcome_serial _ () employed
      (fun _ first _ => first.elim) outcome
    rw [← requests_serial valid targets event answers]
    exact once.filterMap _

/-- Whatever the order in which its workers run, `publishInvalidation` sends the event to every
target whose URL is one exactly once, and it can always go on to its return. -/
theorem publishInvalidation_once (valid : String → Bool) (targets : List String)
    (event : PolicyEvent) (schedule : List (Nat × Unit)) :
    (∃ rest, (publishInvalidation valid targets event (schedule ++ rest)).isSome = true) ∧
      ∀ sent, publishInvalidation valid targets event schedule = some sent →
        sent.Perm (announcements valid targets event) := by
  refine ⟨?_, fun sent returned => sent_perm returned⟩
  unfold publishInvalidation
  split_ifs
  · exact ⟨[], rfl⟩
  · simp only [Option.isSome_map]
    exact Batch.exists_outcome _ _ _ _ () schedule

/-- Two targets and two workers, of which the second overtakes the first. -/
theorem publishInvalidation_once_pair :
    let sent := [("http://b/rlaas/v1/agent/invalidate", ⟨"burst", "update"⟩),
      ("http://a/rlaas/v1/agent/invalidate", ⟨"burst", "update"⟩)]
    sent.Perm (announcements (fun _ => true) ["http://a/", "http://b"] ⟨"burst", "update"⟩) :=
  (publishInvalidation_once (fun _ => true) ["http://a/", "http://b"] ⟨"burst", "update"⟩
    [(0, ()), (1, ()), (1, ()), (0, ()), (0, ()), (1, ())]).2 _ (by decide +kernel)

/-- The request of a post operation. -/
def FleetOp.sent? {n : Nat} : (op : FleetOp n) → FleetRes op → Option (Post n)
  | .post _ _, sent => some sent.1
  | _, _ => none

theorem getD_mem {n : Nat} (first : Post n) (others : List (Post n)) (pick : Nat) :
    (first :: others).getD pick first ∈ first :: others := by
  rw [List.getD_eq_getElem?_getD]
  cases found : (first :: others)[pick]? with
  | none => exact List.mem_cons_self
  | some post => exact List.mem_of_getElem? found

theorem publish_sends {n : Nat} (pending : List (Post n)) (clock : Nat → FleetReading)
    (fleet : Fleet n) :
    (((publish pending.length pending).events Fleet.perform clock fleet).filterMap fun event =>
      event.op.sent? event.result).Perm pending := by
  generalize size : pending.length = left
  induction left generalizing pending clock fleet with
  | zero =>
      obtain rfl := List.eq_nil_of_length_eq_zero size
      exact List.Perm.refl _
  | succ left ih =>
      cases pending with
      | nil => cases size
      | cons first others =>
          have member := getD_mem first others (clock 0).pick
          refine List.Perm.trans ?_ (List.perm_cons_erase member).symm
          refine List.Perm.cons _ (ih _ _ _ ((List.length_erase_of_mem member).trans ?_))
          rw [size, Nat.add_sub_cancel]

/-- If all URLs are valid, the requests of `publish` are those of `publishInvalidation`. -/
theorem publish_perm {valid : String → Bool} {targets : List String} {schedule : List (Nat × Unit)}
    {sent : List (String × PolicyEvent)}
    (accepted : ∀ target ∈ targets, valid (invalidateURL target) = true)
    (returned : publishInvalidation valid targets event schedule = some sent)
    (clock : Nat → FleetReading) (fleet : Fleet targets.length) :
    ((((publish targets.length (posts targets.length event)).events Fleet.perform clock
        fleet).filterMap fun event => event.op.sent? event.result).map fun post =>
      (invalidateURL (targets.get post.target), post.event)).Perm sent := by
  have every : announcements valid targets event =
      (posts targets.length event).map fun post =>
        (invalidateURL (targets.get post.target), post.event) := by
    have kept : (targets.map invalidateURL).filter valid = targets.map invalidateURL :=
      List.filter_eq_self.mpr (List.forall_mem_map.mpr accepted)
    rw [announcements, kept, posts, List.map_map, List.map_map]
    conv_lhs => rw [← List.map_get_finRange targets, List.map_map]
    rfl
  have size : (posts targets.length event).length = targets.length := by
    rw [posts, List.length_map, List.length_finRange]
  have sends := publish_sends (posts targets.length event) clock fleet
  rw [size] at sends
  exact ((sends.map _).trans (every ▸ List.Perm.refl _)).trans (sent_perm returned).symm

end FanOut

variable {n : Nat}

/-- Where a thread is. -/
inductive FleetStage (n : Nat) where
  | request (errand : Errand)
  /-- A worker that has taken so many events and waits once it has sent these requests. -/
  | worker (took : Nat) (pending : List (Post n))
  | loop (target : Fin n) (stage : Agent.Stage)

namespace FleetStage

def guard : FleetStage n → FleetOp n → Prop
  | .request errand, op => ∃ inner, op = .policies inner ∧ errand.guard inner
  | .worker _ [], op => op = .receive
  | .worker _ (first :: others), op => op = .post first others
  | .loop target stage, op => ∃ inner, op = .agent target inner ∧ stage.guard inner

def advance : FleetStage n → (op : FleetOp n) → FleetRes op → FleetStage n
  | .request errand, .policies op, answer => .request (errand.advance op answer)
  | .worker took _, .receive, some event => .worker (took + 1) (posts n event)
  | .worker took pending, .post _ _, sent => .worker took (pending.erase sent.1)
  | .loop target stage, .agent _ op, answer => .loop target (stage.advance op answer)
  | stage, _, _ => stage

def accept (rounds : Nat) : FleetStage n → FleetResult → Prop
  | .request errand, result => errand.settled ∧ ∃ answer, result = .answer answer
  | .worker took [], _ => took = rounds
  | .worker _ _, _ => False
  | .loop _ stage, result => ∃ inner, result = .agent inner ∧ stage.accept inner

end FleetStage

/-- A receive returns once there is an event; the request that is sent is one of those that
were to be sent. -/
def FleetOp.expects : (op : FleetOp n) → FleetRes op → Prop
  | .receive, received => received.isSome = true
  | .post first others, sent => sent.1 ∈ first :: others
  | _, _ => True

def fleetWatch (rounds : Nat) : Monitor (FleetOp n) FleetRes (FleetStage n) FleetResult where
  expects _ := FleetOp.expects
  guard := FleetStage.guard
  advance := FleetStage.advance
  accept := FleetStage.accept rounds

theorem serve_watched (notifier : cfg.notifier = true) (rounds : Nat) (r : PoliciesRequest) :
    (fleetWatch rounds : Monitor (FleetOp n) _ _ _).Accepts (.request .fresh) (serve cfg r) := by
  refine Monitor.accepts_image Errand.watch (fleetWatch rounds) FleetStage.request
    (fun _ op guarded => ⟨op, rfl, guarded⟩) (fun _ _ _ _ => trivial) (fun _ _ _ => rfl) ?_
    (policiesHandler_announces notifier true r)
  exact fun _ answer settled => ⟨settled, answer, rfl⟩

theorem agentLoop_watched (rounds syncRounds : Nat) (target : Fin n) :
    (fleetWatch rounds).Accepts (.loop target (.toFetch false)) (agentLoop syncRounds target) := by
  refine Monitor.accepts_image Agent.watch (fleetWatch rounds) (FleetStage.loop target)
    (fun _ op guarded => ⟨op, rfl, guarded⟩) (fun _ _ _ _ => trivial) (fun _ _ _ => rfl) ?_
    (startSyncLoop_watched syncRounds)
  exact fun _ result accepted => ⟨result, rfl, accepted⟩

theorem publish_watched (rounds : Nat) {took : Nat} {ended : FleetStage n → Option Unit → Prop}
    (after : ended (.worker took []) none) (left : Nat) (pending : List (Post n))
    (enough : pending.length = left) :
    ((fleetWatch rounds).returning ended).Accepts (.worker took pending)
      (publish left pending) := by
  induction left generalizing pending with
  | zero =>
      obtain rfl := List.eq_nil_of_length_eq_zero enough
      exact after
  | succ left ih =>
      cases pending with
      | nil => cases enough
      | cons first others =>
          refine ⟨rfl, fun sent member => ih _ ?_⟩
          rw [List.length_erase_of_mem member, enough, Nat.add_sub_cancel]

/-- Where a worker waits for an event, by the number of rounds left. -/
def Waiting (rounds left : Nat) (stage : FleetStage n) : Prop :=
  ∃ took, stage = .worker took [] ∧ took + left = rounds

theorem dispatchWorker_watched (rounds : Nat) :
    (fleetWatch rounds : Monitor (FleetOp n) _ _ _).Accepts (.worker 0 [])
      (dispatchWorker rounds) := by
  have looped : ((fleetWatch rounds : Monitor (FleetOp n) _ _ _).returning fun stage _ =>
      stage = .worker rounds []).Accepts (.worker 0 []) (dispatchRound.rounds rounds) := by
    refine Monitor.accepts_rounds_left (Waiting rounds) (fun left stage waiting => ?_)
      (fun stage waiting => ?_) rounds ⟨0, rfl, Nat.zero_add _⟩
    · obtain ⟨took, rfl, total⟩ := waiting
      refine ⟨rfl, fun received arrived => ?_⟩
      cases received with
      | none => cases arrived
      | some event =>
          refine publish_watched rounds ?_ n (posts n event) ?_
          · exact ⟨took + 1, rfl, by omega⟩
          · rw [posts, List.length_map, List.length_finRange]
    · obtain ⟨took, rfl, total⟩ := waiting
      exact congrArg (FleetStage.worker · []) total
  refine looped.bind fun stage left ended => ?_
  rw [ended]
  exact rfl

/-- The policy a successful call has written. -/
def FleetOp.written? : (op : FleetOp n) → FleetRes op → Option String
  | .policies op, answer => Adapter.ControlPlane.written? op answer
  | _, _ => none

/-- The policy a request to an agent names. -/
def FleetOp.sentTo? (target : Fin n) : (op : FleetOp n) → FleetRes op → Option String
  | .post _ _, sent => if sent.1.target = target then some sent.1.event.policyID else none
  | _, _ => none

/-- The policies written, in the order of the writes. -/
def written (history : FleetHistory n) : List String :=
  history.filterMap fun entry => entry.event.op.written? entry.event.result

/-- The policies an agent was sent, in the order of the requests. -/
def sentTo (target : Fin n) (history : FleetHistory n) : List String :=
  history.filterMap fun entry => entry.event.op.sentTo? target entry.event.result

/-- The policies that events name. -/
def named (events : List PolicyEvent) : Multiset String :=
  Multiset.ofList (events.map (·.policyID))

namespace FleetStage

def owed : FleetStage n → Multiset String
  | .request (.owes policyID) => {policyID}
  | _ => 0

def pendingTo (target : Fin n) : FleetStage n → Multiset String
  | .worker _ pending => named ((pending.filter fun post => post.target = target).map (·.event))
  | _ => 0

def took : FleetStage n → Nat
  | .worker took _ => took
  | _ => 0

def fresh : FleetStage n → Nat
  | .request .fresh => 1
  | _ => 0

end FleetStage

/-- What was written is still to be announced, found no room, waits, is being sent or was
sent. -/
structure Balanced (requests : Nat) (queue : Channel PolicyEvent) (dropped : List PolicyEvent)
    (written sent : List String) (owed pending : Multiset String) (took fresh : Nat) : Prop where
  flow : Multiset.ofList written =
    owed + named dropped + named queue.queue + pending + Multiset.ofList sent
  taken : owed.card + dropped.length + queue.queue.length + took = written.length
  unspent : written.length + fresh = requests
  capacity : queue.capacity = 256
  full : dropped ≠ [] → 256 < written.length

theorem named_snoc (events : List PolicyEvent) (event : PolicyEvent) :
    named (events ++ [event]) = named events + {event.policyID} := by
  rw [named, List.map_append, ← Multiset.coe_add]
  rfl

theorem named_cons (event : PolicyEvent) (events : List PolicyEvent) :
    named (event :: events) = {event.policyID} + named events := rfl

theorem pendingTo_posts (target : Fin n) (took : Nat) (event : PolicyEvent) :
    (FleetStage.worker took (posts n event)).pendingTo target = {event.policyID} := by
  have once : ((List.finRange n).filter fun other => other = target) = [target] := by
    rw [List.filter_eq, (List.nodup_finRange n).count, if_pos (List.mem_finRange target)]
    rfl
  have here : ((posts n event).filter fun post => post.target = target) = [⟨target, event⟩] := by
    rw [posts, List.filter_map]
    exact congrArg (List.map _) once
  rw [FleetStage.pendingTo, here]
  rfl

theorem pendingTo_erase {target : Fin n} {took : Nat} {pending : List (Post n)} {post : Post n}
    (member : post ∈ pending) :
    (FleetStage.worker took pending).pendingTo target =
      Multiset.ofList
          (if post.target = target then some post.event.policyID else none).toList +
        (FleetStage.worker took (pending.erase post)).pendingTo target := by
  have split := ((List.perm_cons_erase member).filter fun post => post.target = target).map
    (·.event.policyID)
  rw [List.filter_cons] at split
  simp only [FleetStage.pendingTo, named, List.map_map, Multiset.coe_add]
  refine Multiset.coe_eq_coe.mpr (split.trans (List.Perm.of_eq ?_))
  by_cases here : post.target = target
  · simp [here]
  · simp [here]

namespace Balanced

variable {requests : Nat} {queue : Channel PolicyEvent} {dropped : List PolicyEvent}
  {written sent : List String} {owed pending : Multiset String} {took fresh : Nat}

theorem write (policyID : String)
    (balanced : Balanced requests queue dropped written sent owed pending took (1 + fresh)) :
    Balanced requests queue dropped (written ++ [policyID]) sent
      ({policyID} + owed) pending took fresh where
  flow := by
    rw [← Multiset.coe_add, balanced.flow]
    change _ + {policyID} = _
    abel
  taken := by
    have taken := balanced.taken
    simp only [List.length_append, List.length_singleton, Multiset.card_add,
      Multiset.card_singleton] at taken ⊢
    omega
  unspent := by
    have unspent := balanced.unspent
    simp only [List.length_append, List.length_singleton] at unspent ⊢
    omega
  capacity := balanced.capacity
  full some := by
    have full := balanced.full some
    rw [List.length_append]
    omega

theorem announce {fleet : Fleet n} (some : n ≠ 0)
    (balanced : Balanced requests fleet.queue fleet.dropped written sent
      ({event.policyID} + owed) pending took fresh) :
    Balanced requests (fleet.enqueue event).queue (fleet.enqueue event).dropped written sent
      owed pending took fresh := by
  have flow := balanced.flow
  have taken := balanced.taken
  simp only [Multiset.card_add, Multiset.card_singleton] at taken
  rw [Fleet.enqueue, if_neg some]
  obtain ⟨after, sent, grown, capacity⟩ | ⟨refused, full⟩ := fleet.queue.trySend_cases event
  · rw [sent]
    refine ⟨?_, ?_, balanced.unspent, capacity.trans balanced.capacity, balanced.full⟩
    · rw [flow, grown, named_snoc]
      abel
    · simp only [grown, List.length_append, List.length_singleton]
      omega
  · rw [refused]
    have capacity := balanced.capacity
    refine ⟨?_, ?_, balanced.unspent, capacity, fun _ => ?_⟩
    · rw [flow, named_snoc]
      abel
    · simp only [List.length_append, List.length_singleton]
      omega
    · omega

theorem take {after : Channel PolicyEvent} (head : queue.queue = event :: after.queue)
    (capacity : after.capacity = queue.capacity)
    (balanced : Balanced requests queue dropped written sent owed pending took fresh) :
    Balanced requests after dropped written sent
      owed ({event.policyID} + pending) (took + 1) fresh where
  flow := by
    rw [balanced.flow, head, named_cons]
    abel
  taken := by
    have taken := balanced.taken
    rw [head, List.length_cons] at taken
    omega
  unspent := balanced.unspent
  capacity := capacity.trans balanced.capacity
  full := balanced.full

theorem send {now : List String}
    (balanced : Balanced requests queue dropped written sent
      owed (Multiset.ofList now + pending) took fresh) :
    Balanced requests queue dropped written (sent ++ now) owed pending took fresh where
  flow := by
    rw [balanced.flow, ← Multiset.coe_add]
    abel
  taken := balanced.taken
  unspent := balanced.unspent
  capacity := balanced.capacity
  full := balanced.full

theorem sent_le
    (balanced : Balanced requests queue dropped written sent owed pending took fresh) :
    Multiset.ofList sent + named queue.queue + named dropped ≤ Multiset.ofList written := by
  have split : owed + named dropped + named queue.queue + pending + Multiset.ofList sent =
      Multiset.ofList sent + named queue.queue + named dropped + (owed + pending) := by abel
  rw [balanced.flow, split]
  exact Multiset.le_add_right _ _

theorem request (some : n ≠ 0) {fleet : Fleet n} {errand : Errand} {op : PoliciesOp}
    (guarded : errand.guard op) (answer : PoliciesRes op)
    (balanced : Balanced requests fleet.queue fleet.dropped written sent
      ((FleetStage.request errand : FleetStage n).owed + owed) pending took
      ((FleetStage.request errand : FleetStage n).fresh + fresh)) :
    Balanced requests (fleet.announce op).queue (fleet.announce op).dropped
      (written ++ (written? op answer).toList) sent
      ((FleetStage.request (errand.advance op answer) : FleetStage n).owed + owed) pending took
      ((FleetStage.request (errand.advance op answer) : FleetStage n).fresh + fresh) := by
  cases errand with
  | fresh =>
      have silent : fleet.announce op = fleet := by rw [Fleet.announce, guarded]
      change Balanced _ _ _ _ _ (0 + owed) _ _ _ at balanced
      rw [zero_add] at balanced
      rw [silent, Errand.advance]
      cases written? op answer with
      | none =>
          change Balanced _ _ _ (written ++ []) _ (0 + owed) _ _ (1 + fresh)
          rwa [List.append_nil, zero_add]
      | some policyID =>
          change Balanced _ _ _ _ _ _ _ _ (0 + fresh)
          rw [zero_add]
          exact balanced.write policyID
  | owes policyID =>
      obtain ⟨action, rfl⟩ := guarded
      change Balanced _ _ _ (written ++ []) _ (0 + owed) _ _ (0 + fresh)
      change Balanced _ _ _ _ _ _ _ _ (0 + fresh) at balanced
      rw [zero_add] at balanced
      rw [List.append_nil, zero_add, zero_add]
      exact balanced.announce some
  | announced =>
      have silent : fleet.announce op = fleet := by rw [Fleet.announce, guarded.1]
      rw [silent, written?_eq_none guarded.2 answer, Option.toList_none, List.append_nil]
      exact balanced

end Balanced

theorem perform_expects (reading : FleetReading) {op : FleetOp n} {fleet : Fleet n}
    (ready : fleet.ready op) : op.expects (fleet.perform reading op).1 := by
  cases op with
  | receive =>
      obtain ⟨empty, _⟩ | ⟨event, rest, received, _⟩ := fleet.queue.tryReceive_cases
      · exact absurd empty ready
      · rw [Fleet.perform, received]
        rfl
  | post first others => exact getD_mem first others reading.pick
  | _ => trivial

theorem perform_post (reading : FleetReading) (first : Post n) (others : List (Post n))
    (fleet : Fleet n) :
    ∃ agents, (fleet.perform reading (.post first others)).2 = { fleet with agents } := by
  let sent := (first :: others).getD reading.pick first
  change ∃ agents, (if reading.served then fleet.deliver reading.agent sent else fleet) =
    { fleet with agents }
  split_ifs
  · exact ⟨_, rfl⟩
  · exact ⟨fleet.agents, rfl⟩

/-- What is held by all threads together. -/
def Conserved (target : Fin n) (requests threads : Nat) (fleet : Fleet n)
    (written sent : List String) (stages : Nat → FleetStage n) : Prop :=
  Balanced requests fleet.queue fleet.dropped written sent
    (gathered FleetStage.owed threads stages) (gathered (FleetStage.pendingTo target) threads stages)
    (gathered FleetStage.took threads stages) (gathered FleetStage.fresh threads stages)

namespace Conserved

variable {target : Fin n} {requests threads thread : Nat} {fleet after : Fleet n}
  {written written' sent sent' : List String} {stages : Nat → FleetStage n} {next : FleetStage n}
  (conserved : Conserved target requests threads fleet written sent stages)

include conserved

theorem move (inside : thread < threads)
    (balance : ∀ owed pending took fresh,
      Balanced requests fleet.queue fleet.dropped written sent ((stages thread).owed + owed)
        ((stages thread).pendingTo target + pending) ((stages thread).took + took)
        ((stages thread).fresh + fresh) →
      Balanced requests after.queue after.dropped written' sent' (next.owed + owed)
        (next.pendingTo target + pending) (next.took + took) (next.fresh + fresh)) :
    Conserved target requests threads after written' sent'
      (Function.update stages thread next) := by
  obtain ⟨owed, owedBefore, owedAfter⟩ := gathered_update FleetStage.owed inside stages
  obtain ⟨pending, pendingBefore, pendingAfter⟩ :=
    gathered_update (FleetStage.pendingTo target) inside stages
  obtain ⟨took, tookBefore, tookAfter⟩ := gathered_update FleetStage.took inside stages
  obtain ⟨fresh, freshBefore, freshAfter⟩ := gathered_update FleetStage.fresh inside stages
  rw [Conserved, owedBefore, pendingBefore, tookBefore, freshBefore] at conserved
  rw [Conserved, owedAfter, pendingAfter, tookAfter, freshAfter]
  exact balance owed pending took fresh conserved

theorem step (inside : thread < threads) (reading : FleetReading) {op : FleetOp n}
    (guarded : (stages thread).guard op) (ready : fleet.ready op) :
    Conserved target requests threads (fleet.perform reading op).2
      (written ++ (op.written? (fleet.perform reading op).1).toList)
      (sent ++ (op.sentTo? target (fleet.perform reading op).1).toList)
      (Function.update stages thread ((stages thread).advance op (fleet.perform reading op).1)) := by
  cases here : stages thread with
  | request errand =>
      rw [here] at guarded
      obtain ⟨inner, rfl, guarded⟩ := guarded
      refine conserved.move inside fun owed pending took fresh balanced => ?_
      rw [here] at balanced
      change Balanced _ _ _ _ (sent ++ []) _ _ _ _
      rw [List.append_nil]
      exact balanced.request (Nat.pos_iff_ne_zero.mp (Fin.pos target)) guarded _
  | worker count pending =>
      rw [here] at guarded
      cases pending with
      | nil =>
          cases guarded
          obtain ⟨empty, _⟩ | ⟨event, rest, received, head, capacity⟩ :=
            fleet.queue.tryReceive_cases
          · exact absurd empty ready
          · rw [Fleet.perform, received]
            refine conserved.move inside fun owed pending took fresh balanced => ?_
            rw [here] at balanced
            change Balanced _ _ _ _ _ _ (0 + pending) _ _ at balanced
            change Balanced _ _ _ (written ++ []) (sent ++ []) _ _ _ _
            rw [zero_add] at balanced
            have moved := balanced.take head capacity
            rw [Nat.add_right_comm] at moved
            rw [List.append_nil, List.append_nil, FleetStage.advance, pendingTo_posts]
            exact moved
      | cons first others =>
          cases guarded
          have member := getD_mem first others reading.pick
          obtain ⟨served, agents⟩ := perform_post reading first others fleet
          refine conserved.move inside fun owed pending took fresh balanced => ?_
          rw [here, pendingTo_erase member, add_assoc] at balanced
          change Balanced _ _ _ (written ++ []) _ _ _ _ _
          rw [List.append_nil, agents]
          exact balanced.send
  | loop agent stage =>
      rw [here] at guarded
      obtain ⟨inner, rfl, _⟩ := guarded
      refine conserved.move inside fun owed pending took fresh balanced => ?_
      rw [here] at balanced
      change Balanced _ _ _ (written ++ []) (sent ++ []) _ _ _ _
      rw [List.append_nil, List.append_nil]
      exact balanced

end Conserved

def Role.stage : Role n → FleetStage n
  | .request _ => .request .fresh
  | .worker => .worker 0 []
  | .loop target => .loop target (.toFetch false)

/-- Where every thread starts. -/
def initially (n : Nat) (requests : List PoliciesRequest) (thread : Nat) : FleetStage n :=
  ((roles n requests)[thread]?).elim (.request .announced) Role.stage

theorem initially_eq {role : Role n} (found : (roles n requests)[thread]? = some role) :
    initially n requests thread = role.stage := by
  rw [initially, found]
  rfl

theorem gathered_initially {M : Type} [AddCommMonoid M] (view : FleetStage n → M)
    (requests : List PoliciesRequest) (working : view (.worker 0 []) = 0)
    (looping : ∀ target, view (.loop target (.toFetch false)) = 0) :
    gathered view (roles n requests).length (initially n requests) =
      requests.length • view (.request .fresh) := by
  have located : ∀ (thread : Nat) stage, ((roles n requests).map Role.stage)[thread]? = some stage →
      initially n requests thread = stage := by
    intro thread stage found
    rw [List.getElem?_map] at found
    obtain ⟨role, located, rfl⟩ := Option.map_eq_some_iff.mp found
    exact initially_eq located
  have same := gathered_list view _ located
  rw [List.length_map] at same
  rw [same]
  simp [roles, List.map_append, Function.comp_def, Role.stage, working, looping]

theorem conserved_start (target : Fin n) (requests : List PoliciesRequest) (file : PolicyFile) :
    Conserved target requests.length (roles n requests).length { file } [] []
      (initially n requests) := by
  rw [Conserved, gathered_initially FleetStage.owed requests rfl fun _ => rfl,
    gathered_initially (FleetStage.pendingTo target) requests rfl fun _ => rfl,
    gathered_initially FleetStage.took requests rfl fun _ => rfl,
    gathered_initially FleetStage.fresh requests rfl fun _ => rfl]
  have none : requests.length • (0 : Multiset String) = 0 := nsmul_zero _
  refine ⟨?_, ?_, ?_, rfl, nofun⟩
  · change _ = requests.length • (0 : Multiset String) + _ + _ + requests.length • 0 + _
    rw [none]
    rfl
  · change (requests.length • (0 : Multiset String)).card + _ + _ + requests.length • 0 = _
    rw [none]
    rfl
  · exact (Nat.zero_add _).trans (Nat.mul_one _)

/-- The stages of the threads in a run. -/
def stagesOf (requests : List PoliciesRequest) (history : FleetHistory n) : Nat → FleetStage n :=
  Pool.stages (fun _ => fleetWatch (requests.length + 1)) (initially n requests) history

theorem begin_followed (notifier : cfg.notifier = true) (requests : List PoliciesRequest)
    (syncRounds : Nat) (file : PolicyFile) :
    (FleetPool.begin n cfg requests syncRounds file).Followed
      (fun _ => fleetWatch (requests.length + 1)) (initially n requests) := by
  refine Pool.followed_start fun thread program found => ?_
  rw [List.getElem?_map] at found
  obtain ⟨role, located, rfl⟩ := Option.map_eq_some_iff.mp found
  rw [initially_eq located]
  cases role with
  | request r => exact serve_watched notifier _ r
  | worker => exact dispatchWorker_watched _
  | loop target => exact agentLoop_watched _ syncRounds target

/-- A server and its agents at work on some requests. -/
structure AtWork (requests : List PoliciesRequest) (pool : FleetPool n) : Prop where
  followed : pool.Followed (fun _ => fleetWatch (requests.length + 1)) (initially n requests)
  conserved : ∀ target, Conserved target requests.length (roles n requests).length pool.state
    (written pool.history) (sentTo target pool.history) (stagesOf requests pool.history)
  size : pool.threads.length = (roles n requests).length

theorem AtWork.accepted {pool : FleetPool n} (work : AtWork requests pool)
    {program : FleetSteps n FleetResult} (located : pool.threads[thread]? = some program) :
    (fleetWatch (requests.length + 1)).Accepts (stagesOf requests pool.history thread) program :=
  work.followed thread program located

theorem run_atWork (notifier : cfg.notifier = true) (requests : List PoliciesRequest)
    (syncRounds : Nat) (file : PolicyFile) (schedule : List (Nat × FleetReading))
    (legal : (FleetPool.begin n cfg requests syncRounds file).Legal schedule) :
    AtWork requests
      ((FleetPool.begin n cfg requests syncRounds file).run Fleet.perform schedule) := by
  obtain ⟨followed, conserved⟩ := Pool.run_invariant Fleet.perform
    (fun _ => fleetWatch (requests.length + 1)) (initially n requests)
    (fun fleet history => ∀ target, Conserved target requests.length (roles n requests).length
      fleet (written history) (sentTo target history) (stagesOf requests history))
    (fun fleet history thread reading op inside conserved ready guarded => by
      refine ⟨perform_expects reading ready, fun target => ?_⟩
      rw [stagesOf, Pool.stages_snoc, written, sentTo, filterMap_snoc, filterMap_snoc]
      exact (conserved target).step inside reading guarded ready)
    schedule _ (List.length_map _) (begin_followed notifier requests syncRounds file)
    (fun target => conserved_start target requests file) legal
  exact ⟨followed, conserved,
    (Pool.run_threads_length Fleet.perform schedule _).trans (List.length_map _)⟩

/-- What a thread is, which no operation changes. -/
inductive Kind (n : Nat) where
  | request
  | worker
  | loop (target : Fin n)

def FleetStage.kind : FleetStage n → Kind n
  | .request _ => .request
  | .worker _ _ => .worker
  | .loop target _ => .loop target

theorem FleetStage.kind_advance (stage : FleetStage n) (op : FleetOp n) (answer : FleetRes op) :
    (stage.advance op answer).kind = stage.kind := by
  unfold FleetStage.advance
  split <;> rfl

theorem kind_stagesOf {role : Role n} (found : (roles n requests)[thread]? = some role)
    (history : FleetHistory n) :
    (stagesOf requests history thread).kind = role.stage.kind := by
  rw [← initially_eq found]
  exact Monitor.follow_kept _ FleetStage.kind FleetStage.kind_advance _ _

/-- A request is answered, a worker of the dispatcher waits for an event. -/
def Role.idle : Role n → FleetSteps n FleetResult → Bool
  | .request _, .done (.answer _) => true
  | .worker, .call .receive _ => true
  | .loop _, _ => true
  | _, _ => false

/-- The server has nothing to do, and no event waits in the queue. -/
def Idle (requests : List PoliciesRequest) (pool : FleetPool n) : Prop :=
  (∀ thread ∈ (roles n requests).zip pool.threads, thread.1.idle thread.2 = true) ∧
    pool.state.queue.queue = []

instance Idle.decide (requests : List PoliciesRequest) (pool : FleetPool n) :
    Decidable (Idle requests pool) :=
  inferInstanceAs (Decidable (_ ∧ _))

section Runs

variable {requests : List PoliciesRequest} {pool : FleetPool n}

theorem mem_threads {role : Role n} {program : FleetSteps n FleetResult} :
    (role, program) ∈ (roles n requests).zip pool.threads ↔
      ∃ thread : Nat, (roles n requests)[thread]? = some role ∧
        pool.threads[thread]? = some program := by
  rw [List.mem_iff_getElem?]
  exact exists_congr fun thread => List.getElem?_zip_eq_some

section

variable (work : AtWork requests pool)

include work

theorem AtWork.idle_stage (idle : Idle requests pool) {role : Role n}
    {program : FleetSteps n FleetResult} (found : (roles n requests)[thread]? = some role)
    (located : pool.threads[thread]? = some program) (target : Fin n) :
    (stagesOf requests pool.history thread).owed = 0 ∧
      (stagesOf requests pool.history thread).pendingTo target = 0 := by
  have kind := kind_stagesOf found pool.history
  have rests : role.idle program = true := idle.1 _ (mem_threads.mpr ⟨thread, found, located⟩)
  have accepted := work.accepted located
  cases here : stagesOf requests pool.history thread with
  | request errand =>
      rw [here] at kind accepted
      cases errand with
      | owes policyID =>
          cases role with
          | request r =>
              cases program with
              | done result => cases accepted.1
              | call op next => cases rests
          | _ => cases kind
      | _ => exact ⟨rfl, rfl⟩
  | worker took pending =>
      rw [here] at kind accepted
      cases pending with
      | nil => exact ⟨rfl, rfl⟩
      | cons first others =>
          cases role with
          | worker =>
              cases program with
              | done result => cases accepted
              | call op next =>
                  obtain rfl := accepted.1
                  cases rests
          | _ => cases kind
  | _ => exact ⟨rfl, rfl⟩

theorem AtWork.gathered_idle {M : Type} [AddCommMonoid M] {view : FleetStage n → M}
    (none : ∀ (thread : Nat) role program, (roles n requests)[thread]? = some role →
      pool.threads[thread]? = some program →
      view (stagesOf requests pool.history thread) = 0) :
    gathered view (roles n requests).length (stagesOf requests pool.history) = 0 := by
  refine Finset.sum_eq_zero fun thread inside => ?_
  have inside := Finset.mem_range.mp inside
  exact none thread _ _ (List.getElem?_eq_getElem inside)
    (List.getElem?_eq_getElem (work.size.symm ▸ inside))

theorem AtWork.request_proceeds {r : PoliciesRequest} {program : FleetSteps n FleetResult}
    (found : (roles n requests)[thread]? = some (.request r))
    (here : pool.threads[thread]? = some program) :
    (∃ answer, program = .done (.answer answer)) ∨
      ∃ op next, program = .call op next ∧ pool.state.ready op := by
  have kind := kind_stagesOf found pool.history
  have accepted := work.accepted here
  cases stage : stagesOf requests pool.history thread with
  | request errand =>
      rw [stage] at accepted
      cases program with
      | done result =>
          obtain ⟨_, answer, rfl⟩ := accepted
          exact .inl ⟨answer, rfl⟩
      | call op next =>
          obtain ⟨inner, rfl, _⟩ := accepted.1
          exact .inr ⟨_, next, rfl, trivial⟩
  | _ =>
      rw [stage] at kind
      cases kind

/-- A worker of the dispatcher waits for an event or goes on; it is never cut off. -/
theorem AtWork.worker_proceeds (target : Fin n) {program : FleetSteps n FleetResult}
    (found : (roles n requests)[thread]? = some .worker)
    (here : pool.threads[thread]? = some program) :
    ∃ op next, program = .call op next ∧ (op = .receive ∨ pool.state.ready op) := by
  have kind := kind_stagesOf found pool.history
  have accepted := work.accepted here
  have inside := (List.getElem?_eq_some_iff.mp found).1
  obtain ⟨others, total, _⟩ :=
    gathered_update FleetStage.took inside (stagesOf requests pool.history)
  have taken := (work.conserved target).taken
  have unspent := (work.conserved target).unspent
  cases stage : stagesOf requests pool.history thread with
  | worker took pending =>
      rw [stage] at accepted total
      change _ = took + others at total
      cases pending with
      | nil =>
          cases program with
          | done result =>
              have most : took = requests.length + 1 := accepted
              omega
          | call op next => exact ⟨op, next, rfl, .inl accepted.1⟩
      | cons first rest =>
          cases program with
          | done result => cases accepted
          | call op next =>
              obtain rfl := accepted.1
              exact ⟨_, next, rfl, .inr trivial⟩
  | _ =>
      rw [stage] at kind
      cases kind

/-- A server that is not idle has a thread that can go on. -/
theorem AtWork.exists_proceeding (target : Fin n) (busy : ¬Idle requests pool) :
    ∃ (thread : Nat) (op : FleetOp n) (next : FleetRes op → FleetSteps n FleetResult),
      pool.threads[thread]? = some (.call op next) ∧ pool.state.ready op := by
  by_contra stuck
  have still : ∀ {thread : Nat} {op : FleetOp n} {next : FleetRes op → FleetSteps n FleetResult},
      pool.threads[thread]? = some (.call op next) → ¬pool.state.ready op := fun here ready =>
    stuck ⟨_, _, _, here, ready⟩
  refine busy ⟨fun thread member => ?_, ?_⟩
  · obtain ⟨role, program⟩ := thread
    obtain ⟨thread, found, here⟩ := mem_threads.mp member
    cases role with
    | request r =>
        obtain ⟨answer, rfl⟩ | ⟨op, next, rfl, ready⟩ := work.request_proceeds found here
        · rfl
        · exact absurd ready (still here)
    | worker =>
        obtain ⟨op, next, rfl, rfl | ready⟩ := work.worker_proceeds target found here
        · rfl
        · exact absurd ready (still here)
    | loop other => rfl
  · by_contra some
    -- There is a worker, and it can take what is in the queue.
    have employed : 0 < min n 4 := Nat.lt_min.mpr ⟨Fin.pos target, by decide⟩
    have first : (roles n requests)[requests.length]? = Option.some .worker := by
      rw [roles, List.append_assoc, List.getElem?_append_right (by rw [List.length_map]),
        List.length_map, Nat.sub_self, List.getElem?_append_left (by simpa using employed),
        List.getElem?_replicate, if_pos employed]
    have inside := work.size.symm ▸ (List.getElem?_eq_some_iff.mp first).1
    have here := List.getElem?_eq_getElem inside
    obtain ⟨op, next, same, rfl | ready⟩ := work.worker_proceeds target first here
    · exact still (here.trans (congrArg Option.some same)) some
    · exact still (here.trans (congrArg Option.some same)) ready

end

end Runs

instance Fleet.decideReady (fleet : Fleet n) (op : FleetOp n) : Decidable (fleet.ready op) := by
  cases op <;> unfold Fleet.ready <;> infer_instance

instance FleetPool.decideLegal (pool : FleetPool n) (schedule : List (Nat × FleetReading)) :
    Decidable (pool.Legal schedule) :=
  inferInstanceAs (Decidable (pool.Along Fleet.perform (fun fleet _ _ _ op => fleet.ready op)
    schedule))

/-- Every call succeeds and every request gets through. -/
def calm : FleetReading where
  setting := { stamps := ⟨⟨0, utc⟩, ⟨0, utc⟩, ⟨0, utc⟩⟩ }
  pick := 0
  served := true
  agent := { branch := .tick, fetched := .failed "", now := 0 }

def putBurst : PoliciesRequest where
  method := "PUT"
  path := "/rlaas/v1/policies/burst"
  body := { policy := some {} }

private def putting : FleetPool 1 := FleetPool.begin 1 {} [putBurst] 0 .missing

private def putSchedule : List (Nat × FleetReading) :=
  [(0, calm), (0, calm), (0, calm), (1, calm), (1, calm)]

section Announcements

variable {cfg : HandlerConfig} {requests : List PoliciesRequest} {syncRounds : Nat}
  {file : PolicyFile} {schedule : List (Nat × FleetReading)}

/-- In every run, what an agent was sent, what waits for it in the queue and what found no
room there has been written, each once; no event finds the queue full before 256 others are
written; and when the server is idle, every change was sent to the agent or found no room. -/
theorem changes_announced_once (notifier : cfg.notifier = true)
    (legal : (FleetPool.begin n cfg requests syncRounds file).Legal schedule) (target : Fin n) :
    let final := (FleetPool.begin n cfg requests syncRounds file).run Fleet.perform schedule
    Multiset.ofList (sentTo target final.history) + named final.state.queue.queue +
        named final.state.dropped ≤ Multiset.ofList (written final.history) ∧
      (final.state.dropped ≠ [] → 256 < (written final.history).length) ∧
      (Idle requests final →
        Multiset.ofList (sentTo target final.history) + named final.state.dropped =
          Multiset.ofList (written final.history)) := by
  intro final
  have work := run_atWork notifier requests syncRounds file schedule legal
  have conserved := work.conserved target
  refine ⟨conserved.sent_le, conserved.full, fun idle => ?_⟩
  have flow := conserved.flow
  rw [work.gathered_idle fun _ _ _ found here => (work.idle_stage idle found here target).1,
    work.gathered_idle fun _ _ _ found here => (work.idle_stage idle found here target).2,
    idle.2] at flow
  rw [flow]
  change _ = 0 + _ + 0 + 0 + _
  abel

/-- A policy is put, announced and sent to the only agent. -/
theorem changes_announced_once_put :
    let final := putting.run Fleet.perform putSchedule
    sentTo 0 final.history = ["burst"] ∧
      Multiset.ofList (sentTo 0 final.history) + named final.state.dropped =
        Multiset.ofList (written final.history) :=
  ⟨by decide +kernel,
    (changes_announced_once rfl (by decide +kernel) 0).2.2 (by decide +kernel)⟩

/-- Every run can go on until the server is idle, whatever the outside does. -/
theorem dispatcher_drains (notifier : cfg.notifier = true)
    (legal : (FleetPool.begin n cfg requests syncRounds file).Legal schedule) (target : Fin n)
    (reading : FleetReading) :
    ∃ rest, (FleetPool.begin n cfg requests syncRounds file).Legal (schedule ++ rest) ∧
      Idle requests ((FleetPool.begin n cfg requests syncRounds file).run Fleet.perform
        (schedule ++ rest)) := by
  obtain ⟨rest, along, idle⟩ := Pool.exists_reached_of_enabled id (Idle requests) _
    (fun reached legal busy => by
      have work := run_atWork notifier requests syncRounds file reached legal
      obtain ⟨thread, op, next, found, ready⟩ := work.exists_proceeding target busy
      exact ⟨thread, reading, op, next, found, ready⟩)
    legal
  exact ⟨rest, legal.append along, idle⟩

/-- The run may be left right after the policy is written. -/
theorem dispatcher_drains_put :
    written (putting.run Fleet.perform [(0, calm)]).history = ["burst"] ∧
      ∃ rest, putting.Legal ([(0, calm)] ++ rest) ∧
        Idle [putBurst] (putting.run Fleet.perform ([(0, calm)] ++ rest)) :=
  ⟨by decide +kernel, dispatcher_drains rfl (by decide +kernel) 0 calm⟩

end Announcements

end Rlaas.Server
