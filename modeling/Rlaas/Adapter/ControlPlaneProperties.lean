import Rlaas.Adapter.ControlPlane
import Rlaas.Store.FilePolicyProperties

/-! Concurrent updates and rollouts of one policy: the interleavings whose outcome
is that of the whole requests in some order, and the one in which a rollout
writes back a policy from before an update. -/

set_option autoImplicit false

namespace Rlaas.Adapter.ControlPlane

open Go Model Store Effect

variable {file : PolicyFile} {payload : Payload} {p : Policy}

/-- The policy found under an identifier. -/
def stored (id : String) (file : PolicyFile) : Option Policy := (file.getPolicyByID {} id).toOption

/-- A policy without its rollout percentage. -/
def base (p : Policy) : Policy := { p with rolloutPercent := 0 }

def withRollout (percent : Int) (p : Policy) : Policy := { p with rolloutPercent := percent }

theorem withRollout_eq_of_base {p q : Policy} (same : base p = base q) (percent : Int) :
    withRollout percent p = withRollout percent q := by
  have equal := congrArg (withRollout percent) same
  exact equal

inductive Intent where
  | write (p : Policy)
  | adjust (percent : Int)
  | nothing

/-- What a request is going to do to the store. -/
def Request.intent (id : String) : Request → Intent
  | .put (some p) => if id = "" then .nothing else .write { p with policyID := id }
  | .rollout (some percent) =>
      if id = "" ∨ percent < 0 ∨ percent > 100 then .nothing else .adjust percent
  | _ => .nothing

/-- The policies the updates among the requests write. -/
def puts (id : String) (requests : List Request) : List Policy :=
  requests.filterMap fun request =>
    match request.intent id with
    | .write p => some p
    | _ => none

section Store

variable {id : String} {file : PolicyFile} {payload : Payload}

theorem stored_of_contents (readable : file.contents = .ok payload) :
    stored id file = payload.lookup id := by
  unfold stored PolicyFile.getPolicyByID
  simp only [readPayload_clean, readable, bind, Except.bind, getPolicyByID_eq]
  cases payload.lookup id <;> rfl

theorem policyID_of_stored (found : stored id file = some p) : p.policyID = id := by
  cases readable : file.contents with
  | error message =>
      simp [stored, PolicyFile.getPolicyByID, readPayload_clean, readable, bind, Except.bind,
        Except.toOption] at found
  | ok payload =>
      rw [stored_of_contents readable] at found
      simpa using List.find?_some found

theorem upsert_stored (named : p.policyID = id) (readable : file.contents = .ok payload)
    (stamps : Stamps) :
    (file.upsertPolicy {} stamps p).1 = .ok () ∧ stored id (file.upsertPolicy {} stamps p).2 = some p ∧
      ∃ payload', (file.upsertPolicy {} stamps p).2.contents = .ok payload' := by
  have written : file.upsertPolicy {} stamps p =
      (.ok (), .envelope ((StoreCall.upsert p).change stamps payload)) := by
    simp only [PolicyFile.upsertPolicy, PolicyFile.modify, readPayload_clean, readable]
    rfl
  rw [written]
  refine ⟨rfl, ?_, _, rfl⟩
  rw [stored_of_contents rfl, ← named]
  exact change_lookup_self stamps (.upsert p) payload

end Store

/-- The handler of a request, by its intent. -/
inductive Behaves (cfg : HandlerConfig) (id : String) : Intent → Handler → Prop where
  | write {p : Policy} : p.policyID = id →
      Behaves cfg id (.write p) (store cfg p "update" "policy_update")
  | adjust {percent : Int} : Behaves cfg id (.adjust percent)
      (.call (.getPolicyByID id) fun found =>
        match found with
        | .error _ => .done (.error "policy not found" 404)
        | .ok p => store cfg (withRollout percent p) "rollout_update" "policy_rollout_update")
  | nothing {reply : Reply} : Behaves cfg id .nothing (.done reply)

theorem handler_behaves (cfg : HandlerConfig) (id : String) (request : Request) :
    Behaves cfg id (request.intent id) (request.handler cfg id) := by
  by_cases unnamed : id = ""
  · cases request with
    | put body => cases body <;> simpa [Request.intent, Request.handler, update, unnamed] using .nothing
    | rollout body =>
        cases body <;> simpa [Request.intent, Request.handler, rollout, unnamed] using .nothing
  · cases request with
    | put body =>
        cases body with
        | none => simpa [Request.intent, Request.handler, update, unnamed] using .nothing
        | some p => simpa [Request.intent, Request.handler, update, unnamed] using .write rfl
    | rollout body =>
        cases body with
        | none => simpa [Request.intent, Request.handler, rollout, unnamed] using .nothing
        | some percent =>
            by_cases invalid : percent < 0 ∨ percent > 100
            · simpa [Request.intent, Request.handler, rollout, unnamed, invalid] using .nothing
            · simpa [Request.intent, Request.handler, rollout, unnamed, invalid] using .adjust

section Serial

variable (cfg : HandlerConfig) (id : String)

/-- The effect of a whole request on the stored policy. -/
def Intent.apply : Intent → Option Policy → Option Policy
  | .write p, _ => some p
  | .adjust percent, found => found.map (withRollout percent)
  | .nothing, found => found

/-- The stored policy after whole requests one after another. -/
def serially (found : Option Policy) (order : List Request) : Option Policy :=
  order.foldl (fun found request => (request.intent id).apply found) found

theorem notify_exec (policyID action event : String) (reply : Reply) (clock : Nat → Stamps)
    (file : PolicyFile) :
    ((notify cfg policyID action event reply).exec perform clock file).2 = file := by
  obtain ⟨notifier, analytics⟩ := cfg
  cases notifier <;> cases analytics <;> rfl

theorem store_exec (named : p.policyID = id) (readable : file.contents = .ok payload)
    (action event : String) (clock : Nat → Stamps) :
    stored id ((store cfg p action event).exec perform clock file).2 = some p ∧
      ∃ payload', ((store cfg p action event).exec perform clock file).2.contents = .ok payload' := by
  obtain ⟨answered, written, readable'⟩ := upsert_stored named readable (clock 0)
  have continued : ((store cfg p action event).exec perform clock file).2 =
      (file.upsertPolicy {} (clock 0) p).2 := by
    rw [store, Program.exec_call]
    simp only [perform, answered, notify_exec]
  rw [continued]
  exact ⟨written, readable'⟩

theorem handler_exec (request : Request) (readable : file.contents = .ok payload)
    (clock : Nat → Stamps) :
    stored id ((request.handler cfg id).exec perform clock file).2 =
        (request.intent id).apply (stored id file) ∧
      ∃ payload', ((request.handler cfg id).exec perform clock file).2.contents = .ok payload' := by
  have behaves := handler_behaves cfg id request
  generalize request.intent id = intent at behaves
  generalize request.handler cfg id = handler at behaves
  cases behaves with
  | write named => exact store_exec cfg id named readable _ _ clock
  | nothing => exact ⟨rfl, payload, readable⟩
  | @adjust percent =>
      rw [Program.exec_call]
      cases found : file.getPolicyByID {} id with
      | error message =>
          simp only [perform, found]
          refine ⟨?_, payload, readable⟩
          simp [stored, found, Intent.apply, Except.toOption]
      | ok p =>
          simp only [perform, found]
          have located : stored id file = some p := by simp [stored, found, Except.toOption]
          rw [located]
          have named : p.policyID = id := policyID_of_stored located
          exact store_exec (p := withRollout percent p) cfg id named readable _ _ _

theorem oneByOne_stored (stamps : Stamps) (order : List Request)
    (readable : file.contents = .ok payload) :
    stored id (oneByOne cfg id stamps order file) = serially id (stored id file) order := by
  induction order generalizing file payload with
  | nil => rfl
  | cons request rest ih =>
      obtain ⟨effect, payload', readable'⟩ := handler_exec cfg id request readable fun _ => stamps
      rw [serially, List.foldl_cons, ← effect]
      exact ih readable'

/-- Whole requests leave the policy of an update among them, if there is one,
up to its rollout percentage. -/
theorem serially_base (order : List Request) (found : Option Policy) :
    (∃ p ∈ puts id order, (serially id found order).map base = some (base p)) ∨
      (puts id order = [] ∧ (serially id found order).map base = found.map base) := by
  induction order generalizing found with
  | nil => exact .inr ⟨rfl, rfl⟩
  | cons request rest ih =>
      rw [serially, List.foldl_cons]
      rcases ih ((request.intent id).apply found) with ⟨p, member, ends⟩ | ⟨none, ends⟩
      · refine .inl ⟨p, ?_, ends⟩
        unfold puts at member ⊢
        cases written : request.intent id <;> simp [written, member]
      · cases intent : request.intent id with
        | write p =>
            rw [intent] at ends
            exact .inl ⟨p, by simp [puts, intent], ends⟩
        | adjust percent =>
            rw [intent] at ends
            refine .inr ⟨by simpa [puts, intent] using none, ends.trans ?_⟩
            cases found <;> rfl
        | nothing =>
            rw [intent] at ends
            exact .inr ⟨by simpa [puts, intent] using none, ends⟩

end Serial

section Interleaving

variable {id : String} {requests : List Request} {request : Request} {intent : Intent}
variable {initial : Option Policy} {thread : Nat} {cfg : HandlerConfig}

abbrev Log := List (Entry PlaneOp PlaneRes Stamps)

/-- How far a request has got. -/
inductive Phase where
  | fresh
  | read (found : Option Policy)
  | wrote

def Phase.advance (phase : Phase) : (op : PlaneOp) → PlaneRes op → Phase
  | .getPolicyByID _, found => .read found.toOption
  | .upsertPolicy _, _ => .wrote
  | .publish .., _ => phase
  | .record .., _ => phase

/-- Where the stored policy comes from: `derived` says that an update wrote it, or
a rollout that had read a policy so derived; `seen` is its value at each read. -/
structure Origin where
  derived : Bool := false
  seen : Nat → Bool := fun _ => false

def Origin.advance (requests : List Request) (origin : Origin)
    (entry : Entry PlaneOp PlaneRes Stamps) : Origin :=
  match entry.event.op with
  | .getPolicyByID _ =>
      { origin with seen := Function.update origin.seen entry.thread origin.derived }
  | .upsertPolicy _ =>
      match requests[entry.thread]? with
      | some (.put _) => { origin with derived := true }
      | _ => { origin with derived := origin.seen entry.thread }
  | _ => origin

def originOf (requests : List Request) (log : Log) : Origin :=
  log.foldl (Origin.advance requests) {}

def phaseOf (log : Log) (thread : Nat) : Phase :=
  (own log thread).foldl (fun phase event => phase.advance event.op event.result) .fresh

def lastWriter (log : Log) : Option Nat :=
  log.foldl (fun writer entry =>
    match entry.event.op with
    | .upsertPolicy _ => some entry.thread
    | _ => writer) none

def progress (id : String) (intent : Intent) : Monitor PlaneOp PlaneRes Phase Reply where
  expects _ op answer :=
    match op, answer with
    | .upsertPolicy _, result => result = .ok ()
    | _, _ => True
  guard phase op :=
    match intent, phase, op with
    | .write p, .fresh, .upsertPolicy q => q = p
    | .adjust _, .fresh, .getPolicyByID policyID => policyID = id
    | .adjust percent, .read (some p), .upsertPolicy q => q = withRollout percent p
    | _, .wrote, .publish .. => True
    | _, .wrote, .record .. => True
    | _, _, _ => False
  advance := Phase.advance
  accept phase _ :=
    match intent with
    | .write _ => phase = .wrote
    | .adjust _ => phase = .wrote ∨ phase = .read none
    | .nothing => True

theorem notify_accepts {id policyID action event : String} {reply : Reply}
    (ended : (progress id intent).accept .wrote reply) :
    (progress id intent).Accepts .wrote (notify cfg policyID action event reply) := by
  obtain ⟨notifier, analytics⟩ := cfg
  have allowed : ∀ op, (∃ policyID action, op = .publish policyID action) ∨
      (∃ event policyID, op = .record event policyID) → (progress id intent).guard .wrote op := by
    rintro op (⟨policyID, action, rfl⟩ | ⟨event, policyID, rfl⟩) <;> cases intent <;> trivial
  cases notifier with
  | true =>
      refine ⟨allowed _ (.inl ⟨policyID, action, rfl⟩), fun _ _ => ?_⟩
      cases analytics with
      | true => exact ⟨allowed _ (.inr ⟨event, policyID, rfl⟩), fun _ _ => ended⟩
      | false => exact ended
  | false =>
      cases analytics with
      | true => exact ⟨allowed _ (.inr ⟨event, policyID, rfl⟩), fun _ _ => ended⟩
      | false => exact ended

theorem store_accepts {id action event : String} {phase : Phase}
    (guarded : (progress id intent).guard phase (.upsertPolicy p))
    (ended : ∀ reply, (progress id intent).accept .wrote reply) :
    (progress id intent).Accepts phase (store cfg p action event) := by
  refine ⟨guarded, fun answer expected => ?_⟩
  cases answer with
  | error message => cases expected
  | ok _ => exact notify_accepts (ended _)

theorem handler_accepts (cfg : HandlerConfig) (id : String) (request : Request) :
    (progress id (request.intent id)).Accepts .fresh (request.handler cfg id) := by
  have behaves := handler_behaves cfg id request
  generalize request.intent id = intent at behaves
  generalize request.handler cfg id = handler at behaves
  cases behaves with
  | write named => exact store_accepts rfl fun _ => rfl
  | nothing => trivial
  | adjust =>
      refine ⟨rfl, fun found _ => ?_⟩
      cases found with
      | error message => exact .inr rfl
      | ok p => exact store_accepts rfl fun _ => .inl rfl

/-- What a request may do next. -/
inductive Allowed (id : String) : Intent → Phase → PlaneOp → Prop where
  | write {p : Policy} : Allowed id (.write p) .fresh (.upsertPolicy p)
  | read {percent : Int} : Allowed id (.adjust percent) .fresh (.getPolicyByID id)
  | adjust {percent : Int} {p : Policy} :
      Allowed id (.adjust percent) (.read (some p)) (.upsertPolicy (withRollout percent p))
  | publish {intent : Intent} {policyID action : String} :
      Allowed id intent .wrote (.publish policyID action)
  | record {intent : Intent} {event policyID : String} :
      Allowed id intent .wrote (.record event policyID)

theorem allowed_of_guard {phase : Phase} {op : PlaneOp}
    (guarded : (progress id intent).guard phase op) : Allowed id intent phase op := by
  simp only [progress] at guarded
  split at guarded
  · exact guarded ▸ .write
  · exact guarded ▸ .read
  · exact guarded ▸ .adjust
  · exact .publish
  · exact .record
  · exact guarded.elim

section Snoc

variable (requests : List Request) (log : Log) (entry : Entry PlaneOp PlaneRes Stamps)

theorem originOf_snoc : originOf requests (log ++ [entry]) =
    (originOf requests log).advance requests entry := by
  simp [originOf, List.foldl_append]

theorem phaseOf_snoc : phaseOf (log ++ [entry]) = Function.update (phaseOf log) entry.thread
    ((phaseOf log entry.thread).advance entry.event.op entry.event.result) :=
  foldl_own_snoc (fun _ (phase : Phase) event => phase.advance event.op event.result)
    (fun _ => .fresh) log entry.thread entry.time entry.event

theorem phaseOf_snoc_cases {phase : Phase} (reached : phaseOf (log ++ [entry]) thread = phase) :
    (thread = entry.thread ∧
        (phaseOf log entry.thread).advance entry.event.op entry.event.result = phase) ∨
      (thread ≠ entry.thread ∧ phaseOf log thread = phase) := by
  rw [phaseOf_snoc] at reached
  exact update_cases reached

theorem lastWriter_snoc : lastWriter (log ++ [entry]) =
    match entry.event.op with
    | .upsertPolicy _ => some entry.thread
    | _ => lastWriter log := by
  simp only [lastWriter, List.foldl_append, List.foldl_cons, List.foldl_nil]

end Snoc

/-- The entry of a call performed on a file. -/
abbrev performed (thread : Nat) (stamps : Stamps) (op : PlaneOp) (file : PolicyFile) :
    Entry PlaneOp PlaneRes Stamps :=
  ⟨thread, stamps, ⟨op, (perform stamps op file).1⟩⟩

/-- The policy has the fields of the initial one, or of one an update writes. -/
def Comes (id : String) (requests : List Request) (initial : Option Policy) (derived : Bool)
    (p : Policy) : Prop :=
  if derived then ∃ q ∈ puts id requests, base p = base q else initial.map base = some (base p)

/-- What is known while the requests are in progress. -/
structure Tracked (id : String) (requests : List Request) (initial : Option Policy)
    (file : PolicyFile) (log : Log) : Prop where
  readable : ∃ payload, file.contents = .ok payload
  present : stored id file = none → initial = none
  current : ∀ p, stored id file = some p →
    Comes id requests initial (originOf requests log).derived p
  reads : ∀ thread p, phaseOf log thread = .read (some p) →
    p.policyID = id ∧ Comes id requests initial ((originOf requests log).seen thread) p
  missing : ∀ thread, phaseOf log thread = .read none → initial = none
  unwritten : lastWriter log = none →
    stored id file = initial ∧ ∀ thread, phaseOf log thread ≠ .wrote
  written : ∀ thread, lastWriter log = some thread → ∃ request, requests[thread]? = some request ∧
    ((∃ p, request.intent id = .write p ∧ stored id file = some p) ∨
      ∃ percent p, request.intent id = .adjust percent ∧
        stored id file = some (withRollout percent p))

namespace Tracked

variable {id : String} {requests : List Request} {initial : Option Policy} {file : PolicyFile}
  {log : Log}

theorem read_step (tracked : Tracked id requests initial file log) (thread : Nat) (stamps : Stamps) :
    Tracked id requests initial file
      (log ++ [performed thread stamps (.getPolicyByID id) file]) := by
  have origin := originOf_snoc requests log (performed thread stamps (.getPolicyByID id) file)
  refine ⟨tracked.readable, tracked.present, ?_, ?_, ?_, ?_, ?_⟩
  · rw [origin]
    exact tracked.current
  · intro other p reached
    rw [origin]
    rcases phaseOf_snoc_cases log _ reached with ⟨rfl, read⟩ | ⟨different, before⟩
    · have found : stored id file = some p := Phase.read.inj read
      refine ⟨policyID_of_stored found, ?_⟩
      simpa [Origin.advance] using tracked.current p found
    · simpa [Origin.advance, different] using tracked.reads other p before
  · intro other reached
    rcases phaseOf_snoc_cases log _ reached with ⟨rfl, read⟩ | ⟨_, before⟩
    · exact tracked.present (Phase.read.inj read)
    · exact tracked.missing other before
  · intro none
    rw [lastWriter_snoc] at none
    obtain ⟨unchanged, idle⟩ := tracked.unwritten none
    refine ⟨unchanged, fun other reached => ?_⟩
    rcases phaseOf_snoc_cases log _ reached with ⟨rfl, read⟩ | ⟨_, before⟩
    · cases read
    · exact idle other before
  · intro writer found
    rw [lastWriter_snoc] at found
    exact tracked.written writer found

theorem write_step (tracked : Tracked id requests initial file log) {stamps : Stamps} {q : Policy}
    (chosen : requests[thread]? = some request) (named : q.policyID = id)
    (comes : Comes id requests initial ((originOf requests log).advance requests
      (performed thread stamps (.upsertPolicy q) file)).derived q)
    (meant : request.intent id = .write q ∨
      ∃ percent p, request.intent id = .adjust percent ∧ q = withRollout percent p) :
    Tracked id requests initial (file.upsertPolicy {} stamps q).2
      (log ++ [performed thread stamps (.upsertPolicy q) file]) := by
  obtain ⟨payload, readable⟩ := tracked.readable
  obtain ⟨_, written, readable'⟩ := upsert_stored named readable stamps
  have origin := originOf_snoc requests log (performed thread stamps (.upsertPolicy q) file)
  have seen : ((originOf requests log).advance requests
      (performed thread stamps (.upsertPolicy q) file)).seen = (originOf requests log).seen := by
    simp only [Origin.advance]
    split <;> rfl
  refine ⟨readable', ?_, ?_, ?_, ?_, ?_, ?_⟩
  · intro none
    rw [written] at none
    cases none
  · intro p found
    rw [written, Option.some.injEq] at found
    subst found
    rw [origin]
    exact comes
  · intro other p reached
    rw [origin, seen]
    rcases phaseOf_snoc_cases log _ reached with ⟨rfl, wrote⟩ | ⟨_, before⟩
    · cases wrote
    · exact tracked.reads other p before
  · intro other reached
    rcases phaseOf_snoc_cases log _ reached with ⟨rfl, wrote⟩ | ⟨_, before⟩
    · cases wrote
    · exact tracked.missing other before
  · intro none
    rw [lastWriter_snoc] at none
    cases none
  · intro writer found
    rw [lastWriter_snoc] at found
    cases found
    refine ⟨request, chosen, ?_⟩
    rw [written]
    rcases meant with meant | ⟨percent, p, meant, rfl⟩
    · exact .inl ⟨q, meant, rfl⟩
    · exact .inr ⟨percent, p, meant, rfl⟩

theorem hook_step (tracked : Tracked id requests initial file log) {stamps : Stamps}
    {event : Event PlaneOp PlaneRes}
    (hook : ∀ origin phase, Origin.advance requests origin ⟨thread, stamps, event⟩ = origin ∧
      Phase.advance phase event.op event.result = phase)
    (silent : lastWriter (log ++ [⟨thread, stamps, event⟩]) = lastWriter log) :
    Tracked id requests initial file (log ++ [⟨thread, stamps, event⟩]) := by
  have origin : originOf requests (log ++ [⟨thread, stamps, event⟩]) = originOf requests log := by
    rw [originOf_snoc]
    exact (hook _ .fresh).1
  have phases : phaseOf (log ++ [⟨thread, stamps, event⟩]) = phaseOf log := by
    rw [phaseOf_snoc]
    exact Function.update_eq_self_iff.mpr (hook {} _).2
  constructor
  · exact tracked.readable
  · exact tracked.present
  · rw [origin]
    exact tracked.current
  · simpa only [origin, phases] using tracked.reads
  · simpa only [phases] using tracked.missing
  · simpa only [silent, phases] using tracked.unwritten
  · simpa only [silent] using tracked.written

end Tracked

theorem put_of_write (meant : request.intent id = .write p) :
    (∃ body, request = .put body) ∧ p.policyID = id := by
  rcases request with (_ | body) | (_ | percent)
  · cases meant
  · simp only [Request.intent] at meant
    split_ifs at meant
    cases meant
    exact ⟨⟨_, rfl⟩, rfl⟩
  · cases meant
  · simp only [Request.intent] at meant
    split_ifs at meant

theorem rollout_of_adjust {percent : Int} (meant : request.intent id = .adjust percent) :
    ∃ body, request = .rollout body := by
  rcases request with (_ | body) | body
  · cases meant
  · simp only [Request.intent] at meant
    split_ifs at meant
  · exact ⟨body, rfl⟩

theorem mem_puts :
    p ∈ puts id requests ↔ ∃ request ∈ requests, request.intent id = .write p := by
  unfold puts
  rw [List.mem_filterMap]
  constructor
  · rintro ⟨request, member, written⟩
    cases meant : request.intent id with
    | write q =>
        rw [meant] at written
        cases written
        exact ⟨request, member, meant⟩
    | adjust percent =>
        rw [meant] at written
        cases written
    | nothing =>
        rw [meant] at written
        cases written
  · rintro ⟨request, member, meant⟩
    exact ⟨request, member, by rw [meant]⟩

def intentOf (id : String) (requests : List Request) (thread : Nat) : Intent :=
  match requests[thread]? with
  | some request => request.intent id
  | none => .nothing

theorem request_of_intentOf (intention : intentOf id requests thread = intent)
    (something : intent ≠ .nothing) :
    ∃ request, requests[thread]? = some request ∧ request.intent id = intent := by
  unfold intentOf at intention
  cases found : requests[thread]? with
  | none =>
      rw [found] at intention
      exact absurd intention.symm something
  | some request =>
      rw [found] at intention
      exact ⟨request, rfl, intention⟩

theorem tracked_step {log : Log} (tracked : Tracked id requests initial file log) (thread : Nat)
    (stamps : Stamps) (op : PlaneOp)
    (guarded : (progress id (intentOf id requests thread)).guard (phaseOf log thread) op) :
    (progress id (intentOf id requests thread)).expects (phaseOf log thread) op
        (perform stamps op file).1 ∧
      Tracked id requests initial (perform stamps op file).2
        (log ++ [performed thread stamps op file]) := by
  have allowed := allowed_of_guard guarded
  generalize intention : intentOf id requests thread = intent at allowed
  generalize reached : phaseOf log thread = phase at allowed
  obtain ⟨payload, readable⟩ := tracked.readable
  cases allowed with
  | @write p =>
      obtain ⟨request, found, meant⟩ := request_of_intentOf intention (by simp)
      obtain ⟨⟨body, rfl⟩, named⟩ := put_of_write meant
      refine ⟨(upsert_stored named readable stamps).1, ?_⟩
      refine tracked.write_step found named ?_ (.inl meant)
      simp only [Origin.advance, found, Comes, if_true]
      exact ⟨p, mem_puts.mpr ⟨_, List.mem_of_getElem? found, meant⟩, rfl⟩
  | @adjust percent p =>
      obtain ⟨request, found, meant⟩ := request_of_intentOf intention (by simp)
      obtain ⟨body, rfl⟩ := rollout_of_adjust meant
      obtain ⟨named, comes⟩ := tracked.reads thread p reached
      refine ⟨(upsert_stored (p := withRollout percent p) named readable stamps).1, ?_⟩
      refine tracked.write_step found named ?_ (.inr ⟨percent, p, meant, rfl⟩)
      simp only [Origin.advance, found]
      exact comes
  | read => exact ⟨trivial, tracked.read_step thread stamps⟩
  | publish => exact ⟨trivial, tracked.hook_step (fun _ _ => ⟨rfl, rfl⟩) (lastWriter_snoc _ _)⟩
  | record => exact ⟨trivial, tracked.hook_step (fun _ _ => ⟨rfl, rfl⟩) (lastWriter_snoc _ _)⟩

theorem tracked_start (requests : List Request)
    (readable : file.contents = .ok payload) :
    Tracked id requests (stored id file) file [] where
  readable := ⟨payload, readable⟩
  present none := none
  current p found := by
    rw [found]
    rfl
  reads _ _ phase := by cases phase
  missing _ phase := by cases phase
  unwritten _ := ⟨rfl, fun _ phase => by cases phase⟩
  written _ found := by cases found

theorem interleaved_tracked (cfg : HandlerConfig) (id : String) (requests : List Request)
      (readable : file.contents = .ok payload) (schedule : List (Nat × Stamps)) :
    (interleaved cfg id requests file schedule).Followed
        (fun thread => progress id (intentOf id requests thread)) (fun _ => .fresh) ∧
      Tracked id requests (stored id file) (interleaved cfg id requests file schedule).state
        (interleaved cfg id requests file schedule).history := by
  have along : (Pool.start (requests.map (Request.handler cfg id)) file).Along perform
      (fun _ _ _ _ _ => True) schedule := Pool.along_of_readings schedule _ fun _ _ => trivial
  refine Pool.run_invariant perform _ _ (Tracked id requests (stored id file)) ?_ schedule _
    (rfl : _ = (requests.map (Request.handler cfg id)).length) ?_ (tracked_start requests readable) along
  · intro file log thread stamps op _ tracked _ guarded
    exact tracked_step tracked thread stamps op guarded
  · refine Pool.followed_start ?_
    intro thread program found
    rw [List.getElem?_map] at found
    unfold intentOf
    cases chosen : requests[thread]? with
    | none => simp [chosen] at found
    | some request =>
        rw [chosen, Option.map_some, Option.some.injEq] at found
        subst found
        exact handler_accepts cfg id request

/-- Every request has been answered. -/
def Complete (pool : Pool PlaneOp PlaneRes Reply PolicyFile Stamps) : Prop :=
  ∀ (thread : Nat) (handler : Handler), pool.threads[thread]? = some handler →
    ∃ reply, handler = .done reply

theorem phase_of_complete
      (readable : file.contents = .ok payload) {schedule : List (Nat × Stamps)}
    (complete : Complete (interleaved cfg id requests file schedule))
    (member : request ∈ requests) :
    ∃ thread reply, (progress id (request.intent id)).accept
      (phaseOf (interleaved cfg id requests file schedule).history thread) reply := by
  obtain ⟨thread, chosen⟩ := List.mem_iff_getElem?.mp member
  have length : thread < (interleaved cfg id requests file schedule).threads.length := by
    rw [interleaved, Pool.run_threads_length]
    simpa [Pool.start] using (List.getElem?_eq_some_iff.mp chosen).1
  obtain ⟨reply, ended⟩ := complete thread _ (List.getElem?_eq_getElem length)
  have accepted := (interleaved_tracked cfg id requests readable schedule).1 thread _
    (List.getElem?_eq_getElem length)
  rw [ended] at accepted
  simp only [intentOf, chosen] at accepted
  exact ⟨thread, reply, accepted⟩

theorem exists_perm_last {α : Type} {x : α} {xs : List α} (member : x ∈ xs) :
    ∃ rest, (rest ++ [x]).Perm xs := by
  obtain ⟨front, back, rfl⟩ := List.append_of_mem member
  refine ⟨front ++ back, ?_⟩
  rw [List.append_assoc]
  exact List.Perm.append_left front List.perm_append_comm

theorem serially_snoc (id : String) (rest : List Request) (request : Request)
    (found : Option Policy) :
    serially id found (rest ++ [request]) = (request.intent id).apply (serially id found rest) := by
  rw [serially, List.foldl_append]
  rfl

theorem puts_perm {order requests : List Request} (same : order.Perm requests) :
    (puts id order).Perm (puts id requests) :=
  same.filterMap _

/-- A rollout after whole requests that leave the fields it has written. -/
theorem adjust_last {order requests : List Request} {percent : Int}
    (same : (order ++ [request]).Perm requests) (meant : request.intent id = .adjust percent)
    (before : (serially id initial order).map base = some (base p)) :
    ∃ whole : List Request, whole.Perm requests ∧
      serially id initial whole = some (withRollout percent p) := by
  refine ⟨order ++ [request], same, ?_⟩
  rw [serially_snoc, meant]
  obtain ⟨q, left, equal⟩ := Option.map_eq_some_iff.mp before
  rw [left]
  exact congrArg some (withRollout_eq_of_base equal percent)

theorem serially_unchanged {found : Option Policy}
    (idle : ∀ request ∈ requests, (request.intent id).apply found = found) :
    serially id found requests = found := by
  induction requests with
  | nil => rfl
  | cons request rest ih =>
      rw [serially, List.foldl_cons, idle request (by simp)]
      exact ih fun other member => idle other (by simp [member])

section Final

variable {cfg : HandlerConfig} {id : String} {requests : List Request} {file : PolicyFile}
  {payload : Payload} {schedule : List (Nat × Stamps)}

/-- Without any write no request had anything to do. -/
theorem order_of_unwritten (readable : file.contents = .ok payload)
    (complete : Complete (interleaved cfg id requests file schedule))
    (unwritten : ∀ thread,
      phaseOf (interleaved cfg id requests file schedule).history thread ≠ .wrote) :
    serially id (stored id file) requests = stored id file := by
  have tracked := (interleaved_tracked cfg id requests readable schedule).2
  refine serially_unchanged fun request member => ?_
  obtain ⟨thread, reply, ended⟩ := phase_of_complete readable complete member
  cases meant : request.intent id with
  | write p =>
      rw [meant] at ended
      exact absurd ended (unwritten thread)
  | adjust percent =>
      rw [meant] at ended
      rcases ended with wrote | missing
      · exact absurd wrote (unwritten thread)
      · rw [tracked.missing thread missing]
        rfl
  | nothing => rfl

/-- A run whose last write is a rollout has the outcome of whole requests if
the fields written are those of some update, or there are no updates. -/
theorem order_of_adjust {percent : Int} (member : request ∈ requests)
    (meant : request.intent id = .adjust percent)
    (source : (∃ q ∈ puts id requests, base p = base q) ∨
      (puts id requests = [] ∧ initial.map base = some (base p))) :
    ∃ order : List Request, order.Perm requests ∧
      serially id initial order = some (withRollout percent p) := by
  obtain ⟨rest, same⟩ := exists_perm_last member
  rcases source with ⟨q, written, equal⟩ | ⟨none, unchanged⟩
  · obtain ⟨update, listed, updates⟩ := mem_puts.mp written
    have earlier : update ∈ rest := by
      rcases List.mem_append.mp (same.mem_iff.mpr listed) with early | last
      · exact early
      · rw [List.mem_singleton] at last
        rw [last, meant] at updates
        cases updates
    obtain ⟨front, same'⟩ := exists_perm_last earlier
    refine adjust_last ((same'.append_right [request]).trans same) meant ?_
    rw [serially_snoc, updates, equal]
    rfl
  · refine adjust_last same meant ?_
    rcases serially_base id rest initial with ⟨q, written, _⟩ | ⟨_, kept⟩
    · have listed := (puts_perm same).subset (List.mem_filterMap.mpr (by
        obtain ⟨update, early, updates⟩ := List.mem_filterMap.mp written
        exact ⟨update, List.mem_append_left _ early, updates⟩))
      rw [none] at listed
      cases listed
    · rw [kept, unchanged]

end Final

/-- Answered requests leave the policy that the whole requests leave in some
order, exactly if there is no update among them, the stored policy derives from
an update, or an update writes the initial policy up to its rollout percentage. -/
theorem serializable_iff (cfg : HandlerConfig) (id : String) (requests : List Request)
    (file : PolicyFile) (payload : Payload) (schedule : List (Nat × Stamps)) (stamps : Stamps)
    (readable : file.contents = .ok payload)
    (complete : Complete (interleaved cfg id requests file schedule)) :
    (∃ order : List Request, order.Perm requests ∧
        stored id (oneByOne cfg id stamps order file) =
          stored id (interleaved cfg id requests file schedule).state) ↔
      puts id requests = [] ∨
        (originOf requests (interleaved cfg id requests file schedule).history).derived = true ∨
        ∃ p ∈ puts id requests, (stored id file).map base = some (base p) := by
  have tracked := (interleaved_tracked cfg id requests readable schedule).2
  simp only [oneByOne_stored cfg id stamps _ readable]
  constructor
  · rintro ⟨order, same, equal⟩
    rcases serially_base id order (stored id file) with ⟨p, written, ends⟩ | ⟨none, _⟩
    · right
      rw [equal] at ends
      obtain ⟨q, final, fields⟩ := Option.map_eq_some_iff.mp ends
      have comes := tracked.current q final
      unfold Comes at comes
      split_ifs at comes with derived
      · exact .inl derived
      · exact .inr ⟨p, (puts_perm same).subset written, by rw [comes, fields]⟩
    · left
      exact List.Perm.eq_nil (none ▸ (puts_perm same).symm)
  · intro condition
    cases writer : lastWriter (interleaved cfg id requests file schedule).history with
    | none =>
        obtain ⟨unchanged, idle⟩ := tracked.unwritten writer
        exact ⟨requests, .refl _, by rw [unchanged, order_of_unwritten readable complete idle]⟩
    | some thread =>
        obtain ⟨request, chosen, outcome⟩ := tracked.written thread writer
        have member := List.mem_of_getElem? chosen
        rcases outcome with ⟨p, meant, final⟩ | ⟨percent, p, meant, final⟩
        · obtain ⟨rest, same⟩ := exists_perm_last member
          exact ⟨rest ++ [request], same, by rw [serially_snoc, meant, final]; rfl⟩
        · rw [final]
          refine order_of_adjust member meant ?_
          have comes := tracked.current _ final
          unfold Comes at comes
          split_ifs at comes with derived
          · exact .inl comes
          · rcases condition with none | derived' | ⟨q, written, equal⟩
            · exact .inr ⟨none, comes⟩
            · exact absurd derived' derived
            · rw [comes, Option.some.injEq] at equal
              exact .inl ⟨q, written, equal⟩

private def quiet : HandlerConfig := { notifier := false, analytics := false }

private def initialFile : PolicyFile := .envelope { policies := [{ policyID := "p" }] }

private def updateAndRollout : List Request :=
  [.put (some { priority := 7 }), .rollout (some 50)]

private theorem complete_of_threads {pool : Pool PlaneOp PlaneRes Reply PolicyFile Stamps}
    {first second : Reply} (ended : pool.threads = [.done first, .done second]) : Complete pool := by
  intro thread handler found
  rw [ended] at found
  rcases thread with _ | _ | thread
  · exact ⟨first, (Option.some.inj found).symm⟩
  · exact ⟨second, (Option.some.inj found).symm⟩
  · cases found

theorem serializable_of_late_rollout :
    ∃ order : List Request, order.Perm updateAndRollout ∧
      stored "p" (oneByOne quiet "p" .epoch order initialFile) =
        stored "p" (interleaved quiet "p" updateAndRollout initialFile
          [(0, .epoch), (1, .epoch), (1, .epoch)]).state :=
  (serializable_iff quiet "p" updateAndRollout initialFile _
    [(0, .epoch), (1, .epoch), (1, .epoch)] .epoch rfl
    (complete_of_threads rfl)).mpr (.inr (.inl rfl))

/-- The rollout reads, the update writes, the rollout writes back what it has read:
both are answered, and no order of the two whole requests leaves that policy. -/
theorem update_lost :
    Complete (interleaved quiet "p" updateAndRollout initialFile
        [(1, .epoch), (0, .epoch), (1, .epoch)]) ∧
      stored "p" (interleaved quiet "p" updateAndRollout initialFile
          [(1, .epoch), (0, .epoch), (1, .epoch)]).state =
        some { policyID := "p", rolloutPercent := 50 } ∧
      ∀ order : List Request, order.Perm updateAndRollout →
        stored "p" (oneByOne quiet "p" .epoch order initialFile) ≠
          some { policyID := "p", rolloutPercent := 50 } := by
  refine ⟨complete_of_threads rfl, rfl, fun order same equal => ?_⟩
  have written : (puts "p" order).Perm (puts "p" updateAndRollout) := puts_perm same
  rw [oneByOne_stored quiet "p" .epoch order rfl] at equal
  rcases serially_base "p" order (stored "p" initialFile) with ⟨p, member, ends⟩ | ⟨none, _⟩
  · rw [equal] at ends
    have listed : p ∈ [({ policyID := "p", priority := 7 } : Policy)] := written.subset member
    rw [List.mem_singleton] at listed
    subst listed
    cases ends
  · rw [none] at written
    exact absurd written.symm.eq_nil (by decide)

end Interleaving

end Rlaas.Adapter.ControlPlane
