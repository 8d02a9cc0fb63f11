import Rlaas.Adapter.LeaseProperties

/-! Concurrent acquire and release requests over HTTP, with one concurrency policy.
A ledger drawn from the history follows every slot from its grant to its release:
its own request, the lease ID it was registered under, the request that took it
from the registry, and how often it was released. -/

set_option autoImplicit false

namespace Rlaas.Adapter

open Go Model Store Key Engine Effect Function

abbrev LeaseLog := List (Entry LeaseOp LeaseRes Reading)

/-- A granted slot: `thread` is the request it was granted to. -/
structure Slot where
  thread : Nat
  id : Option String := none
  taker : Option Nat := none
  releases : Nat := 0
  deriving DecidableEq

/-- What an operation of a request means for the slots. -/
def record (thread : Nat) (slots : List Slot) : (op : LeaseOp) → LeaseRes op → List Slot
  | .engine (.env (.store (.acquireLease ..))), answer =>
      match answer with
      | .ok (true, _) => slots ++ [{ thread := thread }]
      | _ => slots
  | .put _, id =>
      slots.map fun slot => if slot.thread = thread then { slot with id := some id } else slot
  | .pop id, found =>
      match found with
      | some _ =>
          slots.map fun slot => if slot.id = some id then { slot with taker := some thread } else slot
      | none => slots
  | .engine (.env (.store (.releaseLease _))), _ =>
      slots.map fun slot =>
        if slot.taker = some thread then { slot with releases := slot.releases + 1 } else slot
  | _, _ => slots

def slotsOf (log : LeaseLog) : List Slot :=
  log.foldl (fun slots entry => record entry.thread slots entry.event.op entry.event.result) []

def newIDOf : (op : LeaseOp) → LeaseRes op → List String
  | .put _, id => [id]
  | _, _ => []

/-- The lease IDs made so far. -/
def issued (log : LeaseLog) : List String :=
  log.flatMap fun entry => newIDOf entry.event.op entry.event.result

namespace HTTP

variable {π : Type}

/-- Requests in progress at the same time, from an empty registry. -/
def interleaved (A : Arith) (engine : DefaultEngine) (policies : Handler PolicyOp PolicyRes π Time)
    (requests : List Request) (side : π) (store : MemoryStore) (schedule : List (Nat × Reading)) :
    Pool LeaseOp LeaseRes Reply (LeaseState π MemoryStore) Reading :=
  (Pool.start (requests.map (Request.handler A engine)) { side, store }).run
    (perform policies (MemoryStore.env A) newID) schedule

end HTTP

section Phases

/-- How far a request has got with a slot. -/
inductive SlotPhase where
  | fresh
  | granted
  | registered (id : String)
  | taken
  | ended

def SlotPhase.advance (phase : SlotPhase) : (op : LeaseOp) → LeaseRes op → SlotPhase
  | .engine (.env (.store (.acquireLease ..))), answer =>
      match answer with
      | .ok (true, _) => .granted
      | _ => phase
  | .engine (.env (.store (.releaseLease _))), _ => .ended
  | .engine _, _ => phase
  | .put _, id =>
      match phase with
      | .granted => .registered id
      | _ => .ended
  | .pop _, found =>
      match found with
      | some (.call ..) => .taken
      | _ => .ended

def phases (log : LeaseLog) (thread : Nat) : SlotPhase :=
  (own log thread).foldl (fun phase event => phase.advance event.op event.result) .fresh

/-- What a request may do next. -/
inductive Allowed (key : String) (limit : Int) (ttl : Duration) : SlotPhase → LeaseOp → Prop where
  | resolve {op : PolicyOp} : Allowed key limit ttl .fresh (.engine (.policy op))
  | acquire : Allowed key limit ttl .fresh (.engine (.env (.store (.acquireLease key limit ttl))))
  | note : Allowed key limit ttl .fresh (.put (.done (.ok ())))
  | register : Allowed key limit ttl .granted (.put (releaseOf key))
  | pop {id : String} : Allowed key limit ttl .fresh (.pop id)
  | release : Allowed key limit ttl .taken (.engine (.env (.store (.releaseLease key))))

def Expected (policy : Policy) (key : String) : (op : LeaseOp) → LeaseRes op → Prop
  | .engine (.policy op), answer => Offers policy op answer
  | .pop _, found => ∀ fn, found = some fn → fn = .done (.ok ()) ∨ fn = releaseOf key
  | _, _ => True

variable (policy : Policy) (key : String) (limit : Int) (ttl : Duration)

/-- The acquire path, which ends with a slot exactly if it has a callback for it. -/
def starting : Monitor EngineOp EngineRes SlotPhase LeaseStart where
  expects _ op answer := Expected policy key (.engine op) answer
  guard phase op := Allowed key limit ttl phase (.engine op)
  advance phase op answer := phase.advance (.engine op) answer
  accept phase start :=
    (phase = .fresh ∧ start.release = .done (.ok ())) ∨
      (phase = .granted ∧ start.release = releaseOf key ∧ start.decision.allowed = true)

/-- A request, which does not end before its slot is registered or released. -/
def handling : Monitor LeaseOp LeaseRes SlotPhase HTTP.Reply where
  expects _ := Expected policy key
  guard := Allowed key limit ttl
  advance := SlotPhase.advance
  accept phase reply :=
    match phase with
    | .granted => False
    | .taken => False
    | .registered id => ∃ response, reply = .acquired response ∧ response.leaseID = id
    | _ => True

end Phases

section Accepted

variable {A : Arith} {engine : DefaultEngine} {policy : Policy}

theorem leaseStartPicked_accepts (concurrency : policy.algorithm.type = .concurrency)
    {req : RequestContext} {picked : Except String (Option (Policy × String))}
    (governed : Governed engine.keyBuilder policy picked) :
    (starting policy (leaseKey engine.keyBuilder policy) (leaseLimit policy.algorithm)
        (leaseDuration A policy.algorithm)).Accepts .fresh (leaseStartPicked A engine req picked) := by
  rcases picked with message | _ | ⟨winner, keyStr⟩
  · exact .inl ⟨rfl, rfl⟩
  · exact .inl ⟨rfl, rfl⟩
  · obtain ⟨rfl, rfl⟩ := governed winner keyStr rfl
    rw [leaseStartPicked, if_neg (not_not_intro concurrency)]
    refine ⟨.acquire, fun answer _ => ?_⟩
    rcases answer with message | ⟨granted, current⟩
    · exact .inl ⟨rfl, rfl⟩
    · cases granted with
      | false => exact .inl ⟨rfl, rfl⟩
      | true =>
          refine .inr ⟨rfl, rfl, ?_⟩
          rw [concludeLease, grantedLease]
          split_ifs <;> rfl

theorem startConcurrencyLease_accepts (concurrency : policy.algorithm.type = .concurrency)
    (req : RequestContext) :
    (starting policy (leaseKey engine.keyBuilder policy) (leaseLimit policy.algorithm)
        (leaseDuration A policy.algorithm)).Accepts .fresh (engine.startConcurrencyLease A req) := by
  refine Monitor.accepts_mapOp_bind (picking engine.keyBuilder policy SlotPhase.fresh) _ ?_ ?_ ?_ ?_
    (pickPolicy_accepts engine.keyBuilder policy req SlotPhase.fresh)
  · rintro _ op rfl
    exact .resolve
  · intro _ op answer offered
    exact offered
  · intro _ op answer
    rfl
  · rintro _ picked ⟨rfl, governed⟩
    exact leaseStartPicked_accepts concurrency governed

theorem register_accepts {key : String} {limit : Int} {ttl : Duration} {phase : SlotPhase}
    {start : LeaseStart} {reply : String → HTTP.Reply}
    (ended : (starting policy key limit ttl).accept phase start)
    (named : ∀ id, ∃ response, reply id = .acquired response ∧ response.leaseID = id) :
    (handling policy key limit ttl).Accepts phase (register start reply) := by
  rw [register]
  rcases ended with ⟨rfl, noop⟩ | ⟨rfl, real, allowed⟩
  · rw [noop]
    split_ifs
    · exact ⟨.note, fun _ _ => trivial⟩
    · trivial
  · rw [real, if_pos allowed]
    exact ⟨.register, fun id _ => named id⟩

theorem popAndRelease_accepts {key : String} {limit : Int} {ttl : Duration} (id : String)
    {missing failed succeeded : HTTP.Reply} :
    (handling policy key limit ttl).Accepts .fresh (popAndRelease id missing failed succeeded) := by
  refine ⟨.pop, fun found expected => ?_⟩
  cases found with
  | none => trivial
  | some fn =>
      rcases expected fn rfl with rfl | rfl
      · trivial
      · refine ⟨.release, fun answer _ => ?_⟩
        cases answer with
        | error message => trivial
        | ok _ => trivial

theorem handler_accepts (concurrency : policy.algorithm.type = .concurrency)
    (request : HTTP.Request) :
    (handling policy (leaseKey engine.keyBuilder policy) (leaseLimit policy.algorithm)
        (leaseDuration A policy.algorithm)).Accepts .fresh (request.handler A engine) := by
  cases request with
  | acquire body =>
      cases body with
      | none => trivial
      | some req =>
          refine Monitor.accepts_mapOp_bind (starting policy (leaseKey engine.keyBuilder policy)
            (leaseLimit policy.algorithm) (leaseDuration A policy.algorithm)) _ ?_ ?_ ?_ ?_
            (startConcurrencyLease_accepts concurrency req)
          · intro _ op guarded
            exact guarded
          · intro _ op answer expected
            exact expected
          · intro _ op answer
            rfl
          · intro phase start ended
            exact register_accepts ended fun id => ⟨_, rfl, rfl⟩
  | release body =>
      cases body with
      | none => trivial
      | some leaseID =>
          rw [HTTP.Request.handler, HTTP.release]
          split_ifs
          · trivial
          · exact popAndRelease_accepts leaseID

end Accepted

section Snoc

variable (log : LeaseLog) (thread : Nat) (reading : Reading) (op : LeaseOp) (answer : LeaseRes op)

theorem slotsOf_snoc : slotsOf (log ++ [⟨thread, reading, ⟨op, answer⟩⟩]) =
    record thread (slotsOf log) op answer := by
  simp [slotsOf, List.foldl_append]

theorem issued_snoc : issued (log ++ [⟨thread, reading, ⟨op, answer⟩⟩]) =
    issued log ++ newIDOf op answer := by
  simp [issued]

theorem phases_snoc : phases (log ++ [⟨thread, reading, ⟨op, answer⟩⟩]) =
    update (phases log) thread ((phases log thread).advance op answer) :=
  foldl_own_snoc (fun _ (phase : SlotPhase) event => phase.advance event.op event.result)
    (fun _ => .fresh) log thread reading ⟨op, answer⟩

theorem update_phases_self {phase : SlotPhase} (reached : phases log thread = phase) :
    update (phases log) thread phase = phases log :=
  update_eq_self_iff.mpr reached.symm

end Snoc

section Books

/-- What is known of a slot, by what has become of it. -/
inductive Accounted (key : String) (items : LeaseItems Callback) (ids : List String)
    (phase : Nat → SlotPhase) (slot : Slot) : Prop where
  | acquiring : slot.id = none → slot.taker = none → slot.releases = 0 →
      phase slot.thread = .granted → Accounted key items ids phase slot
  | registered {id : String} : slot.id = some id → slot.taker = none → slot.releases = 0 →
      phase slot.thread = .registered id → id ∈ ids → items id = some (releaseOf key) →
      Accounted key items ids phase slot
  | releasing {id : String} {taker : Nat} : slot.id = some id → slot.taker = some taker →
      slot.releases = 0 → phase slot.thread = .registered id → id ∈ ids → items id = none →
      phase taker = .taken → Accounted key items ids phase slot
  | released {id : String} {taker : Nat} : slot.id = some id → slot.taker = some taker →
      slot.releases = 1 → phase slot.thread = .registered id → id ∈ ids → items id = none →
      phase taker = .ended → Accounted key items ids phase slot

/-- Slots of different requests, lease IDs and takers. -/
def Slot.Apart (slot other : Slot) : Prop :=
  slot.thread ≠ other.thread ∧ (∀ id, slot.id = some id → other.id ≠ some id) ∧
    ∀ taker, slot.taker = some taker → other.taker ≠ some taker

/-- The ledger agrees with the lease counter, the registry and the requests. -/
structure Books (key : String) (limit value : Int) (items : LeaseItems Callback)
    (slots : List Slot) (ids : List String) (phase : Nat → SlotPhase) : Prop where
  count : value = slots.countP fun slot => slot.releases = 0
  bound : value ≤ limit
  accounted : ∀ slot ∈ slots, Accounted key items ids phase slot
  apart : slots.Pairwise Slot.Apart
  granted : ∀ thread, phase thread = .granted → ∃ slot ∈ slots, slot.thread = thread
  taken : ∀ thread, phase thread = .taken → ∃ slot ∈ slots, slot.taker = some thread
  items : ∀ id fn, items id = some fn → id ∈ ids ∧
    ((fn = .done (.ok ()) ∧ ∀ slot ∈ slots, slot.id ≠ some id) ∨
      (fn = releaseOf key ∧ ∃ slot ∈ slots, slot.id = some id ∧ slot.taker = none))

variable {key : String} {limit value : Int} {items items' : LeaseItems Callback} {slots : List Slot}
  {ids ids' : List String} {phase phase' : Nat → SlotPhase} {slot : Slot} {thread : Nat} {id : String}

section

variable (accounted : Accounted key items ids phase slot)

include accounted

theorem Accounted.frame (own : phase' slot.thread = phase slot.thread)
    (taker : ∀ taker, slot.taker = some taker → phase' taker = phase taker)
    (item : ∀ id, slot.id = some id → items' id = items id) (more : ids ⊆ ids') :
    Accounted key items' ids' phase' slot := by
  cases accounted with
  | acquiring unnamed untaken unreleased located =>
      exact .acquiring unnamed untaken unreleased (own.trans located)
  | registered named untaken unreleased located known listed =>
      exact .registered named untaken unreleased (own.trans located) (more known)
        ((item _ named).trans listed)
  | releasing named taken unreleased located known popped claimed =>
      exact .releasing named taken unreleased (own.trans located) (more known)
        ((item _ named).trans popped) ((taker _ taken).trans claimed)
  | released named taken released located known popped claimed =>
      exact .released named taken released (own.trans located) (more known)
        ((item _ named).trans popped) ((taker _ taken).trans claimed)

theorem Accounted.thread_phase :
    phase slot.thread = .granted ∨ ∃ id, phase slot.thread = .registered id := by
  cases accounted with
  | acquiring _ _ _ located => exact .inl located
  | registered _ _ _ located => exact .inr ⟨_, located⟩
  | releasing _ _ _ located => exact .inr ⟨_, located⟩
  | released _ _ _ located => exact .inr ⟨_, located⟩

theorem Accounted.taker_phase (claimed : slot.taker = some thread) :
    phase thread = .taken ∨ phase thread = .ended := by
  cases accounted with
  | acquiring _ untaken =>
      rw [untaken] at claimed
      cases claimed
  | registered _ untaken =>
      rw [untaken] at claimed
      cases claimed
  | releasing _ taken _ _ _ _ located =>
      rw [taken] at claimed
      cases claimed
      exact .inl located
  | released _ taken _ _ _ _ located =>
      rw [taken] at claimed
      cases claimed
      exact .inr located

theorem Accounted.known (named : slot.id = some id) :
    id ∈ ids := by
  cases accounted with
  | acquiring unnamed =>
      rw [unnamed] at named
      cases named
  | registered same _ _ _ known =>
      rw [same] at named
      cases named
      exact known
  | releasing same _ _ _ known =>
      rw [same] at named
      cases named
      exact known
  | released same _ _ _ known =>
      rw [same] at named
      cases named
      exact known

theorem Accounted.of_granted (granted : phase slot.thread = .granted) :
    slot.id = none ∧ slot.taker = none ∧ slot.releases = 0 := by
  cases accounted with
  | acquiring unnamed untaken unreleased _ => exact ⟨unnamed, untaken, unreleased⟩
  | registered _ _ _ located =>
      rw [granted] at located
      cases located
  | releasing _ _ _ located =>
      rw [granted] at located
      cases located
  | released _ _ _ located =>
      rw [granted] at located
      cases located

theorem Accounted.of_untaken (named : slot.id = some id) (untaken : slot.taker = none) :
    slot.releases = 0 ∧ phase slot.thread = .registered id ∧ id ∈ ids := by
  cases accounted with
  | acquiring unnamed =>
      rw [unnamed] at named
      cases named
  | registered same _ unreleased located known _ =>
      rw [named] at same
      cases same
      exact ⟨unreleased, located, known⟩
  | releasing _ taken =>
      rw [untaken] at taken
      cases taken
  | released _ taken =>
      rw [untaken] at taken
      cases taken

theorem Accounted.of_taken (claimed : slot.taker = some thread) (taking : phase thread = .taken) :
    ∃ id, slot.id = some id ∧ slot.releases = 0 ∧ phase slot.thread = .registered id ∧ id ∈ ids ∧
      items id = none := by
  cases accounted with
  | acquiring _ untaken =>
      rw [untaken] at claimed
      cases claimed
  | registered _ untaken =>
      rw [untaken] at claimed
      cases claimed
  | @releasing id _ named _ unreleased located known popped _ =>
      exact ⟨id, named, unreleased, located, known, popped⟩
  | released _ taken _ _ _ _ located =>
      rw [claimed] at taken
      cases taken
      rw [taking] at located
      cases located

/-- A request that has no slot yet is not the one of any slot, nor has it taken one. -/
theorem Accounted.others (fresh : phase thread = .fresh) :
    slot.thread ≠ thread ∧ slot.taker ≠ some thread := by
  constructor
  · rintro rfl
    rcases accounted.thread_phase with located | ⟨id, located⟩
    · rw [fresh] at located
      cases located
    · rw [fresh] at located
      cases located
  · intro taken
    rcases accounted.taker_phase taken with located | located
    · rw [fresh] at located
      cases located
    · rw [fresh] at located
      cases located

end

theorem Slot.Apart.symm {other : Slot} (apart : slot.Apart other) : other.Apart slot :=
  ⟨apart.1.symm, fun id named same => apart.2.1 id same named,
    fun taker taken same => apart.2.2 taker same taken⟩

theorem map_of_apart (apart : slots.Pairwise Slot.Apart) (member : slot ∈ slots)
    (test : Slot → Prop) [DecidablePred test] (hit : test slot)
    (only : ∀ other, slot.Apart other → ¬test other) (change : Slot → Slot) :
    ∃ before after, slots = before ++ slot :: after ∧
      (slots.map fun slot => if test slot then change slot else slot) =
        before ++ change slot :: after ∧
      (∀ other ∈ before ++ after, other ∈ slots ∧ slot.Apart other) := by
  obtain ⟨before, after, rfl⟩ := List.append_of_mem member
  obtain ⟨_, rest, across⟩ := List.pairwise_append.mp apart
  have others : ∀ other ∈ before ++ after, other ∈ before ++ slot :: after ∧ slot.Apart other := by
    intro other listed
    rcases List.mem_append.mp listed with earlier | later
    · exact ⟨by simp [earlier], (across other earlier slot (by simp)).symm⟩
    · exact ⟨by simp [later], (List.pairwise_cons.mp rest).1 other later⟩
  have same : ∀ part, part ⊆ before ++ after →
      (part.map fun slot => if test slot then change slot else slot) = part := by
    intro part inside
    refine (List.map_congr_left fun other listed => ?_).trans (List.map_id part)
    exact if_neg (only other (others other (inside listed)).2)
  refine ⟨before, after, rfl, ?_, others⟩
  rw [List.map_append, List.map_cons, same before (by simp), same after (by simp), if_pos hit]

theorem pairwise_replace {before after : List Slot} {new : Slot}
    (apart : (before ++ slot :: after).Pairwise Slot.Apart)
    (others : ∀ other ∈ before ++ after, new.Apart other) :
    (before ++ new :: after).Pairwise Slot.Apart := by
  obtain ⟨first, rest, across⟩ := List.pairwise_append.mp apart
  refine List.pairwise_append.mpr ⟨first, ?_, ?_⟩
  · exact List.pairwise_cons.mpr ⟨fun other later => others other (by simp [later]),
      (List.pairwise_cons.mp rest).2⟩
  · intro other earlier last member
    rcases List.mem_cons.mp member with rfl | later
    · exact (others other (by simp [earlier])).symm
    · exact across other earlier last (by simp [later])

theorem Accounted.frame_fresh (accounted : Accounted key items ids phase slot)
    (fresh : phase thread = .fresh) (next : SlotPhase) (more : ids ⊆ ids')
    (item : ∀ id, slot.id = some id → items' id = items id) :
    Accounted key items' ids' (update phase thread next) slot := by
  obtain ⟨other, untaken⟩ := accounted.others fresh
  refine accounted.frame (update_of_ne other _ _) ?_ item more
  rintro taker taken
  refine update_of_ne ?_ _ _
  rintro rfl
  exact untaken taken

namespace Books

variable (books : Books key limit value items slots ids phase)

include books

section

variable (fresh : phase thread = .fresh)

include fresh

theorem grant (room : value < limit) :
    Books key limit (value + 1) items (slots ++ [{ thread := thread }]) ids
      (update phase thread .granted) := by
  refine ⟨?_, room, ?_, ?_, ?_, ?_, ?_⟩
  · simp [books.count]
  · intro slot member
    rcases List.mem_append.mp member with before | last
    · exact (books.accounted slot before).frame_fresh fresh _ (List.Subset.refl _) fun _ _ => rfl
    · rw [List.mem_singleton.mp last]
      exact .acquiring rfl rfl rfl (update_self _ _ _)
  · refine List.pairwise_append.mpr ⟨books.apart, List.pairwise_singleton _ _, ?_⟩
    intro slot member new last
    rw [List.mem_singleton.mp last]
    exact ⟨((books.accounted slot member).others fresh).1, by simp, by simp⟩
  · intro other located
    rcases update_cases located with ⟨rfl, _⟩ | ⟨_, before⟩
    · exact ⟨{ thread := other }, by simp, rfl⟩
    · obtain ⟨slot, member, found⟩ := books.granted other before
      exact ⟨slot, by simp [member], found⟩
  · intro other located
    rcases update_cases located with ⟨_, ⟨⟩⟩ | ⟨_, before⟩
    obtain ⟨slot, member, found⟩ := books.taken other before
    exact ⟨slot, by simp [member], found⟩
  · intro id fn listed
    obtain ⟨known, ⟨noop, unused⟩ | ⟨callback, slot, member, found⟩⟩ := books.items id fn listed
    · refine ⟨known, .inl ⟨noop, fun slot member => ?_⟩⟩
      rcases List.mem_append.mp member with before | last
      · exact unused slot before
      · rw [List.mem_singleton.mp last]
        simp
    · exact ⟨known, .inr ⟨callback, slot, by simp [member], found⟩⟩

/-- A request without a slot ends, or puts a callback that does nothing. -/
theorem finish (more : ids ⊆ ids')
    (same : ∀ slot ∈ slots, ∀ id, slot.id = some id → items' id = items id)
    (listed : ∀ id fn, items' id = some fn → items id = some fn ∨
      (fn = .done (.ok ()) ∧ id ∈ ids' ∧ ∀ slot ∈ slots, slot.id ≠ some id)) :
    Books key limit value items' slots ids' (update phase thread .ended) := by
  refine ⟨books.count, books.bound, ?_, books.apart, ?_, ?_, ?_⟩
  · intro slot member
    exact (books.accounted slot member).frame_fresh fresh _ more (same slot member)
  · intro other located
    rcases update_cases located with ⟨_, ⟨⟩⟩ | ⟨_, before⟩
    exact books.granted other before
  · intro other located
    rcases update_cases located with ⟨_, ⟨⟩⟩ | ⟨_, before⟩
    exact books.taken other before
  · intro id fn found
    rcases listed id fn found with before | ⟨noop, known, unused⟩
    · obtain ⟨known, role⟩ := books.items id fn before
      exact ⟨more known, role⟩
    · exact ⟨known, .inl ⟨noop, unused⟩⟩

theorem note (unissued : id ∉ ids) :
    Books key limit value (update items id (some (.done (.ok ()))))
      (record thread slots (.put (.done (.ok ()))) id) (ids ++ [id])
      (update phase thread .ended) := by
  have unchanged : record thread slots (.put (.done (.ok ()))) id = slots := by
    refine (List.map_congr_left fun slot member => ?_).trans (List.map_id slots)
    exact if_neg ((books.accounted slot member).others fresh).1
  have unused : ∀ slot ∈ slots, slot.id ≠ some id := fun slot member named =>
    unissued ((books.accounted slot member).known named)
  rw [unchanged]
  refine books.finish fresh (by simp) ?_ ?_
  · intro slot member other named
    refine update_of_ne ?_ _ _
    rintro rfl
    exact unused slot member named
  · intro other fn found
    rcases update_cases found with ⟨rfl, added⟩ | ⟨_, before⟩
    · cases added
      exact .inr ⟨rfl, by simp, unused⟩
    · exact .inl before

theorem pop_missing :
    Books key limit value items slots ids (update phase thread .ended) :=
  books.finish fresh (List.Subset.refl _) (fun _ _ _ _ => rfl) fun _ _ found => .inl found

theorem pop_noop (found : items id = some (.done (.ok ()))) :
    Books key limit value (update items id none)
      (record thread slots (.pop id) (some (.done (.ok ())))) ids
      (update phase thread .ended) := by
  obtain ⟨_, ⟨_, unused⟩ | ⟨⟨⟩, _⟩⟩ := books.items id _ found
  have unchanged : record thread slots (.pop id) (some (.done (.ok ()))) = slots := by
    refine (List.map_congr_left fun slot member => ?_).trans (List.map_id slots)
    exact if_neg (unused slot member)
  rw [unchanged]
  refine books.finish fresh (List.Subset.refl _) ?_ ?_
  · intro slot member other named
    refine update_of_ne ?_ _ _
    rintro rfl
    exact unused slot member named
  · intro other fn listed
    rcases update_cases listed with ⟨_, removed⟩ | ⟨_, before⟩
    · cases removed
    · exact .inl before

end

omit books in
/-- One slot moves on, with its request or with the one that takes or releases it. -/
theorem replace {before after : List Slot} {value' : Int} {new : Slot}
    (books : Books key limit value items (before ++ slot :: after) ids phase)
    (count : value' + (if slot.releases = 0 then 1 else 0) =
      value + if new.releases = 0 then 1 else 0) (bound : value' ≤ limit)
    (thread : new.thread = slot.thread) (more : ids ⊆ ids')
    (own : Accounted key items' ids' phase' new)
    (others : ∀ other ∈ before ++ after, Accounted key items' ids' phase' other ∧ new.Apart other)
    (granted : ∀ thread, phase' thread = .granted → phase thread = .granted)
    (taken : ∀ thread, phase' thread = .taken →
      (phase thread = .taken ∧ slot.taker ≠ some thread) ∨ new.taker = some thread)
    (listed : ∀ id fn, items' id = some fn →
      (items id = some fn ∧ slot.id ≠ some id ∧ new.id ≠ some id) ∨
        (fn = releaseOf key ∧ id ∈ ids' ∧ new.id = some id ∧ new.taker = none)) :
    Books key limit value' items' (before ++ new :: after) ids' phase' := by
  have kept : ∀ other ∈ before ++ slot :: after, other ≠ slot → other ∈ before ++ new :: after := by
    intro other member different
    simp only [List.mem_append, List.mem_cons] at member ⊢
    rcases member with earlier | same | later
    · exact .inl earlier
    · exact absurd same different
    · exact .inr (.inr later)
  refine ⟨?_, bound, ?_, pairwise_replace books.apart fun other member => (others other member).2,
    ?_, ?_, ?_⟩
  · have counted := books.count
    simp only [List.countP_append, List.countP_cons, decide_eq_true_eq, Nat.cast_add, Nat.cast_ite,
      Nat.cast_one, Nat.cast_zero] at counted ⊢
    omega
  · intro other member
    simp only [List.mem_append, List.mem_cons] at member
    rcases member with earlier | rfl | later
    · exact (others other (by simp [earlier])).1
    · exact own
    · exact (others other (by simp [later])).1
  · intro other located
    obtain ⟨holder, member, found⟩ := books.granted other (granted other located)
    by_cases same : holder = slot
    · exact ⟨new, by simp, thread.trans (same ▸ found)⟩
    · exact ⟨holder, kept holder member same, found⟩
  · intro other located
    rcases taken other located with ⟨earlier, different⟩ | fresh
    · obtain ⟨holder, member, found⟩ := books.taken other earlier
      refine ⟨holder, kept holder member ?_, found⟩
      rintro rfl
      exact different found
    · exact ⟨new, by simp, fresh⟩
  · intro id fn found
    rcases listed id fn found with ⟨earlier, old, fresh⟩ | ⟨callback, known, named, untaken⟩
    · obtain ⟨known, ⟨noop, unused⟩ | ⟨callback, holder, member, named, untaken⟩⟩ :=
        books.items id fn earlier
      · refine ⟨more known, .inl ⟨noop, fun other member => ?_⟩⟩
        simp only [List.mem_append, List.mem_cons] at member
        rcases member with before | rfl | later
        · exact unused other (by simp [before])
        · exact fresh
        · exact unused other (by simp [later])
      · refine ⟨more known, .inr ⟨callback, holder, kept holder member ?_, named, untaken⟩⟩
        rintro rfl
        exact old named
    · exact ⟨known, .inr ⟨callback, new, by simp, named, untaken⟩⟩

theorem register (granted : phase thread = .granted) (unissued : id ∉ ids) :
    Books key limit value (update items id (some (releaseOf key)))
      (record thread slots (.put (releaseOf key)) id) (ids ++ [id])
      (update phase thread (.registered id)) := by
  obtain ⟨slot, member, rfl⟩ := books.granted thread granted
  obtain ⟨before, after, rfl, updated, others⟩ := map_of_apart books.apart member
    (fun other => other.thread = slot.thread) rfl (fun other apart => apart.1.symm)
    fun other => { other with id := some id }
  have unused : ∀ other ∈ before ++ slot :: after, other.id ≠ some id := fun other member named =>
    unissued ((books.accounted other member).known named)
  rw [record, updated]
  obtain ⟨unnamed, untaken, unreleased⟩ := (books.accounted slot member).of_granted granted
  apply books.replace
  · rfl
  · exact books.bound
  · rfl
  · simp
  · exact .registered rfl untaken unreleased (update_self _ _ _) (by simp)
      (update_self _ _ _)
  · intro other rest
    obtain ⟨among, apart⟩ := others other rest
    have accounted := books.accounted other among
    refine ⟨accounted.frame (update_of_ne apart.1.symm _ _) ?_ ?_ (by simp),
      apart.1, fun _ named => ?_, fun taker taken => ?_⟩
    · intro taker taken
      refine update_of_ne ?_ _ _
      rintro rfl
      rcases accounted.taker_phase taken with located | located
      · rw [granted] at located
        cases located
      · rw [granted] at located
        cases located
    · intro _ named
      refine update_of_ne ?_ _ _
      rintro rfl
      exact unused other among named
    · exact (Option.some.inj named) ▸ unused other among
    · rw [untaken] at taken
      cases taken
  · intro other located
    rcases update_cases located with ⟨_, ⟨⟩⟩ | ⟨_, earlier⟩
    exact earlier
  · intro other located
    rcases update_cases located with ⟨_, ⟨⟩⟩ | ⟨_, earlier⟩
    exact .inl ⟨earlier, by simp [untaken]⟩
  · intro other fn found
    rcases update_cases found with ⟨rfl, added⟩ | ⟨different, before⟩
    · cases added
      exact .inr ⟨rfl, by simp, rfl, untaken⟩
    · exact .inl ⟨before, by simp [unnamed], by simpa using Ne.symm different⟩

theorem take (fresh : phase thread = .fresh) (found : items id = some (releaseOf key)) :
    Books key limit value (update items id none)
      (record thread slots (.pop id) (some (releaseOf key))) ids
      (update phase thread .taken) := by
  obtain ⟨_, ⟨⟨⟩, _⟩ | ⟨_, slot, member, named, untaken⟩⟩ := books.items id _ found
  obtain ⟨before, after, rfl, updated, others⟩ := map_of_apart books.apart member
    (fun other => other.id = some id) named (fun other apart => apart.2.1 id named)
    fun other => { other with taker := some thread }
  have changed : record thread (before ++ slot :: after) (.pop id) (some (releaseOf key)) =
      before ++ { slot with taker := some thread } :: after := updated
  rw [changed]
  obtain ⟨unreleased, located, known⟩ := (books.accounted slot member).of_untaken named untaken
  obtain ⟨notOwn, _⟩ := (books.accounted slot member).others fresh
  apply books.replace
  · rfl
  · exact books.bound
  · rfl
  · exact List.Subset.refl _
  · exact .releasing named rfl unreleased ((update_of_ne notOwn _ _).trans located) known
      (update_self _ _ _) (update_self _ _ _)
  · intro other rest
    obtain ⟨among, apart⟩ := others other rest
    have accounted := books.accounted other among
    refine ⟨accounted.frame_fresh fresh _ (List.Subset.refl _) ?_, apart.1,
      apart.2.1, fun _ taken => ?_⟩
    · intro _ named'
      refine update_of_ne ?_ _ _
      rintro rfl
      exact apart.2.1 _ named named'
    · exact (Option.some.inj taken) ▸ (accounted.others fresh).2
  · intro other located
    rcases update_cases located with ⟨_, ⟨⟩⟩ | ⟨_, earlier⟩
    exact earlier
  · intro other located
    rcases update_cases located with ⟨rfl, _⟩ | ⟨_, earlier⟩
    · exact .inr rfl
    · exact .inl ⟨earlier, by simp [untaken]⟩
  · intro other fn listed
    rcases update_cases listed with ⟨_, removed⟩ | ⟨different, before⟩
    · cases removed
    · have unnamed : slot.id ≠ some other := by simpa [named] using Ne.symm different
      exact .inl ⟨before, unnamed, unnamed⟩

theorem free (taking : phase thread = .taken) :
    0 < value ∧ Books key limit (value - 1) items
      (record thread slots (.engine (.env (.store (.releaseLease key)))) (.ok ())) ids
      (update phase thread .ended) := by
  obtain ⟨slot, member, claimed⟩ := books.taken thread taking
  obtain ⟨before, after, rfl, updated, others⟩ := map_of_apart books.apart member
    (fun other => other.taker = some thread) claimed (fun other apart => apart.2.2 thread claimed)
    fun other => { other with releases := other.releases + 1 }
  have notOwn : ∀ other ∈ before ++ slot :: after, other.thread ≠ thread := by
    rintro other member rfl
    rcases (books.accounted other member).thread_phase with located | ⟨_, located⟩
    · rw [taking] at located
      cases located
    · rw [taking] at located
      cases located
  rw [record, updated]
  obtain ⟨id, named, unreleased, located, known, popped⟩ :=
    (books.accounted slot member).of_taken claimed taking
  have positive : 0 < value := by
    rw [books.count]
    exact_mod_cast List.countP_pos_iff.mpr ⟨slot, member, by simp [unreleased]⟩
  refine ⟨positive, ?_⟩
  apply books.replace
  · simp [unreleased]
  · exact (sub_le_self _ zero_le_one).trans books.bound
  · rfl
  · exact List.Subset.refl _
  · exact .released named claimed (by rw [unreleased])
      ((update_of_ne (notOwn slot member) _ _).trans located) known popped
      (update_self _ _ _)
  · intro other rest
    obtain ⟨among, apart⟩ := others other rest
    refine ⟨(books.accounted other among).frame
      (update_of_ne (notOwn other among) _ _) ?_ (fun _ _ => rfl)
      (List.Subset.refl _), apart⟩
    intro taker taken
    refine update_of_ne ?_ _ _
    rintro rfl
    exact apart.2.2 _ claimed taken
  · intro other located
    rcases update_cases located with ⟨_, ⟨⟩⟩ | ⟨_, earlier⟩
    exact earlier
  · intro other located
    rcases update_cases located with ⟨_, ⟨⟩⟩ | ⟨different, earlier⟩
    exact .inl ⟨earlier, by simpa [claimed] using Ne.symm different⟩
  · intro other fn listed
    have different : slot.id ≠ some other := by
      rintro same
      rw [named] at same
      cases same
      rw [popped] at listed
      cases listed
    exact .inl ⟨listed, different, different⟩

end Books

end Books

section Concurrent

variable {π : Type}

/-- The state and the history agree on the slots of the policy. -/
def Balanced (key : String) (limit : Int) (state : LeaseState π MemoryStore) (log : LeaseLog) :
    Prop :=
  Books key limit (state.store.cells key).lease.value state.items (slotsOf log) (issued log)
    (phases log)

/-- A new lease ID is none of those made before. -/
def Distinct (newID : Reading → String) (_ : LeaseState π MemoryStore) (log : LeaseLog) (_ : Nat)
    (reading : Reading) (op : LeaseOp) : Prop :=
  ∀ fn, op = .put fn → newID reading ∉ issued log

instance Distinct.decide (newID : Reading → String) (state : LeaseState π MemoryStore)
    (log : LeaseLog) (thread : Nat) (reading : Reading) :
    (op : LeaseOp) → Decidable (Distinct newID state log thread reading op)
  | .put fn =>
      decidable_of_iff (newID reading ∉ issued log) ⟨fun new _ _ => new, fun all => all fn rfl⟩
  | .engine _ => isTrue nofun
  | .pop _ => isTrue nofun

/-- The leases of the policy have not elapsed when the operation is made. -/
def Unelapsed (key : String) (state : LeaseState π MemoryStore) (_ : LeaseLog) (_ : Nat)
    (reading : Reading) (_ : LeaseOp) : Prop :=
  (state.store.cells key).lease.expired reading.time.nanos = false

instance Unelapsed.decide (key : String) (state : LeaseState π MemoryStore) (log : LeaseLog)
    (thread : Nat) (reading : Reading) (op : LeaseOp) :
    Decidable (Unelapsed key state log thread reading op) :=
  inferInstanceAs (Decidable (_ = false))

variable {policies : Handler PolicyOp PolicyRes π Time} {A : Arith} {policy : Policy}
  {key : String} {limit : Int} {ttl : Duration} {newID : Reading → String}
  {state : LeaseState π MemoryStore} {log : LeaseLog} {thread : Nat} {reading : Reading} {op : LeaseOp}

theorem balanced_snoc {answer : LeaseRes op} :
    Balanced key limit state (log ++ [⟨thread, reading, ⟨op, answer⟩⟩]) ↔
      Books key limit (state.store.cells key).lease.value state.items
        (record thread (slotsOf log) op answer) (issued log ++ newIDOf op answer)
        (update (phases log) thread ((phases log thread).advance op answer)) := by
  rw [Balanced, slotsOf_snoc, issued_snoc, phases_snoc]

theorem acquire_balanced (A : Arith) (positive : 0 < limit) (balanced : Balanced key limit state log)
    (unelapsed : Unelapsed key state log thread reading op) (fresh : phases log thread = .fresh) :
    let acquired := state.store.handle A reading.time.nanos (.acquireLease key limit ttl)
    Balanced key limit { state with store := acquired.2 } (log ++ [⟨thread, reading,
      ⟨.engine (.env (.store (.acquireLease key limit ttl))), acquired.1⟩⟩]) := by
  have answer := MemoryStore.acquireLease_answer A reading.time.nanos key positive ttl state.store
  have lease := MemoryStore.acquireLease_lease A reading.time.nanos key positive ttl state.store
  rw [ValueItem.live_of_unexpired unelapsed] at answer lease
  rw [balanced_snoc, lease, answer, fresh]
  simp only [newIDOf, List.append_nil]
  split_ifs with room
  · rw [ValueItem.arm_value]
    exact Books.grant balanced fresh room
  · simp only [record, SlotPhase.advance, update_phases_self log thread fresh]
    exact balanced

theorem release_balanced (A : Arith) (balanced : Balanced key limit state log)
    (unelapsed : Unelapsed key state log thread reading op) (taken : phases log thread = .taken) :
    let released := state.store.handle A reading.time.nanos (.releaseLease key)
    Balanced key limit { state with store := released.2 } (log ++ [⟨thread, reading,
      ⟨.engine (.env (.store (.releaseLease key))), released.1⟩⟩]) := by
  have lease := MemoryStore.releaseLease_lease A reading.time.nanos key state.store
  obtain ⟨positive, freed⟩ := Books.free balanced taken
  rw [ValueItem.live_of_unexpired unelapsed, if_pos positive] at lease
  rw [balanced_snoc, lease]
  simp only [newIDOf, List.append_nil]
  exact freed

theorem pop_balanced (balanced : Balanced key limit state log) (fresh : phases log thread = .fresh)
    (id : String) :
    Expected policy key (.pop id) (state.items.pop id).1 ∧
      Balanced key limit { state with items := (state.items.pop id).2 }
        (log ++ [⟨thread, reading, ⟨.pop id, (state.items.pop id).1⟩⟩]) := by
  rw [balanced_snoc, fresh]
  simp only [LeaseItems.pop_fst, LeaseItems.pop_snd, newIDOf, List.append_nil]
  cases found : state.items id with
  | none =>
      refine ⟨by simp [Expected], ?_⟩
      rw [update_eq_self_iff.mpr found.symm]
      exact Books.pop_missing balanced fresh
  | some fn =>
      obtain ⟨_, ⟨rfl, _⟩ | ⟨rfl, _⟩⟩ := Books.items balanced id fn found
      · exact ⟨by simp [Expected], Books.pop_noop balanced fresh found⟩
      · exact ⟨by simp [Expected], Books.take balanced fresh found⟩

/-- Every operation a request may perform keeps the books. -/
theorem perform_balanced (positive : 0 < limit)
    (served : ∀ time op side, Offers policy op (policies time op side).1)
    (balanced : Balanced key limit state log)
    (distinct : Distinct newID state log thread reading op)
    (unelapsed : Unelapsed key state log thread reading op)
    (allowed : Allowed key limit ttl (phases log thread) op) :
    Expected policy key op (perform policies (MemoryStore.env A) newID reading op state).1 ∧
      Balanced key limit (perform policies (MemoryStore.env A) newID reading op state).2
        (log ++ [⟨thread, reading,
          ⟨op, (perform policies (MemoryStore.env A) newID reading op state).1⟩⟩]) := by
  generalize reached : phases log thread = phase at allowed
  cases allowed with
  | @resolve op =>
      refine ⟨served reading.time op state.side, ?_⟩
      rw [balanced_snoc, reached]
      simp only [newIDOf, List.append_nil, record, SlotPhase.advance,
        update_phases_self log thread reached]
      exact balanced
  | acquire => exact ⟨trivial, acquire_balanced A positive balanced unelapsed reached⟩
  | release => exact ⟨trivial, release_balanced A balanced unelapsed reached⟩
  | pop => exact pop_balanced balanced reached _
  | note =>
      refine ⟨trivial, ?_⟩
      rw [balanced_snoc, reached]
      exact Books.note balanced reached (distinct _ rfl)
  | register =>
      refine ⟨trivial, ?_⟩
      rw [balanced_snoc, reached]
      exact Books.register balanced reached (distinct _ rfl)

/-- The request has operations left to perform. -/
def InProgress (pool : Pool LeaseOp LeaseRes HTTP.Reply (LeaseState π MemoryStore) Reading)
    (thread : Nat) : Prop :=
  ∃ op next, pool.threads[thread]? = some (.call op next)

/-- The slot is registered under the lease ID its client was sent. -/
def Registered (key : String)
    (pool : Pool LeaseOp LeaseRes HTTP.Reply (LeaseState π MemoryStore) Reading) (slot : Slot) : Prop :=
  ∃ response, pool.threads[slot.thread]? = some (.done (.acquired response)) ∧
    slot.id = some response.leaseID ∧ pool.state.items response.leaseID = some (releaseOf key)

/-- The slot is in the middle of its own request, or of the release that took it. -/
def InHand (pool : Pool LeaseOp LeaseRes HTTP.Reply (LeaseState π MemoryStore) Reading)
    (slot : Slot) : Prop :=
  (slot.id = none ∧ InProgress pool slot.thread) ∨
    ∃ taker, slot.taker = some taker ∧ InProgress pool taker

section Followed

variable {pool : Pool LeaseOp LeaseRes HTTP.Reply (LeaseState π MemoryStore) Reading}
  (followed : pool.Followed (fun _ => handling policy key limit ttl) fun _ => .fresh)

include followed

theorem inProgress_of_held (known : thread < pool.threads.length)
    (held : phases pool.history thread = .granted ∨ phases pool.history thread = .taken) :
    InProgress pool thread := by
  obtain ⟨program, found⟩ : ∃ program, pool.threads[thread]? = some program :=
    ⟨_, List.getElem?_eq_getElem known⟩
  have accepted := followed thread program found
  cases program with
  | call op next => exact ⟨op, next, found⟩
  | done reply =>
      have ended : (handling policy key limit ttl).accept (phases pool.history thread) reply := accepted
      rcases held with granted | taken
      · rw [granted] at ended
        cases ended
      · rw [taken] at ended
        cases ended

theorem done_of_registered (known : thread < pool.threads.length) {id : String}
    (registered : phases pool.history thread = .registered id) :
    ∃ response, pool.threads[thread]? = some (.done (.acquired response)) ∧
      response.leaseID = id := by
  obtain ⟨program, found⟩ : ∃ program, pool.threads[thread]? = some program :=
    ⟨_, List.getElem?_eq_getElem known⟩
  have accepted := followed thread program found
  cases program with
  | call op next =>
      have allowed : Allowed key limit ttl (phases pool.history thread) op := accepted.1
      rw [registered] at allowed
      cases allowed
  | done reply =>
      have ended : (handling policy key limit ttl).accept (phases pool.history thread) reply := accepted
      rw [registered] at ended
      obtain ⟨response, rfl, named⟩ := ended
      exact ⟨response, found, named⟩

end Followed

theorem balanced_start (positive : 0 < limit) {side : π} {store : MemoryStore}
    (absent : (store.cells key).lease.value = 0) :
    Balanced key limit ({ side, store } : LeaseState π MemoryStore) [] := by
  refine ⟨absent, absent.trans_le positive.le, by simp [slotsOf], by simp [slotsOf], ?_, ?_, ?_⟩
  · intro thread granted
    cases granted
  · intro thread taken
    cases taken
  · intro id fn found
    cases found

theorem interleaved_balanced {engine : DefaultEngine} {requests : List HTTP.Request} {side : π}
    {store : MemoryStore} {schedule : List (Nat × Reading)}
    (concurrency : policy.algorithm.type = .concurrency)
    (served : ∀ time op side, Offers policy op (policies time op side).1)
    (absent : (store.cells (leaseKey engine.keyBuilder policy)).lease.value = 0)
    (along : (Pool.start (requests.map (HTTP.Request.handler A engine)) { side, store }).Along
      (perform policies (MemoryStore.env A) HTTP.newID) (fun state log thread reading op =>
        Distinct HTTP.newID state log thread reading op ∧
          Unelapsed (leaseKey engine.keyBuilder policy) state log thread reading op) schedule) :
    let pool := HTTP.interleaved A engine policies requests side store schedule
    pool.Followed (fun _ => handling policy (leaseKey engine.keyBuilder policy)
        (leaseLimit policy.algorithm) (leaseDuration A policy.algorithm)) (fun _ => .fresh) ∧
      Balanced (leaseKey engine.keyBuilder policy) (leaseLimit policy.algorithm) pool.state
        pool.history ∧
      ∀ thread, phases pool.history thread ≠ .fresh → thread < pool.threads.length := by
  intro pool
  have size : pool.threads.length = requests.length :=
    (Pool.run_threads_length _ schedule _).trans (List.length_map _)
  rw [size]
  refine Pool.run_invariant _ (fun _ => handling policy (leaseKey engine.keyBuilder policy)
      (leaseLimit policy.algorithm) (leaseDuration A policy.algorithm)) (fun _ => .fresh)
    (fun state log => Balanced (leaseKey engine.keyBuilder policy) (leaseLimit policy.algorithm)
      state log ∧ ∀ thread, phases log thread ≠ .fresh → thread < requests.length)
    ?_ schedule _ (List.length_map _) (Pool.followed_start ?_)
    ⟨balanced_start (leaseLimit_pos _) absent, fun _ moved => absurd rfl moved⟩ along
  · intro state log thread reading op known kept holds allowed
    obtain ⟨expected, balanced⟩ := perform_balanced (leaseLimit_pos _) served kept.1 holds.1
      holds.2 allowed
    refine ⟨expected, balanced, fun other moved => ?_⟩
    rw [phases_snoc] at moved
    by_cases same : other = thread
    · exact same ▸ known
    · rw [update_of_ne same] at moved
      exact kept.2 other moved
  · intro thread program found
    obtain ⟨request, _, rfl⟩ := List.mem_map.mp (List.mem_of_getElem? found)
    exact handler_accepts concurrency request

/-- Along every interleaving of acquire and release requests, with distinct lease
IDs and no lease elapsing, the lease counter is the number of slots granted and
not yet released and at most the limit; no slot is released twice, and one that
is not released is registered for its client or in the hands of a request. -/
theorem slots_accounted {π : Type} (policies : Handler PolicyOp PolicyRes π Time) (A : Arith)
    (engine : DefaultEngine) (policy : Policy) (requests : List HTTP.Request) (side : π)
    (store : MemoryStore) (schedule : List (Nat × Reading))
    (concurrency : policy.algorithm.type = .concurrency)
    (served : ∀ time op side, Offers policy op (policies time op side).1)
    (absent : (store.cells (leaseKey engine.keyBuilder policy)).lease.value = 0)
    (distinct : (Pool.start (requests.map (HTTP.Request.handler A engine)) { side, store }).Along
      (perform policies (MemoryStore.env A) HTTP.newID) (Distinct HTTP.newID) schedule)
    (unelapsed : (Pool.start (requests.map (HTTP.Request.handler A engine)) { side, store }).Along
      (perform policies (MemoryStore.env A) HTTP.newID)
      (Unelapsed (leaseKey engine.keyBuilder policy)) schedule) :
    let pool := HTTP.interleaved A engine policies requests side store schedule
    let counter := (pool.state.store.cells (leaseKey engine.keyBuilder policy)).lease.value
    counter = (slotsOf pool.history).countP (fun slot => slot.releases = 0) ∧
      counter ≤ leaseLimit policy.algorithm ∧
      ∀ slot ∈ slotsOf pool.history, slot.releases ≤ 1 ∧
        (slot.releases = 0 →
          Registered (leaseKey engine.keyBuilder policy) pool slot ∨ InHand pool slot) := by
  intro pool counter
  obtain ⟨followed, balanced, known⟩ := interleaved_balanced concurrency served absent
    (distinct.and unelapsed)
  refine ⟨balanced.count, balanced.bound, fun slot member => ?_⟩
  cases Books.accounted balanced slot member with
  | acquiring unnamed _ unreleased located =>
      refine ⟨by omega, fun _ => .inr (.inl ⟨unnamed, ?_⟩)⟩
      exact inProgress_of_held followed (known _ (by simp [located])) (.inl located)
  | registered named _ unreleased located _ listed =>
      refine ⟨by omega, fun _ => .inl ?_⟩
      obtain ⟨response, answered, rfl⟩ :=
        done_of_registered followed (known _ (by simp [located])) located
      exact ⟨response, answered, named, listed⟩
  | @releasing _ taker _ taken unreleased _ _ _ located =>
      refine ⟨by omega, fun _ => .inr (.inr ⟨taker, taken, ?_⟩)⟩
      exact inProgress_of_held followed (known _ (by simp [located])) (.inr located)
  | released _ _ released =>
      refine ⟨by omega, fun unreleased => ?_⟩
      rw [released] at unreleased
      cases unreleased

private def zeroReading : Reading := { time := ⟨0, utc⟩, random := Vector.replicate 16 0 }

/-- An acquire request up to its reply, then a release of its lease that is
interrupted between the registry and the store. -/
private def handover : List (Nat × Reading) :=
  [0, 0, 0, 0, 1].map fun thread => (thread, zeroReading)

private def handoverRequests : List HTTP.Request :=
  [.acquire (some {}), .release (some (HTTP.newID zeroReading))]

private def handoverEngine : DefaultEngine := standardEngine .machine true plainBuilder

theorem slots_accounted_in_handover :
    let pool := HTTP.interleaved .machine handoverEngine (listed .deny) handoverRequests ()
      (.newSharded 1) handover
    (pool.state.store.cells (leaseKey plainBuilder (limited .deny))).lease.value = 1 ∧
      ∀ slot ∈ slotsOf pool.history, slot.releases = 0 →
        Registered (leaseKey plainBuilder (limited .deny)) pool slot ∨ InHand pool slot := by
  have accounted := slots_accounted (listed .deny) .machine handoverEngine (limited .deny)
    handoverRequests () (.newSharded 1) handover rfl (ClientRun.listed_offers .deny) rfl (by decide)
    (by decide)
  exact ⟨by decide, fun slot member => (accounted.2.2 slot member).2⟩

end Concurrent

end Rlaas.Adapter
