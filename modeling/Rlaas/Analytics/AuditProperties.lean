import Rlaas.Analytics.Audit

/-! Delivery of the audit records. What was accepted is at every moment what was passed on,
the record in the hands of the loop and the queue, in this order. -/

set_option autoImplicit false

namespace Rlaas.Analytics

open Effect Function

variable {R : Type}
variable {early : List (Sent R)} {thread : Nat}

/-- Where a call of `Log`, the call of `Close` or the loop is. -/
inductive Stage (R : Type) where
  | asking (sent : Sent R)
  | answered (sent : Sent R) (accepted : Bool)
  | closing
  | waiting
  | finishing
  | closed
  | selecting
  | writing (sent : Sent R)
  | draining
  | rewriting (sent : Sent R)
  | drained
  | ended

namespace Stage

def guard : Stage R → AuditOp R → Prop
  | .asking sent, op => op = .send sent
  | .closing, op => op = .closeStop
  | .waiting, op => op = .waitDone
  | .finishing, op => op = .innerClose
  | .selecting, op => op = .select
  | .writing sent, op => op = .innerLog sent
  | .draining, op => op = .receive
  | .rewriting sent, op => op = .innerLog sent
  | .drained, op => op = .closeDone
  | _, _ => False

def advance : Stage R → (op : AuditOp R) → AuditRes op → Stage R
  | .asking sent, .send _, accepted => .answered sent accepted
  | .closing, .closeStop, _ => .waiting
  | .waiting, .waitDone, _ => .finishing
  | .finishing, .innerClose, _ => .closed
  | .selecting, .select, .record sent => .writing sent
  | .selecting, .select, .stop => .draining
  | .writing _, .innerLog _, _ => .selecting
  | .draining, .receive, some sent => .rewriting sent
  | .draining, .receive, none => .drained
  | .rewriting _, .innerLog _, _ => .draining
  | .drained, .closeDone, _ => .ended
  | stage, _, _ => stage

def accept : Stage R → AuditResult → Prop
  | .answered _ accepted, result => result = .logged (if accepted then none else some bufferFull)
  | .closed, result => ∃ err, result = .closed err
  | .ended, result => result = .looped true
  | .selecting, result => result = .looped false
  | .draining, result => result = .looped false
  | _, _ => False

end Stage

def watch : Monitor (AuditOp R) AuditRes (Stage R) AuditResult where
  expects _ _ _ := True
  guard := Stage.guard
  advance := Stage.advance
  accept := Stage.accept

theorem log_watched (sent : Sent R) : watch.Accepts (.asking sent) (log sent) :=
  ⟨rfl, fun _ _ => rfl⟩

theorem close_watched : watch.Accepts (.closing : Stage R) close :=
  ⟨rfl, fun _ _ => ⟨rfl, fun _ _ => ⟨rfl, fun err _ => ⟨err, rfl⟩⟩⟩⟩

/-- Where the drain is when it has ended or was cut off. -/
def Drained (stage : Stage R) : Option Unit → Prop
  | some () => stage = .drained
  | none => stage = .draining

theorem drain_watched (rounds : Nat) :
    (watch.returning Drained).Accepts (.draining : Stage R) (drainRound.rounds rounds) := by
  refine Monitor.accepts_rounds (fun stage draining => ?_) rounds rfl
  cases draining
  refine ⟨rfl, fun received _ => ?_⟩
  cases received with
  | none => rfl
  | some sent => exact ⟨rfl, fun _ _ => rfl⟩

def Left (stage : Stage R) : Option (Option Unit) → Prop
  | some drained => Drained stage drained
  | none => stage = .selecting

theorem loop_watched (rounds : Nat) : watch.Accepts (.selecting : Stage R) (loop rounds) := by
  have left : (watch.returning Left).Accepts (.selecting : Stage R)
      ((loopRound rounds).rounds rounds) := by
    refine Monitor.accepts_rounds (fun stage selecting => ?_) rounds rfl
    cases selecting
    refine ⟨rfl, fun selected _ => ?_⟩
    cases selected with
    | record sent => exact ⟨rfl, fun _ _ => rfl⟩
    | stop => exact Monitor.Accepts.bind (drain_watched rounds) fun _ _ drained => drained
  refine left.bind fun stage left ended => ?_
  cases left with
  | none => cases ended; rfl
  | some drained =>
      cases drained with
      | none => cases ended; rfl
      | some _ => cases ended; exact ⟨rfl, fun _ _ => rfl⟩

/-! ## Which thread is where -/

inductive Role (R : Type) where
  | log (sent : Sent R)
  | close
  | loop

def Stage.role : Stage R → Role R
  | .asking sent => .log sent
  | .answered sent _ => .log sent
  | .closing => .close
  | .waiting => .close
  | .finishing => .close
  | .closed => .close
  | _ => .loop

theorem Stage.role_advance (stage : Stage R) (op : AuditOp R) (answer : AuditRes op) :
    (stage.advance op answer).role = stage.role := by
  unfold Stage.advance
  split <;> rfl

theorem Stage.unanswered {stage : Stage R} {role : Role R} (same : stage.role = role)
    (other : ∀ sent, role ≠ .log sent) (sent : Sent R) : stage ≠ .answered sent true := by
  intro answered
  rw [answered] at same
  exact other sent same.symm

section Guard

variable {stage : Stage R} {role : Role R} {op : AuditOp R}

theorem Stage.unsent_of_guard (same : stage.role = role) (other : ∀ sent, role ≠ .log sent)
    (guarded : stage.guard op) (answer : AuditRes op) : sentItem op answer = none := by
  cases stage with
  | asking sent => exact absurd same.symm (other sent)
  | answered sent told => cases guarded
  | closed => cases guarded
  | ended => cases guarded
  | _ => cases guarded; rfl

theorem Stage.unpassed_of_guard (same : stage.role = role) (other : role ≠ .loop)
    (guarded : stage.guard op) : passedItem op = none := by
  cases stage with
  | writing sent => exact absurd same.symm other
  | rewriting sent => exact absurd same.symm other
  | answered sent told => cases guarded
  | closed => cases guarded
  | ended => cases guarded
  | _ => cases guarded; rfl

theorem Stage.asking_of_guard {sent : Sent R} (log : stage.role = .log sent)
    (guarded : stage.guard op) : stage = .asking sent ∧ op = .send sent := by
  cases stage with
  | asking sent =>
      cases log
      cases guarded
      exact ⟨rfl, rfl⟩
  | answered sent told => cases guarded
  | _ => cases log

end Guard

def initially (records : List R) : Nat → Stage R
  | 0 => .selecting
  | 1 => .closing
  | n + 2 => (records[n]?).elim .closed fun record => .asking ⟨n + 2, record⟩

theorem initially_unanswered (records : List R) (thread : Nat) (sent : Sent R) :
    initially records thread ≠ .answered sent true := by
  match thread with
  | 0 => exact nofun
  | 1 => exact nofun
  | n + 2 =>
      rw [initially]
      cases records[n]? with
      | none => exact nofun
      | some record => exact nofun

def stagesOf (records : List R) (history : List (Entry (AuditOp R) AuditRes AuditReading)) :
    Nat → Stage R :=
  Pool.stages (fun _ => watch) (initially records) history

theorem begin_followed (bufSize : Int) (rounds : Nat) (records : List R) :
    (AuditPool.begin bufSize rounds records).Followed (fun _ => watch) (initially records) := by
  refine Pool.followed_start fun thread program found => ?_
  cases thread with
  | zero =>
      obtain rfl := Option.some.inj found
      exact loop_watched rounds
  | succ thread =>
      cases thread with
      | zero =>
          obtain rfl := Option.some.inj found
          exact close_watched
      | succ n =>
          rw [List.getElem?_cons_succ, List.getElem?_cons_succ, List.getElem?_mapIdx] at found
          obtain ⟨record, listed, rfl⟩ := Option.map_eq_some_iff.mp found
          rw [initially, listed]
          exact log_watched _

def Role.Fits (thread : Nat) : Role R → Prop
  | .log sent => sent.call = thread ∧ 2 ≤ thread
  | .close => thread = 1
  | .loop => thread = 0

theorem role_fits {records : List R} (inside : thread < records.length + 2)
    (history : List (Entry (AuditOp R) AuditRes AuditReading)) :
    (stagesOf records history thread).role.Fits thread := by
  have same : (stagesOf records history thread).role = (initially records thread).role :=
    watch.follow_kept Stage.role Stage.role_advance _ _
  rw [same]
  match thread with
  | 0 => rfl
  | 1 => rfl
  | n + 2 =>
      have listed : n < records.length := by omega
      rw [initially, List.getElem?_eq_getElem listed]
      exact ⟨rfl, Nat.le_add_left 2 n⟩

/-! ## What was accepted and what was passed on -/

namespace Stage

/-- The record the loop has received and not passed on yet. -/
def inHand : Stage R → List (Sent R)
  | .writing sent => [sent]
  | .rewriting sent => [sent]
  | _ => []

def stopping : Stage R → Bool
  | .draining => true
  | .rewriting _ => true
  | .drained => true
  | .ended => true
  | _ => false

/-- The drain has found the channel empty. -/
def settled : Stage R → Bool
  | .drained => true
  | .ended => true
  | _ => false

/-- `Close` has seen `done`. -/
def released : Stage R → Bool
  | .finishing => true
  | .closed => true
  | _ => false

end Stage

/-- What the queue, the loop and `Close` have to do with each other, for records `early` that
were accepted before `Close` was called. -/
structure Delivering (early : List (Sent R)) (logger : AsyncAuditLogger R) (loop close : Stage R)
    (accepted passed : List (Sent R)) : Prop where
  conserved : accepted = passed ++ loop.inHand ++ logger.ch.queue
  first : early <+: accepted
  stopped : loop.stopping = true → logger.stop = true
  settled : loop.settled = true → early <+: passed
  finished : logger.done = true ↔ loop = .ended
  released : close.released = true → logger.done = true
  begun : logger.stop = true → close ≠ .closing

namespace Delivering

variable {early accepted passed : List (Sent R)} {logger : AsyncAuditLogger R}
  {loop close : Stage R} {sent : Sent R} {ch : Channel (Sent R)}

section

variable (delivering : Delivering early logger loop close accepted passed)

include delivering

theorem accept (grown : ch.queue = logger.ch.queue ++ [sent]) :
    Delivering early { logger with ch } loop close (accepted ++ [sent]) passed :=
  { delivering with
    conserved := by rw [grown, ← List.append_assoc, ← delivering.conserved]
    first := delivering.first.trans (List.prefix_append _ _) }

theorem stop :
    Delivering early { logger with stop := true } loop .waiting accepted passed :=
  { delivering with
    stopped := fun _ => rfl
    released := nofun
    begun := fun _ => nofun }

theorem release (done : logger.done = true) :
    Delivering early logger loop .finishing accepted passed :=
  { delivering with
    released := fun _ => done
    begun := fun _ => nofun }

end

theorem finish (delivering : Delivering early logger loop .finishing accepted passed) :
    Delivering early logger loop .closed accepted passed :=
  { delivering with
    released := fun _ => delivering.released rfl
    begun := fun _ => nofun }

theorem take (delivering : Delivering early logger .selecting close accepted passed)
    (found : logger.ch.queue = sent :: ch.queue) :
    Delivering early { logger with ch } (.writing sent) close accepted passed :=
  { delivering with
    conserved := by
      rw [delivering.conserved, found]
      simp [Stage.inHand]
    stopped := nofun
    settled := nofun
    finished := iff_of_false (fun done => nomatch delivering.finished.mp done) nofun }

theorem pass (delivering : Delivering early logger (.writing sent) close accepted passed) :
    Delivering early logger .selecting close accepted (passed ++ [sent]) :=
  { delivering with
    conserved := by
      rw [delivering.conserved]
      simp [Stage.inHand]
    stopped := nofun
    settled := nofun
    finished := iff_of_false (fun done => nomatch delivering.finished.mp done) nofun }

theorem turn (delivering : Delivering early logger .selecting close accepted passed)
    (stopped : logger.stop = true) :
    Delivering early logger .draining close accepted passed :=
  { delivering with
    stopped := fun _ => stopped
    settled := nofun
    finished := iff_of_false (fun done => nomatch delivering.finished.mp done) nofun }

theorem drain (delivering : Delivering early logger .draining close accepted passed)
    (found : logger.ch.queue = sent :: ch.queue) :
    Delivering early { logger with ch } (.rewriting sent) close accepted passed :=
  { delivering with
    conserved := by
      rw [delivering.conserved, found]
      simp [Stage.inHand]
    stopped := fun _ => delivering.stopped rfl
    settled := nofun
    finished := iff_of_false (fun done => nomatch delivering.finished.mp done) nofun }

theorem drainPass (delivering : Delivering early logger (.rewriting sent) close accepted passed) :
    Delivering early logger .draining close accepted (passed ++ [sent]) :=
  { delivering with
    conserved := by
      rw [delivering.conserved]
      simp [Stage.inHand]
    stopped := fun _ => delivering.stopped rfl
    settled := nofun
    finished := iff_of_false (fun done => nomatch delivering.finished.mp done) nofun }

/-- The channel is empty when the drain ends, so all that was accepted has been passed on. -/
theorem settle (delivering : Delivering early logger .draining close accepted passed)
    (empty : logger.ch.queue = []) :
    Delivering early logger .drained close accepted passed :=
  { delivering with
    stopped := fun _ => delivering.stopped rfl
    settled := fun _ => by
      have all : accepted = passed ++ [] ++ logger.ch.queue := delivering.conserved
      rw [empty, List.append_nil, List.append_nil] at all
      exact all ▸ delivering.first
    finished := iff_of_false (fun done => nomatch delivering.finished.mp done) nofun }

theorem leave (delivering : Delivering early logger .drained close accepted passed) :
    Delivering early { logger with done := true } .ended close accepted passed :=
  { delivering with
    stopped := fun _ => delivering.stopped rfl
    settled := fun _ => delivering.settled rfl
    finished := iff_of_true rfl rfl
    released := fun _ => rfl }

theorem select (delivering : Delivering early logger .selecting close accepted passed)
    (reading : AuditReading) (free : logger.blocked .select = false) :
    Delivering early (logger.perform reading .select).2
      (Stage.selecting.advance .select (logger.perform reading .select).1) close accepted passed := by
  rw [AsyncAuditLogger.perform]
  split_ifs with stop
  · exact delivering.turn (Bool.and_eq_true_iff.mp stop).1
  · obtain ⟨empty, same⟩ | ⟨sent, ch, same, found, _⟩ := logger.ch.tryReceive_cases
    · cases running : logger.stop with
      | false => simp [AsyncAuditLogger.blocked, empty, running] at free
      | true => simp [empty, running] at stop
    · rw [same]
      exact delivering.take found

theorem receive (delivering : Delivering early logger .draining close accepted passed)
    (reading : AuditReading) :
    Delivering early (logger.perform reading .receive).2
      (Stage.draining.advance .receive (logger.perform reading .receive).1) close accepted
      passed := by
  rw [AsyncAuditLogger.perform]
  obtain ⟨empty, same⟩ | ⟨sent, ch, same, found, _⟩ := logger.ch.tryReceive_cases
  · rw [same]
    exact delivering.settle empty
  · rw [same]
    exact delivering.drain found

theorem loopStep (delivering : Delivering early logger loop close accepted passed)
    (role : loop.role = .loop) (reading : AuditReading) {op : AuditOp R} (guarded : loop.guard op)
    (free : logger.blocked op = false) :
    Delivering early (logger.perform reading op).2
      (loop.advance op (logger.perform reading op).1) close accepted
      (passed ++ (passedItem op).toList) := by
  have unpassed : passed ++ [] = passed := List.append_nil passed
  cases loop with
  | selecting =>
      cases guarded
      exact unpassed.symm ▸ delivering.select reading free
  | writing sent =>
      cases guarded
      exact delivering.pass
  | draining =>
      cases guarded
      exact unpassed.symm ▸ delivering.receive reading
  | rewriting sent =>
      cases guarded
      exact delivering.drainPass
  | drained =>
      cases guarded
      exact unpassed.symm ▸ delivering.leave
  | ended => cases guarded
  | _ => cases role

theorem closeStep (delivering : Delivering early logger loop close accepted passed)
    (role : close.role = .close) (reading : AuditReading) {op : AuditOp R}
    (guarded : close.guard op) (free : logger.blocked op = false) :
    Delivering early (logger.perform reading op).2 loop
      (close.advance op (logger.perform reading op).1) accepted passed := by
  cases close with
  | closing =>
      cases guarded
      exact delivering.stop
  | waiting =>
      cases guarded
      exact delivering.release (by simpa [AsyncAuditLogger.blocked] using free)
  | finishing =>
      cases guarded
      exact delivering.finish
  | closed => cases guarded
  | _ => cases role

end Delivering

/-- The accepted records are those whose call has been told so. -/
structure Accounted (stages : Nat → Stage R) (accepted : List (Sent R)) : Prop where
  told : ∀ sent, sent ∈ accepted ↔ stages sent.call = .answered sent true
  distinct : accepted.Nodup

namespace Accounted

variable {stages : Nat → Stage R} {accepted : List (Sent R)} {sent : Sent R}

theorem move (accounted : Accounted stages accepted) {next : Stage R}
    (before : ∀ sent, stages thread ≠ .answered sent true)
    (after : ∀ sent, next ≠ .answered sent true) :
    Accounted (update stages thread next) accepted where
  told sent := by
    rw [accounted.told]
    by_cases same : sent.call = thread
    · rw [same, update_self]
      exact iff_of_false (before sent) (after sent)
    · rw [update_of_ne same]
  distinct := accounted.distinct

theorem accept (accounted : Accounted stages accepted)
    (asking : stages sent.call = .asking sent) :
    Accounted (update stages sent.call (.answered sent true)) (accepted ++ [sent]) where
  told other := by
    rw [List.mem_append, List.mem_singleton, accounted.told]
    by_cases same : other.call = sent.call
    · rw [same, update_self, asking]
      constructor
      · intro either
        cases either with
        | inl never => cases never
        | inr equal => rw [equal]
      · intro answered
        cases answered
        exact .inr rfl
    · rw [update_of_ne same]
      exact or_iff_left fun equal => same (congrArg Sent.call equal)
  distinct := by
    refine List.nodup_append.mpr ⟨accounted.distinct, List.nodup_singleton sent, ?_⟩
    intro other member last same
    rw [List.mem_singleton] at same
    intro equal
    rw [equal, same, accounted.told, asking] at member
    cases member

end Accounted

structure Audited (early : List (Sent R)) (logger : AsyncAuditLogger R) (stages : Nat → Stage R)
    (accepted passed : List (Sent R)) : Prop where
  delivering : Delivering early logger (stages 0) (stages 1) accepted passed
  accounted : Accounted stages accepted

namespace Audited

variable {early accepted passed : List (Sent R)} {logger after : AsyncAuditLogger R}
  {stages : Nat → Stage R} {next : Stage R}

section

variable (audited : Audited early logger stages accepted passed)

include audited

theorem loopMove {passed' : List (Sent R)} (loop : (stages 0).role = .loop)
    (stays : next.role = .loop)
    (delivering : Delivering early after next (stages 1) accepted passed') :
    Audited early after (update stages 0 next) accepted passed' where
  delivering := by
    rw [update_self, update_of_ne (by decide)]
    exact delivering
  accounted := audited.accounted.move (Stage.unanswered loop nofun) (Stage.unanswered stays nofun)

theorem closeMove (close : (stages 1).role = .close) (stays : next.role = .close)
    (delivering : Delivering early after (stages 0) next accepted passed) :
    Audited early after (update stages 1 next) accepted passed where
  delivering := by
    rw [update_self, update_of_ne (by decide)]
    exact delivering
  accounted := audited.accounted.move (Stage.unanswered close nofun) (Stage.unanswered stays nofun)

theorem logMove {sent : Sent R} (fits : sent.call = thread ∧ 2 ≤ thread)
    (asking : stages thread = .asking sent) :
    Audited early { logger with ch := (logger.ch.trySend sent).2 }
      (update stages thread (.answered sent (logger.ch.trySend sent).1))
      (accepted ++ (sentItem (.send sent) (logger.ch.trySend sent).1).toList) passed := by
  obtain ⟨rfl, late⟩ := fits
  have loop : (update stages sent.call (.answered sent (logger.ch.trySend sent).1)) 0 =
      stages 0 := update_of_ne (by omega) _ _
  have close : (update stages sent.call (.answered sent (logger.ch.trySend sent).1)) 1 =
      stages 1 := update_of_ne (by omega) _ _
  obtain ⟨ch, same, grown, _⟩ | ⟨same, _⟩ := logger.ch.trySend_cases sent
  · rw [same] at loop close ⊢
    refine ⟨?_, audited.accounted.accept asking⟩
    rw [loop, close]
    exact audited.delivering.accept grown
  · rw [same] at loop close ⊢
    have unsent : accepted ++ (sentItem (.send sent) false).toList = accepted := List.append_nil _
    rw [unsent]
    refine ⟨?_, audited.accounted.move ?_ ?_⟩
    · rw [loop, close]
      exact audited.delivering
    · intro other answered
      cases asking.symm.trans answered
    · intro other answered
      cases answered

theorem step (fits : (stages thread).role.Fits thread) (reading : AuditReading) (op : AuditOp R)
    (guarded : (stages thread).guard op) (free : logger.blocked op = false) :
    Audited early (logger.perform reading op).2
      (update stages thread
        ((stages thread).advance op (logger.perform reading op).1))
      (accepted ++ (sentItem op (logger.perform reading op).1).toList)
      (passed ++ (passedItem op).toList) := by
  have stays := (stages thread).role_advance op (logger.perform reading op).1
  cases role : (stages thread).role with
  | log sent =>
      rw [role] at fits
      obtain ⟨asking, rfl⟩ := Stage.asking_of_guard role guarded
      rw [asking]
      exact (List.append_nil passed).symm ▸ audited.logMove fits asking
  | close =>
      rw [role] at fits stays
      cases fits
      rw [Stage.unsent_of_guard role nofun guarded, Stage.unpassed_of_guard role nofun guarded,
        Option.toList_none, List.append_nil, List.append_nil]
      exact audited.closeMove role stays (audited.delivering.closeStep role reading guarded free)
  | loop =>
      rw [role] at fits stays
      cases fits
      rw [Stage.unsent_of_guard role nofun guarded, Option.toList_none, List.append_nil]
      exact audited.loopMove role stays (audited.delivering.loopStep role reading guarded free)

end

end Audited

section Waiting

variable {logger : AsyncAuditLogger R} {stage : Stage R} {op : AuditOp R} {result : AuditResult}

theorem loop_unblocked (stopped : logger.stop = true) (role : stage.role = .loop)
    (guarded : stage.guard op) : logger.blocked op = false := by
  cases stage with
  | selecting =>
      cases guarded
      simp [AsyncAuditLogger.blocked, stopped]
  | writing sent => cases guarded; rfl
  | draining => cases guarded; rfl
  | rewriting sent => cases guarded; rfl
  | drained => cases guarded; rfl
  | ended => cases guarded
  | _ => cases role

theorem close_unblocked (done : logger.done = true) (role : stage.role = .close)
    (guarded : stage.guard op) : logger.blocked op = false := by
  cases stage with
  | closing => cases guarded; rfl
  | waiting =>
      cases guarded
      simp [AsyncAuditLogger.blocked, done]
  | finishing => cases guarded; rfl
  | closed => cases guarded
  | _ => cases role

theorem ended_of_accept (role : stage.role = .loop) (accepted : stage.accept result)
    (uncut : result ≠ .looped false) : stage = .ended := by
  cases stage with
  | ended => rfl
  | selecting => exact absurd accepted uncut
  | draining => exact absurd accepted uncut
  | writing sent => cases accepted
  | rewriting sent => cases accepted
  | drained => cases accepted
  | _ => cases role

theorem closed_of_accept (role : stage.role = .close) (accepted : stage.accept result) :
    ∃ err, result = .closed err := by
  cases stage with
  | closed => exact accepted
  | closing => cases accepted
  | waiting => cases accepted
  | finishing => cases accepted
  | _ => cases role

end Waiting

section Run

variable {records : List R} {pool : AuditPool R} {schedule : List (Nat × AuditReading)}

theorem accepted_snoc (history : List (Entry (AuditOp R) AuditRes AuditReading))
    (entry : Entry (AuditOp R) AuditRes AuditReading) :
    accepted (history ++ [entry]) =
      accepted history ++ (sentItem entry.event.op entry.event.result).toList :=
  filterMap_snoc _ history entry

theorem passed_snoc (history : List (Entry (AuditOp R) AuditRes AuditReading))
    (entry : Entry (AuditOp R) AuditRes AuditReading) :
    passed (history ++ [entry]) = passed history ++ (passedItem entry.event.op).toList :=
  filterMap_snoc _ history entry

/-- A pool whose threads follow their programs and whose records are in order. -/
structure InOrder (early : List (Sent R)) (records : List R) (pool : AuditPool R) : Prop where
  size : pool.threads.length = records.length + 2
  followed : pool.Followed (fun _ => watch) (initially records)
  audited : Audited early pool.state (stagesOf records pool.history) (accepted pool.history)
    (passed pool.history)

theorem begin_inOrder (bufSize : Int) (rounds : Nat) (records : List R) :
    InOrder [] records (AuditPool.begin bufSize rounds records) where
  size := by simp [AuditPool.begin, Pool.start]
  followed := begin_followed bufSize rounds records
  audited := by
    refine ⟨⟨rfl, List.nil_prefix, nofun, nofun, iff_of_false nofun nofun, nofun, nofun⟩, ⟨fun sent => ?_, .nil⟩⟩
    exact iff_of_false List.not_mem_nil (initially_unanswered records sent.call sent)

section

variable (ordered : InOrder early records pool)

include ordered

theorem InOrder.run (free : Unblocked pool schedule) :
    InOrder early records (pool.run AsyncAuditLogger.perform schedule) := by
  obtain ⟨followed, audited⟩ := Pool.run_invariant AsyncAuditLogger.perform (fun _ => watch)
    (initially records)
    (fun logger history => Audited early logger (stagesOf records history) (accepted history)
      (passed history))
    (fun logger history thread reading op inside audited free guarded => by
      refine ⟨trivial, ?_⟩
      rw [stagesOf, Pool.stages_snoc, accepted_snoc, passed_snoc]
      exact audited.step (role_fits inside history) reading op guarded free)
    schedule pool ordered.size ordered.followed ordered.audited free
  exact ⟨(Pool.run_threads_length ..).trans ordered.size, followed, audited⟩

/-- As long as `Close` has not been called, nothing is settled, and all that was accepted so
far counts as early. -/
theorem InOrder.restart (uncalled : own pool.history 1 = []) :
    InOrder (accepted pool.history) records pool := by
  have closing : stagesOf records pool.history 1 = .closing := by
    rw [stagesOf, Pool.stages, uncalled]
    rfl
  have delivering := ordered.audited.delivering
  have running : (stagesOf records pool.history 0).stopping ≠ true := fun stopping =>
    delivering.begun (delivering.stopped stopping) closing
  have unsettled : (stagesOf records pool.history 0).settled ≠ true := by
    intro settled
    cases stage : stagesOf records pool.history 0 with
    | drained => exact running (by rw [stage]; rfl)
    | ended => exact running (by rw [stage]; rfl)
    | _ =>
        rw [stage] at settled
        cases settled
  exact { ordered with
    audited := { ordered.audited with
      delivering := { delivering with
        first := List.prefix_refl _
        settled := fun settled => absurd settled unsettled } } }

theorem InOrder.told {n : Nat} {record : R} (listed : records[n]? = some record)
    {err : Option String} (returned : pool.results[n + 2]? = some (some (.logged err))) :
    stagesOf records pool.history (n + 2) = .answered ⟨n + 2, record⟩ err.isNone := by
  have accepted := ordered.followed (n + 2) _ (Pool.results_eq_some.mp returned)
  have role : (stagesOf records pool.history (n + 2)).role = (initially records (n + 2)).role :=
    watch.follow_kept Stage.role Stage.role_advance _ _
  rw [initially, listed] at role
  change (stagesOf records pool.history (n + 2)).accept (.logged err) at accepted
  cases stage : stagesOf records pool.history (n + 2) with
  | answered sent told =>
      rw [stage] at accepted role
      cases role
      cases accepted
      cases told with
      | false => rfl
      | true => rfl
  | closed =>
      rw [stage] at role
      cases role
  | _ =>
      rw [stage] at accepted
      cases accepted

theorem InOrder.passed_first :
    passed pool.history <+: accepted pool.history := by
  rw [ordered.audited.delivering.conserved, List.append_assoc]
  exact List.prefix_append _ _

theorem InOrder.early_passed {err : Option String}
    (returned : pool.results[1]? = some (some (.closed err))) :
    early <+: passed pool.history := by
  have accepted := ordered.followed 1 _ (Pool.results_eq_some.mp returned)
  have delivering := ordered.audited.delivering
  change (stagesOf records pool.history 1).accept (.closed err) at accepted
  have released : (stagesOf records pool.history 1).released = true := by
    cases stage : stagesOf records pool.history 1 with
    | closed => rfl
    | _ =>
        rw [stage] at accepted
        cases accepted
  exact delivering.settled (by rw [delivering.finished.mp (delivering.released released)]; rfl)

/-- Once `Close` has been called, nothing waits for ever: while it has not returned, the loop
can go on or has ended and `Close` can. -/
theorem InOrder.close_proceeds (stopped : pool.state.stop = true)
    (uncut : pool.results[0]? ≠ some (some (.looped false)))
    (waiting : ∀ err, pool.results[1]? ≠ some (some (.closed err))) :
    ∃ (thread : Nat) (op : AuditOp R) (next : AuditRes op → AuditSteps R AuditResult),
      pool.threads[thread]? = some (.call op next) ∧ pool.state.blocked op = false := by
  have size := ordered.size
  have delivering := ordered.audited.delivering
  have loopRole : (stagesOf records pool.history 0).role = .loop :=
    watch.follow_kept Stage.role Stage.role_advance _ _
  have closeRole : (stagesOf records pool.history 1).role = .close :=
    watch.follow_kept Stage.role Stage.role_advance _ _
  obtain ⟨loop, looping⟩ : ∃ program, pool.threads[0]? = some program :=
    ⟨_, List.getElem?_eq_getElem (by omega)⟩
  obtain ⟨close, closing⟩ : ∃ program, pool.threads[1]? = some program :=
    ⟨_, List.getElem?_eq_getElem (by omega)⟩
  have loopAccepted := ordered.followed 0 _ looping
  have closeAccepted := ordered.followed 1 _ closing
  cases loop with
  | call op next =>
      refine ⟨0, op, next, looping, ?_⟩
      exact loop_unblocked stopped loopRole loopAccepted.1
  | done result =>
      have ended := ended_of_accept loopRole loopAccepted fun cut =>
        uncut (Pool.results_eq_some.mpr (cut ▸ looping))
      have done := delivering.finished.mpr ended
      cases close with
      | call op next =>
          refine ⟨1, op, next, closing, ?_⟩
          exact close_unblocked done closeRole closeAccepted.1
      | done result =>
          obtain ⟨err, rfl⟩ := closed_of_accept closeRole closeAccepted
          exact absurd (Pool.results_eq_some.mpr closing) (waiting err)

end

end Run

/-- What is passed on is an initial part of what was accepted, without repetition; a refused
record is not in it, and once `Close` has returned all that was accepted before it was called
is, in order. -/
theorem records_delivered (bufSize : Int) (rounds : Nat) (records : List R)
    (schedule : List (Nat × AuditReading))
    (free : Unblocked (AuditPool.begin bufSize rounds records) schedule) :
    let start := AuditPool.begin bufSize rounds records
    let final := start.run AsyncAuditLogger.perform schedule
    passed final.history <+: accepted final.history ∧ (passed final.history).Nodup ∧
    (∀ (n : Nat) record message, records[n]? = some record →
      final.results[n + 2]? = some (some (.logged (some message))) →
        ⟨n + 2, record⟩ ∉ passed final.history) ∧
    ∀ first rest, schedule = first ++ rest →
      own (start.run AsyncAuditLogger.perform first).history 1 = [] →
      ∀ err, final.results[1]? = some (some (.closed err)) →
        accepted (start.run AsyncAuditLogger.perform first).history <+: passed final.history ∧
        ∀ (n : Nat) record, records[n]? = some record →
          (start.run AsyncAuditLogger.perform first).results[n + 2]? =
            some (some (.logged none)) →
          ⟨n + 2, record⟩ ∈ passed final.history := by
  intro start final
  have ordered := (begin_inOrder bufSize rounds records).run free
  have accounted := ordered.audited.accounted
  refine ⟨ordered.passed_first, ?_, ?_, ?_⟩
  · exact accounted.distinct.sublist ordered.passed_first.sublist
  · intro n record message listed returned member
    have told := (accounted.told _).mp (ordered.passed_first.subset member)
    cases (ordered.told listed returned).symm.trans told
  · intro first rest split uncalled err returned
    subst split
    obtain ⟨before, later⟩ := Pool.Along.of_append free
    have reached := (begin_inOrder bufSize rounds records).run before
    have closed := (reached.restart uncalled).run later
    rw [← Pool.run_append] at closed
    have delivered := closed.early_passed returned
    refine ⟨delivered, fun n record listed logged => delivered.subset ?_⟩
    exact (reached.audited.accounted.told ⟨n + 2, record⟩).mpr (reached.told listed logged)

/-- A buffer of one: the second record finds it full, the third is accepted after the loop has
taken the first, and `Close` waits for the drain. -/
theorem records_delivered_of_full_buffer :
    let start := AuditPool.begin 1 4 ["first", "second", "third"]
    let opening := [2, 3, 0, 4].map fun thread => (thread, (⟨false, none⟩ : AuditReading))
    let closing := [1, 0, 0, 0, 0, 0, 0, 1, 1].map fun thread => (thread, (⟨true, none⟩ : AuditReading))
    let final := start.run AsyncAuditLogger.perform (opening ++ closing)
    final.results[3]? = some (some (.logged (some bufferFull))) ∧
      final.results[1]? = some (some (.closed none)) ∧
      ⟨3, "second"⟩ ∉ passed final.history ∧ ⟨4, "third"⟩ ∈ passed final.history := by
  intro start opening closing final
  have free : Unblocked start (opening ++ closing) := by decide +kernel
  have refused : final.results[3]? = some (some (.logged (some bufferFull))) := by decide +kernel
  have closed : final.results[1]? = some (some (.closed none)) := by decide +kernel
  obtain ⟨_, _, dropped, kept⟩ := records_delivered 1 4 ["first", "second", "third"]
    (opening ++ closing) free
  refine ⟨refused, closed, dropped 1 "second" bufferFull rfl refused, ?_⟩
  exact (kept opening closing rfl (by rfl) none closed).2 2 "third" rfl (by decide +kernel)

/-! ## `Close` returns -/

/-- The number of records a thread has passed on. A loop that is cut off has passed on one in each
of its rounds. -/
def tally (rounds : Nat) : Monitor (AuditOp R) AuditRes Nat AuditResult where
  expects _ _ _ := True
  guard _ _ := True
  advance count op _ := count + (passedItem op).toList.length
  accept count result := result = .looped false → rounds ≤ count

theorem drain_tallied (rounds count : Nat) :
    ((tally rounds : Monitor (AuditOp R) _ _ _).returning fun count left =>
      left = none → rounds ≤ count).Accepts count (drainRound.rounds rounds) := by
  refine Monitor.accepts_rounds_left (fun left count => rounds ≤ count + left)
    (fun left count enough => ?_) (fun _ enough _ => enough) rounds (Nat.le_add_left _ _)
  refine ⟨trivial, fun received _ => ?_⟩
  cases received with
  | none => exact nofun
  | some sent => exact ⟨trivial, fun _ _ => (by omega : rounds ≤ count + 1 + left)⟩

theorem loop_tallied (rounds : Nat) :
    (tally rounds : Monitor (AuditOp R) _ _ _).Accepts 0 (loop rounds) := by
  have looped : ((tally rounds : Monitor (AuditOp R) _ _ _).returning fun count left =>
      left ≠ some (some ()) → rounds ≤ count).Accepts 0 ((loopRound rounds).rounds rounds) := by
    refine Monitor.accepts_rounds_left (fun left count => rounds ≤ count + left)
      (fun left count enough => ?_) (fun _ enough _ => enough) rounds (Nat.le_add_left _ _)
    refine ⟨trivial, fun selected _ => ?_⟩
    cases selected with
    | record sent => exact ⟨trivial, fun _ _ => (by omega : rounds ≤ count + 1 + left)⟩
    | stop =>
        refine Monitor.Accepts.bind (drain_tallied rounds _) fun count drained enough => ?_
        cases drained with
        | none => exact fun _ => enough rfl
        | some _ => exact fun cut => absurd rfl cut
  refine looped.bind fun count left enough => ?_
  match left with
  | some (some ()) => exact ⟨trivial, fun _ _ => nofun⟩
  | some none => exact fun _ => enough nofun
  | none => exact fun _ => enough nofun

theorem begin_tallied (bufSize : Int) (rounds : Nat) (records : List R) :
    (AuditPool.begin bufSize rounds records).Followed (fun _ => tally rounds) fun _ => 0 := by
  refine Pool.followed_start fun thread program found => ?_
  match thread with
  | 0 =>
      obtain rfl := Option.some.inj found
      exact loop_tallied rounds
  | 1 =>
      obtain rfl := Option.some.inj found
      exact ⟨trivial, fun _ _ => ⟨trivial, fun _ _ => ⟨trivial, fun _ _ => nofun⟩⟩⟩
  | n + 2 =>
      rw [List.getElem?_cons_succ, List.getElem?_cons_succ, List.getElem?_mapIdx] at found
      obtain ⟨record, _, rfl⟩ := Option.map_eq_some_iff.mp found
      exact ⟨trivial, fun _ _ => nofun⟩

section Closing

variable {bufSize : Int} {rounds : Nat} {records : List R} {schedule : List (Nat × AuditReading)}

theorem rounds_le_passed (free : Unblocked (AuditPool.begin bufSize rounds records) schedule) :
    let final := (AuditPool.begin bufSize rounds records).run AsyncAuditLogger.perform schedule
    final.results[0]? = some (some (.looped false)) → rounds ≤ (passed final.history).length := by
  intro final cut
  obtain ⟨followed, within⟩ := Pool.run_invariant AsyncAuditLogger.perform
    (fun _ => tally rounds) (fun _ => 0)
    (fun _ history => ∀ thread,
      Pool.stages (fun _ => tally rounds) (fun _ => 0) history thread ≤ (passed history).length)
    (fun _ history thread _ op _ within _ _ => by
      refine ⟨trivial, ?_⟩
      rw [Pool.stages_snoc, passed_snoc, List.length_append]
      refine (Function.forall_update_iff _ fun _ count => count ≤ _).mpr
        ⟨Nat.add_le_add_right (within thread) _, fun other _ => ?_⟩
      exact (within other).trans (Nat.le_add_right _ _))
    schedule _ rfl (begin_tallied bufSize rounds records) (fun _ => Nat.zero_le _) free
  exact (followed 0 _ (Pool.results_eq_some.mp cut) rfl).trans (within 0)

theorem inside_of_log {sent : Sent R} (role : (initially records thread).role = .log sent) :
    2 ≤ thread ∧ thread < 2 + records.length := by
  match thread with
  | 0 => cases role
  | 1 => cases role
  | n + 2 =>
      refine ⟨Nat.le_add_left 2 n, ?_⟩
      by_contra outside
      rw [initially, List.getElem?_eq_none (by omega)] at role
      cases role

/-- Every call of `Log` is accepted once at most. -/
theorem InOrder.accepted_length_le {pool : AuditPool R} (ordered : InOrder early records pool) :
    (accepted pool.history).length ≤ records.length := by
  have told := ordered.audited.accounted.told
  have distinct : ((accepted pool.history).map Sent.call).Nodup := by
    refine ordered.audited.accounted.distinct.map_on fun first member second other same => ?_
    have answered := (told first).mp member
    rw [same, (told second).mp other] at answered
    cases answered
    rfl
  have ranged : (accepted pool.history).map Sent.call ⊆ List.range' 2 records.length := by
    intro call member
    obtain ⟨sent, listed, rfl⟩ := List.mem_map.mp member
    have role := congrArg Stage.role ((told sent).mp listed)
    rw [stagesOf, Pool.stages, watch.follow_kept Stage.role Stage.role_advance] at role
    exact List.mem_range'_1.mpr (inside_of_log role)
  have bound := (distinct.subperm ranged).length_le
  rwa [List.length_map, List.length_range'] at bound

theorem perform_stop (reading : AuditReading) (op : AuditOp R) (logger : AsyncAuditLogger R)
    (stopped : logger.stop = true) : (logger.perform reading op).2.stop = true := by
  cases op with
  | select =>
      rw [AsyncAuditLogger.perform]
      split_ifs
      · exact stopped
      · split <;> exact stopped
  | closeStop => rfl
  | _ => exact stopped

/-- Once `Close` has been called, every run can go on until it has returned, whatever the inner
logger answers, if the loop is looked at for more rounds than there are records. -/
theorem close_returns (bufSize : Int) (enough : records.length < rounds) (reading : AuditReading)
    (free : Unblocked (AuditPool.begin bufSize rounds records) schedule)
    (called : ((AuditPool.begin bufSize rounds records).run AsyncAuditLogger.perform
      schedule).state.stop = true) :
    ∃ rest err, Unblocked (AuditPool.begin bufSize rounds records) (schedule ++ rest) ∧
      ((AuditPool.begin bufSize rounds records).run AsyncAuditLogger.perform
        (schedule ++ rest)).results[1]? = some (some (.closed err)) := by
  obtain ⟨rest, along, returned⟩ := Pool.exists_reached_of_enabled id
    (fun pool : AuditPool R => pool.state.stop = true →
      ∃ err, pool.results[1]? = some (some (.closed err))) _
    (fun reached free short => by
      obtain ⟨stopped, waiting⟩ := Classical.not_imp.mp short
      have ordered := (begin_inOrder bufSize rounds records).run free
      have few := ordered.passed_first.length_le.trans ordered.accepted_length_le
      obtain ⟨thread, op, next, found, proceeds⟩ := ordered.close_proceeds stopped
        (fun cut => absurd ((rounds_le_passed free cut).trans few) (not_le.mpr enough))
        (not_exists.mp waiting)
      exact ⟨thread, reading, op, next, found, proceeds⟩)
    free
  have stopped : ((AuditPool.begin bufSize rounds records).run AsyncAuditLogger.perform
      (schedule ++ rest)).state.stop = true := by
    rw [Pool.run_append]
    exact Pool.run_kept (fun logger : AsyncAuditLogger R => logger.stop = true) perform_stop rest
      called
  obtain ⟨err, closed⟩ := returned stopped
  exact ⟨rest, err, Pool.Along.append free along, closed⟩

/-- `Close` is called while a record waits in the buffer. -/
theorem close_returns_of_buffered :
    let start := AuditPool.begin 1 2 ["first"]
    let schedule := [2, 1].map fun thread => (thread, (⟨false, none⟩ : AuditReading))
    (start.run AsyncAuditLogger.perform schedule).state.blocked .waitDone = true ∧
      ∃ rest err, Unblocked start (schedule ++ rest) ∧ (start.run AsyncAuditLogger.perform
        (schedule ++ rest)).results[1]? = some (some (.closed err)) :=
  ⟨by decide +kernel, close_returns 1 (by decide) ⟨false, none⟩ (by decide +kernel)
    (by decide +kernel)⟩

end Closing

end Rlaas.Analytics
