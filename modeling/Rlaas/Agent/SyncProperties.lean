import Rlaas.Agent.Sync

/-! No invalidation is lost. One that is dropped finds the channel full, and one that is
drained was received by a loop that starts a fetch next. -/

set_option autoImplicit false

namespace Rlaas.Agent

open Go Effect

variable {policyID : String}

def AgentOp.accepts : AgentOp → Bool
  | .send _ => true
  | _ => false

def AgentOp.startsFetch : AgentOp → Bool
  | .fetchStart => true
  | _ => false

/-- The loop has received from the channel. -/
def receives : (op : AgentOp) → AgentRes op → Bool
  | .select, .invalidation _ => true
  | _, _ => false

/-- Where the loop, the shutdown or a request is. -/
inductive Stage where
  /-- The loop starts a fetch next; it owes it after it has received. -/
  | toFetch (owed : Bool)
  | fetching
  | reporting
  | selecting
  | draining
  | left
  | running
  | stopped
  | asking
  | sent (policyID : String)

namespace Stage

def guard : Stage → AgentOp → Prop
  | .toFetch _, op => op = .fetchStart
  | .fetching, op => op = .fetchEnd
  | .reporting, op => op = .now ∨ (∃ t, op = .markSuccess t) ∨ ∃ err, op = .markError err
  | .selecting, op => op = .select
  | .draining, op => op = .receive
  | .running, op => op = .cancel
  | .asking, op => ∃ policyID, op = .send policyID
  | _, _ => False

def advance : Stage → (op : AgentOp) → AgentRes op → Stage
  | .toFetch _, .fetchStart, _ => .fetching
  | .fetching, .fetchEnd, _ => .reporting
  | .reporting, .markSuccess _, _ => .selecting
  | .reporting, .markError _, _ => .selecting
  | .selecting, .select, .cancelled => .left
  | .selecting, .select, .invalidation _ => .draining
  | .selecting, .select, .tick => .toFetch false
  | .draining, .receive, none => .toFetch true
  | .running, .cancel, _ => .stopped
  | .asking, .send policyID, _ => .sent policyID
  | stage, _, _ => stage

def accept : Stage → AgentResult → Prop
  | .asking, result => ∃ message status, result = .response (.error message status)
  | .sent policyID, result => result = .response (.queued policyID)
  | .stopped, result => result = .shutdown
  | .left, result => result = .looped true
  | .selecting, result => result = .looped false
  | .draining, result => result = .looped false
  | _, _ => False

end Stage

def watch : Monitor AgentOp AgentRes Stage AgentResult where
  expects _ _ _ := True
  guard := Stage.guard
  advance := Stage.advance
  accept := Stage.accept

theorem invalidate_watched (r : InvalidateRequest) : watch.Accepts .asking (invalidate r) := by
  unfold invalidate
  split_ifs
  · exact ⟨_, _, rfl⟩
  · cases r.body with
    | none => exact ⟨_, _, rfl⟩
    | some policyID =>
        dsimp only
        split_ifs
        · exact ⟨_, _, rfl⟩
        · exact ⟨⟨policyID, rfl⟩, fun _ _ => rfl⟩

theorem fetch_watched (owed : Bool) :
    (watch.returning fun stage (_ : Unit) => stage = .selecting).Accepts (.toFetch owed)
      fetchPolicySnapshot := by
  refine ⟨rfl, fun _ _ => ⟨rfl, fun fetched _ => ?_⟩⟩
  cases fetched with
  | failed err => exact ⟨.inr (.inr ⟨err, rfl⟩), fun _ _ => rfl⟩
  | answered statusCode =>
      dsimp only
      split_ifs
      · exact ⟨.inl rfl, fun t _ => ⟨.inr (.inl ⟨t, rfl⟩), fun _ _ => rfl⟩⟩
      · exact ⟨.inr (.inr ⟨_, rfl⟩), fun _ _ => rfl⟩

/-- Where the loop is when the drain has ended or was cut off. -/
def Drained (stage : Stage) : Option Unit → Prop
  | some () => stage = .toFetch true
  | none => stage = .draining

theorem drain_watched (rounds : Nat) :
    (watch.returning Drained).Accepts .draining (drainRound.rounds rounds) := by
  refine Monitor.accepts_rounds (fun stage draining => ?_) rounds rfl
  cases draining
  refine ⟨rfl, fun received _ => ?_⟩
  cases received with
  | none => rfl
  | some policyID => rfl

def Left (stage : Stage) : Option Bool → Prop
  | some true => stage = .left
  | some false => stage = .draining
  | none => stage = .selecting

theorem syncRound_watched (rounds : Nat) :
    (watch.returning Left).Accepts .selecting (syncRound rounds) := by
  have fetched : ∀ owed, (watch.returning Left).Accepts (.toFetch owed)
      (fetchPolicySnapshot.bind fun _ => .done none) := fun owed =>
    Monitor.Accepts.bind (fetch_watched owed) fun _ _ selecting => selecting
  refine ⟨rfl, fun selected _ => ?_⟩
  cases selected with
  | cancelled => rfl
  | invalidation policyID =>
      refine Monitor.Accepts.bind (drain_watched rounds) fun stage drained ended => ?_
      cases drained with
      | none => cases ended; rfl
      | some _ => cases ended; exact fetched true
  | tick => exact fetched false
  | nothing => rfl

theorem startSyncLoop_watched (rounds : Nat) :
    watch.Accepts (.toFetch false) (startSyncLoop rounds) := by
  refine Monitor.Accepts.bind (fetch_watched false) fun stage _ selecting => ?_
  have looped : (watch.returning Left).Accepts stage ((syncRound rounds).rounds rounds) := by
    refine Monitor.accepts_rounds (fun stage selecting => ?_) rounds selecting
    cases selecting
    exact syncRound_watched rounds
  refine looped.bind fun stage left ended => ?_
  cases left with
  | none => cases ended; rfl
  | some returned =>
      cases returned with
      | false => cases ended; rfl
      | true => cases ended; rfl

/-! ## What has happened since the last fetch was started -/

def sinceFetch (history : AgentHistory) : AgentHistory :=
  history.foldl (fun kept entry => if entry.event.op.startsFetch then [] else kept ++ [entry]) []

theorem sinceFetch_snoc (history : AgentHistory) (entry : Entry AgentOp AgentRes AgentReading) :
    sinceFetch (history ++ [entry]) =
      if entry.event.op.startsFetch then [] else sinceFetch history ++ [entry] := by
  rw [sinceFetch, List.foldl_append]
  rfl

/-- The events since the last fetch are the end of the history. -/
theorem sinceFetch_suffix (history : AgentHistory) :
    ∃ before, history = before ++ sinceFetch history ∧
      ∀ entry ∈ sinceFetch history, entry.event.op.startsFetch = false := by
  induction history using List.reverseRecOn with
  | nil => exact ⟨[], rfl, by simp [sinceFetch]⟩
  | append_singleton history last ih =>
      obtain ⟨before, split, quiet⟩ := ih
      rw [sinceFetch_snoc]
      split_ifs with starts
      · exact ⟨history ++ [last], by simp, by simp⟩
      · refine ⟨before, ?_, ?_⟩
        · rw [← List.append_assoc, ← split]
        · intro entry member
          cases List.mem_append.mp member with
          | inl earlier => exact quiet entry earlier
          | inr last =>
              rw [List.mem_singleton.mp last]
              exact Bool.eq_false_iff.mpr starts

theorem mem_sinceFetch (before : AgentHistory) (entry : Entry AgentOp AgentRes AgentReading)
    (after : AgentHistory) (own : entry.event.op.startsFetch = false)
    (quiet : ∀ later ∈ after, later.event.op.startsFetch = false) :
    entry ∈ sinceFetch (before ++ entry :: after) := by
  induction after using List.reverseRecOn with
  | nil => simp [sinceFetch_snoc, own]
  | append_singleton after last ih =>
      have earlier := ih fun later member => quiet later (List.mem_append_left _ member)
      have lastQuiet := quiet last (by simp)
      rw [← List.cons_append, ← List.append_assoc, sinceFetch_snoc, lastQuiet]
      exact List.mem_append_left _ earlier

def received (history : AgentHistory) : Bool :=
  history.any fun entry => receives entry.event.op entry.event.result

def requested (history : AgentHistory) : Bool := history.any fun entry => entry.event.op.accepts

def Stage.owes : Stage → Bool
  | .toFetch owed => owed
  | .draining => true
  | _ => false

/-- The invariant: a loop that owes a fetch has received, and after a request the channel is not
empty or the loop owes a fetch. -/
structure Kept (state : AgentState) (loop : Stage) (recent : AgentHistory) : Prop where
  room : 1 ≤ state.invalidations.capacity
  owing : loop.owes = true → received recent = true
  pending : requested recent = true → state.invalidations.queue ≠ [] ∨ loop.owes = true

namespace Kept

variable {state after : AgentState} {loop next : Stage} {recent : AgentHistory}
  {entry : Entry AgentOp AgentRes AgentReading}

theorem received_snoc (recent : AgentHistory) (entry : Entry AgentOp AgentRes AgentReading) :
    received (recent ++ [entry]) =
      (received recent || receives entry.event.op entry.event.result) := by
  simp [received]

theorem requested_snoc (recent : AgentHistory) (entry : Entry AgentOp AgentRes AgentReading) :
    requested (recent ++ [entry]) = (requested recent || entry.event.op.accepts) := by
  simp [requested]

theorem received_mono (got : received recent = true)
    (entry : Entry AgentOp AgentRes AgentReading) : received (recent ++ [entry]) = true := by
  rw [received_snoc, got, Bool.true_or]

theorem restart (kept : Kept state loop recent) (free : next.owes = false) :
    Kept state next [] where
  room := kept.room
  owing owes := by
    rw [free] at owes
    cases owes
  pending none := by cases none

theorem of_received (room : 1 ≤ after.invalidations.capacity) (got : received recent = true)
    (owes : next.owes = true) : Kept after next recent where
  room
  owing _ := got
  pending _ := .inr owes

theorem quiet (kept : Kept state loop recent) (same : after.invalidations = state.invalidations)
    (owes : next.owes = loop.owes) (silent : entry.event.op.accepts = false) :
    Kept after next (recent ++ [entry]) where
  room := same ▸ kept.room
  owing owing := received_mono (kept.owing (owes ▸ owing)) entry
  pending asked := by
    rw [requested_snoc, silent, Bool.or_false] at asked
    rw [same, owes]
    exact kept.pending asked

/-- A request leaves something in the channel: its identifier, or what was there when it found
the channel full. -/
theorem send (kept : Kept state loop recent) (policyID : String) :
    Kept { state with invalidations := (state.invalidations.trySend policyID).2 } loop
      (recent ++ [entry]) := by
  obtain ⟨channel, same, grown, capacity⟩ | ⟨same, full⟩ :=
    state.invalidations.trySend_cases policyID
  · rw [same]
    refine ⟨capacity.symm ▸ kept.room, fun owes => received_mono (kept.owing owes) entry, ?_⟩
    intro _
    refine .inl ?_
    simp [grown]
  · rw [same]
    refine ⟨kept.room, fun owes => received_mono (kept.owing owes) entry, ?_⟩
    intro _
    refine .inl (List.ne_nil_of_length_pos ?_)
    have room := kept.room
    change 0 < state.invalidations.queue.length
    omega

theorem select (kept : Kept state .selecting recent) (thread : Nat) (reading : AgentReading) :
    Kept (state.perform reading .select).2
      (Stage.selecting.advance .select (state.perform reading .select).1)
      (recent ++ [⟨thread, reading, ⟨.select, (state.perform reading .select).1⟩⟩]) := by
  rw [AgentState.perform]
  cases reading.branch with
  | done =>
      dsimp only
      split_ifs
      · exact kept.quiet rfl rfl rfl
      · exact kept.quiet rfl rfl rfl
  | receive =>
      obtain ⟨_, same⟩ | ⟨policyID, channel, same, _, capacity⟩ :=
        state.invalidations.tryReceive_cases
      · simp only [same]
        exact kept.quiet rfl rfl rfl
      · simp only [same]
        refine of_received (capacity.symm ▸ kept.room) ?_ rfl
        rw [received_snoc]
        exact Bool.or_true _
  | tick => exact kept.quiet rfl rfl rfl

theorem receive (kept : Kept state .draining recent) (thread : Nat) (reading : AgentReading) :
    Kept (state.perform reading .receive).2
      (Stage.draining.advance .receive (state.perform reading .receive).1)
      (recent ++ [⟨thread, reading, ⟨.receive, (state.perform reading .receive).1⟩⟩]) :=
  of_received kept.room (received_mono (kept.owing rfl) _) (by
    rw [AgentState.perform]
    cases state.invalidations.tryReceive.1 <;> rfl)

end Kept

def Stage.isLoop : Stage → Bool
  | .running => false
  | .stopped => false
  | .asking => false
  | .sent _ => false
  | _ => true

theorem Stage.isLoop_advance (stage : Stage) (op : AgentOp) (answer : AgentRes op) :
    (stage.advance op answer).isLoop = stage.isLoop := by
  unfold Stage.advance
  split <;> rfl

namespace Kept

variable {state : AgentState} {loop stage : Stage} {recent : AgentHistory} {op : AgentOp}

theorem loopStep (kept : Kept state loop recent) (role : loop.isLoop = true) (thread : Nat)
    (reading : AgentReading) (guarded : loop.guard op) :
    Kept (state.perform reading op).2 (loop.advance op (state.perform reading op).1)
      (if op.startsFetch then []
        else recent ++ [⟨thread, reading, ⟨op, (state.perform reading op).1⟩⟩]) := by
  cases loop with
  | toFetch owed =>
      cases guarded
      exact kept.restart rfl
  | fetching =>
      cases guarded
      exact kept.quiet rfl rfl rfl
  | reporting =>
      obtain rfl | ⟨t, rfl⟩ | ⟨err, rfl⟩ := guarded
      · exact kept.quiet rfl rfl rfl
      · exact kept.quiet rfl rfl rfl
      · exact kept.quiet rfl rfl rfl
  | selecting =>
      cases guarded
      exact kept.select thread reading
  | draining =>
      cases guarded
      exact kept.receive thread reading
  | left => cases guarded
  | _ => cases role

theorem otherStep (kept : Kept state loop recent) (role : stage.isLoop = false) (thread : Nat)
    (reading : AgentReading) (guarded : stage.guard op) :
    Kept (state.perform reading op).2 loop
      (if op.startsFetch then []
        else recent ++ [⟨thread, reading, ⟨op, (state.perform reading op).1⟩⟩]) := by
  cases stage with
  | running =>
      cases guarded
      exact kept.quiet rfl rfl rfl
  | asking =>
      obtain ⟨policyID, rfl⟩ := guarded
      exact kept.send policyID
  | stopped => cases guarded
  | sent policyID => cases guarded
  | _ => cases role

theorem step {stages : Nat → Stage} (kept : Kept state (stages 0) recent) {thread : Nat}
    (role : (stages thread).isLoop = true ↔ thread = 0) (reading : AgentReading)
    (guarded : (stages thread).guard op) :
    Kept (state.perform reading op).2
      (Function.update stages thread ((stages thread).advance op (state.perform reading op).1) 0)
      (if op.startsFetch then []
        else recent ++ [⟨thread, reading, ⟨op, (state.perform reading op).1⟩⟩]) := by
  by_cases here : thread = 0
  · subst here
    rw [Function.update_self]
    exact kept.loopStep (role.mpr rfl) 0 reading guarded
  · rw [Function.update_of_ne (Ne.symm here)]
    exact kept.otherStep (Bool.eq_false_iff.mpr fun loop => here (role.mp loop)) thread reading
      guarded

end Kept

def initially : Nat → Stage
  | 0 => .toFetch false
  | 1 => .running
  | _ => .asking

def stagesOf (history : AgentHistory) : Nat → Stage :=
  Pool.stages (fun _ => watch) initially history

theorem isLoop_stagesOf (history : AgentHistory) (thread : Nat) :
    (stagesOf history thread).isLoop = true ↔ thread = 0 := by
  have same : (stagesOf history thread).isLoop = (initially thread).isLoop :=
    watch.follow_kept Stage.isLoop Stage.isLoop_advance _ _
  rw [same]
  match thread with
  | 0 => exact iff_of_true rfl rfl
  | 1 => exact iff_of_false nofun nofun
  | n + 2 => exact iff_of_false nofun nofun

theorem begin_followed (capacity rounds : Nat) (requests : List InvalidateRequest) :
    (AgentPool.begin capacity rounds requests).Followed (fun _ => watch) initially := by
  refine Pool.followed_start fun thread program found => ?_
  match thread with
  | 0 =>
      obtain rfl := Option.some.inj found
      exact startSyncLoop_watched rounds
  | 1 =>
      obtain rfl := Option.some.inj found
      exact ⟨rfl, fun _ _ => rfl⟩
  | n + 2 =>
      rw [List.getElem?_cons_succ, List.getElem?_cons_succ, List.getElem?_map] at found
      obtain ⟨request, _, rfl⟩ := Option.map_eq_some_iff.mp found
      exact invalidate_watched request

theorem run_kept {capacity : Nat} (room : 1 ≤ capacity) (rounds : Nat)
    (requests : List InvalidateRequest) (schedule : List (Nat × AgentReading)) :
    let final := (AgentPool.begin capacity rounds requests).run AgentState.perform schedule
    final.Followed (fun _ => watch) initially ∧
      Kept final.state (stagesOf final.history 0) (sinceFetch final.history) := by
  refine Pool.run_invariant AgentState.perform (fun _ => watch) initially
    (fun state history => Kept state (stagesOf history 0) (sinceFetch history)) ?_ schedule _ rfl
    (begin_followed capacity rounds requests) ⟨room, nofun, nofun⟩ (Pool.along_trivial _ _)
  intro state history thread reading op _ kept _ guarded
  refine ⟨trivial, ?_⟩
  rw [stagesOf, Pool.stages_snoc, sinceFetch_snoc]
  exact kept.step (isLoop_stagesOf history thread) reading guarded

theorem Stage.advance_eq_sent {stage : Stage} {op : AgentOp} {answer : AgentRes op}
    (reached : stage.advance op answer = .sent policyID) :
    stage = .sent policyID ∨ op = .send policyID := by
  unfold Stage.advance at reached
  split at reached <;> cases reached
  · exact .inr rfl
  · exact .inl rfl

theorem send_of_sent {events : List (Event AgentOp AgentRes)} {stage : Stage}
    (unsent : stage ≠ .sent policyID) (reached : watch.follow stage events = .sent policyID) :
    ∃ event ∈ events, event.op = .send policyID := by
  induction events generalizing stage with
  | nil => exact absurd reached unsent
  | cons event rest ih =>
      by_cases here : event.op = .send policyID
      · exact ⟨event, List.mem_cons_self, here⟩
      · have still : watch.advance stage event.op event.result ≠ .sent policyID := fun same =>
          (Stage.advance_eq_sent same).elim unsent here
        obtain ⟨found, member, same⟩ := ih still reached
        exact ⟨found, List.mem_cons_of_mem _ member, same⟩

theorem startsFetch_of_accepts {op : AgentOp} (accepts : op.accepts = true) :
    op.startsFetch = false := by
  cases op with
  | send policyID => rfl
  | _ => cases accepts

theorem receipt_of_received {history : AgentHistory} (got : received (sinceFetch history) = true) :
    ∃ earlier receipt later, history = earlier ++ receipt :: later ∧
      receives receipt.event.op receipt.event.result = true ∧
      ∀ entry ∈ later, entry.event.op.startsFetch = false := by
  obtain ⟨receipt, member, receives⟩ := List.any_eq_true.mp got
  obtain ⟨first, whole, unstarted⟩ := sinceFetch_suffix history
  obtain ⟨left, right, here⟩ := List.append_of_mem member
  refine ⟨first ++ left, receipt, right, ?_, receives, fun entry later => ?_⟩
  · rw [List.append_assoc, ← here, ← whole]
  · refine unstarted entry ?_
    rw [here]
    exact List.mem_append_right _ (List.mem_cons_of_mem _ later)

theorem sent_of_accept {stage : Stage} (accepted : stage.accept (.response (.queued policyID))) :
    stage = .sent policyID := by
  cases stage with
  | sent other =>
      cases accepted
      rfl
  | asking =>
      obtain ⟨message, status, same⟩ := accepted
      cases same
  | _ => cases accepted

/-- A loop that was not left by the cancellation has made an operation in each round that is
looked at. -/
theorem startSyncLoop_lasts (rounds : Nat) :
    (startSyncLoop rounds).Lasts (· = .looped false) rounds := by
  have fetched : ∀ steps, (fetchPolicySnapshot.bind fun _ => .done none : AgentSteps
      (Option Bool)).Lasts (fun left => left ≠ none ∧ left ≠ some true) steps := fun steps =>
    Program.lasts_bind _ fun _ => Program.lasts_done steps fun ends => ends.1 rfl
  have drained : (drainRound.rounds rounds).Lasts (· = none) rounds :=
    Program.lasts_rounds fun steps _ received => by
      cases received with
      | none => exact Program.lasts_done steps fun ends => nomatch ends.2
      | some policyID => exact Program.lasts_done steps fun ends => ends.1 rfl
  have looped : ((syncRound rounds).rounds rounds).Lasts (· ≠ some true) rounds := by
    refine Program.lasts_rounds fun steps below selected => ?_
    cases selected with
    | cancelled => exact Program.lasts_done steps fun ends => ends.2 rfl
    | invalidation policyID =>
        refine Program.Lasts.bind (fun events result run cut =>
          below.le.trans (drained events result run cut)) fun left going => ?_
        cases left with
        | none => exact absurd rfl going
        | some _ => exact fetched steps
    | tick => exact fetched steps
    | nothing => exact Program.lasts_done steps fun ends => ends.1 rfl
  refine Program.lasts_bind _ fun _ => looped.bind fun left cancelled => ?_
  obtain rfl := not_not.mp cancelled
  exact Program.lasts_done rounds nofun

theorem loop_uncut (capacity : Nat) {rounds : Nat} (requests : List InvalidateRequest)
    {schedule : List (Nat × AgentReading)} (enough : schedule.length < rounds) :
    ∃ program, ((AgentPool.begin capacity rounds requests).run AgentState.perform
        schedule).threads[0]? = some program ∧ program ≠ .done (.looped false) := by
  have start : (AgentPool.begin capacity rounds requests).threads[0]? =
      some (startSyncLoop rounds) := rfl
  have lasts : (startSyncLoop rounds).Lasts (· = .looped false) (1 + schedule.length) :=
    fun events result run cut =>
      Nat.le_trans (by omega) (startSyncLoop_lasts rounds events result run cut)
  obtain ⟨program, found, left⟩ := Pool.run_lasts AgentState.perform start lasts
  refine ⟨program, found, ?_⟩
  rintro rfl
  exact absurd (left [] _ .done rfl) (Nat.not_succ_le_zero 0)

theorem stands_of_owes {stage : Stage} {program : AgentSteps AgentResult}
    (owes : stage.owes = true) (accepted : watch.Accepts stage program)
    (uncut : program ≠ .done (.looped false)) :
    ∃ op next, program = .call op next ∧ (op = .receive ∨ op = .fetchStart) := by
  cases program with
  | done result =>
      cases stage with
      | draining => exact absurd (congrArg Program.done accepted) uncut
      | toFetch owed => exact accepted.elim
      | _ => cases owes
  | call op next =>
      refine ⟨op, next, rfl, ?_⟩
      cases stage with
      | draining => exact .inl accepted.1
      | toFetch owed => exact .inr accepted.1
      | _ => cases owes

/-- For every invalidation that was accepted, a fetch has been started since, or the channel
is not empty, or the loop has received and stands before the fetch that follows. -/
theorem invalidations_kept {capacity : Nat} (room : 1 ≤ capacity) (rounds : Nat)
    (requests : List InvalidateRequest) (schedule : List (Nat × AgentReading))
    (enough : schedule.length < rounds) :
    let final := (AgentPool.begin capacity rounds requests).run AgentState.perform schedule
    (∀ before entry after, final.history = before ++ entry :: after →
      entry.event.op.accepts = true →
        (∃ later ∈ after, later.event.op.startsFetch = true) ∨
        final.state.invalidations.queue ≠ [] ∨
        (∃ earlier receipt later, final.history = earlier ++ receipt :: later ∧
          receives receipt.event.op receipt.event.result = true ∧
          ∀ entry ∈ later, entry.event.op.startsFetch = false) ∧
        ∃ op next, final.threads[0]? = some (.call op next) ∧ (op = .receive ∨ op = .fetchStart)) ∧
    ∀ (n : Nat) policyID, final.results[n + 2]? = some (some (.response (.queued policyID))) →
      ∃ entry ∈ final.history, entry.thread = n + 2 ∧ entry.event.op = .send policyID := by
  intro final
  obtain ⟨followed, kept⟩ := run_kept room rounds requests schedule
  refine ⟨fun before entry after split accepted => ?_, fun n policyID returned => ?_⟩
  · by_cases fetched : ∃ later ∈ after, later.event.op.startsFetch = true
    · exact .inl fetched
    · refine .inr ?_
      have quiet : ∀ later ∈ after, later.event.op.startsFetch = false := fun later member =>
        Bool.eq_false_iff.mpr fun starts => fetched ⟨later, member, starts⟩
      have recent : entry ∈ sinceFetch final.history :=
        split ▸ mem_sinceFetch before entry after (startsFetch_of_accepts accepted) quiet
      cases kept.pending (List.any_eq_true.mpr ⟨entry, recent, accepted⟩) with
      | inl queued => exact .inl queued
      | inr owes =>
          refine .inr ⟨receipt_of_received (kept.owing owes), ?_⟩
          obtain ⟨program, found, uncut⟩ := loop_uncut capacity requests enough
          obtain ⟨op, next, rfl, stands⟩ := stands_of_owes owes (followed 0 program found) uncut
          exact ⟨op, next, found, stands⟩
  · have accepted := followed (n + 2) _ (Pool.results_eq_some.mp returned)
    have reached : stagesOf final.history (n + 2) = .sent policyID := sent_of_accept accepted
    obtain ⟨event, member, sent⟩ := send_of_sent (show initially (n + 2) ≠ _ from nofun) reached
    obtain ⟨entry, inside, thread, rfl⟩ := mem_own.mp member
    exact ⟨entry, inside, thread, sent⟩

/-- Two requests into a channel with room for one: the second is dropped, the loop receives the
first and stands before the fetch. -/
theorem invalidations_kept_of_full_channel :
    let start := AgentPool.begin 1 7 [⟨"POST", some "burst"⟩, ⟨"POST", some "daily"⟩]
    let schedule := [0, 0, 0, 2, 3, 0].map fun thread =>
      (thread, (⟨.receive, .failed "", 0⟩ : AgentReading))
    let final := start.run AgentState.perform schedule
    final.results[3]? = some (some (.response (.queued "daily"))) ∧
      final.state.invalidations.queue = [] ∧
      (∃ entry ∈ final.history, entry.thread = 3 ∧ entry.event.op = .send "daily") ∧
      ∃ op next, final.threads[0]? = some (.call op next) ∧ (op = .receive ∨ op = .fetchStart) := by
  intro start schedule final
  have answered : final.results[3]? = some (some (.response (.queued "daily"))) := by
    decide +kernel
  have empty : final.state.invalidations.queue = [] := by decide +kernel
  have unfetched : (final.history.drop 5).any (·.event.op.startsFetch) = false := by decide +kernel
  obtain ⟨kept, sent⟩ := invalidations_kept (le_refl 1) 7
    [⟨"POST", some "burst"⟩, ⟨"POST", some "daily"⟩] schedule (by decide)
  refine ⟨answered, empty, sent 1 "daily" answered, ?_⟩
  obtain fetched | queued | ⟨_, stands⟩ := kept (final.history.take 4)
    ⟨3, ⟨.receive, .failed "", 0⟩, ⟨.send "daily", false⟩⟩ (final.history.drop 5) rfl rfl
  · exact absurd (List.any_eq_true.mpr fetched) (Bool.eq_false_iff.mp unfetched)
  · exact absurd empty queued
  · exact stands

end Rlaas.Agent
