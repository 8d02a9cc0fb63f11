import Rlaas.Store.Oracle
import Mathlib.Algebra.BigOperators.Group.Finset.Basic
import Mathlib.Algebra.Order.BigOperators.Group.Finset
import Mathlib.Data.List.Sigma
import Mathlib.Tactic.SplitIfs

/-! Concurrent `CheckAndAddTimestamps` transactions on one key. Two of them conflict only
in the old rows both delete, never in the rows they insert, so what each of them
finds room for on its own can be more than there is room for. -/

set_option autoImplicit false

namespace Rlaas.Store.Oracle

open Go Effect Snapshot Function

/-- What the calls on a log have in common. -/
structure Log where
  key : String
  cutoff : Int
  limit : Int
  limitFits : IsInt64 limit

structure Call where
  cost : Int
  ts : Int
  exp : Option Int
  costFits : IsInt64 cost
  deriving DecidableEq

namespace Log

variable (log : Log)

def transaction (call : Call) (tx : Nat) : Transaction :=
  checkAndAddTimestamps .machine tx log.key log.cutoff log.limit call.cost call.ts call.exp

def entry (call : Call) : Entry := ⟨log.key, call.ts, call.exp⟩

def recent : Entry → Bool := Database.recent log.key log.cutoff

def stale : Entry → Bool := Database.stale log.key log.cutoff

/-- The rows of the key from the cutoff on, and the rows before it. -/
def found (rows : List (Nat × Entry)) : Nat := rows.countP fun row => log.recent row.2

def old (rows : List (Nat × Entry)) : List (Nat × Entry) := rows.filter fun row => log.stale row.2

def count (table : Table Entry) : Nat := log.found table.rows

/-- The check of the code at a count. -/
def admits (count : Nat) (call : Call) : Bool :=
  !decide (Arith.machine.wrap (count + call.cost) > log.limit)

def inserts (count : Nat) (call : Call) : Nat := if log.admits count call then call.cost.toNat else 0

/-- The rows from the cutoff on that a call adds when it finds a count. -/
def share (count : Nat) (call : Call) : Nat :=
  if log.cutoff ≤ call.ts then log.inserts count call else 0

/-- The count that calls reach that all find the same. -/
def joint (count : Nat) (calls : List Call) : Nat := count + (calls.map (log.share count)).sum

/-- There is room for the calls together; one that adds nothing now does not begin to
when the others have added their rows, by an overflow of the sum. -/
def Room (count : Nat) (calls : List Call) : Prop :=
  log.joint count calls ≤ log.limit ∧
    ∀ call ∈ calls, log.share count call = 0 → log.share (log.joint count calls) call = 0

/-- The call does not itself insert rows from before the cutoff. -/
def Clears (count : Nat) (call : Call) : Prop :=
  log.inserts count call = 0 ∨ log.cutoff ≤ call.ts

/-- Where there are old rows to delete, only one of the calls that find them commits;
the others start after one that has cleared them away. -/
def Safe (table : Table Entry) (calls : List Call) : Prop :=
  if log.old table.rows = [] then log.Room (log.count table) calls
  else ∀ tx call, calls[tx]? = some call → log.Clears (log.count table) call →
    log.Room (log.count table + log.share (log.count table) call) (calls.eraseIdx tx)

/-- The transactions of the calls interleaved, where no statement fails for a reason
of its own. -/
def interleaved (calls : List Call) (table : Table Entry) (schedule : List Nat) :
    Pool TxOp TxRes (Except String (Int × Bool)) Database (Option String) :=
  (Pool.start (calls.mapIdx fun tx call => log.transaction call tx) ⟨table, fun _ => none⟩).run
    Database.perform (schedule.map fun tx => (tx, none))

section Shares

variable {log : Log} {count middle top : Nat} {call : Call}

theorem admits_iff (within : count ≤ log.limit) : log.admits count call = true ↔
    count + call.cost ≤ log.limit ∨ 2 ^ 63 ≤ count + call.cost := by
  obtain ⟨_, limitBound⟩ := log.limitFits
  obtain ⟨least, greatest⟩ := call.costFits
  rw [admits, Bool.not_eq_true', decide_eq_false_iff_not, machine_wrap, wrapInt64]
  omega

theorem share_le_cost : log.share count call ≤ call.cost.toNat := by
  unfold share inserts
  split_ifs <;> simp

theorem share_ne_zero : log.share count call ≠ 0 ↔
    log.cutoff ≤ call.ts ∧ log.admits count call = true ∧ call.cost.toNat ≠ 0 := by
  unfold share inserts
  split_ifs with late admitted <;> simp [*]

theorem share_of_ne_zero (adds : log.share count call ≠ 0) :
    log.share count call = call.cost.toNat := by
  obtain ⟨late, admitted, _⟩ := share_ne_zero.mp adds
  rw [share, if_pos late, inserts, if_pos admitted]

/-- A call that adds rows at one count adds them at a lower one or, by an overflow, at
a higher one. -/
theorem share_between (low : count ≤ middle) (high : middle ≤ top) (within : top ≤ log.limit)
    (adds : log.share middle call ≠ 0) :
    log.share count call ≠ 0 ∨ log.share top call ≠ 0 := by
  obtain ⟨late, admitted, costs⟩ := share_ne_zero.mp adds
  rw [share_ne_zero, share_ne_zero]
  rw [admits_iff (by omega)] at admitted
  rw [admits_iff (by omega), admits_iff (by omega)]
  rcases admitted with fits | overflows
  · exact .inl ⟨late, .inl (by omega), costs⟩
  · exact .inr ⟨late, .inr (by omega), costs⟩

/-- A call that begins to add rows at a higher count exceeds the limit there. -/
theorem limit_lt_of_late_share (low : count ≤ top) (within : top ≤ log.limit)
    (nothing : log.share count call = 0) (adds : log.share top call ≠ 0) :
    log.limit < top + log.share top call := by
  obtain ⟨late, _, costs⟩ := share_ne_zero.mp adds
  have refused : ¬ log.admits count call = true := fun admitted =>
    share_ne_zero.mpr ⟨late, admitted, costs⟩ nothing
  rw [admits_iff (by omega)] at refused
  rw [share_of_ne_zero adds]
  omega

theorem Room.share_le {calls : List Call} (room : log.Room count calls) (member : call ∈ calls)
    (low : count ≤ middle) (high : middle ≤ log.joint count calls) :
    log.share middle call ≤ log.share count call := by
  by_cases nothing : log.share count call = 0
  · by_contra more
    have adds : log.share middle call ≠ 0 := by omega
    rcases share_between low high room.1 adds with below | above
    · exact below nothing
    · exact above (room.2 call member nothing)
  · rw [share_of_ne_zero nothing]
    exact share_le_cost

end Shares

end Log

section Steps

/-- Where a transaction is: after the count, with the count it found and the number of
rows it has inserted. -/
inductive Stage where
  | idle
  | opened
  | trimmed
  | counted (count : Nat) (inserted : Nat)
  | closed

/-- The statement a transaction comes to at a stage. -/
inductive Move (log : Log) (call : Call) (tx : Nat) : Stage → TxOp → Prop where
  | begin : Move log call tx .idle (.begin tx)
  | trim : Move log call tx .opened (.deleteBefore tx log.key log.cutoff)
  | count : Move log call tx .trimmed (.countFrom tx log.key log.cutoff)
  | insert {count inserted : Nat} : inserted < log.inserts count call →
      Move log call tx (.counted count inserted) (.insert tx (log.entry call))
  | commit {count : Nat} :
      Move log call tx (.counted count (log.inserts count call)) (.commit tx)
  | leave : Move log call tx .closed (.rollback tx)

def watch (log : Log) (call : Call) (tx : Nat) :
    Monitor TxOp TxRes Stage (Except String (Int × Bool)) where
  expects _ op answer :=
    match op, answer with
    | .countFrom .., .ok count => 0 ≤ count
    | _, _ => True
  guard := Move log call tx
  advance
    | .idle, .begin _, .ok _ => .opened
    | .opened, .deleteBefore .., _ => .trimmed
    | .trimmed, .countFrom .., .ok count => .counted count.toNat 0
    | .counted count inserted, .insert .., .ok _ => .counted count (inserted + 1)
    | _, _, _ => .closed
  accept _ _ := True

variable {log : Log} {call : Call} {tx : Nat}

theorem leave_accepts (result : Except String (Int × Bool)) :
    (watch log call tx).Accepts .closed (leave tx result) :=
  ⟨.leave, fun _ _ => trivial⟩

theorem insertRows_accepts {count : Nat} {after : Transaction}
    (accepted : (watch log call tx).Accepts (.counted count (log.inserts count call)) after)
    (left : Nat) {inserted : Nat} (total : inserted + left = log.inserts count call) :
    (watch log call tx).Accepts (.counted count inserted)
      (insertRows tx (log.entry call) after left) := by
  induction left generalizing inserted with
  | zero =>
      rw [Nat.add_zero] at total
      rw [total]
      exact accepted
  | succ left ih =>
      refine ⟨.insert (by omega), fun answer _ => ?_⟩
      cases answer with
      | error err => exact leave_accepts _
      | ok _ => exact ih (by omega)

theorem addRows_accepts (count : Nat) :
    (watch log call tx).Accepts (.counted count 0)
      (addRows .machine tx log.limit call.cost (log.entry call) count) := by
  unfold addRows
  split_ifs with above
  · have none : log.inserts count call = 0 := by
      rw [Log.inserts, Log.admits, decide_eq_true above]
      rfl
    refine ⟨?_, fun _ _ => leave_accepts _⟩
    nth_rewrite 1 [← none]
    exact .commit
  · have all : log.inserts count call = call.cost.toNat := by
      rw [Log.inserts, Log.admits, decide_eq_false above]
      rfl
    refine insertRows_accepts ?_ call.cost.toNat (by rw [all, Nat.zero_add])
    refine ⟨.commit, fun answer _ => ?_⟩
    cases answer with
    | error err => exact leave_accepts _
    | ok _ => exact leave_accepts _

theorem transaction_accepts : (watch log call tx).Accepts .idle (log.transaction call tx) := by
  refine ⟨.begin, fun begun _ => ?_⟩
  cases begun with
  | error err => exact trivial
  | ok _ =>
      refine ⟨.trim, fun _ _ => ⟨.count, fun counted natural => ?_⟩⟩
      cases counted with
      | error err => exact leave_accepts _
      | ok count =>
          have cast : (count.toNat : Int) = count := Int.toNat_of_nonneg natural
          have accepted : (watch log call tx).Accepts (.counted count.toNat 0)
              (addRows .machine tx log.limit call.cost (log.entry call) count.toNat) :=
            addRows_accepts count.toNat
          rw [cast] at accepted
          exact accepted

/-- The session of a transaction, started from a snapshot with a property, at a stage. -/
inductive Tracks (log : Log) (call : Call) (good : List (Nat × Entry) → Prop) :
    Stage → Option (Session Entry) → Prop where
  | idle {session : Option (Session Entry)} : Tracks log call good .idle session
  | opened {snapshot : List (Nat × Entry)} : good snapshot →
      Tracks log call good .opened (some ⟨snapshot, [], []⟩)
  | trimmed {snapshot : List (Nat × Entry)} : good snapshot →
      Tracks log call good .trimmed (some ⟨snapshot, log.old snapshot, []⟩)
  | counted {snapshot : List (Nat × Entry)} {inserted : Nat} : good snapshot →
      Tracks log call good (.counted (log.found snapshot) inserted)
        (some ⟨snapshot, log.old snapshot, List.replicate inserted (log.entry call)⟩)
  | closed {session : Option (Session Entry)} : Tracks log call good .closed session

theorem Tracks.imp {good better : List (Nat × Entry) → Prop} {stage : Stage}
    {session : Option (Session Entry)} (tracks : Tracks log call good stage session)
    (implies : ∀ snapshot, good snapshot → better snapshot) :
    Tracks log call better stage session := by
  cases tracks with
  | idle => exact .idle
  | opened holds => exact .opened (implies _ holds)
  | trimmed holds => exact .trimmed (implies _ holds)
  | counted holds => exact .counted (implies _ holds)
  | closed => exact .closed

def Tracked (log : Log) (calls : List Call) (good : List (Nat × Entry) → Prop)
    (sessions : Nat → Option (Session Entry)) (stages : Nat → Stage) : Prop :=
  ∀ tx call, calls[tx]? = some call → Tracks log call good (stages tx) (sessions tx)

variable {calls : List Call} {good : List (Nat × Entry) → Prop}
  {sessions : Nat → Option (Session Entry)} {stages : Nat → Stage}

theorem Tracked.imp {better : List (Nat × Entry) → Prop}
    (tracked : Tracked log calls good sessions stages)
    (implies : ∀ snapshot, good snapshot → better snapshot) :
    Tracked log calls better sessions stages :=
  fun tx call listed => (tracked tx call listed).imp implies

theorem Tracked.update {session : Option (Session Entry)} {stage : Stage}
    (tracked : Tracked log calls good sessions stages) (listed : calls[tx]? = some call)
    (own : Tracks log call good stage session) :
    Tracked log calls good (update sessions tx session)
      (update stages tx stage) := by
  intro other othersCall found
  by_cases same : other = tx
  · subst same
    rw [listed] at found
    cases found
    rw [update_self, update_self]
    exact own
  · rw [update_of_ne same, update_of_ne same]
    exact tracked other othersCall found

theorem not_stale_of_recent {entry : Entry} (recent : log.recent entry = true) :
    log.stale entry = false := by
  simp only [Log.recent, Log.stale, Database.recent, Database.stale, Database.onKey,
    Bool.and_eq_true, beq_iff_eq, decide_eq_true_eq, Bool.and_eq_false_iff,
    decide_eq_false_iff_not] at recent ⊢
  exact .inr (not_lt.mpr recent.2)

theorem not_recent_of_old {rows : List (Nat × Entry)} {row : Nat × Entry}
    (member : row ∈ log.old rows) : log.recent row.2 = false := by
  by_contra recent
  have stale := (List.mem_filter.mp member).2
  rw [not_stale_of_recent (Bool.not_eq_false _ ▸ recent)] at stale
  cases stale

theorem count_trimmed (snapshot : List (Nat × Entry)) :
    (⟨snapshot, log.old snapshot, []⟩ : Session Entry).count log.recent = log.found snapshot := by
  rw [Session.count, List.countP_filter, List.countP_nil, Nat.add_zero]
  refine List.countP_congr fun row _ => ?_
  simp only [Bool.and_eq_true, decide_eq_true_eq, and_iff_left_iff_imp]
  intro recent deleted
  rw [not_recent_of_old deleted] at recent
  cases recent

variable {db : Database}

theorem statement_none {β : Type} {session : Session Entry} (found : db.sessions tx = some session)
    (execute : Session Entry → β × Session Entry) : db.statement none tx execute =
      (.ok (execute session).1, db.withSession tx (some (execute session).2)) := by
  unfold Database.statement
  rw [found]

/-- What a transaction commits that started from a snapshot. -/
def staged (log : Log) (call : Call) (snapshot : List (Nat × Entry)) : Session Entry :=
  ⟨snapshot, log.old snapshot, List.replicate (log.inserts (log.found snapshot) call) (log.entry call)⟩

/-- A step leaves the table as it is, or it is the commit of what a transaction has
done with its snapshot. -/
theorem step_cases {op : TxOp} (tracked : Tracked log calls good db.sessions stages)
    (current : good db.table.rows) (listed : calls[tx]? = some call)
    (move : Move log call tx (stages tx) op) :
    let answer := Database.perform none op db
    let after := update stages tx
      ((watch log call tx).advance (stages tx) op answer.1)
    (watch log call tx).expects (stages tx) op answer.1 ∧
      Tracked log calls good answer.2.sessions after ∧
      ((answer.2.table = db.table ∧ ∀ other, stages other = .closed → after other = .closed) ∨
        (stages tx ≠ .closed ∧ after tx = .closed ∧
          (∀ other, stages other = .closed → after other = .closed) ∧
          ∃ snapshot, good snapshot ∧
            (staged log call snapshot).commit db.table = some answer.2.table)) := by
  have tracks := tracked tx call listed
  have keeps : ∀ (stage : Stage), (stages tx = .closed → stage = .closed) →
      ∀ other, stages other = .closed → update stages tx stage other = .closed := by
    intro stage mine other closed
    by_cases same : other = tx
    · subst same
      rw [update_self]
      exact mine closed
    · rw [update_of_ne same]
      exact closed
  generalize here : stages tx = stage at move tracks keeps
  generalize session : db.sessions tx = opened at tracks
  cases move with
  | begin =>
      exact ⟨trivial, tracked.update listed (.opened current), .inl ⟨rfl, keeps _ nofun⟩⟩
  | trim =>
      cases tracks with
      | opened holds =>
          simp only [Database.perform, statement_none session]
          exact ⟨trivial, tracked.update listed (.trimmed holds), .inl ⟨rfl, keeps _ nofun⟩⟩
  | count =>
      cases tracks with
      | @trimmed snapshot holds =>
          have counted : (⟨snapshot, log.old snapshot, []⟩ : Session Entry).count
              (Database.recent log.key log.cutoff) = log.found snapshot := count_trimmed snapshot
          simp only [Database.perform, statement_none session, counted]
          exact ⟨Int.natCast_nonneg _, tracked.update listed (.counted holds),
            .inl ⟨rfl, keeps _ nofun⟩⟩
  | @insert _ inserted _ =>
      cases tracks with
      | @counted snapshot _ holds =>
          have one : (⟨snapshot, log.old snapshot, List.replicate inserted (log.entry call)⟩ :
              Session Entry).insert (log.entry call) =
                ⟨snapshot, log.old snapshot, List.replicate (inserted + 1) (log.entry call)⟩ := by
            rw [Session.insert, List.replicate_succ']
          simp only [Database.perform, statement_none session, one]
          exact ⟨trivial, tracked.update listed (.counted holds), .inl ⟨rfl, keeps _ nofun⟩⟩
  | commit =>
      cases tracks with
      | @counted snapshot _ holds =>
          cases committed : (staged log call snapshot).commit db.table with
          | none =>
              have failed : Database.perform none (.commit tx) db =
                  (.error "ORA-08177", db.withSession tx none) := by
                simp only [Database.perform, session]
                rw [← staged, committed]
              rw [failed]
              exact ⟨trivial, tracked.update listed .closed, .inl ⟨rfl, keeps _ nofun⟩⟩
          | some table =>
              have succeeded : Database.perform none (.commit tx) db =
                  (.ok (), { db.withSession tx none with table }) := by
                simp only [Database.perform, session]
                rw [← staged, committed]
              rw [succeeded]
              refine ⟨trivial, tracked.update listed .closed,
                .inr ⟨nofun, update_self _ _ _, keeps _ nofun, snapshot, holds, committed⟩⟩
  | leave =>
      refine ⟨trivial, tracked.update listed .closed, .inl ⟨rfl, keeps _ fun _ => rfl⟩⟩

end Steps

section Parties

variable {α β : Type}

/-- The list without the item at an index, if there is one to leave out. -/
def others (first : Option Nat) (list : List α) : List α := first.elim list list.eraseIdx

theorem others_map (first : Option Nat) (f : α → β) (list : List α) :
    (others first list).map f = others first (list.map f) := by
  cases first with
  | none => rfl
  | some tx => exact (List.eraseIdx_map f list tx).symm

theorem others_sublist (first : Option Nat) (list : List α) : (others first list).Sublist list := by
  cases first with
  | none => exact List.Sublist.refl list
  | some tx => exact List.eraseIdx_sublist list tx

def parties (first : Option Nat) (calls : List Call) : List (Call × Nat) := others first calls.zipIdx

variable {first : Option Nat} {calls : List Call} {call : Call} {tx : Nat}

theorem parties_calls : (parties first calls).map Prod.fst = others first calls := by
  rw [parties, others_map, List.zipIdx_map_fst]

theorem parties_nodup : ((parties first calls).map Prod.snd).Nodup :=
  (List.nodup_zipIdx_map_snd calls).sublist ((others_sublist first _).map Prod.snd)

theorem mem_parties : (call, tx) ∈ parties first calls ↔
    calls[tx]? = some call ∧ first ≠ some tx := by
  cases first with
  | none => simp [parties, others, List.mem_zipIdx_iff_getElem?]
  | some left =>
      rw [parties, others, Option.elim, List.mem_eraseIdx_iff_getElem?]
      simp only [List.getElem?_zipIdx, Option.map_eq_some_iff, Prod.mk.injEq, Nat.zero_add]
      constructor
      · rintro ⟨i, different, _, found, rfl, rfl⟩
        exact ⟨found, fun same => different (Option.some.inj same).symm⟩
      · rintro ⟨found, different⟩
        exact ⟨tx, fun same => different (congrArg some same.symm), call, found, rfl, rfl⟩

theorem sum_parties (f : Call → Nat) :
    ∑ party ∈ (parties first calls).toFinset, f party.1 = ((others first calls).map f).sum := by
  rw [List.sum_toFinset _ (parties_nodup.of_map _), ← parties_calls, List.map_map]
  rfl

end Parties

section Safety

variable {log : Log} {call : Call} {tx : Nat} {calls : List Call} {table after : Table Entry}
  {snapshot : List (Nat × Entry)} {db : Database} {stages : Nat → Stage}

/-- A transaction with this snapshot will not commit: it deletes rows that are gone. -/
def Doomed (log : Log) (table : Table Entry) (snapshot : List (Nat × Entry)) : Prop :=
  log.old snapshot ≠ [] ∧ table.Gone (log.old snapshot)

theorem recent_entry : log.recent (log.entry call) = true ↔ log.cutoff ≤ call.ts := by
  change (log.key == log.key && decide (log.cutoff ≤ call.ts)) = true ↔ _
  simp

theorem stale_entry : log.stale (log.entry call) = true ↔ call.ts < log.cutoff := by
  change (log.key == log.key && decide (call.ts < log.cutoff)) = true ↔ _
  simp

theorem commit_share (committed : (staged log call snapshot).commit table = some after) :
    log.count after = log.count table + log.share (log.found snapshot) call := by
  have counted := Session.commit_count committed fun row member => not_recent_of_old member
  refine counted.trans (congrArg (log.count table + ·) ?_)
  rw [staged, List.countP_replicate, Log.share]
  exact if_congr recent_entry rfl rfl

theorem Doomed.commit {session : Session Entry} (doomed : Doomed log table snapshot)
    (committed : session.commit table = some after) : Doomed log after snapshot :=
  ⟨doomed.1, Session.gone_of_commit committed doomed.2⟩

theorem not_doomed_of_commit (committed : (staged log call snapshot).commit table = some after) :
    ¬ Doomed log table snapshot :=
  fun doomed => Session.not_gone_of_commit committed doomed.1 doomed.2

/-- The table once it holds no old rows that a commit could still conflict on, where
`floor` is the count it had then: the rows added since are those of calls that have
room at the floor. -/
structure Capped (log : Log) (calls : List Call) (first : Option Nat) (floor : Nat) (db : Database)
    (stages : Nat → Stage) : Prop where
  tracked : Tracked log calls (fun snapshot => Doomed log db.table snapshot ∨
    (floor ≤ log.found snapshot ∧ log.found snapshot ≤ log.count db.table)) db.sessions stages
  above : floor ≤ log.count db.table
  spent : ∃ settled ⊆ (parties first calls).toFinset,
    (∀ party ∈ settled, stages party.2 = .closed) ∧
      log.count db.table ≤ floor + ∑ party ∈ settled, log.share floor party.1
  away : ∀ tx, first = some tx → stages tx = .closed

theorem Capped.le_joint {first : Option Nat} {floor : Nat}
    (capped : Capped log calls first floor db stages) :
    log.count db.table ≤ log.joint floor (others first calls) := by
  obtain ⟨settled, listed, _, bound⟩ := capped.spent
  refine bound.trans (Nat.add_le_add_left ?_ floor)
  rw [← sum_parties]
  exact Finset.sum_le_sum_of_subset listed

theorem Capped.step {first : Option Nat} {floor : Nat} {op : TxOp}
    (capped : Capped log calls first floor db stages) (room : log.Room floor (others first calls))
    (listed : calls[tx]? = some call) (move : Move log call tx (stages tx) op) :
    let answer := Database.perform none op db
    (watch log call tx).expects (stages tx) op answer.1 ∧
      Capped log calls first floor answer.2 (update stages tx
        ((watch log call tx).advance (stages tx) op answer.1)) := by
  obtain ⟨expected, tracked, kept | ⟨active, closed, keeps, snapshot, good, committed⟩⟩ :=
    step_cases capped.tracked (.inr ⟨capped.above, le_rfl⟩) listed move
  · obtain ⟨same, keeps⟩ := kept
    obtain ⟨settled, among, done, bound⟩ := capped.spent
    refine ⟨expected, ?_, same ▸ capped.above, ⟨settled, among, ?_, same ▸ bound⟩, ?_⟩
    · rw [same]
      exact tracked
    · exact fun party member => keeps _ (done party member)
    · exact fun tx named => keeps tx (capped.away tx named)
  · have grown := commit_share committed
    obtain ⟨low, high⟩ := good.resolve_left (not_doomed_of_commit committed)
    obtain ⟨settled, among, done, bound⟩ := capped.spent
    have apart : first ≠ some tx := fun named => active (capped.away tx named)
    have party : (call, tx) ∈ parties first calls := mem_parties.mpr ⟨listed, apart⟩
    have new : (call, tx) ∉ settled := fun member => active (done _ member)
    have fits : log.share (log.found snapshot) call ≤ log.share floor call := by
      refine room.share_le ?_ low (high.trans capped.le_joint)
      rw [← parties_calls]
      exact List.mem_map_of_mem party
    refine ⟨expected, ?_, ?_, ⟨insert (call, tx) settled, ?_, ?_, ?_⟩, ?_⟩
    · refine tracked.imp ?_
      rintro earlier (doomed | ⟨atLeast, atMost⟩)
      · exact .inl (doomed.commit committed)
      · exact .inr ⟨atLeast, by omega⟩
    · have above := capped.above
      omega
    · exact Finset.insert_subset (List.mem_toFinset.mpr party) among
    · intro other member
      rcases Finset.mem_insert.mp member with rfl | before
      · exact closed
      · exact keeps _ (done other before)
    · rw [Finset.sum_insert new]
      dsimp only
      omega
    · exact fun other named => keeps other (capped.away other named)

/-- The table while it still holds old rows: a transaction can commit only if none has
committed since it began. -/
structure Cluttered (log : Log) (calls : List Call) (count : Nat) (db : Database)
    (stages : Nat → Stage) : Prop where
  tracked : Tracked log calls (fun snapshot => Doomed log db.table snapshot ∨
    snapshot = db.table.rows) db.sessions stages
  old : log.old db.table.rows ≠ []
  same : log.count db.table = count

theorem old_of_inserted (committed : (staged log call snapshot).commit table = some after)
    (inserted : log.inserts (log.found snapshot) call ≠ 0) (early : call.ts < log.cutoff) :
    log.old after.rows ≠ [] := by
  obtain ⟨_, rfl⟩ := Session.commit_eq_some committed
  obtain ⟨more, positive⟩ := Nat.exists_eq_succ_of_ne_zero inserted
  have member : (table.next, log.entry call) ∈
      ((table.remove (log.old snapshot)).append (staged log call snapshot).inserted).rows := by
    refine List.mem_append_right _ ?_
    simp [staged, positive, List.replicate_succ, Table.remove]
  exact List.ne_nil_of_mem (List.mem_filter.mpr ⟨member, stale_entry.mpr early⟩)

theorem Cluttered.step {count : Nat} {op : TxOp} (cluttered : Cluttered log calls count db stages)
    (listed : calls[tx]? = some call) (move : Move log call tx (stages tx) op) :
    let answer := Database.perform none op db
    let reached := update stages tx
      ((watch log call tx).advance (stages tx) op answer.1)
    (watch log call tx).expects (stages tx) op answer.1 ∧
      (Cluttered log calls count answer.2 reached ∨
        log.Clears count call ∧
          Capped log calls (some tx) (count + log.share count call) answer.2 reached) := by
  obtain ⟨expected, tracked, kept | ⟨active, closed, keeps, snapshot, good, committed⟩⟩ :=
    step_cases cluttered.tracked (.inr rfl) listed move
  · refine ⟨expected, .inl ⟨?_, kept.1 ▸ cluttered.old, kept.1 ▸ cluttered.same⟩⟩
    rw [kept.1]
    exact tracked
  · obtain rfl := good.resolve_left (not_doomed_of_commit committed)
    have grown := commit_share committed
    have found : log.found db.table.rows = count := cluttered.same
    rw [found, cluttered.same] at grown
    -- Whoever has begun by now deletes a row this commit has deleted.
    have doomed : ∀ earlier, Doomed log db.table earlier ∨ earlier = db.table.rows →
        Doomed log (Database.perform none op db).2.table earlier := by
      rintro earlier (already | rfl)
      · exact already.commit committed
      · exact ⟨cluttered.old, Session.gone_of_deleted committed fun _ member => member⟩
    refine ⟨expected, ?_⟩
    by_cases clears : log.Clears count call
    · refine .inr ⟨clears, ?_, grown.ge, ⟨∅, by simp, by simp, by simp [grown]⟩, ?_⟩
      · exact tracked.imp fun earlier before => .inl (doomed earlier before)
      · rintro _ ⟨⟩
        exact closed
    · obtain ⟨inserted, early⟩ := not_or.mp clears
      refine .inl ⟨tracked.imp fun earlier before => .inl (doomed earlier before), ?_, ?_⟩
      · exact old_of_inserted committed (found ▸ inserted) (not_le.mp early)
      · rw [grown, Log.share, if_neg early, Nat.add_zero]

instance : Inhabited Call := ⟨⟨0, 0, none, by decide⟩⟩

def monitors (log : Log) (calls : List Call) (tx : Nat) :
    Monitor TxOp TxRes Stage (Except String (Int × Bool)) :=
  watch log (calls.getD tx default) tx

/-- The table holds old rows and every call that can clear them leaves room for the
others, or it holds none and there is room for all that can still commit. -/
def Protected (log : Log) (calls : List Call) (count : Nat) (db : Database) (stages : Nat → Stage) :
    Prop :=
  (Cluttered log calls count db stages ∧ ∀ tx call, calls[tx]? = some call →
      log.Clears count call → log.Room (count + log.share count call) (calls.eraseIdx tx)) ∨
    ∃ first floor, log.Room floor (others first calls) ∧ Capped log calls first floor db stages

theorem Protected.step {count : Nat} {op : TxOp} (holds : Protected log calls count db stages)
    (listed : calls[tx]? = some call) (move : Move log call tx (stages tx) op) :
    let answer := Database.perform none op db
    (watch log call tx).expects (stages tx) op answer.1 ∧
      Protected log calls count answer.2 (update stages tx
        ((watch log call tx).advance (stages tx) op answer.1)) := by
  rcases holds with ⟨cluttered, rooms⟩ | ⟨first, floor, room, capped⟩
  · obtain ⟨expected, still | ⟨clears, capped⟩⟩ := cluttered.step listed move
    · exact ⟨expected, .inl ⟨still, rooms⟩⟩
    · exact ⟨expected, .inr ⟨some tx, _, rooms tx call listed clears, capped⟩⟩
  · obtain ⟨expected, still⟩ := capped.step room listed move
    exact ⟨expected, .inr ⟨first, floor, room, still⟩⟩

theorem Protected.within {count : Nat} (holds : Protected log calls count db stages)
    (initially : count ≤ log.limit) : log.count db.table ≤ log.limit := by
  rcases holds with ⟨cluttered, _⟩ | ⟨first, floor, room, capped⟩
  · rw [cluttered.same]
    exact initially
  · exact (Int.ofNat_le.mpr capped.le_joint).trans room.1

theorem protected_start (safe : log.Safe table calls) :
    Protected log calls (log.count table) ⟨table, fun _ => none⟩ fun _ => .idle := by
  unfold Log.Safe at safe
  split_ifs at safe with clean
  · refine .inr ⟨none, log.count table, safe, fun _ _ _ => .idle, le_rfl, ⟨∅, ?_, ?_, ?_⟩, nofun⟩
    · simp
    · simp
    · simp
  · exact .inl ⟨⟨fun _ _ _ => .idle, clean, rfl⟩, safe⟩

theorem within_of_safe (safe : log.Safe table calls) (initially : log.count table ≤ log.limit)
    (schedule : List Nat) :
    log.count (log.interleaved calls table schedule).state.table ≤ log.limit := by
  have size : (calls.mapIdx fun tx call => log.transaction call tx).length = calls.length :=
    List.length_mapIdx
  have along : Pool.Along Database.perform (fun _ _ _ fault _ => fault = none)
      (.start (calls.mapIdx fun tx call => log.transaction call tx) ⟨table, fun _ => none⟩)
      (schedule.map fun tx => (tx, none)) := by
    refine Pool.along_of_readings _ _ ?_
    intro choice member
    obtain ⟨tx, _, rfl⟩ := List.mem_map.mp member
    rfl
  refine Protected.within (Pool.run_stages Database.perform (monitors log calls) (fun _ => .idle)
    (Protected log calls (log.count table)) ?_ _ _ size ?_ (protected_start safe) along).2 initially
  · rintro db history tx fault op inRange holds rfl move
    have listed : calls[tx]? = some calls[tx] := List.getElem?_eq_getElem inRange
    have monitor : monitors log calls tx = watch log calls[tx] tx := by
      rw [monitors, List.getD_eq_getElem?_getD, listed]
      rfl
    rw [monitor] at move ⊢
    exact holds.step listed move
  · refine Pool.followed_start fun tx program found => ?_
    rw [List.getElem?_mapIdx, Option.map_eq_some_iff] at found
    obtain ⟨call, listed, rfl⟩ := found
    rw [monitors, List.getD_eq_getElem?_getD, listed]
    exact transaction_accepts

end Safety

section Overrun

variable {log : Log} {call : Call} {tx : Nat} {calls : List Call} {db : Database}
  {session : Session Entry} {snapshot : List (Nat × Entry)}

theorem withSession_self (opened : db.sessions tx = some session) :
    db.withSession tx (some session) = db := by
  rw [Database.withSession, update_eq_self_iff.mpr opened.symm]

theorem withSession_withSession (first second : Option (Session Entry)) :
    (db.withSession tx first).withSession tx second = db.withSession tx second := by
  rw [Database.withSession, Database.withSession, Database.withSession, update_idem]

theorem exec_insertRows (entry : Entry) (after : Transaction) (n : Nat)
    (opened : db.sessions tx = some session) :
    (insertRows tx entry after n).exec Database.perform (fun _ => none) db =
      after.exec Database.perform (fun _ => none) (db.withSession tx
        (some { session with inserted := session.inserted ++ List.replicate n entry })) := by
  induction n generalizing db session with
  | zero =>
      rw [List.replicate_zero, List.append_nil, withSession_self opened]
      rfl
  | succ n ih =>
      rw [insertRows, Program.exec_call]
      simp only [Database.perform, statement_none opened]
      rw [ih (update_self _ _ _), withSession_withSession]
      simp only [Session.insert, List.append_assoc, List.singleton_append, List.replicate_succ]

/-- The end of a transaction that has done everything but its commit. -/
def closed (session : Session Entry) (tx : Nat) (db : Database) : Database where
  table := (session.commit db.table).getD db.table
  sessions := update db.sessions tx none

theorem exec_commit {next : Except String Unit → Transaction}
    (leaves : ∀ answer, ∃ result, next answer = leave tx result) (opened : db.sessions tx = some session) :
    ((Program.call (.commit tx) next).exec Database.perform (fun _ => none) db).2 =
      closed session tx db := by
  rw [Program.exec_call]
  obtain ⟨result, leaving⟩ := leaves (Database.perform none (.commit tx) db).1
  rw [leaving, leave, Program.exec_call, Program.exec_done]
  simp only [Database.perform, opened]
  cases committed : session.commit db.table with
  | none => simp [closed, committed, Database.withSession]
  | some table => simp [closed, committed, Database.withSession]

theorem closed_withSession (before : Option (Session Entry)) :
    closed session tx (db.withSession tx before) = closed session tx db := by
  rw [closed, closed, Database.withSession, update_idem]

theorem exec_addRows (opened : db.sessions tx = some ⟨snapshot, log.old snapshot, []⟩) :
    ((addRows .machine tx log.limit call.cost (log.entry call) (log.found snapshot)).exec
      Database.perform (fun _ => none) db).2 = closed (staged log call snapshot) tx db := by
  unfold addRows
  split_ifs with above
  · have nothing : staged log call snapshot = ⟨snapshot, log.old snapshot, []⟩ := by
      rw [staged, Log.inserts, Log.admits, decide_eq_true above]
      rfl
    rw [nothing]
    exact exec_commit (fun _ => ⟨_, rfl⟩) opened
  · have all : staged log call snapshot = ⟨snapshot, log.old snapshot,
        [] ++ List.replicate call.cost.toNat (log.entry call)⟩ := by
      rw [staged, Log.inserts, Log.admits, decide_eq_false above]
      rfl
    rw [exec_insertRows _ _ _ opened, all, exec_commit ?_ (update_self _ _ _),
      closed_withSession]
    intro answer
    cases answer with
    | error err => exact ⟨_, rfl⟩
    | ok _ => exact ⟨_, rfl⟩

theorem exec_trimAndAdd (opened : db.sessions tx = some ⟨snapshot, [], []⟩) :
    ((trimAndAdd .machine tx log.cutoff log.limit call.cost (log.entry call)).exec Database.perform
      (fun _ => none) db).2 = closed (staged log call snapshot) tx db := by
  have counted : (⟨snapshot, log.old snapshot, []⟩ : Session Entry).count
      (Database.recent log.key log.cutoff) = log.found snapshot := count_trimmed snapshot
  have trimmed : Database.perform none (.deleteBefore tx log.key log.cutoff) db =
      (.ok (), db.withSession tx (some ⟨snapshot, log.old snapshot, []⟩)) := statement_none opened _
  have answered : Database.perform none (.countFrom tx log.key log.cutoff)
      (db.withSession tx (some ⟨snapshot, log.old snapshot, []⟩)) =
        (.ok (log.found snapshot : Int), db.withSession tx (some ⟨snapshot, log.old snapshot, []⟩)) := by
    rw [Database.perform, statement_none (update_self _ _ _), withSession_withSession, counted]
  rw [trimAndAdd, Program.exec_call, Log.entry, trimmed, Program.exec_call, answered]
  refine (exec_addRows (update_self _ _ _)).trans (closed_withSession _)

abbrev Clients := Pool TxOp TxRes (Except String (Int × Bool)) Database (Option String)

def proceed (turns : List Nat) (clients : Clients) : Clients :=
  clients.run Database.perform (turns.map fun tx => (tx, none))

theorem proceed_append (first second : List Nat) (clients : Clients) :
    proceed (first ++ second) clients = proceed second (proceed first clients) := by
  rw [proceed, List.map_append, Pool.run_append]
  rfl

def body (log : Log) (call : Call) (tx : Nat) : Transaction :=
  trimAndAdd .machine tx log.cutoff log.limit call.cost (log.entry call)

/-- The transactions of the parties have not begun. -/
def Waiting (log : Log) (group : List (Call × Nat)) (clients : Clients) : Prop :=
  ∀ party ∈ group, clients.threads[party.2]? = some (log.transaction party.1 party.2)

/-- The transactions of the parties have begun with one snapshot and done nothing else. -/
def Started (log : Log) (snapshot : List (Nat × Entry)) (group : List (Call × Nat))
    (clients : Clients) : Prop :=
  ∀ party ∈ group, clients.threads[party.2]? = some (body log party.1 party.2) ∧
    clients.state.sessions party.2 = some ⟨snapshot, [], []⟩

/-- Nothing about the other transactions has changed. -/
def Aside (group : List (Call × Nat)) (clients after : Clients) : Prop :=
  ∀ tx, tx ∉ group.map Prod.snd → after.threads[tx]? = clients.threads[tx]? ∧
    after.state.sessions tx = clients.state.sessions tx

theorem Aside.trans {group : List (Call × Nat)} {first second third : Clients}
    (left : Aside group first second) (right : Aside group second third) : Aside group first third :=
  fun tx apart => ⟨(right tx apart).1.trans (left tx apart).1, (right tx apart).2.trans (left tx apart).2⟩

theorem Aside.mono {group wider : List (Call × Nat)} {clients after : Clients}
    (aside : Aside group clients after) (within : group ⊆ wider) : Aside wider clients after :=
  fun tx apart => aside tx fun member => apart (List.map_subset _ within member)

variable {clients : Clients} {group : List (Call × Nat)}

theorem begin_one (waiting : clients.threads[tx]? = some (log.transaction call tx)) :
    let after := proceed [tx] clients
    after.state.table = clients.state.table ∧
      Started log clients.state.table.rows [(call, tx)] after ∧
      Aside [(call, tx)] clients after := by
  have inRange := (List.getElem?_eq_some_iff.mp waiting).1
  have stepped : proceed [tx] clients = _ := Pool.step_of_call waiting
  rw [stepped]
  refine ⟨rfl, ?_, ?_⟩
  · intro party member
    rw [List.mem_singleton.mp member]
    exact ⟨List.getElem?_set_self inRange, update_self _ _ _⟩
  · intro other apart
    have different : other ≠ tx := fun same => apart (by simp [same])
    exact ⟨List.getElem?_set_ne different.symm, update_of_ne different _ _⟩

theorem finish_one (started : Started log snapshot [(call, tx)] clients) :
    ∃ turns, (proceed turns clients).state.table =
        ((staged log call snapshot).commit clients.state.table).getD clients.state.table ∧
      Aside [(call, tx)] clients (proceed turns clients) := by
  obtain ⟨located, opened⟩ := started (call, tx) List.mem_cons_self
  obtain ⟨turns, state, threads⟩ := Pool.run_alone Database.perform none tx _ clients located
  have same : proceed (List.replicate turns tx) clients =
      clients.run Database.perform (List.replicate turns (tx, none)) := by
    rw [proceed, List.map_replicate]
  rw [body, exec_trimAndAdd opened] at state
  refine ⟨List.replicate turns tx, ?_, ?_⟩
  · rw [same, state]
    rfl
  · intro other apart
    have different : other ≠ tx := fun equal => apart (by simp [equal])
    rw [same, threads, state]
    exact ⟨List.getElem?_set_ne different.symm, update_of_ne different _ _⟩

theorem apart_of_fresh {party other : Call × Nat} {rest : List (Call × Nat)}
    (fresh : party.2 ∉ rest.map Prod.snd) (member : other ∈ rest) :
    other.2 ∉ [party].map Prod.snd := by
  rw [List.map_singleton, List.mem_singleton]
  exact fun same => fresh (same ▸ List.mem_map_of_mem member)

theorem begin_all (distinct : (group.map Prod.snd).Nodup) (waiting : Waiting log group clients) :
    ∃ turns, (proceed turns clients).state.table = clients.state.table ∧
      Started log clients.state.table.rows group (proceed turns clients) ∧
      Aside group clients (proceed turns clients) := by
  induction group generalizing clients with
  | nil => exact ⟨[], rfl, (fun _ member => nomatch member), fun _ _ => ⟨rfl, rfl⟩⟩
  | cons party rest ih =>
      obtain ⟨fresh, others⟩ := List.nodup_cons.mp distinct
      obtain ⟨table, started, aside⟩ := begin_one (waiting party List.mem_cons_self)
      have still : Waiting log rest (proceed [party.2] clients) := by
        intro other member
        have apart := apart_of_fresh fresh member
        rw [(aside other.2 apart).1]
        exact waiting other (List.mem_cons_of_mem _ member)
      obtain ⟨turns, table', started', aside'⟩ := ih others still
      rw [table] at table' started'
      refine ⟨[party.2] ++ turns, ?_⟩
      rw [proceed_append]
      refine ⟨table', ?_, (aside.mono (by simp)).trans (aside'.mono (by simp))⟩
      intro other member
      rcases List.mem_cons.mp member with rfl | later
      · rw [(aside' other.2 fresh).1, (aside' other.2 fresh).2]
        exact started other List.mem_cons_self
      · exact started' other later

/-- A commit that deletes nothing does not conflict. -/
theorem commit_of_clean (clean : log.old snapshot = []) (table : Table Entry) :
    ∃ after, (staged log call snapshot).commit table = some after := by
  refine ⟨_, if_pos ?_⟩
  intro row member
  rw [staged, clean] at member
  cases member

theorem finish_all (clean : log.old snapshot = []) (distinct : (group.map Prod.snd).Nodup)
    (started : Started log snapshot group clients) :
    ∃ turns, log.count (proceed turns clients).state.table = log.count clients.state.table +
        (group.map fun party => log.share (log.found snapshot) party.1).sum ∧
      Aside group clients (proceed turns clients) := by
  induction group generalizing clients with
  | nil => exact ⟨[], rfl, fun _ _ => ⟨rfl, rfl⟩⟩
  | cons party rest ih =>
      obtain ⟨fresh, others⟩ := List.nodup_cons.mp distinct
      have own : Started log snapshot [party] clients := fun other member =>
        started other (List.mem_singleton.mp member ▸ List.mem_cons_self)
      obtain ⟨turns, table, aside⟩ := finish_one own
      obtain ⟨after, committed⟩ := commit_of_clean clean clients.state.table
      rw [committed, Option.getD_some] at table
      have still : Started log snapshot rest (proceed turns clients) := by
        intro other member
        have apart := apart_of_fresh fresh member
        rw [(aside other.2 apart).1, (aside other.2 apart).2]
        exact started other (List.mem_cons_of_mem _ member)
      obtain ⟨turns', count, aside'⟩ := ih others still
      refine ⟨turns ++ turns', ?_, ?_⟩
      · rw [proceed_append, count, table, commit_share committed, List.map_cons, List.sum_cons,
          Nat.add_assoc]
      · rw [proceed_append]
        exact (aside.mono (by simp)).trans (aside'.mono (by simp))

/-- Transactions that begin together, and then end one after another. -/
theorem burst (clean : log.old clients.state.table.rows = [])
    (distinct : (group.map Prod.snd).Nodup) (waiting : Waiting log group clients) :
    ∃ turns, log.count (proceed turns clients).state.table = log.count clients.state.table +
        (group.map fun party => log.share (log.count clients.state.table) party.1).sum ∧
      Aside group clients (proceed turns clients) := by
  obtain ⟨first, table, started, aside⟩ := begin_all distinct waiting
  obtain ⟨second, count, aside'⟩ := finish_all clean distinct started
  refine ⟨first ++ second, ?_⟩
  rw [proceed_append, count, table]
  exact ⟨rfl, aside.trans aside'⟩

theorem solo (waiting : clients.threads[tx]? = some (log.transaction call tx)) :
    ∃ turns, log.count (proceed turns clients).state.table = log.count clients.state.table +
        log.share (log.count clients.state.table) call ∧
      (log.Clears (log.count clients.state.table) call →
        log.old (proceed turns clients).state.table.rows = []) ∧
      Aside [(call, tx)] clients (proceed turns clients) := by
  obtain ⟨table, started, aside⟩ := begin_one waiting
  obtain ⟨turns, table', aside'⟩ := finish_one started
  have committed : (staged log call clients.state.table.rows).commit clients.state.table = some _ :=
    if_pos fun row member => (List.mem_filter.mp member).1
  rw [table, committed, Option.getD_some] at table'
  refine ⟨[tx] ++ turns, ?_⟩
  rw [proceed_append, table']
  refine ⟨commit_share committed, fun clears => ?_, aside.trans aside'⟩
  refine List.filter_eq_nil_iff.mpr fun row member stale => ?_
  rcases List.mem_append.mp member with kept | new
  · obtain ⟨before, notDeleted⟩ := List.mem_filter.mp kept
    exact of_decide_eq_true notDeleted (List.mem_filter.mpr ⟨before, stale⟩)
  · obtain ⟨i, inside, rfl⟩ := List.mem_mapIdx.mp new
    simp only [staged, List.length_replicate, List.getElem_replicate] at inside stale
    rcases clears with nothing | late
    · exact absurd inside (by rw [← Log.count, nothing]; exact Nat.not_lt_zero i)
    · exact absurd (stale_entry.mp stale) (not_lt.mpr late)

/-- All parties but one together, then that one on its own. -/
theorem exceeds_of_late_share {top : Nat} (clean : log.old clients.state.table.rows = [])
    (distinct : (group.map Prod.snd).Nodup) (waiting : Waiting log group clients)
    (member : (call, tx) ∈ group)
    (joined : top = log.count clients.state.table +
      (group.map fun party => log.share (log.count clients.state.table) party.1).sum)
    (within : top ≤ log.limit) (nothing : log.share (log.count clients.state.table) call = 0)
    (adds : log.share top call ≠ 0) :
    ∃ turns, log.limit < log.count (proceed turns clients).state.table := by
  obtain ⟨rest, split⟩ : ∃ rest, group.Perm ((call, tx) :: rest) :=
    ⟨_, List.perm_cons_erase member⟩
  obtain ⟨apart, distinct'⟩ := List.nodup_cons.mp ((split.map Prod.snd).nodup_iff.mp distinct)
  obtain ⟨first, count, aside⟩ := burst clean distinct' fun party left =>
    waiting party (split.mem_iff.mpr (List.mem_cons_of_mem _ left))
  have reached : log.count (proceed first clients).state.table = top := by
    rw [count, joined, (split.map _).sum_eq, List.map_cons, List.sum_cons, nothing, Nat.zero_add]
  obtain ⟨second, count', _⟩ := solo ((aside tx apart).1.trans (waiting _ member))
  refine ⟨first ++ second, ?_⟩
  rw [proceed_append, count', reached]
  refine Log.limit_lt_of_late_share ?_ within nothing adds
  exact joined ▸ Nat.le_add_right _ _

/-- Where there is no room for the parties, some of their schedules exceed the limit. -/
theorem exceeds_of_not_room (first : Option Nat) (clean : log.old clients.state.table.rows = [])
    (waiting : Waiting log (parties first calls) clients)
    (crowded : ¬ log.Room (log.count clients.state.table) (others first calls)) :
    ∃ turns, log.limit < log.count (proceed turns clients).state.table := by
  have total : ∀ count, ((parties first calls).map fun party => log.share count party.1).sum =
      ((others first calls).map (log.share count)).sum := by
    intro count
    rw [← parties_calls, List.map_map]
    rfl
  by_cases together : log.joint (log.count clients.state.table) (others first calls) ≤ log.limit
  · obtain ⟨call, member, nothing, overflows⟩ : ∃ call ∈ others first calls,
        log.share (log.count clients.state.table) call = 0 ∧
          log.share (log.joint (log.count clients.state.table) (others first calls)) call ≠ 0 := by
      by_contra quiet
      refine crowded ⟨together, fun call member nothing => ?_⟩
      by_contra adds
      exact quiet ⟨call, member, nothing, adds⟩
    rw [← parties_calls] at member
    obtain ⟨⟨call, tx⟩, party, rfl⟩ := List.mem_map.mp member
    exact exceeds_of_late_share clean parties_nodup waiting party
      (congrArg (log.count clients.state.table + ·) (total _).symm) together nothing overflows
  · obtain ⟨turns, count, _⟩ := burst clean parties_nodup waiting
    refine ⟨turns, ?_⟩
    rw [count, total]
    exact not_le.mp together

theorem exceeds_of_not_safe {table : Table Entry} (unsafety : ¬ log.Safe table calls) :
    ∃ schedule, log.limit < log.count (log.interleaved calls table schedule).state.table := by
  let clients : Clients :=
    .start (calls.mapIdx fun tx call => log.transaction call tx) ⟨table, fun _ => none⟩
  have waiting : ∀ first, Waiting log (parties first calls) clients := by
    intro first party member
    have listed := (mem_parties.mp member).1
    change (calls.mapIdx fun tx call => log.transaction call tx)[party.2]? = _
    rw [List.getElem?_mapIdx, listed]
    rfl
  unfold Log.Safe at unsafety
  split_ifs at unsafety with clean
  · exact exceeds_of_not_room none clean (waiting none) unsafety
  · push Not at unsafety
    obtain ⟨tx, call, listed, clears, crowded⟩ := unsafety
    have own : clients.threads[tx]? = some (log.transaction call tx) :=
      waiting none (call, tx) (mem_parties.mpr ⟨listed, nofun⟩)
    obtain ⟨turns, count, cleared, aside⟩ := solo own
    have still : Waiting log (parties (some tx) calls) (proceed turns clients) := by
      intro party member
      have apart : party.2 ∉ [(call, tx)].map Prod.snd := by
        rw [List.map_singleton, List.mem_singleton]
        exact fun same => (mem_parties.mp member).2 (congrArg some same.symm)
      exact (aside party.2 apart).1.trans (waiting (some tx) party member)
    obtain ⟨turns', exceeded⟩ := exceeds_of_not_room (some tx) (cleared clears) still
      (count ▸ crowded)
    refine ⟨turns ++ turns', ?_⟩
    rw [← proceed_append] at exceeded
    exact exceeded

end Overrun

/-- From a table within the limit, every interleaving of the transactions stays within it
exactly if there is room for what each of the calls finds room for. -/
theorem within_limit_iff (log : Log) (calls : List Call) (table : Table Entry)
    (initially : log.count table ≤ log.limit) :
    (∀ schedule, log.count (log.interleaved calls table schedule).state.table ≤ log.limit) ↔
      log.Safe table calls := by
  constructor
  · intro within
    by_contra unsafety
    obtain ⟨schedule, exceeded⟩ := exceeds_of_not_safe unsafety
    exact not_le.mpr exceeded (within schedule)
  · exact fun safe schedule => within_of_safe safe initially schedule

/-- Two requests for the two places of an empty log. -/
theorem within_limit_of_two :
    let log : Log := ⟨"k", 10, 2, by decide⟩
    let calls : List Call := [⟨1, 10, none, by decide⟩, ⟨1, 11, none, by decide⟩]
    let empty : Table Entry := ⟨[], 0, nofun⟩
    log.count empty ≤ log.limit ∧
      ∀ schedule, log.count (log.interleaved calls empty schedule).state.table ≤ log.limit := by
  refine ⟨by decide, (within_limit_iff _ _ _ (by decide)).mpr ?_⟩
  unfold Log.Safe
  split_ifs with clean
  · exact ⟨by decide, by decide⟩
  · exact absurd rfl clean

/-- Two requests for the one place of an empty log: both transactions begin, then one
after the other trims, counts, inserts and commits. -/
theorem write_skew :
    let log : Log := ⟨"k", 10, 1, by decide⟩
    let calls : List Call := [⟨1, 10, none, by decide⟩, ⟨1, 11, none, by decide⟩]
    let empty : Table Entry := ⟨[], 0, nofun⟩
    log.count empty ≤ log.limit ∧
      log.count (log.interleaved calls empty [0, 1, 0, 0, 0, 0, 1, 1, 1, 1]).state.table = 2 := by
  decide

end Rlaas.Store.Oracle
