import Rlaas.Lib.ReadCommitted
import Mathlib.Tactic.SplitIfs

/-! Transactions that lock, delete, count, insert and commit are serializable in the order of
their commits, as long as no two of them with different locks are about the same rows. -/

set_option autoImplicit false

namespace ReadCommitted

open Effect Snapshot Function

variable {α L β : Type}
variable {session : Session α}

/-- The committed rows without their identities. -/
def entries (table : Table α) : List α := table.rows.map Prod.snd

theorem entries_append (table : Table α) (new : List α) :
    entries (table.append new) = entries table ++ new := by
  rw [entries, Table.append, List.map_append]
  refine congrArg (entries table ++ ·) (List.ext_getElem? fun i => ?_)
  rw [List.getElem?_map, List.getElem?_mapIdx, Option.map_map]
  cases new[i]? with
  | none => rfl
  | some entry => rfl

theorem countP_entries (table : Table α) (test : α → Bool) :
    (entries table).countP test = (table.rows.filter fun row => test row.2).length := by
  rw [entries, List.countP_map, List.countP_eq_length_filter]
  rfl

namespace Session

variable [DecidableEq α] {table : Table α}

theorem seen_fresh : ({} : Session α).seen table = table.rows := by
  rw [seen, Table.remove, List.filter_eq_self]
  simp

theorem rows_remove_filter (table : Table α) (test : α → Bool) :
    (table.remove (table.rows.filter fun row => test row.2)).rows =
      table.rows.filter fun row => !test row.2 := by
  refine List.filter_congr fun row member => ?_
  simp [member]

/-- The session of a transaction that has deleted the stale rows and inserted some. -/
def trimming (table : Table α) (stale : α → Bool) (inserted : List α) : Session α where
  deleted := table.rows.filter fun row => stale row.2
  inserted

theorem entries_apply (stale : α → Bool) (inserted : List α) :
    entries (apply table (trimming table stale inserted)) =
      (entries table).filter (fun entry => !stale entry) ++ inserted := by
  rw [apply, entries_append, trimming]
  refine congrArg (· ++ inserted) ?_
  rw [entries, rows_remove_filter, entries, List.filter_map]
  rfl

/-- A count that does not see what was deleted counts the committed rows. -/
theorem count_trimmed (table : Table α) {stale recent : α → Bool}
    (kept : ∀ entry, recent entry = true → stale entry = false) :
    count table recent (trimming table stale []) =
      ((entries table).countP recent : Nat) := by
  rw [count, seen, trimming, rows_remove_filter, List.countP_filter, entries, List.countP_map]
  refine congrArg Nat.cast (List.countP_congr fun row _ => ?_)
  simp only [Bool.and_eq_true, Bool.not_eq_true', Function.comp_apply, and_iff_left_iff_imp]
  exact kept row.2

/-- Rows a test does not see come and go without changing what it sees. -/
theorem filter_apply {test : α → Bool} (deleted : ∀ row ∈ session.deleted, test row.2 = false)
    (inserted : ∀ entry ∈ session.inserted, test entry = false) :
    ((session.apply table).rows.filter fun row => test row.2) =
      table.rows.filter fun row => test row.2 := by
  have none : (session.inserted.mapIdx fun i entry =>
      ((table.remove session.deleted).next + i, entry)).filter (fun row => test row.2) = [] := by
    rw [List.filter_eq_nil_iff]
    intro row member seen
    obtain ⟨i, inside, rfl⟩ := List.mem_mapIdx.mp member
    rw [inserted _ (List.getElem_mem inside)] at seen
    cases seen
  rw [apply, Table.append, List.filter_append, none, List.append_nil, Table.remove,
    List.filter_filter]
  refine List.filter_congr fun row _ => ?_
  by_cases seen : test row.2 = true
  · have kept : row ∉ session.deleted := by
      intro member
      rw [deleted row member] at seen
      cases seen
    simp [kept]
  · simp [seen]

end Session

theorem thread_of_tried {tx other : Nat} {event : Event (Op α L) Res} {kept : Bool}
    (found : tried tx event = some (other, kept)) : tx = other := by
  unfold tried at found
  split at found
  · cases found; rfl
  · cases found; rfl
  · cases found

section Replay

variable {jobs : Nat → Job α L} {initial : List α} {committed : List (Nat × Bool)} {tx other : Nat}
  {kept : Bool} {report : Report}

theorem replay_snoc (jobs : Nat → Job α L) (initial : List α) (committed : List (Nat × Bool))
    (commit : Nat × Bool) :
    replay jobs initial (committed ++ [commit]) =
      if commit.2 then (jobs commit.1).effect (replay jobs initial committed)
      else replay jobs initial committed := by
  rw [replay, List.foldl_append]
  rfl

theorem Placed.snoc_other (placed : Placed jobs initial committed other report)
    (different : other ≠ tx) : Placed jobs initial (committed ++ [(tx, kept)]) other report := by
  cases report with
  | none =>
      intro kept' member
      rcases List.mem_append.mp member with before | last
      · exact placed kept' before
      · exact absurd (Prod.ext_iff.mp (List.mem_singleton.mp last)).1 different
  | some answer =>
      obtain ⟨before, kept', after, rfl, rest⟩ := placed
      exact ⟨before, kept', after ++ [(tx, kept)], by simp, rest⟩

theorem Placed.snoc {count : Int} {inserted : Bool}
    (counted : count = (jobs tx).counts (replay jobs initial committed))
    (chosen : inserted = ((jobs tx).rule count).isSome) (success : inserted = true → kept = true) :
    Placed jobs initial (committed ++ [(tx, kept)]) tx (some (count, inserted)) :=
  ⟨committed, kept, [], rfl, counted, chosen, success⟩

theorem Placed.none_of_fresh (jobs : Nat → Job α L) (initial : List α)
    (fresh : tx ∉ committed.map Prod.fst) :
    Placed jobs initial committed tx none := fun _ member =>
  absurd (List.mem_map_of_mem member) fresh

theorem Placed.none_snoc (jobs : Nat → Job α L) (initial : List α)
    (fresh : tx ∉ committed.map Prod.fst) :
    Placed jobs initial (committed ++ [(tx, false)]) tx none := by
  intro kept member
  rcases List.mem_append.mp member with before | last
  · exact absurd (List.mem_map_of_mem before) fresh
  · exact (Prod.ext_iff.mp (List.mem_singleton.mp last)).2

end Replay

/-- The transaction holds its lock and has deleted what was stale of the committed rows. -/
def Working (job : Job α L) (db : Database α L) (tx : Nat) (inserted : List α) : Prop :=
  db.locks job.lock = some tx ∧ db.sessions tx = some (.trimming db.table job.stale inserted)

def Fits (job : Job α L) (db : Database α L) (tx : Nat) : Stage α → Prop
  | .begun => db.sessions tx = some {}
  | .locked => db.locks job.lock = some tx ∧ db.sessions tx = some {}
  | .trimmed => Working job db tx []
  | .adding count rest => count = job.counts (entries db.table) ∧
      ∃ inserted, job.rule count = some (inserted ++ rest) ∧ Working job db tx inserted
  | .refusing count => count = job.counts (entries db.table) ∧ job.rule count = none ∧
      Working job db tx []
  | .aborted => ∃ session, db.sessions tx = some session ∧ session.aborted = true
  | _ => True

/-- Whoever has not tried to commit is not among the commits. -/
def Settled (jobs : Nat → Job α L) (initial : List α) (committed : List (Nat × Bool)) (tx : Nat) :
    Stage α → Prop
  | .leaving report => Placed jobs initial committed tx report
  | .ended report => Placed jobs initial committed tx report
  | _ => tx ∉ committed.map Prod.fst

structure Serial (jobs : Nat → Job α L) (initial : List α) (db : Database α L)
    (committed : List (Nat × Bool)) (stages : Nat → Stage α) : Prop where
  rows : entries db.table = replay jobs initial committed
  once : (committed.map Prod.fst).Nodup
  fits : ∀ tx, Fits (jobs tx) db tx (stages tx)
  settled : ∀ tx, Settled jobs initial committed tx (stages tx)

section Step

variable {jobs : Nat → Job α L} {initial : List α} {db after : Database α L}
  {committed : List (Nat × Bool)} {stages : Nat → Stage α} {stage : Stage α} {tx other : Nat}

theorem Fits.frame {job : Job α L} (fits : Fits job db other stage)
    (stale : (after.table.rows.filter fun row => job.stale row.2) =
      db.table.rows.filter fun row => job.stale row.2)
    (counts : job.counts (entries after.table) = job.counts (entries db.table))
    (sessions : after.sessions other = db.sessions other)
    (locks : db.locks job.lock = some other → after.locks job.lock = some other) :
    Fits job after other stage := by
  have working : ∀ {inserted}, Working job db other inserted → Working job after other inserted :=
    fun held => ⟨locks held.1, by rw [sessions, Session.trimming, stale]; exact held.2⟩
  cases stage with
  | begun => exact sessions.trans fits
  | locked => exact ⟨locks fits.1, sessions.trans fits.2⟩
  | trimmed => exact working fits
  | adding count rest =>
      obtain ⟨counted, inserted, chosen, held⟩ := fits
      exact ⟨counted.trans counts.symm, inserted, chosen, working held⟩
  | refusing count => exact ⟨fits.1.trans counts.symm, fits.2.1, working fits.2.2⟩
  | aborted =>
      obtain ⟨session, found, aborted⟩ := fits
      exact ⟨session, sessions.trans found, aborted⟩
  | _ => trivial

theorem Settled.snoc_other {kept : Bool} (settled : Settled jobs initial committed other stage)
    (different : other ≠ tx) : Settled jobs initial (committed ++ [(tx, kept)]) other stage := by
  have fresh : other ∉ committed.map Prod.fst →
      other ∉ (committed ++ [(tx, kept)]).map Prod.fst := by
    intro absent
    simp only [List.map_append, List.mem_append, not_or, List.map_cons, List.map_nil,
      List.mem_singleton]
    exact ⟨absent, different⟩
  cases stage with
  | leaving report => exact Placed.snoc_other settled different
  | ended report => exact Placed.snoc_other settled different
  | _ => exact fresh settled

theorem Serial.keep (serial : Serial jobs initial db committed stages)
    (table : after.table = db.table)
    (sessions : ∀ other, other ≠ tx → after.sessions other = db.sessions other)
    (locks : ∀ other id, other ≠ tx → db.locks id = some other → after.locks id = some other)
    (own : Fits (jobs tx) after tx stage) (place : Settled jobs initial committed tx stage) :
    Serial jobs initial after committed (update stages tx stage) := by
  refine ⟨by rw [table]; exact serial.rows, serial.once,
    (Function.forall_update_iff stages _).mpr ⟨own, fun other different => ?_⟩,
    (Function.forall_update_iff stages _).mpr ⟨place, fun other _ => serial.settled other⟩⟩
  exact (serial.fits other).frame (by rw [table]) (by rw [table]) (sessions other different)
    (locks other _ different)

theorem Serial.close {kept : Bool} (serial : Serial jobs initial db committed stages)
    (rows : entries after.table = replay jobs initial (committed ++ [(tx, kept)]))
    (fresh : tx ∉ committed.map Prod.fst)
    (others : ∀ other, other ≠ tx → Fits (jobs other) after other (stages other))
    (own : Fits (jobs tx) after tx stage)
    (place : Settled jobs initial (committed ++ [(tx, kept)]) tx stage) :
    Serial jobs initial after (committed ++ [(tx, kept)]) (update stages tx stage) := by
  refine ⟨rows, ?_, (Function.forall_update_iff stages _).mpr ⟨own, others⟩,
    (Function.forall_update_iff stages _).mpr
      ⟨place, fun other different => (serial.settled other).snoc_other different⟩⟩
  rw [List.map_append, List.nodup_append]
  refine ⟨serial.once, List.nodup_singleton tx, ?_⟩
  intro first member second last same
  rw [List.map_cons, List.map_nil, List.mem_singleton] at last
  rw [same, last] at member
  exact fresh member

theorem Serial.of_located (serial : Serial jobs initial db committed stages)
    (located : stages tx = stage) :
    Fits (jobs tx) db tx stage ∧ Settled jobs initial committed tx stage :=
  located ▸ ⟨serial.fits tx, serial.settled tx⟩

theorem release_sessions_other [DecidableEq L] (different : other ≠ tx) :
    (db.release tx).sessions other = db.sessions other :=
  update_of_ne different _ _

theorem release_locks_other {id : L} (different : other ≠ tx) (held : db.locks id = some other) :
    (db.release tx).locks id = some other := by
  change (if db.locks id = some tx then none else db.locks id) = some other
  rw [if_neg, held]
  rw [held]
  exact fun same => different (Option.some.inj same)

/-- Two jobs with different locks are about different rows. -/
def Apart (jobs : Nat → Job α L) : Prop :=
  ∀ tx other, (jobs tx).lock ≠ (jobs other).lock → ∀ entry, (jobs tx).mine entry = true →
    (jobs other).mine entry = false

theorem Apart.unseen (apart : Apart jobs) (different : (jobs tx).lock ≠ (jobs other).lock)
    {test : α → Bool} (only : ∀ entry, test entry = true → (jobs other).mine entry = true)
    {entry : α} (mine : (jobs tx).mine entry = true) : test entry = false := by
  refine Bool.eq_false_iff.mpr fun seen => ?_
  have theirs := only entry seen
  rw [apart tx other different entry mine] at theirs
  cases theirs

theorem Serial.commit_failed [DecidableEq L] (serial : Serial jobs initial db committed stages)
    (fresh : tx ∉ committed.map Prod.fst) (own : Fits (jobs tx) (db.release tx) tx stage)
    (place : Settled jobs initial (committed ++ [(tx, false)]) tx stage) :
    Serial jobs initial (db.release tx) (committed ++ [(tx, false)])
      (update stages tx stage) := by
  refine serial.close ?_ fresh (fun other different => ?_) own place
  · rw [replay_snoc]
    exact serial.rows
  · exact (serial.fits other).frame rfl rfl (release_sessions_other different)
      (release_locks_other different)

/-- A statement fails and leaves its transaction aborted, or it is executed. -/
theorem statement_cases {γ : Type} (fault : Option String)
    (execute : Session α → γ × Session α × (L → Option Nat))
    (found : db.sessions tx = some session) :
    (∃ err after, db.statement fault tx execute = (.error err, after) ∧ after.table = db.table ∧
        (∀ other id, other ≠ tx → db.locks id = some other → after.locks id = some other) ∧
        (∀ other, other ≠ tx → after.sessions other = db.sessions other) ∧
        ∃ session, after.sessions tx = some session ∧ session.aborted = true) ∨
      (fault = none ∧ session.aborted = false ∧ db.statement fault tx execute =
        (.ok (execute session).1, { db.withSession tx (some (execute session).2.1) with
          locks := (execute session).2.2 })) := by
  unfold Database.statement
  simp only [found]
  split_ifs with aborted
  · exact .inl ⟨_, _, rfl, rfl, fun _ _ _ held => held, fun _ _ => rfl, session, found, aborted⟩
  · cases fault with
    | some err => exact .inl ⟨_, _, rfl, rfl, fun _ _ _ held => held,
        fun other different => update_of_ne different _ _,
        _, update_self _ _ _, rfl⟩
    | none => exact .inr ⟨rfl, Bool.eq_false_iff.mpr aborted, rfl⟩

theorem statement_aborted {γ : Type} (fault : Option String)
    (execute : Session α → γ × Session α × (L → Option Nat)) (found : db.sessions tx = some session)
    (aborted : session.aborted = true) :
    db.statement fault tx execute = (.error Database.txAborted, db) := by
  rw [Database.statement, found]
  exact if_pos aborted

variable [DecidableEq α] [DecidableEq L] {reports : β → Report} {fault : Option String} {op : Op α L}

/-- The step keeps the invariant and the answer is one the monitor expects. -/
def Kept (jobs : Nat → Job α L) (reports : β → Report) (initial : List α) (db : Database α L)
    (committed : List (Nat × Bool)) (stages : Nat → Stage α) (tx : Nat) (fault : Option String)
    (op : Op α L) : Prop :=
  let answer := Database.perform fault op db
  (watch (jobs tx) reports tx).expects (stages tx) op answer.1 ∧
    Serial jobs initial answer.2 (committed ++ (tried tx ⟨op, answer.1⟩).toList)
      (update stages tx ((watch (jobs tx) reports tx).advance (stages tx) op answer.1))

section Performed

variable {answer : Res op} {after : Database α L} {next : Stage α}

theorem kept_of_performed (located : stages tx = stage)
    (performed : Database.perform fault op db = (answer, after))
    (untried : tried tx ⟨op, answer⟩ = none)
    (expected : (watch (jobs tx) reports tx).expects stage op answer)
    (moved : (watch (jobs tx) reports tx).advance stage op answer = next)
    (serial : Serial jobs initial after committed (update stages tx next)) :
    Kept jobs reports initial db committed stages tx fault op := by
  rw [Kept, performed, located]
  refine ⟨expected, ?_⟩
  rw [untried, Option.toList_none, List.append_nil, moved]
  exact serial

theorem kept_of_committed {success : Bool} (located : stages tx = stage)
    (performed : Database.perform fault op db = (answer, after))
    (attempted : tried tx ⟨op, answer⟩ = some (tx, success))
    (expected : (watch (jobs tx) reports tx).expects stage op answer)
    (moved : (watch (jobs tx) reports tx).advance stage op answer = next)
    (serial : Serial jobs initial after (committed ++ [(tx, success)])
      (update stages tx next)) :
    Kept jobs reports initial db committed stages tx fault op := by
  rw [Kept, performed, located]
  refine ⟨expected, ?_⟩
  rw [attempted, Option.toList_some, moved]
  exact serial

end Performed

theorem perform_commit (found : db.sessions tx = some session) (going : session.aborted = false) :
    (∀ err, Database.perform (some err) (.commit tx) db = (.error err, db.release tx)) ∧
      Database.perform none (.commit tx) db =
        (.ok (), { db.release tx with table := session.apply db.table }) := by
  simp only [Database.perform, found, going, Bool.false_eq_true, if_false, implies_true, and_self]

section Statements

variable (serial : Serial jobs initial db committed stages)

include serial

theorem Serial.begin (located : stages tx = .idle) :
    Kept jobs reports initial db committed stages tx fault (.begin tx) := by
  have fresh := (serial.of_located located).2
  cases fault with
  | some err =>
      refine kept_of_performed located rfl rfl trivial rfl ?_
      exact serial.keep rfl (fun _ _ => rfl) (fun _ _ _ held => held) trivial
        (Placed.none_of_fresh jobs initial fresh)
  | none =>
      refine kept_of_performed located rfl rfl trivial rfl ?_
      exact serial.keep rfl (fun other different => update_of_ne different _ _)
        (fun _ _ _ held => held) (update_self _ _ _) fresh

theorem Serial.lock (proceeds : fault ≠ none ∨ db.waits (.lock tx (jobs tx).lock) = false)
    (located : stages tx = .begun) :
    Kept jobs reports initial db committed stages tx fault (.lock tx (jobs tx).lock) := by
  obtain ⟨found, fresh⟩ := serial.of_located located
  rcases statement_cases fault (fun session =>
      ((), session, update db.locks (jobs tx).lock (some tx))) found with
    ⟨err, after, failed, table, locks, sessions, aborted⟩ | ⟨clean, _, executed⟩
  · refine kept_of_performed located failed rfl trivial rfl ?_
    exact serial.keep table sessions locks aborted fresh
  · refine kept_of_performed located executed rfl trivial rfl ?_
    refine serial.keep rfl (fun other different => update_of_ne different _ _) ?_
      ⟨update_self _ _ _, update_self _ _ _⟩ fresh
    intro other id different held
    -- The lock was free, or the transaction's own.
    have free := proceeds.resolve_left (not_not.mpr clean)
    refine (update_of_ne ?_ _ _).trans held
    rintro rfl
    rw [Database.waits, held, Option.any_some, bne_eq_false_iff_eq] at free
    exact different free

theorem Serial.delete (located : stages tx = .locked) :
    Kept jobs reports initial db committed stages tx fault (.delete tx (jobs tx).stale) := by
  obtain ⟨⟨held, found⟩, fresh⟩ := serial.of_located located
  rcases statement_cases fault (fun session =>
      ((), session.delete db.table (jobs tx).stale, db.locks)) found with
    ⟨err, after, failed, table, locks, sessions, aborted⟩ | ⟨_, _, executed⟩
  · refine kept_of_performed located failed rfl trivial rfl ?_
    exact serial.keep table sessions locks aborted fresh
  · refine kept_of_performed located executed rfl trivial rfl ?_
    refine serial.keep rfl (fun other different => update_of_ne different _ _)
      (fun _ _ _ held => held) ⟨held, (update_self _ _ _).trans ?_⟩ fresh
    rw [Session.delete, Session.seen_fresh]
    rfl

theorem Serial.delete_aborted (located : stages tx = .aborted) :
    Kept jobs reports initial db committed stages tx fault (.delete tx (jobs tx).stale) := by
  obtain ⟨⟨session, found, aborted⟩, fresh⟩ := serial.of_located located
  refine kept_of_performed located (statement_aborted fault _ found aborted) rfl trivial rfl ?_
  exact serial.keep rfl (fun _ _ => rfl) (fun _ _ _ held => held) ⟨session, found, aborted⟩ fresh

theorem Serial.count_aborted (located : stages tx = .aborted) :
    Kept jobs reports initial db committed stages tx fault (.count tx (jobs tx).recent) := by
  obtain ⟨⟨session, found, aborted⟩, fresh⟩ := serial.of_located located
  refine kept_of_performed located (statement_aborted fault _ found aborted) rfl trivial rfl ?_
  exact serial.keep rfl (fun _ _ => rfl) (fun _ _ _ held => held) trivial
    (Placed.none_of_fresh jobs initial fresh)

theorem Serial.count (located : stages tx = .trimmed) :
    Kept jobs reports initial db committed stages tx fault (.count tx (jobs tx).recent) := by
  obtain ⟨working, fresh⟩ := serial.of_located located
  have counted := Session.count_trimmed db.table (jobs tx).recent_kept
  rcases statement_cases fault (fun session =>
      (session.count db.table (jobs tx).recent, session, db.locks)) working.2 with
    ⟨err, after, failed, table, locks, sessions, _⟩ | ⟨_, _, executed⟩
  · refine kept_of_performed located failed rfl trivial rfl ?_
    exact serial.keep table sessions locks trivial
      (Placed.none_of_fresh jobs initial fresh)
  · rw [counted] at executed
    have still : Working (jobs tx) { db.withSession tx (some
        (.trimming db.table (jobs tx).stale [])) with locks := db.locks } tx [] :=
      ⟨working.1, update_self _ _ _⟩
    refine kept_of_performed located executed rfl trivial rfl (serial.keep rfl
      (fun other different => update_of_ne different _ _) (fun _ _ _ held => held) ?_ ?_)
    · change Fits (jobs tx) _ tx (.decided _ ((jobs tx).rule _))
      cases chosen : (jobs tx).rule ((entries db.table).countP (jobs tx).recent : Nat) with
      | none => exact ⟨rfl, chosen, still⟩
      | some rows => exact ⟨rfl, [], chosen, still⟩
    · change Settled jobs initial committed tx (.decided _ ((jobs tx).rule _))
      cases (jobs tx).rule ((entries db.table).countP (jobs tx).recent : Nat) with
      | none => exact fresh
      | some rows => exact fresh

theorem Serial.insert {count : Int} {entry : α} {rest : List α}
    (located : stages tx = .adding count (entry :: rest)) :
    Kept jobs reports initial db committed stages tx fault (.insert tx entry) := by
  obtain ⟨⟨counted, inserted, chosen, working⟩, fresh⟩ := serial.of_located located
  rcases statement_cases fault (fun session => ((), session.insert entry, db.locks)) working.2 with
    ⟨err, after, failed, table, locks, sessions, _⟩ | ⟨_, _, executed⟩
  · refine kept_of_performed located failed rfl trivial rfl ?_
    exact serial.keep table sessions locks trivial
      (Placed.none_of_fresh jobs initial fresh)
  · refine kept_of_performed located executed rfl trivial rfl ?_
    refine serial.keep rfl (fun other different => update_of_ne different _ _)
      (fun _ _ _ held => held) ⟨counted, inserted ++ [entry], ?_, working.1, ?_⟩ fresh
    · rw [chosen, List.append_assoc]
      rfl
    · exact update_self _ _ _

theorem Serial.fits_apply {inserted : List α}
    (apart : Apart jobs) (working : Working (jobs tx) db tx inserted)
    (mine : ∀ entry ∈ inserted, (jobs tx).mine entry = true) (different : other ≠ tx) :
    Fits (jobs other) { db.release tx with
      table := Session.apply db.table (.trimming db.table (jobs tx).stale inserted) } other
        (stages other) := by
  have frame : (jobs tx).lock ≠ (jobs other).lock → ∀ test : α → Bool,
      (∀ entry, test entry = true → (jobs other).mine entry = true) →
      ((Session.apply db.table (.trimming db.table (jobs tx).stale inserted)).rows.filter fun row =>
        test row.2) =
        db.table.rows.filter fun row => test row.2 := by
    intro locks test only
    refine Session.filter_apply (fun row member => ?_) fun entry member => ?_
    · exact apart.unseen locks only ((jobs tx).stale_mine _ (List.mem_filter.mp member).2)
    · exact apart.unseen locks only (mine entry member)
  by_cases locks : (jobs tx).lock = (jobs other).lock
  · -- The other transaction does not hold the lock, so it has seen nothing yet.
    have fits := serial.fits other
    have free : db.locks (jobs other).lock ≠ some other := by
      rw [← locks, working.1]
      exact fun same => different (Option.some.inj same).symm
    cases stage : stages other with
    | locked => rw [stage] at fits; exact absurd fits.1 free
    | trimmed => rw [stage] at fits; exact absurd fits.1 free
    | adding _ _ =>
        rw [stage] at fits
        obtain ⟨_, _, _, held⟩ := fits
        exact absurd held.1 free
    | refusing _ => rw [stage] at fits; exact absurd fits.2.2.1 free
    | begun => rw [stage] at fits; exact (release_sessions_other different).trans fits
    | aborted =>
        rw [stage] at fits
        obtain ⟨session, found, aborted⟩ := fits
        exact ⟨session, (release_sessions_other different).trans found, aborted⟩
    | _ => trivial
  · refine (serial.fits other).frame (frame locks _ (jobs other).stale_mine) ?_
      (release_sessions_other different) (release_locks_other different)
    rw [Job.counts, Job.counts, countP_entries, countP_entries,
      frame locks _ (jobs other).recent_mine]

theorem Serial.commit_ok {inserted : List α} {count : Int} (apart : Apart jobs)
    (fresh : tx ∉ committed.map Prod.fst) (working : Working (jobs tx) db tx inserted)
    (counted : count = (jobs tx).counts (entries db.table))
    (chosen : ((jobs tx).rule count).getD [] = inserted)
    (own : Fits (jobs tx) { db.release tx with
      table := Session.apply db.table (.trimming db.table (jobs tx).stale inserted) } tx stage)
    (place : Settled jobs initial (committed ++ [(tx, true)]) tx stage) :
    Serial jobs initial { db.release tx with
      table := Session.apply db.table (.trimming db.table (jobs tx).stale inserted) }
      (committed ++ [(tx, true)]) (update stages tx stage) := by
  have mine : ∀ entry ∈ inserted, (jobs tx).mine entry = true := by
    intro entry member
    cases rule : (jobs tx).rule count with
    | none =>
        rw [rule, Option.getD_none] at chosen
        rw [← chosen] at member
        cases member
    | some rows =>
        rw [rule, Option.getD_some] at chosen
        exact (jobs tx).inserts_mine count rows rule entry (chosen ▸ member)
  refine serial.close ?_ fresh (fun other different => serial.fits_apply apart working mine different)
    own place
  rw [replay_snoc, if_pos rfl, ← serial.rows, Job.effect, ← counted, chosen]
  exact Session.entries_apply _ _

theorem Serial.commit {count : Int} (apart : Apart jobs) (located : stages tx = .adding count []) :
    Kept jobs reports initial db committed stages tx fault (.commit tx) := by
  obtain ⟨⟨counted, inserted, chosen, working⟩, fresh⟩ := serial.of_located located
  rw [List.append_nil] at chosen
  obtain ⟨failed, executed⟩ := perform_commit working.2 rfl
  cases fault with
  | some err =>
      refine kept_of_committed located (failed err) rfl trivial rfl ?_
      exact serial.commit_failed fresh trivial (Placed.none_snoc jobs initial fresh)
  | none =>
      refine kept_of_committed located executed rfl trivial rfl ?_
      refine serial.commit_ok apart fresh working counted (by rw [chosen, Option.getD_some]) trivial
        (Placed.snoc ?_ ?_ fun _ => rfl)
      · rw [counted, serial.rows]
      · rw [chosen, Option.isSome_some]

theorem Serial.refuse {count : Int} (apart : Apart jobs) (located : stages tx = .refusing count) :
    Kept jobs reports initial db committed stages tx fault (.commit tx) := by
  obtain ⟨⟨counted, chosen, working⟩, fresh⟩ := serial.of_located located
  have placed : ∀ kept, Placed jobs initial (committed ++ [(tx, kept)]) tx (some (count, false)) :=
    fun kept => Placed.snoc (by rw [counted, serial.rows]) (by rw [chosen, Option.isSome_none]) nofun
  obtain ⟨failed, executed⟩ := perform_commit working.2 rfl
  cases fault with
  | some err =>
      refine kept_of_committed located (failed err) rfl trivial rfl ?_
      exact serial.commit_failed fresh trivial (placed false)
  | none =>
      refine kept_of_committed located executed rfl trivial rfl ?_
      exact serial.commit_ok apart fresh working counted (by rw [chosen, Option.getD_none]) trivial
        (placed true)

theorem Serial.leave {report : Report} (located : stages tx = .leaving report) :
    Kept jobs reports initial db committed stages tx fault (.rollback tx) := by
  have placed := (serial.of_located located).2
  refine kept_of_performed located rfl rfl trivial rfl ?_
  exact serial.keep rfl (fun _ different => release_sessions_other different)
    (fun _ _ different held => release_locks_other different held) trivial placed

theorem Serial.step (apart : Apart jobs) (proceeds : fault ≠ none ∨ db.waits op = false)
    (move : Move (jobs tx) tx (stages tx) op) :
    Kept jobs reports initial db committed stages tx fault op := by
  generalize located : stages tx = stage at move
  cases move with
  | begin => exact serial.begin located
  | lock => exact serial.lock proceeds located
  | delete => exact serial.delete located
  | deleteAborted => exact serial.delete_aborted located
  | count => exact serial.count located
  | countAborted => exact serial.count_aborted located
  | insert => exact serial.insert located
  | commit => exact serial.commit apart located
  | refuse => exact serial.refuse apart located
  | leave => exact serial.leave located

end Statements

end Step

/-- The stages at which a transaction may hold its lock. -/
def Stage.mayHold : Stage α → Bool
  | .idle => false
  | .begun => false
  | .ended _ => false
  | _ => true

/-- Locks are held by transactions in progress. -/
def Held (count : Nat) (db : Database α L) (stages : Nat → Stage α) : Prop :=
  ∀ lock tx, db.locks lock = some tx → tx < count ∧ (stages tx).mayHold = true

section Progress

variable {job : Job α L} {reports : β → Report} {tx other count : Nat} {db : Database α L}
  {fault : Option String} {op : Op α L} {stage : Stage α} {lock : L}

theorem release_locks (held : (db.release tx).locks lock = some other) :
    db.locks lock = some other ∧ other ≠ tx := by
  change (if db.locks lock = some tx then none else db.locks lock) = some other at held
  split_ifs at held with own
  refine ⟨held, ?_⟩
  rintro rfl
  exact own held

theorem statement_locks {γ : Type} {execute : Session α → γ × Session α × (L → Option Nat)}
    (held : (db.statement fault tx execute).2.locks lock = some other) :
    db.locks lock = some other ∨ ∃ session, (execute session).2.2 lock = some other := by
  unfold Database.statement at held
  split at held
  · exact .inl held
  · next session _ =>
      split_ifs at held with aborted
      · exact .inl held
      · cases fault with
        | some err => exact .inl held
        | none => exact .inr ⟨session, held⟩

theorem mayHold_advance (move : Move job tx stage op) (answer : Res op)
    (holds : stage.mayHold = true) (stays : op ≠ .rollback tx) :
    ((watch job reports tx).advance stage op answer).mayHold = true := by
  cases move with
  | begin => cases holds
  | lock => cases holds
  | delete => cases answer <;> rfl
  | deleteAborted => cases answer <;> rfl
  | count =>
      cases answer with
      | error err => rfl
      | ok count =>
          change (Stage.decided count (job.rule count)).mayHold = true
          cases job.rule count <;> rfl
  | countAborted => cases answer <;> rfl
  | insert => cases answer <;> rfl
  | commit => cases answer <;> rfl
  | refuse => rfl
  | leave => exact absurd rfl stays

/-- A transaction that may hold a lock goes on, and does not wait. -/
theorem proceeds_of_mayHold {program : Program (Op α L) Res β} (db : Database α L)
    (accepted : (watch job reports tx).Accepts stage program) (holds : stage.mayHold = true) :
    ∃ op next, program = .call op next ∧ db.waits op = false := by
  cases program with
  | done result =>
      cases stage with
      | ended _ => cases holds
      | _ => exact accepted.elim
  | call op next =>
      refine ⟨op, next, rfl, ?_⟩
      cases accepted.1 with
      | lock => cases holds
      | _ => rfl

variable [DecidableEq α] [DecidableEq L]

theorem perform_locks (held : (Database.perform fault op db).2.locks lock = some other) :
    db.locks lock = some other ∨ op = .lock other lock := by
  cases op with
  | begin tx =>
      cases fault with
      | some err => exact .inl held
      | none => exact .inl held
  | lock tx taken =>
      rcases statement_locks held with before | ⟨_, now⟩
      · exact .inl before
      · change update db.locks taken (some tx) lock = some other at now
        rw [update_apply] at now
        split_ifs at now with same
        · rw [same, Option.some.inj now]
          exact .inr rfl
        · exact .inl now
  | delete tx test => exact .inl ((statement_locks held).elim (fun before => before) fun ⟨_, now⟩ => now)
  | count tx test => exact .inl ((statement_locks held).elim (fun before => before) fun ⟨_, now⟩ => now)
  | insert tx entry => exact .inl ((statement_locks held).elim (fun before => before) fun ⟨_, now⟩ => now)
  | commit tx =>
      simp only [Database.perform] at held
      split at held
      · exact .inl held
      · cases fault with
        | some err => exact .inl (release_locks held).1
        | none =>
            simp only at held
            split_ifs at held
            · exact .inl (release_locks held).1
            · exact .inl (release_locks held).1
  | rollback tx => exact .inl (release_locks held).1

theorem Held.step {stages : Nat → Stage α} (held : Held count db stages) (inside : tx < count)
    (move : Move job tx (stages tx) op) :
    Held count (Database.perform fault op db).2 (update stages tx
      ((watch job reports tx).advance (stages tx) op (Database.perform fault op db).1)) := by
  intro lock other now
  by_cases same : other = tx
  · subst same
    refine ⟨inside, ?_⟩
    rw [update_self]
    rcases perform_locks now with before | rfl
    · refine mayHold_advance move _ (held lock other before).2 ?_
      rintro rfl
      exact (release_locks now).2 rfl
    · generalize stages other = stage at move
      cases move with
      | lock =>
          generalize (Database.perform fault _ db).1 = answer
          cases answer <;> rfl
  · rw [update_of_ne same]
    rcases perform_locks now with before | rfl
    · exact held lock other before
    · generalize stages tx = stage at move
      cases move
      exact absurd rfl same

end Progress

section Run

variable [DecidableEq α] [DecidableEq L] {jobs : Nat → Job α L} {reports : β → Report}
  {threads : List (Program (Op α L) Res β)} {table : Table α}
  {schedule : List (Nat × Option String)}

/-- Where the transactions are after a run, as their monitors see them. -/
def stagesOf (jobs : Nat → Job α L) (reports : β → Report)
    (history : List (Entry (Op α L) Res (Option String))) : Nat → Stage α :=
  Pool.stages (fun tx => watch (jobs tx) reports tx) (fun _ => .idle) history

theorem outcome_kept (apart : Apart jobs)
    (accepted : ∀ tx program, threads[tx]? = some program →
      (watch (jobs tx) reports tx).Accepts .idle program)
    (legal : Legal threads table schedule) :
    let pool := outcome threads table schedule
    (∀ tx program, pool.threads[tx]? = some program →
        (watch (jobs tx) reports tx).Accepts (stagesOf jobs reports pool.history tx) program) ∧
      Serial jobs (entries table) pool.state (commits pool.history)
        (stagesOf jobs reports pool.history) ∧
      Held threads.length pool.state (stagesOf jobs reports pool.history) := by
  refine Pool.run_invariant Database.perform (fun tx => watch (jobs tx) reports tx)
    (fun _ => Stage.idle) (fun db history => Serial jobs (entries table) db (commits history)
        (stagesOf jobs reports history) ∧
      Held threads.length db (stagesOf jobs reports history)) ?_
    schedule (Pool.start threads (.start table)) rfl (Pool.followed_start accepted)
    ⟨⟨rfl, List.nodup_nil, fun _ => trivial, fun _ => List.not_mem_nil⟩, fun _ _ => nofun⟩ legal
  intro db history tx fault op inside kept proceeds move
  obtain ⟨serial, held⟩ := kept
  obtain ⟨expected, after⟩ := serial.step apart proceeds move
  rw [stagesOf, Pool.stages_snoc, commits, filterMap_snoc]
  exact ⟨expected, after, held.step inside move⟩

/-- After every interleaving the rows are those of the committed transactions executed one
after another in the order of their commits, and whoever has returned has reported what it
reports when executed at its place. -/
theorem outcome_serial (apart : Apart jobs)
    (accepted : ∀ tx program, threads[tx]? = some program →
      (watch (jobs tx) reports tx).Accepts .idle program)
    (legal : Legal threads table schedule) :
    let pool := outcome threads table schedule
    ((commits pool.history).map Prod.fst).Nodup ∧
      entries pool.state.table = replay jobs (entries table) (commits pool.history) ∧
      ∀ tx result, pool.threads[tx]? = some (.done result) →
        Placed jobs (entries table) (commits pool.history) tx (reports result) := by
  obtain ⟨followed, serial, _⟩ := outcome_kept apart accepted legal
  refine ⟨serial.once, serial.rows, fun tx result found => ?_⟩
  have ended := followed tx _ found
  have settled := serial.settled tx
  generalize stagesOf jobs reports _ tx = stage at ended settled
  cases stage with
  | ended report =>
      have same : reports result = report := ended
      rw [same]
      exact settled
  | _ => exact ended.elim

/-- As long as a transaction has not returned, the next statement of one of them does not
wait. -/
theorem exists_proceeding (apart : Apart jobs)
    (accepted : ∀ tx program, threads[tx]? = some program →
      (watch (jobs tx) reports tx).Accepts .idle program)
    (legal : Legal threads table schedule)
    (running : (outcome threads table schedule).finished = false) :
    ∃ (tx : Nat) (op : Op α L) (next : Res op → Program (Op α L) Res β),
      (outcome threads table schedule).threads[tx]? = some (.call op next) ∧
        (outcome threads table schedule).state.waits op = false := by
  obtain ⟨followed, _, held⟩ := outcome_kept apart accepted legal
  obtain ⟨tx, op, next, found⟩ := Pool.exists_call_of_unfinished running
  by_cases waits : (outcome threads table schedule).state.waits op = false
  · exact ⟨tx, op, next, found, waits⟩
  · -- It waits for a lock, and whoever holds that can go on.
    cases op with
    | lock _ lock =>
        rw [Database.waits, Bool.not_eq_false, Option.any_eq_true] at waits
        obtain ⟨holder, taken, _⟩ := waits
        obtain ⟨inside, holds⟩ := held lock holder taken
        have size : holder < (outcome threads table schedule).threads.length := by
          rw [outcome, Pool.run_threads_length]
          exact inside
        have here := List.getElem?_eq_getElem size
        obtain ⟨op, next, same, free⟩ := proceeds_of_mayHold
          (outcome threads table schedule).state (followed holder _ here) holds
        exact ⟨holder, op, next, here.trans (congrArg some same), free⟩
    | _ => exact absurd rfl waits

/-- The statement is executed: it neither waits nor fails. -/
def Succeeds (db : Database α L) {τ : Type} (_ : τ) (_ : Nat) (fault : Option String)
    (op : Op α L) : Prop :=
  fault = none ∧ db.waits op = false

/-- Whatever has happened, the transactions can all be brought to their ends. -/
theorem exists_finishing (apart : Apart jobs)
    (accepted : ∀ tx program, threads[tx]? = some program →
      (watch (jobs tx) reports tx).Accepts .idle program)
    (legal : Legal threads table schedule) :
    ∃ more, (outcome threads table schedule).Along Database.perform (fun db => Succeeds db) more ∧
      (outcome threads table (schedule ++ more)).finished = true := by
  refine Pool.exists_reached_of_enabled (fun succeeds => .inr succeeds.2)
    (fun pool => pool.finished = true) _ (fun reached legal running => ?_) legal
  obtain ⟨tx, op, next, found, free⟩ := exists_proceeding apart accepted legal
    (Bool.eq_false_iff.mpr running)
  exact ⟨tx, none, op, next, found, rfl, free⟩

end Run

end ReadCommitted
