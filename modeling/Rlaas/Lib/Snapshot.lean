import Mathlib.Data.List.Basic

/-! Transactions under snapshot isolation. A transaction works on the rows that were
committed when it began; its commit fails if a row it deletes is no longer there,
and otherwise takes the rows it deleted away and appends those it inserted. -/

set_option autoImplicit false

namespace Snapshot

variable {α : Type}

/-- Committed rows, each with an identity that is not given to another row. -/
structure Table (α : Type) where
  rows : List (Nat × α)
  next : Nat
  fresh : ∀ row ∈ rows, row.1 < next

/-- What a transaction sees and what it has written. -/
structure Session (α : Type) where
  snapshot : List (Nat × α)
  deleted : List (Nat × α) := []
  inserted : List α := []

namespace Table

def count (test : α → Bool) (table : Table α) : Nat := table.rows.countP fun row => test row.2

def append (entries : List α) (table : Table α) : Table α where
  rows := table.rows ++ entries.mapIdx fun i entry => (table.next + i, entry)
  next := table.next + entries.length
  fresh row member := by
    rcases List.mem_append.mp member with before | new
    · have older := table.fresh row before
      omega
    · obtain ⟨i, inside, rfl⟩ := List.mem_mapIdx.mp new
      omega

def remove [DecidableEq α] (deleted : List (Nat × α)) (table : Table α) : Table α where
  rows := table.rows.filter fun row => row ∉ deleted
  next := table.next
  fresh row member := table.fresh row (List.mem_filter.mp member).1

end Table

namespace Session

def start (table : Table α) : Session α := { snapshot := table.rows }

def insert (entry : α) (session : Session α) : Session α :=
  { session with inserted := session.inserted ++ [entry] }

def delete (test : α → Bool) (session : Session α) : Session α :=
  { session with
    deleted := session.deleted ++ session.snapshot.filter fun row => test row.2
    inserted := session.inserted.filter fun entry => !test entry }

variable [DecidableEq α]

def count (test : α → Bool) (session : Session α) : Nat :=
  (session.snapshot.filter fun row => row ∉ session.deleted).countP (fun row => test row.2) +
    session.inserted.countP test

def commit (session : Session α) (table : Table α) : Option (Table α) :=
  if ∀ row ∈ session.deleted, row ∈ table.rows then
    some ((table.remove session.deleted).append session.inserted)
  else none

end Session

variable {table after : Table α} {rows : List (Nat × α)} {test : α → Bool}

namespace Table

theorem count_append (entries : List α) :
    (table.append entries).count test = table.count test + entries.countP test := by
  have indexed : ∀ (entries : List α) (base : Nat),
      (entries.mapIdx fun i entry => (base + i, entry)).countP (fun row => test row.2) =
        entries.countP test := by
    intro entries
    induction entries with
    | nil => intro base; rfl
    | cons entry rest ih =>
        intro base
        have shifted : (rest.mapIdx fun i entry => (base + (i + 1), entry)) =
            rest.mapIdx fun i entry => (base + 1 + i, entry) := by
          congr 1
          funext i entry
          rw [Nat.add_assoc, Nat.add_comm 1 i]
        rw [List.mapIdx_cons, List.countP_cons, List.countP_cons, shifted, ih]
  rw [count, append, List.countP_append, indexed]
  rfl

variable [DecidableEq α]

theorem count_remove {deleted : List (Nat × α)} (unseen : ∀ row ∈ deleted, test row.2 = false) :
    (table.remove deleted).count test = table.count test := by
  rw [count, remove, count, List.countP_filter]
  refine List.countP_congr fun row _ => ?_
  simp only [Bool.and_eq_true, decide_eq_true_eq, and_iff_left_iff_imp]
  intro seen member
  rw [unseen row member] at seen
  cases seen

/-- The rows were committed once and are not there any more. -/
def Gone (table : Table α) (rows : List (Nat × α)) : Prop :=
  ∀ row ∈ rows, row.1 < table.next ∧ row ∉ table.rows

end Table

namespace Session

variable [DecidableEq α] {session : Session α}

section

variable (committed : session.commit table = some after)

include committed

theorem commit_eq_some :
    (∀ row ∈ session.deleted, row ∈ table.rows) ∧
      after = (table.remove session.deleted).append session.inserted := by
  unfold commit at committed
  split_ifs at committed with present
  exact ⟨present, (Option.some.inj committed).symm⟩

theorem commit_count (unseen : ∀ row ∈ session.deleted, test row.2 = false) :
    after.count test = table.count test + session.inserted.countP test := by
  obtain ⟨_, rfl⟩ := commit_eq_some committed
  rw [Table.count_append, Table.count_remove unseen]

theorem mem_of_commit {row : Nat × α} (member : row ∈ after.rows) :
    (row ∈ table.rows ∧ row ∉ session.deleted) ∨ table.next ≤ row.1 := by
  obtain ⟨_, rfl⟩ := commit_eq_some committed
  rcases List.mem_append.mp member with kept | new
  · obtain ⟨before, notDeleted⟩ := List.mem_filter.mp kept
    exact .inl ⟨before, of_decide_eq_true notDeleted⟩
  · obtain ⟨i, _, rfl⟩ := List.mem_mapIdx.mp new
    exact .inr (Nat.le_add_right table.next i)

theorem next_le_of_commit :
    table.next ≤ after.next := by
  obtain ⟨_, rfl⟩ := commit_eq_some committed
  exact Nat.le_add_right _ _

theorem gone_of_commit (gone : table.Gone rows) : after.Gone rows := by
  intro row member
  obtain ⟨older, absent⟩ := gone row member
  refine ⟨Nat.lt_of_lt_of_le older (next_le_of_commit committed), ?_⟩
  intro present
  rcases mem_of_commit committed present with ⟨before, _⟩ | newer
  · exact absent before
  · omega

theorem gone_of_deleted (deleted : ∀ row ∈ rows, row ∈ session.deleted) : after.Gone rows := by
  intro row member
  have present := (commit_eq_some committed).1 row (deleted row member)
  refine ⟨Nat.lt_of_lt_of_le (table.fresh row present) (next_le_of_commit committed), ?_⟩
  intro still
  rcases mem_of_commit committed still with ⟨_, kept⟩ | newer
  · exact kept (deleted row member)
  · exact absurd (table.fresh row present) (by omega)

theorem not_gone_of_commit (deletes : session.deleted ≠ []) : ¬ table.Gone session.deleted := by
  intro gone
  obtain ⟨row, member⟩ := List.exists_mem_of_ne_nil _ deletes
  exact (gone row member).2 ((commit_eq_some committed).1 row member)

end

end Session

end Snapshot
