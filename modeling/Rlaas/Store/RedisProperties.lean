import Rlaas.Store.MemoryCells
import Rlaas.Store.Redis
import Rlaas.Lib.Steps
import Rlaas.Go.Strings
import Mathlib.Data.List.Dedup

/-! The sliding log on the Redis store and on the memory store: the calls at which
a set of members with an inclusive trim and a list of timestamps with an
exclusive one give the same answer. -/

set_option autoImplicit false

namespace Rlaas.Store.Redis

open Go Model Effect

/-- A call of a sliding log, with what the two stores read while they serve it:
the process clock, the clock of the server and its random values. -/
structure Call where
  now : Int
  cost : Int
  wall : Int
  server : Int
  random : Nat → Nat

/-- The two stores behind one key, and the entries admitted so far: the member
the script names each with, and its time. -/
structure Backends where
  memory : MemoryStore
  redis : SortedSet := {}
  entries : List (String × Int) := []

namespace Backends

variable (A : Arith) (tostring : Nat → String) (key : String) (window : Duration) (limit : Int)

def onMemory (stores : Backends) (call : Call) : Except String (Int × Bool) × MemoryStore :=
  stores.memory.handle A call.wall
    (.checkAndAddTimestamps key (call.now - window) limit call.cost call.now window)

def onRedis (stores : Backends) (call : Call) : (Int × Bool) × SortedSet :=
  checkAndAddTimestamps tostring call.server call.random (call.now - window) limit call.cost call.now
    window stores.redis

/-- The entries a call adds if it is admitted. -/
def added (call : Call) : List (String × Int) :=
  (members tostring call.random call.cost call.now).map fun member => (member, call.now)

def step (stores : Backends) (call : Call) : Backends where
  memory := (stores.onMemory A key window limit call).2
  redis := (stores.onRedis tostring window limit call).2
  entries :=
    match (stores.onMemory A key window limit call).1 with
    | .ok (_, true) => stores.entries ++ added tostring call
    | _ => stores.entries

/-- The two stores give the same answer. -/
def Agree (stores : Backends) (call : Call) : Prop :=
  (stores.onMemory A key window limit call).1 = .ok (stores.onRedis tostring window limit call).1

/-- The entries admitted within the window of a call. -/
def recent (stores : Backends) (call : Call) : List (String × Int) :=
  stores.entries.filter fun entry => call.now - window ≤ entry.2

/-- The entries within the window have different members and none lies on its edge;
the key has not expired while there are any, and the sum with the cost does not
overflow to the other side of the limit. -/
def Undisturbed (stores : Backends) (call : Call) : Prop :=
  ((stores.recent window call).map Prod.fst).Nodup ∧
    (∀ entry ∈ stores.recent window call, entry.2 ≠ call.now - window) ∧
    (stores.recent window call ≠ [] → stores.redis.expired call.server = false) ∧
    (A.wrap ((stores.recent window call).length + call.cost) > limit ↔
      ((stores.recent window call).length + call.cost > limit))

end Backends

section Members

variable {tostring : Nat → String}

theorem member_time {ts ts' : Int} {i i' random random' : Nat}
    (same : member tostring ts i random = member tostring ts' i' random') : ts = ts' := by
  -- The time ends at the first colon, whatever the two numbers behind it look like.
  have time : ∀ (n : Int) (rest : List Char),
      ((toString n).toList ++ (":".toList ++ rest)).takeWhile (· != ':') = (toString n).toList := by
    intro n rest
    rw [List.takeWhile_append_of_pos]
    · simp
    · intro c found
      rcases Strings.toString_chars n found with digit | rfl
      · rw [bne_iff_ne]
        rintro rfl
        cases digit
      · rfl
  have texts := congrArg (List.takeWhile (· != ':') ∘ String.toList) same
  simp only [member, Function.comp_apply, String.toList_append, List.append_assoc, time] at texts
  exact Strings.toString_injective (String.toList_inj.mp texts)

/-- An entry whose member is one the script makes for its time. -/
def Dated (tostring : Nat → String) (entry : String × Int) : Prop :=
  ∃ i random, entry.1 = member tostring entry.2 i random

theorem Dated.eq {entry other : String × Int} (dated : Dated tostring entry)
    (dated' : Dated tostring other) (same : entry.1 = other.1) : entry = other := by
  obtain ⟨i, random, made⟩ := dated
  obtain ⟨i', random', made'⟩ := dated'
  exact Prod.ext same (member_time (made.symm.trans (same.trans made')))

theorem dated_of_added {call : Call} {entry : String × Int}
    (member : entry ∈ Backends.added tostring call) : Dated tostring entry := by
  obtain ⟨name, listed, rfl⟩ := List.mem_map.mp member
  obtain ⟨n, _, rfl⟩ := List.mem_map.mp listed
  exact ⟨n + 1, call.random (n + 1), rfl⟩

end Members

section Counting

variable {tostring : Nat → String} {server cutoff : Int} {set : SortedSet}
  {entries : List (String × Int)}

theorem trimmed_members : ((set.live server).zremrangebyscore cutoff).members =
    if set.expired server then [] else set.members.filter fun entry => cutoff < entry.2 := by
  unfold SortedSet.live SortedSet.zremrangebyscore
  split_ifs with expired
  · rfl
  · simp only
    split_ifs with none
    · exact (List.isEmpty_iff.mp none).symm
    · rfl

theorem trimmed_zcount : ((set.live server).zremrangebyscore cutoff).zcount cutoff =
    ((set.live server).zremrangebyscore cutoff).members.length := by
  rw [SortedSet.zcount, trimmed_members]
  split_ifs
  · rfl
  · rw [List.countP_eq_length.mpr]
    intro entry member
    have later := (List.mem_filter.mp member).2
    simp only [decide_eq_true_eq] at later ⊢
    exact later.le

/-- What `ZADD` and the loop over it do to a set whose members tell their score. -/
structure Added (tostring : Nat → String) (before after : SortedSet) (more : List (String × Int)) :
    Prop where
  members : ∀ entry, entry ∈ after.members ↔ entry ∈ before.members ∨ entry ∈ more
  keys : (after.members.map Prod.fst).Nodup
  made : ∀ entry ∈ after.members, Dated tostring entry

theorem zadd_added {ts : Int} {name : String} (keys : (set.members.map Prod.fst).Nodup)
    (made : ∀ entry ∈ set.members, Dated tostring entry) (dated : Dated tostring (name, ts)) :
    Added tostring set (set.zadd ts name) [(name, ts)] := by
  have listed : ∀ entry, entry ∈ (set.zadd ts name).members ↔
      entry = (name, ts) ∨ entry ∈ set.members := fun entry =>
    Keyed.mem_upsert Prod.fst fun other member same => (made other member).eq dated same
  refine ⟨fun entry => ?_, Keyed.nodup_upsert Prod.fst _ keys, fun entry member => ?_⟩
  · rw [listed, List.mem_singleton, or_comm]
  · rcases (listed entry).mp member with rfl | before
    · exact dated
    · exact made entry before

theorem zadds_added {ts : Int} {names : List String} (keys : (set.members.map Prod.fst).Nodup)
    (made : ∀ entry ∈ set.members, Dated tostring entry)
    (dated : ∀ name ∈ names, Dated tostring (name, ts)) :
    Added tostring set (names.foldl (fun set name => set.zadd ts name) set)
      (names.map fun name => (name, ts)) := by
  induction names generalizing set with
  | nil => exact ⟨by simp, keys, made⟩
  | cons name rest ih =>
      have first := zadd_added keys made (dated name (by simp))
      have others := ih first.keys first.made fun other member => dated other (by simp [member])
      refine ⟨fun entry => ?_, others.keys, others.made⟩
      rw [List.foldl_cons, others.members, first.members, List.map_cons, List.mem_singleton, or_assoc,
        List.mem_cons]

/-- A duplicate-free list with the members of another is as long as that exactly if
the other is duplicate-free too. -/
theorem length_eq_iff_nodup {α : Type} [DecidableEq α] {distinct listed : List α}
    (nodup : distinct.Nodup) (same : ∀ x, x ∈ distinct ↔ x ∈ listed) :
    distinct.length ≤ listed.length ∧ (distinct.length = listed.length ↔ listed.Nodup) := by
  have dedup : distinct.length = listed.dedup.length :=
    ((List.perm_ext_iff_of_nodup nodup (List.nodup_dedup listed)).mpr fun x =>
      (same x).trans List.mem_dedup.symm).length_eq
  rw [dedup]
  refine ⟨(List.dedup_sublist listed).length_le, ?_⟩
  constructor
  · intro equal
    rw [← (List.dedup_sublist listed).eq_of_length equal]
    exact List.nodup_dedup listed
  · intro already
    rw [List.dedup_eq_self.mpr already]

/-- The members left by the trim are as many as the entries from the cutoff on
exactly if those have different members and none is at the cutoff. -/
theorem trimmed_length_iff (keys : (set.members.map Prod.fst).Nodup)
    (mirrors : ∀ entry, cutoff < entry.2 → (entry ∈ set.members ↔ entry ∈ entries))
    (dated : ∀ entry ∈ entries, Dated tostring entry) :
    (set.members.filter fun entry => cutoff < entry.2).length =
        (entries.filter fun entry => cutoff ≤ entry.2).length ↔
      ((entries.filter fun entry => cutoff ≤ entry.2).map Prod.fst).Nodup ∧
        ∀ entry ∈ entries.filter (fun entry => cutoff ≤ entry.2), entry.2 ≠ cutoff := by
  have fewer : (entries.filter fun entry => cutoff < entry.2).Sublist
      (entries.filter fun entry => cutoff ≤ entry.2) := by
    refine List.monotone_filter_right entries fun entry later => ?_
    rw [decide_eq_true_eq] at later ⊢
    exact later.le
  have later : ∀ entry, entry ∈ (set.members.filter fun entry => cutoff < entry.2) ↔
      entry ∈ entries.filter fun entry => cutoff < entry.2 := by
    intro entry
    simp only [List.mem_filter, decide_eq_true_eq]
    exact and_congr_left (mirrors entry)
  obtain ⟨atMost, equal⟩ := length_eq_iff_nodup ((keys.of_map _).filter _) later
  constructor
  · intro same
    have whole := fewer.eq_of_length (le_antisymm fewer.length_le (same ▸ atMost))
    rw [← whole] at same ⊢
    refine ⟨(equal.mp same).map_on ?_, ?_⟩
    · intro entry member other member' named
      exact (dated entry (List.mem_filter.mp member).1).eq
        (dated other (List.mem_filter.mp member').1) named
    · intro entry member
      exact (of_decide_eq_true (List.mem_filter.mp member).2).ne'
  · rintro ⟨distinct, off⟩
    have whole : (entries.filter fun entry => cutoff < entry.2) =
        entries.filter fun entry => cutoff ≤ entry.2 := by
      refine List.filter_congr fun entry member => ?_
      rw [decide_eq_decide]
      refine ⟨le_of_lt, fun recent => lt_of_le_of_ne recent (Ne.symm (off entry ?_))⟩
      exact List.mem_filter.mpr ⟨member, decide_eq_true recent⟩
    rw [← whole] at distinct ⊢
    exact equal.mpr (distinct.of_map _)

end Counting

namespace Backends

variable {A : Arith} {tostring : Nat → String} {key : String} {window : Duration} {limit low : Int}
  {stores : Backends} {call : Call}

/-- Both stores hold the entries from `low` on: the memory store as often as they
were admitted, the sorted set once for each member. -/
structure Mirrored (tostring : Nat → String) (key : String) (low : Int) (stores : Backends) : Prop where
  memory : ∀ cutoff, low ≤ cutoff → (kept cutoff (stores.memory.cells key).timestamps).length =
    (stores.entries.filter fun entry => cutoff ≤ entry.2).length
  redis : ∀ entry, low < entry.2 → (entry ∈ stores.redis.members ↔ entry ∈ stores.entries)
  keys : (stores.redis.members.map Prod.fst).Nodup
  made : ∀ entry ∈ stores.redis.members, Dated tostring entry
  dated : ∀ entry ∈ stores.entries, Dated tostring entry

theorem onMemory_fst (mirrored : Mirrored tostring key low stores) (later : low ≤ call.now - window) :
    (stores.onMemory A key window limit call).1 =
      .ok (((stores.recent window call).length : Int),
        !decide (A.wrap ((stores.recent window call).length + call.cost) > limit)) := by
  rw [onMemory, MemoryStore.checkAndAddTimestamps_answer, mirrored.memory _ later]
  rfl

/-- The sorted set as the script counts it. -/
def trimmed (window : Duration) (stores : Backends) (call : Call) : SortedSet :=
  (stores.redis.live call.server).zremrangebyscore (call.now - window)

theorem onRedis_fst : (stores.onRedis tostring window limit call).1 =
    (((stores.trimmed window call).members.length : Int),
      !decide ((stores.trimmed window call).members.length + call.cost > limit)) := by
  rw [onRedis, checkAndAddTimestamps, checkAndAddTSScript]
  simp only [trimmed_zcount]
  rw [← trimmed]
  by_cases above : (stores.trimmed window call).members.length + call.cost > limit
  · simp [above]
  · simp [above]

theorem count_eq_iff (mirrored : Mirrored tostring key low stores) (later : low ≤ call.now - window) :
    (stores.recent window call).length = (stores.trimmed window call).members.length ↔
      ((stores.recent window call).map Prod.fst).Nodup ∧
        (∀ entry ∈ stores.recent window call, entry.2 ≠ call.now - window) ∧
        (stores.recent window call ≠ [] → stores.redis.expired call.server = false) := by
  have counts := trimmed_length_iff mirrored.keys
    (fun entry after => mirrored.redis entry (lt_of_le_of_lt later after)) mirrored.dated
  rw [trimmed, trimmed_members]
  cases expired : stores.redis.expired call.server with
  | false =>
      rw [if_neg Bool.false_ne_true, eq_comm]
      refine counts.trans ⟨fun ⟨distinct, off⟩ => ⟨distinct, off, fun _ => rfl⟩,
        fun ⟨distinct, off, _⟩ => ⟨distinct, off⟩⟩
  | true =>
      rw [if_pos rfl, List.length_nil, List.length_eq_zero_iff]
      constructor
      · intro none
        rw [none]
        simp
      · rintro ⟨_, _, fresh⟩
        by_contra some
        cases fresh some

theorem agree_iff (mirrored : Mirrored tostring key low stores) (later : low ≤ call.now - window) :
    stores.Agree A tostring key window limit call ↔ stores.Undisturbed A window limit call := by
  rw [Agree, Undisturbed, onMemory_fst mirrored later, onRedis_fst, Except.ok.injEq, Prod.mk.injEq,
    Nat.cast_inj, count_eq_iff mirrored later]
  constructor
  · rintro ⟨undisturbed, decided⟩
    rw [← (count_eq_iff mirrored later).mpr undisturbed, Bool.not_inj_iff, decide_eq_decide] at decided
    exact ⟨undisturbed.1, undisturbed.2.1, undisturbed.2.2, decided⟩
  · rintro ⟨distinct, off, fresh, decided⟩
    refine ⟨⟨distinct, off, fresh⟩, ?_⟩
    rw [← (count_eq_iff mirrored later).mpr ⟨distinct, off, fresh⟩, Bool.not_inj_iff,
      decide_eq_decide]
    exact decided

theorem trimmed_mirrors (mirrored : Mirrored tostring key low stores)
    (later : low ≤ call.now - window) (undisturbed : stores.Undisturbed A window limit call)
    (entry : String × Int) : entry ∈ (stores.trimmed window call).members ↔
      entry ∈ stores.entries ∧ call.now - window < entry.2 := by
  rw [trimmed, trimmed_members]
  cases expired : stores.redis.expired call.server with
  | false =>
      rw [if_neg Bool.false_ne_true, List.mem_filter, decide_eq_true_eq]
      exact and_congr_left fun after => mirrored.redis entry (lt_of_le_of_lt later after)
  | true =>
      have none : stores.recent window call = [] := by
        by_contra some
        rw [undisturbed.2.2.1 some] at expired
        cases expired
      rw [if_pos rfl]
      refine iff_of_false List.not_mem_nil ?_
      rintro ⟨member, after⟩
      have listed : entry ∈ stores.recent window call :=
        List.mem_filter.mpr ⟨member, decide_eq_true after.le⟩
      rw [none] at listed
      cases listed

theorem trimmed_keys (window : Duration) (call : Call) (mirrored : Mirrored tostring key low stores) :
    ((stores.trimmed window call).members.map Prod.fst).Nodup ∧
      ∀ entry ∈ (stores.trimmed window call).members, Dated tostring entry := by
  rw [trimmed, trimmed_members]
  split_ifs
  · simp
  · exact ⟨mirrored.keys.sublist (List.filter_sublist.map Prod.fst),
      fun entry member => mirrored.made entry (List.mem_filter.mp member).1⟩

theorem onRedis_snd_members (tostring : Nat → String) (window : Duration) (limit : Int)
    (stores : Backends) (call : Call) : (stores.onRedis tostring window limit call).2.members =
    if (stores.trimmed window call).members.length + call.cost > limit then
      (stores.trimmed window call).members
    else ((members tostring call.random call.cost call.now).foldl
      (fun set member => set.zadd call.now member) (stores.trimmed window call)).members := by
  rw [onRedis, checkAndAddTimestamps, checkAndAddTSScript]
  simp only [trimmed_zcount]
  rw [← trimmed]
  by_cases above : (stores.trimmed window call).members.length + call.cost > limit
  · simp only [if_pos above]
  · simp only [if_neg above]
    generalize (members tostring call.random call.cost call.now).foldl
      (fun set member => set.zadd call.now member) (stores.trimmed window call) = set
    unfold SortedSet.pexpire
    split_ifs <;> rfl

theorem onRedis_added (window : Duration) (limit : Int) (call : Call)
    (mirrored : Mirrored tostring key low stores) :
    Added tostring (stores.trimmed window call) (stores.onRedis tostring window limit call).2
      (if (stores.trimmed window call).members.length + call.cost > limit then []
        else added tostring call) := by
  obtain ⟨keys, made⟩ := trimmed_keys window call mirrored
  have dated : ∀ name ∈ members tostring call.random call.cost call.now,
      Dated tostring (name, call.now) :=
    fun name member => dated_of_added (List.mem_map_of_mem member)
  have grown := zadds_added keys made dated
  have shown := onRedis_snd_members tostring window limit stores call
  split_ifs at shown ⊢
  · exact ⟨by simp [shown], shown ▸ keys, shown ▸ made⟩
  · exact ⟨fun entry => shown ▸ grown.members entry, shown ▸ grown.keys, shown ▸ grown.made⟩

theorem added_recent (tostring : Nat → String) (call : Call) (cutoff : Int) :
    ((added tostring call).filter fun entry => cutoff ≤ entry.2).length =
      (kept cutoff (List.replicate call.cost.toNat call.now)).length := by
  have times : ∀ entry ∈ added tostring call, entry.2 = call.now := by
    intro entry member
    obtain ⟨name, _, rfl⟩ := List.mem_map.mp member
    rfl
  by_cases recent : cutoff ≤ call.now
  · rw [List.filter_eq_self.mpr]
    · simp [kept, added, members, not_lt.mpr recent]
    · intro entry member
      rw [times entry member, decide_eq_true recent]
  · rw [List.filter_eq_nil_iff.mpr]
    · simp [kept, not_le.mp recent]
    · intro entry member
      rw [times entry member, decide_eq_true_eq]
      exact recent

theorem step_entries (A : Arith) (limit : Int) (mirrored : Mirrored tostring key low stores)
    (later : low ≤ call.now - window) : (stores.step A tostring key window limit call).entries =
      stores.entries ++ if A.wrap ((stores.recent window call).length + call.cost) > limit then []
        else added tostring call := by
  rw [step, onMemory_fst mirrored later]
  by_cases above : A.wrap ((stores.recent window call).length + call.cost) > limit
  · simp [above]
  · simp [above]

theorem step_memory (mirrored : Mirrored tostring key low stores) (later : low ≤ call.now - window)
    {cutoff : Int} (after : call.now - window ≤ cutoff) :
    (kept cutoff ((stores.step A tostring key window limit call).memory.cells key).timestamps).length =
      ((stores.step A tostring key window limit call).entries.filter
        fun entry => cutoff ≤ entry.2).length := by
  have before := mirrored.memory cutoff (later.trans after)
  have count : (kept (call.now - window) (stores.memory.cells key).timestamps).length =
      (stores.recent window call).length := mirrored.memory _ later
  rw [step_entries A limit mirrored later, List.filter_append, List.length_append, ← before, step,
    onMemory, MemoryStore.checkAndAddTimestamps_timestamps, count]
  split_ifs
  · rw [kept_kept after]
    rfl
  · rw [kept, ((List.perm_insertionSort _ _).filter _).length_eq, List.filter_append,
      List.length_append, ← kept, kept_kept after, added_recent, kept]
    rfl

/-- A call both stores answer alike leaves them alike from its cutoff on. -/
theorem step_mirrored (mirrored : Mirrored tostring key low stores)
    (later : low ≤ call.now - window) (undisturbed : stores.Undisturbed A window limit call) :
    Mirrored tostring key (call.now - window) (stores.step A tostring key window limit call) := by
  have grown := onRedis_added window limit call mirrored
  have entries := step_entries A limit mirrored later
  have counts := (count_eq_iff mirrored later).mpr
    ⟨undisturbed.1, undisturbed.2.1, undisturbed.2.2.1⟩
  simp only [undisturbed.2.2.2] at entries
  rw [counts] at entries
  refine ⟨fun cutoff after => step_memory mirrored later after, ?_, grown.keys, grown.made, ?_⟩
  · intro entry after
    rw [entries, List.mem_append]
    refine (grown.members entry).trans (or_congr_left ?_)
    rw [trimmed_mirrors mirrored later undisturbed]
    exact and_iff_left after
  · intro entry member
    rw [entries, List.mem_append] at member
    rcases member with before | new
    · exact mirrored.dated entry before
    · split_ifs at new
      · cases new
      · exact dated_of_added new

theorem agree_along_iff {calls : List Call} (mirrored : Mirrored tostring key low stores)
    (later : ∀ call ∈ calls, low ≤ call.now - window)
    (ordered : calls.Pairwise fun call next => call.now ≤ next.now) :
    AllSteps (step A tostring key window limit) (Agree A tostring key window limit) stores calls ↔
      AllSteps (step A tostring key window limit) (Undisturbed A window limit) stores calls := by
  induction calls generalizing low stores with
  | nil => exact Iff.rfl
  | cons call rest ih =>
      have first := later call List.mem_cons_self
      rw [List.pairwise_cons] at ordered
      -- Once a call is answered differently both sides fail, whatever comes after it.
      rw [AllSteps, AllSteps, agree_iff mirrored first]
      refine and_congr_right fun undisturbed => ?_
      refine ih (step_mirrored mirrored first undisturbed) ?_ ordered.2
      intro next member
      exact sub_le_sub_right (ordered.1 next member) window

theorem mirrored_start (low : Int) {memory : MemoryStore} (empty : (memory.cells key).timestamps = []) :
    Mirrored tostring key low { memory := memory } where
  memory cutoff _ := by rw [empty]; rfl
  redis _ _ := Iff.rfl
  keys := List.nodup_nil
  made _ member := by cases member
  dated _ member := by cases member

/-- On an empty key the two stores give the same answers to a sequence of calls in
the order of their times exactly if every call of it is undisturbed. -/
theorem agree_throughout_iff (A : Arith) (tostring : Nat → String) (key : String)
    (window : Duration) (limit : Int) (memory : MemoryStore) (calls : List Call)
    (empty : (memory.cells key).timestamps = [])
    (ordered : calls.Pairwise fun call next => call.now ≤ next.now) :
    AllSteps (step A tostring key window limit) (Agree A tostring key window limit)
        { memory := memory } calls ↔
      AllSteps (step A tostring key window limit) (Undisturbed A window limit)
        { memory := memory } calls := by
  cases calls with
  | nil => exact Iff.rfl
  | cons call rest =>
      refine agree_along_iff (mirrored_start (call.now - window) empty) ?_ ordered
      intro next member
      rcases List.mem_cons.mp member with rfl | after
      · exact le_rfl
      · exact sub_le_sub_right ((List.pairwise_cons.mp ordered).1 next after) window

/-- Two requests are admitted and a third is refused, by both stores. -/
theorem agree_within_window :
    AllSteps (step .machine toString "k" 10 2) (Agree .machine toString "k" 10 2)
      { memory := MemoryStore.newSharded 1 }
      [⟨0, 1, 0, 0, fun _ => 7⟩, ⟨4, 1, 4, 4, fun _ => 7⟩, ⟨9, 1, 9, 9, fun _ => 7⟩] := by
  refine (agree_throughout_iff .machine toString "k" 10 2 (MemoryStore.newSharded 1) _ rfl
    (by decide)).mpr ?_
  simp only [AllSteps, Undisturbed]
  decide +kernel

/-- A request exactly one window after the one that filled the log: the memory store
still counts that one, the script has removed it. -/
theorem disagree_on_edge :
    let first : Call := ⟨0, 1, 0, 0, fun _ => 7⟩
    let second : Call := ⟨10, 1, 10, 10, fun _ => 7⟩
    let start : Backends := { memory := MemoryStore.newSharded 1 }
    let stores := start.step .machine toString "k" 10 1 first
    (stores.onMemory .machine "k" 10 1 second).1 = .ok ((1 : Int), false) ∧
      (stores.onRedis toString 10 1 second).1 = ((0 : Int), true) ∧
      ¬ AllSteps (step .machine toString "k" 10 1) (Agree .machine toString "k" 10 1) start
        [first, second] := by
  refine ⟨rfl, by decide +kernel, ?_⟩
  intro agree
  have second := agree.2.1
  cases second

end Backends

end Rlaas.Store.Redis
