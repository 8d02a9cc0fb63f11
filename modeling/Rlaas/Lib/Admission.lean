import Rlaas.Lib.Serial

/-! Limiters as their users see them: from the calls admitted so far, a limiter
decides the next one. A serial run of programs is such a limiter if its state
represents the calls it has admitted. -/

set_option autoImplicit false

namespace Effect

section Decisions

variable {D : Type} (admits : List D → D → Bool)
variable {related : D → D → Prop}

def record (past : List D) (call : D) : List D := if admits past call then past ++ [call] else past

/-- The calls admitted before and among these. -/
def admitted : List D → List D → List D
  | past, [] => past
  | past, call :: rest => admitted (record admits past call) rest

def decisions : List D → List D → List Bool
  | _, [] => []
  | past, call :: rest => admits past call :: decisions (record admits past call) rest

theorem decisions_length (past calls : List D) :
    (decisions admits past calls).length = calls.length := by
  induction calls generalizing past with
  | nil => rfl
  | cons call rest ih => exact congrArg (· + 1) (ih _)

theorem decisions_append (past first second : List D) :
    decisions admits past (first ++ second) =
      decisions admits past first ++ decisions admits (admitted admits past first) second := by
  induction first generalizing past with
  | nil => rfl
  | cons call rest ih => exact congrArg (admits past call :: ·) (ih _)

variable {admits}

theorem record_of_refused {past : List D} {call : D} (refused : admits past call = false) :
    record admits past call = past := by
  rw [record, refused]
  rfl

theorem record_of_admitted {past : List D} {call : D} (taken : admits past call = true) :
    record admits past call = past ++ [call] := by
  rw [record, if_pos taken]

/-- Calls that are refused whatever was admitted leave no trace. -/
theorem admitted_of_refused {calls : List D}
    (refused : ∀ call ∈ calls, ∀ past, admits past call = false) (past : List D) :
    admitted admits past calls = past := by
  induction calls with
  | nil => rfl
  | cons call rest ih =>
      obtain ⟨first, later⟩ := List.forall_mem_cons.mp refused
      rw [admitted, record_of_refused (first past)]
      exact ih later

theorem related_record {past rest : List D} {call : D}
    (before : ∀ earlier ∈ past, ∀ other ∈ call :: rest, related earlier other)
    (next : ∀ other ∈ rest, related call other) :
    ∀ earlier ∈ record admits past call, ∀ other ∈ rest, related earlier other := by
  have old : ∀ earlier ∈ past, ∀ other ∈ rest, related earlier other := fun earlier member other here =>
    before earlier member other (List.mem_cons_of_mem call here)
  unfold record
  split
  · exact List.forall_mem_append.mpr ⟨old, List.forall_mem_singleton.mpr next⟩
  · exact old

/-- Two limiters that agree on calls related to all admitted before them decide alike. -/
theorem decisions_congr {first second : List D → D → Bool}
    (same : ∀ past call, (∀ earlier ∈ past, related earlier call) →
      first past call = second past call) {past calls : List D}
    (before : ∀ earlier ∈ past, ∀ call ∈ calls, related earlier call)
    (among : calls.Pairwise related) :
    decisions first past calls = decisions second past calls := by
  induction calls generalizing past with
  | nil => rfl
  | cons call rest ih =>
      obtain ⟨next, later⟩ := List.pairwise_cons.mp among
      have agreed := same past call fun earlier member => before earlier member call List.mem_cons_self
      have moved : record first past call = record second past call := by
        rw [record, record, agreed]
      rw [decisions, decisions, agreed, moved]
      exact congrArg (second past call :: ·) (ih (related_record before next) later)

theorem exists_split_of_sublist {first second : D} {calls : List D}
    (listed : [first, second].Sublist calls) :
    ∃ front middle back, calls = front ++ first :: (middle ++ second :: back) := by
  obtain ⟨head, tail, rfl, inHead, inTail⟩ := List.cons_sublist_iff.mp listed
  obtain ⟨front, before, rfl⟩ := List.mem_iff_append.mp inHead
  obtain ⟨after, back, rfl⟩ := List.mem_iff_append.mp (List.singleton_sublist.mp inTail)
  refine ⟨front, before ++ after, back, ?_⟩
  rw [List.append_assoc, List.cons_append, List.append_assoc]

/-- Two limiters that decide a run alike, in which only one call is admitted by both before a
later one, agree about the later one. -/
theorem agree_after_one {first second : List D → D → Bool} {front middle back : List D}
    {early late : D} (refused : ∀ call ∈ front ++ middle, ∀ past, first past call = false)
    (refused' : ∀ call ∈ front ++ middle, ∀ past, second past call = false)
    (taken : first [] early = true) (taken' : second [] early = true)
    (same : decisions first [] (front ++ early :: (middle ++ late :: back)) =
      decisions second [] (front ++ early :: (middle ++ late :: back))) :
    first [early] late = second [early] late := by
  obtain ⟨frontRefused, middleRefused⟩ := List.forall_mem_append.mp refused
  obtain ⟨frontRefused', middleRefused'⟩ := List.forall_mem_append.mp refused'
  have lengths : ∀ calls : List D, ∀ past past' : List D,
      (decisions first past calls).length = (decisions second past' calls).length := fun calls _ _ => by
    rw [decisions_length, decisions_length]
  rw [decisions_append, decisions_append, admitted_of_refused frontRefused,
    admitted_of_refused frontRefused'] at same
  obtain ⟨_, same⟩ := List.append_inj same (lengths front [] [])
  rw [decisions, decisions, record_of_admitted taken, record_of_admitted taken'] at same
  obtain ⟨_, same⟩ := List.cons.inj same
  rw [decisions_append, decisions_append, admitted_of_refused middleRefused,
    admitted_of_refused middleRefused'] at same
  obtain ⟨_, same⟩ := List.append_inj same (lengths middle _ _)
  exact (List.cons.inj same).1

/-- What every admission of a call related to those before it keeps. -/
theorem admitted_invariant (invariant : List D → Prop)
    (keeps : ∀ past call, invariant past → (∀ earlier ∈ past, related earlier call) →
      admits past call = true → invariant (past ++ [call])) {past calls : List D}
    (initial : invariant past) (before : ∀ earlier ∈ past, ∀ call ∈ calls, related earlier call)
    (among : calls.Pairwise related) : invariant (admitted admits past calls) := by
  induction calls generalizing past with
  | nil => exact initial
  | cons call rest ih =>
      obtain ⟨next, later⟩ := List.pairwise_cons.mp among
      have first : ∀ earlier ∈ past, related earlier call := fun earlier member =>
        before earlier member call List.mem_cons_self
      refine ih ?_ (related_record before next) later
      cases taken : admits past call with
      | true =>
          rw [record_of_admitted taken]
          exact keeps past call initial first taken
      | false =>
          rw [record_of_refused taken]
          exact initial

end Decisions

section Refinement

variable {Op : Type} {Res : Op → Type} {C α σ τ : Type} {admits : List C → C → Bool}

/-- Programs whose state represents the calls admitted so far make the limiter's decisions. -/
theorem serial_decisions (handler : Handler Op Res σ τ) (program : C → Program Op Res α)
    (clock : C → Nat → τ) (flag : α → Bool) (represents : List C → σ → Prop) {allowed : C → Prop}
    (step : ∀ past state call, represents past state → allowed call →
      flag (turn handler program clock call state).result = admits past call ∧
        represents (record admits past call) (turn handler program clock call state).after)
    {past calls : List C} {state : σ} (start : represents past state)
    (fits : ∀ call ∈ calls, allowed call) :
    (serial handler program clock calls state).map (fun turn => flag turn.result) =
        decisions admits past calls ∧
      past ++ ((serial handler program clock calls state).filter fun turn => flag turn.result).map
          (fun turn => turn.call) = admitted admits past calls := by
  induction calls generalizing past state with
  | nil => exact ⟨rfl, List.append_nil past⟩
  | cons call rest ih =>
      obtain ⟨first, later⟩ := List.forall_mem_cons.mp fits
      obtain ⟨decided, kept⟩ := step past state call start first
      obtain ⟨flags, taken⟩ := ih kept later
      refine ⟨congrArg₂ List.cons decided flags, ?_⟩
      rw [admitted, ← taken, serial, List.filter_cons, decided]
      cases admission : admits past call with
      | true =>
          rw [record_of_admitted admission, List.append_assoc]
          rfl
      | false =>
          rw [record_of_refused admission]
          rfl

end Refinement

end Effect
