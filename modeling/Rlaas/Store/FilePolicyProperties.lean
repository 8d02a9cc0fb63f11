import Rlaas.Lib.Steps
import Rlaas.Store.FilePolicy

/-! The history a file store keeps: over any run of writes the policy list, the
audit log and the version lists say the same. -/

set_option autoImplicit false

namespace Rlaas.Store

open Go Model Effect

variable {payload : Payload} {file : PolicyFile}

inductive StoreCall where
  | upsert (p : Policy)
  | delete (policyID : String)

def StoreCall.policyID : StoreCall → String
  | .upsert p => p.policyID
  | .delete policyID => policyID

def StoreCall.newValue : StoreCall → Option Policy
  | .upsert p => some p
  | .delete _ => none

/-- The values upserted under an identifier, in order. -/
def upserted (policyID : String) (calls : List StoreCall) : List Policy :=
  (calls.filter fun call => call.policyID = policyID).filterMap StoreCall.newValue

def StoreCall.change (stamps : Stamps) : StoreCall → Payload → Payload
  | .upsert p => Payload.upsertPolicy stamps p
  | .delete policyID => Payload.deletePolicy stamps policyID

/-- The value of an identifier according to an audit log. -/
def audited (audits : List PolicyAuditEntry) (policyID : String) : Option Policy :=
  Keyed.replay PolicyAuditEntry.policyID PolicyAuditEntry.newValue audits policyID

def Payload.lookup (payload : Payload) (policyID : String) : Option Policy :=
  Keyed.find Policy.policyID policyID payload.policies

/-- The payload after the calls that were carried out. -/
structure History (calls : List StoreCall) (payload : Payload) : Prop where
  distinct : (payload.policies.map Policy.policyID).Nodup
  current : ∀ policyID, payload.lookup policyID = audited payload.audits policyID
  chained : ∀ past entry future, payload.audits = past ++ entry :: future →
    entry.oldValue = audited past entry.policyID
  snapshots : ∀ policyID,
    (payload.versions policyID).map PolicyVersion.snapshot = upserted policyID calls
  numbers : ∀ policyID, (payload.versions policyID).map PolicyVersion.version =
    (List.range (payload.versions policyID).length).map fun n : Nat => (n : Int) + 1

theorem history_empty : History [] {} where
  distinct := List.nodup_nil
  current _ := rfl
  chained past entry future logged := by simp at logged
  snapshots _ := rfl
  numbers _ := rfl

theorem nextVersion_eq {vv : List PolicyVersion}
    (numbers : vv.map PolicyVersion.version = (List.range vv.length).map fun n : Nat => (n : Int) + 1) :
    Payload.nextVersion vv = vv.length + 1 := by
  have last := congrArg List.getLast? numbers
  rw [List.getLast?_map, List.getLast?_map, List.getLast?_range] at last
  unfold Payload.nextVersion
  cases ended : vv.getLast? with
  | none => simp [List.getLast?_eq_none_iff.mp ended]
  | some v =>
      have nonempty : vv.length ≠ 0 := by
        intro zero
        rw [List.length_eq_zero_iff.mp zero] at ended
        cases ended
      rw [ended, if_neg nonempty, Option.map_some, Option.map_some, Option.some.injEq] at last
      change v.version + 1 = _
      omega

theorem upserted_snoc_self (calls : List StoreCall) (call : StoreCall) :
    upserted call.policyID (calls ++ [call]) =
      upserted call.policyID calls ++ call.newValue.toList := by
  cases call with
  | upsert p => simp [upserted, StoreCall.policyID, StoreCall.newValue]
  | delete policyID => simp [upserted, StoreCall.policyID, StoreCall.newValue]

theorem upserted_snoc_other {call : StoreCall} {policyID : String}
    (different : call.policyID ≠ policyID) (calls : List StoreCall) :
    upserted policyID (calls ++ [call]) = upserted policyID calls := by
  simp [upserted, different]

section Change

variable (stamps : Stamps) (call : StoreCall) {payload : Payload}

theorem change_distinct (distinct : (payload.policies.map Policy.policyID).Nodup) :
    ((call.change stamps payload).policies.map Policy.policyID).Nodup := by
  cases call with
  | upsert p => exact Keyed.nodup_upsert Policy.policyID p distinct
  | delete policyID => exact Keyed.nodup_remove Policy.policyID policyID distinct

theorem change_lookup_self (payload : Payload) :
    (call.change stamps payload).lookup call.policyID = call.newValue := by
  cases call with
  | upsert p => exact Keyed.find_upsert_self Policy.policyID p payload.policies
  | delete policyID => exact Keyed.find_remove_self Policy.policyID policyID payload.policies

theorem change_lookup_other {policyID : String} (different : call.policyID ≠ policyID)
    (payload : Payload) :
    (call.change stamps payload).lookup policyID = payload.lookup policyID := by
  cases call with
  | upsert p => exact Keyed.find_upsert_other Policy.policyID different payload.policies
  | delete removed =>
      exact Keyed.find_remove_other Policy.policyID (Ne.symm different) payload.policies

def StoreCall.actionType : StoreCall → String
  | .upsert _ => "upsert"
  | .delete _ => "delete"

/-- Every write appends one entry, with the value the identifier has before it. -/
theorem change_audits (distinct : (payload.policies.map Policy.policyID).Nodup) :
    (call.change stamps payload).audits = payload.audits ++
      [Payload.auditEntry stamps call.policyID call.actionType (payload.lookup call.policyID)
        call.newValue] := by
  cases call with
  | upsert p =>
      change payload.audits ++ [Payload.auditEntry stamps p.policyID "upsert"
        (Keyed.upsert Policy.policyID p payload.policies).1 (some p)] = _
      rw [Keyed.upsert_fst]
      rfl
  | delete policyID =>
      change payload.audits ++ [Payload.auditEntry stamps policyID "delete"
        (payload.policies.filter fun p => p.policyID = policyID).getLast? none] = _
      rw [Keyed.getLast?_filter_eq_find Policy.policyID policyID distinct]
      rfl

theorem change_listPolicyAudit_other (distinct : (payload.policies.map Policy.policyID).Nodup)
    {policyID : String} (different : call.policyID ≠ policyID) :
    (call.change stamps payload).listPolicyAudit policyID = payload.listPolicyAudit policyID := by
  rw [Payload.listPolicyAudit, change_audits stamps call distinct, List.filter_append]
  simp [Payload.auditEntry, Payload.listPolicyAudit, different]

theorem change_versions_other {policyID : String} (different : call.policyID ≠ policyID)
    (payload : Payload) :
    (call.change stamps payload).versions policyID = payload.versions policyID := by
  cases call with
  | upsert p => exact Function.update_of_ne (Ne.symm different) _ _
  | delete removed => rfl

end Change

theorem chained_snoc {audits : List PolicyAuditEntry} {last : PolicyAuditEntry}
    (chained : ∀ past entry future, audits = past ++ entry :: future →
      entry.oldValue = audited past entry.policyID)
    (linked : last.oldValue = audited audits last.policyID) :
    ∀ past entry future, audits ++ [last] = past ++ entry :: future →
      entry.oldValue = audited past entry.policyID := by
  intro past entry future logged
  rcases List.eq_nil_or_concat future with rfl | ⟨init, final, rfl⟩
  · obtain ⟨rfl, single⟩ := List.append_inj' logged rfl
    cases single
    exact linked
  · rw [List.concat_eq_append, ← List.cons_append, ← List.append_assoc] at logged
    exact chained past entry init (List.append_inj' logged rfl).1

theorem History.change {calls : List StoreCall} (history : History calls payload) (stamps : Stamps)
    (call : StoreCall) :
    History (calls ++ [call]) (call.change stamps payload) := by
  have logged := change_audits stamps call history.distinct
  refine ⟨change_distinct stamps call history.distinct, ?_, ?_, ?_, ?_⟩
  · intro policyID
    rw [logged]
    by_cases same : call.policyID = policyID
    · subst same
      rw [change_lookup_self]
      exact (Keyed.replay_snoc_self PolicyAuditEntry.policyID PolicyAuditEntry.newValue payload.audits
        (Payload.auditEntry stamps call.policyID call.actionType _ call.newValue)).symm
    · rw [change_lookup_other stamps call same, history.current]
      exact (Keyed.replay_snoc_other PolicyAuditEntry.policyID PolicyAuditEntry.newValue same
        payload.audits).symm
  · rw [logged]
    exact chained_snoc history.chained (history.current call.policyID)
  · intro policyID
    by_cases same : call.policyID = policyID
    · subst same
      rw [upserted_snoc_self, ← history.snapshots]
      cases call with
      | upsert p => simp [StoreCall.change, Payload.upsertPolicy, StoreCall.policyID,
          StoreCall.newValue]
      | delete removed => simp [StoreCall.change, Payload.deletePolicy, StoreCall.newValue]
    · rw [change_versions_other stamps call same, upserted_snoc_other same, history.snapshots]
  · intro policyID
    by_cases same : call.policyID = policyID
    · subst same
      cases call with
      | upsert p =>
          simp [StoreCall.change, Payload.upsertPolicy, StoreCall.policyID, List.range_succ,
            history.numbers p.policyID, nextVersion_eq (history.numbers p.policyID)]
      | delete removed => exact history.numbers removed
    · rw [change_versions_other stamps call same]
      exact history.numbers policyID

/-- A call with the errors and the readings of the clock it meets. -/
structure StoreRequest where
  call : StoreCall
  faults : FileFaults := {}
  stamps : Stamps

def StoreRequest.apply (request : StoreRequest) (file : PolicyFile) :
    Except String Unit × PolicyFile :=
  match request.call with
  | .upsert p => file.upsertPolicy request.faults request.stamps p
  | .delete policyID => file.deletePolicy request.faults request.stamps policyID

/-- The file, and the calls so far that returned no error. -/
structure FileRun where
  file : PolicyFile
  accepted : List StoreCall := []

def FileRun.step (run : FileRun) (request : StoreRequest) : FileRun where
  file := (request.apply run.file).2
  accepted :=
    match (request.apply run.file).1 with
    | .ok _ => run.accepted ++ [request.call]
    | .error _ => run.accepted

theorem apply_eq_modify (request : StoreRequest) (file : PolicyFile) :
    request.apply file = file.modify request.faults (request.call.change request.stamps) := by
  obtain ⟨call, faults, stamps⟩ := request
  cases call with
  | upsert p => rfl
  | delete policyID => rfl

theorem readPayload_clean (file : PolicyFile) : file.readPayload {} = file.contents := by
  cases file <;> rfl

theorem contents_of_readPayload {faults : FileFaults}
    (read : file.readPayload faults = .ok payload) : file.contents = .ok payload := by
  cases file with
  | missing => exact read
  | empty | envelope | bare | malformed =>
      cases faulty : faults.read with
      | none => simpa [PolicyFile.readPayload, faulty] using read
      | some message => simp [PolicyFile.readPayload, faulty] at read

theorem apply_cases (request : StoreRequest) (contents : file.contents = .ok payload) :
    (∃ message, request.apply file = (.error message, file)) ∨
      request.apply file = (.ok (), .envelope (request.call.change request.stamps payload)) := by
  rw [apply_eq_modify, PolicyFile.modify]
  cases read : file.readPayload request.faults with
  | error message => exact .inl ⟨message, rfl⟩
  | ok found =>
      obtain rfl : found = payload := Except.ok.inj ((contents_of_readPayload read).symm.trans contents)
      simp only [PolicyFile.writePayload]
      cases request.faults.write with
      | some message => exact .inl ⟨message, rfl⟩
      | none => exact .inr rfl

theorem apply_clean (call : StoreCall) (stamps : Stamps) (contents : file.contents = .ok payload) :
    StoreRequest.apply ⟨call, {}, stamps⟩ file = (.ok (), .envelope (call.change stamps payload)) := by
  rw [apply_eq_modify, PolicyFile.modify, readPayload_clean, contents]
  rfl

def FileRun.Kept (run : FileRun) : Prop :=
  ∃ payload, run.file.contents = .ok payload ∧ History run.accepted payload

theorem FileRun.Kept.step {run : FileRun} (kept : run.Kept) (request : StoreRequest) :
    (run.step request).Kept := by
  obtain ⟨payload, contents, history⟩ := kept
  rcases apply_cases request contents with ⟨message, failed⟩ | written
  · exact ⟨payload, by simpa [FileRun.step, failed] using contents,
      by simpa [FileRun.step, failed] using history⟩
  · refine ⟨request.call.change request.stamps payload, ?_, ?_⟩
    · simp [FileRun.step, written, PolicyFile.contents]
    · simpa [FileRun.step, written] using history.change request.stamps request.call

/-- What is read from the store after a run, and what one more call does to it. -/
structure FileRun.Consistent (run : FileRun) : Prop where
  distinct : ∃ policies, run.file.listPolicies {} = .ok policies ∧
    (policies.map Policy.policyID).Nodup
  current : ∀ policyID, ∃ audits, run.file.listPolicyAudit {} policyID = .ok audits ∧
    run.file.getPolicyByID {} policyID =
      match audits.getLast?.bind PolicyAuditEntry.newValue with
      | some p => .ok p
      | none => .error "policy not found"
  chained : ∀ policyID audits, run.file.listPolicyAudit {} policyID = .ok audits →
    ∀ past entry future, audits = past ++ entry :: future →
      entry.oldValue = past.getLast?.bind PolicyAuditEntry.newValue
  versions : ∀ policyID, ∃ versions, run.file.listPolicyVersions {} policyID = .ok versions ∧
    versions.map PolicyVersion.snapshot = upserted policyID run.accepted ∧
    versions.map PolicyVersion.version =
      (List.range versions.length).map fun n : Nat => (n : Int) + 1
  recorded : ∀ request : StoreRequest, (request.apply run.file).1 = .ok () →
    ∃ (before : List PolicyAuditEntry) (entry : PolicyAuditEntry),
    run.file.listPolicyAudit {} request.call.policyID = .ok before ∧
      (request.apply run.file).2.listPolicyAudit {} request.call.policyID = .ok (before ++ [entry]) ∧
      entry.oldValue = (run.file.getPolicyByID {} request.call.policyID).toOption ∧
      entry.newValue = request.call.newValue
  failed : ∀ (request : StoreRequest) (message : String),
    (request.apply run.file).1 = .error message →
    (request.apply run.file).2 = run.file

theorem History.chained_own {calls : List StoreCall} (history : History calls payload)
    {policyID : String} {past future : List PolicyAuditEntry} {entry : PolicyAuditEntry}
    (listed : payload.listPolicyAudit policyID = past ++ entry :: future) :
    entry.oldValue = past.getLast?.bind PolicyAuditEntry.newValue := by
  obtain ⟨earlier, later, split, own, rest⟩ := List.filter_eq_append_iff.mp listed
  obtain ⟨others, ending, split', skipped, named, _⟩ := List.filter_eq_cons_iff.mp rest
  have before := history.chained (earlier ++ others) entry ending (by
    rw [split, split', List.append_assoc])
  have none : others.filter (fun a => a.policyID = policyID) = [] :=
    List.filter_eq_nil_iff.mpr skipped
  rw [before, of_decide_eq_true named, audited, Keyed.replay, List.filter_append, own, none,
    List.append_nil]

theorem getPolicyByID_eq (payload : Payload) (policyID : String) :
    payload.getPolicyByID policyID =
      match payload.lookup policyID with
      | some p => .ok p
      | none => .error "policy not found" := rfl

theorem FileRun.Kept.consistent {run : FileRun} (kept : run.Kept) : run.Consistent := by
  obtain ⟨payload, contents, history⟩ := kept
  have read : run.file.readPayload {} = .ok payload := (readPayload_clean _).trans contents
  refine ⟨⟨payload.policies, ?_, history.distinct⟩, fun policyID => ?_, ?_, fun policyID => ?_, ?_, ?_⟩
  · simp [PolicyFile.listPolicies, read]
  · refine ⟨payload.listPolicyAudit policyID, ?_, ?_⟩
    · simp [PolicyFile.listPolicyAudit, read]
    · simp only [PolicyFile.getPolicyByID, read, bind, Except.bind, getPolicyByID_eq,
        history.current policyID]
      rfl
  · intro policyID audits listed past entry future split
    simp only [PolicyFile.listPolicyAudit, read] at listed
    exact history.chained_own ((Except.ok.inj listed).trans split)
  · refine ⟨payload.versions policyID, ?_, history.snapshots policyID, history.numbers policyID⟩
    simp [PolicyFile.listPolicyVersions, Payload.listPolicyVersions, read]
  · intro request succeeded
    rcases apply_cases request contents with ⟨message, failed⟩ | written
    · rw [failed] at succeeded
      cases succeeded
    · refine ⟨payload.listPolicyAudit request.call.policyID,
        Payload.auditEntry request.stamps request.call.policyID request.call.actionType
          (payload.lookup request.call.policyID) request.call.newValue, ?_, ?_, ?_, rfl⟩
      · simp [PolicyFile.listPolicyAudit, read]
      · rw [written]
        simp [PolicyFile.listPolicyAudit, PolicyFile.readPayload, PolicyFile.contents,
          Payload.listPolicyAudit, change_audits request.stamps request.call history.distinct,
          Payload.auditEntry]
      · simp only [PolicyFile.getPolicyByID, read, bind, Except.bind, getPolicyByID_eq]
        cases payload.lookup request.call.policyID <;> rfl
  · intro request message failed
    rcases apply_cases request contents with ⟨reason, unchanged⟩ | written
    · rw [unchanged]
    · rw [written] at failed
      cases failed

theorem kept_of_run (requests : List StoreRequest) (fresh : file = .missing ∨ file = .empty) :
    (requests.foldl FileRun.step { file }).Kept := by
  have initial : FileRun.Kept { file } := by
    rcases fresh with rfl | rfl
    · exact ⟨{}, rfl, history_empty⟩
    · exact ⟨{}, rfl, history_empty⟩
  exact foldl_kept FileRun.Kept (fun _ request kept => kept.step request) requests initial

/-- Over every run of writes from an empty store, with any errors on the way,
the list, the audit log and the versions tell one history, which the log replays. -/
theorem consistent_of_run (requests : List StoreRequest) (file : PolicyFile)
    (fresh : file = .missing ∨ file = .empty) :
    (requests.foldl FileRun.step { file }).Consistent :=
  (kept_of_run requests fresh).consistent

private def stamped (call : StoreCall) (write : Option String) : StoreRequest where
  call
  faults := { write }
  stamps := ⟨⟨0, utc⟩, ⟨0, utc⟩, ⟨0, utc⟩⟩

theorem consistent_of_recreation :
    ([stamped (.upsert { policyID := "p" }) none, stamped (.delete "p") (some "disk full"),
      stamped (.delete "p") none, stamped (.upsert { policyID := "p", priority := 1 }) none].foldl
        FileRun.step { file := .missing }).Consistent :=
  consistent_of_run _ .missing (.inl rfl)

end Rlaas.Store
