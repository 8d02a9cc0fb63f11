import Rlaas.Adapter.Routes
import Rlaas.Store.FilePolicyProperties

/-! The history of a policy under the routes that write: a rollback restores the version
it names and touches nothing else, and no request changes a version once it is there. -/

set_option autoImplicit false

namespace Rlaas.Adapter.ControlPlane

open Go Model Store Effect

variable {file : PolicyFile} {payload : Payload}

/-- Versions are only added, each behind the ones before. -/
def Extends (before after : Payload) : Prop :=
  ∀ policyID, ∃ added, after.versions policyID = before.versions policyID ++ added

theorem Extends.refl (payload : Payload) : Extends payload payload :=
  fun _ => ⟨[], (List.append_nil _).symm⟩

theorem Extends.trans {first second third : Payload} (left : Extends first second)
    (right : Extends second third) : Extends first third := by
  intro policyID
  obtain ⟨early, grown⟩ := left policyID
  obtain ⟨late, grown'⟩ := right policyID
  exact ⟨early ++ late, by rw [grown', grown, List.append_assoc]⟩

theorem extends_change (stamps : Stamps) (call : StoreCall) (payload : Payload) :
    Extends payload (call.change stamps payload) := by
  intro policyID
  by_cases same : call.policyID = policyID
  · subst same
    cases call with
    | upsert p => exact ⟨_, Function.update_self ..⟩
    | delete removed => exact ⟨[], (List.append_nil _).symm⟩
  · exact ⟨[], by rw [change_versions_other stamps call same, List.append_nil]⟩

/-- A file that can be read and has the versions of a payload at least. -/
def Holds (payload : Payload) (file : PolicyFile) : Prop :=
  ∃ payload', file.contents = .ok payload' ∧ Extends payload payload'

theorem Holds.apply (holds : Holds payload file) (request : StoreRequest) :
    Holds payload (request.apply file).2 := by
  obtain ⟨payload', contents, grown⟩ := holds
  rcases apply_cases request contents with ⟨message, failed⟩ | written
  · rw [failed]
    exact ⟨payload', contents, grown⟩
  · rw [written]
    exact ⟨_, rfl, grown.trans (extends_change request.stamps request.call payload')⟩

theorem Holds.performRoute (holds : Holds payload file) (setting : Setting) (op : RouteOp) :
    Holds payload (performRoute setting op file).2 := by
  cases op with
  | plane op =>
      cases op with
      | upsertPolicy p => exact holds.apply ⟨.upsert p, setting.faults, setting.stamps⟩
      | getPolicyByID policyID => exact holds
      | publish policyID action => exact holds
      | record event policyID => exact holds
  | deletePolicy policyID => exact holds.apply ⟨.delete policyID, setting.faults, setting.stamps⟩
  | now => exact holds
  | listPolicyVersions policyID => exact holds
  | recordVersion event policyID version => exact holds

theorem Holds.served (holds : Holds payload file) (cfg : HandlerConfig)
    (requests : List (WriteRequest × (Nat → Setting))) :
    Holds payload (served cfg requests file) :=
  foldl_kept (Holds payload) (fun _ request kept =>
    (request.1.handler cfg).exec_kept (Holds payload)
      (fun setting op _ kept => kept.performRoute setting op) request.2 kept) requests holds

theorem listPolicyVersions_of_contents (contents : file.contents = .ok payload)
    (policyID : String) :
    file.listPolicyVersions {} policyID = .ok (payload.versions policyID) := by
  simp [PolicyFile.listPolicyVersions, readPayload_clean, contents, Payload.listPolicyVersions]

/-- Versions that are listed after some requests are listed after any more of them. -/
theorem served_versions (contents : file.contents = .ok payload) (cfg : HandlerConfig)
    (past future : List (WriteRequest × (Nat → Setting))) {policyID : String}
    {kept : List PolicyVersion}
    (listed : (served cfg past file).listPolicyVersions {} policyID = .ok kept) :
    ∃ added, (served cfg (past ++ future) file).listPolicyVersions {} policyID =
      .ok (kept ++ added) := by
  have start : Holds payload file := ⟨payload, contents, .refl payload⟩
  obtain ⟨reached, readable, _⟩ := start.served cfg past
  have again : Holds reached (served cfg past file) := ⟨reached, readable, .refl reached⟩
  obtain ⟨final, readable', grown⟩ := again.served cfg future
  have same := listed.symm.trans (listPolicyVersions_of_contents readable policyID)
  obtain rfl : kept = reached.versions policyID := Except.ok.inj same
  obtain ⟨added, extended⟩ := grown policyID
  refine ⟨added, ?_⟩
  rw [← extended, served, List.foldl_append]
  exact listPolicyVersions_of_contents readable' policyID

section Rollback

variable {file : PolicyFile} {payload : Payload} {id : String} {v : PolicyVersion}

/-- The hooks after a write change neither the file nor the response. -/
theorem publishing_exec (cfg : HandlerConfig) (policyID action : String) {next : Route}
    {response : Response}
    (continues : ∀ clock, next.exec performRoute clock file = (response, file))
    (clock : Nat → Setting) :
    (publishing cfg policyID action next).exec performRoute clock file = (response, file) := by
  unfold publishing
  split_ifs
  · exact continues _
  · exact continues _

theorem listPolicyVersions_cases (contents : file.contents = .ok payload) (faults : FileFaults)
    (policyID : String) :
    (∃ message, file.listPolicyVersions faults policyID = .error message) ∨
      file.listPolicyVersions faults policyID = .ok (payload.versions policyID) := by
  unfold PolicyFile.listPolicyVersions
  cases read : file.readPayload faults with
  | error message => exact .inl ⟨message, rfl⟩
  | ok found =>
      obtain rfl : found = payload :=
        Except.ok.inj ((contents_of_readPayload read).symm.trans contents)
      exact .inr rfl

/-- The store call a rollback to a version makes. -/
def restoring (id : String) (v : PolicyVersion) (setting : Setting) : StoreRequest :=
  ⟨.upsert { v.snapshot with policyID := id }, setting.faults, setting.stamps⟩

theorem restore_exec (cfg : HandlerConfig) (id : String) (v : PolicyVersion)
    (clock : Nat → Setting) (file : PolicyFile) :
    (restore cfg id v).exec performRoute clock file =
      match (restoring id v (clock 0)).apply file with
      | (.ok _, after) => (.policy { v.snapshot with policyID := id }, after)
      | (.error _, after) => (.error "policy store error" 500, after) := by
  have called : performRoute (clock 0) (.plane (.upsertPolicy { v.snapshot with policyID := id }))
      file = (restoring id v (clock 0)).apply file := rfl
  rw [restore, Program.exec_call, called]
  obtain ⟨answer, after⟩ := (restoring id v (clock 0)).apply file
  cases answer with
  | error message => rfl
  | ok done =>
      refine publishing_exec cfg id "rollback" (fun clock => ?_) _
      split_ifs
      · rfl
      · rfl

theorem rollback_exec (cfg : HandlerConfig) (named : id ≠ "") {version : Int}
    {versions : List PolicyVersion} {clock : Nat → Setting}
    (listed : file.listPolicyVersions (clock 0).faults id = .ok versions)
    (selected : selectVersionForRollback versions version = some v) :
    (rollback true cfg id (some version)).exec performRoute clock file =
      (restore cfg id v).exec performRoute (fun n => clock (n + 1)) file := by
  have kept : versions.isEmpty = false := by
    cases versions with
    | nil => cases selected
    | cons first rest => rfl
  rw [rollback, if_neg (by decide), if_neg named]
  simp only [Program.exec_call, performRoute, listed, kept, Bool.false_eq_true, if_false, selected]

/-- A rollback fails and leaves the file, or it upserts the snapshot of the version. -/
theorem rollback_cases (cfg : HandlerConfig) (contents : file.contents = .ok payload)
    (selected : selectVersionForRollback (payload.versions v.snapshot.policyID) v.version = some v)
    (clock : Nat → Setting) :
    (∃ text status,
      (rollback true cfg v.snapshot.policyID (some v.version)).exec performRoute clock file =
        (.error text status, file)) ∨
      (rollback true cfg v.snapshot.policyID (some v.version)).exec performRoute clock file =
        (.policy v.snapshot,
          .envelope (StoreCall.change (clock 1).stamps (.upsert v.snapshot) payload)) := by
  by_cases named : v.snapshot.policyID = ""
  · refine .inl ⟨"missing policy id", 400, ?_⟩
    rw [rollback, if_neg (by decide), if_pos named, Program.exec_done]
  rcases listPolicyVersions_cases contents (clock 0).faults v.snapshot.policyID with
    ⟨message, unread⟩ | listed
  · refine .inl ⟨"policy store error", 500, ?_⟩
    rw [rollback, if_neg (by decide), if_neg named]
    simp only [Program.exec_call, performRoute, unread, Program.exec_done]
  · rw [rollback_exec cfg named listed selected, restore_exec]
    rcases apply_cases (restoring v.snapshot.policyID v (clock 1)) contents with
      ⟨message, failed⟩ | written
    · rw [failed]
      exact .inl ⟨_, _, rfl⟩
    · rw [written]
      exact .inr rfl

theorem rollback_clean (cfg : HandlerConfig) (named : v.snapshot.policyID ≠ "")
    (contents : file.contents = .ok payload)
    (selected : selectVersionForRollback (payload.versions v.snapshot.policyID) v.version = some v)
    {clock : Nat → Setting} (readable : (clock 0).faults = {}) (writable : (clock 1).faults = {}) :
    ((rollback true cfg v.snapshot.policyID (some v.version)).exec performRoute clock file).1 =
      .policy v.snapshot := by
  have listed := listPolicyVersions_of_contents contents v.snapshot.policyID
  rw [← readable] at listed
  have written : (restoring v.snapshot.policyID v (clock 1)).apply file =
      (.ok (), .envelope (StoreCall.change (clock 1).stamps (.upsert v.snapshot) payload)) := by
    rw [restoring, writable]
    exact apply_clean _ _ contents
  rw [rollback_exec cfg named listed selected, restore_exec, written]

end Rollback

section History

variable {calls : List StoreCall} {file : PolicyFile} {payload : Payload} {id : String}
  {v : PolicyVersion}

theorem policyID_of_upserted {p : Policy} (member : p ∈ upserted id calls) : p.policyID = id := by
  obtain ⟨call, own, value⟩ := List.mem_filterMap.mp member
  have named : call.policyID = id := of_decide_eq_true (List.mem_filter.mp own).2
  cases call with
  | upsert q =>
      obtain rfl := Option.some.inj value
      exact named
  | delete removed => cases value

theorem snapshot_policyID (history : History calls payload) (member : v ∈ payload.versions id) :
    v.snapshot.policyID = id := by
  have listed : v.snapshot ∈ upserted id calls := by
    rw [← history.snapshots]
    exact List.mem_map_of_mem member
  exact policyID_of_upserted listed

theorem selectVersion_of_mem (history : History calls payload) (member : v ∈ payload.versions id) :
    selectVersionForRollback (payload.versions id) v.version = some v := by
  have numbers := history.numbers id
  have positive : v.version > 0 := by
    have listed := List.mem_map_of_mem (f := PolicyVersion.version) member
    rw [numbers] at listed
    obtain ⟨n, _, number⟩ := List.mem_map.mp listed
    omega
  have distinct : ((payload.versions id).map PolicyVersion.version).Nodup := by
    rw [numbers]
    refine List.Nodup.map (fun m n same => ?_) List.nodup_range
    simpa using same
  have kept : (payload.versions id).isEmpty = false := by
    cases listed : payload.versions id with
    | nil =>
        rw [listed] at member
        cases member
    | cons first rest => rfl
  rw [selectVersionForRollback, if_neg (by simp [kept]), if_pos positive]
  exact Keyed.find_of_mem PolicyVersion.version distinct member rfl

end History

/-- What a rollback of a policy to a version has done. -/
structure RolledBack (id : String) (v : PolicyVersion) (before after : PolicyFile) : Prop where
  current : after.getPolicyByID {} id = .ok v.snapshot
  appended : ∃ versions createdAtUnix, before.listPolicyVersions {} id = .ok versions ∧
    after.listPolicyVersions {} id =
      .ok (versions ++ [⟨id, versions.length + 1, createdAtUnix, v.snapshot⟩])
  policies : ∃ earlier later, before.listPolicies {} = .ok earlier ∧ after.listPolicies {} = .ok later ∧
    (later.filter fun p => p.policyID ≠ id) = earlier.filter fun p => p.policyID ≠ id
  others : ∀ other, other ≠ id →
    after.getPolicyByID {} other = before.getPolicyByID {} other ∧
    after.listPolicyVersions {} other = before.listPolicyVersions {} other ∧
    after.listPolicyAudit {} other = before.listPolicyAudit {} other

section Restored

variable {file : PolicyFile} {payload : Payload}

theorem getPolicyByID_of_contents (contents : file.contents = .ok payload) (policyID : String) :
    file.getPolicyByID {} policyID = payload.getPolicyByID policyID := by
  simp only [PolicyFile.getPolicyByID, readPayload_clean, contents]
  rfl

theorem listPolicies_of_contents (contents : file.contents = .ok payload) :
    file.listPolicies {} = .ok payload.policies := by
  simp only [PolicyFile.listPolicies, readPayload_clean, contents]
  rfl

theorem listPolicyAudit_of_contents (contents : file.contents = .ok payload) (policyID : String) :
    file.listPolicyAudit {} policyID = .ok (payload.listPolicyAudit policyID) := by
  simp only [PolicyFile.listPolicyAudit, readPayload_clean, contents]
  rfl

/-- An upsert of the snapshot of a version is a rollback to it. -/
theorem rolledBack_of_upsert {calls : List StoreCall} (history : History calls payload)
    (contents : file.contents = .ok payload) (stamps : Stamps) (v : PolicyVersion) :
    RolledBack v.snapshot.policyID v file
      (.envelope (StoreCall.change stamps (.upsert v.snapshot) payload)) where
  current := by
    rw [getPolicyByID_of_contents rfl, getPolicyByID_eq]
    rw [show (StoreCall.change stamps (.upsert v.snapshot) payload).lookup v.snapshot.policyID =
      some v.snapshot from change_lookup_self stamps (.upsert v.snapshot) payload]
  appended := by
    refine ⟨payload.versions v.snapshot.policyID, stamps.createdAt.unix,
      listPolicyVersions_of_contents contents _, ?_⟩
    rw [listPolicyVersions_of_contents rfl]
    have number := nextVersion_eq (history.numbers v.snapshot.policyID)
    simp [StoreCall.change, Payload.upsertPolicy, number]
  policies := ⟨payload.policies, _, listPolicies_of_contents contents, listPolicies_of_contents rfl,
    Keyed.remove_upsert Policy.policyID v.snapshot payload.policies⟩
  others := by
    intro other different
    have elsewhere : (StoreCall.upsert v.snapshot).policyID ≠ other := Ne.symm different
    refine ⟨?_, ?_, ?_⟩
    · rw [getPolicyByID_of_contents rfl, getPolicyByID_of_contents contents, getPolicyByID_eq,
        getPolicyByID_eq, change_lookup_other stamps _ elsewhere]
    · rw [listPolicyVersions_of_contents rfl, listPolicyVersions_of_contents contents,
        change_versions_other stamps _ elsewhere]
    · rw [listPolicyAudit_of_contents rfl, listPolicyAudit_of_contents contents,
        change_listPolicyAudit_other stamps _ history.distinct elsewhere]

end Restored

/-- After every history of the store: a rollback that succeeds has restored the version it
names, one that fails has done nothing, and no sequence of requests, from any state on,
changes a version that is listed. -/
theorem rollback_restores (requests : List StoreRequest) (fresh : file = .missing ∨ file = .empty)
    (cfg : HandlerConfig) (id : String) {versions : List PolicyVersion} {v : PolicyVersion}
    (listed : (requests.foldl FileRun.step { file }).file.listPolicyVersions {} id = .ok versions)
    (member : v ∈ versions) (clock : Nat → Setting) :
    let before := (requests.foldl FileRun.step { file }).file
    let outcome := (rollback true cfg id (some v.version)).exec performRoute clock before
    (∀ p, outcome.1 = .policy p → p = v.snapshot ∧ RolledBack id v before outcome.2) ∧
      (∀ text status, outcome.1 = .error text status → outcome.2 = before) ∧
      (id ≠ "" → (clock 0).faults = {} → (clock 1).faults = {} → outcome.1 = .policy v.snapshot) ∧
      ∀ (past future : List (WriteRequest × (Nat → Setting))) (policyID : String)
        (kept : List PolicyVersion),
        (served cfg past before).listPolicyVersions {} policyID = .ok kept →
        ∃ added, (served cfg (past ++ future) before).listPolicyVersions {} policyID =
          .ok (kept ++ added) := by
  intro before outcome
  obtain ⟨payload, contents, history⟩ := kept_of_run requests fresh
  have same := listed.symm.trans (listPolicyVersions_of_contents contents id)
  obtain rfl : versions = payload.versions id := Except.ok.inj same
  obtain rfl : v.snapshot.policyID = id := snapshot_policyID history member
  have selected := selectVersion_of_mem history member
  have ended := rollback_cases cfg contents selected clock
  refine ⟨fun p succeeded => ?_, fun text status failed => ?_, fun named readable writable => ?_,
    fun past future policyID kept => ?_⟩
  · rcases ended with ⟨text, status, failed⟩ | written
    · cases succeeded.symm.trans (congrArg Prod.fst failed)
    · have answer := succeeded.symm.trans (congrArg Prod.fst written)
      refine ⟨Response.policy.inj answer, ?_⟩
      rw [show outcome.2 = _ from congrArg Prod.snd written]
      exact rolledBack_of_upsert history contents (clock 1).stamps v
  · rcases ended with ⟨text, status, unchanged⟩ | written
    · exact congrArg Prod.snd unchanged
    · cases failed.symm.trans (congrArg Prod.fst written)
  · exact rollback_clean cfg named contents selected readable writable
  · exact served_versions contents cfg past future

private def firstDraft : Policy := { policyID := "p", name := "first" }

/-- A policy that is written twice and deleted comes back as its first version. -/
theorem rollback_restores_of_deleted :
    ((rollback true {} "p" (some 1)).exec performRoute (fun _ => { stamps := .epoch })
      ([⟨.upsert firstDraft, {}, .epoch⟩, ⟨.upsert { policyID := "p" }, {}, .epoch⟩,
        ⟨.delete "p", {}, .epoch⟩].foldl FileRun.step { file := .missing }).file).1 =
      .policy firstDraft :=
  (rollback_restores [⟨.upsert firstDraft, {}, .epoch⟩,
    ⟨.upsert { policyID := "p" }, {}, .epoch⟩, ⟨.delete "p", {}, .epoch⟩] (.inl rfl) {} "p"
    rfl List.mem_cons_self fun _ => { stamps := .epoch }).2.2.1 (by decide) rfl rfl

end Rlaas.Adapter.ControlPlane
