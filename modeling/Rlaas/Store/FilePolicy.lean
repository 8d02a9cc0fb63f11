import Rlaas.Lib.Keyed
import Rlaas.Model.Types

/-! The JSON file policy store of package `file`: the file as its contents are
read, with the encoding of a payload to disk and back taken to be lossless. -/

set_option autoImplicit false

namespace Rlaas.Store

open Go Model

structure PolicyAuditEntry where
  auditID : String
  policyID : String
  actionType : String
  changedAtUnix : Int
  oldValue : Option Policy
  newValue : Option Policy

structure PolicyVersion where
  policyID : String
  version : Int
  createdAtUnix : Int
  snapshot : Policy

/-- The envelope on disk. A policy without versions has the empty list. -/
structure Payload where
  policies : List Policy := []
  audits : List PolicyAuditEntry := []
  versions : String → List PolicyVersion := fun _ => []

def inNamespace (tenantOrOrg : String) (p : Policy) : Bool :=
  p.scope.tenantID == tenantOrOrg || p.scope.orgID == tenantOrOrg ||
    (p.scope.tenantID == "" && p.scope.orgID == "")

def Payload.loadPolicies (payload : Payload) (tenantOrOrg : String) : List Policy :=
  if tenantOrOrg = "" then payload.policies else payload.policies.filter (inNamespace tenantOrOrg)

/-- The readings of the clock one write makes. -/
structure Stamps where
  createdAt : Time
  auditAt : Time
  changedAt : Time

def Stamps.epoch : Stamps := ⟨⟨0, utc⟩, ⟨0, utc⟩, ⟨0, utc⟩⟩

namespace Payload

def getPolicyByID (payload : Payload) (policyID : String) : Except String Policy :=
  match Keyed.find Policy.policyID policyID payload.policies with
  | some p => .ok p
  | none => .error "policy not found"

/-- One more than the last version. A list of `2 ^ 63` versions does not fit in
memory, so the sum does not overflow. -/
def nextVersion (vv : List PolicyVersion) : Int :=
  match vv.getLast? with
  | some last => last.version + 1
  | none => 1

def auditEntry (stamps : Stamps) (policyID actionType : String) (oldValue newValue : Option Policy) :
    PolicyAuditEntry where
  auditID := "audit-" ++ toString (stamps.auditAt.unixNano .machine)
  policyID
  actionType
  changedAtUnix := stamps.changedAt.unix
  oldValue
  newValue

def upsertPolicy (stamps : Stamps) (p : Policy) (payload : Payload) : Payload :=
  let (oldPolicy, all) := Keyed.upsert Policy.policyID p payload.policies
  let vv := payload.versions p.policyID
  { policies := all
    versions := Function.update payload.versions p.policyID (vv ++
      [{ policyID := p.policyID
         version := nextVersion vv
         createdAtUnix := stamps.createdAt.unix
         snapshot := p }])
    audits := payload.audits ++ [auditEntry stamps p.policyID "upsert" oldPolicy (some p)] }

def deletePolicy (stamps : Stamps) (policyID : String) (payload : Payload) : Payload :=
  let oldPolicy := (payload.policies.filter fun p => p.policyID = policyID).getLast?
  { payload with
    policies := Keyed.remove Policy.policyID policyID payload.policies
    audits := payload.audits ++ [auditEntry stamps policyID "delete" oldPolicy none] }

def listPolicyAudit (payload : Payload) (policyID : String) : List PolicyAuditEntry :=
  payload.audits.filter fun a => a.policyID = policyID

def listPolicyVersions (payload : Payload) (policyID : String) : List PolicyVersion :=
  payload.versions policyID

end Payload

/-- What is found under the store's path. -/
inductive PolicyFile where
  | missing
  | empty
  | envelope (payload : Payload)
  | bare (policies : List Policy)
  | malformed (message : String)

/-- The errors of one call: of `os.ReadFile`, and of encoding the payload,
writing the temporary file or renaming it. -/
structure FileFaults where
  read : Option String := none
  write : Option String := none

namespace PolicyFile

def contents : PolicyFile → Except String Payload
  | .missing => .ok {}
  | .empty => .ok {}
  | .envelope payload => .ok payload
  | .bare policies => .ok { policies }
  | .malformed message => .error message

def readPayload (faults : FileFaults) (file : PolicyFile) : Except String Payload :=
  match file, faults.read with
  | .missing, _ => .ok {}
  | _, some message => .error message
  | file, none => file.contents

def writePayload (faults : FileFaults) (payload : Payload) (file : PolicyFile) :
    Except String Unit × PolicyFile :=
  match faults.write with
  | some message => (.error message, file)
  | none => (.ok (), .envelope payload)

/-- Read the payload, change it and write it back, under the store's lock. -/
def modify (faults : FileFaults) (change : Payload → Payload) (file : PolicyFile) :
    Except String Unit × PolicyFile :=
  match file.readPayload faults with
  | .error message => (.error message, file)
  | .ok payload => file.writePayload faults (change payload)

def upsertPolicy (faults : FileFaults) (stamps : Stamps) (p : Policy) (file : PolicyFile) :
    Except String Unit × PolicyFile :=
  file.modify faults (Payload.upsertPolicy stamps p)

def deletePolicy (faults : FileFaults) (stamps : Stamps) (policyID : String) (file : PolicyFile) :
    Except String Unit × PolicyFile :=
  file.modify faults (Payload.deletePolicy stamps policyID)

def loadPolicies (faults : FileFaults) (tenantOrOrg : String) (file : PolicyFile) :
    Except String (List Policy) := do
  return (← file.readPayload faults).loadPolicies tenantOrOrg

def getPolicyByID (faults : FileFaults) (policyID : String) (file : PolicyFile) :
    Except String Policy := do
  (← file.readPayload faults).getPolicyByID policyID

def listPolicies (faults : FileFaults) (file : PolicyFile) : Except String (List Policy) := do
  return (← file.readPayload faults).policies

def listPolicyAudit (faults : FileFaults) (policyID : String) (file : PolicyFile) :
    Except String (List PolicyAuditEntry) := do
  return (← file.readPayload faults).listPolicyAudit policyID

def listPolicyVersions (faults : FileFaults) (policyID : String) (file : PolicyFile) :
    Except String (List PolicyVersion) := do
  return (← file.readPayload faults).listPolicyVersions policyID

end PolicyFile

end Rlaas.Store
