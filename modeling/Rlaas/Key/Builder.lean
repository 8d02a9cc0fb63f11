import Rlaas.Model.Types
import Rlaas.Go.Strings
import Mathlib.Data.List.Sort

/-! Package `key`: the counter key of a policy and a request. The digest is
`crypto/sha1`, of which the builder keeps the first eight bytes. -/

set_option autoImplicit false

namespace Rlaas.Key

open Go Model

structure DefaultBuilder where
  keyPrefix : String
  sha1 : String → List UInt8

def sanitize (s : String) : List Char :=
  let s := Strings.replaceChar ':' '_' (Strings.replaceChar ' ' '_' s.toList)
  if s.isEmpty then ['_'] else s

def hexDigit (n : Nat) : Char := "0123456789abcdef".toList.getD n '0'

def hexEncode (bytes : List UInt8) : List Char :=
  bytes.flatMap fun byte => [hexDigit (byte.toNat / 16), hexDigit (byte.toNat % 16)]

def tagText (reqTags required : StringMap) : String :=
  String.join ((required.keys.insertionSort (· ≤ ·)).map fun k => k ++ "=" ++ reqTags.get k ++ ";")

def hashTags (sha1 : String → List UInt8) (reqTags required : StringMap) : List Char :=
  hexEncode ((sha1 (tagText reqTags required)).take 8)

/-- The scoped fields in the order the builder visits them: name, scope, value. -/
def scopedFields (scope : PolicyScope) (req : RequestContext) : List (String × String × String) :=
  [("org", scope.orgID, req.orgID),
    ("tenant", scope.tenantID, req.tenantID),
    ("app", scope.application, req.application),
    ("service", scope.service, req.service),
    ("env", scope.environment, req.environment),
    ("signal", scope.signalType, req.signalType),
    ("operation", scope.operation, req.operation),
    ("endpoint", scope.endpoint, req.endpoint),
    ("method", scope.method, req.method),
    ("user", scope.userID, req.userID),
    ("api_key", scope.apiKey, req.apiKey),
    ("client", scope.clientID, req.clientID),
    ("source_ip", scope.sourceIP, req.sourceIP),
    ("region", scope.region, req.region),
    ("resource", scope.resource, req.resource),
    ("severity", scope.severity, req.severity),
    ("span", scope.spanName, req.spanName),
    ("topic", scope.topic, req.topic),
    ("consumer_group", scope.consumerGroup, req.consumerGroup),
    ("job_type", scope.jobType, req.jobType)]

/-- `appendIfScoped`: a segment for a field the scope sets, else none. -/
def segment (field : String × String × String) : Option (List Char) :=
  if field.2.1 = "" then none else some (field.1.toList ++ '=' :: sanitize field.2.2)

def segments (builder : DefaultBuilder) (policy : Policy) (req : RequestContext) : List (List Char) :=
  (scopedFields policy.scope req).filterMap segment ++
    if policy.scope.tags.size > 0 then
      ["tags=".toList ++ hashTags builder.sha1 req.tags policy.scope.tags]
    else []

def build (builder : DefaultBuilder) (policy : Policy) (req : RequestContext) : String :=
  String.ofList (Strings.join [':'] (builder.keyPrefix.toList :: segments builder policy req))

end Rlaas.Key
