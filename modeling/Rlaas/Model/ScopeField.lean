import Rlaas.Model.Types

/-! The twenty text fields that a policy scope and a request have in common. The
matcher, the score and the key builder each list them in their own way; here
they are one index type. -/

set_option autoImplicit false

namespace Rlaas.Model

inductive ScopeField where
  | org
  | tenant
  | app
  | service
  | env
  | signal
  | operation
  | endpoint
  | method
  | user
  | apiKey
  | client
  | sourceIP
  | region
  | resource
  | severity
  | span
  | topic
  | consumerGroup
  | jobType
  deriving DecidableEq

namespace ScopeField

def all : List ScopeField :=
  [.org, .tenant, .app, .service, .env, .signal, .operation, .endpoint, .method, .user, .apiKey,
    .client, .sourceIP, .region, .resource, .severity, .span, .topic, .consumerGroup, .jobType]

theorem mem_all (field : ScopeField) : field ∈ all := by
  cases field <;> decide

theorem all_nodup : all.Nodup := by decide

/-- The name of the field in a limit key. -/
def name : ScopeField → String
  | .org => "org"
  | .tenant => "tenant"
  | .app => "app"
  | .service => "service"
  | .env => "env"
  | .signal => "signal"
  | .operation => "operation"
  | .endpoint => "endpoint"
  | .method => "method"
  | .user => "user"
  | .apiKey => "api_key"
  | .client => "client"
  | .sourceIP => "source_ip"
  | .region => "region"
  | .resource => "resource"
  | .severity => "severity"
  | .span => "span"
  | .topic => "topic"
  | .consumerGroup => "consumer_group"
  | .jobType => "job_type"

end ScopeField

def PolicyScope.field (s : PolicyScope) : ScopeField → String
  | .org => s.orgID
  | .tenant => s.tenantID
  | .app => s.application
  | .service => s.service
  | .env => s.environment
  | .signal => s.signalType
  | .operation => s.operation
  | .endpoint => s.endpoint
  | .method => s.method
  | .user => s.userID
  | .apiKey => s.apiKey
  | .client => s.clientID
  | .sourceIP => s.sourceIP
  | .region => s.region
  | .resource => s.resource
  | .severity => s.severity
  | .span => s.spanName
  | .topic => s.topic
  | .consumerGroup => s.consumerGroup
  | .jobType => s.jobType

def RequestContext.field (req : RequestContext) : ScopeField → String
  | .org => req.orgID
  | .tenant => req.tenantID
  | .app => req.application
  | .service => req.service
  | .env => req.environment
  | .signal => req.signalType
  | .operation => req.operation
  | .endpoint => req.endpoint
  | .method => req.method
  | .user => req.userID
  | .apiKey => req.apiKey
  | .client => req.clientID
  | .sourceIP => req.sourceIP
  | .region => req.region
  | .resource => req.resource
  | .severity => req.severity
  | .span => req.spanName
  | .topic => req.topic
  | .consumerGroup => req.consumerGroup
  | .jobType => req.jobType

/-- A request with given values of the fields and given tags. -/
def RequestContext.ofFields (value : ScopeField → String) (tags : StringMap) : RequestContext where
  orgID := value .org
  tenantID := value .tenant
  application := value .app
  service := value .service
  environment := value .env
  signalType := value .signal
  operation := value .operation
  endpoint := value .endpoint
  method := value .method
  userID := value .user
  apiKey := value .apiKey
  clientID := value .client
  sourceIP := value .sourceIP
  region := value .region
  resource := value .resource
  severity := value .severity
  spanName := value .span
  topic := value .topic
  consumerGroup := value .consumerGroup
  jobType := value .jobType
  tags

@[simp] theorem RequestContext.field_ofFields (value : ScopeField → String) (tags : StringMap)
    (field : ScopeField) : (RequestContext.ofFields value tags).field field = value field := by
  cases field <;> rfl

@[simp] theorem RequestContext.tags_ofFields (value : ScopeField → String) (tags : StringMap) :
    (RequestContext.ofFields value tags).tags = tags := rfl

end Rlaas.Model
