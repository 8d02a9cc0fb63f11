import Rlaas.Go.Strings

/-! The service configuration: its defaults, how it is read from the environment
and the checks made on it before the server starts. -/

set_option autoImplicit false

namespace Rlaas.Server

open Go

structure TLSConfig where
  enabled : Bool := false
  certFile : String := ""
  keyFile : String := ""

structure AuthConfig where
  enabled : Bool := false
  mode : String := ""
  apiKeys : List String := []
  jwtSecret : String := ""
  jwtIssuer : String := ""
  jwtAudience : String := ""
  oidcIssuerURL : String := ""
  adminRole : String := ""
  readOnlyRole : String := ""
  exemptPaths : List String := []

structure ClusterConfig where
  enabled : Bool := false
  redisMode : String := ""
  redisMasterName : String := ""

structure Config where
  mode : String := ""
  tls : TLSConfig := {}
  auth : AuthConfig := {}
  cluster : ClusterConfig := {}

def defaultConfig : Config where
  mode := "server"
  auth := { exemptPaths := ["/healthz", "/readyz"] }

/-- An error of `fmt.Errorf`: the format and the value printed for its verb. -/
structure ConfigError where
  format : String
  value : Option String := none
  deriving DecidableEq

def AuthConfig.validate (c : AuthConfig) : Except ConfigError Unit :=
  match c.mode with
  | "apikey" =>
      if c.apiKeys.length = 0 then
        .error { format := "config: at least one api_key is required for apikey auth mode" }
      else .ok ()
  | "jwt" =>
      if c.jwtSecret = "" then
        .error { format := "config: jwt_secret is required for jwt auth mode" }
      else .ok ()
  | "oidc" =>
      if c.oidcIssuerURL = "" then
        .error { format := "config: oidc_issuer_url is required for oidc auth mode" }
      else .ok ()
  | other => .error { format := "config: invalid auth mode %q", value := some other }

def ClusterConfig.validate (c : ClusterConfig) : Except ConfigError Unit :=
  if c.redisMode ∉ ["", "single", "cluster", "sentinel"] then
    .error { format := "config: invalid cluster.redis_mode %q", value := some c.redisMode }
  else if c.redisMode = "sentinel" ∧ c.redisMasterName = "" then
    .error { format := "config: cluster.redis_master_name required for sentinel mode" }
  else .ok ()

def TLSConfig.validate (c : TLSConfig) : Except ConfigError Unit :=
  if c.certFile = "" ∨ c.keyFile = "" then
    .error { format := "config: tls.cert_file and tls.key_file are required when tls is enabled" }
  else .ok ()

def validateMode (mode : String) : Except ConfigError Unit :=
  if mode ∉ ["sdk", "server", "sidecar"] then
    .error { format := "config: invalid mode %q (must be sdk, server, or sidecar)",
             value := some mode }
  else .ok ()

def Config.validate (c : Config) : Except ConfigError Unit := do
  validateMode c.mode
  if c.tls.enabled then
    c.tls.validate
  if c.auth.enabled then
    c.auth.validate
  if c.cluster.enabled then
    c.cluster.validate

/-- The environment variable, or the default where it is not set. -/
def orDefault (getenv : String → String) (name default : String) : String :=
  if getenv name ≠ "" then getenv name else default

def splitKeys (value : String) : List String :=
  (Strings.split [','] value.toList).map String.ofList

/-- The fields of `LoadFromEnv` that the checks and the authentication read. -/
def loadFromEnv (getenv : String → String) : Config where
  mode := orDefault getenv "RLAAS_MODE" defaultConfig.mode
  tls := {
    enabled := getenv "RLAAS_TLS_ENABLED" = "true" || defaultConfig.tls.enabled
    certFile := orDefault getenv "RLAAS_TLS_CERT_FILE" defaultConfig.tls.certFile
    keyFile := orDefault getenv "RLAAS_TLS_KEY_FILE" defaultConfig.tls.keyFile }
  auth := {
    enabled := getenv "RLAAS_AUTH_ENABLED" = "true" || defaultConfig.auth.enabled
    mode := orDefault getenv "RLAAS_AUTH_MODE" defaultConfig.auth.mode
    apiKeys :=
      if getenv "RLAAS_AUTH_API_KEYS" ≠ "" then splitKeys (getenv "RLAAS_AUTH_API_KEYS")
      else defaultConfig.auth.apiKeys
    jwtSecret := orDefault getenv "RLAAS_AUTH_JWT_SECRET" defaultConfig.auth.jwtSecret
    jwtIssuer := orDefault getenv "RLAAS_AUTH_JWT_ISSUER" defaultConfig.auth.jwtIssuer
    jwtAudience := orDefault getenv "RLAAS_AUTH_JWT_AUDIENCE" defaultConfig.auth.jwtAudience
    adminRole := orDefault getenv "RLAAS_AUTH_ADMIN_ROLE" defaultConfig.auth.adminRole
    readOnlyRole := orDefault getenv "RLAAS_AUTH_READONLY_ROLE" defaultConfig.auth.readOnlyRole
    oidcIssuerURL :=
      orDefault getenv "RLAAS_AUTH_OIDC_ISSUER_URL" defaultConfig.auth.oidcIssuerURL
    exemptPaths := defaultConfig.auth.exemptPaths }
  cluster := {
    enabled := getenv "RLAAS_CLUSTER_ENABLED" = "true" || defaultConfig.cluster.enabled
    redisMode := orDefault getenv "RLAAS_CLUSTER_REDIS_MODE" defaultConfig.cluster.redisMode
    redisMasterName :=
      orDefault getenv "RLAAS_CLUSTER_SENTINEL_MASTER" defaultConfig.cluster.redisMasterName }

end Rlaas.Server
