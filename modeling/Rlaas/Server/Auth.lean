import Rlaas.Go.HTTP
import Rlaas.Go.Time
import Rlaas.Server.Config

/-! `AuthMiddleware` with its API-key and JWT modes, and its configuration as
`runAll` builds it. -/

set_option autoImplicit false

namespace Rlaas.Server

open Go

inductive AuthMode where
  | apiKey
  | jwt
  | other (name : String)
  deriving DecidableEq

def AuthMode.ofString : String → AuthMode
  | "apikey" => .apiKey
  | "jwt" => .jwt
  | name => .other name

/-- A `map[string]bool` as the code uses it: it is filled with `true` and read,
and an absent key reads as `false`. -/
abbrev KeySet := String → Bool

def KeySet.ofList (keys : List String) : KeySet :=
  keys.foldl (fun set key => Function.update set key true) fun _ => false

structure AuthMiddlewareConfig where
  enabled : Bool := false
  mode : AuthMode
  apiKeys : KeySet := fun _ => false
  jwtSecret : String := ""
  jwtIssuer : String := ""
  jwtAudience : String := ""
  adminRole : String := ""
  readRole : String := ""
  exemptPaths : List String := []

/-- The `authCfg` of `runAll`. -/
def authCfg (cfg : Config) : AuthMiddlewareConfig where
  enabled := cfg.auth.enabled
  mode := .ofString cfg.auth.mode
  apiKeys := if cfg.auth.apiKeys.length > 0 then .ofList cfg.auth.apiKeys else fun _ => false
  jwtSecret := cfg.auth.jwtSecret
  jwtIssuer := cfg.auth.jwtIssuer
  jwtAudience := cfg.auth.jwtAudience
  adminRole := cfg.auth.adminRole
  readRole := cfg.auth.readOnlyRole
  exemptPaths := cfg.auth.exemptPaths

/-- A claim of a decoded token, by the types the code asserts. -/
inductive Claim where
  | text (value : String)
  | number (value : GoFloat)
  | other

abbrev Claims := String → Option Claim

/-- `claims[name].(string)`, empty when the assertion fails. -/
def Claims.text (claims : Claims) (name : String) : String :=
  match claims name with
  | some (.text value) => value
  | _ => ""

/-- The library functions behind the token check. -/
structure TokenLibrary where
  decodeBase64 : String → Option (List UInt8)
  hmacSHA256 : (secret payload : String) → List UInt8
  unmarshal : List UInt8 → Option Claims

inductive AuthError where
  | invalidToken
  | invalidSignature
  | tokenExpired
  | invalidIssuer
  | invalidAudience
  deriving DecidableEq

def validateHS256JWT (lib : TokenLibrary) (unixNow : Int)
    (token secret issuer audience : String) : Except AuthError Claims :=
  match (Strings.split ['.'] token.toList).map String.ofList with
  | [header, body, signature] => do
      let some sig := lib.decodeBase64 signature | throw .invalidToken
      if sig ≠ lib.hmacSHA256 secret (header ++ "." ++ body) then
        throw .invalidSignature
      let some claimsJSON := lib.decodeBase64 body | throw .invalidToken
      let some claims := lib.unmarshal claimsJSON | throw .invalidToken
      if let some (.number exp) := claims "exp" then
        if unixNow > convertInt64 exp then
          throw .tokenExpired
      if issuer ≠ "" ∧ claims.text "iss" ≠ issuer then
        throw .invalidIssuer
      if audience ≠ "" ∧ claims.text "aud" ≠ audience then
        throw .invalidAudience
      return claims
  | _ => .error .invalidToken

def trimBearer (h : String) : String :=
  .ofList (Strings.trimPrefix h.toList "Bearer ".toList)

def extractBearerToken (r : HTTPRequest) : String :=
  let h := r.header "Authorization"
  if "Bearer ".toList.isPrefixOf h.toList then trimBearer h else ""

def isMutatingMethod (method : String) : Bool :=
  method ∈ ["POST", "PUT", "PATCH", "DELETE"]

/-- What becomes of a request: the next handler serves it, or `http.Error`. -/
inductive Verdict where
  | next
  | error (body : String) (status : Nat)
  deriving DecidableEq

/-- The key the API-key mode looks up. -/
def presentedKey (r : HTTPRequest) : String :=
  let key := r.header "X-Api-Key"
  if key = "" then trimBearer (r.header "Authorization") else key

def apiKeyVerdict (cfg : AuthMiddlewareConfig) (r : HTTPRequest) : Verdict :=
  if !cfg.apiKeys (presentedKey r) then .error "\x7b\"error\":\"unauthorized\"\x7d" 401
  else .next

def jwtVerdict (lib : TokenLibrary) (unixNow : Int) (cfg : AuthMiddlewareConfig)
    (r : HTTPRequest) : Verdict :=
  let token := extractBearerToken r
  if token = "" then .error "\x7b\"error\":\"missing bearer token\"\x7d" 401
  else
    match validateHS256JWT lib unixNow token cfg.jwtSecret cfg.jwtIssuer cfg.jwtAudience with
    | .error _ => .error "\x7b\"error\":\"unauthorized\"\x7d" 401
    | .ok claims =>
        if isMutatingMethod r.method ∧ cfg.adminRole ≠ "" ∧ claims.text "role" ≠ cfg.adminRole then
          .error "\x7b\"error\":\"forbidden\"\x7d" 403
        else .next

def authMiddleware (lib : TokenLibrary) (unixNow : Int) (cfg : AuthMiddlewareConfig)
    (r : HTTPRequest) : Verdict :=
  if !cfg.enabled then .next
  else if KeySet.ofList cfg.exemptPaths r.path then .next
  else
    match cfg.mode with
    | .apiKey => apiKeyVerdict cfg r
    | .jwt => jwtVerdict lib unixNow cfg r
    | .other _ => .error "\x7b\"error\":\"auth not configured\"\x7d" 500

end Rlaas.Server
