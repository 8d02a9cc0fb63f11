import Rlaas.Server.Auth

/-! What the API-key mode asks of a request: a configured key, which is a
non-empty one only if the configured list has no empty piece. -/

set_option autoImplicit false

namespace Rlaas.Server

open Go

private theorem foldl_update_iff (keys : List String) (set : KeySet) (key : String) :
    keys.foldl (fun set key => Function.update set key true) set key = true ↔
      key ∈ keys ∨ set key = true := by
  induction keys generalizing set with
  | nil => simp
  | cons head tail ih =>
      rw [List.foldl_cons, ih, List.mem_cons]
      by_cases same : key = head
      · simp [same]
      · simp [same]

theorem KeySet.ofList_iff (keys : List String) (key : String) :
    KeySet.ofList keys key = true ↔ key ∈ keys := by
  simp [KeySet.ofList, foldl_update_iff]

theorem authCfg_apiKeys_iff (cfg : Config) (key : String) :
    (authCfg cfg).apiKeys key = true ↔ key ∈ cfg.auth.apiKeys := by
  unfold authCfg
  split
  · exact KeySet.ofList_iff _ _
  · rename_i short
    have empty : cfg.auth.apiKeys = [] := List.length_eq_zero_iff.mp (by omega)
    simp [empty]

/-- A request carries a key in one of the places the middleware looks at. -/
def Presents (r : HTTPRequest) (key : String) : Prop :=
  r.header "X-Api-Key" = key ∨ r.header "Authorization" = key ∨
    r.header "Authorization" = "Bearer " ++ key

theorem eq_empty_of_presents_bare {path key : String} (presented : Presents { path } key) :
    key = "" := by
  rcases presented with direct | plain | marked
  · exact direct.symm
  · exact plain.symm
  · have texts := congrArg String.toList marked
    rw [String.toList_append] at texts
    cases texts

theorem trimBearer_cases (h : String) : h = trimBearer h ∨ h = "Bearer " ++ trimBearer h := by
  unfold trimBearer Strings.trimPrefix
  split
  · rename_i start
    obtain ⟨rest, joined⟩ := List.isPrefixOf_iff_prefix.mp start
    right
    rw [← joined, List.drop_left, ← String.toList_inj, String.toList_append]
    exact joined.symm.trans (congrArg _ String.toList_ofList.symm)
  · left
    rw [String.ofList_toList]

theorem presents_presentedKey (r : HTTPRequest) : Presents r (presentedKey r) := by
  unfold presentedKey
  simp only
  split
  · exact .inr (trimBearer_cases _)
  · exact .inl rfl

theorem authMiddleware_apiKey {cfg : Config} (enabled : cfg.auth.enabled = true)
    (mode : cfg.auth.mode = "apikey") (lib : TokenLibrary) (unixNow : Int) {r : HTTPRequest}
    (guarded : r.path ∉ cfg.auth.exemptPaths) :
    authMiddleware lib unixNow (authCfg cfg) r = .next ↔ presentedKey r ∈ cfg.auth.apiKeys := by
  have notExempt : KeySet.ofList (authCfg cfg).exemptPaths r.path = false :=
    Bool.eq_false_iff.mpr fun exempt => guarded ((KeySet.ofList_iff _ _).mp exempt)
  have selected : (authCfg cfg).mode = .apiKey := by
    simp [authCfg, mode, AuthMode.ofString]
  have active : (authCfg cfg).enabled = true := enabled
  rw [← authCfg_apiKeys_iff]
  simp only [authMiddleware, active, notExempt, selected, apiKeyVerdict]
  cases (authCfg cfg).apiKeys (presentedKey r) <;> simp

private theorem andThen_ok {ε : Type} {first : Except ε Unit} {rest : Unit → Except ε Unit}
    (passed : (first >>= rest) = .ok ()) : rest () = .ok () := by
  cases first with
  | error e => cases passed
  | ok u => exact passed

theorem Config.validate_auth {c : Config} (valid : c.validate = .ok ())
    (enabled : c.auth.enabled = true) : c.auth.validate = .ok () := by
  have afterTLS : (do
      if c.auth.enabled then c.auth.validate
      if c.cluster.enabled then c.cluster.validate) = Except.ok () := by
    have afterMode := andThen_ok valid
    cases secured : c.tls.enabled with
    | true =>
        simp only [secured, if_true] at afterMode
        exact andThen_ok afterMode
    | false => simpa [secured] using afterMode
  simp only [enabled, if_true] at afterTLS
  cases checked : c.auth.validate with
  | error e =>
      rw [checked] at afterTLS
      cases afterTLS
  | ok u => rfl

theorem AuthConfig.validate_apiKeys {c : AuthConfig} (valid : c.validate = .ok ())
    (mode : c.mode = "apikey") : c.apiKeys ≠ [] := by
  intro empty
  simp [AuthConfig.validate, mode, empty] at valid

theorem loadFromEnv_apiKeys {getenv : String → String}
    (configured : (loadFromEnv getenv).auth.apiKeys ≠ []) :
    (loadFromEnv getenv).auth.apiKeys = splitKeys (getenv "RLAAS_AUTH_API_KEYS") := by
  by_cases unset : getenv "RLAAS_AUTH_API_KEYS" = ""
  · exact absurd (by simp [loadFromEnv, unset, defaultConfig]) configured
  · simp [loadFromEnv, unset]

/-- With accepted API-key settings, every request that is passed on presents a
non-empty configured key exactly if no piece of the comma-separated list is empty. -/
theorem authMiddleware_requires_key_iff (lib : TokenLibrary) (unixNow : Int)
    (getenv : String → String) (enabled : (loadFromEnv getenv).auth.enabled = true)
    (mode : (loadFromEnv getenv).auth.mode = "apikey")
    (valid : (loadFromEnv getenv).validate = .ok ()) :
    (∀ r : HTTPRequest, r.path ∉ (loadFromEnv getenv).auth.exemptPaths →
      authMiddleware lib unixNow (authCfg (loadFromEnv getenv)) r = .next →
        ∃ key ∈ (loadFromEnv getenv).auth.apiKeys, key ≠ "" ∧ Presents r key) ↔
      "" ∉ splitKeys (getenv "RLAAS_AUTH_API_KEYS") := by
  have keys := loadFromEnv_apiKeys
    (AuthConfig.validate_apiKeys (Config.validate_auth valid enabled) mode)
  rw [← keys]
  constructor
  · intro required member
    -- A request without headers looks up the empty key.
    let bare : HTTPRequest := { path := "/" }
    have guarded : bare.path ∉ (loadFromEnv getenv).auth.exemptPaths := by
      change "/" ∉ ["/healthz", "/readyz"]
      decide
    have passed := (authMiddleware_apiKey enabled mode lib unixNow guarded).mpr member
    obtain ⟨key, -, nonempty, presented⟩ := required bare guarded passed
    exact nonempty (eq_empty_of_presents_bare presented)
  · intro absent r guarded passed
    have member := (authMiddleware_apiKey enabled mode lib unixNow guarded).mp passed
    refine ⟨presentedKey r, member, ?_, presents_presentedKey r⟩
    intro empty
    exact absent (empty ▸ member)

private def apiKeyEnv (keys : String) : String → String
  | "RLAAS_AUTH_ENABLED" => "true"
  | "RLAAS_AUTH_MODE" => "apikey"
  | "RLAAS_AUTH_API_KEYS" => keys
  | _ => ""

private def noTokens : TokenLibrary where
  decodeBase64 _ := none
  hmacSHA256 _ _ := []
  unmarshal _ := none

theorem authMiddleware_requires_key_of_two_keys :
    (loadFromEnv (apiKeyEnv "k1,k2")).validate = .ok () ∧
      ∀ r : HTTPRequest, r.path ∉ (loadFromEnv (apiKeyEnv "k1,k2")).auth.exemptPaths →
        authMiddleware noTokens 0 (authCfg (loadFromEnv (apiKeyEnv "k1,k2"))) r = .next →
          ∃ key ∈ (loadFromEnv (apiKeyEnv "k1,k2")).auth.apiKeys, key ≠ "" ∧ Presents r key :=
  ⟨by decide, (authMiddleware_requires_key_iff noTokens 0 (apiKeyEnv "k1,k2") (by decide)
    (by decide) (by decide)).mpr (by decide)⟩

/-- A trailing comma configures the empty key, and a request without any
credentials is passed on. -/
theorem authMiddleware_passes_bare_request :
    (loadFromEnv (apiKeyEnv "k1,")).auth.enabled = true ∧
      (loadFromEnv (apiKeyEnv "k1,")).auth.mode = "apikey" ∧
      (loadFromEnv (apiKeyEnv "k1,")).validate = .ok () ∧
      authMiddleware noTokens 0 (authCfg (loadFromEnv (apiKeyEnv "k1,")))
        { path := "/rlaas/v1/check" } = .next ∧
      "/rlaas/v1/check" ∉ (loadFromEnv (apiKeyEnv "k1,")).auth.exemptPaths ∧
      ¬∃ key, key ≠ "" ∧ Presents { path := "/rlaas/v1/check" } key := by
  refine ⟨by decide, by decide, by decide, by decide, by decide, ?_⟩
  rintro ⟨key, nonempty, presented⟩
  exact nonempty (eq_empty_of_presents_bare presented)

end Rlaas.Server
