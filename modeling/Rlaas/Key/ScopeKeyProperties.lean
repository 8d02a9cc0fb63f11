import Rlaas.Engine.MatcherProperties
import Rlaas.Key.BuilderProperties

/-! The limit key of a matched request is a function of the policy's scope. It
tells two scopes apart up to the characters that `sanitize` replaces and the
text their tags are written as. -/

set_option autoImplicit false

namespace Rlaas.Key

open Go Model Engine Delimited

variable {sha1 : String → List UInt8}
variable {req : RequestContext} {s s' : PolicyScope}

/-- A text as it stands in a key: spaces and colons look like underscores. -/
def blur (text : String) : List Char :=
  text.toList.map fun c => if c = ' ' ∨ c = ':' then '_' else c

/-- The tags of a scope as the digest sees them. -/
def written (tags : StringMap) : String :=
  String.join (tags.entries.map fun entry => entry.1 ++ "=" ++ entry.2 ++ ";")

theorem blur_eq_nil_iff {text : String} : blur text = [] ↔ text = "" := by
  simp [blur]

theorem sanitize_of_set {text : String} (set : text ≠ "") : sanitize text = blur text := by
  have replaced : Strings.replaceChar ':' '_' (Strings.replaceChar ' ' '_' text.toList) =
      blur text := by
    simp only [Strings.replaceChar, blur, List.map_map]
    refine List.map_congr_left fun c _ => ?_
    by_cases space : c = ' '
    · simp [space]
    · simp [space]
  have kept : (blur text).isEmpty = false := by
    rw [List.isEmpty_eq_false_iff]
    exact fun empty => set (blur_eq_nil_iff.mp empty)
  simp [sanitize, replaced, kept]

theorem written_eq_empty_iff {tags : StringMap} : written tags = "" ↔ tags.entries = [] := by
  constructor
  · intro empty
    cases listed : tags.entries with
    | nil => rfl
    | cons entry rest =>
        have text := congrArg String.toList empty
        simp [written, listed] at text
  · intro empty
    simp [written, empty]

theorem tagText_of_matched {tags : StringMap}
    (matched : ∀ entry ∈ tags.entries, req.tags.get entry.1 = entry.2) :
    tagText req.tags tags = written tags := by
  have ordered : tags.keys.insertionSort (· ≤ ·) = tags.keys :=
    (tags.sorted.imp le_of_lt).insertionSort_eq
  rw [tagText, ordered, written, StringMap.keys, List.map_map]
  refine congrArg String.join (List.map_congr_left fun entry member => ?_)
  simp [matched entry member]

/-- The places of a key behind its prefix: the fields, and the tags. -/
def places : List (Option ScopeField) := ScopeField.all.map some ++ [none]

def placeName : Option ScopeField → List Char
  | some field => field.name.toList
  | none => "tags".toList

def label (place : Option ScopeField) (value : List Char) : List Char :=
  placeName place ++ '=' :: value

def content (sha1 : String → List UInt8) (s : PolicyScope) : Option ScopeField → Option (List Char)
  | some field => if s.field field = "" then none else some (blur (s.field field))
  | none => if s.tags.size > 0 then some (hexEncode ((sha1 (written s.tags)).take 8)) else none

theorem segments_of_matched (builder : DefaultBuilder) {policy : Policy}
    (matched : matchesScope req policy.scope = true) :
    segments builder policy req =
      places.filterMap fun place => (content builder.sha1 policy.scope place).map (label place) := by
  obtain ⟨fields, tags⟩ := (matchesScope_iff req policy.scope).mp matched
  have listed : scopedFields policy.scope req =
      ScopeField.all.map fun field => (field.name, policy.scope.field field, req.field field) := rfl
  rw [segments, places, List.filterMap_append, listed, List.filterMap_map, List.filterMap_map]
  refine congrArg₂ (· ++ ·) (List.filterMap_congr fun field _ => ?_) ?_
  · by_cases unset : policy.scope.field field = ""
    · simp [segment, content, unset]
    · simp [segment, content, label, placeName, unset, fields field unset, sanitize_of_set unset]
  · by_cases tagged : policy.scope.tags.size > 0
    · simp [content, label, placeName, tagged, hashTags, tagText_of_matched tags]
    · simp [content, tagged]

/-- The key of a policy, which the requests in its scope have no part in. -/
def scopeKey (builder : DefaultBuilder) (policy : Policy) : String :=
  String.ofList (Strings.join [':'] (builder.keyPrefix.toList ::
    places.filterMap fun place => (content builder.sha1 policy.scope place).map (label place)))

theorem build_eq_scopeKey (builder : DefaultBuilder) {policy : Policy}
    (matched : matchesPolicy req policy = true) :
    build builder policy req = scopeKey builder policy := by
  rw [build, segments_of_matched builder (matchesScope_of_matchesPolicy matched), scopeKey]

/-- Requests that one policy governs are all charged to one key. -/
theorem build_eq_of_matched (builder : DefaultBuilder) (policy : Policy)
    (first second : RequestContext) (matched : matchesPolicy first policy = true)
    (matched' : matchesPolicy second policy = true) :
    build builder policy first = build builder policy second := by
  rw [build_eq_scopeKey builder matched, build_eq_scopeKey builder matched']

private def keyBuilder : DefaultBuilder :=
  { keyPrefix := "rlaas", sha1 := fun text => text.toUTF8.data.toList }

private def orgScoped (org : String) : Policy := { scope := { orgID := org } }

theorem build_eq_of_two_users :
    build keyBuilder (orgScoped "acme") { orgID := "acme", userID := "ann" } =
      build keyBuilder (orgScoped "acme") { orgID := "acme", userID := "bob" } :=
  build_eq_of_matched keyBuilder (orgScoped "acme") _ _ (by decide) (by decide)

theorem mem_places (place : Option ScopeField) : place ∈ places := by
  cases place with
  | none => simp [places]
  | some field => simp [places, ScopeField.mem_all]

theorem places_nodup : places.Nodup := by decide

private theorem placeNames_nodup : (places.map placeName).Nodup := by
  simp [places, placeName, ScopeField.all, ScopeField.name]

private theorem equals_notMem_placeName (place : Option ScopeField) : '=' ∉ placeName place := by
  cases place with
  | none => simp [placeName]
  | some field => cases field <;> simp [placeName, ScopeField.name]

theorem label_injective (place place' : Option ScopeField) (value value' : List Char)
    (same : label place value = label place' value') : place = place' ∧ value = value' := by
  have name : ∀ place value, (label place value).takeWhile (· != '=') = placeName place := by
    intro place value
    rw [label, List.takeWhile_append_of_pos]
    · simp
    · intro c member
      exact bne_iff_ne.mpr fun equal => equals_notMem_placeName place (equal ▸ member)
  have names : placeName place = placeName place' := by
    rw [← name place value, ← name place' value', same]
  have places := List.inj_on_of_nodup_map placeNames_nodup (mem_places place) (mem_places place') names
  rw [label, label, names] at same
  exact ⟨places, (List.cons.inj (List.append_cancel_left same)).2⟩

private theorem hexDigit_injective {m n : Nat} (small : m < 16) (small' : n < 16)
    (same : hexDigit m = hexDigit n) : m = n := by
  have distinct : "0123456789abcdef".toList.Nodup := by simp
  have length : "0123456789abcdef".toList.length = 16 := by simp
  rw [hexDigit, hexDigit, List.getD_eq_getElem?_getD, List.getD_eq_getElem?_getD,
    List.getElem?_eq_getElem (length ▸ small), List.getElem?_eq_getElem (length ▸ small')] at same
  exact distinct.getElem_inj_iff.mp same

theorem hexEncode_injective {bytes bytes' : List UInt8} (same : hexEncode bytes = hexEncode bytes') :
    bytes = bytes' := by
  induction bytes generalizing bytes' with
  | nil =>
      cases bytes' with
      | nil => rfl
      | cons byte' rest' => simp [hexEncode] at same
  | cons byte rest ih =>
      cases bytes' with
      | nil => simp [hexEncode] at same
      | cons byte' rest' =>
          simp only [hexEncode, List.flatMap_cons, List.cons_append, List.nil_append,
            List.cons.injEq] at same
          obtain ⟨high, low, tail⟩ := same
          have bound := byte.toNat_lt
          have bound' := byte'.toNat_lt
          have upper := hexDigit_injective (by omega) (by omega) high
          have lower := hexDigit_injective (by omega) (by omega) low
          have equal : byte = byte' := UInt8.toNat_inj.mp (by omega)
          rw [equal, ih tail]

/-- Different scopes that a key does not tell apart. -/
structure Confusable (s s' : PolicyScope) : Prop where
  different : s ≠ s'
  fields : ∀ field, blur (s.field field) = blur (s'.field field)
  tags : written s.tags = written s'.tags

private theorem blur_eq_of_content {field : ScopeField}
    (same : content sha1 s (some field) = content sha1 s' (some field)) :
    blur (s.field field) = blur (s'.field field) := by
  simp only [content] at same
  split at same
  · next unset =>
      split at same
      · next unset' => rw [unset, unset']
      · cases same
  · split at same
    · cases same
    · exact Option.some.inj same

private theorem written_eq_of_content
    (digest : s.tags.size > 0 → s'.tags.size > 0 →
      (sha1 (written s.tags)).take 8 = (sha1 (written s'.tags)).take 8 →
      written s.tags = written s'.tags) (same : content sha1 s none = content sha1 s' none) :
    written s.tags = written s'.tags := by
  have untagged : ∀ tags : StringMap, ¬tags.size > 0 → written tags = "" := by
    intro tags none
    exact written_eq_empty_iff.mpr (List.length_eq_zero_iff.mp (Nat.eq_zero_of_not_pos none))
  simp only [content] at same
  split at same
  · next tagged =>
      split at same
      · next tagged' => exact digest tagged tagged' (hexEncode_injective (Option.some.inj same))
      · cases same
  · next none =>
      split at same
      · cases same
      · next none' => rw [untagged _ none, untagged _ none']

private theorem content_eq_of_confusable (confusable : Confusable s s') :
    content sha1 s = content sha1 s' := by
  funext place
  cases place with
  | some field =>
      have unset : s.field field = "" ↔ s'.field field = "" := by
        rw [← blur_eq_nil_iff, confusable.fields field, blur_eq_nil_iff]
      simp only [content, unset, confusable.fields field]
  | none =>
      have tagged : s.tags.size > 0 ↔ s'.tags.size > 0 := by
        rw [gt_iff_lt, gt_iff_lt, StringMap.size, StringMap.size, List.length_pos_iff,
          List.length_pos_iff, ne_eq, ne_eq, ← written_eq_empty_iff, confusable.tags,
          written_eq_empty_iff]
      simp only [content, tagged, confusable.tags]

/-- Policies of different scopes charge different keys, whatever requests they
match, unless their scopes differ only where a key does not show it. -/
theorem keys_apart_iff (builder : DefaultBuilder) (p p' : Policy) (req req' : RequestContext)
    (matched : matchesPolicy req p = true) (matched' : matchesPolicy req' p' = true)
    (digest : p.scope.tags.size > 0 → p'.scope.tags.size > 0 →
      (builder.sha1 (tagText req.tags p.scope.tags)).take 8 =
        (builder.sha1 (tagText req'.tags p'.scope.tags)).take 8 →
      tagText req.tags p.scope.tags = tagText req'.tags p'.scope.tags) :
    (p.scope ≠ p'.scope → build builder p req ≠ build builder p' req') ↔
      ¬Confusable p.scope p'.scope := by
  have inScope := matchesScope_of_matchesPolicy matched
  have inScope' := matchesScope_of_matchesPolicy matched'
  rw [tagText_of_matched ((matchesScope_iff _ _).mp inScope).2,
    tagText_of_matched ((matchesScope_iff _ _).mp inScope').2] at digest
  constructor
  · intro apart confusable
    refine apart confusable.different ?_
    unfold build
    rw [segments_of_matched builder inScope, segments_of_matched builder inScope',
      content_eq_of_confusable confusable]
  · intro distinguishable different same
    have texts := congrArg String.toList same
    rw [build_toList, build_toList] at texts
    have chunks := encode_injective
      (fun chunk member => (segments_shape builder p req member).1)
      (fun chunk member => (segments_shape builder p' req' member).1)
      (List.append_cancel_left texts)
    rw [segments_of_matched builder inScope, segments_of_matched builder inScope'] at chunks
    have contents := labelled_injective label_injective places_nodup chunks
    exact distinguishable
      { different
        fields := fun field => blur_eq_of_content (contents (some field) (mem_places _))
        tags := written_eq_of_content digest (contents none (mem_places _)) }

theorem keys_apart_of_two_orgs :
    build keyBuilder (orgScoped "acme") { orgID := "acme" } ≠
      build keyBuilder (orgScoped "globex") { orgID := "globex" } :=
  (keys_apart_iff keyBuilder (orgScoped "acme") (orgScoped "globex") { orgID := "acme" }
    { orgID := "globex" } (by decide) (by decide) (fun tagged => absurd tagged (by decide))).mpr
    (fun confusable => absurd (confusable.fields .org) (by decide)) (by decide)

/-- Two organisations whose policies share a key. -/
theorem keys_collide :
    (orgScoped "acme corp").scope ≠ (orgScoped "acme_corp").scope ∧
      matchesPolicy { orgID := "acme corp" } (orgScoped "acme corp") = true ∧
      matchesPolicy { orgID := "acme_corp" } (orgScoped "acme_corp") = true ∧
      build keyBuilder (orgScoped "acme corp") { orgID := "acme corp" } =
        build keyBuilder (orgScoped "acme_corp") { orgID := "acme_corp" } := by
  decide

end Rlaas.Key
