import Rlaas.Key.Builder
import Rlaas.Lib.Delimited

/-! What the key builder guarantees about the segments of a key: behind the
prefix every segment has an equals sign and no colon. -/

set_option autoImplicit false

namespace Rlaas.Key

open Go Model Delimited

/-- What tells the builder's segments from the algorithms' suffixes. -/
def isSegment (chunk : List Char) : Bool := chunk.contains '='

theorem build_toList (builder : DefaultBuilder) (policy : Policy) (req : RequestContext) :
    (build builder policy req).toList =
      builder.keyPrefix.toList ++ encode ':' (segments builder policy req) := by
  rw [build, String.toList_ofList, Strings.join]
  generalize segments builder policy req = chunks
  generalize builder.keyPrefix.toList = first
  induction chunks generalizing first with
  | nil => simp [encode]
  | cons chunk rest ih =>
      rw [List.intercalate_cons_cons, ih chunk, encode_cons]
      simp

theorem colon_notMem_sanitize (s : String) : ':' ∉ sanitize s := by
  unfold sanitize
  simp only
  split
  · simp
  · simp only [Strings.replaceChar, List.map_map, List.mem_map, Function.comp_apply, not_exists,
      not_and]
    intro c _
    by_cases colon : (if c = ' ' then '_' else c) = ':'
    · simp [colon]
    · simp [colon]

theorem hexDigit_ne_colon (n : Nat) : hexDigit n ≠ ':' := by
  have digits : ∀ c ∈ "0123456789abcdef".toList, c ≠ ':' := by simp
  rw [hexDigit, List.getD_eq_getElem?_getD]
  cases found : "0123456789abcdef".toList[n]? with
  | none => decide
  | some c => exact digits c (List.mem_of_getElem? found)

theorem colon_notMem_hexEncode (bytes : List UInt8) : ':' ∉ hexEncode bytes := by
  simp only [hexEncode, List.mem_flatMap, not_exists, not_and]
  intro byte _ member
  rcases List.mem_cons.mp member with high | low
  · exact hexDigit_ne_colon _ high.symm
  · exact hexDigit_ne_colon _ (List.mem_singleton.mp low).symm

theorem scopedFields_names (scope : PolicyScope) (req : RequestContext) :
    ∀ field ∈ scopedFields scope req, ':' ∉ field.1.toList := by
  simp [scopedFields]

theorem segments_shape (builder : DefaultBuilder) (policy : Policy) (req : RequestContext)
    {chunk : List Char} (member : chunk ∈ segments builder policy req) :
    ':' ∉ chunk ∧ isSegment chunk = true := by
  rcases List.mem_append.mp member with listed | tags
  · obtain ⟨field, among, shape⟩ := List.mem_filterMap.mp listed
    unfold segment at shape
    split at shape
    · cases shape
    · obtain rfl := Option.some.inj shape
      have name := scopedFields_names policy.scope req field among
      have value := colon_notMem_sanitize field.2.2
      simp [isSegment, name, value]
  · split at tags
    · rw [List.mem_singleton.mp tags]
      have digest := colon_notMem_hexEncode
        ((builder.sha1 (tagText req.tags policy.scope.tags)).take 8)
      simp [isSegment, hashTags, digest]
    · cases tags

/-- Keys of one builder with suffixes of plain chunks are equal only if the keys are. -/
theorem build_eq_of_suffixed (builder : DefaultBuilder) {policy policy' : Policy}
    {req req' : RequestContext} {plain plain' : List (List Char)}
    (chunks : ∀ chunk ∈ plain, ':' ∉ chunk ∧ isSegment chunk = false)
    (chunks' : ∀ chunk ∈ plain', ':' ∉ chunk ∧ isSegment chunk = false)
    (same : (build builder policy req).toList ++ encode ':' plain =
      (build builder policy' req').toList ++ encode ':' plain') :
    build builder policy req = build builder policy' req' := by
  rw [build_toList, build_toList, List.append_assoc, List.append_assoc] at same
  have segment : ∀ policy req, ∀ chunk ∈ segments builder policy req,
      ':' ∉ chunk ∧ isSegment chunk = true :=
    fun policy req chunk member => segments_shape builder policy req member
  have equal := marked_eq isSegment
    (fun chunk member => (List.mem_append.mp member).elim
      (fun built => (segment policy req chunk built).1) fun added => (chunks chunk added).1)
    (fun chunk member => (List.mem_append.mp member).elim
      (fun built => (segment policy' req' chunk built).1) fun added => (chunks' chunk added).1)
    (fun chunk member => (segment policy req chunk member).2)
    (fun chunk member => (segment policy' req' chunk member).2)
    (fun chunk member => (chunks chunk member).2) (fun chunk member => (chunks' chunk member).2)
    (List.append_cancel_left same)
  unfold build
  rw [equal]

end Rlaas.Key
