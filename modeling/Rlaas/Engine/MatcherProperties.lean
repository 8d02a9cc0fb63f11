import Rlaas.Engine.Matcher
import Rlaas.Model.ScopeField

/-! What a scope requires of a request, field by field, and the score of a scope
as the number of its requirements. -/

set_option autoImplicit false

namespace Rlaas.Engine

open Model

theorem matchesScope_iff (req : RequestContext) (s : PolicyScope) :
    matchesScope req s = true ↔
      (∀ field, s.field field ≠ "" → req.field field = s.field field) ∧
        ∀ entry ∈ s.tags.entries, req.tags.get entry.1 = entry.2 := by
  have listed : matchesScope req s =
      ((ScopeField.all.all fun field => matchString (s.field field) (req.field field)) &&
        s.tags.entries.all fun entry => req.tags.get entry.1 == entry.2) := by
    simp [matchesScope, ScopeField.all, PolicyScope.field, RequestContext.field, Bool.and_assoc]
  rw [listed]
  simp only [Bool.and_eq_true, List.all_eq_true, ScopeField.mem_all, true_imp_iff, matchString,
    Bool.or_eq_true, beq_iff_eq]
  refine and_congr_left fun _ => forall_congr' fun field => ?_
  rw [or_iff_not_imp_left]
  exact imp_congr_right fun _ => eq_comm

theorem matchesScope_of_matchesPolicy {req : RequestContext} {p : Policy}
    (matched : matchesPolicy req p = true) : matchesScope req p.scope = true := by
  unfold matchesPolicy at matched
  cases inScope : matchesScope req p.scope with
  | true => rfl
  | false => simp [inScope] at matched

def setFields (s : PolicyScope) : List ScopeField :=
  ScopeField.all.filter fun field => s.field field != ""

theorem mem_setFields {s : PolicyScope} {field : ScopeField} :
    field ∈ setFields s ↔ s.field field ≠ "" := by
  simp [setFields, ScopeField.mem_all]

theorem setFields_nodup (s : PolicyScope) : (setFields s).Nodup :=
  ScopeField.all_nodup.filter _

theorem specificityScore_eq (s : PolicyScope) :
    specificityScore s = 10 * (setFields s).length + s.tags.size := by
  -- The score visits the fields in an order of its own.
  let visited : List ScopeField :=
    [.user, .apiKey, .client, .endpoint, .method, .operation, .service, .app, .tenant, .org,
      .signal, .env, .sourceIP, .region, .resource, .severity, .span, .topic, .consumerGroup,
      .jobType]
  have reordered : visited.Perm ScopeField.all := by decide
  have weights : specificityScore s =
      10 * ((visited.map s.field).filter fun value => value != "").length + s.tags.size := rfl
  rw [weights, List.filter_map, List.length_map]
  exact congrArg (fun length : Nat => (10 * length + s.tags.size : Int))
    (reordered.filter _).length_eq

end Rlaas.Engine
