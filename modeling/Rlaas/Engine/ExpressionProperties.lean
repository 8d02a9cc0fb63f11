import Rlaas.Engine.Matcher
import Rlaas.Go.StringsProperties
import Rlaas.Model.ScopeField

/-! Match expressions: what the text of a list of conditions evaluates to, and which
conditions the reading by substrings takes for others. -/

set_option autoImplicit false

namespace Rlaas.Engine

open Go Model Strings

/-- A field that an expression can ask for. -/
inductive ExprField where
  | scope (field : ScopeField)
  | tag (name : List Char)
  deriving DecidableEq

namespace ExprField

def scopeText : ScopeField → String
  | .org => "org_id"
  | .tenant => "tenant_id"
  | .app => "application"
  | .service => "service"
  | .env => "environment"
  | .signal => "signal_type"
  | .operation => "operation"
  | .endpoint => "endpoint"
  | .method => "method"
  | .user => "user_id"
  | .apiKey => "api_key"
  | .client => "client_id"
  | .sourceIP => "source_ip"
  | .region => "region"
  | .resource => "resource"
  | .severity => "severity"
  | .span => "span_name"
  | .topic => "topic"
  | .consumerGroup => "consumer_group"
  | .jobType => "job_type"

def text : ExprField → List Char
  | .scope field => (scopeText field).toList
  | .tag name => "tag.".toList ++ name

def value (req : RequestContext) : ExprField → String
  | .scope field => req.field field
  | .tag name => req.tags.get (String.ofList name)

theorem scopeText_ne_tag (field : ScopeField) (name : List Char) :
    "tag.".toList ++ name ≠ (scopeText field).toList := by
  intro same
  have start : "tag.".toList = (scopeText field).toList.take 4 := congrArg (List.take 4) same
  cases field <;> exact absurd start (by decide)

theorem resolveExprField_of_ne {g : List Char} (other : ∀ field, g ≠ (scopeText field).toList)
    (req : RequestContext) :
    resolveExprField req g =
      if "tag.".toList.isPrefixOf g then req.tags.get (String.ofList (g.drop 4)) else "" := by
  unfold resolveExprField
  refine (if_neg (other .org)).trans <| (if_neg (other .tenant)).trans ?_
  refine (if_neg (other .app)).trans <| (if_neg (other .service)).trans ?_
  refine (if_neg (other .env)).trans <| (if_neg (other .signal)).trans ?_
  refine (if_neg (other .operation)).trans <| (if_neg (other .endpoint)).trans ?_
  refine (if_neg (other .method)).trans <| (if_neg (other .user)).trans ?_
  refine (if_neg (other .apiKey)).trans <| (if_neg (other .client)).trans ?_
  refine (if_neg (other .sourceIP)).trans <| (if_neg (other .region)).trans ?_
  refine (if_neg (other .resource)).trans <| (if_neg (other .severity)).trans ?_
  refine (if_neg (other .span)).trans <| (if_neg (other .topic)).trans ?_
  refine (if_neg (other .consumerGroup)).trans <| (if_neg (other .jobType)).trans ?_
  rfl

theorem resolveExprField_text (req : RequestContext) (field : ExprField) :
    resolveExprField req field.text = field.value req := by
  cases field with
  | scope field => cases field <;> rfl
  | tag name =>
      rw [text, resolveExprField_of_ne fun field => scopeText_ne_tag field name]
      rfl

/-- A text that names no field reads as empty. -/
theorem resolveExprField_cases (g : List Char) :
    (∃ field : ExprField, g = field.text) ∨ ∀ req, resolveExprField req g = "" := by
  by_cases listed : ∃ field, g = (scopeText field).toList
  · obtain ⟨field, same⟩ := listed
    exact .inl ⟨.scope field, same⟩
  · have other : ∀ field, g ≠ (scopeText field).toList := fun field same => listed ⟨field, same⟩
    by_cases tagged : "tag.".toList.isPrefixOf g = true
    · obtain ⟨name, same⟩ := List.isPrefixOf_iff_prefix.mp tagged
      exact .inl ⟨.tag name, same.symm⟩
    · refine .inr fun req => ?_
      rw [resolveExprField_of_ne other, if_neg tagged]

/-- A request in which one field has a value and every other one is empty. -/
def only (w : String) : ExprField → RequestContext
  | .scope field => .ofFields (fun other => if other = field then w else "") .empty
  | .tag name => .ofFields (fun _ => "") (StringMap.empty.insert (String.ofList name) w)

theorem value_only (field other : ExprField) (w : String) :
    other.value (field.only w) = if other = field then w else "" := by
  cases field with
  | scope field =>
      cases other with
      | scope other => simp [value, only]
      | tag name => simp [value, only, StringMap.get, StringMap.empty]
  | tag name =>
      cases other with
      | scope other => simp [value, only]
      | tag other =>
          by_cases same : other = name
          · simp [value, only, same]
          · have different : String.ofList other ≠ String.ofList name := fun equal =>
              same (String.ofList_inj.mp equal)
            rw [value, only, RequestContext.tags_ofFields, StringMap.get_insert_other _ _ different]
            simp [StringMap.get, StringMap.empty, same]

theorem resolve_only_self (field : ExprField) (w : String) :
    resolveExprField (field.only w) field.text = w := by
  rw [resolveExprField_text, value_only, if_pos rfl]

theorem resolve_only_other {field : ExprField} {g : List Char} (different : g ≠ field.text)
    (w : String) : resolveExprField (field.only w) g = "" := by
  rcases resolveExprField_cases g with ⟨other, rfl⟩ | empty
  · rw [resolveExprField_text, value_only, if_neg fun same => different (congrArg text same)]
  · exact empty _

end ExprField

inductive Comparison where
  | eq
  | ne
  deriving DecidableEq

namespace Comparison

def text : Comparison → List Char
  | .eq => "==".toList
  | .ne => "!=".toList

def holds (left right : String) : Comparison → Bool
  | .eq => left == right
  | .ne => left != right

end Comparison

structure Condition where
  field : ExprField
  op : Comparison
  value : List Char

namespace Condition

variable {c : Condition}

/-- The text `f op v`. -/
def text (c : Condition) : List Char := c.field.text ++ ' ' :: (c.op.text ++ ' ' :: c.value)

def holds (req : RequestContext) (c : Condition) : Bool :=
  c.op.holds (c.field.value req) (String.ofList c.value)

/-- The conditions that an expression is written for. -/
structure WellFormed (c : Condition) : Prop where
  name : ∀ name, c.field = .tag name → ∀ ch ∈ name, ch ≠ ' ' ∧ ch ≠ '=' ∧ ch ≠ '!' ∧ ch ≠ '&'
  joined : ¬Contains ['&', '&'] c.value
  spaced : Trimmed isSpace c.value
  quoted : Trimmed quotes c.value

/-- The conditions whose text is read as it is meant, wherever it stands. -/
structure Unambiguous (c : Condition) : Prop where
  operator : c.op = .ne → ¬Contains ['=', '='] c.value
  ending : c.value.getLast? ≠ some '&'
  trimmed : ∀ ch ∈ c.field.text.getLast?, isSpace ch = false

theorem plain_of_all {text : List Char}
    (all : text.all (fun ch => ch != ' ' && ch != '=' && ch != '!' && ch != '&') = true) :
    ∀ ch ∈ text, ch ≠ ' ' ∧ ch ≠ '=' ∧ ch ≠ '!' ∧ ch ≠ '&' := by
  simpa [and_assoc] using all

theorem WellFormed.plain (formed : c.WellFormed) :
    ∀ ch ∈ c.field.text, ch ≠ ' ' ∧ ch ≠ '=' ∧ ch ≠ '!' ∧ ch ≠ '&' := by
  cases shape : c.field with
  | scope field => cases field <;> exact plain_of_all (by decide)
  | tag name =>
      intro ch member
      rcases List.mem_append.mp member with fixed | own
      · exact plain_of_all (by decide : "tag.".toList.all _ = true) ch fixed
      · exact formed.name name shape ch own

theorem WellFormed.equals_notMem (formed : c.WellFormed) : '=' ∉ c.field.text :=
  fun member => (formed.plain _ member).2.1 rfl

theorem WellFormed.bang_notMem (formed : c.WellFormed) : '!' ∉ c.field.text :=
  fun member => (formed.plain _ member).2.2.1 rfl

theorem WellFormed.ampersand_notMem (formed : c.WellFormed) :
    '&' ∉ c.field.text := fun member => (formed.plain _ member).2.2.2 rfl

end Condition

theorem ExprField.text_head (field : ExprField) :
    ∃ first rest, field.text = first :: rest ∧ isSpace first = false ∧ first ≠ '&' := by
  cases field with
  | scope field => cases field <;> exact ⟨_, _, rfl, by decide, by decide⟩
  | tag name => exact ⟨'t', _, rfl, by decide, by decide⟩

/-- What is compared with the field. -/
def readValue (right : List Char) : String := String.ofList (trimFunc quotes (trimSpace right))

section Clause

variable {f r : List Char} {op : Comparison}

theorem readValue_rdropWhile (r : List Char) : readValue (r.rdropWhile isSpace) = readValue r := by
  rw [readValue, trimSpace, trimFunc_rdropWhile]
  rfl

/-- A clause is read at its operator if the field is free of operators and, before `!=`,
nothing is taken for `==`. -/
theorem evaluateClause_eq (some : f ≠ []) (start : ∀ ch ∈ f.head?, isSpace ch = false)
    (equals : '=' ∉ f) (bang : '!' ∉ f) (unread : op = .ne → Apart '=' '=' ('=' :: r))
    (req : RequestContext) :
    evaluateClause req (trimSpace (f ++ ' ' :: (op.text ++ r))) =
      .some (op.holds (resolveExprField req (trimSpace (f ++ [' ']))) (readValue r)) := by
  have lead : Trimmed isSpace (f ++ ' ' :: op.text) := by
    constructor
    · rw [List.head?_append_of_ne_nil _ some]
      exact start
    · cases op <;> simp [Comparison.text, isSpace]
  have shape : f ++ ' ' :: (op.text ++ r) = f ++ ' ' :: op.text ++ r := by simp
  rw [shape, trimSpace, trimFunc_append lead (by simp) r, ← readValue_rdropWhile r]
  have kept : op = .ne → Apart '=' '=' ('=' :: r.rdropWhile isSpace) := by
    intro ne
    have whole := unread ne
    rw [← @List.rdropWhile_append_rtakeWhile _ isSpace r, ← List.cons_append] at whole
    exact (apart_append.mp whole).1
  generalize r.rdropWhile isSpace = tail at kept ⊢
  have field := apart_of_not_mem (y := '=') equals
  cases op with
  | eq =>
      have first : Apart '=' '=' (f ++ [' '] ++ ['=']) := by
        simp [apart_append, apart_cons, field]
      have split := splitOnce_first first tail
      simp only [List.append_assoc, List.singleton_append] at split
      simp [evaluateClause, Comparison.text, split, Comparison.holds, readValue]
  | ne =>
      have none : Apart '=' '=' (f ++ ' ' :: '!' :: '=' :: tail) := by
        rw [apart_append, apart_cons, apart_cons]
        exact ⟨field, ⟨by simp, by simp, kept rfl⟩, by simp⟩
      have first : Apart '!' '=' (f ++ [' '] ++ ['!']) := by
        simp [apart_append, apart_cons, apart_of_not_mem bang]
      have split := splitOnce_first first tail
      simp only [List.append_assoc, List.singleton_append] at split
      simp [evaluateClause, Comparison.text, splitOnce_apart none, split, Comparison.holds,
        readValue]

end Clause

theorem evaluateClauses_read {req : RequestContext} {raw : List Char} {result : Bool}
    (read : evaluateClause req (trimSpace raw) = some result) (rest : List (List Char)) :
    evaluateClauses req (raw :: rest) =
      if result then evaluateClauses req rest else .ok false := by
  have some : (trimSpace raw).isEmpty = false := by
    cases shape : trimSpace raw with
    | nil =>
        rw [shape] at read
        cases read
    | cons first others => rfl
  rw [evaluateClauses]
  simp only [some, Bool.false_eq_true, if_false, read]
  cases result with
  | true => rfl
  | false => rfl

section Conditions

variable {c : Condition}

theorem apart_equals_blank {text : List Char} (apart : Apart '=' '=' text) :
    Apart '=' '=' ('=' :: ' ' :: text) := by
  rw [apart_cons, apart_cons]
  exact ⟨by simp, by simp, apart⟩

theorem Condition.WellFormed.value_read (formed : c.WellFormed) :
    readValue (' ' :: c.value) = String.ofList c.value := by
  have spaced : trimSpace (' ' :: c.value) = c.value := by
    rw [trimSpace, trimFunc_cons (by decide), trimFunc_eq_self formed.spaced]
  rw [readValue, spaced, trimFunc_eq_self formed.quoted]

/-- A field is read up to the operator behind it, but for the blanks that the name of a tag may
end in. -/
theorem Condition.WellFormed.read_operator (formed : c.WellFormed) {r : List Char}
    (unread : c.op = .ne → Apart '=' '=' ('=' :: r)) (req : RequestContext) :
    evaluateClause req (trimSpace (c.field.text ++ ' ' :: (c.op.text ++ r))) =
      some (c.op.holds (resolveExprField req (trimSpace c.field.text)) (readValue r)) := by
  obtain ⟨first, rest, shape, kept, _⟩ := c.field.text_head
  have ended : trimSpace (c.field.text ++ [' ']) = trimSpace c.field.text :=
    trimFunc_concat (by decide)
  rw [evaluateClause_eq (by simp [shape]) (by simp [shape, kept]) formed.equals_notMem
    formed.bang_notMem unread, ended]

theorem Condition.WellFormed.clause_read (formed : c.WellFormed)
    (operator : c.op = .ne → ¬Contains ['=', '='] c.value) (req : RequestContext) :
    evaluateClause req (trimSpace c.text) =
      some (c.op.holds (resolveExprField req (trimSpace c.field.text))
        (String.ofList c.value)) := by
  have unread : c.op = .ne → Apart '=' '=' ('=' :: ' ' :: c.value) := fun ne =>
    apart_equals_blank (not_contains_iff.mp (operator ne))
  rw [Condition.text, formed.read_operator unread, formed.value_read]

theorem Condition.trimSpace_field (trimmed : ∀ ch ∈ c.field.text.getLast?, isSpace ch = false) :
    trimSpace c.field.text = c.field.text := by
  obtain ⟨first, rest, shape, kept, _⟩ := c.field.text_head
  exact trimFunc_eq_self ⟨by simp [shape, kept], trimmed⟩

theorem Condition.WellFormed.apart_text (formed : c.WellFormed) : Apart '&' '&' c.text := by
  have field : Apart '&' '&' c.field.text := apart_of_not_mem formed.ampersand_notMem
  have value : Apart '&' '&' c.value := not_contains_iff.mp formed.joined
  have op : Apart '&' '&' (c.op.text ++ ' ' :: c.value) := by
    cases c.op <;> simp [Comparison.text, apart_cons, value]
  rw [Condition.text, apart_append, apart_cons]
  refine ⟨field, ⟨by simp, op⟩, by simp⟩

theorem Condition.WellFormed.apart_text_concat (formed : c.WellFormed)
    (ending : c.value.getLast? ≠ some '&') : Apart '&' '&' (c.text ++ ['&']) := by
  have last : c.text.getLast? ≠ some '&' := by
    cases ended : c.value.getLast? with
    | none => simp [Condition.text, List.getLast?_cons, ended]
    | some ch =>
        rw [ended] at ending
        simpa [Condition.text, List.getLast?_cons, ended] using ending
  rw [apart_append]
  exact ⟨formed.apart_text, by simp [apart_cons], fun both => last both.1⟩

end Conditions

/-- The text of conditions joined by `&&`. -/
def expression (conditions : List Condition) : List Char :=
  join "&&".toList (conditions.map Condition.text)

theorem evaluateClauses_conditions {conditions : List Condition}
    (formed : ∀ c ∈ conditions, c.WellFormed)
    (operator : ∀ c ∈ conditions, c.op = .ne → ¬Contains ['=', '='] c.value)
    (trimmed : ∀ c ∈ conditions, ∀ ch ∈ c.field.text.getLast?, isSpace ch = false)
    (req : RequestContext) :
    evaluateClauses req (conditions.map Condition.text) =
      .ok (conditions.all (Condition.holds req)) := by
  induction conditions with
  | nil => rfl
  | cons c rest ih =>
      have read := (formed c List.mem_cons_self).clause_read (operator c List.mem_cons_self) req
      rw [Condition.trimSpace_field (trimmed c List.mem_cons_self),
        ExprField.resolveExprField_text] at read
      have later := ih (fun other member => formed other (List.mem_cons_of_mem _ member))
        (fun other member => operator other (List.mem_cons_of_mem _ member))
        (fun other member => trimmed other (List.mem_cons_of_mem _ member))
      rw [List.map_cons, evaluateClauses_read read, later, List.all_cons, Condition.holds]
      cases c.op.holds (c.field.value req) (String.ofList c.value) with
      | true => rfl
      | false => rfl

/-- Conditions are read back if each is unambiguous; what the last one ends in does not
matter. -/
theorem evaluateExpression_conditions {conditions : List Condition}
    (formed : ∀ c ∈ conditions, c.WellFormed)
    (operator : ∀ c ∈ conditions, c.op = .ne → ¬Contains ['=', '='] c.value)
    (trimmed : ∀ c ∈ conditions, ∀ ch ∈ c.field.text.getLast?, isSpace ch = false)
    (ending : ∀ c ∈ conditions.dropLast, c.value.getLast? ≠ some '&') (req : RequestContext) :
    evaluateExpression req (expression conditions) =
      .ok (conditions.all (Condition.holds req)) := by
  cases conditions with
  | nil => rfl
  | cons first rest =>
      have parts : split ['&', '&'] (join ['&', '&'] ((first :: rest).map Condition.text)) =
          (first :: rest).map Condition.text := by
        refine split_join (by simp) ?_ ?_
        · intro part member
          obtain ⟨c, inside, rfl⟩ := List.mem_map.mp member
          exact (formed c inside).apart_text
        · intro part member
          rw [← List.map_dropLast] at member
          obtain ⟨c, inside, rfl⟩ := List.mem_map.mp member
          exact (formed c (List.dropLast_subset _ inside)).apart_text_concat (ending c inside)
      refine Eq.trans ?_ (evaluateClauses_conditions formed operator trimmed req)
      exact congrArg (evaluateClauses req) parts

section Misread

variable {c : Condition}

theorem Comparison.holds_ne (op : Comparison) {left right v : String} (differs : left ≠ v)
    (equals : right = v) : op.holds left v ≠ op.holds right v := by
  cases op <;> simp [Comparison.holds, differs, equals]

theorem evaluateClauses_single {req : RequestContext} {raw : List Char} {result : Bool}
    (read : evaluateClause req (trimSpace raw) = some result) :
    evaluateClauses req [raw] = .ok result := by
  rw [evaluateClauses_read read]
  cases result with
  | true => rfl
  | false => rfl

theorem Condition.WellFormed.evaluateExpression_single (formed : c.WellFormed)
    (req : RequestContext) :
    evaluateExpression req (expression [c]) = evaluateClauses req [c.text] := by
  have parts : split ['&', '&'] (join ['&', '&'] [c.text]) = [c.text] :=
    split_join (by simp) (by simpa using formed.apart_text) (by simp)
  exact congrArg (evaluateClauses req) parts

theorem Condition.all_holds_only (w : String) :
    [c].all (Condition.holds (c.field.only w)) = c.op.holds w (String.ofList c.value) := by
  simp [Condition.holds, ExprField.value_only]

/-- Blanks at the end of a name are cut off, and another tag is looked up. -/
theorem Condition.WellFormed.misread_field (formed : c.WellFormed)
    (operator : c.op = .ne → ¬Contains ['=', '='] c.value) {blank : Char}
    (ended : c.field.text.getLast? = some blank) (isBlank : isSpace blank = true) :
    ∃ req, evaluateExpression req (expression [c]) ≠ .ok ([c].all (Condition.holds req)) := by
  have shorter : trimSpace c.field.text ≠ c.field.text := by
    obtain ⟨init, shape⟩ := List.getLast?_eq_some_iff.mp ended
    intro same
    have bound := length_trimFunc_le isSpace init
    have cut : trimSpace (init ++ [blank]) = trimSpace init := trimFunc_concat isBlank
    rw [shape, cut] at same
    have lengths := congrArg List.length same
    rw [trimSpace, List.length_append, List.length_singleton] at lengths
    omega
  have evaluated : ∀ w, evaluateExpression (c.field.only w) (expression [c]) =
      .ok (c.op.holds "" (String.ofList c.value)) := by
    intro w
    have read := formed.clause_read operator (c.field.only w)
    rw [ExprField.resolve_only_other shorter] at read
    rw [formed.evaluateExpression_single, evaluateClauses_single read]
  by_cases empty : String.ofList c.value = ""
  · refine ⟨c.field.only "x", fun same => ?_⟩
    rw [evaluated, Condition.all_holds_only] at same
    exact c.op.holds_ne (by simp [empty]) empty.symm (Except.ok.inj same).symm
  · refine ⟨c.field.only (String.ofList c.value), fun same => ?_⟩
    rw [evaluated, Condition.all_holds_only] at same
    exact c.op.holds_ne (Ne.symm empty) rfl (Except.ok.inj same)

/-- What is read as the field when the value is split at a `==`. -/
def Condition.cut (c : Condition) (before : List Char) : List Char :=
  c.field.text ++ ' ' :: '!' :: '=' :: ' ' :: before

section Operator

variable {before after : List Char} (formed : c.WellFormed) (ne : c.op = .ne)
  (shape : c.value = before ++ '=' :: '=' :: after)

include formed in
theorem Condition.WellFormed.trimSpace_cut_ne (before : List Char) :
    trimSpace (c.cut before) ≠ c.field.text := by
  obtain ⟨first, rest, begun, kept, _⟩ := c.field.text_head
  have lead : Trimmed isSpace (c.field.text ++ [' ', '!', '=']) :=
    ⟨by simp [begun, kept], by simp [isSpace]⟩
  have cut : c.cut before = c.field.text ++ [' ', '!', '='] ++ ' ' :: before := by
    simp [Condition.cut]
  rw [cut, trimSpace, trimFunc_append lead (by simp)]
  intro same
  refine formed.bang_notMem ?_
  rw [← same]
  simp

include formed ne shape in
theorem Condition.WellFormed.clause_misread (apart : Apart '=' '=' (before ++ ['=']))
    (req : RequestContext) :
    evaluateClause req (trimSpace c.text) =
      some (resolveExprField req (trimSpace (c.cut before)) == readValue after) := by
  obtain ⟨first, rest, begun, kept, _⟩ := c.field.text_head
  have text : c.text = c.cut before ++ '=' :: '=' :: after := by
    simp [Condition.text, Condition.cut, ne, Comparison.text, shape]
  have whole : trimSpace c.text = c.text := by
    refine trimFunc_eq_self ⟨by simp [Condition.text, begun, kept], fun ch ended => ?_⟩
    have last : c.text.getLast? = c.value.getLast? := by
      rw [text, shape, List.getLast?_append_of_ne_nil _ (by simp),
        List.getLast?_append_of_ne_nil _ (by simp)]
    rw [last] at ended
    exact formed.spaced.last ch ended
  have leading : Apart '=' '=' (c.cut before ++ ['=']) := by
    have field : Apart '=' '=' c.field.text := apart_of_not_mem formed.equals_notMem
    have cut : c.cut before ++ ['='] =
        c.field.text ++ ' ' :: '!' :: '=' :: ' ' :: (before ++ ['=']) := by
      simp [Condition.cut]
    rw [cut, apart_append, apart_cons, apart_cons]
    exact ⟨field, ⟨by simp, by simp, apart_equals_blank apart⟩, by simp⟩
  have split : splitOnce "==".toList c.text = some (c.cut before, after) := by
    rw [text]
    exact splitOnce_first leading after
  rw [whole, evaluateClause]
  simp only [split]
  rfl

end Operator

/-- A `==` in the value is taken for the operator before the `!=` is looked for. -/
theorem Condition.WellFormed.misread_operator (formed : c.WellFormed) (ne : c.op = .ne)
    (contains : Contains ['=', '='] c.value) :
    ∃ req, evaluateExpression req (expression [c]) ≠ .ok ([c].all (Condition.holds req)) := by
  obtain ⟨before, after, shape, apart⟩ := exists_first contains
  have filled : String.ofList c.value ≠ "" := by
    intro empty
    simp [shape] at empty
  have evaluated : ∀ w, evaluateExpression (c.field.only w) (expression [c]) =
      .ok ("" == readValue after) := by
    intro w
    rw [formed.evaluateExpression_single,
      evaluateClauses_single (formed.clause_misread ne shape apart _),
      ExprField.resolve_only_other (formed.trimSpace_cut_ne before)]
  have expected : ∀ w, [c].all (Condition.holds (c.field.only w)) =
      (w != String.ofList c.value) := by
    intro w
    rw [Condition.all_holds_only, ne, Comparison.holds]
  by_cases empty : "" = readValue after
  · refine ⟨c.field.only (String.ofList c.value), ?_⟩
    rw [evaluated, expected, ← empty]
    simp
  · refine ⟨c.field.only "", ?_⟩
    rw [evaluated, expected, beq_false_of_ne empty, bne_iff_ne.mpr (Ne.symm filled)]
    simp

theorem length_readValue_le (r : List Char) : (readValue r).toList.length ≤ r.length := by
  rw [readValue, String.toList_ofList]
  exact (length_trimFunc_le _ _).trans (length_trimFunc_le _ _)

/-- The text of a condition without the last character of its value. -/
def Condition.short (c : Condition) (init : List Char) : List Char :=
  c.field.text ++ ' ' :: (c.op.text ++ ' ' :: init)

section Ending

variable {init : List Char} (formed : c.WellFormed) (shape : c.value = init ++ ['&'])
  (operator : c.op = .ne → ¬Contains ['=', '='] c.value)

include formed shape in
theorem Condition.WellFormed.split_twice :
    split ['&', '&'] (expression [c, c]) = [c.short init, '&' :: c.text] := by
  obtain ⟨first, rest, begun, _, notAmp⟩ := c.field.text_head
  have text : c.short init ++ ['&'] = c.text := by
    simp [Condition.text, Condition.short, shape]
  have joined : expression [c, c] = join ['&', '&'] [c.short init, '&' :: c.text] := by
    have twice : expression [c, c] = c.text ++ '&' :: '&' :: c.text := by
      simp [expression, join]
    rw [twice, ← text]
    simp [join]
  have whole := formed.apart_text
  rw [joined]
  refine split_join (by simp) ?_ ?_
  · intro part member
    rcases List.mem_cons.mp member with rfl | last
    · rw [← text] at whole
      exact (apart_append.mp whole).1
    · rw [List.mem_singleton.mp last, apart_cons]
      exact ⟨by simp [Condition.text, begun, notAmp], whole⟩
  · intro part member
    obtain rfl : part = c.short init := by simpa using member
    rw [text]
    exact whole

include formed shape operator in
theorem Condition.WellFormed.short_read
    (trimmed : ∀ ch ∈ c.field.text.getLast?, isSpace ch = false) (w : String) :
    evaluateClause (c.field.only w) (trimSpace (c.short init)) =
      some (c.op.holds w (readValue (' ' :: init))) := by
  have unread : c.op = .ne → Apart '=' '=' ('=' :: ' ' :: init) := by
    intro ne
    have apart := not_contains_iff.mp (operator ne)
    rw [shape] at apart
    exact apart_equals_blank (apart_append.mp apart).1
  rw [Condition.short, formed.read_operator unread, Condition.trimSpace_field trimmed,
    ExprField.resolve_only_self]

include formed operator in
theorem Condition.WellFormed.rest_read (w : String) :
    evaluateClause (c.field.only w) (trimSpace ('&' :: c.text)) =
      some (c.op.holds "" (String.ofList c.value)) := by
  obtain ⟨first, rest, begun, _, notAmp⟩ := c.field.text_head
  have equals : '=' ∉ '&' :: c.field.text := by simpa using formed.equals_notMem
  have bang : '!' ∉ '&' :: c.field.text := by simpa using formed.bang_notMem
  have unread : c.op = .ne → Apart '=' '=' ('=' :: ' ' :: c.value) := fun ne =>
    apart_equals_blank (not_contains_iff.mp (operator ne))
  have other : trimSpace ('&' :: c.field.text ++ [' ']) ≠ c.field.text := by
    have lead : Trimmed isSpace ['&'] := ⟨by simp [isSpace], by simp [isSpace]⟩
    have cut : trimSpace ('&' :: c.field.text ++ [' ']) =
        '&' :: (c.field.text ++ [' ']).rdropWhile isSpace :=
      trimFunc_append lead (by simp) (c.field.text ++ [' '])
    rw [cut, begun]
    intro same
    exact notAmp (List.cons.inj same).1.symm
  have text : '&' :: c.text = '&' :: c.field.text ++ ' ' :: (c.op.text ++ ' ' :: c.value) := by
    simp [Condition.text]
  rw [text, evaluateClause_eq (by simp) (by simp [isSpace]) equals bang unread,
    ExprField.resolve_only_other other, formed.value_read]

end Ending

/-- The first of three ampersands is taken for the separator. -/
theorem Condition.WellFormed.misread_ending (formed : c.WellFormed)
    (operator : c.op = .ne → ¬Contains ['=', '='] c.value)
    (trimmed : ∀ ch ∈ c.field.text.getLast?, isSpace ch = false)
    (ending : c.value.getLast? = some '&') :
    ∃ req, evaluateExpression req (expression [c, c]) ≠
      .ok ([c, c].all (Condition.holds req)) := by
  obtain ⟨init, shape⟩ := List.getLast?_eq_some_iff.mp ending
  have short := formed.short_read shape operator trimmed (String.ofList c.value)
  have rest := formed.rest_read operator (String.ofList c.value)
  have evaluated : evaluateExpression (c.field.only (String.ofList c.value)) (expression [c, c]) =
      evaluateClauses (c.field.only (String.ofList c.value)) [c.short init, '&' :: c.text] :=
    congrArg (evaluateClauses _) (formed.split_twice shape)
  have differs : String.ofList c.value ≠ readValue (' ' :: init) := by
    intro same
    have bound := length_readValue_le init
    have unblanked : readValue (' ' :: init) = readValue init := by
      rw [readValue, trimSpace, trimFunc_cons (by decide)]
      rfl
    rw [← unblanked, ← same, String.toList_ofList, shape, List.length_append,
      List.length_singleton] at bound
    omega
  have filled : "" ≠ String.ofList c.value := by
    intro empty
    simp [shape] at empty
  refine ⟨c.field.only (String.ofList c.value), ?_⟩
  rw [evaluated, evaluateClauses_read short, evaluateClauses_single rest]
  simp only [List.all_cons, List.all_nil, Condition.holds, ExprField.value_only, if_true]
  cases c.op with
  | eq => simp [Comparison.holds, differs]
  | ne => simp [Comparison.holds, differs, filled]

end Misread

/-- Every list of the conditions is read back just if each of them is unambiguous. -/
theorem evaluateExpression_iff (allowed : Condition → Prop)
    (formed : ∀ c, allowed c → c.WellFormed) :
    (∀ req (conditions : List Condition), (∀ c ∈ conditions, allowed c) →
        evaluateExpression req (expression conditions) =
          .ok (conditions.all (Condition.holds req))) ↔
      ∀ c, allowed c → c.Unambiguous := by
  constructor
  · intro faithful c given
    have operator : c.op = .ne → ¬Contains ['=', '='] c.value := by
      intro ne contains
      obtain ⟨req, misread⟩ := (formed c given).misread_operator ne contains
      exact misread (faithful req [c] (by simpa using given))
    have trimmed : ∀ ch ∈ c.field.text.getLast?, isSpace ch = false := by
      intro ch ended
      by_contra blank
      obtain ⟨req, misread⟩ := (formed c given).misread_field operator ended (by simpa using blank)
      exact misread (faithful req [c] (by simpa using given))
    refine ⟨operator, fun ending => ?_, trimmed⟩
    obtain ⟨req, misread⟩ := (formed c given).misread_ending operator trimmed ending
    exact misread (faithful req [c, c] (by simpa using given))
  · intro unambiguous req conditions given
    exact evaluateExpression_conditions (fun c member => formed c (given c member))
      (fun c member => (unambiguous c (given c member)).operator)
      (fun c member => (unambiguous c (given c member)).trimmed)
      (fun c member => (unambiguous c (given c (List.dropLast_subset _ member))).ending) req

theorem Condition.wellFormed_scope {field : ScopeField} {op : Comparison} {value : List Char}
    (joined : Apart '&' '&' value) (spaced : Trimmed isSpace value)
    (quoted : Trimmed quotes value) : (⟨.scope field, op, value⟩ : Condition).WellFormed where
  name := fun _ shape => by cases shape
  joined := not_contains_iff.mpr joined
  spaced := spaced
  quoted := quoted

/-- An encoded key, whose padding is the operator `==`. -/
def encodedKey (op : Comparison) : Condition := ⟨.scope .apiKey, op, ['a', 'b', '=', '=']⟩

theorem wellFormed_encodedKey (op : Comparison) : (encodedKey op).WellFormed :=
  Condition.wellFormed_scope (apart_of_not_mem (by decide)) ⟨by simp [isSpace], by simp [isSpace]⟩
    ⟨by simp [quotes], by simp [quotes]⟩

theorem evaluateExpression_iff_of_encodedKey :
    (encodedKey .eq).Unambiguous ∧
      evaluateExpression (ExprField.only "ab==" (.scope .apiKey))
        (expression [encodedKey .eq, encodedKey .eq]) = .ok true := by
  have unambiguous : (encodedKey .eq).Unambiguous := by
    refine ⟨by simp [encodedKey], by decide, fun ch ended => ?_⟩
    obtain rfl : 'y' = ch := Option.some.inj ended
    decide
  have read := (evaluateExpression_iff (· = encodedKey .eq) (by
    rintro c rfl
    exact wellFormed_encodedKey .eq)).mpr (by
    rintro c rfl
    exact unambiguous)
  exact ⟨unambiguous, (read _ [encodedKey .eq, encodedKey .eq] (by simp)).trans (by decide)⟩

/-- The one key that the expression excludes passes it. -/
theorem evaluateExpression_encodedKey_passes :
    (encodedKey .ne).WellFormed ∧
      [encodedKey .ne].all (Condition.holds (ExprField.only "ab==" (.scope .apiKey))) = false ∧
      evaluateExpression (ExprField.only "ab==" (.scope .apiKey)) (expression [encodedKey .ne]) =
        .ok true :=
  ⟨wellFormed_encodedKey .ne, by decide +kernel, by decide +kernel⟩

end Rlaas.Engine
