import Authorization.Abac.Meaning

/-!
# Withheld attributes

`Exists` and `IsNull` ask whether an attribute is there.  Every other condition can
only lose its verdict when an attribute is withheld: a definite status, match or no
match, is the status on every request that knows more (`decided_of_extends`).  `Not`
exchanges the definite statuses only, so no nesting turns an absent attribute into
a match.

The status that replaces a definite one need not be the missing one: `Any` keeps the
first diagnosis of its children, which may be that of an attribute that is null
(`withheld_null`).
-/

namespace Authorization.Abac

open Authorization.Foundation Authorization.Core

/-- Neither `Exists` nor `IsNull`. -/
def Condition.testsValue : Condition → Bool
  | .existsCondition _ => false
  | .nullCondition _ => false
  | _ => true

/-! ### Knowing more -/

/-- `b` has every attribute of `a` that is not a missing value. -/
def Known (a b : Attributes) : Prop :=
  ∀ name value, a.lookup name = some value → value.kind ≠ .missing → b.lookup name = some value

/-- The second request has every attribute of the first, and perhaps others. -/
structure Extends (request request' : Request) : Prop where
  subject : Known request.subject.attributes request'.subject.attributes
  resource : Known request.resource.attributes request'.resource.attributes
  attributes : Known request.attributes request'.attributes
  environment : Known request.environment.attributes request'.environment.attributes

variable {request request' : Request} {maxSetSize maxSetSize' : Int}

theorem Extends.presentValue (h : Extends request request') {reference : Reference} {value : Value}
    (hvalue : (reading request maxSetSize).presentValue reference = some value) :
    (reading request' maxSetSize').presentValue reference = some value := by
  obtain ⟨hattribute, hkind⟩ := Option.filter_eq_some_iff.mp hvalue
  refine Option.filter_eq_some_iff.mpr ⟨?_, hkind⟩
  have hkind : value.kind ≠ .missing := of_decide_eq_true hkind
  rw [EvaluationState.attribute] at hattribute ⊢
  by_cases hsubject : reference.source = .subject
  · rw [if_pos hsubject] at hattribute ⊢
    exact h.subject _ _ hattribute hkind
  rw [if_neg hsubject] at hattribute ⊢
  by_cases hresource : reference.source = .resource
  · rw [if_pos hresource] at hattribute ⊢
    exact h.resource _ _ hattribute hkind
  rw [if_neg hresource] at hattribute ⊢
  by_cases hrequest : reference.source = .request
  · rw [if_pos hrequest] at hattribute ⊢
    exact h.attributes _ _ hattribute hkind
  rw [if_neg hrequest] at hattribute ⊢
  by_cases henvironment : reference.source = .environment
  · rw [if_pos henvironment] at hattribute ⊢
    exact h.environment _ _ hattribute hkind
  · rw [if_neg henvironment] at hattribute
    cases hattribute

/-- Match or no match. -/
def Status.Definite (status : Status) : Prop := status = .statusMatch ∨ status = .statusNoMatch

/-- A condition whose definite verdict on the first request is that on the second. -/
def Condition.Keeps (request request' : Request) (maxSetSize maxSetSize' : Int)
    (condition : Condition) : Prop :=
  ∀ status status', Status.Definite status →
    (condition.meaning request maxSetSize).value = .decided status →
    (condition.meaning request' maxSetSize').value = .decided status' → status' = status

/-- A definite answer about an attribute has looked at its value. -/
theorem testLoaded_definite {condition : Condition} {reference : Reference} {status : Status}
    (hstatus : status.Definite)
    (h : ((reading request maxSetSize).testLoaded condition reference).verdict = .decided status) :
    ∃ value, (reading request maxSetSize).presentValue reference = some value ∧
      value.kind ≠ .null ∧ (condition.test value).verdict = .decided status := by
  rw [EvaluationState.testLoaded] at h
  cases hvalue : (reading request maxSetSize).presentValue reference with
  | none =>
    rw [hvalue] at h
    cases h
    rcases hstatus with h | h <;> cases h
  | some value =>
    rw [hvalue] at h
    refine ⟨value, rfl, ?_⟩
    rcases validateValue_cases (reading request maxSetSize) value with hvalid | hlarge
    · simp only [hvalid] at h
      split at h
      · cases h
        rcases hstatus with h | h <;> cases h
      · exact ⟨by assumption, h⟩
    · simp only [hlarge] at h
      cases h

theorem testLoaded_of_value {condition : Condition} {reference : Reference} {value : Value}
    {status' : Status} (hvalue : (reading request maxSetSize).presentValue reference = some value)
    (hnull : value.kind ≠ .null)
    (h : ((reading request maxSetSize).testLoaded condition reference).verdict = .decided status') :
    (condition.test value).verdict = .decided status' := by
  rw [EvaluationState.testLoaded, hvalue] at h
  rcases validateValue_cases (reading request maxSetSize) value with hvalid | hlarge
  · simp only [hvalid, if_neg hnull] at h
    exact h
  · simp only [hlarge] at h
    cases h

theorem testLoaded_keeps (hext : Extends request request') {condition : Condition}
    {reference : Reference} {status status' : Status} (hstatus : status.Definite)
    (h : ((reading request maxSetSize).testLoaded condition reference).verdict = .decided status)
    (h' : ((reading request' maxSetSize').testLoaded condition reference).verdict
      = .decided status') : status' = status := by
  obtain ⟨value, hvalue, hnull, htest⟩ := testLoaded_definite hstatus h
  have htest' := testLoaded_of_value (hext.presentValue hvalue) hnull h'
  rw [htest] at htest'
  exact (Verdict.decided.inj htest').symm

theorem testEqual_keeps (hext : Extends request request') {reference : Reference} {want : Value}
    {status status' : Status} (hstatus : status.Definite)
    (h : ((reading request maxSetSize).testEqual reference want).verdict = .decided status)
    (h' : ((reading request' maxSetSize').testEqual reference want).verdict = .decided status') :
    status' = status := by
  rw [EvaluationState.testEqual] at h h'
  cases hvalue : (reading request maxSetSize).presentValue reference with
  | none =>
    rw [hvalue] at h
    cases h
    rcases hstatus with h | h <;> cases h
  | some value =>
    rw [hvalue] at h
    rw [hext.presentValue hvalue] at h'
    rcases validateValue_cases (reading request maxSetSize) value with hvalid | hlarge
    · rcases validateValue_cases (reading request' maxSetSize') value with hvalid' | hlarge'
      · simp only [hvalid] at h
        simp only [hvalid', h] at h'
        exact (Verdict.decided.inj h').symm
      · simp only [hlarge'] at h'
        cases h'
    · simp only [hlarge] at h
      cases h

theorem leaf_keeps (hext : Extends request request') {condition : Condition}
    (hleaf : condition.isLeaf = true) (htests : condition.testsValue = true) :
    condition.Keeps request request' maxSetSize maxSetSize' := by
  intro status status' hstatus h h'
  rw [meaning_leaf hleaf] at h h'
  cases condition with
  | nil | allCondition | anyCondition | notCondition => cases hleaf
  | existsCondition | nullCondition => cases htests
  | equalCondition => exact testEqual_keeps hext hstatus h h'
  | comparisonCondition | inCondition | setContainsCondition | stringCondition | ipCondition =>
    exact testLoaded_keeps hext hstatus h h'

/-- `All`: what comes before the deciding child matches on both requests. -/
theorem meaningAll_keeps : ∀ {conditions : List Condition},
    (∀ condition ∈ conditions, condition.Keeps request request' maxSetSize maxSetSize') →
    ∀ status status', Status.Definite status →
      (meaningAll request maxSetSize conditions).value = .decided status →
      (meaningAll request' maxSetSize' conditions).value = .decided status' → status' = status := by
  intro conditions
  induction conditions with
  | nil =>
    intro _ status status' _ h h'
    exact Verdict.decided.inj (h'.symm.trans h)
  | cons child rest ih =>
    intro hkeeps status status' hstatus h h'
    obtain ⟨hchild, hrest⟩ := List.forall_mem_cons.mp hkeeps
    rw [meaningAll, Priced.bind_value] at h h'
    split at h
    · rename_i hmatch
      split at h'
      · exact ih hrest status status' hstatus h h'
      · rename_i hother
        have heq := hchild .statusMatch status' (Or.inl rfl) hmatch h'
        rw [Priced.free_value, heq] at h'
        exact absurd h' hother
    · rename_i hother
      split at h'
      · rename_i hmatch
        have heq := hchild status .statusMatch hstatus h hmatch
        rw [Priced.free_value, ← heq] at h
        exact absurd h hother
      · exact hchild status status' hstatus h h'

/-- `Any`: a match stays one, and no match means that every child has none. -/
theorem meaningAny_keeps {conditions : List Condition}
    (hkeeps : ∀ condition ∈ conditions, condition.Keeps request request' maxSetSize maxSetSize')
    {status status' : Status} (hstatus : status.Definite)
    (h : (meaningAny request maxSetSize .statusNoMatch conditions).value = .decided status)
    (h' : (meaningAny request' maxSetSize' .statusNoMatch conditions).value = .decided status') :
    status' = status := by
  rcases hstatus with rfl | rfl
  · by_contra hother
    obtain ⟨child, hmem, hmatch⟩ := meaningAny_eq_match (by decide) h
    obtain ⟨other, hne, hchild⟩ := meaningAny_eq_other hother h' child hmem
    exact hne (hkeeps child hmem .statusMatch other (Or.inl rfl) hmatch hchild)
  · obtain ⟨-, hall⟩ := meaningAny_eq_noMatch_iff.mp h
    have hkept : ∀ child ∈ conditions, ∀ other,
        (child.meaning request' maxSetSize').value = .decided other → other = .statusNoMatch :=
      fun child hmem other hchild =>
        hkeeps child hmem .statusNoMatch other (Or.inr rfl) (hall child hmem) hchild
    by_cases hmatch : status' = .statusMatch
    · subst hmatch
      obtain ⟨child, hmem, hchild⟩ := meaningAny_eq_match (by decide) h'
      exact hkept child hmem _ hchild
    · have hnone : (meaningAny request' maxSetSize' .statusNoMatch conditions).value
          = .decided .statusNoMatch := by
        refine meaningAny_eq_noMatch_iff.mpr ⟨rfl, fun child hmem => ?_⟩
        obtain ⟨other, -, hchild⟩ := meaningAny_eq_other hmatch h' child hmem
        rw [hchild, hkept child hmem other hchild]
      exact Verdict.decided.inj (h'.symm.trans hnone)

theorem Status.negate_negate (status : Status) : status.negate.negate = status := by
  cases status <;> rfl

theorem Status.Definite.negate {status : Status} (h : status.Definite) : status.negate.Definite := by
  rcases h with rfl | rfl
  · exact Or.inr rfl
  · exact Or.inl rfl

theorem Verdict.negate_eq_decided {verdict : Verdict} {status : Status}
    (h : verdict.negate = .decided status) : verdict = .decided status.negate := by
  cases verdict with
  | decided other => cases h; rw [Status.negate_negate]
  | tooLarge => cases h
  | panicked => cases h

/-- **A definite verdict is kept by every request that knows more.** -/
theorem decided_of_extends (hext : Extends request request') (condition : Condition) :
    condition.everywhere Condition.testsValue = true →
      condition.Keeps request request' maxSetSize maxSetSize' := by
  induction condition using Condition.rule with
  | nil =>
    intro _ status status' _ h
    rw [Condition.meaning] at h
    cases h
  | leaf condition hleaf =>
    intro hplain
    exact leaf_keeps hext hleaf (Condition.everywhere_self hplain)
  | all conditions ih =>
    intro hplain status status' hstatus h h'
    rw [Condition.meaning] at h h'
    have hchildren := Condition.everywhere_all hplain
    exact meaningAll_keeps (fun child hmem => ih child hmem (hchildren child hmem)) status status'
      hstatus h h'
  | any conditions ih =>
    intro hplain status status' hstatus h h'
    rw [Condition.meaning] at h h'
    have hchildren := Condition.everywhere_any hplain
    exact meaningAny_keeps (fun child hmem => ih child hmem (hchildren child hmem)) hstatus h h'
  | not condition ih =>
    intro hplain status status' hstatus h h'
    rw [Condition.meaning] at h h'
    have hkept := ih (Condition.everywhere_not hplain) status.negate status'.negate hstatus.negate
      (Verdict.negate_eq_decided h) (Verdict.negate_eq_decided h')
    rw [← status'.negate_negate, hkept, status.negate_negate]

/-- The answers on a request and on one that knows more. -/
structure WithheldLaw (result result' : Result) : Prop where
  /-- What was definite stays. -/
  kept : result.status.Definite →
    result'.status = result.status ∧ result'.matched = result.matched
  /-- What became definite was the same, or undecided and no match. -/
  withheld : result'.status.Definite →
    (result.status = result'.status ∧ result.matched = result'.matched) ∨
      (result.matched = false ∧ result.status ∈ [.statusMissing, .statusNull, .statusTypeMismatch])

/-- **Withholding attributes never makes a condition match.** -/
theorem withheld_attributes {W W' : Type} {condition : Condition}
    (hplain : condition.everywhere Condition.testsValue = true) (hext : Extends request request')
    {ctx : Context W} {ctx' : Context W'} {limits limits' : Limits} {w : W} {w' : W'}
    {result result' : Result}
    (h : (evaluateCondition ctx condition request limits w).1 = .returned result none)
    (h' : (evaluateCondition ctx' condition request' limits' w').1 = .returned result' none) :
    WithheldLaw result result' := by
  obtain ⟨hmatched, hverdict⟩ := evaluateCondition_decided h
  obtain ⟨hmatched', hverdict'⟩ := evaluateCondition_decided h'
  have hkept : result.status.Definite →
      result'.status = result.status ∧ result'.matched = result.matched := by
    intro hdefinite
    have heq := decided_of_extends hext condition hplain _ _ hdefinite hverdict hverdict'
    exact ⟨heq, by rw [hmatched, hmatched', heq]⟩
  refine ⟨hkept, fun _ => ?_⟩
  by_cases hdefinite : result.status.Definite
  · obtain ⟨hstatus, hmatch⟩ := hkept hdefinite
    exact Or.inl ⟨hstatus.symm, hmatch.symm⟩
  · refine Or.inr ?_
    rw [hmatched]
    cases hstatus : result.status with
    | statusMatch => exact absurd (Or.inl hstatus) hdefinite
    | statusNoMatch => exact absurd (Or.inr hstatus) hdefinite
    | statusMissing | statusNull | statusTypeMismatch => decide

/-! ### Requests that differ by an attribute -/

theorem extends_insert {attributes : Attributes} {name : AttributeName} (value : Value)
    (h : attributes.lookup name = none) :
    Extends (asking attributes) (asking (attributes.insert name value)) := by
  refine ⟨fun _ _ h _ => h, fun _ _ h _ => h, ?_, fun _ _ h _ => h⟩
  intro other present hpresent _
  have hne : other ≠ name := by
    rintro rfl
    exact absurd (h.symm.trans hpresent) (by simp)
  exact (AList.lookup_insert_ne hne).trans hpresent

/-- The level is not the public one. -/
def notPublic : Condition := .notCondition (.equalCondition (requested "level") (.string (str "public")))

theorem withheld_attributes_level :
    (evaluateCondition (.background (W := Unit)) notPublic
      (asking ((∅ : Attributes).insert (str "level") (.string (str "secret")))) {} ()).1
        = .returned ⟨true, .statusMatch, 2⟩ none ∧
    WithheldLaw ⟨false, .statusMissing, 2⟩ ⟨true, .statusMatch, 2⟩ := by
  have hmatch : (evaluateCondition (.background (W := Unit)) notPublic
      (asking ((∅ : Attributes).insert (str "level") (.string (str "secret")))) {} ()).1
        = .returned ⟨true, .statusMatch, 2⟩ none := by decide +kernel
  have hmissing : (evaluateCondition (.background (W := Unit)) notPublic (asking ∅) {} ()).1
      = .returned ⟨false, .statusMissing, 2⟩ none := by decide +kernel
  exact ⟨hmatch, withheld_attributes (by decide) (extends_insert _ rfl) hmissing hmatch⟩

/-- **A withheld attribute can leave a status other than the missing one**: that of a
sibling under `Any`. -/
theorem withheld_null :
    let condition : Condition := .anyCondition
      [.equalCondition (requested "team") (.string (str "red")),
        .equalCondition (requested "level") (.string (str "public"))]
    let known : Attributes := (∅ : Attributes).insert (str "team") .null
    let request := asking known
    let request' := asking (known.insert (str "level") (.string (str "public")))
    condition.everywhere Condition.testsValue = true ∧ Extends request request' ∧
    (evaluateCondition (.background (W := Unit)) condition request' {} ()).1
      = .returned ⟨true, .statusMatch, 3⟩ none ∧
    (evaluateCondition (.background (W := Unit)) condition request {} ()).1
      = .returned ⟨false, .statusNull, 3⟩ none :=
  ⟨by decide, extends_insert _ rfl, by decide +kernel, by decide +kernel⟩

end Authorization.Abac
