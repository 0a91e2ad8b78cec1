import Authorization.Abac.Abac
import Authorization.Foundation.Metered

/-!
# What a condition means

A condition has a verdict on a request: a status, a set that is too large, or a
panic.  Reaching it visits a number of nodes.  Both are said here without budget,
context and counter (`Condition.meaning`), and every evaluation is a metered run of
it (`evaluate_metered`): it ends with the verdict, with the budget exhausted, or
with an error of the context.
-/

namespace Authorization.Abac

open Authorization.Foundation Authorization.Core

/-! ### Induction over conditions -/

/-- The conditions that ask about one attribute. -/
def Condition.isLeaf : Condition → Bool
  | .nil => false
  | .allCondition _ => false
  | .anyCondition _ => false
  | .notCondition _ => false
  | _ => true

mutual

theorem Condition.rule {P : Condition → Prop} (nil : P .nil)
    (leaf : ∀ condition : Condition, condition.isLeaf = true → P condition)
    (all : ∀ conditions, (∀ condition ∈ conditions, P condition) → P (.allCondition conditions))
    (any : ∀ conditions, (∀ condition ∈ conditions, P condition) → P (.anyCondition conditions))
    (not : ∀ condition, P condition → P (.notCondition condition)) : ∀ condition, P condition
  | .nil => nil
  | .equalCondition _ _ => leaf _ rfl
  | .allCondition conditions => all conditions (Condition.ruleOf nil leaf all any not conditions)
  | .existsCondition _ => leaf _ rfl
  | .nullCondition _ => leaf _ rfl
  | .anyCondition conditions => any conditions (Condition.ruleOf nil leaf all any not conditions)
  | .notCondition condition => not condition (Condition.rule nil leaf all any not condition)
  | .comparisonCondition _ _ _ => leaf _ rfl
  | .inCondition _ _ => leaf _ rfl
  | .setContainsCondition _ _ => leaf _ rfl
  | .stringCondition _ _ _ => leaf _ rfl
  | .ipCondition _ _ => leaf _ rfl

theorem Condition.ruleOf {P : Condition → Prop} (nil : P .nil)
    (leaf : ∀ condition : Condition, condition.isLeaf = true → P condition)
    (all : ∀ conditions, (∀ condition ∈ conditions, P condition) → P (.allCondition conditions))
    (any : ∀ conditions, (∀ condition ∈ conditions, P condition) → P (.anyCondition conditions))
    (not : ∀ condition, P condition → P (.notCondition condition)) :
    ∀ conditions : List Condition, ∀ condition ∈ conditions, P condition
  | [] => fun _ h => absurd h List.not_mem_nil
  | condition :: rest => List.forall_mem_cons.mpr
      ⟨Condition.rule nil leaf all any not condition, Condition.ruleOf nil leaf all any not rest⟩

end

mutual

/-- The test holds at every node. -/
def Condition.everywhere (p : Condition → Bool) : Condition → Bool
  | .allCondition conditions => p (.allCondition conditions) && everywhereIn p conditions
  | .anyCondition conditions => p (.anyCondition conditions) && everywhereIn p conditions
  | .notCondition condition => p (.notCondition condition) && condition.everywhere p
  | condition => p condition

def everywhereIn (p : Condition → Bool) : List Condition → Bool
  | [] => true
  | condition :: rest => condition.everywhere p && everywhereIn p rest

end

theorem everywhereIn_iff {p : Condition → Bool} : ∀ {conditions : List Condition},
    everywhereIn p conditions = true ↔
      ∀ condition ∈ conditions, condition.everywhere p = true := by
  intro conditions
  induction conditions with
  | nil => simp [everywhereIn]
  | cons condition rest ih => rw [everywhereIn, Bool.and_eq_true, ih, List.forall_mem_cons]

theorem Condition.everywhere_self {p : Condition → Bool} {condition : Condition}
    (h : condition.everywhere p = true) : p condition = true := by
  cases condition with
  | allCondition | anyCondition | notCondition =>
    rw [Condition.everywhere, Bool.and_eq_true] at h
    exact h.1
  | _ => exact h

theorem Condition.everywhere_all {p : Condition → Bool} {conditions : List Condition}
    (h : (Condition.allCondition conditions).everywhere p = true) :
    ∀ condition ∈ conditions, condition.everywhere p = true := by
  rw [Condition.everywhere, Bool.and_eq_true] at h
  exact everywhereIn_iff.mp h.2

theorem Condition.everywhere_any {p : Condition → Bool} {conditions : List Condition}
    (h : (Condition.anyCondition conditions).everywhere p = true) :
    ∀ condition ∈ conditions, condition.everywhere p = true := by
  rw [Condition.everywhere, Bool.and_eq_true] at h
  exact everywhereIn_iff.mp h.2

theorem Condition.everywhere_not {p : Condition → Bool} {condition : Condition}
    (h : (Condition.notCondition condition).everywhere p = true) : condition.everywhere p = true := by
  rw [Condition.everywhere, Bool.and_eq_true] at h
  exact h.2

/-! ### Verdicts -/

/-- What a condition comes to. -/
inductive Verdict
  | decided (status : Status)
  /-- An attribute holds a set above the limit. -/
  | tooLarge
  | panicked
deriving DecidableEq

/-- The answer that states a verdict. -/
def Verdict.answer : Verdict → Answer
  | .decided status => .returned { matched := status = .statusMatch, status := status } none
  | .tooLarge => .returned {} (some (.sentinel .abacErrSetLimitExceeded))
  | .panicked => .panicked

def Answer.verdict : Answer → Verdict
  | .returned result none => .decided result.status
  | .returned _ (some _) => .tooLarge
  | .panicked => .panicked

def Status.negate : Status → Status
  | .statusMatch => .statusNoMatch
  | .statusNoMatch => .statusMatch
  | status => status

/-- `Not`: the definite statuses are exchanged. -/
def Verdict.negate : Verdict → Verdict
  | .decided status => .decided status.negate
  | verdict => verdict

theorem Verdict.negate_answer (verdict : Verdict) :
    verdict.answer.negate = verdict.negate.answer := by
  cases verdict with
  | decided status => cases status <;> rfl
  | tooLarge => rfl
  | panicked => rfl

/-! ### Asking about one attribute -/

section Leaf

variable {W : Type}

/-- The rest of a condition that loads one value, once the visit is paid for. -/
def EvaluationState.testLoaded (state : EvaluationState W) (condition : Condition)
    (reference : Reference) : Answer :=
  match state.presentValue reference with
  | none => .status .statusMissing
  | some value =>
    match state.validateValue value with
    | some err => .returned {} (some err)
    | none => if value.kind = .null then .status .statusNull else condition.test value

/-- The rest of a condition about one attribute, once the visit is paid for. -/
def EvaluationState.ask (state : EvaluationState W) : Condition → Answer
  | .equalCondition reference want => state.testEqual reference want
  | .existsCondition reference => .ofMatched (state.presentValue reference).isSome
  | .nullCondition reference => .ofMatched ((state.attribute reference).map Value.kind = some .null)
  | .comparisonCondition reference want operator =>
    state.testLoaded (.comparisonCondition reference want operator) reference
  | .inCondition reference values => state.testLoaded (.inCondition reference values) reference
  | .setContainsCondition reference value =>
    state.testLoaded (.setContainsCondition reference value) reference
  | .stringCondition reference value operator =>
    state.testLoaded (.stringCondition reference value operator) reference
  | .ipCondition reference network => state.testLoaded (.ipCondition reference network) reference
  | _ => .panicked

theorem evaluateLoaded_eq (condition : Condition) (reference : Reference)
    (state : EvaluationState W) (w : W) :
    condition.evaluateLoaded reference state w
      = match state.consume w with
        | (some err, state, w) => (.returned {} (some err), state, w)
        | (none, state, w) => (state.testLoaded condition reference, state, w) := by
  rw [Condition.evaluateLoaded, EvaluationState.loadValue]
  rcases state.consume w with ⟨_ | err, state', w'⟩
  · dsimp only
    rw [EvaluationState.testLoaded]
    cases state'.presentValue reference with
    | none => rfl
    | some value =>
      dsimp only
      cases state'.validateValue value with
      | some err => rfl
      | none =>
        by_cases hnull : value.kind = .null
        · simp only [if_pos hnull]
        · simp only [if_neg hnull]
  · rfl

/-- A condition about one attribute pays for one visit. -/
theorem evaluate_leaf {condition : Condition} (h : condition.isLeaf = true)
    (state : EvaluationState W) (w : W) :
    condition.evaluate state w
      = match state.consume w with
        | (some err, state, w) => (.returned {} (some err), state, w)
        | (none, state, w) => (state.ask condition, state, w) := by
  cases condition with
  | nil => cases h
  | allCondition => cases h
  | anyCondition => cases h
  | notCondition => cases h
  | equalCondition | existsCondition | nullCondition => rw [Condition.evaluate]; rfl
  | comparisonCondition | inCondition | setContainsCondition | stringCondition | ipCondition =>
    rw [Condition.evaluate]
    exact evaluateLoaded_eq _ _ state w

/-- The answers that state a verdict. -/
def Answer.Stated (answer : Answer) : Prop := answer.verdict.answer = answer

theorem Answer.stated_ofMatched (matched : Bool) : (Answer.ofMatched matched).Stated := by
  cases matched <;> rfl

theorem Answer.stated_status {status : Status} (h : status ≠ .statusMatch) :
    (Answer.status status).Stated := by
  cases status <;> first | rfl | exact absurd rfl h

theorem validateValue_cases (state : EvaluationState W) (value : Value) :
    state.validateValue value = none ∨
      state.validateValue value = some (.sentinel .abacErrSetLimitExceeded) := by
  rw [EvaluationState.validateValue]
  cases value.collectionLength with
  | none => exact Or.inl rfl
  | some length =>
    by_cases hlarge : length > state.maxSetSize
    · exact Or.inr (if_pos hlarge)
    · exact Or.inl (if_neg hlarge)

theorem test_stated (got : Value) (condition : Condition) : (condition.test got).Stated := by
  cases condition with
  | comparisonCondition reference want operator =>
    rw [Condition.test]
    split
    · rfl
    · exact Answer.stated_ofMatched _
  | inCondition reference values =>
    cases values with
    | nil => rfl
    | cons first rest =>
      rw [Condition.test]
      split
      · rfl
      · exact Answer.stated_ofMatched _
  | setContainsCondition reference value =>
    rw [Condition.test]
    split
    · rfl
    · exact Answer.stated_ofMatched _
  | stringCondition reference value operator =>
    rw [Condition.test]
    split
    · rfl
    · exact Answer.stated_ofMatched _
  | ipCondition reference network =>
    rw [Condition.test]
    split
    · rfl
    · exact Answer.stated_ofMatched _
  | _ => rfl

theorem testLoaded_stated (state : EvaluationState W) (condition : Condition)
    (reference : Reference) : (state.testLoaded condition reference).Stated := by
  rw [EvaluationState.testLoaded]
  cases state.presentValue reference with
  | none => rfl
  | some value =>
    rcases validateValue_cases state value with hvalid | hlarge
    · simp only [hvalid]
      split
      · rfl
      · exact test_stated value condition
    · simp only [hlarge]
      rfl

theorem testEqual_stated (state : EvaluationState W) (reference : Reference) (want : Value) :
    (state.testEqual reference want).Stated := by
  rw [EvaluationState.testEqual]
  cases state.presentValue reference with
  | none => rfl
  | some value =>
    rcases validateValue_cases state value with hvalid | hlarge
    · simp only [hvalid]
      split
      · split <;> rfl
      · split
        · rfl
        · exact Answer.stated_ofMatched _
    · simp only [hlarge]
      rfl

theorem ask_stated (state : EvaluationState W) (condition : Condition) :
    (state.ask condition).Stated := by
  cases condition with
  | equalCondition reference want => exact testEqual_stated state reference want
  | existsCondition reference => exact Answer.stated_ofMatched _
  | nullCondition reference => exact Answer.stated_ofMatched _
  | comparisonCondition | inCondition | setContainsCondition | stringCondition | ipCondition =>
    exact testLoaded_stated state _ _
  | nil | allCondition | anyCondition | notCondition => rfl

end Leaf

/-! ### The meaning -/

/-- A state that reads the attributes of a request; its context and budget are never
looked at. -/
def reading (request : Request) (maxSetSize : Int) : EvaluationState Unit :=
  { ctx := .background, request, maxCost := 0, maxSetSize }

section Meaning

variable (request : Request) (maxSetSize : Int)

mutual

/-- The verdict of a condition and the visits it takes. -/
def Condition.meaning : Condition → Priced Verdict
  | .nil => .free .panicked
  | .allCondition conditions => (meaningAll conditions).tick
  | .anyCondition conditions => (meaningAny .statusNoMatch conditions).tick
  | .notCondition condition =>
    (condition.meaning.bind fun verdict => .free verdict.negate).tick
  | .equalCondition reference want =>
    .tick (.free ((reading request maxSetSize).ask (.equalCondition reference want)).verdict)
  | .existsCondition reference =>
    .tick (.free ((reading request maxSetSize).ask (.existsCondition reference)).verdict)
  | .nullCondition reference =>
    .tick (.free ((reading request maxSetSize).ask (.nullCondition reference)).verdict)
  | .comparisonCondition reference want operator =>
    .tick (.free ((reading request maxSetSize).ask
      (.comparisonCondition reference want operator)).verdict)
  | .inCondition reference values =>
    .tick (.free ((reading request maxSetSize).ask (.inCondition reference values)).verdict)
  | .setContainsCondition reference value =>
    .tick (.free ((reading request maxSetSize).ask (.setContainsCondition reference value)).verdict)
  | .stringCondition reference value operator =>
    .tick (.free ((reading request maxSetSize).ask
      (.stringCondition reference value operator)).verdict)
  | .ipCondition reference network =>
    .tick (.free ((reading request maxSetSize).ask (.ipCondition reference network)).verdict)

/-- The first verdict that is not a match. -/
def meaningAll : List Condition → Priced Verdict
  | [] => .free (.decided .statusMatch)
  | condition :: rest => condition.meaning.bind fun verdict =>
      if verdict = .decided .statusMatch then meaningAll rest else .free verdict

/-- The first match or failure; `status` is the first status other than no match. -/
def meaningAny (status : Status) : List Condition → Priced Verdict
  | [] => .free (.decided status)
  | condition :: rest => condition.meaning.bind fun verdict =>
      match verdict with
      | .decided .statusMatch => .free verdict
      | .decided other =>
        meaningAny (if status = .statusNoMatch then other else status) rest
      | _ => .free verdict

end

end Meaning

theorem meaning_leaf {condition : Condition} (h : condition.isLeaf = true) (request : Request)
    (maxSetSize : Int) : condition.meaning request maxSetSize
      = .tick (.free ((reading request maxSetSize).ask condition).verdict) := by
  cases condition with
  | nil | allCondition | anyCondition | notCondition => cases h
  | _ => rw [Condition.meaning]

/-! ### The connectives -/

section Connectives

variable {request : Request} {maxSetSize : Int}

theorem meaningAll_eq_match_iff : ∀ {conditions : List Condition},
    (meaningAll request maxSetSize conditions).value = .decided .statusMatch ↔
      ∀ condition ∈ conditions,
        (condition.meaning request maxSetSize).value = .decided .statusMatch := by
  intro conditions
  induction conditions with
  | nil => simp [meaningAll]
  | cons child rest ih =>
    rw [meaningAll, Priced.bind_value, List.forall_mem_cons]
    by_cases hmatch : (child.meaning request maxSetSize).value = .decided .statusMatch
    · rw [if_pos hmatch, ih]
      exact ⟨fun h => ⟨hmatch, h⟩, And.right⟩
    · rw [if_neg hmatch]
      exact ⟨fun h => absurd h hmatch, fun h => absurd h.1 hmatch⟩

/-- Any other verdict of `All` is that of a child. -/
theorem meaningAll_eq_other {verdict : Verdict} (hother : verdict ≠ .decided .statusMatch) :
    ∀ {conditions : List Condition}, (meaningAll request maxSetSize conditions).value = verdict →
      ∃ condition ∈ conditions, (condition.meaning request maxSetSize).value = verdict := by
  intro conditions
  induction conditions with
  | nil => intro h; exact absurd h.symm hother
  | cons child rest ih =>
    intro h
    rw [meaningAll, Priced.bind_value] at h
    split at h
    · obtain ⟨condition, hmem, hcondition⟩ := ih h
      exact ⟨condition, List.mem_cons_of_mem _ hmem, hcondition⟩
    · exact ⟨child, List.mem_cons_self, h⟩

/-- One step of `Any` on a child that has a status. -/
theorem meaningAny_cons_decided {status other : Status} {child : Condition}
    (h : (child.meaning request maxSetSize).value = .decided other) (hother : other ≠ .statusMatch)
    (rest : List Condition) :
    (meaningAny request maxSetSize status (child :: rest)).value
      = (meaningAny request maxSetSize (if status = .statusNoMatch then other else status)
          rest).value := by
  rw [meaningAny, Priced.bind_value, h]
  cases other <;> first | rfl | exact absurd rfl hother

/-- A child of `Any` that does not end it has a status other than a match. -/
theorem meaningAny_cons_cases (status : Status) (child : Condition) (rest : List Condition) :
    (∃ other, other ≠ .statusMatch ∧ (child.meaning request maxSetSize).value = .decided other) ∨
      ((∀ other, other ≠ .statusMatch → (child.meaning request maxSetSize).value ≠ .decided other) ∧
        (meaningAny request maxSetSize status (child :: rest)).value
          = (child.meaning request maxSetSize).value) := by
  rw [meaningAny, Priced.bind_value]
  cases (child.meaning request maxSetSize).value with
  | decided other =>
    by_cases hother : other = .statusMatch
    · subst hother
      exact Or.inr ⟨fun other hne heq => hne (Verdict.decided.inj heq).symm, rfl⟩
    · exact Or.inl ⟨other, hother, rfl⟩
  | tooLarge => exact Or.inr ⟨fun _ _ heq => (nomatch heq), rfl⟩
  | panicked => exact Or.inr ⟨fun _ _ heq => (nomatch heq), rfl⟩

theorem meaningAny_eq_match : ∀ {conditions : List Condition} {status : Status},
    status ≠ .statusMatch →
    (meaningAny request maxSetSize status conditions).value = .decided .statusMatch →
    ∃ condition ∈ conditions,
      (condition.meaning request maxSetSize).value = .decided .statusMatch := by
  intro conditions
  induction conditions with
  | nil =>
    intro status hstatus h
    exact absurd (Verdict.decided.inj h) hstatus
  | cons child rest ih =>
    intro status hstatus h
    rcases meaningAny_cons_cases status child rest with
      ⟨other, hother, hchild⟩ | ⟨-, hvalue⟩
    · rw [meaningAny_cons_decided hchild hother] at h
      obtain ⟨condition, hmem, hcondition⟩ := ih (by split; exacts [hother, hstatus]) h
      exact ⟨condition, List.mem_cons_of_mem _ hmem, hcondition⟩
    · exact ⟨child, List.mem_cons_self, hvalue ▸ h⟩

/-- `Any` without a match has asked every child. -/
theorem meaningAny_eq_other {result : Status} (hresult : result ≠ .statusMatch) :
    ∀ {conditions : List Condition} {status : Status},
    (meaningAny request maxSetSize status conditions).value = .decided result →
    ∀ condition ∈ conditions, ∃ other, other ≠ .statusMatch ∧
      (condition.meaning request maxSetSize).value = .decided other := by
  intro conditions
  induction conditions with
  | nil => intro status _ condition hmem; exact absurd hmem List.not_mem_nil
  | cons child rest ih =>
    intro status h
    rcases meaningAny_cons_cases status child rest with
      ⟨other, hother, hchild⟩ | ⟨hne, hvalue⟩
    · rw [meaningAny_cons_decided hchild hother] at h
      exact List.forall_mem_cons.mpr ⟨⟨other, hother, hchild⟩, ih h⟩
    · exact absurd (hvalue ▸ h) (hne result hresult)

theorem meaningAny_eq_noMatch_iff : ∀ {conditions : List Condition} {status : Status},
    (meaningAny request maxSetSize status conditions).value = .decided .statusNoMatch ↔
      status = .statusNoMatch ∧ ∀ condition ∈ conditions,
        (condition.meaning request maxSetSize).value = .decided .statusNoMatch := by
  intro conditions
  induction conditions with
  | nil => intro status; simp [meaningAny]
  | cons child rest ih =>
    intro status
    rw [List.forall_mem_cons]
    rcases meaningAny_cons_cases status child rest with
      ⟨other, hother, hchild⟩ | ⟨hne, hvalue⟩
    · rw [meaningAny_cons_decided hchild hother, ih, hchild, Verdict.decided.injEq]
      by_cases hstatus : status = .statusNoMatch
      · simp [hstatus]
      · simp [hstatus]
    · have hchild := hne .statusNoMatch (by decide)
      simp [hvalue, hchild]

end Connectives

/-! ### Evaluation is a metered run -/

section Runs

variable {W : Type}

/-- The answer of a run that ended in this way. -/
def endingAnswer : Ending Verdict GoError → Answer
  | .finished verdict => verdict.answer
  | .exhausted => .returned {} (some (.sentinel .abacErrCostExceeded))
  | .interrupted err => .returned {} (some err)

/-- The context returns the error some time. -/
def Fails (ctx : Context W) (err : GoError) : Prop := ∃ w w', ctx.err w = (some err, w')

theorem not_fails {ctx : Context W} (hctx : ctx.Quiet) (err : GoError) : ¬ Fails ctx err := by
  rintro ⟨w, w', h⟩
  obtain ⟨w₁, h₁⟩ := hctx.err_eq w
  rw [h] at h₁
  cases h₁

/-- What an evaluation returns is how a metered run ends; of the state only the
counter changes. -/
def Runs (p : Priced Verdict) (state : EvaluationState W)
    (out : Answer × EvaluationState W × W) : Prop :=
  ∃ ending n w', Metered (Fails state.ctx) p state.maxCost state.cost ending n ∧
    out = (endingAnswer ending, { state with cost := n }, w')

theorem Runs.free {state : EvaluationState W} (verdict : Verdict) (w : W)
    (hcost : state.cost ≤ state.maxCost) :
    Runs (.free verdict) state (verdict.answer, state, w) :=
  ⟨.finished verdict, state.cost, w, Metered.free hcost, rfl⟩

/-- The visit is paid for, or the context or the budget ends the evaluation. -/
theorem Runs.tick {p : Priced Verdict} {state : EvaluationState W} {w : W}
    {k : EvaluationState W → W → Answer × EvaluationState W × W}
    (hcost : state.cost ≤ state.maxCost)
    (hbody : ∀ w, (state.cost + 1 : Nat) ≤ state.maxCost →
      Runs p { state with cost := state.cost + 1 } (k { state with cost := state.cost + 1 } w)) :
    Runs p.tick state (match state.consume w with
      | (some err, state, w) => (.returned {} (some err), state, w)
      | (none, state, w) => k state w) := by
  rw [EvaluationState.consume]
  rcases herr : state.ctx.err w with ⟨_ | err, w'⟩
  · by_cases hspent : (state.cost : Int) ≥ state.maxCost
    · simp only [if_pos hspent]
      exact ⟨.exhausted, state.cost, w', Metered.tick_exhausted (by omega), rfl⟩
    · simp only [if_neg hspent]
      obtain ⟨ending, n, w'', hmetered, hout⟩ := hbody w' (by omega)
      exact ⟨ending, n, w'', hmetered.tick, hout⟩
  · exact ⟨.interrupted err, state.cost, w', .interrupted ⟨w, w', herr⟩ hcost, rfl⟩

/-- A verdict is passed on; an error ends the evaluation. -/
theorem Runs.bind {p : Priced Verdict} {f : Verdict → Priced Verdict} {state : EvaluationState W}
    {out : Answer × EvaluationState W × W}
    {k : Answer → EvaluationState W → W → Answer × EvaluationState W × W}
    (hp : Runs p state out)
    (hstop : ∀ err state w, k (.returned {} (some err)) state w
      = (.returned {} (some err), state, w))
    (hrest : ∀ verdict n w, (n : Nat) ≤ state.maxCost →
      Runs (f verdict) { state with cost := n } (k verdict.answer { state with cost := n } w)) :
    Runs (p.bind f) state (k out.1 out.2.1 out.2.2) := by
  obtain ⟨ending, n, w', hmetered, rfl⟩ := hp
  cases ending with
  | finished verdict =>
    obtain ⟨ending', m, w'', hmetered', hout⟩ := hrest verdict n w' hmetered.le
    exact ⟨ending', m, w'', hmetered.bind hmetered', hout⟩
  | exhausted => exact ⟨.exhausted, n, w', hmetered.bind_exhausted, hstop _ _ _⟩
  | interrupted err => exact ⟨.interrupted err, n, w', hmetered.bind_interrupted, hstop _ _ _⟩

/-- Every evaluation of the condition is a run of its meaning. -/
def Condition.Metered (W : Type) (condition : Condition) : Prop :=
  ∀ (state : EvaluationState W) (w : W), state.cost ≤ state.maxCost →
    Runs (condition.meaning state.request state.maxSetSize) state (condition.evaluate state w)

/-- What the loop of `All` does after a child. -/
def continueAll (rest : List Condition) (answer : Answer) (state : EvaluationState W) (w : W) :
    Answer × EvaluationState W × W :=
  match answer with
  | .panicked => (.panicked, state, w)
  | .returned result err =>
    if err.isSome ∨ !result.matched then (.returned result err, state, w)
    else evaluateAll state w rest

theorem evaluateAll_cons (state : EvaluationState W) (w : W) (child : Condition)
    (rest : List Condition) : evaluateAll state w (child :: rest)
      = continueAll rest (child.evaluate state w).1 (child.evaluate state w).2.1
          (child.evaluate state w).2.2 := by
  rw [evaluateAll]
  rcases child.evaluate state w with ⟨answer | _, state', w'⟩ <;> rfl

/-- What the loop of `Any` does after a child. -/
def continueAny (status : Status) (rest : List Condition) (answer : Answer)
    (state : EvaluationState W) (w : W) : Answer × EvaluationState W × W :=
  match answer with
  | .panicked => (.panicked, state, w)
  | .returned result err =>
    if err.isSome ∨ result.matched then (.returned result err, state, w)
    else evaluateAny state w (if status = .statusNoMatch then result.status else status) rest

theorem evaluateAny_cons (state : EvaluationState W) (w : W) (status : Status) (child : Condition)
    (rest : List Condition) : evaluateAny state w status (child :: rest)
      = continueAny status rest (child.evaluate state w).1 (child.evaluate state w).2.1
          (child.evaluate state w).2.2 := by
  rw [evaluateAny]
  rcases child.evaluate state w with ⟨answer | _, state', w'⟩ <;> rfl

theorem evaluateAll_runs : ∀ conditions : List Condition,
    (∀ condition ∈ conditions, condition.Metered W) →
    ∀ (state : EvaluationState W) (w : W), state.cost ≤ state.maxCost →
      Runs (meaningAll state.request state.maxSetSize conditions) state
        (evaluateAll state w conditions) := by
  intro conditions
  induction conditions with
  | nil =>
    intro _ state w hcost
    rw [meaningAll, evaluateAll]
    exact Runs.free _ w hcost
  | cons child rest ih =>
    intro hchildren state w hcost
    obtain ⟨hchild, hrest⟩ := List.forall_mem_cons.mp hchildren
    rw [meaningAll, evaluateAll_cons]
    refine Runs.bind (hchild state w hcost) (fun _ _ _ => rfl) ?_
    intro verdict n w' hn
    cases verdict with
    | tooLarge => exact Runs.free _ w' hn
    | panicked => exact Runs.free _ w' hn
    | decided status =>
      by_cases hmatch : status = .statusMatch
      · subst hmatch
        exact ih hrest { state with cost := n } w' hn
      · rw [if_neg (fun h => hmatch (Verdict.decided.inj h))]
        have hstop : (none : Option GoError).isSome = true ∨
            (!decide (status = Status.statusMatch)) = true := Or.inr (by simp [hmatch])
        simp only [Verdict.answer, continueAll, if_pos hstop]
        exact Runs.free (.decided status) w' hn

theorem evaluateAny_runs : ∀ conditions : List Condition,
    (∀ condition ∈ conditions, condition.Metered W) →
    ∀ (status : Status) (state : EvaluationState W) (w : W), status ≠ .statusMatch →
      state.cost ≤ state.maxCost →
      Runs (meaningAny state.request state.maxSetSize status conditions) state
        (evaluateAny state w status conditions) := by
  intro conditions
  induction conditions with
  | nil =>
    intro _ status state w hstatus hcost
    rw [meaningAny, evaluateAny, ← Answer.stated_status hstatus]
    exact Runs.free _ w hcost
  | cons child rest ih =>
    intro hchildren status state w hstatus hcost
    obtain ⟨hchild, hrest⟩ := List.forall_mem_cons.mp hchildren
    rw [meaningAny, evaluateAny_cons]
    refine Runs.bind (hchild state w hcost) (fun _ _ _ => rfl) ?_
    intro verdict n w' hn
    have hcontinue : ∀ other : Status, other ≠ .statusMatch →
        Runs (meaningAny state.request state.maxSetSize
            (if status = .statusNoMatch then other else status) rest) { state with cost := n }
          (evaluateAny { state with cost := n } w'
            (if status = .statusNoMatch then other else status) rest) := by
      intro other hother
      refine ih hrest _ { state with cost := n } w' ?_ hn
      split
      · exact hother
      · exact hstatus
    cases verdict with
    | tooLarge => exact Runs.free _ w' hn
    | panicked => exact Runs.free _ w' hn
    | decided other =>
      cases other with
      | statusMatch => exact Runs.free (.decided .statusMatch) w' hn
      | statusNoMatch => exact hcontinue .statusNoMatch (by decide)
      | statusMissing => exact hcontinue .statusMissing (by decide)
      | statusNull => exact hcontinue .statusNull (by decide)
      | statusTypeMismatch => exact hcontinue .statusTypeMismatch (by decide)

/-- **Evaluating a condition is a metered run of its meaning.** -/
theorem evaluate_metered (condition : Condition) : condition.Metered W := by
  induction condition using Condition.rule with
  | nil =>
    intro state w hcost
    rw [Condition.meaning, Condition.evaluate]
    exact Runs.free .panicked w hcost
  | leaf condition hleaf =>
    intro state w hcost
    rw [meaning_leaf hleaf, evaluate_leaf hleaf]
    refine Runs.tick (k := fun state w => (state.ask condition, state, w)) hcost ?_
    intro w' hpaid
    have hstated : state.ask condition
        = ((reading state.request state.maxSetSize).ask condition).verdict.answer :=
      (ask_stated (reading state.request state.maxSetSize) condition).symm
    have hask : EvaluationState.ask { state with cost := state.cost + 1 } condition
        = state.ask condition := rfl
    rw [hask, hstated]
    exact Runs.free _ w' hpaid
  | all conditions ih =>
    intro state w hcost
    rw [Condition.meaning, Condition.evaluate]
    refine Runs.tick (k := fun state w => evaluateAll state w conditions) hcost ?_
    exact fun w' hpaid => evaluateAll_runs conditions ih _ w' hpaid
  | any conditions ih =>
    intro state w hcost
    rw [Condition.meaning, Condition.evaluate]
    refine Runs.tick (k := fun state w => evaluateAny state w .statusNoMatch conditions) hcost ?_
    exact fun w' hpaid => evaluateAny_runs conditions ih _ _ w' (by decide) hpaid
  | not condition ih =>
    intro state w hcost
    rw [Condition.meaning, Condition.evaluate]
    refine Runs.tick (k := fun state w => ((condition.evaluate state w).1.negate,
      (condition.evaluate state w).2)) hcost ?_
    intro w' hpaid
    refine Runs.bind (k := fun answer state w => (answer.negate, state, w))
      (ih { state with cost := state.cost + 1 } w' hpaid) (fun _ _ _ => rfl) ?_
    intro verdict n w'' hn
    rw [Verdict.negate_answer]
    exact Runs.free _ w'' hn

def Answer.withCost (cost : Nat) : Answer → Answer
  | .returned result err => .returned { result with cost := cost } err
  | .panicked => .panicked

theorem maxCost_pos (limits : Limits) : 0 < (normalizedLimits limits).maxCost :=
  overrideLimit_pos (by decide)

/-- `EvaluateCondition` reports how the run ended and the counter. -/
theorem evaluateCondition_runs (ctx : Context W) {condition : Condition} (request : Request)
    {limits : Limits} (w : W)
    (hvalid : validateConditionLimits condition (normalizedLimits limits) = none) :
    ∃ ending n w', Metered (Fails ctx)
        (condition.meaning request (normalizedLimits limits).maxSetSize)
        (normalizedLimits limits).maxCost 0 ending n ∧
      evaluateCondition ctx condition request limits w
        = ((endingAnswer ending).withCost n, w') := by
  have hnil : condition.isNil = false := by
    cases condition with
    | nil => revert hvalid; rw [validateConditionLimits, validateStack]; split <;> intro h <;> cases h
    | _ => rfl
  have hpos := maxCost_pos limits
  obtain ⟨ending, n, w', hmetered, hout⟩ := evaluate_metered condition
    { ctx, request, maxCost := (normalizedLimits limits).maxCost,
      maxSetSize := (normalizedLimits limits).maxSetSize } w hpos.le
  refine ⟨ending, n, w', hmetered, ?_⟩
  rw [evaluateCondition, hnil]
  simp only [hvalid, hout]
  cases hanswer : endingAnswer ending <;> rfl

/-- An evaluation without an error has found the verdict. -/
theorem evaluateCondition_decided {ctx : Context W} {condition : Condition} {request : Request}
    {limits : Limits} {w : W} {result : Result}
    (h : (evaluateCondition ctx condition request limits w).1 = .returned result none) :
    result.matched = decide (result.status = .statusMatch) ∧
      (condition.meaning request (normalizedLimits limits).maxSetSize).value
        = .decided result.status := by
  have hvalid : validateConditionLimits condition (normalizedLimits limits) = none := by
    rw [evaluateCondition] at h
    split at h
    · cases h
    · dsimp only at h
      split at h
      · cases h
      · assumption
  obtain ⟨ending, n, w', hmetered, hout⟩ := evaluateCondition_runs ctx request w hvalid
  rw [hout] at h
  cases hmetered with
  | exhausted => cases h
  | interrupted => cases h
  | finished hprice =>
    cases hverdict : (condition.meaning request (normalizedLimits limits).maxSetSize).value with
    | tooLarge => rw [hverdict] at h; cases h
    | panicked => rw [hverdict] at h; cases h
    | decided status =>
      rw [hverdict] at h
      cases h
      exact ⟨rfl, rfl⟩

end Runs

/-! ### Sample requests -/

/-- A request with these attributes. -/
def asking (attributes : Attributes) : Request :=
  ⟨⟨str "user", str "u", [], ∅⟩, str "read", ⟨str "doc", [], ∅⟩, [], {}, attributes⟩

def requested (name : String) : Reference := ⟨.request, str name⟩

end Authorization.Abac
