import Authorization.Core.ShortCircuit

/-!
# Where the order of the policies matters

A snapshot under priority order forgets the order of its definitions: the
identifiers are distinct, so priority and identifier leave no ties and there is one
sorted list.  The other algorithms keep the order.  Of these the two overriding ones
look only at which outcomes occur (`referenceOutcome_perm`), and the first
applicable policy is the one that priority order finds when the priorities descend
along the list (`sortBy_ranked`).
-/

namespace Authorization.Core

open Authorization.Foundation

variable {W : Type}

/-! ### Evaluators that only answer -/

/-- The evaluator answers the request alike in every world, without an error and
with a valid outcome. -/
def Evaluator.AnswersPurely (ctx : Context W) (request : Request) (evaluator : Evaluator W) :
    Prop :=
  ∃ decision : Decision, decision.outcome ≤ .deny ∧
    ∀ w, (evaluator ctx request w).1 = .returned decision none

/-- What a policy's evaluator answers, asked in the world `w`. -/
def answerIn (ctx : Context W) (request : Request) (w : W) (policy : PolicyEntry W) : Decision :=
  match (policy.evaluator ctx request w).1 with
  | .returned decision _ => decision
  | .panicked => {}

theorem answers_answerIn {ctx : Context W} {request : Request} {policies : List (PolicyEntry W)}
    (h : ∀ policy ∈ policies, policy.evaluator.AnswersPurely ctx request) (w : W) :
    Answers ctx request policies (answerIn ctx request w) := by
  intro policy hpolicy
  obtain ⟨decision, hle, hanswer⟩ := h policy hpolicy
  have hthis : answerIn ctx request w policy = decision := by rw [answerIn, hanswer w]
  rw [hthis]
  exact ⟨hle, hanswer⟩

/-- The outcomes of the active policies, in order. -/
def activeOutcomes (ctx : Context W) (request : Request) (w : W) (time : Time)
    (policies : List (PolicyEntry W)) : List Outcome :=
  (policies.filter fun policy => policy.InWindow time).map fun policy =>
    (answerIn ctx request w policy).outcome

/-- **The outcome of a decision** is that of the active policies together, and a
denial if none applies. -/
theorem decide_outcome (engine : Engine W) {ctx : Context W} {request : Request}
    (hvalid : request.validate = none) (hctx : ctx.Quiet)
    (hpure : ∀ policy ∈ engine.snapshot.policies, policy.evaluator.AnswersPurely ctx request)
    (w : W) :
    (engine.decide ctx request w).decision.outcome
      = if referenceOutcome engine.snapshot.algorithm (activeOutcomes ctx request w
            (engine.decisionTime ctx request w) engine.snapshot.policies) = .notApplicable then .deny
        else referenceOutcome engine.snapshot.algorithm (activeOutcomes ctx request w
          (engine.decisionTime ctx request w) engine.snapshot.policies) := by
  have hanswers := answers_answerIn hpure w
  obtain ⟨-, decision, hcombine, hdecided⟩ := decide_combined engine hvalid hctx hanswers w
  have hle : ∀ d ∈ (engine.snapshot.policies.filter fun policy =>
      policy.InWindow (engine.decisionTime ctx request w)).map (answerIn ctx request w),
      d.outcome ≤ .deny := by
    intro d hd
    obtain ⟨policy, hp, rfl⟩ := List.mem_map.mp hd
    exact (hanswers policy (List.mem_filter.mp hp).1).1
  obtain ⟨decision', hcombine', houtcome⟩ := combine_outcome engine.snapshot.algorithm_le hle
  rw [hcombine'] at hcombine
  cases hcombine
  rw [List.map_map] at houtcome
  have hfirst := congrArg Prod.fst hdecided
  rw [Decision.defaulted] at hfirst
  dsimp only at hfirst
  rw [hfirst]
  have hreference : decision.outcome = referenceOutcome engine.snapshot.algorithm
      (activeOutcomes ctx request w (engine.decisionTime ctx request w)
        engine.snapshot.policies) := houtcome
  rw [← hreference]
  split
  · rfl
  · rfl

/-- Two snapshots whose active outcomes combine alike are decided alike. -/
theorem decide_outcome_congr (engine : Engine W) {ctx : Context W} {request : Request}
    {snapshot snapshot' : Snapshot W} (hvalid : request.validate = none) (hctx : ctx.Quiet)
    (hpure : ∀ policy ∈ snapshot.policies, policy.evaluator.AnswersPurely ctx request)
    (hpure' : ∀ policy ∈ snapshot'.policies, policy.evaluator.AnswersPurely ctx request) (w : W)
    (hsame : ∀ time, referenceOutcome snapshot'.algorithm
        (activeOutcomes ctx request w time snapshot'.policies)
      = referenceOutcome snapshot.algorithm
        (activeOutcomes ctx request w time snapshot.policies)) :
    ({ engine with snapshot := snapshot' }.decide ctx request w).decision.outcome
      = ({ engine with snapshot := snapshot }.decide ctx request w).decision.outcome := by
  have htime : ∀ held : Snapshot W, { engine with snapshot := held }.decisionTime ctx request w
      = engine.decisionTime ctx request w := fun _ => rfl
  rw [decide_outcome _ hvalid hctx hpure' w, decide_outcome _ hvalid hctx hpure w]
  simp only [htime, hsame]

/-! ### The overriding algorithms -/

theorem overriding_perm (winner other : Outcome) {outcomes outcomes' : List Outcome}
    (h : outcomes.Perm outcomes') :
    overriding winner other outcomes = overriding winner other outcomes' := by
  simp only [overriding, h.mem_iff]

theorem referenceOutcome_perm {algorithm : CombiningAlgorithm}
    (ha : algorithm = .denyOverrides ∨ algorithm = .allowOverrides)
    {outcomes outcomes' : List Outcome} (h : outcomes.Perm outcomes') :
    referenceOutcome algorithm outcomes = referenceOutcome algorithm outcomes' := by
  unfold referenceOutcome
  rcases ha with rfl | rfl
  · exact overriding_perm _ _ h
  · exact overriding_perm _ _ h

/-! ### Definitions in another order -/

/-- The snapshot of the definitions in the order given. -/
theorem newSnapshot_perm {revision : Revision} {algorithm : CombiningAlgorithm}
    {definitions definitions' : List (PolicyDefinition W)} {snapshot : Snapshot W}
    (hnew : newSnapshot revision algorithm definitions = .ok snapshot)
    (hperm : definitions'.Perm definitions) :
    ∃ snapshot', newSnapshot revision algorithm definitions' = .ok snapshot' ∧
      snapshot'.revision = snapshot.revision ∧ snapshot'.algorithm = snapshot.algorithm ∧
      snapshot'.policies.Perm snapshot.policies ∧
      (algorithm = .priorityOrder → snapshot'.policies = snapshot.policies) := by
  obtain ⟨hr, ha, entries, hentries, hrevision, halgorithm, hpolicies⟩ := newSnapshot_eq_ok.mp hnew
  obtain ⟨hnodup, -, hadmits⟩ := newEntries_eq_ok_iff.mp hentries
  obtain ⟨entries', hadmits', hperm'⟩ := List.perm_comp_forall₂ hperm hadmits
  have hentries' : newEntries revision 0 [] definitions' = .ok entries' :=
    newEntries_eq_ok_iff.mpr ⟨(hperm.map _).nodup_iff.mpr hnodup, fun _ _ => List.not_mem_nil,
      hadmits'⟩
  refine ⟨⟨revision, algorithm, orderPolicies algorithm entries', hr, ha,
    ((orderPolicies_perm algorithm entries').map _).nodup_iff.mpr (newEntries_ids hentries').1⟩,
    newSnapshot_eq_ok.mpr ⟨hr, ha, entries', hentries', rfl, rfl, rfl⟩, hrevision.symm,
    halgorithm.symm, ?_, ?_⟩
  · rw [hpolicies]
    exact (orderPolicies_perm algorithm entries').trans
      (hperm'.trans (orderPolicies_perm algorithm entries).symm)
  · rintro rfl
    show orderPolicies .priorityOrder entries' = snapshot.policies
    rw [hpolicies, orderPolicies, if_pos rfl, orderPolicies, if_pos rfl]
    exact sortBy_eq_of_perm _ hperm' (PriorityLe.eq_of_nodup (newEntries_ids hentries').1)

theorem Snapshot.ext_fields {snapshot snapshot' : Snapshot W}
    (hrevision : snapshot.revision = snapshot'.revision)
    (halgorithm : snapshot.algorithm = snapshot'.algorithm)
    (hpolicies : snapshot.policies = snapshot'.policies) : snapshot = snapshot' := by
  obtain ⟨r, a, ps, _, _, _⟩ := snapshot
  obtain ⟨r', a', ps', _, _, _⟩ := snapshot'
  dsimp only at hrevision halgorithm hpolicies
  subst hrevision halgorithm hpolicies
  rfl

/-! ### Priorities along the list -/

/-- A definition with its priority forgotten. -/
def PolicyDefinition.unranked (definition : PolicyDefinition W) : PolicyDefinition W :=
  { definition with priority := 0 }

def PolicyEntry.unranked (policy : PolicyEntry W) : PolicyEntry W := { policy with priority := 0 }

theorem PolicyDefinition.eq_of_unranked {definition other : PolicyDefinition W}
    (h : other.unranked = definition.unranked) :
    other = { definition with priority := other.priority } := by
  have hback : other = { other.unranked with priority := other.priority } := rfl
  rw [hback, h]
  rfl

theorem map_id_of_unranked {definitions ranked : List (PolicyDefinition W)}
    (h : ranked.map PolicyDefinition.unranked = definitions.map PolicyDefinition.unranked) :
    ranked.map PolicyDefinition.id = definitions.map PolicyDefinition.id := by
  have hids := congrArg (List.map PolicyDefinition.id) h
  rw [List.map_map, List.map_map] at hids
  exact hids

/-- Other priorities do not keep a definition from being admitted, and show in the
priorities of the entries only. -/
theorem admits_ranked {revision : Revision} {definitions : List (PolicyDefinition W)}
    {entries : List (PolicyEntry W)}
    (h : List.Forall₂ (PolicyDefinition.Admits revision) definitions entries) :
    ∀ {ranked : List (PolicyDefinition W)},
      ranked.map PolicyDefinition.unranked = definitions.map PolicyDefinition.unranked →
      ∃ entries', List.Forall₂ (PolicyDefinition.Admits revision) ranked entries' ∧
        entries'.map PolicyEntry.unranked = entries.map PolicyEntry.unranked := by
  induction h with
  | nil =>
    intro ranked hsame
    obtain rfl := List.map_eq_nil_iff.mp hsame
    exact ⟨[], .nil, rfl⟩
  | @cons definition policy _ _ hadmits _ ih =>
    intro ranked hsame
    cases ranked with
    | nil => cases hsame
    | cons other rest =>
      rw [List.map_cons, List.map_cons] at hsame
      injection hsame with hfirst hrest
      have hother := PolicyDefinition.eq_of_unranked hfirst
      obtain ⟨entries', hadmits', hsame'⟩ := ih hrest
      refine ⟨other.entry revision policy.evaluator :: entries', .cons ⟨?_, ?_, ?_, rfl⟩ hadmits', ?_⟩
      · rw [hother]
        exact hadmits.evaluator
      · rw [hother]
        exact hadmits.id_ne
      · rw [hother]
        exact hadmits.window
      · rw [List.map_cons, List.map_cons, hsame', hother, hadmits.entry]
        rfl

/-- The entries have the priorities of the definitions. -/
theorem map_priority_of_admits {revision : Revision} {definitions : List (PolicyDefinition W)}
    {entries : List (PolicyEntry W)}
    (h : List.Forall₂ (PolicyDefinition.Admits revision) definitions entries) :
    entries.map PolicyEntry.priority = definitions.map PolicyDefinition.priority := by
  induction h with
  | nil => rfl
  | cons hadmits _ ih =>
    rw [List.map_cons, List.map_cons, ih, hadmits.entry]
    rfl

/-- A list of descending priorities is sorted. -/
theorem sortBy_ranked {entries : List (PolicyEntry W)}
    (h : (entries.map PolicyEntry.priority).Pairwise (· > ·)) :
    sortBy (PriorityLe PolicyEntry.priority PolicyEntry.id) entries = entries := by
  have hsorted : entries.Pairwise (PriorityLe PolicyEntry.priority PolicyEntry.id) :=
    (List.pairwise_map.mp h).imp fun hlt => Or.inl hlt
  exact hsorted.insertionSort_eq

theorem activeOutcomes_unranked (ctx : Context W) (request : Request) (w : W) (time : Time)
    (policies : List (PolicyEntry W)) :
    activeOutcomes ctx request w time (policies.map PolicyEntry.unranked)
      = activeOutcomes ctx request w time policies := by
  unfold activeOutcomes
  rw [List.filter_map, List.map_map]
  rfl

/-- The snapshot of the definitions with descending priorities, under priority order. -/
theorem newSnapshot_ranked {revision : Revision} {definitions ranked : List (PolicyDefinition W)}
    {snapshot : Snapshot W}
    (hnew : newSnapshot revision .firstApplicable definitions = .ok snapshot)
    (hsame : ranked.map PolicyDefinition.unranked = definitions.map PolicyDefinition.unranked)
    (hranked : (ranked.map PolicyDefinition.priority).Pairwise (· > ·)) :
    ∃ snapshot', newSnapshot revision .priorityOrder ranked = .ok snapshot' ∧
      snapshot'.policies.map PolicyEntry.unranked
        = snapshot.policies.map PolicyEntry.unranked := by
  obtain ⟨hr, -, entries, hentries, -, -, hpolicies⟩ := newSnapshot_eq_ok.mp hnew
  obtain ⟨hnodup, -, hadmits⟩ := newEntries_eq_ok_iff.mp hentries
  obtain ⟨entries', hadmits', hunranked⟩ := admits_ranked hadmits hsame
  have hentries' : newEntries revision 0 [] ranked = .ok entries' :=
    newEntries_eq_ok_iff.mpr ⟨by rw [map_id_of_unranked hsame]; exact hnodup,
      fun _ _ => List.not_mem_nil, hadmits'⟩
  have hordered : orderPolicies .priorityOrder entries' = entries' := by
    rw [orderPolicies, if_pos rfl]
    refine sortBy_ranked ?_
    rw [map_priority_of_admits hadmits']
    exact hranked
  refine ⟨⟨revision, .priorityOrder, entries', hr, le_refl _, (newEntries_ids hentries').1⟩,
    newSnapshot_eq_ok.mpr ⟨hr, le_refl _, entries', hentries', rfl, rfl, hordered.symm⟩, ?_⟩
  rw [hpolicies]
  exact hunranked

/-! ### The statement -/

/-- The evaluators of the definitions only answer. -/
def AnswerPurely (ctx : Context W) (request : Request) (definitions : List (PolicyDefinition W)) :
    Prop :=
  ∀ definition ∈ definitions, ∀ evaluator, definition.evaluator = some evaluator →
    Evaluator.AnswersPurely ctx request evaluator

/-- The policies of a snapshot are those of its definitions. -/
theorem exists_definition {revision : Revision} {algorithm : CombiningAlgorithm}
    {definitions : List (PolicyDefinition W)} {snapshot : Snapshot W}
    (hnew : newSnapshot revision algorithm definitions = .ok snapshot) {policy : PolicyEntry W}
    (hpolicy : policy ∈ snapshot.policies) :
    ∃ definition ∈ definitions, definition.Admits revision policy := by
  obtain ⟨-, -, entries, hentries, -, -, hpolicies⟩ := newSnapshot_eq_ok.mp hnew
  obtain ⟨-, -, hadmits⟩ := newEntries_eq_ok_iff.mp hentries
  rw [hpolicies, (orderPolicies_perm algorithm entries).mem_iff] at hpolicy
  obtain ⟨i, hi, rfl⟩ := List.getElem_of_mem hpolicy
  have hi' : i < definitions.length := by rw [hadmits.length_eq]; exact hi
  exact ⟨definitions[i], List.getElem_mem hi', hadmits.get hi' hi⟩

theorem AnswerPurely.policies {ctx : Context W} {request : Request} {revision : Revision}
    {algorithm : CombiningAlgorithm} {definitions : List (PolicyDefinition W)}
    {snapshot : Snapshot W} (h : AnswerPurely ctx request definitions)
    (hnew : newSnapshot revision algorithm definitions = .ok snapshot) :
    ∀ policy ∈ snapshot.policies, policy.evaluator.AnswersPurely ctx request := by
  intro policy hpolicy
  obtain ⟨definition, hmem, hadmits⟩ := exists_definition hnew hpolicy
  exact h definition hmem policy.evaluator hadmits.evaluator

/-- **The order of the definitions matters only where the algorithm says so.** -/
theorem definitions_order {revision : Revision} {algorithm : CombiningAlgorithm}
    {definitions : List (PolicyDefinition W)} {snapshot : Snapshot W}
    (hnew : newSnapshot revision algorithm definitions = .ok snapshot) :
    -- every policy carries what its definition says
    (∃ entries, List.Forall₂ (PolicyDefinition.Admits revision) definitions entries ∧
      snapshot.policies.Perm entries) ∧
    -- priority order: one sequence, whatever the order of the definitions
    (algorithm = .priorityOrder →
      snapshot.policies.Pairwise (PriorityLt PolicyEntry.priority PolicyEntry.id) ∧
      ∀ definitions', definitions'.Perm definitions →
        newSnapshot revision algorithm definitions' = .ok snapshot) ∧
    -- the overriding algorithms: one outcome
    (algorithm = .denyOverrides ∨ algorithm = .allowOverrides →
      ∀ definitions', definitions'.Perm definitions →
        ∃ snapshot', newSnapshot revision algorithm definitions' = .ok snapshot' ∧
          ∀ (engine : Engine W) (ctx : Context W) (request : Request) (w : W), ctx.Quiet →
            request.validate = none → AnswerPurely ctx request definitions →
            ({ engine with snapshot := snapshot' }.decide ctx request w).decision.outcome
              = ({ engine with snapshot := snapshot }.decide ctx request w).decision.outcome) ∧
    -- first applicable: priority order with descending priorities
    (algorithm = .firstApplicable →
      ∀ ranked, ranked.map PolicyDefinition.unranked = definitions.map PolicyDefinition.unranked →
        (ranked.map PolicyDefinition.priority).Pairwise (· > ·) →
        ∃ snapshot', newSnapshot revision .priorityOrder ranked = .ok snapshot' ∧
          ∀ (engine : Engine W) (ctx : Context W) (request : Request) (w : W), ctx.Quiet →
            request.validate = none → AnswerPurely ctx request definitions →
            ({ engine with snapshot := snapshot' }.decide ctx request w).decision.outcome
              = ({ engine with snapshot := snapshot }.decide ctx request w).decision.outcome) := by
  obtain ⟨-, -, entries, hentries, hrevision, halgorithm, hpolicies⟩ := newSnapshot_eq_ok.mp hnew
  refine ⟨⟨entries, (newEntries_eq_ok_iff.mp hentries).2.2, ?_⟩, ?_, ?_, ?_⟩
  · rw [hpolicies]
    exact orderPolicies_perm algorithm entries
  · rintro rfl
    constructor
    · rw [hpolicies, orderPolicies, if_pos rfl]
      exact pairwise_priorityLt (newEntries_ids hentries).1
    · intro definitions' hperm
      obtain ⟨snapshot', hnew', hr, ha, -, hsame⟩ := newSnapshot_perm hnew hperm
      rw [hnew', Snapshot.ext_fields hr ha (hsame rfl)]
  · intro hoverrides definitions' hperm
    obtain ⟨snapshot', hnew', -, ha, hpolicies', -⟩ := newSnapshot_perm hnew hperm
    refine ⟨snapshot', hnew', ?_⟩
    intro engine ctx request w hctx hvalid hpure
    have hpure' : AnswerPurely ctx request definitions' :=
      fun definition hmem => hpure definition (hperm.mem_iff.mp hmem)
    refine decide_outcome_congr engine hvalid hctx (hpure.policies hnew) (hpure'.policies hnew') w ?_
    intro time
    rw [ha]
    exact referenceOutcome_perm (halgorithm ▸ hoverrides) ((hpolicies'.filter _).map _)
  · rintro rfl ranked hsame hranked
    obtain ⟨snapshot', hnew', hpolicies'⟩ := newSnapshot_ranked hnew hsame hranked
    refine ⟨snapshot', hnew', ?_⟩
    intro engine ctx request w hctx hvalid hpure
    have halgorithm' : snapshot'.algorithm = .priorityOrder := by
      obtain ⟨-, -, -, -, -, h, -⟩ := newSnapshot_eq_ok.mp hnew'
      exact h
    have hpure' : ∀ policy ∈ snapshot'.policies,
        policy.evaluator.AnswersPurely ctx request := by
      intro policy hpolicy
      have hmem : policy.unranked ∈ snapshot.policies.map PolicyEntry.unranked :=
        hpolicies' ▸ List.mem_map_of_mem hpolicy
      obtain ⟨other, hother, heq⟩ := List.mem_map.mp hmem
      have hevaluator : other.unranked.evaluator = policy.unranked.evaluator := by rw [heq]
      have hother := hpure.policies hnew other hother
      rw [show other.evaluator = policy.evaluator from hevaluator] at hother
      exact hother
    refine decide_outcome_congr engine hvalid hctx (hpure.policies hnew) hpure' w ?_
    intro time
    rw [← activeOutcomes_unranked, hpolicies', activeOutcomes_unranked, halgorithm', halgorithm]
    rfl

/-- An allowance and a denial of higher priority. -/
def rankedDefinitions : List (PolicyDefinition Unit) :=
  [{ id := str "yes", evaluator := some fun _ _ w => (.returned { outcome := .allow } none, w) },
    { id := str "no", priority := 1,
      evaluator := some fun _ _ w => (.returned { outcome := .deny } none, w) }]

theorem definitions_order_ranked :
    (∃ snapshot, newSnapshot 1 .priorityOrder rankedDefinitions = .ok snapshot ∧
      snapshot.policies.map PolicyEntry.id = [str "no", str "yes"] ∧
      newSnapshot 1 .priorityOrder rankedDefinitions.reverse = .ok snapshot) ∧
    ∃ snapshot snapshot' request, newSnapshot 1 .allowOverrides rankedDefinitions = .ok snapshot ∧
      newSnapshot 1 .allowOverrides rankedDefinitions.reverse = .ok snapshot' ∧
      ({ stoppingEngine with snapshot := snapshot' }.decide .background request ()).decision.outcome
        = ({ stoppingEngine with snapshot := snapshot }.decide .background request
            ()).decision.outcome := by
  have hranked : newSnapshot 1 .priorityOrder rankedDefinitions = .ok _ := rfl
  have hoverrides : newSnapshot 1 .allowOverrides rankedDefinitions = .ok _ := rfl
  refine ⟨⟨_, hranked, by decide, ?_⟩, ?_⟩
  · exact ((definitions_order hranked).2.1 rfl).2 _ (List.reverse_perm _)
  · obtain ⟨snapshot', hnew', hsame⟩ := (definitions_order hoverrides).2.2.1 (Or.inr rfl) _
      (List.reverse_perm _)
    refine ⟨_, snapshot', ⟨⟨str "user", str "u", [], ∅⟩, str "read", ⟨str "doc", [], ∅⟩, [], {}, ∅⟩,
      hoverrides, hnew', hsame stoppingEngine .background _ () Context.quiet_background rfl ?_⟩
    intro definition hmem evaluator hevaluator
    rcases List.mem_cons.mp hmem with rfl | hmem
    · cases hevaluator
      exact ⟨_, by decide, fun _ => rfl⟩
    · obtain rfl := List.mem_singleton.mp hmem
      cases hevaluator
      exact ⟨_, by decide, fun _ => rfl⟩

end Authorization.Core
