import Authorization.Core.Engine
import Authorization.Foundation.Transition

/-!
# Concurrent replacement and decisions

Any number of goroutines call `ReplaceSnapshot`, `Decide` and `DecideBatch` on
one engine.  Each call is a caller with its own phase, and a step moves one
caller through one of the source's statements: the checks, taking the mutex,
the load, the two comparisons, the store, the unlock.  A decision loads the
snapshot once and then evaluates, for a batch one request at a time, each in a
world of the scheduler's choice.

A call that nobody interrupts does what the function of the source does:
`EngineState.run_decide`, `EngineState.run_decideBatch` and
`EngineState.run_replaceSnapshot`.

Two lists are kept for the statements: `history`, the snapshots installed so
far, the active one last, and `installs`, the callers that installed all but
the first.  Whoever holds the mutex is the only one who can store, so what it
loaded is still active when it stores (`CallerOk`), and that makes the
installations one chain.
-/

namespace Authorization.Core

open Authorization.Foundation

variable {W : Type}

/-! ### Callers -/

/-- Where a `ReplaceSnapshot` stands. -/
inductive ReplacePhase (W : Type)
  | called
  /-- The checks passed; the mutex is not taken yet. -/
  | waiting (next : Snapshot W)
  | locked (next : Snapshot W)
  | loaded (next current : Snapshot W)
  /-- The expectation matched. -/
  | matched (next current : Snapshot W)
  /-- The next revision is newer. -/
  | storing (next : Snapshot W)
  | unlocking (err : Option GoError)
  | returned (err : Option GoError)

/-- Where a `Decide` stands.  A finished call knows how many snapshots had been
installed when it returned. -/
inductive DecidePhase (W : Type)
  | called
  | loaded (snapshot : Snapshot W)
  | returned (finish : Nat) (result : DecideResult W)

/-- Where a `DecideBatch` stands: the results so far and the requests to come. -/
inductive BatchPhase (W : Type)
  | called
  | loaded (snapshot : Snapshot W) (results : List (DecideResult W)) (rest : List Request)
  | returned (finish : Nat) (decisions : Option (List Decision)) (err : Option GoError)

/-- A call with its arguments.  `start` is the number of snapshots installed
when it was made. -/
inductive Caller (W : Type)
  | replace (next : Option (Snapshot W)) (expected : Revision) (phase : ReplacePhase W)
  | decide (ctx : Context W) (request : Request) (start : Nat) (phase : DecidePhase W)
  | batch (ctx : Context W) (requests : List Request) (start : Nat) (phase : BatchPhase W)

structure EngineState (W : Type) where
  snapshot : Snapshot W
  /-- The caller that holds `replaceMu`. -/
  holder : Option Nat
  callers : List (Caller W)
  history : List (Snapshot W)
  installs : List Nat

inductive EngineAction (W : Type)
  | replaceSnapshot (next : Option (Snapshot W)) (expected : Revision)
  | decide (ctx : Context W) (request : Request)
  | decideBatch (ctx : Context W) (requests : List Request)
  /-- The caller's next statement. -/
  | step (caller : Nat)
  /-- The caller's next evaluation, in the given world. -/
  | evaluate (caller : Nat) (w : W)

namespace EngineState

def initial (engine : Engine W) : EngineState W where
  snapshot := engine.snapshot
  holder := none
  callers := []
  history := [engine.snapshot]
  installs := []

def enter (s : EngineState W) (caller : Caller W) : EngineState W :=
  { s with callers := s.callers ++ [caller] }

def move (s : EngineState W) (i : Nat) (caller : Caller W) : EngineState W :=
  { s with callers := s.callers.set i caller }

/-- `engine.snapshot.Store(next)` by caller `i`. -/
def store (s : EngineState W) (i : Nat) (next : Snapshot W) : EngineState W :=
  { s with
    snapshot := next
    history := s.history ++ [next]
    installs := s.installs ++ [i] }

/-- One statement of `ReplaceSnapshot`. -/
def stepReplace (engine : Engine W) (s : EngineState W) (i : Nat) (next : Option (Snapshot W))
    (expected : Revision) : ReplacePhase W → Option (EngineState W)
  | .called =>
    match next with
    | none => s.move i (.replace next expected (.returned (some (.sentinel .errNilSnapshot))))
    | some n =>
      if n.policies.length > engine.limits.maxPolicies then
        s.move i (.replace next expected (.returned (some (.sentinel .errPolicyLimitExceeded))))
      else s.move i (.replace next expected (.waiting n))
  | .waiting n =>
    if s.holder = none then
      some { s.move i (.replace next expected (.locked n)) with holder := some i }
    else none
  | .locked n => s.move i (.replace next expected (.loaded n s.snapshot))
  | .loaded n current =>
    if current.revision ≠ expected then
      s.move i (.replace next expected (.unlocking (some (.sentinel .errRevisionConflict))))
    else s.move i (.replace next expected (.matched n current))
  | .matched n current =>
    if n.revision ≤ current.revision then
      s.move i (.replace next expected (.unlocking (some (.sentinel .errRevisionNotMonotonic))))
    else s.move i (.replace next expected (.storing n))
  | .storing n => (s.store i n).move i (.replace next expected (.unlocking none))
  | .unlocking err =>
    some { s.move i (.replace next expected (.returned err)) with holder := none }
  | .returned _ => none

/-- The load of a decision, and the return of a batch. -/
def stepRead (engine : Engine W) (s : EngineState W) (i : Nat) : Caller W → Option (EngineState W)
  | .replace next expected phase => stepReplace engine s i next expected phase
  | .decide ctx request start .called => s.move i (.decide ctx request start (.loaded s.snapshot))
  | .decide .. => none
  | .batch ctx requests start .called =>
    if requests.length > engine.limits.maxBatchSize then
      s.move i (.batch ctx requests start
        (.returned s.installs.length none (some (.sentinel .errBatchLimitExceeded))))
    else s.move i (.batch ctx requests start (.loaded s.snapshot [] requests))
  | .batch ctx requests start (.loaded _ results []) =>
    s.move i (.batch ctx requests start (.returned s.installs.length
      (some (results.map DecideResult.decision)) (GoError.join (results.filterMap DecideResult.err))))
  | .batch .. => none

/-- One call of `engine.decide`. -/
def stepEvaluate (engine : Engine W) (s : EngineState W) (i : Nat) (w : W) :
    Caller W → Option (EngineState W)
  | .decide ctx request start (.loaded snapshot) =>
    s.move i (.decide ctx request start
      (.returned s.installs.length (engine.decideWith ctx request snapshot w)))
  | .batch ctx requests start (.loaded snapshot results (request :: rest)) =>
    s.move i (.batch ctx requests start
      (.loaded snapshot (results ++ [engine.decideWith ctx request snapshot w]) rest))
  | _ => none

def step (engine : Engine W) (s : EngineState W) : EngineAction W → Option (EngineState W)
  | .replaceSnapshot next expected => s.enter (.replace next expected .called)
  | .decide ctx request => s.enter (.decide ctx request s.installs.length .called)
  | .decideBatch ctx requests => s.enter (.batch ctx requests s.installs.length .called)
  | .step i => (s.callers[i]?).bind (stepRead engine s i)
  | .evaluate i w => (s.callers[i]?).bind (stepEvaluate engine s i w)

end EngineState

/-- The callers of an engine that `NewEngine` built. -/
def engineSystem (engine : Engine W) : System (EngineState W) (EngineAction W) where
  init s := (∃ now snapshot options, newEngine now snapshot options = .ok engine) ∧
    s = .initial engine
  step := EngineState.step engine

/-! ### Without interruption -/

section Uninterrupted

variable {engine : Engine W} {s : EngineState W}

/-- The caller that came last makes its next statement. -/
theorem EngineState.step_enter (caller : Caller W) :
    (engineSystem engine).step (s.enter caller) (.step s.callers.length)
      = (s.enter caller).stepRead engine s.callers.length caller := by
  show ((s.callers ++ [caller])[s.callers.length]?).bind _ = _
  rw [List.getElem?_concat_length]
  rfl

theorem EngineState.evaluate_enter (caller : Caller W) (w : W) :
    (engineSystem engine).step (s.enter caller) (.evaluate s.callers.length w)
      = (s.enter caller).stepEvaluate engine s.callers.length w caller := by
  show ((s.callers ++ [caller])[s.callers.length]?).bind _ = _
  rw [List.getElem?_concat_length]
  rfl

theorem EngineState.move_enter (caller caller' : Caller W) :
    (s.enter caller).move s.callers.length caller' = s.enter caller' := by
  have hset : (s.callers ++ [caller]).set s.callers.length caller' = s.callers ++ [caller'] := by
    rw [List.set_append_right _ _ le_rfl, Nat.sub_self]
    rfl
  unfold EngineState.move EngineState.enter
  rw [hset]

/-- The evaluations of a batch, each in the world the one before left, and its return. -/
def batchSteps (engine : Engine W) (ctx : Context W) (snapshot : Snapshot W) (i : Nat) :
    List Request → W → List (EngineAction W)
  | [], _ => [.step i]
  | request :: rest, w =>
    .evaluate i w ::
      batchSteps engine ctx snapshot i rest (engine.decideWith ctx request snapshot w).world

theorem EngineState.run_batchSteps (ctx : Context W) (requests : List Request) (start : Nat)
    (snapshot : Snapshot W) : ∀ (rest : List Request) (results : List (DecideResult W)) (w : W),
    (engineSystem engine).run (s.enter (.batch ctx requests start (.loaded snapshot results rest)))
        (batchSteps engine ctx snapshot s.callers.length rest w)
      = some (s.enter (.batch ctx requests start (.returned s.installs.length
          (some ((results ++ (engine.decideAll ctx snapshot rest w).1).map DecideResult.decision))
          (GoError.join ((results ++ (engine.decideAll ctx snapshot rest w).1).filterMap
            DecideResult.err))))) := by
  intro rest
  induction rest with
  | nil =>
    intro results w
    refine System.run_of_step ((EngineState.step_enter _).trans ?_) rfl
    rw [Engine.decideAll, List.append_nil]
    exact congrArg some (EngineState.move_enter _ _)
  | cons request rest ih =>
    intro results w
    have hstep : (s.enter (.batch ctx requests start (.loaded snapshot results
        (request :: rest)))).stepEvaluate engine s.callers.length w
          (.batch ctx requests start (.loaded snapshot results (request :: rest)))
        = some (s.enter (.batch ctx requests start (.loaded snapshot
          (results ++ [engine.decideWith ctx request snapshot w]) rest))) :=
      congrArg some (EngineState.move_enter _ _)
    refine System.run_of_step ((EngineState.evaluate_enter _ w).trans hstep) ?_
    rw [ih, Engine.decideAll, List.append_assoc]
    rfl

/-- The snapshot an engine holds plays no part once another was loaded. -/
theorem Engine.decideAll_with (held : Snapshot W) (ctx : Context W) (snapshot : Snapshot W) :
    ∀ (requests : List Request) (w : W),
      ({ engine with snapshot := held } : Engine W).decideAll ctx snapshot requests w
        = engine.decideAll ctx snapshot requests w := by
  intro requests
  induction requests with
  | nil => intro w; rfl
  | cons request rest ih =>
    intro w
    have hdecide : ({ engine with snapshot := held } : Engine W).decideWith ctx request snapshot w
        = engine.decideWith ctx request snapshot w := rfl
    rw [decideAll, decideAll, hdecide]
    dsimp only
    rw [ih]

/-- **A batch that nobody interrupts returns what `DecideBatch` returns.** -/
theorem EngineState.run_decideBatch (ctx : Context W) (requests : List Request) (w : W) :
    ∃ actions, (engineSystem engine).run s actions = some (s.enter (.batch ctx requests
      s.installs.length (.returned s.installs.length
        ({ engine with snapshot := s.snapshot }.decideBatch ctx requests w).1
        ({ engine with snapshot := s.snapshot }.decideBatch ctx requests w).2.1))) := by
  have hcall : (engineSystem engine).step s (.decideBatch ctx requests)
      = some (s.enter (.batch ctx requests s.installs.length .called)) := rfl
  unfold Engine.decideBatch
  by_cases hover : (requests.length : Int) > engine.limits.maxBatchSize
  · refine ⟨[.decideBatch ctx requests, .step s.callers.length], System.run_of_step hcall
      (System.run_of_step ((EngineState.step_enter _).trans ?_) rfl)⟩
    rw [EngineState.stepRead, if_pos hover, if_pos hover, EngineState.move_enter]
    rfl
  · have hload : (s.enter (.batch ctx requests s.installs.length .called)).stepRead engine
        s.callers.length (.batch ctx requests s.installs.length .called)
        = some (s.enter (.batch ctx requests s.installs.length
          (.loaded s.snapshot [] requests))) := by
      rw [EngineState.stepRead, if_neg hover, EngineState.move_enter]
      rfl
    refine ⟨.decideBatch ctx requests :: .step s.callers.length ::
        batchSteps engine ctx s.snapshot s.callers.length requests w,
      System.run_of_step hcall (System.run_of_step ((EngineState.step_enter _).trans hload) ?_)⟩
    have hall : ({ engine with snapshot := s.snapshot } : Engine W).decideAll ctx s.snapshot requests w
        = engine.decideAll ctx s.snapshot requests w := Engine.decideAll_with _ _ _ _ _
    rw [EngineState.run_batchSteps, if_neg hover]
    dsimp only
    rw [hall]
    rfl

/-- **A decision that nobody interrupts returns what `Decide` returns.** -/
theorem EngineState.run_decide (ctx : Context W) (request : Request) (w : W) :
    ∃ actions, (engineSystem engine).run s actions = some (s.enter (.decide ctx request
      s.installs.length (.returned s.installs.length
        ({ engine with snapshot := s.snapshot }.decide ctx request w)))) := by
  have hcall : (engineSystem engine).step s (.decide ctx request)
      = some (s.enter (.decide ctx request s.installs.length .called)) := rfl
  have hload : (s.enter (.decide ctx request s.installs.length .called)).stepRead engine
      s.callers.length (.decide ctx request s.installs.length .called)
      = some (s.enter (.decide ctx request s.installs.length (.loaded s.snapshot))) :=
    congrArg some (EngineState.move_enter _ _)
  have hevaluate : (s.enter (.decide ctx request s.installs.length
      (.loaded s.snapshot))).stepEvaluate engine s.callers.length w
        (.decide ctx request s.installs.length (.loaded s.snapshot))
      = some (s.enter (.decide ctx request s.installs.length (.returned s.installs.length
        (engine.decideWith ctx request s.snapshot w)))) :=
    congrArg some (EngineState.move_enter _ _)
  exact ⟨[.decide ctx request, .step s.callers.length, .evaluate s.callers.length w],
    System.run_of_step hcall (System.run_of_step ((EngineState.step_enter _).trans hload)
      (System.run_of_step ((EngineState.evaluate_enter _ w).trans hevaluate) rfl))⟩

variable (engine s) in
/-- The replacement that came last moves, whatever becomes of the rest of the state. -/
theorem EngineState.step_replace (s' : EngineState W) (next : Option (Snapshot W))
    (expected : Revision) (phase phase' : ReplacePhase W)
    (hstep : (s.enter (.replace next expected phase)).stepReplace engine s.callers.length next
      expected phase = some ((s'.enter (.replace next expected phase)).move s'.callers.length
        (.replace next expected phase'))) :
    (engineSystem engine).step (s.enter (.replace next expected phase)) (.step s.callers.length)
      = some (s'.enter (.replace next expected phase')) := by
  rw [EngineState.step_enter, EngineState.stepRead, hstep, EngineState.move_enter]

/-- What a call of `ReplaceSnapshot` that came last has done when it returned. -/
structure EngineState.Replaces (engine : Engine W) (s : EngineState W)
    (next : Option (Snapshot W)) (expected : Revision) (s' : EngineState W) : Prop where
  holder : s'.holder = none
  snapshot : s'.snapshot
    = ({ engine with snapshot := s.snapshot }.replaceSnapshot next expected).2.snapshot
  callers : s'.callers = s.callers ++ [.replace next expected (.returned
    ({ engine with snapshot := s.snapshot }.replaceSnapshot next expected).1)]

/-- From the load under the mutex to the return. -/
theorem EngineState.run_loaded {next : Snapshot W}
    (hfits : ¬ (next.policies.length : Int) > engine.limits.maxPolicies) (expected : Revision) :
    ∃ actions s', (engineSystem engine).run
        (s.enter (.replace (some next) expected (.loaded next s.snapshot))) actions = some s' ∧
      s.Replaces engine (some next) expected s' := by
  have hunlock : ∀ (t : EngineState W) (err : Option GoError), (engineSystem engine).step
      (t.enter (.replace (some next) expected (.unlocking err))) (.step t.callers.length)
        = some ({ t with holder := none }.enter (.replace (some next) expected (.returned err))) :=
    fun t err => EngineState.step_replace engine t { t with holder := none } _ _ _ _ rfl
  have hreplace : { engine with snapshot := s.snapshot }.replaceSnapshot (some next) expected
      = if s.snapshot.revision ≠ expected then
          (some (.sentinel .errRevisionConflict), { engine with snapshot := s.snapshot })
        else if next.revision ≤ s.snapshot.revision then
          (some (.sentinel .errRevisionNotMonotonic), { engine with snapshot := s.snapshot })
        else (none, { engine with snapshot := next }) := if_neg hfits
  by_cases hexpected : s.snapshot.revision ≠ expected
  · have hconflict := EngineState.step_replace engine s s (some next) expected
      (.loaded next s.snapshot) _ (if_pos hexpected)
    rw [if_pos hexpected] at hreplace
    refine ⟨_, _, System.run_of_step hconflict
      (System.run_of_step (hunlock s _) (System.run_nil _)), rfl, ?_, ?_⟩
    · rw [hreplace]; rfl
    · rw [hreplace]; rfl
  · have hmatched := EngineState.step_replace engine s s (some next) expected
      (.loaded next s.snapshot) _ (if_neg hexpected)
    rw [if_neg hexpected] at hreplace
    by_cases hstale : next.revision ≤ s.snapshot.revision
    · have hmonotonic := EngineState.step_replace engine s s (some next) expected
        (.matched next s.snapshot) _ (if_pos hstale)
      rw [if_pos hstale] at hreplace
      refine ⟨_, _, System.run_of_step hmatched (System.run_of_step hmonotonic
        (System.run_of_step (hunlock s _) (System.run_nil _))), rfl, ?_, ?_⟩
      · rw [hreplace]; rfl
      · rw [hreplace]; rfl
    · have hstoring := EngineState.step_replace engine s s (some next) expected
        (.matched next s.snapshot) _ (if_neg hstale)
      have hstored := EngineState.step_replace engine s (s.store s.callers.length next) (some next)
        expected (.storing next) (.unlocking none) rfl
      rw [if_neg hstale] at hreplace
      refine ⟨_, _, System.run_of_step hmatched (System.run_of_step hstoring
        (System.run_of_step hstored (System.run_of_step (hunlock _ none) (System.run_nil _)))),
        rfl, ?_, ?_⟩
      · rw [hreplace]; rfl
      · rw [hreplace]; rfl

/-- **A replacement that nobody interrupts does what `ReplaceSnapshot` does.** -/
theorem EngineState.run_replaceSnapshot (hfree : s.holder = none) (next : Option (Snapshot W))
    (expected : Revision) :
    ∃ actions s', (engineSystem engine).run s actions = some s' ∧
      s.Replaces engine next expected s' := by
  have hcall : (engineSystem engine).step s (.replaceSnapshot next expected)
      = some (s.enter (.replace next expected .called)) := rfl
  cases next with
  | none =>
    have hnil := EngineState.step_replace engine s s none expected .called
      (.returned (some (.sentinel .errNilSnapshot))) rfl
    exact ⟨_, _, System.run_of_step hcall (System.run_of_step hnil (System.run_nil _)),
      hfree, rfl, rfl⟩
  | some next =>
    by_cases hover : (next.policies.length : Int) > engine.limits.maxPolicies
    · have hlimit := EngineState.step_replace engine s s (some next) expected .called _
        (if_pos hover)
      have hreplace : { engine with snapshot := s.snapshot }.replaceSnapshot (some next) expected
          = (some (.sentinel .errPolicyLimitExceeded), { engine with snapshot := s.snapshot }) :=
        if_pos hover
      refine ⟨_, _, System.run_of_step hcall (System.run_of_step hlimit (System.run_nil _)),
        hfree, ?_, ?_⟩
      · rw [hreplace]; rfl
      · rw [hreplace]; rfl
    · let locked : EngineState W := { s with holder := some s.callers.length }
      have hchecked := EngineState.step_replace engine s s (some next) expected .called
        (.waiting next) (if_neg hover)
      have hlocked := EngineState.step_replace engine s locked (some next) expected (.waiting next)
        (.locked next) (if_pos hfree)
      have hloaded := EngineState.step_replace engine locked locked (some next) expected
        (.locked next) (.loaded next s.snapshot) rfl
      obtain ⟨actions, s', hrun, hreplaces⟩ :=
        EngineState.run_loaded (s := locked) hover expected
      exact ⟨_, s', System.run_of_step hcall (System.run_of_step hchecked
        (System.run_of_step hlocked (System.run_of_step hloaded hrun))), hreplaces.holder,
        hreplaces.snapshot, hreplaces.callers⟩

end Uninterrupted

/-! ### The invariant -/

/-- Between `Lock` and `Unlock`. -/
def Caller.Critical : Caller W → Prop
  | .replace _ _ (.locked _) | .replace _ _ (.loaded _ _) | .replace _ _ (.matched _ _)
  | .replace _ _ (.storing _) | .replace _ _ (.unlocking _) => True
  | _ => False

/-- A replacement that stored its snapshot. -/
def ReplacePhase.Stored : ReplacePhase W → Prop
  | .unlocking err | .returned err => err = none
  | _ => False

/-- The snapshot at a place of the history between two counts of
installations. -/
def LoadedBetween (history : List (Snapshot W)) (start finish : Nat) (snapshot : Snapshot W) :
    Prop :=
  ∃ k, start ≤ k ∧ k ≤ finish ∧ history[k]? = some snapshot

/-- What is known of a replacement in each phase. -/
def ReplaceOk (engine : Engine W) (s : EngineState W) (next : Option (Snapshot W))
    (expected : Revision) : ReplacePhase W → Prop
  | .waiting n | .locked n =>
    next = some n ∧ n.policies.length ≤ engine.limits.maxPolicies
  | .loaded n current =>
    next = some n ∧ n.policies.length ≤ engine.limits.maxPolicies ∧ current = s.snapshot
  | .matched n current =>
    next = some n ∧ n.policies.length ≤ engine.limits.maxPolicies ∧ current = s.snapshot ∧
      current.revision = expected
  | .storing n =>
    next = some n ∧ n.policies.length ≤ engine.limits.maxPolicies ∧
      s.snapshot.revision = expected ∧ s.snapshot.revision < n.revision
  | _ => True

/-- The results of a batch so far all come from one snapshot. -/
def EvaluatedBy (engine : Engine W) (ctx : Context W) (snapshot : Snapshot W) :
    List Request → List (DecideResult W) → Prop :=
  List.Forall₂ fun request result => ∃ w, result = engine.decideWith ctx request snapshot w

/-- A returned decision is `decide` applied to one snapshot that was active
during the call. -/
def DecideOk (engine : Engine W) (s : EngineState W) (ctx : Context W) (request : Request)
    (start : Nat) : DecidePhase W → Prop
  | .called => True
  | .loaded snapshot => LoadedBetween s.history start s.installs.length snapshot
  | .returned finish result => finish ≤ s.installs.length ∧
    ∃ snapshot, LoadedBetween s.history start finish snapshot ∧
      ∃ w, result = engine.decideWith ctx request snapshot w

/-- All decisions of a batch are `decide` applied to one snapshot that was
active during the call; an oversize batch has none. -/
def BatchOk (engine : Engine W) (s : EngineState W) (ctx : Context W) (requests : List Request)
    (start : Nat) : BatchPhase W → Prop
  | .called => True
  | .loaded snapshot results rest =>
    LoadedBetween s.history start s.installs.length snapshot ∧
      requests.length ≤ engine.limits.maxBatchSize ∧
      ∃ done, requests = done ++ rest ∧ EvaluatedBy engine ctx snapshot done results
  | .returned finish decisions err => finish ≤ s.installs.length ∧
    ((requests.length > engine.limits.maxBatchSize ∧ decisions = none ∧
        err = some (.sentinel .errBatchLimitExceeded)) ∨
      ∃ snapshot results, LoadedBetween s.history start finish snapshot ∧
        EvaluatedBy engine ctx snapshot requests results ∧
        decisions = some (results.map DecideResult.decision) ∧
        err = GoError.join (results.filterMap DecideResult.err))

def CallerOk (engine : Engine W) (s : EngineState W) : Caller W → Prop
  | .replace next expected phase => ReplaceOk engine s next expected phase
  | .decide ctx request start phase =>
    start ≤ s.installs.length ∧ DecideOk engine s ctx request start phase
  | .batch ctx requests start phase =>
    start ≤ s.installs.length ∧ BatchOk engine s ctx requests start phase

/-- Caller `i` replaced the `k`-th snapshot, which it expected, by the next. -/
def Replaced (s : EngineState W) (k i : Nat) : Prop :=
  ∃ previous next phase, s.history[k]? = some previous ∧ s.history[k + 1]? = some next ∧
    s.callers[i]? = some (.replace (some next) previous.revision phase) ∧ phase.Stored

structure EngineInv (engine : Engine W) (s : EngineState W) : Prop where
  first : s.history.head? = some engine.snapshot
  length : s.history.length = s.installs.length + 1
  current : s.history[s.installs.length]? = some s.snapshot
  increasing : (s.history.map Snapshot.revision).Pairwise (· < ·)
  bounded : ∀ snapshot ∈ s.history, snapshot.policies.length ≤ engine.limits.maxPolicies
  nodup : s.installs.Nodup
  replaced : ∀ (k : Nat) i, s.installs[k]? = some i → Replaced s k i
  stored : ∀ (i : Nat) next expected phase, s.callers[i]? = some (.replace next expected phase) →
    (i ∈ s.installs ↔ phase.Stored)
  mutex : ∀ (i : Nat) caller, s.callers[i]? = some caller → (caller.Critical ↔ s.holder = some i)
  holder_lt : ∀ i, s.holder = some i → i < s.callers.length
  callers : ∀ (i : Nat) caller, s.callers[i]? = some caller → CallerOk engine s caller

namespace EngineInv

variable {engine : Engine W} {s : EngineState W}

theorem initial {now : W → Time × W} {snapshot : Option (Snapshot W)}
    {options : List (EngineOption W)} (h : newEngine now snapshot options = .ok engine) :
    EngineInv engine (.initial engine) := by
  have hbound : engine.snapshot.policies.length ≤ engine.limits.maxPolicies := by
    unfold newEngine at h
    split at h
    · cases h
    · dsimp only at h
      split at h
      · cases h
      · rename_i hle
        injection h with h
        rw [h] at hle
        exact not_lt.mp hle
  refine ⟨rfl, rfl, rfl, by simp [EngineState.initial], ?_, List.nodup_nil, ?_, ?_, ?_, nofun,
    ?_⟩
  · intro snapshot hm
    rw [EngineState.initial, List.mem_singleton] at hm
    rw [hm]
    exact hbound
  · intro k i hk; simp [EngineState.initial] at hk
  · intro i next expected phase hi; simp [EngineState.initial] at hi
  · intro i caller hi; simp [EngineState.initial] at hi
  · intro i caller hi; simp [EngineState.initial] at hi

/-- Two phases of one call, on the same side of its store. -/
def SameCall : Caller W → Caller W → Prop
  | .replace next expected phase, .replace next' expected' phase' =>
    next' = next ∧ expected' = expected ∧ (phase'.Stored ↔ phase.Stored)
  | .decide .., .decide .. => True
  | .batch .., .batch .. => True
  | _, _ => False

theorem getElem?_move {i j : Nat} {caller caller' c : Caller W}
    (hi : s.callers[i]? = some c) (hj : (s.callers.set i caller)[j]? = some caller') :
    (j = i ∧ caller' = caller) ∨ (j ≠ i ∧ s.callers[j]? = some caller') := by
  by_cases hij : j = i
  · subst hij
    have hlt : j < s.callers.length := (List.getElem?_eq_some_iff.mp hi).1
    rw [List.getElem?_set_self hlt] at hj
    exact Or.inl ⟨rfl, (Option.some.inj hj).symm⟩
  · rw [List.getElem?_set_ne (Ne.symm hij)] at hj
    exact Or.inr ⟨hij, hj⟩

/-- **A statement that does not store.**  The caller moves to a phase that is
right for the state, and the mutex changes hands only to or from it. -/
theorem move (h : EngineInv engine s) {i : Nat} {caller caller' : Caller W} {holder : Option Nat}
    (hi : s.callers[i]? = some caller) (hsame : SameCall caller caller')
    (hcrit : caller'.Critical ↔ holder = some i)
    (hother : ∀ j, j ≠ i → (s.holder = some j ↔ holder = some j))
    (hok : CallerOk engine s caller') :
    EngineInv engine { s.move i caller' with holder := holder } := by
  have hlt : i < s.callers.length := (List.getElem?_eq_some_iff.mp hi).1
  refine ⟨h.first, h.length, h.current, h.increasing, h.bounded, h.nodup, ?_, ?_, ?_, ?_, ?_⟩
  · intro k j hk
    obtain ⟨previous, next, phase, hprev, hnext, hcall, hstored⟩ := h.replaced k j hk
    by_cases hij : j = i
    · subst hij
      rw [hi] at hcall
      cases hcall
      cases caller' with
      | replace next' expected' phase' =>
        obtain ⟨rfl, rfl, hiff⟩ := hsame
        exact ⟨previous, next, phase', hprev, hnext, List.getElem?_set_self hlt, hiff.mpr hstored⟩
      | decide => exact hsame.elim
      | batch => exact hsame.elim
    · refine ⟨previous, next, phase, hprev, hnext, ?_, hstored⟩
      exact (List.getElem?_set_ne (Ne.symm hij)).trans hcall
  · intro j next expected phase hj
    rcases getElem?_move hi hj with ⟨rfl, rfl⟩ | ⟨_, hj⟩
    · cases caller with
      | replace next' expected' phase' =>
        obtain ⟨_, _, hiff⟩ := hsame
        exact (h.stored j _ _ _ hi).trans hiff.symm
      | decide => exact hsame.elim
      | batch => exact hsame.elim
    · exact h.stored j _ _ _ hj
  · intro j caller'' hj
    rcases getElem?_move hi hj with ⟨rfl, rfl⟩ | ⟨hne, hj⟩
    · exact hcrit
    · exact (h.mutex j _ hj).trans (hother j hne)
  · intro j hj
    show j < (s.callers.set i caller').length
    rw [List.length_set]
    by_cases hij : j = i
    · rw [hij]; exact hlt
    · exact h.holder_lt j ((hother j hij).mpr hj)
  · intro j caller'' hj
    rcases getElem?_move hi hj with ⟨rfl, rfl⟩ | ⟨_, hj⟩
    · exact hok
    · exact h.callers j _ hj

/-- A move that leaves the mutex alone. -/
theorem move_same (h : EngineInv engine s) {i : Nat} {caller caller' : Caller W}
    (hi : s.callers[i]? = some caller) (hsame : SameCall caller caller')
    (hcrit : caller'.Critical ↔ caller.Critical) (hok : CallerOk engine s caller') :
    EngineInv engine (s.move i caller') :=
  h.move hi hsame (hcrit.trans (h.mutex i _ hi)) (fun _ _ => Iff.rfl) hok

/-- What is known of a caller outside the mutex survives an installation. -/
theorem callerOk_store {i : Nat} {next : Snapshot W} {caller : Caller W}
    (hcrit : ¬ caller.Critical) (hok : CallerOk engine s caller) :
    CallerOk engine (s.store i next) caller := by
  have hgrow : ∀ {start finish snapshot}, LoadedBetween s.history start finish snapshot →
      LoadedBetween (s.store i next).history start finish snapshot := by
    rintro start finish snapshot ⟨k, h1, h2, hk⟩
    exact ⟨k, h1, h2, List.getElem?_append_left (List.getElem?_eq_some_iff.mp hk).1 ▸ hk⟩
  have hlen : s.installs.length ≤ (s.store i next).installs.length := by
    simp [EngineState.store]
  have hwiden : ∀ {start snapshot}, LoadedBetween s.history start s.installs.length snapshot →
      LoadedBetween (s.store i next).history start (s.store i next).installs.length snapshot := by
    intro start snapshot hl
    obtain ⟨k, h1, h2, hk⟩ := hgrow hl
    exact ⟨k, h1, h2.trans hlen, hk⟩
  cases caller with
  | replace next' expected phase =>
    cases phase with
    | locked n => exact absurd trivial hcrit
    | loaded n current => exact absurd trivial hcrit
    | matched n current => exact absurd trivial hcrit
    | storing n => exact absurd trivial hcrit
    | unlocking err => exact absurd trivial hcrit
    | called => exact hok
    | waiting n => exact hok
    | returned err => exact hok
  | decide ctx request start phase =>
    obtain ⟨hstart, hok⟩ := hok
    refine ⟨hstart.trans hlen, ?_⟩
    cases phase with
    | called => trivial
    | loaded snapshot => exact hwiden hok
    | returned finish result =>
      obtain ⟨hfin, snapshot, hl, hw⟩ := hok
      exact ⟨hfin.trans hlen, snapshot, hgrow hl, hw⟩
  | batch ctx requests start phase =>
    obtain ⟨hstart, hok⟩ := hok
    refine ⟨hstart.trans hlen, ?_⟩
    cases phase with
    | called => trivial
    | loaded snapshot results rest =>
      obtain ⟨hl, hrest⟩ := hok
      exact ⟨hwiden hl, hrest⟩
    | returned finish decisions err =>
      obtain ⟨hfin, hcase⟩ := hok
      refine ⟨hfin.trans hlen, ?_⟩
      rcases hcase with hover | ⟨snapshot, results, hl, hrest⟩
      · exact Or.inl hover
      · exact Or.inr ⟨snapshot, results, hgrow hl, hrest⟩

/-- **The store.**  The caller holds the mutex, so the snapshot it compared with
is still the active one, and the chain grows by one link. -/
theorem store (h : EngineInv engine s) {i : Nat} {next : Option (Snapshot W)} {expected : Revision}
    {n : Snapshot W} (hi : s.callers[i]? = some (.replace next expected (.storing n))) :
    EngineInv engine ((s.store i n).move i (.replace next expected (.unlocking none))) := by
  obtain ⟨hnext, hbound, hexp, hlt⟩ := h.callers i _ hi
  have hnew : i ∉ s.installs := fun hm => (h.stored i _ _ _ hi).mp hm
  have hholder : s.holder = some i := (h.mutex i _ hi).mp trivial
  have hlen : i < s.callers.length := (List.getElem?_eq_some_iff.mp hi).1
  have hold : ∀ k, k < s.history.length → (s.history ++ [n])[k]? = s.history[k]? :=
    fun k hk => List.getElem?_append_left hk
  have hlast : (s.history ++ [n])[s.installs.length + 1]? = some n := by
    rw [← h.length, List.getElem?_append_right (le_refl _), Nat.sub_self]
    rfl
  refine ⟨?_, ?_, ?_, ?_, ?_, ?_, ?_, ?_, ?_, ?_, ?_⟩
  · exact (List.head?_append_of_ne_nil _ (by
      intro he; have := h.length; rw [he] at this; simp at this)).trans h.first
  · simp [EngineState.store, EngineState.move, h.length]
  · show (s.history ++ [n])[(s.installs ++ [i]).length]? = some n
    rw [List.length_append]
    exact hlast
  · show ((s.history ++ [n]).map Snapshot.revision).Pairwise (· < ·)
    rw [List.map_append, List.pairwise_append]
    refine ⟨h.increasing, List.pairwise_singleton _ _, ?_⟩
    intro r hr r' hr'
    rw [List.map_singleton, List.mem_singleton] at hr'
    subst hr'
    refine lt_of_le_of_lt ?_ hlt
    -- every earlier revision is at most the active one, which stands last
    obtain ⟨k, hk, rfl⟩ := List.getElem_of_mem hr
    rw [List.length_map, h.length] at hk
    have hcur : (s.history.map Snapshot.revision)[s.installs.length]? = some s.snapshot.revision := by
      rw [List.getElem?_map, h.current]
      rfl
    obtain ⟨hcl, hce⟩ := List.getElem?_eq_some_iff.mp hcur
    rw [← hce]
    rcases Nat.lt_or_ge k s.installs.length with hlt' | hge
    · exact le_of_lt (List.pairwise_iff_getElem.mp h.increasing _ _ _ hcl hlt')
    · have hkeq : k = s.installs.length := by omega
      subst hkeq
      exact le_refl _
  · intro snapshot hm
    rcases List.mem_append.mp hm with hm | hm
    · exact h.bounded snapshot hm
    · rw [List.mem_singleton] at hm
      rw [hm]
      exact hbound
  · exact List.nodup_append.mpr ⟨h.nodup, List.nodup_singleton i, by
      rintro a ha b hb rfl
      rw [List.mem_singleton] at hb
      exact hnew (hb ▸ ha)⟩
  · intro k j hk
    have hk' : (s.installs ++ [i])[k]? = some j := hk
    rcases Nat.lt_or_ge k s.installs.length with hlt' | hge
    · rw [List.getElem?_append_left hlt'] at hk'
      obtain ⟨previous, nxt, phase, hprev, hnxt, hcall, hstored⟩ := h.replaced k j hk'
      have hne : i ≠ j := fun e => hnew (e ▸ List.mem_of_getElem? hk')
      have hb := h.length
      refine ⟨previous, nxt, phase, ?_, ?_, ?_, hstored⟩
      · exact (hold k (by omega)).trans hprev
      · exact (hold (k + 1) (by omega)).trans hnxt
      · exact (List.getElem?_set_ne hne).trans hcall
    · have hkl : k < (s.installs ++ [i]).length := (List.getElem?_eq_some_iff.mp hk').1
      rw [List.length_append, List.length_singleton] at hkl
      have hkeq : k = s.installs.length := by omega
      subst hkeq
      rw [List.getElem?_append_right (le_refl _), Nat.sub_self] at hk'
      have hij : i = j := Option.some.inj hk'
      subst hij
      refine ⟨s.snapshot, n, .unlocking none, ?_, hlast, ?_, rfl⟩
      · exact (hold _ (by have := h.length; omega)).trans h.current
      · rw [hexp, ← hnext]
        exact List.getElem?_set_self hlen
  · intro j nxt exp phase hj
    show j ∈ s.installs ++ [i] ↔ phase.Stored
    rcases getElem?_move hi hj with ⟨rfl, he⟩ | ⟨hne, hj⟩
    · cases he
      simp [ReplacePhase.Stored]
    · rw [List.mem_append, List.mem_singleton, or_iff_left hne]
      exact h.stored j _ _ _ hj
  · intro j caller hj
    rcases getElem?_move hi hj with ⟨rfl, rfl⟩ | ⟨_, hj⟩
    · exact ⟨fun _ => hholder, fun _ => trivial⟩
    · exact h.mutex j _ hj
  · intro j hj
    show j < (s.callers.set i _).length
    rw [List.length_set]
    exact h.holder_lt j hj
  · intro j caller hj
    rcases getElem?_move hi hj with ⟨rfl, rfl⟩ | ⟨hne, hj⟩
    · trivial
    · refine callerOk_store ?_ (h.callers j _ hj)
      intro hc
      have := (h.mutex j _ hj).mp hc
      rw [hholder] at this
      exact hne (Option.some.inj this).symm

/-- A new caller. -/
theorem enter (h : EngineInv engine s) {caller : Caller W} (hcrit : ¬ caller.Critical)
    (hphase : ∀ next expected phase, caller = .replace next expected phase → ¬ phase.Stored)
    (hok : CallerOk engine s caller) : EngineInv engine (s.enter caller) := by
  have hget : ∀ (j : Nat) c, (s.callers ++ [caller])[j]? = some c →
      s.callers[j]? = some c ∨ (j = s.callers.length ∧ c = caller) := by
    intro j c hj
    rcases Nat.lt_or_ge j s.callers.length with hlt | hge
    · rw [List.getElem?_append_left hlt] at hj
      exact Or.inl hj
    · have hjl := (List.getElem?_eq_some_iff.mp hj).1
      rw [List.length_append, List.length_singleton] at hjl
      have hje : j = s.callers.length := by omega
      subst hje
      rw [List.getElem?_append_right (le_refl _), Nat.sub_self] at hj
      exact Or.inr ⟨rfl, (Option.some.inj hj).symm⟩
  -- the new caller's number is used nowhere yet
  have hfresh : s.callers.length ∉ s.installs := by
    intro hm
    obtain ⟨k, hk⟩ := List.mem_iff_getElem?.mp hm
    obtain ⟨_, _, _, _, _, hcall, _⟩ := h.replaced k _ hk
    exact absurd (List.getElem?_eq_some_iff.mp hcall).1 (lt_irrefl _)
  refine ⟨h.first, h.length, h.current, h.increasing, h.bounded, h.nodup, ?_, ?_, ?_, ?_, ?_⟩
  · intro k j hk
    obtain ⟨previous, next, phase, hprev, hnext, hcall, hstored⟩ := h.replaced k j hk
    refine ⟨previous, next, phase, hprev, hnext, ?_, hstored⟩
    exact (List.getElem?_append_left (List.getElem?_eq_some_iff.mp hcall).1).trans hcall
  · intro j next expected phase hj
    rcases hget j _ hj with hj | ⟨rfl, he⟩
    · exact h.stored j _ _ _ hj
    · exact ⟨fun hm => absurd hm hfresh, fun hs => absurd hs (hphase _ _ _ he.symm)⟩
  · intro j c hj
    rcases hget j _ hj with hj | ⟨rfl, rfl⟩
    · exact h.mutex j _ hj
    · exact ⟨fun hc => absurd hc hcrit, fun he => absurd (h.holder_lt _ he) (lt_irrefl _)⟩
  · intro j hj
    show j < (s.callers ++ [caller]).length
    rw [List.length_append]
    exact Nat.lt_add_right _ (h.holder_lt j hj)
  · intro j c hj
    rcases hget j _ hj with hj | ⟨rfl, rfl⟩
    · exact h.callers j _ hj
    · exact hok

theorem loadedBetween_current (h : EngineInv engine s) {start : Nat}
    (hstart : start ≤ s.installs.length) :
    LoadedBetween s.history start s.installs.length s.snapshot :=
  ⟨s.installs.length, hstart, le_refl _, h.current⟩

/-- One statement of `ReplaceSnapshot`. -/
theorem stepReplace (h : EngineInv engine s) {i : Nat} {next : Option (Snapshot W)}
    {expected : Revision} {phase : ReplacePhase W} {s' : EngineState W}
    (hi : s.callers[i]? = some (.replace next expected phase))
    (hs : s.stepReplace engine i next expected phase = some s') : EngineInv engine s' := by
  have hok := h.callers i _ hi
  cases phase with
  | called =>
    cases next with
    | none =>
      cases hs
      exact h.move_same hi ⟨rfl, rfl, by simp [ReplacePhase.Stored]⟩ Iff.rfl trivial
    | some n =>
      dsimp only [EngineState.stepReplace] at hs
      split at hs
      · cases hs
        exact h.move_same hi ⟨rfl, rfl, by simp [ReplacePhase.Stored]⟩ Iff.rfl trivial
      · rename_i hle
        cases hs
        exact h.move_same hi ⟨rfl, rfl, Iff.rfl⟩ Iff.rfl ⟨rfl, not_lt.mp hle⟩
  | waiting n =>
    rw [EngineState.stepReplace] at hs
    split at hs
    · rename_i hfree
      cases hs
      refine h.move hi ⟨rfl, rfl, Iff.rfl⟩ ⟨fun _ => rfl, fun _ => trivial⟩ ?_ hok
      intro j hne
      rw [hfree]
      exact ⟨nofun, fun he => absurd (Option.some.inj he).symm hne⟩
    · cases hs
  | locked n =>
    cases hs
    obtain ⟨hnext, hbound⟩ := hok
    exact h.move_same hi ⟨rfl, rfl, Iff.rfl⟩ Iff.rfl ⟨hnext, hbound, rfl⟩
  | loaded n current =>
    obtain ⟨hnext, hbound, hcur⟩ := hok
    rw [EngineState.stepReplace] at hs
    split at hs
    · cases hs
      exact h.move_same hi ⟨rfl, rfl, by simp [ReplacePhase.Stored]⟩ Iff.rfl trivial
    · rename_i hexp
      cases hs
      exact h.move_same hi ⟨rfl, rfl, Iff.rfl⟩ Iff.rfl ⟨hnext, hbound, hcur, not_not.mp hexp⟩
  | matched n current =>
    obtain ⟨hnext, hbound, hcur, hexp⟩ := hok
    rw [EngineState.stepReplace] at hs
    split at hs
    · cases hs
      exact h.move_same hi ⟨rfl, rfl, by simp [ReplacePhase.Stored]⟩ Iff.rfl trivial
    · rename_i hmono
      cases hs
      rw [hcur] at hexp hmono
      exact h.move_same hi ⟨rfl, rfl, Iff.rfl⟩ Iff.rfl ⟨hnext, hbound, hexp, not_le.mp hmono⟩
  | storing n =>
    cases hs
    exact h.store hi
  | unlocking err =>
    have hholder : s.holder = some i := (h.mutex i _ hi).mp trivial
    cases hs
    refine h.move hi ⟨rfl, rfl, Iff.rfl⟩ ⟨False.elim, nofun⟩ ?_ trivial
    intro j hne
    rw [hholder]
    exact ⟨fun he => absurd (Option.some.inj he).symm hne, nofun⟩
  | returned err => cases hs

/-- The load of a decision or a batch, and the return of a batch. -/
theorem stepRead (h : EngineInv engine s) {i : Nat} {caller : Caller W} {s' : EngineState W}
    (hi : s.callers[i]? = some caller) (hs : s.stepRead engine i caller = some s') :
    EngineInv engine s' := by
  have hok := h.callers i _ hi
  cases caller with
  | replace next expected phase => exact h.stepReplace hi hs
  | decide ctx request start phase =>
    cases phase with
    | called =>
      cases hs
      exact h.move_same hi trivial Iff.rfl ⟨hok.1, h.loadedBetween_current hok.1⟩
    | loaded snapshot => cases hs
    | returned finish result => cases hs
  | batch ctx requests start phase =>
    obtain ⟨hstart, hok⟩ := hok
    cases phase with
    | called =>
      rw [EngineState.stepRead] at hs
      split at hs
      · rename_i hover
        cases hs
        exact h.move_same hi trivial Iff.rfl ⟨hstart, le_refl _, Or.inl ⟨hover, rfl, rfl⟩⟩
      · rename_i hle
        cases hs
        exact h.move_same hi trivial Iff.rfl ⟨hstart, h.loadedBetween_current hstart,
          not_lt.mp hle, [], rfl, List.Forall₂.nil⟩
    | loaded snapshot results rest =>
      cases rest with
      | cons request rest => cases hs
      | nil =>
        obtain ⟨hl, _, done, hreq, heval⟩ := hok
        cases hs
        rw [List.append_nil] at hreq
        subst hreq
        exact h.move_same hi trivial Iff.rfl
          ⟨hstart, le_refl _, Or.inr ⟨snapshot, results, hl, heval, rfl, rfl⟩⟩
    | returned finish decisions err => cases hs

/-- One call of `engine.decide`. -/
theorem stepEvaluate (h : EngineInv engine s) {i : Nat} {w : W} {caller : Caller W}
    {s' : EngineState W} (hi : s.callers[i]? = some caller)
    (hs : s.stepEvaluate engine i w caller = some s') : EngineInv engine s' := by
  have hok := h.callers i _ hi
  cases caller with
  | replace next expected phase => cases hs
  | decide ctx request start phase =>
    cases phase with
    | called => cases hs
    | loaded snapshot =>
      cases hs
      exact h.move_same hi trivial Iff.rfl ⟨hok.1, le_refl _, snapshot, hok.2, w, rfl⟩
    | returned finish result => cases hs
  | batch ctx requests start phase =>
    obtain ⟨hstart, hok⟩ := hok
    cases phase with
    | called => cases hs
    | loaded snapshot results rest =>
      cases rest with
      | nil => cases hs
      | cons request rest =>
        obtain ⟨hl, hle, done, hreq, heval⟩ := hok
        cases hs
        refine h.move_same hi trivial Iff.rfl ⟨hstart, hl, hle, done ++ [request], ?_, ?_⟩
        · rw [hreq, List.append_assoc]
          rfl
        · exact List.rel_append heval (List.Forall₂.cons ⟨w, rfl⟩ List.Forall₂.nil)
    | returned finish decisions err => cases hs

/-- **Every step keeps the invariant.** -/
theorem step (h : EngineInv engine s) {action : EngineAction W} {s' : EngineState W}
    (hs : s.step engine action = some s') : EngineInv engine s' := by
  cases action with
  | replaceSnapshot next expected =>
    cases hs
    refine h.enter id ?_ trivial
    intro next' expected' phase he
    cases he
    exact id
  | decide ctx request =>
    cases hs
    exact h.enter id nofun ⟨le_refl _, trivial⟩
  | decideBatch ctx requests =>
    cases hs
    exact h.enter id nofun ⟨le_refl _, trivial⟩
  | step i =>
    obtain ⟨caller, hi, hs⟩ := Option.bind_eq_some_iff.mp hs
    exact h.stepRead hi hs
  | evaluate i w =>
    obtain ⟨caller, hi, hs⟩ := Option.bind_eq_some_iff.mp hs
    exact h.stepEvaluate hi hs

theorem of_reachable (h : (engineSystem engine).Reachable s) : EngineInv engine s := by
  refine System.Reachable.invariant ?_ ?_ h
  · rintro s ⟨⟨now, snapshot, options, hnew⟩, rfl⟩
    exact initial hnew
  · intro s a s' _ hinv hs
    exact hinv.step hs

/-- At most one caller replaced the snapshot of a given revision. -/
theorem eq_of_replaced (h : EngineInv engine s) {k k' i j : Nat} {expected : Revision}
    {next next' : Option (Snapshot W)} {phase phase' : ReplacePhase W}
    (hk : s.installs[k]? = some i) (hk' : s.installs[k']? = some j)
    (hi : s.callers[i]? = some (.replace next expected phase))
    (hj : s.callers[j]? = some (.replace next' expected phase')) : i = j := by
  obtain ⟨previous, _, _, hprev, _, hcall, _⟩ := h.replaced k i hk
  obtain ⟨previous', _, _, hprev', _, hcall', _⟩ := h.replaced k' j hk'
  rw [hi] at hcall
  rw [hj] at hcall'
  cases hcall
  injection Option.some.inj hcall' with _ hrev _
  have hrevs : ∀ {m : Nat} {snapshot}, s.history[m]? = some snapshot →
      (s.history.map Snapshot.revision)[m]? = some snapshot.revision := by
    intro m snapshot hm
    rw [List.getElem?_map, hm]
    rfl
  obtain ⟨hlt, he⟩ := List.getElem?_eq_some_iff.mp (hrevs hprev)
  obtain ⟨hlt', he'⟩ := List.getElem?_eq_some_iff.mp (hrevs hprev')
  have hkk : k = k' := by
    rcases Nat.lt_trichotomy k k' with hc | hc | hc
    · have := List.pairwise_iff_getElem.mp h.increasing k k' hlt hlt' hc
      rw [he, he', hrev] at this
      exact absurd this (lt_irrefl _)
    · exact hc
    · have := List.pairwise_iff_getElem.mp h.increasing k' k hlt' hlt hc
      rw [he, he', hrev] at this
      exact absurd this (lt_irrefl _)
  subst hkk
  rw [hk] at hk'
  exact Option.some.inj hk'

end EngineInv

/-- A step installs nothing, or one caller installs one snapshot. -/
theorem EngineState.step_installs {engine : Engine W} {s s' : EngineState W}
    {action : EngineAction W} (hs : s.step engine action = some s') :
    (s'.snapshot = s.snapshot ∧ s'.history = s.history ∧ s'.installs = s.installs) ∨
      ∃ i, s'.history = s.history ++ [s'.snapshot] ∧ s'.installs = s.installs ++ [i] := by
  cases action with
  | replaceSnapshot next expected => cases hs; exact Or.inl ⟨rfl, rfl, rfl⟩
  | decide ctx request => cases hs; exact Or.inl ⟨rfl, rfl, rfl⟩
  | decideBatch ctx requests => cases hs; exact Or.inl ⟨rfl, rfl, rfl⟩
  | step i =>
    obtain ⟨caller, hi, hs⟩ := Option.bind_eq_some_iff.mp hs
    cases caller with
    | replace next expected phase =>
      rw [stepRead] at hs
      cases phase with
      | storing n => cases hs; exact Or.inr ⟨i, rfl, rfl⟩
      | called =>
        cases next with
        | none => cases hs; exact Or.inl ⟨rfl, rfl, rfl⟩
        | some n =>
          dsimp only [stepReplace] at hs
          split at hs <;> cases hs <;> exact Or.inl ⟨rfl, rfl, rfl⟩
      | waiting n =>
        rw [stepReplace] at hs
        split at hs
        · cases hs; exact Or.inl ⟨rfl, rfl, rfl⟩
        · cases hs
      | locked n => cases hs; exact Or.inl ⟨rfl, rfl, rfl⟩
      | loaded n current =>
        rw [stepReplace] at hs
        split at hs <;> cases hs <;> exact Or.inl ⟨rfl, rfl, rfl⟩
      | matched n current =>
        rw [stepReplace] at hs
        split at hs <;> cases hs <;> exact Or.inl ⟨rfl, rfl, rfl⟩
      | unlocking err => cases hs; exact Or.inl ⟨rfl, rfl, rfl⟩
      | returned err => cases hs
    | decide ctx request start phase =>
      cases phase <;> cases hs
      exact Or.inl ⟨rfl, rfl, rfl⟩
    | batch ctx requests start phase =>
      cases phase with
      | called =>
        rw [stepRead] at hs
        split at hs <;> cases hs <;> exact Or.inl ⟨rfl, rfl, rfl⟩
      | loaded snapshot results rest =>
        cases rest <;> cases hs
        exact Or.inl ⟨rfl, rfl, rfl⟩
      | returned finish decisions err => cases hs
  | evaluate i w =>
    obtain ⟨caller, hi, hs⟩ := Option.bind_eq_some_iff.mp hs
    cases caller with
    | replace next expected phase => cases hs
    | decide ctx request start phase =>
      cases phase <;> cases hs
      exact Or.inl ⟨rfl, rfl, rfl⟩
    | batch ctx requests start phase =>
      cases phase with
      | called => cases hs
      | loaded snapshot results rest =>
        cases rest <;> cases hs
        exact Or.inl ⟨rfl, rfl, rfl⟩
      | returned finish decisions err => cases hs

/-- **Coherence of one engine**: what holds whatever the schedule. -/
structure Coherent (engine : Engine W) (s : EngineState W) : Prop where
  /-- The history starts at the engine's first snapshot and ends at the active
  one, its revisions strictly increasing. -/
  increasing : s.history.head? = some engine.snapshot ∧
    s.history[s.installs.length]? = some s.snapshot ∧
    s.history.length = s.installs.length + 1 ∧
    (s.history.map Snapshot.revision).Pairwise (· < ·)
  /-- Each installation replaced exactly the revision its caller expected. -/
  chain : s.installs.Nodup ∧ ∀ (k : Nat) i, s.installs[k]? = some i → Replaced s k i
  /-- The calls that returned nil are installations; for each revision at most
  one of them expected it. -/
  succeeded : (∀ (i : Nat) next expected,
      s.callers[i]? = some (.replace next expected (.returned none)) → i ∈ s.installs) ∧
    ∀ (i j : Nat) next next' expected,
      s.callers[i]? = some (.replace next expected (.returned none)) →
      s.callers[j]? = some (.replace next' expected (.returned none)) → i = j
  /-- A call that failed installed nothing. -/
  failed : ∀ (i : Nat) next expected err,
    s.callers[i]? = some (.replace next expected (.returned (some err))) → i ∉ s.installs
  /-- The active snapshot changes only when a caller installs the next. -/
  stable : ∀ action s', s.step engine action = some s' →
    (s'.snapshot = s.snapshot ∧ s'.history = s.history ∧ s'.installs = s.installs) ∨
      ∃ i, s'.history = s.history ++ [s'.snapshot] ∧ s'.installs = s.installs ++ [i]
  bounded : ∀ snapshot ∈ s.history, snapshot.policies.length ≤ engine.limits.maxPolicies
  /-- A decision is `decide` applied to one snapshot active during the call. -/
  decided : ∀ (i : Nat) ctx request start finish result,
    s.callers[i]? = some (.decide ctx request start (.returned finish result)) →
    ∃ snapshot, LoadedBetween s.history start finish snapshot ∧
      ∃ w, result = engine.decideWith ctx request snapshot w
  /-- So are all decisions of a batch, for the same snapshot. -/
  batched : ∀ (i : Nat) ctx requests start finish decisions err,
    s.callers[i]? = some (.batch ctx requests start (.returned finish (some decisions) err)) →
    ∃ snapshot results, LoadedBetween s.history start finish snapshot ∧
      EvaluatedBy engine ctx snapshot requests results ∧
      decisions = results.map DecideResult.decision ∧
      err = GoError.join (results.filterMap DecideResult.err)

/-- **Snapshot replacement and decisions are coherent under any interleaving.** -/
theorem engine_coherent (engine : Engine W) {s : EngineState W}
    (hs : (engineSystem engine).Reachable s) : Coherent engine s := by
  have h := EngineInv.of_reachable hs
  have hmem : ∀ (i : Nat) next expected,
      s.callers[i]? = some (.replace next expected (.returned none)) → i ∈ s.installs :=
    fun i next expected hi => (h.stored i _ _ _ hi).mpr rfl
  refine ⟨⟨h.first, h.current, h.length, h.increasing⟩, ⟨h.nodup, h.replaced⟩, ⟨hmem, ?_⟩, ?_,
    fun _ _ hstep => EngineState.step_installs hstep, h.bounded, ?_, ?_⟩
  · intro i j next next' expected hi hj
    obtain ⟨k, hk⟩ := List.mem_iff_getElem?.mp (hmem i _ _ hi)
    obtain ⟨k', hk'⟩ := List.mem_iff_getElem?.mp (hmem j _ _ hj)
    exact h.eq_of_replaced hk hk' hi hj
  · intro i next expected err hi hm
    have := (h.stored i _ _ _ hi).mp hm
    cases this
  · intro i ctx request start finish result hi
    exact (h.callers i _ hi).2.2
  · intro i ctx requests start finish decisions err hi
    rcases (h.callers i _ hi).2.2 with ⟨_, hnone, _⟩ | ⟨snapshot, results, hl, heval, hd, herr⟩
    · cases hnone
    · exact ⟨snapshot, results, hl, heval, Option.some.inj hd, herr⟩

/-- A snapshot without policies. -/
def bareSnapshot (revision : Revision) (h : revision ≠ 0) : Snapshot Unit :=
  ⟨revision, .denyOverrides, [], h, denyOverrides_le, List.nodup_nil⟩

def bareEngine : Engine Unit := ⟨bareSnapshot 1 revision_one_ne, {}, fun w => (.zero, w)⟩

/-- A decision that loads before a replacement and is evaluated after it. -/
theorem engine_coherent_overlap :
    ∃ s result, s.callers[1]? = some (.decide .background ⟨⟨str "user", str "u", [], ∅⟩, str "read",
        ⟨str "doc", [], ∅⟩, [], {}, ∅⟩ 0 (.returned 1 result)) ∧
      s.snapshot.revision = 2 ∧ result.decision.revision = 1 ∧ Coherent bareEngine s := by
  have hrun : (engineSystem bareEngine).run (.initial bareEngine)
      [.replaceSnapshot (some (bareSnapshot 2 (by decide))) 1,
        .decide .background ⟨⟨str "user", str "u", [], ∅⟩, str "read", ⟨str "doc", [], ∅⟩, [], {}, ∅⟩,
        .step 1, .step 0, .step 0, .step 0, .step 0, .step 0, .step 0, .step 0, .evaluate 1 ()]
      = some _ := rfl
  have hinit : (engineSystem bareEngine).Reachable (.initial bareEngine) :=
    .init ⟨⟨bareEngine.clock, some bareEngine.snapshot, [], rfl⟩, rfl⟩
  exact ⟨_, _, rfl, rfl, rfl, engine_coherent bareEngine (hinit.run hrun)⟩

end Authorization.Core
