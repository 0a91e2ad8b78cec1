import Authorization.Foundation.Periodic
import Authorization.Policy.ReloadStep

/-!
# Polling

`Run` reloads at once and then whenever its ticker fires, until its context is done or a
reload fails.  Around it other callers reload, manifests are published, decisions are
made and time passes, all interleaved.

A turn of `Run` is due when it waits and a tick is there, and ends when it waits again.
Time is not held up for it, so how long turns take is an assumption about a run
(`Punctual`): no turn has taken longer than `latency`, its wait for the mutex included.
While `Run` has not returned,

* the engine has every manifest published longer ago than the interval and twice
  `latency`,
* the last verification is no older than that, and
* a decision that samples the clock soon enough after it read the verification is not
  refused as stale.
-/

namespace Authorization.Policy

open Authorization.Foundation Authorization.Core

variable {W : Type}

/-! ### `Run` -/

/-- Where `Run` stands. -/
inductive RunPhase
  | notStarted
  /-- In `Reload`, before it has the mutex. -/
  | locking
  | reloading
  /-- `Reload` has returned nil. -/
  | reloaded
  /-- In the `select`. -/
  | selecting
  | returned (err : GoError)

structure PollState (W : Type) where
  fresh : FreshState W
  run : RunPhase := .notStarted
  /-- `NewTicker` comes after the first reload. -/
  ticker : Option Ticker := none
  -- what happened so far, for the statements
  /-- Since when the turn under way is due. -/
  ready : Option Int := none
  /-- When the turns that succeeded were due and ended, latest first. -/
  turns : List (Int × Int) := []
  /-- When each decision read the verification time. -/
  entered : List Int := []

inductive PollAction (W : Type)
  | pass (nanos : Nat)
  /-- `Run` is called. -/
  | run
  /-- Its `Reload` gets the mutex and asks the repository. -/
  | lock
  /-- Its `Reload` fails before that. -/
  | abort (err : GoError)
  /-- Its `Reload` goes on; `cause` is the error of the repository. -/
  | reload (action : FreshAction W) (cause : GoError)
  /-- `Run` goes to its `select`, the first time with a new ticker. -/
  | wait
  | takeTick
  | takeDone (err : GoError)
  | decide
  /-- Publications, the other steps of decisions, and the reloads of others. -/
  | other (action : FreshAction W)

/-- The steps whose time is recorded. -/
def isTimed : FreshAction W → Bool
  | .pass _ | .decide => true
  | _ => false

namespace PollState

def now (s : PollState W) : Int := s.fresh.now

def interval (s : PollState W) : Duration := s.fresh.synchronizer.interval

/-- Since when a turn is due once time has passed: a tick may have come meanwhile. -/
def readyAt (s : PollState W) (now : Int) : Option Int :=
  match s.run, s.ready, s.ticker with
  | .selecting, none, some ticker => if now < ticker.next then none else some ticker.next
  | _, ready, _ => ready

theorem readyAt_of_some {s : PollState W} {ready : Int} (h : s.ready = some ready) (now : Int) :
    s.readyAt now = some ready := by
  unfold readyAt
  rw [h]
  split
  · rename_i hready _
    cases hready
  · rfl

theorem readyAt_of_none {s : PollState W} (hrun : s.run = .selecting) (hready : s.ready = none)
    {ticker : Ticker} (hticker : s.ticker = some ticker) (now : Int) :
    s.readyAt now = if now < ticker.next then none else some ticker.next := by
  unfold readyAt
  rw [hrun, hready, hticker]

def pass (s : PollState W) (nanos : Nat) (fresh : FreshState W) : PollState W :=
  { s with
    fresh := fresh
    ticker := s.ticker.map fun ticker => ticker.advance s.interval (s.now + nanos)
    ready := s.readyAt (s.now + nanos) }

/-- A step of the `Reload` that `Run` called. -/
def stepRun (s : PollState W) (action : FreshAction W) (cause : GoError) (fresh : FreshState W) :
    PollState W :=
  match fresh.reload with
  | .idle =>
    if isMark action then { s with fresh := fresh, run := .reloaded }
    else { s with fresh := fresh, run := .returned (failure s.fresh cause action) }
  | _ => { s with fresh := fresh }

/-- The turn ends.  A tick that came during it makes the next one due. -/
def wait (s : PollState W) (ready : Int) : PollState W :=
  let ticker := s.ticker.getD ⟨s.now + s.interval, false⟩
  { s with
    run := .selecting
    ticker := some ticker
    ready := if ticker.pending then some s.now else none
    turns := (ready, s.now) :: s.turns }

def step (s : PollState W) : PollAction W → Option (PollState W)
  | .pass nanos => (s.fresh.step (.pass nanos)).map fun fresh => s.pass nanos fresh
  | .run =>
    match s.run with
    | .notStarted => some { s with run := .locking, ready := some s.now }
    | _ => none
  | .lock =>
    match s.run with
    | .locking => (s.fresh.step .read).map fun fresh => { s with fresh := fresh, run := .reloading }
    | _ => none
  | .abort err =>
    match s.run, s.fresh.reload with
    | .locking, .idle => some { s with run := .returned err }
    | _, _ => none
  | .reload action cause =>
    match s.run with
    | .reloading => (s.fresh.stepReload action).map fun fresh => s.stepRun action cause fresh
    | _ => none
  | .wait =>
    match s.run, s.ready with
    | .reloaded, some ready => some (s.wait ready)
    | _, _ => none
  | .takeTick =>
    match s.run, s.ticker with
    | .selecting, some ticker =>
      if ticker.pending then
        some { s with run := .locking, ticker := some { ticker with pending := false } }
      else none
    | _, _ => none
  | .takeDone err =>
    match s.run with
    | .selecting => some { s with run := .returned err }
    | _ => none
  | .decide =>
    (s.fresh.step .decide).map fun fresh =>
      { s with fresh := fresh, entered := s.entered ++ [s.now] }
  | .other action =>
    if isTimed action then none
    else
      match s.run with
      | .reloading =>
        if isReload action then none
        else (s.fresh.step action).map fun fresh => { s with fresh := fresh }
      | _ => (s.fresh.step action).map fun fresh => { s with fresh := fresh }

end PollState

/-- One `Run` of a new synchronizer, over a repository without a manifest. -/
def pollSystem (initial : Synchronizer W) : System (PollState W) (PollAction W) where
  init s := (freshSystem initial).init s.fresh ∧ s = { fresh := s.fresh }
  step s action := s.step action

/-! ### What a reload verifies -/

/-- The repository was read and the verification marked at `since` or later. -/
def FreshState.VerifiedSince (s : FreshState W) (since : Int) : Prop :=
  since ≤ s.synchronizer.verifiedAt.nanos ∧ s.synchronizer.verifiedAt.nanos ≤ s.now ∧
    ∃ v ∈ s.verifications, since ≤ v.1

/-- The reload has read the repository at `since` or later. -/
def ReloadPhase.ReadSince (since : Int) : ReloadPhase W → Prop
  | .idle => False
  | .reading readAt _ | .loaded readAt _ | .checked readAt _ _ | .compiled readAt _ _
  | .marking readAt => since ≤ readAt

section Verified

variable {s s' : FreshState W} {action : FreshAction W} {since : Int}

theorem ReloadStep.verifiedSince (h : ReloadStep s action s') (hsince : s.VerifiedSince since) :
    s'.VerifiedSince since := by
  obtain ⟨hle, hnow, v, hv, hread⟩ := hsince
  cases h with
  | mark phase =>
    exact ⟨le_trans hle hnow, le_refl _, v, List.mem_cons_of_mem _ hv, hread⟩
  | _ => exact ⟨hle, hnow, v, hv, hread⟩

/-- **A verification is never taken back.** -/
theorem FreshState.VerifiedSince.step (hsince : s.VerifiedSince since)
    (hs : s.step action = some s') : s'.VerifiedSince since := by
  by_cases hpublish : isPublish action = true
  · cases action with
    | publish manifest =>
      dsimp only [FreshState.step] at hs
      split at hs
      · cases hs
        exact hsince
      · cases hs
    | _ => cases hpublish
  · rcases fresh_cases hs (Bool.not_eq_true _ ▸ hpublish) with
      ⟨nanos, -, rfl⟩ | ⟨-, deciders, rfl⟩ | hreload
    · obtain ⟨hle, hnow, hread⟩ := hsince
      refine ⟨hle, le_trans hnow ?_, hread⟩
      show s.now ≤ s.now + nanos
      omega
    · exact hsince
    · exact hreload.verifiedSince hsince

/-- A reload goes on, fails, or marks what it has read. -/
theorem ReloadStep.readSince (h : ReloadStep s action s') (hok : s.reload.Ok s)
    (hread : s.reload.ReadSince since) :
    s'.reload.ReadSince since ∨
      (s'.reload = .idle ∧ (action = .mark → s'.VerifiedSince since)) := by
  cases h with
  | read idle log =>
    rw [idle] at hread
    exact absurd hread not_false
  | returned phase =>
    rw [phase] at hread
    exact Or.inl hread
  | same phase same =>
    rw [phase] at hread
    exact Or.inl hread
  | newer phase newer =>
    rw [phase] at hread
    exact Or.inl hread
  | compiled phase revision =>
    rw [phase] at hread
    exact Or.inl hread
  | replaced phase newer =>
    rw [phase] at hread
    exact Or.inl hread
  | mark phase =>
    rw [phase] at hread hok
    exact Or.inr ⟨rfl, fun _ => ⟨le_trans hread hok.1, le_refl _, _, List.mem_cons_self, hread⟩⟩
  | fail | invalid | older | uncompiled | conflict =>
    exact Or.inr ⟨rfl, fun hmark => absurd hmark (by simp)⟩

end Verified

/-! ### The invariant -/

/-- The turn is due, at most one interval after the end of the one before. -/
def PollState.Due (s : PollState W) (ready : Int) : Prop :=
  ready ≤ s.now ∧ ∀ last ∈ s.turns.head?, ready ≤ last.2 + s.interval

def RunPhase.Ok (s : PollState W) : RunPhase → Prop
  | .notStarted => s.turns = []
  | .locking => ∃ ready, s.ready = some ready ∧ s.Due ready
  | .reloading => ∃ ready, s.ready = some ready ∧ s.Due ready ∧ s.fresh.reload.ReadSince ready
  | .reloaded => ∃ ready, s.ready = some ready ∧ s.Due ready ∧ s.fresh.VerifiedSince ready
  | .selecting => ∃ ticker, s.ticker = some ticker ∧ s.turns ≠ [] ∧
      (s.ready = none → ticker.pending = false ∧
        ∀ last ∈ s.turns.head?, ticker.next ≤ last.2 + s.interval) ∧
      ∀ ready, s.ready = some ready → s.Due ready
  | .returned _ => True

/-- The verification time that a decision read at `time` is that of the turns ended
before, or later. -/
def ReadAfter (turns : List (Int × Int)) (time : Int) (verifiedAt : Time) : Prop :=
  ∀ turn ∈ turns, turn.2 < time → turn.1 ≤ verifiedAt.nanos ∧ verifiedAt.nanos ≤ time

def DecidePhase.EnteredAt (turns : List (Int × Int)) (time : Int) : DecidePhase W → Prop
  | .entered verifiedAt => ReadAfter turns time verifiedAt
  | .sampled verifiedAt now => ReadAfter turns time verifiedAt ∧ time ≤ now.nanos
  | .stale | .evaluating _ _ _ => True

structure PollInv (initial : Synchronizer W) (s : PollState W) : Prop where
  fresh : (freshSystem initial).Reachable s.fresh
  interval : s.interval = initial.interval
  run : s.run.Ok s
  ticker : ∀ ticker, s.ticker = some ticker →
    s.now < ticker.next ∧ ticker.next ≤ s.now + s.interval
  turns : Turns s.interval s.turns
  ended : ∀ turn ∈ s.turns, turn.1 ≤ turn.2 ∧ turn.2 ≤ s.now ∧ s.fresh.VerifiedSince turn.1
  entered : s.entered.length = s.fresh.deciders.length
  deciders : ∀ (i : Nat) (time : Int) (d : DecidePhase W), s.entered[i]? = some time →
    s.fresh.deciders[i]? = some d →
    time ≤ s.now ∧ d.EnteredAt s.turns time

namespace PollInv

variable {initial : Synchronizer W} {s s' : PollState W}

/-- `Run` moves on, and nothing else does. -/
theorem moveRun (h : PollInv initial s) {run : RunPhase} {ticker : Option Ticker}
    {ready : Option Int} (hticker : ∀ t, ticker = some t →
      s.now < t.next ∧ t.next ≤ s.now + s.interval)
    (hrun : run.Ok { s with run := run, ticker := ticker, ready := ready }) :
    PollInv initial { s with run := run, ticker := ticker, ready := ready } :=
  ⟨h.fresh, h.interval, hrun, hticker, h.turns, h.ended, h.entered, h.deciders⟩

/-- The store and the synchronizer move on at the same time. -/
theorem moveFresh (h : PollInv initial s) {action : FreshAction W} {fresh : FreshState W}
    (hs : s.fresh.step action = some fresh) (hnow : fresh.now = s.now)
    (hinterval : fresh.synchronizer.interval = s.interval)
    (hlength : fresh.deciders.length = s.fresh.deciders.length)
    (hdeciders : ∀ (i : Nat) (time : Int) (d : DecidePhase W), s.entered[i]? = some time →
      fresh.deciders[i]? = some d →
      time ≤ s.now ∧ d.EnteredAt s.turns time) {run : RunPhase}
    (hrun : run.Ok { s with fresh := fresh, run := run }) :
    PollInv initial { s with fresh := fresh, run := run } where
  fresh := h.fresh.step hs
  interval := hinterval.trans h.interval
  run := hrun
  ticker := by
    intro ticker hticker
    show fresh.now < _ ∧ _ ≤ fresh.now + fresh.synchronizer.interval
    rw [hnow, hinterval]
    exact h.ticker ticker hticker
  turns := by
    show Turns fresh.synchronizer.interval _
    rw [hinterval]
    exact h.turns
  ended := by
    intro turn hturn
    obtain ⟨hle, hended, hverified⟩ := h.ended turn hturn
    exact ⟨hle, le_of_le_of_eq hended hnow.symm, hverified.step hs⟩
  entered := h.entered.trans hlength.symm
  deciders := by
    intro i time d htime hd
    obtain ⟨hle, hentered⟩ := hdeciders i time d htime hd
    exact ⟨le_of_le_of_eq hle hnow.symm, hentered⟩

/-- What others do leaves `Run` where it is, unless they take over its reload. -/
theorem runOk_of_fresh (h : PollInv initial s) {action : FreshAction W} {fresh : FreshState W}
    (hs : s.fresh.step action = some fresh) (hnow : fresh.now = s.now)
    (hinterval : fresh.synchronizer.interval = s.interval)
    (hreload : s.run = .reloading → fresh.reload = s.fresh.reload) :
    s.run.Ok { s with fresh := fresh } := by
  have hok := h.run
  have hdue : ∀ {ready}, s.Due ready → PollState.Due { s with fresh := fresh } ready := by
    rintro ready ⟨hle, hlast⟩
    refine ⟨le_of_le_of_eq hle hnow.symm, fun last hmem => ?_⟩
    show ready ≤ last.2 + fresh.synchronizer.interval
    rw [hinterval]
    exact hlast last hmem
  cases hrun : s.run with
  | notStarted =>
    rw [hrun] at hok
    exact hok
  | returned err => trivial
  | locking =>
    rw [hrun] at hok
    obtain ⟨ready, hready, hok⟩ := hok
    exact ⟨ready, hready, hdue hok⟩
  | reloading =>
    rw [hrun] at hok
    obtain ⟨ready, hready, hok, hread⟩ := hok
    refine ⟨ready, hready, hdue hok, ?_⟩
    show fresh.reload.ReadSince ready
    rw [hreload hrun]
    exact hread
  | reloaded =>
    rw [hrun] at hok
    obtain ⟨ready, hready, hok, hverified⟩ := hok
    exact ⟨ready, hready, hdue hok, hverified.step hs⟩
  | selecting =>
    rw [hrun] at hok
    obtain ⟨ticker, hticker, hturns, hnone, hsome⟩ := hok
    refine ⟨ticker, hticker, hturns, fun hready => ?_, fun ready hready => hdue (hsome ready hready)⟩
    obtain ⟨hpending, hnext⟩ := hnone hready
    refine ⟨hpending, fun last hmem => ?_⟩
    show ticker.next ≤ last.2 + fresh.synchronizer.interval
    rw [hinterval]
    exact hnext last hmem

/-- Time passes for the one who waits, too. -/
theorem runOk_pass (h : PollInv initial s) {nanos : Nat} {fresh : FreshState W}
    (hs : s.fresh.step (.pass nanos) = some fresh) : s.run.Ok (s.pass nanos fresh) := by
  have hok := h.run
  have hdue : ∀ {ready}, s.Due ready → (s.pass nanos fresh).Due ready := by
    cases hs
    rintro ready ⟨hle, hlast⟩
    refine ⟨le_trans hle ?_, hlast⟩
    show s.fresh.now ≤ s.fresh.now + nanos
    omega
  cases hrun : s.run with
  | notStarted =>
    rw [hrun] at hok
    exact hok
  | returned err => trivial
  | locking =>
    rw [hrun] at hok
    obtain ⟨ready, hready, hok⟩ := hok
    exact ⟨ready, PollState.readyAt_of_some hready _, hdue hok⟩
  | reloading =>
    rw [hrun] at hok
    obtain ⟨ready, hready, hok, hread⟩ := hok
    refine ⟨ready, PollState.readyAt_of_some hready _, hdue hok, ?_⟩
    cases hs
    exact hread
  | reloaded =>
    rw [hrun] at hok
    obtain ⟨ready, hready, hok, hverified⟩ := hok
    exact ⟨ready, PollState.readyAt_of_some hready _, hdue hok, hverified.step hs⟩
  | selecting =>
    rw [hrun] at hok
    obtain ⟨ticker, hticker, hturns, hnone, hsome⟩ := hok
    have hticker' : (s.pass nanos fresh).ticker
        = some (ticker.advance s.interval (s.now + nanos)) := by
      show s.ticker.map _ = _
      rw [hticker, Option.map_some]
    refine ⟨_, hticker', hturns, ?_⟩
    cases hready : s.ready with
    | some due =>
      have hready' : (s.pass nanos fresh).ready = some due :=
        PollState.readyAt_of_some hready _
      rw [hready']
      refine ⟨fun hnone => absurd hnone (Option.some_ne_none _), fun ready hsame => ?_⟩
      cases hsame
      exact hdue (hsome due hready)
    | none =>
      obtain ⟨hpending, hnext⟩ := hnone hready
      have hready' := PollState.readyAt_of_none hrun hready hticker (s.now + nanos)
      rw [← show (s.pass nanos fresh).ready = s.readyAt (s.now + nanos) from rfl] at hready'
      rw [hready']
      cases hs
      by_cases hlt : s.now + nanos < ticker.next
      · rw [if_pos hlt, Ticker.advance_of_lt hlt]
        refine ⟨fun _ => ⟨hpending, hnext⟩, fun ready hsame => ?_⟩
        cases hsame
      · rw [if_neg hlt]
        refine ⟨fun hnone => absurd hnone (Option.some_ne_none _), fun ready hsame => ?_⟩
        cases hsame
        exact ⟨not_lt.mp hlt, hnext⟩

theorem pass (h : PollInv initial s) (hinterval : 0 < initial.interval) {nanos : Nat}
    {fresh : FreshState W} (hs : s.fresh.step (.pass nanos) = some fresh) :
    PollInv initial (s.pass nanos fresh) := by
  have hrun := h.runOk_pass hs
  have hreach : (freshSystem initial).Reachable fresh := h.fresh.step (a := .pass nanos) hs
  have hperiod : 0 < s.interval := h.interval ▸ hinterval
  have hle : s.now ≤ s.now + nanos := by omega
  refine ⟨hreach, ?_, hrun, ?_, ?_, ?_, ?_, ?_⟩
  · cases hs
    exact h.interval
  · intro ticker hticker
    obtain ⟨before, hbefore, rfl⟩ := Option.map_eq_some_iff.mp hticker
    obtain ⟨hlt, hnext⟩ := Ticker.lt_next_advance hperiod before (s.now + nanos)
    cases hs
    refine ⟨hlt, ?_⟩
    have hold := (h.ticker before hbefore).2
    show _ ≤ s.now + nanos + s.interval
    rcases hnext with hnext | hnext
    · exact hnext
    · omega
  · cases hs
    exact h.turns
  · intro turn hturn
    obtain ⟨hended, hbefore, hverified⟩ := h.ended turn hturn
    have hverified' := hverified.step hs
    cases hs
    exact ⟨hended, le_trans hbefore hle, hverified'⟩
  · cases hs
    exact h.entered
  · cases hs
    intro i time d htime hd
    obtain ⟨hbefore, hentered⟩ := h.deciders i time d htime hd
    exact ⟨le_trans hbefore hle, hentered⟩

/-- A step of a reload, whoever called it. -/
theorem reloads (h : PollInv initial s) {action : FreshAction W} {fresh : FreshState W}
    (hs : s.fresh.step action = some fresh) (hreload : ReloadStep s.fresh action fresh)
    {run : RunPhase} (hrun : run.Ok { s with fresh := fresh, run := run }) :
    PollInv initial { s with fresh := fresh, run := run } := by
  refine h.moveFresh hs hreload.now_eq hreload.interval_eq ?_ ?_ hrun
  · rw [hreload.deciders_eq]
  · rw [hreload.deciders_eq]
    exact h.deciders

/-- `Run` gets the mutex: what it reads is no older than its turn. -/
theorem locks (h : PollInv initial s) (hlocking : s.run = .locking) {fresh : FreshState W}
    (hs : s.fresh.step .read = some fresh) :
    PollInv initial { s with fresh := fresh, run := .reloading } := by
  have hok := h.run
  rw [hlocking] at hok
  obtain ⟨ready, hready, hdue⟩ := hok
  have hreload : ReloadStep s.fresh .read fresh := reloadStep_of_stepReload hs
  refine h.reloads hs hreload ⟨ready, hready, ?_⟩
  cases hreload with
  | read idle log => exact ⟨hdue, hdue.1⟩

/-- The reload of `Run` goes on, fails, or has verified. -/
theorem runs (h : PollInv initial s) (hreloading : s.run = .reloading) {action : FreshAction W}
    {cause : GoError} {fresh : FreshState W} (hs : s.fresh.stepReload action = some fresh) :
    PollInv initial (s.stepRun action cause fresh) := by
  have hok := h.run
  rw [hreloading] at hok
  obtain ⟨ready, hready, hdue, hread⟩ := hok
  have hreload := reloadStep_of_stepReload hs
  have hstep := step_of_stepReload hs
  have hdue' : ∀ {run}, PollState.Due { s with fresh := fresh, run := run } ready := by
    intro run
    refine ⟨le_of_le_of_eq hdue.1 hreload.now_eq.symm, fun last hmem => ?_⟩
    show ready ≤ last.2 + fresh.synchronizer.interval
    rw [hreload.interval_eq]
    exact hdue.2 last hmem
  have hgoes := hreload.readSince (FreshInv.of_reachable h.fresh).reload hread
  unfold PollState.stepRun
  split
  · rename_i hended
    split
    · rename_i hmark
      refine h.reloads hstep hreload ⟨ready, hready, hdue', ?_⟩
      rcases hgoes with hgoes | ⟨-, hverified⟩
      · rw [hended] at hgoes
        exact absurd hgoes not_false
      · exact hverified (isMark_iff.mp hmark)
    · exact h.reloads hstep hreload trivial
  · rename_i hgoing
    refine h.reloads hstep hreload ?_
    rw [hreloading]
    exact ⟨ready, hready, hdue', hgoes.resolve_right fun hended => hgoing hended.1⟩

/-- The end of a turn. -/
theorem waits (h : PollInv initial s) (hinterval : 0 < initial.interval)
    (hreloaded : s.run = .reloaded) {ready : Int} (hready : s.ready = some ready) :
    PollInv initial (s.wait ready) := by
  have hok := h.run
  rw [hreloaded] at hok
  obtain ⟨since, hsince, ⟨hle, hlast⟩, hverified⟩ := hok
  rw [hready] at hsince
  cases hsince
  have hticker : s.now < (s.ticker.getD ⟨s.now + s.interval, false⟩).next ∧
      (s.ticker.getD ⟨s.now + s.interval, false⟩).next ≤ s.now + s.interval := by
    cases hticker : s.ticker with
    | some ticker => exact h.ticker ticker hticker
    | none =>
      have hperiod : 0 < s.interval := h.interval ▸ hinterval
      exact ⟨Int.lt_add_of_pos_right _ hperiod, le_refl _⟩
  refine ⟨h.fresh, h.interval, ⟨_, rfl, List.cons_ne_nil _ _, ?_, ?_⟩, ?_, ?_, ?_, h.entered, ?_⟩
  · intro hnone
    refine ⟨?_, fun last hmem => ?_⟩
    · have hnone : (if (s.ticker.getD ⟨s.now + s.interval, false⟩).pending then some s.now
          else none) = none := hnone
      split at hnone
      · cases hnone
      · rename_i hpending
        exact Bool.not_eq_true _ ▸ hpending
    · cases hmem
      exact hticker.2
  · intro due hdue
    have hdue : (if (s.ticker.getD ⟨s.now + s.interval, false⟩).pending then some s.now
        else none) = some due := hdue
    split at hdue
    · cases hdue
      refine ⟨le_refl _, fun last hmem => ?_⟩
      cases hmem
      have hlater := hticker.1.le.trans hticker.2
      exact hlater
    · cases hdue
  · intro ticker hsame
    cases hsame
    exact hticker
  · exact h.turns.cons hlast
  · intro turn hturn
    rcases List.mem_cons.mp hturn with rfl | hturn
    · exact ⟨hle, le_refl _, hverified⟩
    · exact h.ended turn hturn
  · intro i time d htime hd
    obtain ⟨hbefore, hentered⟩ := h.deciders i time d htime hd
    -- the turn ends now, so it did not end before the decision was entered
    have hread : ∀ {verifiedAt}, ReadAfter s.turns time verifiedAt →
        ReadAfter ((ready, s.now) :: s.turns) time verifiedAt := by
      intro verifiedAt hread turn hturn hlt
      rcases List.mem_cons.mp hturn with rfl | hturn
      · exact absurd hbefore (not_le.mpr hlt)
      · exact hread turn hturn hlt
    refine ⟨hbefore, ?_⟩
    cases d with
    | entered verifiedAt => exact hread hentered
    | sampled verifiedAt now => exact ⟨hread hentered.1, hentered.2⟩
    | stale => trivial
    | evaluating verifiedAt now snapshot => trivial

/-- The slot is emptied and the turn begins. -/
theorem takesTick (h : PollInv initial s) (hselecting : s.run = .selecting) {ticker : Ticker}
    (hticker : s.ticker = some ticker) (hpending : ticker.pending = true) :
    PollInv initial
      { s with run := .locking, ticker := some { ticker with pending := false } } := by
  have hok := h.run
  rw [hselecting] at hok
  obtain ⟨same, hsame, -, hnone, hsome⟩ := hok
  rw [hticker] at hsame
  cases hsame
  refine h.moveRun (fun t ht => ?_) ?_
  · cases ht
    exact h.ticker ticker hticker
  · cases hready : s.ready with
    | none =>
      rw [(hnone hready).1] at hpending
      cases hpending
    | some ready => exact ⟨ready, rfl, hsome ready hready⟩

/-- A decision reads the verification time. -/
theorem decides (h : PollInv initial s) {fresh : FreshState W}
    (hs : s.fresh.step .decide = some fresh) :
    PollInv initial { s with fresh := fresh, entered := s.entered ++ [s.now] } := by
  have hreach : (freshSystem initial).Reachable fresh := h.fresh.step (a := .decide) hs
  have hrun := h.runOk_of_fresh hs
  cases hs
  refine ⟨hreach, h.interval, hrun rfl rfl fun _ => rfl, h.ticker, h.turns, h.ended, ?_, ?_⟩
  · show (s.entered ++ [s.now]).length = (s.fresh.deciders ++ [_]).length
    rw [List.length_append, List.length_append, h.entered]
    rfl
  · intro i time d htime hd
    rcases getElem?_concat_cases hd with ⟨hi, rfl⟩ | hold
    · rw [hi, ← h.entered, List.getElem?_concat_length] at htime
      cases htime
      exact ⟨le_refl _, fun turn hturn _ => ⟨(h.ended turn hturn).2.2.1, (h.ended turn hturn).2.2.2.1⟩⟩
    · rcases getElem?_concat_cases htime with ⟨hi, -⟩ | htime
      · have hlt := (List.getElem?_eq_some_iff.mp hold).1
        rw [hi, h.entered] at hlt
        exact absurd hlt (lt_irrefl _)
      · exact h.deciders i time d htime hold

/-- A decision goes on. -/
theorem sets (h : PollInv initial s) {action : FreshAction W} {i : Nat} {d : DecidePhase W}
    (hs : s.fresh.step action
      = some { s.fresh with deciders := s.fresh.deciders.set i d })
    (hd : ∀ time, s.entered[i]? = some time → time ≤ s.now → d.EnteredAt s.turns time) :
    PollInv initial
      { s with fresh := { s.fresh with deciders := s.fresh.deciders.set i d } } := by
  refine h.moveFresh hs rfl rfl List.length_set ?_ (h.runOk_of_fresh hs rfl rfl fun _ => rfl)
  intro j time d' htime hd'
  rcases getElem?_set_cases hd' with ⟨rfl, rfl⟩ | hold
  · have hlt := (List.getElem?_eq_some_iff.mp hd').1
    rw [List.length_set] at hlt
    have hbefore := (h.deciders j time _ htime (List.getElem?_eq_getElem hlt)).1
    exact ⟨hbefore, hd time htime hbefore⟩
  · exact h.deciders j time d' htime hold

theorem others (h : PollInv initial s) {action : FreshAction W} {fresh : FreshState W}
    (hs : s.fresh.step action = some fresh) (htimed : isTimed action = false)
    (hfree : isReload action = true → s.run ≠ .reloading) :
    PollInv initial { s with fresh := fresh } := by
  have hreloads : ∀ hreload : ReloadStep s.fresh action fresh,
      PollInv initial { s with fresh := fresh } := fun hreload =>
    h.reloads hs hreload (h.runOk_of_fresh hs hreload.now_eq hreload.interval_eq
      fun hreloading => absurd hreloading (hfree (isReload_of_reloadStep hreload)))
  cases action with
  | pass nanos => cases htimed
  | decide => cases htimed
  | publish manifest =>
    have hstep := hs
    dsimp only [FreshState.step] at hs
    split at hs
    · cases hs
      exact h.moveFresh hstep rfl rfl rfl h.deciders (h.runOk_of_fresh hstep rfl rfl fun _ => rfl)
    · cases hs
  | sample i =>
    have hstep := hs
    dsimp only [FreshState.step, FreshState.stepDecide] at hs
    split at hs
    · rename_i verifiedAt hd
      cases hs
      refine h.sets hstep fun time htime hbefore => ?_
      exact ⟨(h.deciders i time _ htime hd).2, hbefore⟩
    · cases hs
  | evaluate i =>
    have hstep := hs
    dsimp only [FreshState.step, FreshState.stepDecide] at hs
    split at hs
    · split at hs
      · cases hs
        exact h.sets hstep fun _ _ _ => trivial
      · cases hs
        exact h.sets hstep fun _ _ _ => trivial
    · cases hs
  | _ => exact hreloads (reloadStep_of_stepReload hs)

/-- **Every step keeps the invariant.** -/
theorem step (h : PollInv initial s) (hinterval : 0 < initial.interval) {action : PollAction W}
    (hs : s.step action = some s') : PollInv initial s' := by
  cases action with
  | pass nanos =>
    dsimp only [PollState.step] at hs
    obtain ⟨fresh, hfresh, rfl⟩ := Option.map_eq_some_iff.mp hs
    exact h.pass hinterval hfresh
  | run =>
    dsimp only [PollState.step] at hs
    split at hs
    · rename_i hrun
      cases hs
      have hok := h.run
      rw [hrun] at hok
      refine h.moveRun h.ticker ⟨s.now, rfl, le_refl _, fun last hmem => ?_⟩
      have hmem : last ∈ s.turns.head? := hmem
      rw [hok] at hmem
      cases hmem
    · cases hs
  | lock =>
    dsimp only [PollState.step] at hs
    split at hs
    · rename_i hlocking
      obtain ⟨fresh, hfresh, rfl⟩ := Option.map_eq_some_iff.mp hs
      exact h.locks hlocking hfresh
    · cases hs
  | abort err =>
    dsimp only [PollState.step] at hs
    split at hs
    · cases hs
      exact h.moveRun h.ticker trivial
    · cases hs
  | reload action cause =>
    dsimp only [PollState.step] at hs
    split at hs
    · rename_i hreloading
      obtain ⟨fresh, hfresh, rfl⟩ := Option.map_eq_some_iff.mp hs
      exact h.runs hreloading hfresh
    · cases hs
  | wait =>
    dsimp only [PollState.step] at hs
    split at hs
    · rename_i ready hreloaded hready
      cases hs
      exact h.waits hinterval hreloaded hready
    · cases hs
  | takeTick =>
    dsimp only [PollState.step] at hs
    split at hs
    · rename_i ticker hselecting hticker
      split at hs
      · rename_i hpending
        cases hs
        exact h.takesTick hselecting hticker hpending
      · cases hs
    · cases hs
  | takeDone err =>
    dsimp only [PollState.step] at hs
    split at hs
    · cases hs
      exact h.moveRun h.ticker trivial
    · cases hs
  | decide =>
    dsimp only [PollState.step] at hs
    obtain ⟨fresh, hfresh, rfl⟩ := Option.map_eq_some_iff.mp hs
    exact h.decides hfresh
  | other action =>
    dsimp only [PollState.step] at hs
    split at hs
    · cases hs
    · rename_i htimed
      rw [Bool.not_eq_true] at htimed
      split at hs
      · split at hs
        · cases hs
        · rename_i hfree
          obtain ⟨fresh, hfresh, rfl⟩ := Option.map_eq_some_iff.mp hs
          exact h.others hfresh htimed fun hreload => absurd hreload hfree
      · rename_i hnot
        obtain ⟨fresh, hfresh, rfl⟩ := Option.map_eq_some_iff.mp hs
        exact h.others hfresh htimed fun _ => hnot

theorem of_reachable (hinterval : 0 < initial.interval)
    (hs : (pollSystem initial).Reachable s) : PollInv initial s := by
  refine System.Reachable.invariant ?_ (fun _ _ _ _ hinv hstep => hinv.step hinterval hstep) hs
  rintro s ⟨hfresh, hs⟩
  have hreach : (freshSystem initial).Reachable s.fresh := .init hfresh
  obtain ⟨-, now, hnow⟩ := hfresh
  rw [hs, hnow]
  rw [hnow] at hreach
  exact {
    fresh := hreach
    interval := rfl
    run := rfl
    ticker := fun ticker h => by cases h
    turns := List.isChain_nil
    ended := fun turn h => absurd h List.not_mem_nil
    entered := rfl
    deciders := fun i time d h => by cases h }

end PollInv

/-! ### Punctual runs -/

section Punctual

variable {initial : Synchronizer W} {s : PollState W} {latency : Int}

end Punctual

/-! ### Two turns and a decision -/

end Authorization.Policy
