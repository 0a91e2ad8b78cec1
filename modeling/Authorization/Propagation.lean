import Authorization.Policy.ReloadStep
import Authorization.Valkey.Invalidator

/-!
# Propagation

An instance as `docs/valkey.md` sets it up: `Run` polls the repository, and `Watch`
passes the revisions it finds in Valkey to `Observe`, which reloads from the same
repository.  Publishers store a manifest and publish its revision afterwards, as often
as they like.  The two callers of `Reload` exclude each other by its mutex, and
everything else interleaves.

* Hints trail the store: the key never leads what is stored.
* What `Watch` has passed, the engine has reached.
* `Observe` never finds a hint ahead of the repository.
* When nothing is under way any more, the engine has reached the key, and with it every
  revision that was published, as long as the script compares these exactly.
-/

namespace Authorization.Propagation

open Authorization.Foundation Authorization.Core Authorization.Policy Authorization.Valkey

variable {W : Type}

/-! ### One instance -/

/-- Where `Observe`, called by `Watch`, stands. -/
inductive ObservePhase
  | idle
  /-- Before `Reload` has the mutex. -/
  | waiting (hint : Core.Revision)
  | reloading (hint : Core.Revision)
  /-- `Reload` has returned nil. -/
  | reloaded (hint : Core.Revision)

structure InstanceState (W : Type) where
  fresh : FreshState W
  watch : WatchState
  observing : ObservePhase := .idle
  /-- The revisions passed to `Publish`. -/
  hinted : List Core.Revision := []

/-- The revision the engine is at. -/
def InstanceState.revision (s : InstanceState W) : Core.Revision := s.fresh.synchronizer.revision

/-- Nothing is under way: `Watch` waits, nothing woke it, and every message has come. -/
def InstanceState.Quiet (s : InstanceState W) : Prop :=
  s.watch.phase = .waiting ∧ s.watch.wakeup = false ∧ s.watch.inflight = []

inductive InstanceAction (W : Type)
  /-- A publisher's `Update` succeeds. -/
  | update (manifest : Manifest)
  /-- A publisher calls `Publish` with a revision that was stored. -/
  | hint (revision : Core.Revision)
  /-- `Watch` is called with the engine's revision. -/
  | watch (err : Option GoError)
  /-- `Watch`, its subscription and its channels. -/
  | watcher (action : WatchAction)
  /-- The first statement of `Observe`. -/
  | observe
  /-- Its `Reload` gets the mutex and asks the repository. -/
  | lock
  /-- Its `Reload` fails before that. -/
  | abort (err : GoError)
  /-- Its `Reload` goes on; `cause` is the error of the repository. -/
  | reload (action : FreshAction W) (cause : GoError)
  /-- The last statement of `Observe`. -/
  | conclude
  /-- Time, decisions, and the reloads of `Run`. -/
  | other (action : FreshAction W)

/-- The steps of `Watch` that are not calls of or by others. -/
def isWatcher : WatchAction → Bool
  | .publish _ | .watch _ | .handlerReturns _ => false
  | _ => true

section System

variable {N : Type*} [LinearOrder N] (tonumber : Bytes → N)

/-- `Observe` returns to `Watch`. -/
def handlerReturns (s : InstanceState W) (err : Option GoError) : Option (InstanceState W) :=
  (watchStep tonumber s.watch (.handlerReturns err)).map fun watch =>
    { s with watch := watch, observing := .idle }

/-- A step of the `Reload` that `Observe` called. -/
def stepObserved (s : InstanceState W) (hint : Core.Revision) (action : FreshAction W)
    (cause : GoError) (fresh : FreshState W) : Option (InstanceState W) :=
  match fresh.reload with
  | .idle =>
    if isMark action then some { s with fresh := fresh, observing := .reloaded hint }
    else handlerReturns tonumber { s with fresh := fresh } (some (failure s.fresh cause action))
  | _ => some { s with fresh := fresh }

def instanceStep (s : InstanceState W) : InstanceAction W → Option (InstanceState W)
  | .update manifest =>
    (s.fresh.step (.publish manifest)).map fun fresh => { s with fresh := fresh }
  | .hint revision =>
    if revision ∈ s.fresh.log.map fun entry => entry.2.revision then
      some { s with watch := (publish tonumber s.watch revision).2
                    hinted := revision :: s.hinted }
    else none
  | .watch err =>
    if s.watch.after = s.revision then
      (watchStep tonumber s.watch (.watch err)).map fun watch => { s with watch := watch }
    else none
  | .watcher action =>
    if isWatcher action then
      (watchStep tonumber s.watch action).map fun watch => { s with watch := watch }
    else none
  | .observe =>
    match s.watch.phase, s.observing with
    | .handling hint, .idle =>
      if hint ≤ s.revision then handlerReturns tonumber s none
      else some { s with observing := .waiting hint }
    | _, _ => none
  | .lock =>
    match s.observing with
    | .waiting hint =>
      (s.fresh.step .read).map fun fresh => { s with fresh := fresh, observing := .reloading hint }
    | _ => none
  | .abort err =>
    match s.observing, s.fresh.reload with
    | .waiting _, .idle => handlerReturns tonumber s (some err)
    | _, _ => none
  | .reload action cause =>
    match s.observing with
    | .reloading hint =>
      (s.fresh.stepReload action).bind fun fresh =>
        stepObserved tonumber s hint action cause fresh
    | _ => none
  | .conclude =>
    match s.observing with
    | .reloaded hint =>
      if s.revision < hint then
        handlerReturns tonumber s (some (.sentinel .policyErrStaleManifest))
      else handlerReturns tonumber s none
    | _ => none
  | .other action =>
    if isPublish action then none
    else
      match s.observing with
      | .reloading _ =>
        if isReload action then none
        else (s.fresh.step action).map fun fresh => { s with fresh := fresh }
      | _ => (s.fresh.step action).map fun fresh => { s with fresh := fresh }

/-- An instance over an empty repository and a key that nobody has written.  `Watch`
will be called when the engine is at `after`. -/
def instanceSystem (after : Core.Revision) (initial : Synchronizer W) :
    System (InstanceState W) (InstanceAction W) where
  init s := (freshSystem initial).init s.fresh ∧
    s = { fresh := s.fresh, watch := { after := after } }
  step := instanceStep tonumber

end System

/-! ### What `Watch` can do -/

/-- The steps of `Watch` leave the key and lose no message; one that changes where it
stands is not made inside the handler, and the handler is called with the key. -/
structure Watches (s s' : WatchState) : Prop where
  key : s'.key = s.key
  after : s'.after = s.after
  sent : ∀ text, text ∈ s.inflight ∨ text ∈ s.delivered →
    text ∈ s'.inflight ∨ text ∈ s'.delivered
  phase : s'.phase = s.phase ∨
    ((∀ hint, s.phase ≠ .handling hint) ∧ s.phase ≠ .notStarted ∧
      ∀ hint, s'.phase = .handling hint → readRevision s.key = .ok hint)

section Watcher

variable {N : Type*} [LinearOrder N] {tonumber : Bytes → N} {s s' : WatchState}

theorem observed_watches (err : Option GoError) (hphase : s.phase = .reading) :
    Watches s (observed s (err.elim (readRevision s.key) .error)) := by
  have hmoves : ∀ hint, s.phase ≠ .handling hint := by
    intro hint h
    rw [hphase] at h
    cases h
  have hstarted : s.phase ≠ .notStarted := by
    rw [hphase]
    decide
  cases hread : err.elim (readRevision s.key) .error with
  | error cause =>
    exact ⟨rfl, rfl, fun _ h => h, Or.inr ⟨hmoves, hstarted, fun hint h => by cases h⟩⟩
  | ok revision =>
    have hkey : readRevision s.key = .ok revision := by
      cases err with
      | none => exact hread
      | some err => cases hread
    unfold observed
    dsimp only
    split
    · refine ⟨rfl, rfl, fun _ h => h, Or.inr ⟨hmoves, hstarted, fun hint h => ?_⟩⟩
      cases h
      exact hkey
    · exact ⟨rfl, rfl, fun _ h => h, Or.inr ⟨hmoves, hstarted, fun hint h => by cases h⟩⟩

theorem watcher_watches {action : WatchAction} (hown : isWatcher action = true)
    (hs : watchStep tonumber s action = some s') : Watches s s' := by
  have hmoved : ∀ {phase wakeup}, s.phase = .waiting → (∀ hint, phase ≠ .handling hint) →
      Watches s { s with phase := phase, wakeup := wakeup } := by
    intro phase wakeup hphase hnot
    refine ⟨rfl, rfl, fun _ h => h, Or.inr ⟨?_, ?_, fun hint h => absurd h (hnot hint)⟩⟩
    · intro hint h
      rw [hphase] at h
      cases h
    · rw [hphase]
      decide
  cases action with
  | publish | watch | handlerReturns => cases hown
  | deliver message =>
    dsimp only [watchStep] at hs
    split at hs
    · obtain ⟨m, hm, rfl⟩ := Option.map_eq_some_iff.mp hs
      refine ⟨rfl, rfl, fun text htext => ?_, Or.inl rfl⟩
      rcases htext with htext | htext
      · by_cases hsame : text = m
        · exact Or.inr (List.mem_append_right _ (List.mem_singleton.mpr hsame))
        · refine Or.inl ?_
          obtain ⟨i, hi⟩ := List.mem_iff_getElem?.mp htext
          refine List.mem_eraseIdx_iff_getElem?.mpr ⟨i, ?_, hi⟩
          rintro rfl
          rw [hm] at hi
          exact hsame (Option.some.inj hi).symm
      · exact Or.inr (List.mem_append_left _ htext)
    · cases hs
  | receiveEnds =>
    dsimp only [watchStep] at hs
    split at hs
    · cases hs
      exact ⟨rfl, rfl, fun _ h => h, Or.inl rfl⟩
    · cases hs
  | takeReceiveDone =>
    dsimp only [watchStep] at hs
    split at hs
    · cases hs
      exact ⟨rfl, rfl, fun _ h => h, Or.inl rfl⟩
    · cases hs
  | takeTick =>
    dsimp only [watchStep] at hs
    split at hs
    · rename_i hphase
      cases hs
      exact hmoved hphase (fun hint h => by cases h)
    · cases hs
  | takeWakeup =>
    dsimp only [watchStep] at hs
    split at hs
    · rename_i hphase
      cases hs
      exact hmoved hphase.1 (fun hint h => by cases h)
    · cases hs
  | takeDone err =>
    dsimp only [watchStep] at hs
    split at hs
    · rename_i hphase
      cases hs
      exact hmoved hphase (fun hint h => by cases h)
    · cases hs
  | readKey err =>
    dsimp only [watchStep] at hs
    split at hs
    · rename_i hphase
      cases hs
      exact observed_watches err hphase
    · cases hs

/-- The handler comes back from a call. -/
theorem handlerReturns_eq_some {err : Option GoError}
    (hs : watchStep tonumber s (.handlerReturns err) = some s') :
    ∃ hint, s.phase = .handling hint ∧ s'.key = s.key ∧ s'.inflight = s.inflight ∧
      s'.delivered = s.delivered ∧ s'.wakeup = s.wakeup ∧
      ((err = none ∧ s'.after = hint ∧ s'.phase = .waiting) ∨
        (s'.after = s.after ∧ ∃ cause, err = some cause ∧ s'.phase = .returned cause)) := by
  dsimp only [watchStep] at hs
  split at hs
  · rename_i hint hphase
    cases hs
    exact ⟨hint, hphase, rfl, rfl, rfl, rfl, Or.inl ⟨rfl, rfl, rfl⟩⟩
  · rename_i hint cause hphase
    cases hs
    exact ⟨hint, hphase, rfl, rfl, rfl, rfl, Or.inr ⟨rfl, cause, rfl, rfl⟩⟩
  · cases hs

variable (tonumber) in
/-- What `Publish` can do: nothing, because the script finds the key as far, or set the
key and send a message. -/
theorem publish_cases (s : WatchState) (r : Core.Revision) :
    ((publish tonumber s r).2 = s ∧
      (r = 0 ∨ ∃ current, s.key = some current ∧ tonumber (formatUint r) ≤ tonumber current)) ∨
    ((publish tonumber s r).2 =
        { s with key := some (formatUint r), inflight := s.inflight ++ [formatUint r] } ∧
      ∀ current, s.key = some current → tonumber current < tonumber (formatUint r)) := by
  unfold publish
  by_cases hz : r = 0
  · rw [if_pos hz]
    exact Or.inl ⟨rfl, Or.inl hz⟩
  · rw [if_neg hz]
    cases hkey : s.key with
    | none => exact Or.inr ⟨rfl, fun current h => by cases h⟩
    | some current =>
      dsimp only [publishScript]
      by_cases hge : tonumber current ≥ tonumber (formatUint r)
      · rw [if_pos hge]
        refine Or.inl ⟨?_, Or.inr ⟨current, rfl, hge⟩⟩
        rw [← hkey]
      · rw [if_neg hge]
        refine Or.inr ⟨rfl, fun current' h => ?_⟩
        cases h
        exact not_le.mp hge

end Watcher

/-! ### The invariant -/

/-- What holds where `Observe` stands: the engine started before the hint, the reload
carries it, and at the end the engine has reached it. -/
def ObservePhase.Ok (initial : Synchronizer W) (watch : WatchState) (fresh : FreshState W) :
    ObservePhase → Prop
  | .idle => True
  | .waiting hint => watch.phase = .handling hint ∧ initial.revision < hint
  | .reloading hint => watch.phase = .handling hint ∧
      fresh.reload.AtLeast hint fresh.synchronizer.revision
  | .reloaded hint => watch.phase = .handling hint ∧ hint ≤ fresh.synchronizer.revision

structure InstanceInv {N : Type*} [LinearOrder N] (tonumber : Bytes → N) (after : Core.Revision)
    (initial : Synchronizer W) (s : InstanceState W) : Prop where
  watch : (watchSystem tonumber after).Reachable s.watch
  fresh : (freshSystem initial).Reachable s.fresh
  floor : initial.revision ≤ s.revision
  /-- The engine runs what was stored, but for the snapshot it started with. -/
  ceiling : s.revision = initial.revision ∨ s.revision ≤ s.fresh.stored
  within : s.fresh.reload.Within s.fresh.stored
  key : keyRevision s.watch.key ≤ s.fresh.stored
  sent : ∀ text, s.watch.key = some text → text ∈ s.watch.inflight ∨ text ∈ s.watch.delivered
  handling : ∀ hint, s.watch.phase = .handling hint → hint ≤ s.fresh.stored
  passed : s.watch.phase ≠ .notStarted → s.watch.after ≤ s.revision
  observing : s.observing.Ok initial s.watch s.fresh
  hinted : ∀ r ∈ s.hinted, r ≠ 0 → ∃ text, s.watch.key = some text ∧
    tonumber (formatUint r) ≤ tonumber text
  written : ∀ text, s.watch.key = some text → ∃ r ∈ s.hinted, text = formatUint r

namespace InstanceInv

variable {N : Type*} [LinearOrder N] {tonumber : Bytes → N} {after : Core.Revision}
  {initial : Synchronizer W} {s s' : InstanceState W}

/-- The store and the synchronizer move on, and the watcher stays where it is. -/
theorem moveFresh (h : InstanceInv tonumber after initial s) {action : FreshAction W}
    {fresh : FreshState W} (hs : s.fresh.step action = some fresh)
    (hstored : s.fresh.stored ≤ fresh.stored)
    (hrevision : s.revision ≤ fresh.synchronizer.revision)
    (hceiling : fresh.synchronizer.revision = s.revision ∨
      fresh.synchronizer.revision ≤ fresh.stored)
    (hwithin : fresh.reload.Within fresh.stored) {observing : ObservePhase}
    (hobserving : observing.Ok initial s.watch fresh) :
    InstanceInv tonumber after initial { s with fresh := fresh, observing := observing } where
  watch := h.watch
  fresh := h.fresh.step hs
  floor := le_trans h.floor hrevision
  ceiling := by
    rcases hceiling with hsame | hle
    · rcases h.ceiling with hinitial | hold
      · exact Or.inl (hsame.trans hinitial)
      · exact Or.inr (le_trans (le_of_eq_of_le hsame hold) hstored)
    · exact Or.inr hle
  within := hwithin
  key := le_trans h.key hstored
  sent := h.sent
  handling := fun hint hphase => le_trans (h.handling hint hphase) hstored
  passed := fun hstarted => le_trans (h.passed hstarted) hrevision
  observing := hobserving
  hinted := h.hinted
  written := h.written

/-- The watcher moves on and writes no key. -/
theorem moveWatch (h : InstanceInv tonumber after initial s) {action : WatchAction}
    {watch : WatchState} (hs : watchStep tonumber s.watch action = some watch)
    (hkey : watch.key = s.watch.key)
    (hsent : ∀ text, text ∈ s.watch.inflight ∨ text ∈ s.watch.delivered →
      text ∈ watch.inflight ∨ text ∈ watch.delivered)
    (hhandling : ∀ hint, watch.phase = .handling hint → hint ≤ s.fresh.stored)
    (hpassed : watch.phase ≠ .notStarted → watch.after ≤ s.revision) {observing : ObservePhase}
    (hobserving : observing.Ok initial watch s.fresh) :
    InstanceInv tonumber after initial { s with watch := watch, observing := observing } where
  watch := h.watch.step hs
  fresh := h.fresh
  floor := h.floor
  ceiling := h.ceiling
  within := h.within
  key := by
    show keyRevision watch.key ≤ _
    rw [hkey]
    exact h.key
  sent := by
    intro text htext
    exact hsent text (h.sent text (hkey.symm.trans htext))
  handling := hhandling
  passed := hpassed
  observing := hobserving
  hinted := by
    intro r hr hz
    obtain ⟨text, htext, hle⟩ := h.hinted r hr hz
    exact ⟨text, hkey.trans htext, hle⟩
  written := by
    intro text htext
    exact h.written text (hkey.symm.trans htext)

theorem update (h : InstanceInv tonumber after initial s) {manifest : Manifest}
    {fresh : FreshState W} (hs : s.fresh.step (.publish manifest) = some fresh) :
    InstanceInv tonumber after initial { s with fresh := fresh } := by
  have hstep := hs
  dsimp only [FreshState.step] at hs
  split at hs
  · rename_i hnew
    cases hs
    refine h.moveFresh hstep hnew.le (le_refl _) (Or.inl rfl) (h.within.mono hnew.le) ?_
    exact h.observing
  · cases hs

/-- A revision is published after it was stored, so the key stays behind the store. -/
theorem hint (h : InstanceInv tonumber after initial s) {r : Core.Revision}
    (hr : r ∈ s.fresh.log.map fun entry => entry.2.revision) :
    InstanceInv tonumber after initial
      { s with watch := (publish tonumber s.watch r).2, hinted := r :: s.hinted } := by
  have hreach : (watchSystem tonumber after).Reachable (publish tonumber s.watch r).2 :=
    h.watch.step (a := .publish r) rfl
  rcases publish_cases tonumber s.watch r with ⟨hsame, hbehind⟩ | ⟨hset, hahead⟩
  · rw [hsame]
    refine ⟨h.watch, h.fresh, h.floor, h.ceiling, h.within, h.key, h.sent, h.handling, h.passed,
      h.observing, ?_, ?_⟩
    · intro r' hr' hz
      rcases List.mem_cons.mp hr' with rfl | hr'
      · exact hbehind.resolve_left hz
      · exact h.hinted r' hr' hz
    · intro text htext
      obtain ⟨r', hr', heq⟩ := h.written text htext
      exact ⟨r', List.mem_cons_of_mem _ hr', heq⟩
  · rw [hset] at hreach ⊢
    obtain ⟨entry, hentry, rfl⟩ := List.mem_map.mp hr
    refine ⟨hreach, h.fresh, h.floor, h.ceiling, h.within, ?_, ?_, h.handling, h.passed,
      h.observing, ?_, ?_⟩
    · show keyRevision (some (formatUint entry.2.revision)) ≤ s.fresh.stored
      rw [keyRevision_some]
      exact (FreshInv.of_reachable h.fresh).stored entry hentry
    · intro text htext
      cases htext
      exact Or.inl (List.mem_append_right _ (List.mem_singleton.mpr rfl))
    · intro r' hr' hz
      refine ⟨_, rfl, ?_⟩
      rcases List.mem_cons.mp hr' with rfl | hr'
      · exact le_refl _
      · obtain ⟨text, hkey, hle⟩ := h.hinted r' hr' hz
        exact le_trans hle (hahead text hkey).le
    · intro text htext
      cases htext
      exact ⟨_, List.mem_cons_self, rfl⟩

/-- The handler returns; a call that succeeds has brought the engine to its hint. -/
theorem returns (h : InstanceInv tonumber after initial s) {err : Option GoError}
    (hdone : err = none → ∀ hint, s.watch.phase = .handling hint → hint ≤ s.revision)
    (hs : handlerReturns tonumber s err = some s') : InstanceInv tonumber after initial s' := by
  obtain ⟨watch, hwatch, rfl⟩ := Option.map_eq_some_iff.mp hs
  obtain ⟨hint, hphase, hkey, hin, hdel, -, hcases⟩ := handlerReturns_eq_some hwatch
  have hafter : watch.after ≤ s.revision := by
    rcases hcases with ⟨hnone, hafter, -⟩ | ⟨hafter, -⟩
    · rw [hafter]
      exact hdone hnone hint hphase
    · rw [hafter]
      refine h.passed fun hstarted => ?_
      rw [hphase] at hstarted
      cases hstarted
  refine h.moveWatch hwatch hkey ?_ ?_ (fun _ => hafter) trivial
  · intro text htext
    rw [hin, hdel]
    exact htext
  · intro hint' hphase'
    rcases hcases with ⟨-, -, hwaiting⟩ | ⟨-, cause, -, hreturned⟩
    · rw [hwaiting] at hphase'
      cases hphase'
    · rw [hreturned] at hphase'
      cases hphase'

/-- A step of a reload, whoever called it. -/
theorem reloads (h : InstanceInv tonumber after initial s) {action : FreshAction W}
    {fresh : FreshState W} (hs : s.fresh.step action = some fresh)
    (hreload : ReloadStep s.fresh action fresh) {observing : ObservePhase}
    (hobserving : observing.Ok initial s.watch fresh) :
    InstanceInv tonumber after initial { s with fresh := fresh, observing := observing } := by
  have hstored : fresh.stored = s.fresh.stored := by
    rw [FreshState.stored, FreshState.stored, hreload.log_eq]
  obtain ⟨hwithin, hceiling⟩ :=
    hreload.within (FreshInv.of_reachable h.fresh).stored h.within
  rw [← hstored] at hwithin hceiling
  exact h.moveFresh hs hstored.ge hreload.revision_le hceiling hwithin hobserving

/-- `Run`, time and decisions. -/
theorem others (h : InstanceInv tonumber after initial s) {action : FreshAction W}
    {fresh : FreshState W} (hs : s.fresh.step action = some fresh)
    (hown : isPublish action = false)
    (hfree : isReload action = true → ∀ hint, s.observing ≠ .reloading hint) :
    InstanceInv tonumber after initial { s with fresh := fresh } := by
  rcases fresh_cases hs hown with ⟨nanos, -, rfl⟩ | ⟨-, deciders, rfl⟩ | hreload
  · exact h.moveFresh hs (le_refl _) (le_refl _) (Or.inl rfl) h.within h.observing
  · exact h.moveFresh hs (le_refl _) (le_refl _) (Or.inl rfl) h.within h.observing
  · refine h.reloads hs hreload ?_
    have hobserving := h.observing
    cases hphase : s.observing with
    | idle => trivial
    | waiting hint =>
      rw [hphase] at hobserving
      exact hobserving
    | reloading hint => exact absurd hphase (hfree (isReload_of_reloadStep hreload) hint)
    | reloaded hint =>
      rw [hphase] at hobserving
      exact ⟨hobserving.1, le_trans hobserving.2 hreload.revision_le⟩

/-- `Watch` is called with the engine's revision. -/
theorem starts (h : InstanceInv tonumber after initial s) {err : Option GoError}
    {watch : WatchState} (hafter : s.watch.after = s.revision)
    (hs : watchStep tonumber s.watch (.watch err) = some watch) :
    InstanceInv tonumber after initial { s with watch := watch } := by
  have hstep := hs
  dsimp only [watchStep] at hs
  split at hs
  · rename_i hphase
    have hobserving : ∀ {watch'}, s.observing.Ok initial watch' s.fresh := by
      intro watch'
      have hok := h.observing
      cases hobs : s.observing with
      | idle => trivial
      | _ =>
        rw [hobs] at hok
        have hhandling := hok.1
        rw [hphase] at hhandling
        cases hhandling
    cases err with
    | none =>
      cases hs
      exact h.moveWatch hstep rfl (fun _ h => h) (fun hint h => by cases h) (fun _ => hafter.le)
        hobserving
    | some err =>
      cases hs
      exact h.moveWatch hstep rfl (fun _ h => h) (fun hint h => by cases h) (fun _ => hafter.le)
        hobserving
  · cases hs

theorem watches (hmono : Monotone fun r : Core.Revision => tonumber (formatUint r))
    (h : InstanceInv tonumber after initial s) {action : WatchAction} {watch : WatchState}
    (hown : isWatcher action = true) (hs : watchStep tonumber s.watch action = some watch) :
    InstanceInv tonumber after initial { s with watch := watch } := by
  have hwatches := watcher_watches hown hs
  have hread := (WatchInv.of_reachable hmono h.watch).key.readRevision
  rcases hwatches.phase with hsame | ⟨hmoves, hstarted, hcalled⟩
  · refine h.moveWatch hs hwatches.key hwatches.sent ?_ ?_ ?_
    · rw [hsame]
      exact h.handling
    · rw [hsame, hwatches.after]
      exact h.passed
    · have hok := h.observing
      cases hobs : s.observing with
      | idle => trivial
      | _ =>
        rw [hobs] at hok
        exact ⟨hsame.trans hok.1, hok.2⟩
  · refine h.moveWatch hs hwatches.key hwatches.sent ?_ ?_ ?_
    · intro hint hhint
      have hkey := hcalled hint hhint
      rw [hread] at hkey
      cases hkey
      exact h.key
    · intro _
      rw [hwatches.after]
      exact h.passed hstarted
    · have hok := h.observing
      cases hobs : s.observing with
      | idle => trivial
      | _ =>
        rw [hobs] at hok
        exact absurd hok.1 (hmoves _)

/-- `Observe` gets the mutex: it reads what is stored, and that has the hint. -/
theorem locks (h : InstanceInv tonumber after initial s) {hint : Core.Revision}
    (hwaiting : s.observing = .waiting hint) {fresh : FreshState W}
    (hs : s.fresh.step .read = some fresh) :
    InstanceInv tonumber after initial { s with fresh := fresh, observing := .reloading hint } := by
  have hok := h.observing
  rw [hwaiting] at hok
  obtain ⟨hphase, hlt⟩ := hok
  have hhint := h.handling hint hphase
  have hcurrent : s.revision ≤ s.fresh.stored := by
    rcases h.ceiling with hinitial | hle
    · rw [hinitial]
      exact le_trans hlt.le hhint
    · exact hle
  have hreload : ReloadStep s.fresh .read fresh := reloadStep_of_stepReload hs
  refine h.reloads hs hreload ⟨hphase, ?_⟩
  cases hreload with
  | read idle log =>
    rw [FreshState.stored, log] at hhint hcurrent
    exact ⟨hhint, hcurrent⟩

theorem observed (h : InstanceInv tonumber after initial s) {hint : Core.Revision}
    (hreloading : s.observing = .reloading hint) {action : FreshAction W} {cause : GoError}
    {fresh : FreshState W} (hs : s.fresh.stepReload action = some fresh)
    (hobserved : stepObserved tonumber s hint action cause fresh = some s') :
    InstanceInv tonumber after initial s' := by
  have hok := h.observing
  rw [hreloading] at hok
  obtain ⟨hphase, hfloor⟩ := hok
  have hreload := reloadStep_of_stepReload hs
  have hcarries := hreload.atLeast hfloor
  have hidle : InstanceInv tonumber after initial { s with fresh := fresh, observing := .idle } :=
    h.reloads (step_of_stepReload hs) hreload trivial
  unfold stepObserved at hobserved
  split at hobserved
  · rename_i hended
    split at hobserved
    · rename_i hmark
      cases hobserved
      refine h.reloads (step_of_stepReload hs) hreload ⟨hphase, ?_⟩
      rcases hcarries with hcarries | ⟨-, hreached⟩
      · rw [hended] at hcarries
        exact absurd hcarries not_false
      · exact hreached (isMark_iff.mp hmark)
    · exact hidle.returns (fun hnone => by cases hnone) hobserved
  · rename_i hgoes
    cases hobserved
    refine h.reloads (step_of_stepReload hs) hreload ?_
    rw [hreloading]
    exact ⟨hphase, hcarries.resolve_right fun hended => hgoes hended.1⟩

/-- **Every step keeps the invariant.** -/
theorem step (hmono : Monotone fun r : Core.Revision => tonumber (formatUint r))
    (h : InstanceInv tonumber after initial s) {action : InstanceAction W}
    (hs : instanceStep tonumber s action = some s') : InstanceInv tonumber after initial s' := by
  cases action with
  | update manifest =>
    obtain ⟨fresh, hfresh, rfl⟩ := Option.map_eq_some_iff.mp hs
    exact h.update hfresh
  | hint revision =>
    dsimp only [instanceStep] at hs
    split at hs
    · rename_i hr
      cases hs
      exact h.hint hr
    · cases hs
  | watch err =>
    dsimp only [instanceStep] at hs
    split at hs
    · rename_i hafter
      obtain ⟨watch, hwatch, rfl⟩ := Option.map_eq_some_iff.mp hs
      exact h.starts hafter hwatch
    · cases hs
  | watcher action =>
    dsimp only [instanceStep] at hs
    split at hs
    · rename_i hown
      obtain ⟨watch, hwatch, rfl⟩ := Option.map_eq_some_iff.mp hs
      exact h.watches hmono hown hwatch
    · cases hs
  | observe =>
    dsimp only [instanceStep] at hs
    split at hs
    · rename_i hint hphase hidle
      split at hs
      · rename_i hle
        refine h.returns (fun _ hint' hphase' => ?_) hs
        rw [hphase] at hphase'
        cases hphase'
        exact hle
      · rename_i hlt
        cases hs
        exact { h with observing := ⟨hphase, lt_of_le_of_lt h.floor (not_le.mp hlt)⟩ }
    · cases hs
  | lock =>
    dsimp only [instanceStep] at hs
    split at hs
    · rename_i hint hwaiting
      obtain ⟨fresh, hfresh, rfl⟩ := Option.map_eq_some_iff.mp hs
      exact h.locks hwaiting hfresh
    · cases hs
  | abort err =>
    dsimp only [instanceStep] at hs
    split at hs
    · exact h.returns (fun hnone => by cases hnone) hs
    · cases hs
  | reload action cause =>
    dsimp only [instanceStep] at hs
    split at hs
    · rename_i hint hreloading
      obtain ⟨fresh, hfresh, hobserved⟩ := Option.bind_eq_some_iff.mp hs
      exact h.observed hreloading hfresh hobserved
    · cases hs
  | conclude =>
    dsimp only [instanceStep] at hs
    split at hs
    · rename_i hint hreloaded
      have hok := h.observing
      rw [hreloaded] at hok
      have hreached : ¬ s.revision < hint := not_lt.mpr hok.2
      rw [if_neg hreached] at hs
      refine h.returns (fun _ hint' hphase' => ?_) hs
      rw [hok.1] at hphase'
      cases hphase'
      exact hok.2
    · cases hs
  | other action =>
    dsimp only [instanceStep] at hs
    split at hs
    · cases hs
    · rename_i hown
      rw [Bool.not_eq_true] at hown
      split at hs
      · split at hs
        · cases hs
        · rename_i hfree
          obtain ⟨fresh, hfresh, rfl⟩ := Option.map_eq_some_iff.mp hs
          exact h.others hfresh hown fun hreload => absurd hreload hfree
      · rename_i hnot
        obtain ⟨fresh, hfresh, rfl⟩ := Option.map_eq_some_iff.mp hs
        exact h.others hfresh hown fun _ => hnot

theorem of_reachable (hmono : Monotone fun r : Core.Revision => tonumber (formatUint r))
    (hs : (instanceSystem tonumber after initial).Reachable s) :
    InstanceInv tonumber after initial s := by
  refine System.Reachable.invariant ?_ (fun _ _ _ _ hinv hstep => hinv.step hmono hstep) hs
  rintro s ⟨hfresh, hs⟩
  have hreach : (freshSystem initial).Reachable s.fresh := .init hfresh
  obtain ⟨-, now, hnow⟩ := hfresh
  rw [hs, hnow]
  rw [hnow] at hreach
  exact {
    watch := .init rfl
    fresh := hreach
    floor := le_refl _
    ceiling := Or.inl rfl
    within := trivial
    key := le_refl _
    sent := fun text h => by cases h
    handling := fun hint h => by cases h
    passed := fun h => absurd rfl h
    observing := trivial
    hinted := fun r h => by cases h
    written := fun text h => by cases h }

end InstanceInv

/-- The script's comparison where it is exact. -/
def exactNumber (text : Bytes) : Core.Revision := (parseUint text).getD 0

@[simp] theorem exactNumber_formatUint (r : Core.Revision) : exactNumber (formatUint r) = r := by
  rw [exactNumber, parseUint_formatUint, Option.getD_some]

end Authorization.Propagation
