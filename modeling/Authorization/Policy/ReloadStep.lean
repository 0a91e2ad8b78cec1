import Authorization.Postgres.Fleet

/-!
# The steps of a reload

What each step of `Reload` can do to the state of `Policy/Staleness.lean`, said once
(`ReloadStep`), and what one reload carries from its read to its mark.  Everything else
that happens is time, decisions and publications (`fresh_cases`).
-/

namespace Authorization.Policy

open Authorization.Foundation Authorization.Core

variable {W : Type}

/-! ### Steps of a reload -/

/-- **What a step of `Reload` can do.** -/
inductive ReloadStep (s : FreshState W) : FreshAction W → FreshState W → Prop
  | read {entry : Int × Manifest} {rest : List (Int × Manifest)} (idle : s.reload = .idle)
      (log : s.log = entry :: rest) :
      ReloadStep s .read { s with reload := .reading s.now entry.2 }
  | fail {readAt : Int} {manifest : Manifest} (phase : s.reload = .reading readAt manifest) :
      ReloadStep s .fail { s with reload := .idle }
  | returned {readAt : Int} {manifest : Manifest} (phase : s.reload = .reading readAt manifest) :
      ReloadStep s .returned { s with reload := .loaded readAt manifest }
  | invalid {readAt : Int} {manifest : Manifest} (phase : s.reload = .loaded readAt manifest)
      (invalid : manifest.validate ≠ none) : ReloadStep s .check { s with reload := .idle }
  | older {readAt : Int} {manifest : Manifest} (phase : s.reload = .loaded readAt manifest)
      (older : manifest.revision < s.synchronizer.revision) :
      ReloadStep s .check { s with reload := .idle }
  | same {readAt : Int} {manifest : Manifest} (phase : s.reload = .loaded readAt manifest)
      (same : manifest.revision = s.synchronizer.revision) :
      ReloadStep s .check { s with reload := .marking readAt }
  | newer {readAt : Int} {manifest : Manifest} (phase : s.reload = .loaded readAt manifest)
      (newer : s.synchronizer.revision < manifest.revision) :
      ReloadStep s .check
        { s with reload := .checked readAt manifest s.synchronizer.revision }
  | uncompiled {readAt : Int} {manifest : Manifest} {current : Revision} {w : W}
      (phase : s.reload = .checked readAt manifest current) :
      ReloadStep s (.compile w) { s with reload := .idle }
  | compiled {readAt : Int} {manifest : Manifest} {current : Revision} {w : W}
      {snapshot : Snapshot W} (phase : s.reload = .checked readAt manifest current)
      (revision : snapshot.revision = manifest.revision) :
      ReloadStep s (.compile w) { s with reload := .compiled readAt snapshot current }
  | conflict {readAt : Int} {snapshot : Snapshot W} {current : Revision}
      (phase : s.reload = .compiled readAt snapshot current) :
      ReloadStep s .replace { s with reload := .idle }
  | replaced {readAt : Int} {snapshot : Snapshot W} {current : Revision}
      (phase : s.reload = .compiled readAt snapshot current)
      (newer : s.synchronizer.revision < snapshot.revision) :
      ReloadStep s .replace { s with
        synchronizer := { s.synchronizer with
          engine := { s.synchronizer.engine with snapshot := snapshot } }
        reload := .marking readAt }
  | mark {readAt : Int} (phase : s.reload = .marking readAt) :
      ReloadStep s .mark { s with
        synchronizer := { s.synchronizer with verifiedAt := ⟨s.now, 0⟩ }
        reload := .idle
        verifications := (readAt, s.now) :: s.verifications }

theorem reloadStep_check {s : FreshState W} {readAt : Int} {manifest : Manifest}
    (phase : s.reload = .loaded readAt manifest) :
    ReloadStep s .check { s with reload := s.check readAt manifest } := by
  unfold FreshState.check
  split
  · rename_i hinvalid
    exact .invalid phase hinvalid
  · split
    · rename_i holder
      exact .older phase holder
    · rename_i hnot
      split
      · rename_i hsame
        exact .same phase hsame
      · rename_i hne
        exact .newer phase (lt_of_le_of_ne (not_lt.mp hnot) (Ne.symm hne))

theorem reloadStep_of_stepReload {s s' : FreshState W} {action : FreshAction W}
    (hs : s.stepReload action = some s') : ReloadStep s action s' := by
  cases action with
  | read =>
    dsimp only [FreshState.stepReload] at hs
    split at hs
    · rename_i entry rest hidle hlog
      cases hs
      exact .read hidle hlog
    · cases hs
  | fail =>
    dsimp only [FreshState.stepReload] at hs
    split at hs
    · rename_i readAt manifest hphase
      cases hs
      exact .fail hphase
    · cases hs
  | returned =>
    dsimp only [FreshState.stepReload] at hs
    split at hs
    · rename_i readAt manifest hphase
      cases hs
      exact .returned hphase
    · cases hs
  | check =>
    dsimp only [FreshState.stepReload] at hs
    split at hs
    · rename_i readAt manifest hphase
      cases hs
      exact reloadStep_check hphase
    · cases hs
  | compile w =>
    dsimp only [FreshState.stepReload] at hs
    split at hs
    · rename_i readAt manifest current hphase
      split at hs
      · cases hs
        exact .uncompiled hphase
      · rename_i snapshot hcompile
        cases hs
        exact .compiled hphase (compile_revision hcompile)
    · cases hs
  | replace =>
    dsimp only [FreshState.stepReload] at hs
    split at hs
    · rename_i readAt snapshot current hphase
      split at hs
      · cases hs
        exact .conflict hphase
      · rename_i engine hreplace
        cases hs
        obtain ⟨-, hlt, rfl⟩ := Engine.replaceSnapshot_eq_none hreplace
        exact .replaced hphase hlt
    · cases hs
  | mark =>
    dsimp only [FreshState.stepReload] at hs
    split at hs
    · rename_i readAt hphase
      cases hs
      exact .mark hphase
    · cases hs
  | _ => cases hs

namespace ReloadStep

variable {s s' : FreshState W} {action : FreshAction W}

theorem log_eq (h : ReloadStep s action s') : s'.log = s.log := by
  cases h <;> rfl

theorem now_eq (h : ReloadStep s action s') : s'.now = s.now := by
  cases h <;> rfl

theorem deciders_eq (h : ReloadStep s action s') : s'.deciders = s.deciders := by
  cases h <;> rfl

theorem interval_eq (h : ReloadStep s action s') :
    s'.synchronizer.interval = s.synchronizer.interval := by
  cases h <;> rfl

theorem revision_le (h : ReloadStep s action s') :
    s.synchronizer.revision ≤ s'.synchronizer.revision := by
  cases h with
  | replaced phase newer => exact newer.le
  | _ => exact le_refl _

end ReloadStep

/-! ### The bounds of one reload -/

/-- What the reload carries is at least the revision `floor`, and the manifest is not
older than the engine. -/
def ReloadPhase.AtLeast (floor current : Revision) : ReloadPhase W → Prop
  | .idle => False
  | .reading _ manifest | .loaded _ manifest =>
    floor ≤ manifest.revision ∧ current ≤ manifest.revision
  | .checked _ manifest _ => floor ≤ manifest.revision
  | .compiled _ snapshot _ => floor ≤ snapshot.revision
  | .marking _ => floor ≤ current

/-- What the reload carries was stored. -/
def ReloadPhase.Within (stored : Revision) : ReloadPhase W → Prop
  | .idle | .marking _ => True
  | .reading _ manifest | .loaded _ manifest | .checked _ manifest _ => manifest.revision ≤ stored
  | .compiled _ snapshot _ => snapshot.revision ≤ stored

theorem ReloadPhase.Within.mono {stored stored' : Revision} (hle : stored ≤ stored')
    {phase : ReloadPhase W} (h : phase.Within stored) : phase.Within stored' := by
  cases phase with
  | idle | marking => trivial
  | _ => exact le_trans h hle

/-- **A reload that carries enough goes on so, fails, or has brought the engine there.** -/
theorem ReloadStep.atLeast {s s' : FreshState W} {action : FreshAction W}
    (h : ReloadStep s action s') {floor : Revision}
    (hfloor : s.reload.AtLeast floor s.synchronizer.revision) :
    s'.reload.AtLeast floor s'.synchronizer.revision ∨
      (s'.reload = .idle ∧ (action = .mark → floor ≤ s'.synchronizer.revision)) := by
  cases h with
  | read idle log =>
    rw [idle] at hfloor
    exact absurd hfloor not_false
  | returned phase =>
    rw [phase] at hfloor
    exact Or.inl hfloor
  | same phase same =>
    rw [phase] at hfloor
    exact Or.inl (same ▸ hfloor.1)
  | newer phase newer =>
    rw [phase] at hfloor
    exact Or.inl hfloor.1
  | compiled phase revision =>
    rw [phase] at hfloor
    exact Or.inl (le_of_le_of_eq hfloor revision.symm)
  | replaced phase newer =>
    rw [phase] at hfloor
    exact Or.inl hfloor
  | mark phase =>
    rw [phase] at hfloor
    exact Or.inr ⟨rfl, fun _ => hfloor⟩
  | fail | invalid | older | uncompiled | conflict =>
    exact Or.inr ⟨rfl, fun hmark => absurd hmark (by simp)⟩

theorem ReloadStep.within {s s' : FreshState W} {action : FreshAction W}
    (h : ReloadStep s action s') (hread : ∀ entry ∈ s.log, entry.2.revision ≤ s.stored)
    (hwithin : s.reload.Within s.stored) : s'.reload.Within s.stored ∧
      (s'.synchronizer.revision = s.synchronizer.revision ∨
        s'.synchronizer.revision ≤ s.stored) := by
  cases h with
  | read idle log =>
    exact ⟨hread _ (by rw [log]; exact List.mem_cons_self), Or.inl rfl⟩
  | returned phase =>
    rw [phase] at hwithin
    exact ⟨hwithin, Or.inl rfl⟩
  | newer phase newer =>
    rw [phase] at hwithin
    exact ⟨hwithin, Or.inl rfl⟩
  | compiled phase revision =>
    rw [phase] at hwithin
    exact ⟨le_of_eq_of_le revision hwithin, Or.inl rfl⟩
  | replaced phase newer =>
    rw [phase] at hwithin
    exact ⟨trivial, Or.inr hwithin⟩
  | fail | invalid | older | same | uncompiled | conflict | mark => exact ⟨trivial, Or.inl rfl⟩

/-! ### The other steps -/

/-- The steps that need the mutex. -/
def isReload : FreshAction W → Bool
  | .read | .fail | .returned | .check | .compile _ | .replace | .mark => true
  | _ => false

def isMark : FreshAction W → Bool
  | .mark => true
  | _ => false

theorem isMark_iff {action : FreshAction W} : isMark action = true ↔ action = .mark := by
  cases action <;> simp [isMark]

def isPublish : FreshAction W → Bool
  | .publish _ => true
  | _ => false

/-- The error with which a step of `Reload` ends it. -/
def failure (s : FreshState W) (cause : GoError) : FreshAction W → GoError
  | .check =>
    match s.reload with
    | .loaded _ manifest => manifest.validate.getD (.sentinel .policyErrStaleManifest)
    | _ => cause
  | .compile w =>
    match s.reload with
    | .checked _ manifest _ =>
      match (s.synchronizer.compiler.compile manifest w).1 with
      | .error err => err
      | .ok _ => cause
    | _ => cause
  | .replace =>
    match s.reload with
    | .compiled _ snapshot current =>
      (s.synchronizer.engine.replaceSnapshot (some snapshot) current).1.getD cause
    | _ => cause
  | _ => cause

section Cases

variable {fresh fresh' : FreshState W} {action : FreshAction W}

theorem step_of_stepReload (hs : fresh.stepReload action = some fresh') :
    fresh.step action = some fresh' := by
  cases action with
  | pass | publish | decide | sample | evaluate => cases hs
  | _ => exact hs

theorem isReload_of_reloadStep (h : ReloadStep fresh action fresh') : isReload action = true := by
  cases h <;> rfl

/-- Time and decisions change nothing of the store and the synchronizer. -/
theorem fresh_cases (hs : fresh.step action = some fresh') (hown : isPublish action = false) :
    (∃ nanos : Nat, action = .pass nanos ∧ fresh' = { fresh with now := fresh.now + nanos }) ∨
    (isReload action = false ∧ ∃ deciders, fresh' = { fresh with deciders := deciders }) ∨
    ReloadStep fresh action fresh' := by
  have hdecide : ∀ action : FreshAction W, fresh.stepDecide action = some fresh' →
      ∃ deciders, fresh' = { fresh with deciders := deciders } :=
    fun _ => FreshState.stepDecide_frame
  cases action with
  | pass nanos =>
    cases hs
    exact Or.inl ⟨nanos, rfl, rfl⟩
  | publish manifest => cases hown
  | decide => exact Or.inr (Or.inl ⟨rfl, hdecide .decide hs⟩)
  | sample i => exact Or.inr (Or.inl ⟨rfl, hdecide (.sample i) hs⟩)
  | evaluate i => exact Or.inr (Or.inl ⟨rfl, hdecide (.evaluate i) hs⟩)
  | _ => exact Or.inr (Or.inr (reloadStep_of_stepReload hs))

end Cases

end Authorization.Policy
