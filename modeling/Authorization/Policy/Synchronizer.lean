import Authorization.Core.Service
import Authorization.Policy.Compiler

/-!
# The synchronizer

`policy/synchronizer.go`.  A synchronizer keeps an engine at the revision its
repository stores and remembers when it last verified that.  `decide` admits a
request only while that verification is fresh.

`Reload` holds a mutex from its first statement to its last, so it is a function
here.  It is cut where the manifest has come back: `load` asks the context and the
repository, `activate` does the rest.  Which of its exits changed what is said once,
in `activated_activate`.
-/

namespace Authorization.Policy

open Authorization.Foundation Authorization.Core

variable {W : Type}

/-- The part of `Repository` a synchronizer uses. -/
structure Repository (W : Type) where
  load : Context W → W → Except GoError Manifest × W

def defaultSyncInterval : Duration := 30000000000
def defaultMaxStaleness : Duration := 120000000000

structure Synchronizer (W : Type) where
  repository : Repository W
  compiler : Compiler W
  engine : Engine W
  interval : Duration := defaultSyncInterval
  maxStaleness : Duration := defaultMaxStaleness
  clock : W → Time × W
  /-- The zero time while nothing was verified. -/
  verifiedAt : Time := .zero

inductive SynchronizerOption (W : Type)
  | withSyncInterval (interval : Duration)
  | withMaxStaleness (maxStaleness : Duration)
  /-- `none` is a nil clock, which is ignored. -/
  | withSynchronizerClock (clock : Option (W → Time × W))

namespace Synchronizer

def apply (synchronizer : Synchronizer W) : SynchronizerOption W → Synchronizer W
  | .withSyncInterval interval => { synchronizer with interval := interval }
  | .withMaxStaleness maxStaleness => { synchronizer with maxStaleness := maxStaleness }
  | .withSynchronizerClock none => synchronizer
  | .withSynchronizerClock (some clock) => { synchronizer with clock := clock }

/-- `LastVerified`. -/
def lastVerified (synchronizer : Synchronizer W) : Time × Bool :=
  (synchronizer.verifiedAt, !synchronizer.verifiedAt.isZero)

/-- The freshness check of `Decide` at the sampled time. -/
def fresh (synchronizer : Synchronizer W) (now : Time) : Bool :=
  let (verifiedAt, verified) := synchronizer.lastVerified
  !(!verified || now.before verifiedAt || decide (now.sub verifiedAt > synchronizer.maxStaleness))

/-- `Synchronizer.Decide`. -/
def decide (synchronizer : Synchronizer W) (ctx : Context W) (request : Request) (w : W) :
    DecideResult W :=
  let (now, w) := synchronizer.clock w
  if !synchronizer.fresh now then
    ⟨{ outcome := .deny, reason := reasonPolicyStale,
        revision := synchronizer.engine.snapshot.revision },
      some (.sentinel .policyErrPolicyStale), [], w⟩
  else synchronizer.engine.decide ctx request w

/-- **What a fresh verification is**: it was made, not in the future, and not
longer ago than the bound. -/
theorem fresh_iff {synchronizer : Synchronizer W} {now : Time} :
    synchronizer.fresh now = true ↔ synchronizer.verifiedAt.isZero = false ∧
      now.before synchronizer.verifiedAt = false ∧
      now.sub synchronizer.verifiedAt ≤ synchronizer.maxStaleness := by
  simp only [fresh, lastVerified, Bool.not_eq_true', Bool.or_eq_false_iff, Bool.not_not,
    decide_eq_false_iff_not, gt_iff_lt, not_lt, and_assoc]

/-! ### Reloading -/

/-- The revision the engine is at. -/
def revision (synchronizer : Synchronizer W) : Revision := synchronizer.engine.snapshot.revision

/-- What `Reload` returns, with the synchronizer and the world afterwards. -/
structure ReloadResult (W : Type) where
  changed : Bool
  err : Option GoError
  synchronizer : Synchronizer W
  world : W

/-- `markVerified`. -/
def markVerified (synchronizer : Synchronizer W) (w : W) : Synchronizer W × W :=
  let (now, w) := synchronizer.clock w
  ({ synchronizer with verifiedAt := now }, w)

/-- `Reload` up to the return of the repository. -/
def load (synchronizer : Synchronizer W) (ctx : Context W) (w : W) :
    Except GoError Manifest × W :=
  match ctx.err w with
  | (some err, w) => (.error err, w)
  | (none, w) => synchronizer.repository.load ctx w

/-- `Reload` from the loaded manifest on. -/
def activate (synchronizer : Synchronizer W) (manifest : Manifest) (w : W) : ReloadResult W :=
  match manifest.validate with
  | some validationErr => ⟨false, some validationErr, synchronizer, w⟩
  | none =>
    let current := synchronizer.revision
    if manifest.revision < current then
      ⟨false, some (.sentinel .policyErrStaleManifest), synchronizer, w⟩
    else if manifest.revision = current then
      let (synchronizer, w) := synchronizer.markVerified w
      ⟨false, none, synchronizer, w⟩
    else
      match synchronizer.compiler.compile manifest w with
      | (.error err, w) => ⟨false, some err, synchronizer, w⟩
      | (.ok snapshot, w) =>
        match synchronizer.engine.replaceSnapshot (some snapshot) current with
        | (some err, _) => ⟨false, some err, synchronizer, w⟩
        | (none, engine) =>
          let (synchronizer, w) := { synchronizer with engine := engine }.markVerified w
          ⟨true, none, synchronizer, w⟩

/-- `Synchronizer.Reload`. -/
def reload (synchronizer : Synchronizer W) (ctx : Context W) (w : W) : ReloadResult W :=
  match synchronizer.load ctx w with
  | (.error err, w) => ⟨false, some err, synchronizer, w⟩
  | (.ok manifest, w) => synchronizer.activate manifest w

/-- What `Observe` returns, with the synchronizer and the world afterwards. -/
structure ObserveResult (W : Type) where
  err : Option GoError
  synchronizer : Synchronizer W
  world : W

/-- `Synchronizer.Observe`. -/
def observe (synchronizer : Synchronizer W) (ctx : Context W) (revision : Revision) (w : W) :
    ObserveResult W :=
  if revision ≤ synchronizer.revision then ⟨none, synchronizer, w⟩
  else
    let result := synchronizer.reload ctx w
    match result.err with
    | some err => ⟨some err, result.synchronizer, result.world⟩
    | none =>
      if result.synchronizer.revision < revision then
        ⟨some (.sentinel .policyErrStaleManifest), result.synchronizer, result.world⟩
      else ⟨none, result.synchronizer, result.world⟩

/-! ### What a reload can do -/

/-- **The exits of `Reload` after the manifest came back.** -/
inductive Activated (synchronizer : Synchronizer W) (manifest : Manifest) (w : W) :
    ReloadResult W → Prop
  | failed (err : GoError) (w' : W) :
      Activated synchronizer manifest w ⟨false, some err, synchronizer, w'⟩
  | verified (hvalid : manifest.validate = none)
      (hrevision : manifest.revision = synchronizer.revision) :
      Activated synchronizer manifest w
        ⟨false, none, { synchronizer with verifiedAt := (synchronizer.clock w).1 },
          (synchronizer.clock w).2⟩
  | replaced (snapshot : Snapshot W) (w' : W) (hvalid : manifest.validate = none)
      (hrevision : synchronizer.revision < manifest.revision)
      (hcompile : synchronizer.compiler.compile manifest w = (.ok snapshot, w')) :
      Activated synchronizer manifest w
        ⟨true, none, { synchronizer with
          engine := { synchronizer.engine with snapshot := snapshot }
          verifiedAt := (synchronizer.clock w').1 }, (synchronizer.clock w').2⟩

theorem activated_activate (synchronizer : Synchronizer W) (manifest : Manifest) (w : W) :
    Activated synchronizer manifest w (synchronizer.activate manifest w) := by
  unfold activate
  cases hvalid : manifest.validate with
  | some err => exact .failed err w
  | none =>
    dsimp only
    split
    · exact .failed _ w
    · rename_i hlt
      split
      · rename_i heq
        exact .verified hvalid heq
      · rename_i hne
        have hnewer : synchronizer.revision < manifest.revision :=
          lt_of_le_of_ne (not_lt.mp hlt) (Ne.symm hne)
        rcases hcompile : synchronizer.compiler.compile manifest w with ⟨err | snapshot, w'⟩
        · exact .failed err w'
        · dsimp only
          rcases hreplace : synchronizer.engine.replaceSnapshot (some snapshot)
            synchronizer.revision with ⟨_ | err, engine⟩
          · obtain ⟨-, -, rfl⟩ := Engine.replaceSnapshot_eq_none hreplace
            exact .replaced snapshot w' hvalid hnewer hcompile
          · exact .failed err w'

/-- The manifests a reload in this world gets from the repository. -/
def loaded (synchronizer : Synchronizer W) (ctx : Context W) (w : W) : List Manifest :=
  match (synchronizer.load ctx w).1 with
  | .ok manifest => [manifest]
  | .error _ => []

/-- A reload fails before it has a manifest, or activates the one it loaded. -/
theorem reload_cases (synchronizer : Synchronizer W) (ctx : Context W) (w : W) :
    (∃ err w', synchronizer.reload ctx w = ⟨false, some err, synchronizer, w'⟩) ∨
    ∃ manifest w', synchronizer.load ctx w = (.ok manifest, w') ∧
      Activated synchronizer manifest w' (synchronizer.reload ctx w) := by
  unfold reload
  rcases synchronizer.load ctx w with ⟨err | manifest, w'⟩
  · exact Or.inl ⟨err, w', rfl⟩
  · exact Or.inr ⟨manifest, w', rfl, activated_activate synchronizer manifest w'⟩

namespace Activated

variable {synchronizer : Synchronizer W} {manifest : Manifest} {w : W} {result : ReloadResult W}

theorem unchanged (h : Activated synchronizer manifest w result) (herr : result.err ≠ none) :
    result.changed = false ∧ result.synchronizer = synchronizer := by
  cases h with
  | failed err w' => exact ⟨rfl, rfl⟩
  | verified => exact absurd rfl herr
  | replaced => exact absurd rfl herr

theorem unchanged_of_older (h : Activated synchronizer manifest w result)
    (holder : manifest.revision < synchronizer.revision) : result.synchronizer = synchronizer := by
  cases h with
  | failed err w' => rfl
  | verified _ hrevision => rw [hrevision] at holder; exact absurd holder (lt_irrefl _)
  | replaced _ _ _ hrevision => exact absurd hrevision (lt_asymm holder)

theorem revision_eq (h : Activated synchronizer manifest w result) (herr : result.err = none) :
    manifest.validate = none ∧ synchronizer.revision ≤ manifest.revision ∧
      result.synchronizer.revision = manifest.revision := by
  cases h with
  | failed err w' => cases herr
  | verified hvalid hrevision => exact ⟨hvalid, hrevision.ge, hrevision.symm⟩
  | replaced snapshot w' hvalid hrevision hcompile =>
    exact ⟨hvalid, hrevision.le, compile_revision (by rw [hcompile])⟩

theorem verifiedAt_eq (h : Activated synchronizer manifest w result) (herr : result.err = none) :
    ∃ w', synchronizer.clock w' = (result.synchronizer.verifiedAt, result.world) := by
  cases h with
  | failed err w' => cases herr
  | verified => exact ⟨w, rfl⟩
  | replaced snapshot w' => exact ⟨w', rfl⟩

theorem revision_le (h : Activated synchronizer manifest w result) :
    synchronizer.revision ≤ result.synchronizer.revision := by
  cases hr : result.err with
  | some err => rw [(h.unchanged (by rw [hr]; nofun)).2]
  | none =>
    obtain ⟨-, hle, heq⟩ := h.revision_eq hr
    rw [heq]
    exact hle

theorem changed_iff (h : Activated synchronizer manifest w result) :
    result.changed = true ↔
      result.synchronizer.engine.snapshot ≠ synchronizer.engine.snapshot := by
  cases h with
  | failed err w' => simp
  | verified => simp
  | replaced snapshot w' hvalid hrevision hcompile =>
    refine ⟨fun _ hsame => ?_, fun _ => rfl⟩
    have hnew : snapshot.revision = manifest.revision := compile_revision (by rw [hcompile])
    have hold : snapshot = synchronizer.engine.snapshot := hsame
    rw [hold] at hnew
    exact absurd hnew hrevision.ne

/-- The snapshot afterwards is the one before or was compiled from the manifest. -/
theorem source (h : Activated synchronizer manifest w result) :
    result.synchronizer.engine.snapshot = synchronizer.engine.snapshot ∨
      manifest.validate = none ∧ ∃ w w', synchronizer.compiler.compile manifest w
        = (.ok result.synchronizer.engine.snapshot, w') := by
  cases h with
  | failed err w' => exact Or.inl rfl
  | verified => exact Or.inl rfl
  | replaced snapshot w' hvalid hrevision hcompile => exact Or.inr ⟨hvalid, w, w', hcompile⟩

theorem compiler_eq (h : Activated synchronizer manifest w result) :
    result.synchronizer.compiler = synchronizer.compiler := by
  cases h <;> rfl

end Activated

/-- `Observe` does nothing or one reload. -/
theorem observe_cases (synchronizer : Synchronizer W) (ctx : Context W) (hint : Revision) (w : W) :
    (hint ≤ synchronizer.revision ∧
      synchronizer.observe ctx hint w = ⟨none, synchronizer, w⟩) ∨
    (synchronizer.revision < hint ∧
      (synchronizer.observe ctx hint w).synchronizer = (synchronizer.reload ctx w).synchronizer ∧
      (synchronizer.observe ctx hint w).world = (synchronizer.reload ctx w).world) := by
  unfold observe
  by_cases hle : hint ≤ synchronizer.revision
  · exact Or.inl ⟨hle, by rw [if_pos hle]⟩
  · refine Or.inr ⟨not_le.mp hle, ?_⟩
    rw [if_neg hle]
    dsimp only
    split
    · exact ⟨rfl, rfl⟩
    · split
      · exact ⟨rfl, rfl⟩
      · exact ⟨rfl, rfl⟩

theorem hint_le_of_observe {synchronizer : Synchronizer W} {ctx : Context W} {hint : Revision}
    {w : W} (h : (synchronizer.observe ctx hint w).err = none) :
    hint ≤ (synchronizer.observe ctx hint w).synchronizer.revision := by
  unfold observe at h ⊢
  by_cases hle : hint ≤ synchronizer.revision
  · rw [if_pos hle]
    exact hle
  · rw [if_neg hle] at h ⊢
    dsimp only at h ⊢
    split at h
    · cases h
    · split at h
      · cases h
      · rename_i herr hnot
        rw [if_neg hnot]
        exact not_lt.mp hnot

end Synchronizer

end Authorization.Policy
