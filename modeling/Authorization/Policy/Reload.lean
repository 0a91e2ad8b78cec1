import Authorization.Core.Replacement
import Authorization.Policy.Synchronizer

/-!
# Runs of a synchronizer

Any sequence of `Reload`, `Observe` and `Decide` on a synchronizer that is the only
writer of its engine.  Every call is made in a world of its own, so the repository,
the compiler's decoders, the contexts and the clock may answer anything each time.
The manifests the repository returned are kept as history.

`reload_safe` collects what holds in every reachable state: which calls change what,
where the active snapshot comes from, and that the revision only grows.
-/

namespace Authorization.Policy

open Authorization.Foundation Authorization.Core

variable {W : Type}

inductive SyncCall (W : Type)
  | reload (ctx : Context W)
  | observe (ctx : Context W) (hint : Revision)
  | decide (ctx : Context W) (request : Request)

structure SyncState (W : Type) where
  synchronizer : Synchronizer W
  /-- What the repository returned so far. -/
  loaded : List Manifest

namespace SyncState

/-- The state after a call in the given world. -/
def after (s : SyncState W) (w : W) : SyncCall W → SyncState W
  | .reload ctx =>
    ⟨(s.synchronizer.reload ctx w).synchronizer, s.loaded ++ s.synchronizer.loaded ctx w⟩
  | .observe ctx hint =>
    ⟨(s.synchronizer.observe ctx hint w).synchronizer,
      s.loaded ++ if hint ≤ s.synchronizer.revision then [] else s.synchronizer.loaded ctx w⟩
  | .decide _ _ => s

end SyncState

/-- Calls one after the other, each in any world. -/
def syncSystem (initial : Synchronizer W) : System (SyncState W) (SyncCall W × W) where
  init s := s = ⟨initial, []⟩
  step s action := some (s.after action.2 action.1)

/-- What one call does: it leaves the synchronizer as it is, or activates a manifest
that is now part of the history. -/
theorem SyncState.after_cases (s : SyncState W) (w : W) (call : SyncCall W) :
    s.loaded ⊆ (s.after w call).loaded ∧
    ((s.after w call).synchronizer = s.synchronizer ∨
      ∃ manifest ∈ (s.after w call).loaded, ∃ w' result,
        Synchronizer.Activated s.synchronizer manifest w' result ∧
        (s.after w call).synchronizer = result.synchronizer) := by
  have hreload : ∀ ctx, (s.synchronizer.reload ctx w).synchronizer = s.synchronizer ∨
      ∃ manifest ∈ s.synchronizer.loaded ctx w, ∃ w' result,
        Synchronizer.Activated s.synchronizer manifest w' result ∧
        (s.synchronizer.reload ctx w).synchronizer = result.synchronizer := by
    intro ctx
    rcases s.synchronizer.reload_cases ctx w with ⟨err, w', h⟩ | ⟨manifest, w', hload, h⟩
    · exact Or.inl (by rw [h])
    · refine Or.inr ⟨manifest, ?_, w', _, h, rfl⟩
      rw [Synchronizer.loaded, hload]
      exact List.mem_singleton_self manifest
  cases call with
  | reload ctx =>
    refine ⟨List.subset_append_left _ _, (hreload ctx).imp_right ?_⟩
    rintro ⟨manifest, hmem, h⟩
    exact ⟨manifest, List.mem_append_right _ hmem, h⟩
  | observe ctx hint =>
    refine ⟨List.subset_append_left _ _, ?_⟩
    rcases s.synchronizer.observe_cases ctx hint w with ⟨-, h⟩ | ⟨hlt, hsync, -⟩
    · exact Or.inl (by rw [after, h])
    · rw [after]
      dsimp only
      rw [hsync, if_neg (not_le.mpr hlt)]
      refine (hreload ctx).imp_right ?_
      rintro ⟨manifest, hmem, h⟩
      exact ⟨manifest, List.mem_append_right _ hmem, h⟩
  | decide ctx request => exact ⟨List.Subset.refl _, Or.inl rfl⟩

theorem SyncState.revision_le_after (s : SyncState W) (w : W) (call : SyncCall W) :
    s.synchronizer.revision ≤ (s.after w call).synchronizer.revision := by
  rcases (s.after_cases w call).2 with h | ⟨manifest, -, w', result, hactivated, h⟩
  · rw [h]
  · rw [h]
    exact hactivated.revision_le

/-- The active snapshot is the first one or was compiled from a manifest of the
history. -/
def SyncState.Sourced (initial : Synchronizer W) (s : SyncState W) : Prop :=
  s.synchronizer.compiler = initial.compiler ∧
  (s.synchronizer.engine.snapshot = initial.engine.snapshot ∨
    ∃ manifest ∈ s.loaded, manifest.validate = none ∧ ∃ w w',
      initial.compiler.compile manifest w = (.ok s.synchronizer.engine.snapshot, w'))

theorem SyncState.Sourced.after {initial : Synchronizer W} {s : SyncState W}
    (h : s.Sourced initial) (w : W) (call : SyncCall W) : (s.after w call).Sourced initial := by
  obtain ⟨hcompiler, hsource⟩ := h
  obtain ⟨hloaded, hcases⟩ := s.after_cases w call
  have hkept : s.synchronizer.engine.snapshot = initial.engine.snapshot ∨
      ∃ manifest ∈ (s.after w call).loaded, manifest.validate = none ∧ ∃ w w',
        initial.compiler.compile manifest w = (.ok s.synchronizer.engine.snapshot, w') := by
    refine hsource.imp_right ?_
    rintro ⟨manifest, hmem, hrest⟩
    exact ⟨manifest, hloaded hmem, hrest⟩
  rcases hcases with hsame | ⟨manifest, hmem, w', result, hactivated, hresult⟩
  · rw [Sourced, hsame]
    exact ⟨hcompiler, hkept⟩
  · rw [Sourced, hresult, hactivated.compiler_eq]
    refine ⟨hcompiler, ?_⟩
    rcases hactivated.source with hsnapshot | ⟨hvalid, w₁, w₂, hcompile⟩
    · rw [hsnapshot]
      exact hkept
    · rw [hcompiler] at hcompile
      exact Or.inr ⟨manifest, hmem, hvalid, w₁, w₂, hcompile⟩

/-- **Reload safety** in a state of a run. -/
structure ReloadSafe (initial : Synchronizer W) (s : SyncState W) : Prop where
  /-- A reload that fails leaves everything as it was. -/
  failed : ∀ ctx w, (s.synchronizer.reload ctx w).err ≠ none →
    (s.synchronizer.reload ctx w).changed = false ∧
    (s.synchronizer.reload ctx w).synchronizer = s.synchronizer
  /-- One that succeeds leaves the engine at the revision of the loaded manifest and
  the verification time at a reading of the clock. -/
  succeeded : ∀ ctx w, (s.synchronizer.reload ctx w).err = none →
    ∃ manifest w₁ w₂, s.synchronizer.load ctx w = (.ok manifest, w₁) ∧
      manifest.validate = none ∧ s.synchronizer.revision ≤ manifest.revision ∧
      (s.synchronizer.reload ctx w).synchronizer.revision = manifest.revision ∧
      s.synchronizer.clock w₂ = ((s.synchronizer.reload ctx w).synchronizer.verifiedAt,
        (s.synchronizer.reload ctx w).world)
  changed : ∀ ctx w, (s.synchronizer.reload ctx w).changed = true ↔
    (s.synchronizer.reload ctx w).synchronizer.engine.snapshot ≠ s.synchronizer.engine.snapshot
  source : s.synchronizer.engine.snapshot = initial.engine.snapshot ∨
    ∃ manifest ∈ s.loaded, manifest.validate = none ∧ ∃ w w',
      initial.compiler.compile manifest w = (.ok s.synchronizer.engine.snapshot, w')
  /-- An older manifest changes nothing, the verification time included. -/
  older : ∀ ctx w manifest w₁, s.synchronizer.load ctx w = (.ok manifest, w₁) →
    manifest.revision < s.synchronizer.revision →
    (s.synchronizer.reload ctx w).synchronizer = s.synchronizer
  /-- A hint does nothing or has the effect of a reload. -/
  observes : ∀ ctx hint w,
    ((s.synchronizer.observe ctx hint w).synchronizer = s.synchronizer ∧
      (s.synchronizer.observe ctx hint w).world = w) ∨
    ((s.synchronizer.observe ctx hint w).synchronizer
        = (s.synchronizer.reload ctx w).synchronizer ∧
      (s.synchronizer.observe ctx hint w).world = (s.synchronizer.reload ctx w).world)
  hint : ∀ ctx hint w, (s.synchronizer.observe ctx hint w).err = none →
    hint ≤ (s.synchronizer.observe ctx hint w).synchronizer.revision
  grows : ∀ calls s', (syncSystem initial).run s calls = some s' →
    s.synchronizer.revision ≤ s'.synchronizer.revision

/-- **Every state of every run of calls is safe**, whatever the repository, the
decoders, the hints and the clock answer. -/
theorem reload_safe (initial : Synchronizer W) {s : SyncState W}
    (h : (syncSystem initial).Reachable s) : ReloadSafe initial s := by
  have hsourced : s.Sourced initial := by
    refine System.Reachable.invariant ?_ ?_ h
    · rintro s rfl
      exact ⟨rfl, Or.inl rfl⟩
    · intro s action s' _ hs hstep
      cases hstep
      exact hs.after action.2 action.1
  refine ⟨?_, ?_, ?_, hsourced.2, ?_, ?_, ?_, ?_⟩
  · intro ctx w herr
    rcases s.synchronizer.reload_cases ctx w with ⟨err, w', hr⟩ | ⟨manifest, w', -, hr⟩
    · rw [hr]
      exact ⟨rfl, rfl⟩
    · exact hr.unchanged herr
  · intro ctx w herr
    rcases s.synchronizer.reload_cases ctx w with ⟨err, w', hr⟩ | ⟨manifest, w', hload, hr⟩
    · rw [hr] at herr
      cases herr
    · obtain ⟨hvalid, hle, hrevision⟩ := hr.revision_eq herr
      obtain ⟨w₂, hclock⟩ := hr.verifiedAt_eq herr
      exact ⟨manifest, w', w₂, hload, hvalid, hle, hrevision, hclock⟩
  · intro ctx w
    rcases s.synchronizer.reload_cases ctx w with ⟨err, w', hr⟩ | ⟨manifest, w', -, hr⟩
    · rw [hr]
      simp
    · exact hr.changed_iff
  · intro ctx w manifest w₁ hload holder
    rcases s.synchronizer.reload_cases ctx w with ⟨err, w', hr⟩ | ⟨manifest', w', hload', hr⟩
    · rw [hr]
    · rw [hload] at hload'
      cases hload'
      exact hr.unchanged_of_older holder
  · intro ctx hint w
    rcases s.synchronizer.observe_cases ctx hint w with ⟨-, ho⟩ | ⟨-, ho⟩
    · exact Or.inl (by rw [ho]; exact ⟨rfl, rfl⟩)
    · exact Or.inr ho
  · intro ctx hint w herr
    exact Synchronizer.hint_le_of_observe herr
  · intro calls s' hrun
    refine System.Reachable.run_rel (R := fun s s' => s.synchronizer.revision ≤ s'.synchronizer.revision)
      (fun _ => le_refl _) (fun _ _ _ => le_trans) ?_ h hrun
    intro s action s' _ hstep
    cases hstep
    exact s.revision_le_after action.2 action.1

/-- A synchronizer of an engine at revision 1 whose repository is at revision 2. -/
def laggingSynchronizer : Synchronizer Unit where
  repository := ⟨fun _ w => (.ok { smallManifest with revision := 2 }, w)⟩
  compiler := sizeCompiler 1048576 {}
  engine := bareEngine
  clock := fun w => (⟨7, 0⟩, w)

/-- A reload, and a hint ahead of the repository. -/
def laggingCalls : List (SyncCall Unit × Unit) :=
  [(.reload .background, ()), (.observe .background 5, ())]

theorem reload_safe_lagging : ∃ s, (syncSystem laggingSynchronizer).run
    ⟨laggingSynchronizer, []⟩ laggingCalls = some s ∧ s.synchronizer.revision = 2 ∧
    s.synchronizer.verifiedAt = ⟨7, 0⟩ ∧ ReloadSafe laggingSynchronizer s := by
  have hrun : (syncSystem laggingSynchronizer).run ⟨laggingSynchronizer, []⟩ laggingCalls
      = some (((⟨laggingSynchronizer, []⟩ : SyncState Unit).after () (.reload .background)).after ()
        (.observe .background 5)) := rfl
  exact ⟨_, hrun, by decide +kernel, by decide +kernel,
    reload_safe laggingSynchronizer (System.Reachable.run (.init rfl) hrun)⟩

end Authorization.Policy
