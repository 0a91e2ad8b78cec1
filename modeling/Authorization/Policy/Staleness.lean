import Authorization.Core.Replacement
import Authorization.Policy.Reload

/-!
# Bounded staleness

One synchronizer, one repository and a clock, with time passing between any two
statements.  A reload reads the stored manifest, gets it back, checks it, compiles
it, replaces the snapshot and marks the verification; the mutex of `Reload` admits
one reload at a time.  `Decide` reads the verification time, samples the clock,
checks freshness and loads the snapshot, and any number of calls interleave.

The verification time is the time of marking, not the time of reading, so a
decision can miss what was published in between.  `bounded_staleness` bounds the age
by the allowance plus the longest reload.
-/

namespace Authorization.Policy

open Authorization.Foundation Authorization.Core

variable {W : Type}

/-- Where the reload that holds the mutex stands; `readAt` is when it read the
repository. -/
inductive ReloadPhase (W : Type)
  | idle
  | reading (readAt : Int) (manifest : Manifest)
  | loaded (readAt : Int) (manifest : Manifest)
  | checked (readAt : Int) (manifest : Manifest) (current : Revision)
  | compiled (readAt : Int) (snapshot : Snapshot W) (current : Revision)
  | marking (readAt : Int)

inductive DecidePhase (W : Type)
  | entered (verifiedAt : Time)
  | sampled (verifiedAt now : Time)
  | stale
  | evaluating (verifiedAt now : Time) (snapshot : Snapshot W)

structure FreshState (W : Type) where
  now : Int
  /-- What was published, with its time, latest first. -/
  log : List (Int × Manifest)
  synchronizer : Synchronizer W
  reload : ReloadPhase W
  deciders : List (DecidePhase W)
  /-- When each completed reload read and marked. -/
  verifications : List (Int × Int)

inductive FreshAction (W : Type)
  | pass (nanos : Nat)
  | publish (manifest : Manifest)
  | read
  /-- The repository or the context failed. -/
  | fail
  | returned
  | check
  | compile (w : W)
  | replace
  | mark
  | decide
  | sample (i : Nat)
  | evaluate (i : Nat)

namespace FreshState

/-- The revision stored now, zero for none. -/
def stored (s : FreshState W) : Revision := s.log.head?.elim 0 fun entry => entry.2.revision

/-- The engine check of `Reload`. -/
def check (s : FreshState W) (readAt : Int) (manifest : Manifest) : ReloadPhase W :=
  if manifest.validate ≠ none then .idle
  else if manifest.revision < s.synchronizer.revision then .idle
  else if manifest.revision = s.synchronizer.revision then .marking readAt
  else .checked readAt manifest s.synchronizer.revision

def stepReload (s : FreshState W) : FreshAction W → Option (FreshState W)
  | .read =>
    match s.reload, s.log with
    | .idle, entry :: _ => some { s with reload := .reading s.now entry.2 }
    | _, _ => none
  | .fail =>
    match s.reload with
    | .reading _ _ => some { s with reload := .idle }
    | _ => none
  | .returned =>
    match s.reload with
    | .reading readAt manifest => some { s with reload := .loaded readAt manifest }
    | _ => none
  | .check =>
    match s.reload with
    | .loaded readAt manifest => some { s with reload := s.check readAt manifest }
    | _ => none
  | .compile w =>
    match s.reload with
    | .checked readAt manifest current =>
      match (s.synchronizer.compiler.compile manifest w).1 with
      | .error _ => some { s with reload := .idle }
      | .ok snapshot => some { s with reload := .compiled readAt snapshot current }
    | _ => none
  | .replace =>
    match s.reload with
    | .compiled readAt snapshot current =>
      match s.synchronizer.engine.replaceSnapshot (some snapshot) current with
      | (some _, _) => some { s with reload := .idle }
      | (none, engine) => some { s with
          synchronizer := { s.synchronizer with engine := engine }, reload := .marking readAt }
    | _ => none
  | .mark =>
    match s.reload with
    | .marking readAt => some { s with
        synchronizer := { s.synchronizer with verifiedAt := ⟨s.now, 0⟩ }
        reload := .idle
        verifications := (readAt, s.now) :: s.verifications }
    | _ => none
  | _ => none

def stepDecide (s : FreshState W) : FreshAction W → Option (FreshState W)
  | .decide => some { s with deciders := s.deciders ++ [.entered s.synchronizer.verifiedAt] }
  | .sample i =>
    match s.deciders[i]? with
    | some (.entered verifiedAt) =>
      some { s with deciders := s.deciders.set i (.sampled verifiedAt ⟨s.now, 0⟩) }
    | _ => none
  | .evaluate i =>
    match s.deciders[i]? with
    | some (.sampled verifiedAt now) =>
      if { s.synchronizer with verifiedAt := verifiedAt }.fresh now then
        some { s with deciders :=
          s.deciders.set i (.evaluating verifiedAt now s.synchronizer.engine.snapshot) }
      else some { s with deciders := s.deciders.set i .stale }
    | _ => none
  | _ => none

def step (s : FreshState W) : FreshAction W → Option (FreshState W)
  | .pass nanos => some { s with now := s.now + nanos }
  | .publish manifest =>
    if s.stored < manifest.revision then some { s with log := (s.now, manifest) :: s.log } else none
  | .decide => s.stepDecide .decide
  | .sample i => s.stepDecide (.sample i)
  | .evaluate i => s.stepDecide (.evaluate i)
  | action => s.stepReload action

end FreshState

/-- A new synchronizer and a repository without a manifest, at any time. -/
def freshSystem (initial : Synchronizer W) : System (FreshState W) (FreshAction W) where
  init s := initial.verifiedAt.isZero = true ∧ ∃ now, s = ⟨now, [], initial, .idle, [], []⟩
  step s action := s.step action

/-! ### Without interruption -/

section Uninterrupted

variable {s : FreshState W} {readAt : Int} {manifest : Manifest} {current : Revision}
  {snapshot : Snapshot W}

theorem FreshState.step_check (h : s.reload = .loaded readAt manifest) :
    s.step .check = some { s with reload := s.check readAt manifest } := by
  dsimp only [FreshState.step, FreshState.stepReload]
  rw [h]

theorem FreshState.step_compile (h : s.reload = .checked readAt manifest current) (w : W) :
    s.step (.compile w) = some { s with reload :=
      match (s.synchronizer.compiler.compile manifest w).1 with
      | .error _ => .idle
      | .ok snapshot => .compiled readAt snapshot current } := by
  dsimp only [FreshState.step, FreshState.stepReload]
  rw [h]
  dsimp only
  cases (s.synchronizer.compiler.compile manifest w).1 <;> rfl

theorem FreshState.step_replace {engine : Engine W}
    (h : s.reload = .compiled readAt snapshot current)
    (hreplace : s.synchronizer.engine.replaceSnapshot (some snapshot) current = (none, engine)) :
    s.step .replace = some { s with
      synchronizer := { s.synchronizer with engine := engine }, reload := .marking readAt } := by
  dsimp only [FreshState.step, FreshState.stepReload]
  rw [h]
  dsimp only
  rw [hreplace]

theorem FreshState.step_replace_fails {err : GoError} {engine : Engine W}
    (h : s.reload = .compiled readAt snapshot current)
    (hreplace : s.synchronizer.engine.replaceSnapshot (some snapshot) current
      = (some err, engine)) :
    s.step .replace = some { s with reload := .idle } := by
  dsimp only [FreshState.step, FreshState.stepReload]
  rw [h]
  dsimp only
  rw [hreplace]

theorem FreshState.step_mark (h : s.reload = .marking readAt) :
    s.step .mark = some { s with
      synchronizer := { s.synchronizer with verifiedAt := ⟨s.now, 0⟩ }
      reload := .idle
      verifications := (readAt, s.now) :: s.verifications } := by
  dsimp only [FreshState.step, FreshState.stepReload]
  rw [h]

/-- **The steps are those of `Reload`**: taken one after the other at one time, they
leave the synchronizer as `activate` does. -/
theorem FreshState.run_activate (initial : Synchronizer W)
    (hphase : s.reload = .loaded readAt manifest)
    (hclock : ∀ w, (s.synchronizer.clock w).1 = ⟨s.now, 0⟩) (w : W) :
    ∃ actions s', (freshSystem initial).run s actions = some s' ∧ s'.reload = .idle ∧
      s'.synchronizer = (s.synchronizer.activate manifest w).synchronizer := by
  have hcheck := FreshState.step_check hphase
  unfold Synchronizer.activate
  cases hvalid : manifest.validate with
  | some err =>
    have hidle : s.check readAt manifest = .idle := by
      rw [FreshState.check, if_pos (by rw [hvalid]; nofun)]
    exact ⟨[.check], _, System.run_of_step hcheck rfl, hidle, rfl⟩
  | none =>
    have hchecked : s.check readAt manifest = if manifest.revision < s.synchronizer.revision
        then .idle else if manifest.revision = s.synchronizer.revision then .marking readAt
        else .checked readAt manifest s.synchronizer.revision := by
      rw [FreshState.check, if_neg (by rw [hvalid]; exact not_not.mpr rfl)]
    dsimp only
    by_cases hlt : manifest.revision < s.synchronizer.revision
    · rw [if_pos hlt] at hchecked ⊢
      exact ⟨[.check], _, System.run_of_step hcheck rfl, hchecked, rfl⟩
    · rw [if_neg hlt] at hchecked ⊢
      by_cases heq : manifest.revision = s.synchronizer.revision
      · rw [if_pos heq] at hchecked ⊢
        refine ⟨[.check, .mark], _, System.run_of_step hcheck
          (System.run_of_step (FreshState.step_mark hchecked) rfl), rfl, ?_⟩
        rw [← hclock w]
        rfl
      · rw [if_neg heq] at hchecked ⊢
        have hcompiled := FreshState.step_compile
          (s := { s with reload := s.check readAt manifest }) hchecked w
        rcases hcompile : s.synchronizer.compiler.compile manifest w with ⟨err | snapshot, w'⟩
        · rw [hcompile] at hcompiled
          exact ⟨[.check, .compile w], _, System.run_of_step hcheck
            (System.run_of_step hcompiled rfl), rfl, rfl⟩
        · rw [hcompile] at hcompiled
          dsimp only
          rcases hreplace : s.synchronizer.engine.replaceSnapshot (some snapshot)
            s.synchronizer.revision with ⟨_ | err, engine⟩
          · have hreplaced := FreshState.step_replace
              (s := { s with reload := .compiled readAt snapshot s.synchronizer.revision })
              rfl hreplace
            have hmarked := FreshState.step_mark (s := { s with
              synchronizer := { s.synchronizer with engine := engine }
              reload := .marking readAt }) rfl
            refine ⟨[.check, .compile w, .replace, .mark], _, System.run_of_step hcheck
              (System.run_of_step hcompiled (System.run_of_step hreplaced
                (System.run_of_step hmarked rfl))), rfl, ?_⟩
            rw [← hclock w']
            rfl
          · have hfailed := FreshState.step_replace_fails
              (s := { s with reload := .compiled readAt snapshot s.synchronizer.revision })
              rfl hreplace
            exact ⟨[.check, .compile w, .replace], _, System.run_of_step hcheck
              (System.run_of_step hcompiled (System.run_of_step hfailed rfl)), rfl, rfl⟩

end Uninterrupted

/-! ### The invariant -/

/-- Everything published before `t` is at most at revision `r`. -/
def Covers (log : List (Int × Manifest)) (t : Int) (r : Revision) : Prop :=
  ∀ entry ∈ log, entry.1 < t → entry.2.revision ≤ r

theorem Covers.mono {log : List (Int × Manifest)} {t : Int} {r r' : Revision}
    (h : Covers log t r) (hr : r ≤ r') : Covers log t r' :=
  fun entry he ht => le_trans (h entry he ht) hr

/-- What is published later is not before `t`. -/
theorem Covers.publish {log : List (Int × Manifest)} {t now : Int} {r : Revision}
    (h : Covers log t r) (ht : t ≤ now) (manifest : Manifest) :
    Covers ((now, manifest) :: log) t r := by
  intro entry he hlt
  rcases List.mem_cons.mp he with rfl | he
  · exact absurd hlt (not_lt.mpr ht)
  · exact h entry he hlt

/-- The verification time a decision read was never set or is that of a completed
reload. -/
def VerifiedBy (verifications : List (Int × Int)) (verifiedAt : Time) : Prop :=
  verifiedAt.isZero = true ∨ ∃ v ∈ verifications, verifiedAt.nanos = v.2

def ReloadPhase.Ok (s : FreshState W) : ReloadPhase W → Prop
  | .idle => True
  | .reading readAt manifest | .loaded readAt manifest | .checked readAt manifest _ =>
    readAt ≤ s.now ∧ Covers s.log readAt manifest.revision
  | .compiled readAt snapshot _ => readAt ≤ s.now ∧ Covers s.log readAt snapshot.revision
  | .marking readAt => readAt ≤ s.now ∧ Covers s.log readAt s.synchronizer.revision

def DecidePhase.Ok (s : FreshState W) : DecidePhase W → Prop
  | .entered verifiedAt | .sampled verifiedAt _ => VerifiedBy s.verifications verifiedAt
  | .stale => True
  | .evaluating verifiedAt now snapshot =>
    now.sub verifiedAt ≤ s.synchronizer.maxStaleness ∧
    ∃ v ∈ s.verifications, verifiedAt.nanos = v.2 ∧ Covers s.log v.1 snapshot.revision

structure FreshInv (initial : Synchronizer W) (s : FreshState W) : Prop where
  stored : ∀ entry ∈ s.log, entry.2.revision ≤ s.stored
  reload : s.reload.Ok s
  verified : ∀ v ∈ s.verifications, v.1 ≤ s.now ∧ Covers s.log v.1 s.synchronizer.revision
  current : VerifiedBy s.verifications s.synchronizer.verifiedAt
  deciders : ∀ d ∈ s.deciders, d.Ok s
  maxStaleness : s.synchronizer.maxStaleness = initial.maxStaleness

namespace FreshInv

variable {initial : Synchronizer W} {s s' : FreshState W}

theorem pass (h : FreshInv initial s) (nanos : Nat) :
    FreshInv initial { s with now := s.now + nanos } := by
  have hle : ∀ {t : Int}, t ≤ s.now → t ≤ s.now + nanos := by
    intro t ht
    omega
  refine ⟨h.stored, ?_, fun v hv => ⟨hle (h.verified v hv).1, (h.verified v hv).2⟩, h.current,
    h.deciders, h.maxStaleness⟩
  have hreload := h.reload
  show s.reload.Ok _
  cases hphase : s.reload with
  | idle => trivial
  | _ =>
    rw [hphase] at hreload
    exact ⟨hle hreload.1, hreload.2⟩

theorem publish (h : FreshInv initial s) {manifest : Manifest}
    (hnew : s.stored < manifest.revision) :
    FreshInv initial { s with log := (s.now, manifest) :: s.log } := by
  refine ⟨?_, ?_, ?_, h.current, ?_, h.maxStaleness⟩
  · intro entry he
    rcases List.mem_cons.mp he with rfl | he
    · exact le_refl _
    · exact le_trans (h.stored entry he) hnew.le
  · have hreload := h.reload
    show s.reload.Ok _
    cases hphase : s.reload with
    | idle => trivial
    | _ =>
      rw [hphase] at hreload
      exact ⟨hreload.1, hreload.2.publish hreload.1 manifest⟩
  · intro v hv
    obtain ⟨hle, hcovers⟩ := h.verified v hv
    exact ⟨hle, hcovers.publish hle manifest⟩
  · intro d hd
    have hok := h.deciders d hd
    cases d with
    | evaluating verifiedAt now snapshot =>
      obtain ⟨hage, v, hv, heq, hcovers⟩ := hok
      exact ⟨hage, v, hv, heq, hcovers.publish (h.verified v hv).1 manifest⟩
    | _ => exact hok

/-- A step of the reload that changes nothing but where it stands. -/
theorem moveReload (h : FreshInv initial s) {phase : ReloadPhase W} (hok : phase.Ok s) :
    FreshInv initial { s with reload := phase } := by
  refine ⟨h.stored, ?_, h.verified, h.current, ?_, h.maxStaleness⟩
  · cases phase with
    | idle => trivial
    | _ => exact hok
  · intro d hd
    have hdecider := h.deciders d hd
    cases d with
    | evaluating verifiedAt now snapshot => exact hdecider
    | _ => exact hdecider

theorem moveDecider (h : FreshInv initial s) {deciders : List (DecidePhase W)}
    (hok : ∀ d ∈ deciders, d.Ok s) : FreshInv initial { s with deciders := deciders } := by
  refine ⟨h.stored, ?_, h.verified, h.current, ?_, h.maxStaleness⟩
  · have hreload := h.reload
    show s.reload.Ok _
    cases hphase : s.reload with
    | idle => trivial
    | _ =>
      rw [hphase] at hreload
      exact hreload
  · intro d hd
    have hdecider := hok d hd
    cases d with
    | evaluating verifiedAt now snapshot => exact hdecider
    | _ => exact hdecider

/-- The engine moves to a snapshot that covers what the reload has read. -/
theorem replace (h : FreshInv initial s) {readAt : Int} {engine : Engine W}
    (hgrows : s.synchronizer.revision ≤ engine.snapshot.revision) (hread : readAt ≤ s.now)
    (hcovers : Covers s.log readAt engine.snapshot.revision) :
    FreshInv initial { s with
      synchronizer := { s.synchronizer with engine := engine }, reload := .marking readAt } := by
  refine ⟨h.stored, ⟨hread, hcovers⟩, ?_, h.current, ?_, h.maxStaleness⟩
  · intro v hv
    obtain ⟨hle, hold⟩ := h.verified v hv
    exact ⟨hle, hold.mono hgrows⟩
  · intro d hd
    have hdecider := h.deciders d hd
    cases d with
    | evaluating verifiedAt now snapshot => exact hdecider
    | _ => exact hdecider

theorem mark (h : FreshInv initial s) {readAt : Int} (hread : readAt ≤ s.now)
    (hcovers : Covers s.log readAt s.synchronizer.revision) :
    FreshInv initial { s with
      synchronizer := { s.synchronizer with verifiedAt := ⟨s.now, 0⟩ }
      reload := .idle
      verifications := (readAt, s.now) :: s.verifications } := by
  refine ⟨h.stored, trivial, ?_, Or.inr ⟨_, List.mem_cons_self, rfl⟩, ?_, h.maxStaleness⟩
  · intro v hv
    rcases List.mem_cons.mp hv with rfl | hv
    · exact ⟨hread, hcovers⟩
    · exact h.verified v hv
  · have hgrow : ∀ {t : Time}, VerifiedBy s.verifications t →
        VerifiedBy ((readAt, s.now) :: s.verifications) t := by
      rintro t (hzero | ⟨v, hv, heq⟩)
      · exact Or.inl hzero
      · exact Or.inr ⟨v, List.mem_cons_of_mem _ hv, heq⟩
    intro d hd
    have hdecider := h.deciders d hd
    cases d with
    | entered verifiedAt => exact hgrow hdecider
    | sampled verifiedAt now => exact hgrow hdecider
    | stale => trivial
    | evaluating verifiedAt now snapshot =>
      obtain ⟨hage, v, hv, hrest⟩ := hdecider
      exact ⟨hage, v, List.mem_cons_of_mem _ hv, hrest⟩

theorem check {readAt : Int} {manifest : Manifest}
    (hok : readAt ≤ s.now ∧ Covers s.log readAt manifest.revision) :
    (s.check readAt manifest).Ok s := by
  unfold FreshState.check
  split
  · trivial
  · split
    · trivial
    · split
      · rename_i heq
        refine ⟨hok.1, ?_⟩
        rw [← heq]
        exact hok.2
      · exact hok

theorem stepReload (h : FreshInv initial s) (action : FreshAction W)
    (hs : s.stepReload action = some s') : FreshInv initial s' := by
  have hreload := h.reload
  cases action with
  | read =>
    dsimp only [FreshState.stepReload] at hs
    split at hs
    · rename_i entry rest _ hlog
      cases hs
      refine h.moveReload ⟨le_refl _, fun other ho _ => ?_⟩
      have hstored := h.stored other ho
      rw [FreshState.stored, hlog] at hstored
      exact hstored
    · cases hs
  | fail =>
    dsimp only [FreshState.stepReload] at hs
    split at hs
    · cases hs
      exact h.moveReload trivial
    · cases hs
  | returned =>
    dsimp only [FreshState.stepReload] at hs
    split at hs
    · rename_i readAt manifest hphase
      cases hs
      rw [hphase] at hreload
      exact h.moveReload hreload
    · cases hs
  | check =>
    dsimp only [FreshState.stepReload] at hs
    split at hs
    · rename_i readAt manifest hphase
      cases hs
      rw [hphase] at hreload
      exact h.moveReload (check hreload)
    · cases hs
  | compile w =>
    dsimp only [FreshState.stepReload] at hs
    split at hs
    · rename_i readAt manifest current hphase
      rw [hphase] at hreload
      split at hs
      · cases hs
        exact h.moveReload trivial
      · rename_i snapshot hcompile
        cases hs
        refine h.moveReload ⟨hreload.1, ?_⟩
        rw [compile_revision hcompile]
        exact hreload.2
    · cases hs
  | replace =>
    dsimp only [FreshState.stepReload] at hs
    split at hs
    · rename_i readAt snapshot current hphase
      rw [hphase] at hreload
      split at hs
      · cases hs
        exact h.moveReload trivial
      · rename_i engine hreplace
        cases hs
        obtain ⟨-, hlt, rfl⟩ := Engine.replaceSnapshot_eq_none hreplace
        exact h.replace hlt.le hreload.1 hreload.2
    · cases hs
  | mark =>
    dsimp only [FreshState.stepReload] at hs
    split at hs
    · rename_i readAt hphase
      cases hs
      rw [hphase] at hreload
      exact h.mark hreload.1 hreload.2
    · cases hs
  | _ => cases hs

/-- The snapshot a fresh decision loads covers what its verification had read. -/
theorem evaluating (h : FreshInv initial s) {verifiedAt now : Time}
    (hverified : VerifiedBy s.verifications verifiedAt)
    (hfresh : { s.synchronizer with verifiedAt := verifiedAt }.fresh now = true) :
    (DecidePhase.evaluating verifiedAt now s.synchronizer.engine.snapshot).Ok s := by
  obtain ⟨hset, -, hage⟩ := Synchronizer.fresh_iff.mp hfresh
  refine ⟨hage, ?_⟩
  rcases hverified with hzero | ⟨v, hv, heq⟩
  · rw [hzero] at hset
    cases hset
  · exact ⟨v, hv, heq, (h.verified v hv).2⟩

theorem stepDecide (h : FreshInv initial s) (action : FreshAction W)
    (hs : s.stepDecide action = some s') : FreshInv initial s' := by
  have hset : ∀ {i : Nat} {d : DecidePhase W}, d.Ok s → ∀ d' ∈ s.deciders.set i d, d'.Ok s := by
    intro i d hok d' hd'
    rcases List.mem_or_eq_of_mem_set hd' with hd' | rfl
    · exact h.deciders d' hd'
    · exact hok
  cases action with
  | decide =>
    dsimp only [FreshState.stepDecide] at hs
    cases hs
    refine h.moveDecider fun d hd => ?_
    rcases List.mem_append.mp hd with hd | hd
    · exact h.deciders d hd
    · rw [List.mem_singleton.mp hd]
      exact h.current
  | sample i =>
    dsimp only [FreshState.stepDecide] at hs
    split at hs
    · rename_i verifiedAt hd
      cases hs
      have hverified := h.deciders _ (List.mem_of_getElem? hd)
      exact h.moveDecider (hset hverified)
    · cases hs
  | evaluate i =>
    dsimp only [FreshState.stepDecide] at hs
    split at hs
    · rename_i verifiedAt now hd
      split at hs
      · rename_i hfresh
        cases hs
        exact h.moveDecider (hset (h.evaluating (h.deciders _ (List.mem_of_getElem? hd)) hfresh))
      · cases hs
        exact h.moveDecider (hset trivial)
    · cases hs
  | _ => cases hs

theorem step (h : FreshInv initial s) {action : FreshAction W} (hs : s.step action = some s') :
    FreshInv initial s' := by
  cases action with
  | pass nanos => cases hs; exact h.pass nanos
  | publish manifest =>
    dsimp only [FreshState.step] at hs
    split at hs
    · rename_i hnew
      cases hs
      exact h.publish hnew
    · cases hs
  | read => exact h.stepReload .read hs
  | fail => exact h.stepReload .fail hs
  | returned => exact h.stepReload .returned hs
  | check => exact h.stepReload .check hs
  | compile w => exact h.stepReload (.compile w) hs
  | replace => exact h.stepReload .replace hs
  | mark => exact h.stepReload .mark hs
  | decide => exact h.stepDecide .decide hs
  | sample i => exact h.stepDecide (.sample i) hs
  | evaluate i => exact h.stepDecide (.evaluate i) hs

theorem of_reachable (h : (freshSystem initial).Reachable s) : FreshInv initial s := by
  refine System.Reachable.invariant ?_ (fun _ _ _ _ hinv hs => hinv.step hs) h
  rintro s ⟨hzero, now, rfl⟩
  exact ⟨fun _ he => absurd he List.not_mem_nil, trivial, fun _ hv => absurd hv List.not_mem_nil,
    Or.inl hzero, fun _ hd => absurd hd List.not_mem_nil, rfl⟩

end FreshInv

/-- **Bounded staleness.**  The snapshot a decision evaluates at `now` has every
manifest published longer ago than the allowance and the longest time a completed
reload took from its read to its mark. -/
theorem bounded_staleness {initial : Synchronizer W} (hmax : initial.maxStaleness < maxDuration)
    {s : FreshState W} (h : (freshSystem initial).Reachable s) {latency : Int}
    (hlatency : ∀ v ∈ s.verifications, v.2 - v.1 ≤ latency) {verifiedAt now : Time}
    {snapshot : Snapshot W} (hdecide : .evaluating verifiedAt now snapshot ∈ s.deciders) :
    ∀ entry ∈ s.log, entry.1 < now.nanos - initial.maxStaleness - latency →
      entry.2.revision ≤ snapshot.revision := by
  have hinv := FreshInv.of_reachable h
  obtain ⟨hage, v, hv, hmark, hcovers⟩ := hinv.deciders _ hdecide
  rw [hinv.maxStaleness] at hage
  have hbound := Time.sub_le_of_sub_le hmax hage
  have hl := hlatency v hv
  intro entry he hlt
  exact hcovers entry he (by omega)

/-- A decision evaluates a snapshot without a manifest published longer ago than the
allowance. -/
def FreshState.missed (s : FreshState W) (allowance : Int) : Bool :=
  s.deciders.any fun d =>
    match d with
    | .evaluating _ now snapshot => s.log.any fun entry =>
        decide (entry.1 < now.nanos - allowance) && decide (snapshot.revision < entry.2.revision)
    | _ => false

/-- A synchronizer with the given allowance. -/
def patientSynchronizer (maxStaleness : Duration) : Synchronizer Unit :=
  { laggingSynchronizer with maxStaleness := maxStaleness }

def manifestAt (revision : Revision) : Manifest := { smallManifest with revision := revision }

def freshStart (maxStaleness : Duration) : FreshState Unit :=
  ⟨1, [], patientSynchronizer maxStaleness, .idle, [], []⟩

theorem reachable_freshStart (maxStaleness : Duration) :
    (freshSystem (patientSynchronizer maxStaleness)).Reachable (freshStart maxStaleness) :=
  .init ⟨rfl, 1, rfl⟩

/-- Revision 2 is read at 3 and marked at 100; revision 3 is published at 4. -/
def slowReload : List (FreshAction Unit) :=
  [.publish (manifestAt 2), .pass 2, .read, .pass 1, .publish (manifestAt 3), .pass 96, .returned,
    .check, .compile (), .replace, .mark, .pass 10, .decide, .sample 0, .evaluate 0]

/-- Revision 2 is read and marked at 1; the decision is made more than the largest
duration later. -/
def longSilence : List (FreshAction Unit) :=
  [.publish (manifestAt 2), .read, .returned, .check, .compile (), .replace, .mark, .pass 1,
    .publish (manifestAt 3), .pass 9223372036854775817, .decide, .sample 0, .evaluate 0]

/-- A decision is evaluated and something was published longer ago than `age`. -/
def FreshState.settled (s : FreshState W) (age : Int) : Bool :=
  s.deciders.any fun d =>
    match d with
    | .evaluating _ now _ => s.log.any fun entry => decide (entry.1 < now.nanos - age)
    | _ => false

theorem FreshState.settled_iff {s : FreshState W} {age : Int} : s.settled age = true ↔
    ∃ verifiedAt now snapshot, .evaluating verifiedAt now snapshot ∈ s.deciders ∧
      ∃ entry ∈ s.log, entry.1 < now.nanos - age := by
  simp only [FreshState.settled, List.any_eq_true]
  constructor
  · rintro ⟨d, hd, hp⟩
    cases d with
    | evaluating verifiedAt now snapshot =>
      obtain ⟨entry, he, hlt⟩ := List.any_eq_true.mp hp
      exact ⟨verifiedAt, now, snapshot, hd, entry, he, decide_eq_true_eq.mp hlt⟩
    | _ => cases hp
  · rintro ⟨verifiedAt, now, snapshot, hd, entry, he, hlt⟩
    exact ⟨_, hd, List.any_eq_true.mpr ⟨entry, he, decide_eq_true_eq.mpr hlt⟩⟩

theorem bounded_staleness_slow : ∃ s verifiedAt now snapshot,
    (freshSystem (patientSynchronizer 10)).Reachable s ∧
    .evaluating verifiedAt now snapshot ∈ s.deciders ∧
    (∃ entry ∈ s.log, entry.1 < now.nanos - 10 - 97) ∧
    ∀ entry ∈ s.log, entry.1 < now.nanos - 10 - 97 → entry.2.revision ≤ snapshot.revision := by
  obtain ⟨s, hs, hp⟩ := (reachable_freshStart 10).exists_of_run slowReload
    (p := fun s => decide (∀ v ∈ s.verifications, v.2 - v.1 ≤ 97) && s.settled 107)
    (by decide +kernel)
  rw [Bool.and_eq_true, decide_eq_true_eq] at hp
  obtain ⟨verifiedAt, now, snapshot, hd, entry, he, hlt⟩ := FreshState.settled_iff.mp hp.2
  exact ⟨s, verifiedAt, now, snapshot, hs, hd, ⟨entry, he, by omega⟩,
    bounded_staleness (by decide) hs hp.1 hd⟩

/-- **The time of marking does not bound the age of what was read**, and the largest
allowance bounds nothing. -/
theorem bounded_staleness_missed :
    (∃ s, (freshSystem (patientSynchronizer 10)).Reachable s ∧ s.missed 10 = true) ∧
    ∃ s, (freshSystem (patientSynchronizer maxDuration)).Reachable s ∧
      (∀ v ∈ s.verifications, v.2 - v.1 ≤ 0) ∧ s.missed maxDuration = true := by
  refine ⟨(reachable_freshStart 10).exists_of_run slowReload (by decide +kernel), ?_⟩
  obtain ⟨s, hs, hp⟩ := (reachable_freshStart maxDuration).exists_of_run longSilence
    (p := fun s => decide (∀ v ∈ s.verifications, v.2 - v.1 ≤ 0) && s.missed maxDuration)
    (by decide +kernel)
  rw [Bool.and_eq_true, decide_eq_true_eq] at hp
  exact ⟨s, hs, hp⟩

end Authorization.Policy
