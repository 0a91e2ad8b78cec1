import Authorization.Policy.Staleness
import Authorization.Postgres.Store

/-!
# A fleet on one manifest row

Any number of publishers call `Store.Update` on the row and any number of instances
reload it through `Store.Load`, each into an engine of its own.  An instance is a
`FreshState`: its reload may stop between any two statements while the others go on.

The row remembers, for the statements only, the updates it accepted (`accepted`,
newest first); the log of an instance repeats them with the times of its own clock.
`fleet_agreement` collects what holds in every reachable state.
-/

namespace Authorization.Policy

open Authorization.Foundation Authorization.Core

variable {W : Type}

/-! ### Where the active snapshot of an instance comes from -/

/-- The snapshot was compiled from one of the manifests. -/
def CompiledFrom (compiler : Compiler W) (manifests : List Manifest) (snapshot : Snapshot W) :
    Prop :=
  ∃ manifest ∈ manifests, ∃ w w', compiler.compile manifest w = (.ok snapshot, w')

theorem CompiledFrom.mono {compiler : Compiler W} {manifests manifests' : List Manifest}
    {snapshot : Snapshot W} (h : CompiledFrom compiler manifests snapshot)
    (hsub : manifests ⊆ manifests') : CompiledFrom compiler manifests' snapshot := by
  obtain ⟨manifest, hmem, hcompile⟩ := h
  exact ⟨manifest, hsub hmem, hcompile⟩

/-- What a reload holds comes from the manifests. -/
def ReloadPhase.From (compiler : Compiler W) (manifests : List Manifest) : ReloadPhase W → Prop
  | .idle | .marking _ => True
  | .reading _ manifest | .loaded _ manifest | .checked _ manifest _ => manifest ∈ manifests
  | .compiled _ snapshot _ => CompiledFrom compiler manifests snapshot

namespace FreshState

def manifests (s : FreshState W) : List Manifest := s.log.map (·.2)

def publish (s : FreshState W) (manifest : Manifest) : FreshState W :=
  { s with log := (s.now, manifest) :: s.log }

/-- Everything an instance has or is about to have comes from its log. -/
structure Sourced (initial : Synchronizer W) (s : FreshState W) : Prop where
  compiler : s.synchronizer.compiler = initial.compiler
  active : s.synchronizer.engine.snapshot = initial.engine.snapshot ∨
    CompiledFrom initial.compiler s.manifests s.synchronizer.engine.snapshot
  reload : s.reload.From initial.compiler s.manifests

variable {initial : Synchronizer W} {s s' : FreshState W}

theorem Sourced.publish (h : s.Sourced initial) (manifest : Manifest) :
    (s.publish manifest).Sourced initial := by
  have hsub : s.manifests ⊆ (s.publish manifest).manifests := List.subset_cons_self _ _
  refine ⟨h.compiler, h.active.imp_right fun hc => hc.mono hsub, ?_⟩
  have hreload := h.reload
  show s.reload.From _ _
  cases hphase : s.reload with
  | idle => trivial
  | marking readAt => trivial
  | compiled readAt snapshot current =>
    rw [hphase] at hreload
    exact CompiledFrom.mono hreload hsub
  | _ =>
    rw [hphase] at hreload
    exact hsub hreload

/-- A reload reads the newest manifest of the log. -/
theorem Sourced.read (h : s.Sourced initial) {manifest : Manifest} (hmem : manifest ∈ s.manifests)
    (readAt : Int) : { s with reload := .reading readAt manifest }.Sourced initial :=
  ⟨h.compiler, h.active, hmem⟩

theorem Sourced.check (h : s.Sourced initial) {readAt : Int} {manifest : Manifest}
    (hmem : manifest ∈ s.manifests) :
    { s with reload := s.check readAt manifest }.Sourced initial := by
  refine ⟨h.compiler, h.active, ?_⟩
  show (s.check readAt manifest).From _ _
  unfold FreshState.check
  split
  · trivial
  · split
    · trivial
    · split
      · trivial
      · exact hmem

/-- **A step of a reload after the read** keeps the log, the source of everything
and the order of revisions. -/
theorem Sourced.stepReload (h : s.Sourced initial) (action : FreshAction W)
    (hread : action ≠ .read) (hs : s.stepReload action = some s') :
    s'.Sourced initial ∧ s'.log = s.log ∧ s.synchronizer.revision ≤ s'.synchronizer.revision := by
  have hreload := h.reload
  cases action with
  | read => exact absurd rfl hread
  | fail =>
    dsimp only [FreshState.stepReload] at hs
    split at hs
    · cases hs
      exact ⟨⟨h.compiler, h.active, trivial⟩, rfl, le_refl _⟩
    · cases hs
  | returned =>
    dsimp only [FreshState.stepReload] at hs
    split at hs
    · rename_i readAt manifest hphase
      cases hs
      rw [hphase] at hreload
      exact ⟨⟨h.compiler, h.active, hreload⟩, rfl, le_refl _⟩
    · cases hs
  | check =>
    dsimp only [FreshState.stepReload] at hs
    split at hs
    · rename_i readAt manifest hphase
      cases hs
      rw [hphase] at hreload
      exact ⟨h.check hreload, rfl, le_refl _⟩
    · cases hs
  | compile w =>
    dsimp only [FreshState.stepReload] at hs
    split at hs
    · rename_i readAt manifest current hphase
      rw [hphase] at hreload
      rcases hcompile : s.synchronizer.compiler.compile manifest w with ⟨err | snapshot, w'⟩
      · rw [hcompile] at hs
        cases hs
        exact ⟨⟨h.compiler, h.active, trivial⟩, rfl, le_refl _⟩
      · rw [hcompile] at hs
        cases hs
        rw [h.compiler] at hcompile
        exact ⟨⟨h.compiler, h.active, manifest, hreload, w, w', hcompile⟩, rfl, le_refl _⟩
    · cases hs
  | replace =>
    dsimp only [FreshState.stepReload] at hs
    split at hs
    · rename_i readAt snapshot current hphase
      rw [hphase] at hreload
      split at hs
      · cases hs
        exact ⟨⟨h.compiler, h.active, trivial⟩, rfl, le_refl _⟩
      · rename_i engine hreplace
        cases hs
        obtain ⟨-, hlt, rfl⟩ := Engine.replaceSnapshot_eq_none hreplace
        exact ⟨⟨h.compiler, Or.inr hreload, trivial⟩, rfl, hlt.le⟩
    · cases hs
  | mark =>
    dsimp only [FreshState.stepReload] at hs
    split at hs
    · cases hs
      exact ⟨⟨h.compiler, h.active, trivial⟩, rfl, le_refl _⟩
    · cases hs
  | _ => cases hs

/-- A step of a decision changes nothing but the decisions. -/
theorem stepDecide_frame {action : FreshAction W} (hs : s.stepDecide action = some s') :
    ∃ deciders, s' = { s with deciders := deciders } := by
  cases action with
  | decide => cases hs; exact ⟨_, rfl⟩
  | sample i =>
    dsimp only [FreshState.stepDecide] at hs
    split at hs
    · cases hs
      exact ⟨_, rfl⟩
    · cases hs
  | evaluate i =>
    dsimp only [FreshState.stepDecide] at hs
    split at hs
    · split at hs
      · cases hs
        exact ⟨_, rfl⟩
      · cases hs
        exact ⟨_, rfl⟩
    · cases hs
  | _ => cases hs

end FreshState

/-- The steps of an instance that do not touch the row. -/
def FreshAction.isLocal : FreshAction W → Bool
  | .publish _ | .read => false
  | _ => true

theorem FreshState.Sourced.step {initial : Synchronizer W} {s s' : FreshState W}
    (h : s.Sourced initial) {action : FreshAction W} (hlocal : action.isLocal = true)
    (hs : s.step action = some s') :
    s'.Sourced initial ∧ s'.log = s.log ∧ s.synchronizer.revision ≤ s'.synchronizer.revision := by
  have hdecide : ∀ action : FreshAction W, s.stepDecide action = some s' →
      s'.Sourced initial ∧ s'.log = s.log ∧
        s.synchronizer.revision ≤ s'.synchronizer.revision := by
    intro action hs
    obtain ⟨deciders, rfl⟩ := FreshState.stepDecide_frame hs
    exact ⟨⟨h.compiler, h.active, h.reload⟩, rfl, le_refl _⟩
  cases action with
  | pass nanos =>
    cases hs
    exact ⟨⟨h.compiler, h.active, h.reload⟩, rfl, le_refl _⟩
  | publish manifest => cases hlocal
  | read => cases hlocal
  | fail => exact h.stepReload .fail (by nofun) hs
  | returned => exact h.stepReload .returned (by nofun) hs
  | check => exact h.stepReload .check (by nofun) hs
  | compile w => exact h.stepReload (.compile w) (by nofun) hs
  | replace => exact h.stepReload .replace (by nofun) hs
  | mark => exact h.stepReload .mark (by nofun) hs
  | decide => exact hdecide .decide hs
  | sample i => exact hdecide (.sample i) hs
  | evaluate i => exact hdecide (.evaluate i) hs

end Authorization.Policy

namespace Authorization.Postgres

open Authorization.Foundation Authorization.Core Authorization.Policy

variable {W : Type}

/-! ### Publishers and instances -/

/-- A manifest a publisher may pass to `Update`: its revision fits `bigint` and is
above the revisions the engines start at, and what is stored of it decodes back. -/
structure Publication (column : Bytes → Bytes) (initial : List (Synchronizer W)) where
  manifest : Manifest
  bigint : manifest.revision.toNat < 2 ^ 63
  above : ∀ synchronizer ∈ initial, synchronizer.revision < manifest.revision
  decodes : ∀ encoded, encode manifest = .ok encoded → decode (column encoded) = .ok manifest

/-- Where an `Update` stands. -/
inductive PublisherPhase (column : Bytes → Bytes) (initial : List (Synchronizer W))
  | prepared (expected : Revision) (next : Publication column initial) (encoded : Bytes)
  | answered (expected : Revision) (next : Publication column initial) (answer : Option Bytes)
  | returned (expected : Revision) (next : Publication column initial)
      (result : Except GoError Manifest)

/-- An update that took effect, and the publisher that made it. -/
structure Accepted where
  publisher : Nat
  expected : Revision
  manifest : Manifest

structure FleetState (column : Bytes → Bytes) (initial : List (Synchronizer W)) where
  row : Option ManifestRow
  accepted : List Accepted
  publishers : List (PublisherPhase column initial)
  instances : List (FreshState W)

inductive FleetAction (column : Bytes → Bytes) (initial : List (Synchronizer W))
  | update (expected : Revision) (next : Publication column initial)
  | execute (p : Nat)
  /-- The driver reports a failure, before or after the statement took effect. -/
  | lose (p : Nat) (err : GoError)
  | finish (p : Nat)
  | select (i : Nat)
  | act (i : Nat) (action : FreshAction W)

variable {column : Bytes → Bytes} {initial : List (Synchronizer W)}

namespace FleetState

def stepUpdate (s : FleetState column initial) :
    FleetAction column initial → Option (FleetState column initial)
  | .update expected next =>
    match Store.prepare expected next.manifest with
    | .error err => some { s with publishers := s.publishers ++ [.returned expected next (.error err)] }
    | .ok encoded => some { s with publishers := s.publishers ++ [.prepared expected next encoded] }
  | .execute p =>
    match s.publishers[p]? with
    | some (.prepared expected next encoded) =>
      match updateManifest column expected next.manifest.revision encoded s.row with
      | (none, row) => some { s with
          row := row, publishers := s.publishers.set p (.answered expected next none) }
      | (some stored, row) => some {
          row := row
          accepted := ⟨p, expected, next.manifest⟩ :: s.accepted
          publishers := s.publishers.set p (.answered expected next (some stored))
          instances := s.instances.map (·.publish next.manifest) }
    | _ => none
  | .lose p err =>
    match s.publishers[p]? with
    | some (.prepared expected next _) | some (.answered expected next _) =>
      some { s with publishers := s.publishers.set p (.returned expected next (.error err)) }
    | _ => none
  | .finish p =>
    match s.publishers[p]? with
    | some (.answered expected next answer) =>
      some { s with publishers := s.publishers.set p (.returned expected next (Store.finish answer)) }
    | _ => none
  | _ => none

def stepInstance (s : FleetState column initial) :
    FleetAction column initial → Option (FleetState column initial)
  | .select i =>
    match s.instances[i]? with
    | some fresh =>
      match fresh.reload, Store.load (loadManifest s.row) with
      | .idle, .ok manifest =>
        some { s with instances := s.instances.set i { fresh with reload := .reading fresh.now manifest } }
      | .idle, .error _ => some s
      | _, _ => none
    | none => none
  | .act i action =>
    match s.instances[i]? with
    | some fresh =>
      if action.isLocal then
        match fresh.step action with
        | some fresh' => some { s with instances := s.instances.set i fresh' }
        | none => none
      else none
    | none => none
  | _ => none

def step (s : FleetState column initial) (action : FleetAction column initial) :
    Option (FleetState column initial) :=
  match action with
  | .select _ | .act _ _ => s.stepInstance action
  | _ => s.stepUpdate action

end FleetState

/-- No row, no calls, and every instance at rest with a clock of its own. -/
def fleetSystem (column : Bytes → Bytes) (initial : List (Synchronizer W)) :
    System (FleetState column initial) (FleetAction column initial) where
  init s := ∃ clocks : List Int, s = ⟨none, [], [], List.zipWith
    (fun synchronizer now => ⟨now, [], synchronizer, .idle, [], []⟩) initial clocks⟩
  step s action := s.step action

/-! ### The invariant -/

/-- The revision in force after the accepted updates. -/
def latest (accepted : List Accepted) : Revision :=
  accepted.head?.elim 0 (·.manifest.revision)

/-- Every update replaced the revision it expected by a newer one. -/
def Chain : List Accepted → Prop
  | [] => True
  | update :: older =>
    update.expected = latest older ∧ update.expected < update.manifest.revision ∧ Chain older

theorem Chain.le_latest : ∀ {accepted : List Accepted}, Chain accepted →
    ∀ update ∈ accepted, update.manifest.revision ≤ latest accepted := by
  intro accepted
  induction accepted with
  | nil => intro _ _ hu; cases hu
  | cons last older ih =>
    rintro ⟨hexpected, hlt, hchain⟩ update hu
    rcases List.mem_cons.mp hu with rfl | hu
    · exact le_refl _
    · exact le_trans (ih hchain update hu) (hexpected ▸ hlt.le)

theorem Chain.split : ∀ {newer : List Accepted} {update : Accepted} {older : List Accepted},
    Chain (newer ++ update :: older) → Chain (update :: older) := by
  intro newer
  induction newer with
  | nil => intro _ _ h; exact h
  | cons last newer ih => intro _ _ h; exact ih h.2.2

theorem Chain.latest_pos {accepted : List Accepted} (h : Chain accepted) (hne : accepted ≠ []) :
    0 < latest accepted := by
  cases accepted with
  | nil => exact absurd rfl hne
  | cons update older => exact lt_of_le_of_lt (UInt64.zero_le) h.2.1

/-- No two updates have one revision. -/
theorem Chain.manifest_eq : ∀ {accepted : List Accepted}, Chain accepted →
    ∀ u ∈ accepted, ∀ v ∈ accepted, u.manifest.revision = v.manifest.revision → u = v := by
  intro accepted
  induction accepted with
  | nil => intro _ _ hu; cases hu
  | cons last older ih =>
    rintro ⟨hexpected, hlt, hchain⟩
    have hbelow : ∀ u ∈ older, u.manifest.revision < last.manifest.revision := fun u hu =>
      lt_of_le_of_lt (hchain.le_latest u hu) (hexpected ▸ hlt)
    intro u hu v hv heq
    rcases List.mem_cons.mp hu with rfl | hu'
    · rcases List.mem_cons.mp hv with rfl | hv'
      · rfl
      · exact absurd heq (hbelow v hv').ne'
    · rcases List.mem_cons.mp hv with rfl | hv'
      · exact absurd heq (hbelow u hu').ne
      · exact ih hchain u hu' v hv' heq

/-- The row holds the update accepted last. -/
def RowHolds : Option ManifestRow → List Accepted → Prop
  | none, [] => True
  | some row, update :: _ =>
    row.revision = update.manifest.revision ∧ decode row.manifest = .ok update.manifest
  | _, _ => False

theorem RowHolds.revision_eq {row : Option ManifestRow} {accepted : List Accepted}
    (h : RowHolds row accepted) : storedRevision row = latest accepted := by
  cases row with
  | none =>
    cases accepted with
    | nil => rfl
    | cons update older => exact absurd h id
  | some row =>
    cases accepted with
    | nil => exact absurd h id
    | cons update older => exact h.1

theorem RowHolds.eq_none_iff {row : Option ManifestRow} {accepted : List Accepted}
    (h : RowHolds row accepted) : row = none ↔ accepted = [] := by
  cases row with
  | none =>
    cases accepted with
    | nil => simp
    | cons update older => exact absurd h id
  | some row =>
    cases accepted with
    | nil => exact absurd h id
    | cons update older => simp

/-- What `Load` returns is the manifest accepted last. -/
theorem RowHolds.load_eq_ok {row : Option ManifestRow} {accepted : List Accepted}
    (h : RowHolds row accepted) {manifest : Manifest}
    (hload : Store.load (loadManifest row) = .ok manifest) :
    manifest ∈ accepted.map (·.manifest) := by
  cases row with
  | none => cases hload
  | some row =>
    cases accepted with
    | nil => exact absurd h id
    | cons update older =>
      have hdecode : decode row.manifest = .ok manifest := hload
      rw [h.2] at hdecode
      cases hdecode
      exact List.mem_cons_self

def PublisherPhase.Ok (accepted : List Accepted) (p : Nat) :
    PublisherPhase column initial → Prop
  | .prepared expected next encoded =>
    encode next.manifest = .ok encoded ∧ expected < next.manifest.revision
  | .answered expected next (some stored) =>
    decode stored = .ok next.manifest ∧ ⟨p, expected, next.manifest⟩ ∈ accepted
  | .returned expected next (.ok manifest) =>
    manifest = next.manifest ∧ ⟨p, expected, manifest⟩ ∈ accepted
  | _ => True

theorem PublisherPhase.Ok.mono {accepted accepted' : List Accepted} {p : Nat}
    {phase : PublisherPhase column initial} (h : phase.Ok accepted p)
    (hsub : accepted ⊆ accepted') : phase.Ok accepted' p := by
  match phase, h with
  | .prepared _ _ _, h => exact h
  | .answered _ _ (some _), h => exact ⟨h.1, hsub h.2⟩
  | .answered _ _ none, _ => trivial
  | .returned _ _ (.ok _), h => exact ⟨h.1, hsub h.2⟩
  | .returned _ _ (.error _), _ => trivial

/-- The log of an instance repeats the accepted updates. -/
structure InstanceOk (accepted : List Accepted) (synchronizer : Synchronizer W)
    (fresh : FreshState W) : Prop where
  sourced : fresh.Sourced synchronizer
  log : fresh.manifests = accepted.map (·.manifest)

structure FleetInv (s : FleetState column initial) : Prop where
  chain : Chain s.accepted
  row : RowHolds s.row s.accepted
  above : ∀ update ∈ s.accepted, ∀ synchronizer ∈ initial,
    synchronizer.revision < update.manifest.revision
  publishers : ∀ (p : Nat) (phase : PublisherPhase column initial),
    s.publishers[p]? = some phase → phase.Ok s.accepted p
  instances : ∀ (i : Nat) (fresh : FreshState W), s.instances[i]? = some fresh →
    ∃ synchronizer, initial[i]? = some synchronizer ∧ InstanceOk s.accepted synchronizer fresh

/-- What never goes back along a run. -/
structure FleetGrows (s s' : FleetState column initial) : Prop where
  accepted : ∃ newer, s'.accepted = newer ++ s.accepted
  revision : ∀ (i : Nat) (fresh fresh' : FreshState W), s.instances[i]? = some fresh →
    s'.instances[i]? = some fresh' → fresh.synchronizer.revision ≤ fresh'.synchronizer.revision
  length : s'.instances.length = s.instances.length

theorem FleetGrows.refl (s : FleetState column initial) : FleetGrows s s := by
  refine ⟨⟨[], rfl⟩, ?_, rfl⟩
  intro i fresh fresh' hi hi'
  rw [hi] at hi'
  cases hi'
  exact le_refl _

theorem FleetGrows.trans {s s' s'' : FleetState column initial} (h : FleetGrows s s')
    (h' : FleetGrows s' s'') : FleetGrows s s'' := by
  obtain ⟨newer, hnewer⟩ := h.accepted
  obtain ⟨newest, hnewest⟩ := h'.accepted
  refine ⟨⟨newest ++ newer, by rw [hnewest, hnewer, List.append_assoc]⟩, ?_,
    h'.length.trans h.length⟩
  intro i fresh fresh'' hi hi''
  have hlt : i < s'.instances.length := h.length ▸ (List.getElem?_eq_some_iff.mp hi).1
  have hi' := List.getElem?_eq_getElem hlt
  exact le_trans (h.revision i _ _ hi hi') (h'.revision i _ _ hi' hi'')

/-- A publisher moved. -/
theorem FleetGrows.publishers (s : FleetState column initial) (row : Option ManifestRow)
    (publishers : List (PublisherPhase column initial)) :
    FleetGrows s { s with row := row, publishers := publishers } :=
  ⟨⟨[], rfl⟩, (FleetGrows.refl s).revision, rfl⟩

namespace FleetInv

variable {s s' : FleetState column initial}

/-- A publisher moves on; nothing else changes. -/
theorem setPublisher (h : FleetInv s) {p : Nat} {phase : PublisherPhase column initial}
    (hok : phase.Ok s.accepted p) :
    FleetInv { s with publishers := s.publishers.set p phase } := by
  refine ⟨h.chain, h.row, h.above, ?_, h.instances⟩
  intro q other hq
  rcases getElem?_set_cases hq with ⟨rfl, rfl⟩ | hq
  · exact hok
  · exact h.publishers q other hq

theorem addPublisher (h : FleetInv s) {phase : PublisherPhase column initial}
    (hok : phase.Ok s.accepted s.publishers.length) :
    FleetInv { s with publishers := s.publishers ++ [phase] } := by
  refine ⟨h.chain, h.row, h.above, ?_, h.instances⟩
  intro q other hq
  rcases getElem?_concat_cases hq with ⟨rfl, rfl⟩ | hq
  · exact hok
  · exact h.publishers q other hq

/-- The row takes an update that expected it. -/
theorem accept (h : FleetInv s) {p : Nat} {expected : Revision}
    {next : Publication column initial} {encoded : Bytes}
    (hencode : encode next.manifest = .ok encoded) (hnew : expected < next.manifest.revision)
    (hrow : storedRevision s.row = expected) :
    FleetInv {
      row := some ⟨next.manifest.revision, column encoded⟩
      accepted := ⟨p, expected, next.manifest⟩ :: s.accepted
      publishers := s.publishers.set p (.answered expected next (some (column encoded)))
      instances := s.instances.map (·.publish next.manifest) } := by
  have hdecodes := next.decodes encoded hencode
  refine ⟨⟨?_, hnew, h.chain⟩, ⟨rfl, hdecodes⟩, ?_, ?_, ?_⟩
  · rw [← hrow]
    exact h.row.revision_eq
  · intro update hu
    rcases List.mem_cons.mp hu with rfl | hu
    · exact next.above
    · exact h.above update hu
  · intro q phase hq
    rcases getElem?_set_cases hq with ⟨rfl, rfl⟩ | hq
    · exact ⟨hdecodes, List.mem_cons_self⟩
    · exact (h.publishers q phase hq).mono (List.subset_cons_self _ _)
  · intro i fresh hi
    rw [List.getElem?_map] at hi
    obtain ⟨old, hold, rfl⟩ := Option.map_eq_some_iff.mp hi
    obtain ⟨synchronizer, hsync, hok⟩ := h.instances i old hold
    refine ⟨synchronizer, hsync, hok.sourced.publish _, ?_⟩
    show next.manifest :: old.manifests = _
    rw [hok.log]
    rfl

theorem grows_accept (s : FleetState column initial) (row : Option ManifestRow)
    (update : Accepted) (publishers : List (PublisherPhase column initial)) :
    FleetGrows s ⟨row, update :: s.accepted, publishers,
      s.instances.map (·.publish update.manifest)⟩ := by
  refine ⟨⟨[update], rfl⟩, ?_, List.length_map _⟩
  intro i fresh fresh' hi hi'
  rw [List.getElem?_map, hi] at hi'
  cases hi'
  exact le_refl _

theorem stepUpdate (h : FleetInv s) (action : FleetAction column initial)
    (hs : s.stepUpdate action = some s') : FleetInv s' ∧ FleetGrows s s' := by
  cases action with
  | update expected next =>
    dsimp only [FleetState.stepUpdate] at hs
    split at hs
    · cases hs
      exact ⟨h.addPublisher trivial, FleetGrows.publishers s _ _⟩
    · rename_i encoded hprepare
      cases hs
      exact ⟨h.addPublisher (Store.prepare_eq_ok hprepare), FleetGrows.publishers s _ _⟩
  | execute p =>
    dsimp only [FleetState.stepUpdate] at hs
    split at hs
    · rename_i expected next encoded hp
      obtain ⟨hencode, hnew⟩ := h.publishers p _ hp
      rcases updateManifest_cases column encoded s.row hnew with
        ⟨hrow, heq⟩ | ⟨-, heq⟩
      · rw [heq] at hs
        cases hs
        exact ⟨h.accept hencode hnew hrow, grows_accept s _ ⟨p, expected, next.manifest⟩ _⟩
      · rw [heq] at hs
        cases hs
        exact ⟨h.setPublisher trivial, FleetGrows.publishers s _ _⟩
    · cases hs
  | lose p err =>
    dsimp only [FleetState.stepUpdate] at hs
    split at hs
    · cases hs
      exact ⟨h.setPublisher trivial, FleetGrows.publishers s _ _⟩
    · cases hs
      exact ⟨h.setPublisher trivial, FleetGrows.publishers s _ _⟩
    · cases hs
  | finish p =>
    dsimp only [FleetState.stepUpdate] at hs
    split at hs
    · rename_i expected next answer hp
      cases hs
      refine ⟨h.setPublisher ?_, FleetGrows.publishers s _ _⟩
      have hok := h.publishers p _ hp
      cases answer with
      | none => trivial
      | some stored =>
        rw [Store.finish, hok.1]
        exact ⟨rfl, hok.2⟩
    · cases hs
  | _ => cases hs

/-- An instance moves without touching the row. -/
theorem setInstance (h : FleetInv s) {i : Nat} {fresh fresh' : FreshState W}
    (hi : s.instances[i]? = some fresh) (hlog : fresh'.log = fresh.log)
    (hsourced : ∀ synchronizer, fresh.Sourced synchronizer → fresh.manifests =
      s.accepted.map (·.manifest) → fresh'.Sourced synchronizer)
    (hle : fresh.synchronizer.revision ≤ fresh'.synchronizer.revision) :
    FleetInv { s with instances := s.instances.set i fresh' } ∧
    FleetGrows s { s with instances := s.instances.set i fresh' } := by
  refine ⟨⟨h.chain, h.row, h.above, h.publishers, ?_⟩, ⟨[], rfl⟩, ?_, List.length_set⟩
  · intro j other hj
    rcases getElem?_set_cases hj with ⟨rfl, rfl⟩ | hj
    · obtain ⟨synchronizer, hsync, hok⟩ := h.instances j fresh hi
      refine ⟨synchronizer, hsync, hsourced synchronizer hok.sourced hok.log, ?_⟩
      rw [FreshState.manifests, hlog]
      exact hok.log
    · exact h.instances j other hj
  · intro j old other hold hj
    rcases getElem?_set_cases hj with ⟨rfl, rfl⟩ | hj
    · rw [hi] at hold
      cases hold
      exact hle
    · rw [hold] at hj
      cases hj
      exact le_refl _

theorem stepInstance (h : FleetInv s) (action : FleetAction column initial)
    (hs : s.stepInstance action = some s') : FleetInv s' ∧ FleetGrows s s' := by
  cases action with
  | select i =>
    dsimp only [FleetState.stepInstance] at hs
    split at hs
    · rename_i fresh hi
      split at hs
      · rename_i manifest _ hload
        cases hs
        refine h.setInstance hi rfl (fun synchronizer hsourced hlog => ?_) (le_refl _)
        refine hsourced.read ?_ _
        rw [hlog]
        exact h.row.load_eq_ok hload
      · cases hs
        exact ⟨h, FleetGrows.refl s⟩
      · cases hs
    · cases hs
  | act i action =>
    dsimp only [FleetState.stepInstance] at hs
    split at hs
    · rename_i fresh hi
      split at hs
      · rename_i hlocal
        split at hs
        · rename_i fresh' hstep
          cases hs
          obtain ⟨synchronizer, -, hok⟩ := h.instances i fresh hi
          obtain ⟨-, hlog, hle⟩ := hok.sourced.step hlocal hstep
          exact h.setInstance hi hlog (fun _ hsourced _ => (hsourced.step hlocal hstep).1) hle
        · cases hs
      · cases hs
    · cases hs
  | _ => cases hs

theorem step (h : FleetInv s) {action : FleetAction column initial}
    (hs : s.step action = some s') : FleetInv s' ∧ FleetGrows s s' := by
  cases action with
  | select i => exact h.stepInstance (.select i) hs
  | act i action => exact h.stepInstance (.act i action) hs
  | update expected next => exact h.stepUpdate (.update expected next) hs
  | execute p => exact h.stepUpdate (.execute p) hs
  | lose p err => exact h.stepUpdate (.lose p err) hs
  | finish p => exact h.stepUpdate (.finish p) hs

theorem of_reachable (h : (fleetSystem column initial).Reachable s) : FleetInv s := by
  refine System.Reachable.invariant ?_ (fun _ _ _ _ hinv hs => (hinv.step hs).1) h
  rintro s ⟨clocks, rfl⟩
  refine ⟨trivial, trivial, fun _ hu => absurd hu List.not_mem_nil, fun p phase hp => ?_, ?_⟩
  · rw [List.getElem?_nil] at hp
    cases hp
  · intro i fresh hi
    obtain ⟨synchronizer, now, hsync, -, rfl⟩ := List.getElem?_zipWith_eq_some.mp hi
    exact ⟨synchronizer, hsync, ⟨rfl, Or.inl rfl, trivial⟩, rfl⟩

/-- An engine at another revision than its first runs a snapshot of an accepted
manifest of that revision. -/
theorem compiledFrom (h : FleetInv s) {i : Nat} {synchronizer : Synchronizer W}
    {fresh : FreshState W} (hsync : initial[i]? = some synchronizer)
    (hi : s.instances[i]? = some fresh)
    (hmoved : fresh.synchronizer.revision ≠ synchronizer.revision) :
    ∃ update ∈ s.accepted, update.manifest.revision = fresh.synchronizer.revision ∧
      CompiledFrom synchronizer.compiler [update.manifest] fresh.synchronizer.engine.snapshot := by
  obtain ⟨_, hsync', hok⟩ := h.instances i fresh hi
  rw [hsync] at hsync'
  cases hsync'
  rcases hok.sourced.active with hsame | ⟨manifest, hmem, w, w', hcompile⟩
  · exact absurd (congrArg Snapshot.revision hsame) hmoved
  · rw [hok.log] at hmem
    obtain ⟨update, hu, rfl⟩ := List.mem_map.mp hmem
    refine ⟨update, hu, ?_, update.manifest, List.mem_singleton_self _, w, w', hcompile⟩
    exact (compile_revision (congrArg Prod.fst hcompile)).symm

theorem behind (h : FleetInv s) {i : Nat} {synchronizer : Synchronizer W} {fresh : FreshState W}
    (hsync : initial[i]? = some synchronizer) (hi : s.instances[i]? = some fresh) :
    if s.row = none then fresh.synchronizer.engine.snapshot = synchronizer.engine.snapshot
    else fresh.synchronizer.revision ≤ storedRevision s.row := by
  obtain ⟨_, hsync', hok⟩ := h.instances i fresh hi
  rw [hsync] at hsync'
  cases hsync'
  have hrow := h.row.eq_none_iff
  split
  · rename_i hnone
    refine hok.sourced.active.resolve_right ?_
    rintro ⟨manifest, hmem, -⟩
    rw [hok.log, hrow.mp hnone] at hmem
    cases hmem
  · rename_i hsome
    rw [h.row.revision_eq]
    by_cases hmoved : fresh.synchronizer.revision = synchronizer.revision
    · obtain ⟨update, hu⟩ := List.exists_mem_of_ne_nil _ fun hnil => hsome (hrow.mpr hnil)
      rw [hmoved]
      exact le_trans (h.above update hu synchronizer (List.mem_of_getElem? hsync)).le
        (h.chain.le_latest update hu)
    · obtain ⟨update, hu, hrevision, -⟩ := h.compiledFrom hsync hi hmoved
      rw [← hrevision]
      exact h.chain.le_latest update hu

end FleetInv

/-- **Agreement of the fleet** in a state of a run. -/
structure FleetAgreement (s : FleetState column initial) : Prop where
  /-- Every accepted update replaced the revision it expected by a newer one, and only
  the first was an insert. -/
  chain : ∀ newer update older, s.accepted = newer ++ update :: older →
    update.expected = latest older ∧ update.expected < update.manifest.revision ∧
    (update.expected = 0 ↔ older = [])
  /-- The row has the revision accepted last. -/
  stored : storedRevision s.row = latest s.accepted ∧ (s.row = none ↔ s.accepted = [])
  /-- An `Update` that returned without an error was accepted. -/
  succeeded : ∀ (p : Nat) expected next manifest,
    s.publishers[p]? = some (.returned expected next (.ok manifest)) →
    manifest = next.manifest ∧ ⟨p, expected, manifest⟩ ∈ s.accepted
  /-- No engine is ahead of the row; before the first insert all are as they started. -/
  behind : ∀ (i : Nat) synchronizer (fresh : FreshState W), initial[i]? = some synchronizer →
    s.instances[i]? = some fresh →
    if s.row = none then fresh.synchronizer.engine.snapshot = synchronizer.engine.snapshot
    else fresh.synchronizer.revision ≤ storedRevision s.row
  /-- Two engines at one revision that is not their first run snapshots of one
  accepted manifest. -/
  agree : ∀ (i j : Nat) synchronizer synchronizer' (fresh fresh' : FreshState W),
    initial[i]? = some synchronizer → initial[j]? = some synchronizer' →
    s.instances[i]? = some fresh → s.instances[j]? = some fresh' →
    fresh.synchronizer.revision ≠ synchronizer.revision →
    fresh'.synchronizer.revision ≠ synchronizer'.revision →
    fresh.synchronizer.revision = fresh'.synchronizer.revision →
    ∃ update ∈ s.accepted, update.manifest.revision = fresh.synchronizer.revision ∧
      CompiledFrom synchronizer.compiler [update.manifest] fresh.synchronizer.engine.snapshot ∧
      CompiledFrom synchronizer'.compiler [update.manifest] fresh'.synchronizer.engine.snapshot
  /-- Whatever happens next, accepted updates stay and no engine goes back. -/
  grows : ∀ actions s', (fleetSystem column initial).run s actions = some s' → FleetGrows s s'

/-- **A fleet agrees on revisions** in every interleaving. -/
theorem fleet_agreement {s : FleetState column initial}
    (h : (fleetSystem column initial).Reachable s) : FleetAgreement s := by
  have hinv := FleetInv.of_reachable h
  refine ⟨?_, ⟨hinv.row.revision_eq, hinv.row.eq_none_iff⟩, ?_, ?_, ?_, ?_⟩
  · intro newer update older heq
    have hchain := hinv.chain
    rw [heq] at hchain
    obtain ⟨hexpected, hlt, hrest⟩ := hchain.split
    refine ⟨hexpected, hlt, ?_⟩
    rw [hexpected]
    constructor
    · intro hzero
      by_contra hne
      exact absurd hzero (hrest.latest_pos hne).ne'
    · rintro rfl
      rfl
  · intro p expected next manifest hp
    exact hinv.publishers p _ hp
  · intro i synchronizer fresh hsync hi
    exact hinv.behind hsync hi
  · intro i j synchronizer synchronizer' fresh fresh' hsync hsync' hi hj hmoved hmoved' heq
    obtain ⟨update, hu, hrevision, hcompiled⟩ := hinv.compiledFrom hsync hi hmoved
    obtain ⟨update', hu', hrevision', hcompiled'⟩ := hinv.compiledFrom hsync' hj hmoved'
    have hsame := hinv.chain.manifest_eq update hu update' hu'
      (by rw [hrevision, hrevision', heq])
    subst hsame
    exact ⟨update, hu, hrevision, hcompiled, hcompiled'⟩
  · intro actions s' hrun
    exact System.Reachable.run_rel FleetGrows.refl (fun _ _ _ => FleetGrows.trans)
      (fun t action t' ht hstep => ((FleetInv.of_reachable ht).step hstep).2) h hrun

/-- Two instances at revision 1. -/
def pair : List (Synchronizer Unit) := [laggingSynchronizer, laggingSynchronizer]

/-- A manifest in the form `Encode` writes, which a column that changes nothing
returns as it is. -/
def publication (manifest : Manifest) (encoded : Bytes) (hencode : encode manifest = .ok encoded)
    (hdecode : decode encoded = .ok manifest) (hbigint : manifest.revision.toNat < 2 ^ 63)
    (habove : 1 < manifest.revision) : Publication id pair where
  manifest := manifest
  bigint := hbigint
  above := by
    intro synchronizer hmem
    have heq : synchronizer = laggingSynchronizer := by
      simpa [pair] using hmem
    rw [heq]
    exact habove
  decodes := by
    intro text htext
    rw [hencode] at htext
    cases htext
    exact hdecode

def encodedAt (revision : Revision) : Bytes :=
  match encode (manifestAt revision).normalize with
  | .ok encoded => encoded
  | .error _ => []

def secondPublication : Publication id pair :=
  publication (manifestAt 2).normalize (encodedAt 2) (by decide +kernel) (by decide +kernel)
    (by decide) (by decide)

def thirdPublication : Publication id pair :=
  publication (manifestAt 3).normalize (encodedAt 3) (by decide +kernel) (by decide +kernel)
    (by decide) (by decide)

/-- Two publishers race for the insert and one replaces it, while both instances
load the first manifest. -/
def raceActions : List (FleetAction id pair) :=
  [.update 0 secondPublication, .update 0 thirdPublication, .execute 0, .select 0, .execute 1,
    .finish 1, .select 1, .update 2 thirdPublication, .act 0 .returned, .execute 2, .finish 0,
    .act 1 .returned, .act 0 .check, .act 1 .check, .act 0 (.compile ()), .act 1 (.compile ()),
    .act 1 .replace, .act 0 .replace, .finish 2]

/-- Both instances are at revision 2 behind a row at revision 3. -/
def raced (s : FleetState id pair) : Bool :=
  s.accepted.map (·.manifest.revision) = [3, 2] && storedRevision s.row = 3 &&
    s.instances.map (·.synchronizer.revision) = [2, 2]

theorem fleet_agreement_raced : ∃ s : FleetState id pair, raced s = true ∧ FleetAgreement s := by
  have hstart : (fleetSystem id pair).Reachable ⟨none, [], [], List.zipWith
      (fun synchronizer now => ⟨now, [], synchronizer, .idle, [], []⟩) pair [0, 5]⟩ :=
    .init ⟨[0, 5], rfl⟩
  obtain ⟨s, hs, hraced⟩ := hstart.exists_of_run raceActions (p := raced) (by decide +kernel)
  exact ⟨s, hraced, fleet_agreement hs⟩

end Authorization.Postgres
