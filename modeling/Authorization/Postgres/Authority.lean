import Authorization.Core.Error
import Authorization.Foundation.Decimal
import Authorization.Foundation.RowLock
import Authorization.Foundation.Transition
import Authorization.Foundation.Utf8

/-!
# Authority epochs

`postgres/authority.go`.  Every scope has one row with a positive epoch.  A
transaction may initialize it, advance it from an expected epoch and require an
exact epoch; each call is one statement on the row, and every error means that
the transaction will abort.  Waiting is not being enabled, so every
interleaving of the statements is a run.

Beside the row a scope remembers, for the statements only, from which epochs
the calls of each open transaction advanced it (`advances`), who initialized
it, which epochs were required with success, and from which epochs committed
transactions advanced it (`committedAdvances`).
-/

namespace Authorization.Postgres

open Authorization.Foundation Authorization.Core

structure AuthorityScope where
  tenantID : Bytes
  policyNamespace : Bytes
  subjectID : Bytes
deriving DecidableEq

/-- `Validate`: every component has 1 to 128 bytes of UTF-8, no ASCII white
space and no control. -/
def AuthorityScope.validate (scope : AuthorityScope) : Option GoError :=
  if [scope.tenantID, scope.policyNamespace, scope.subjectID].all fun id =>
      id.length ≠ 0 && id.length ≤ 128 && Utf8.valid id && id.all fun b => 32 < b && b ≠ 127 then
    none
  else some (.sentinel .postgresErrInvalidAuthority)

structure AuthorityRecord where
  scope : AuthorityScope
  version : UInt64
deriving DecidableEq

/-- `decodeAuthority`: the row must be the scope's own and its version a
canonical positive text. -/
def decodeAuthority (scope : AuthorityScope) (tenant namespace' subject version : Bytes) :
    Except GoError AuthorityRecord :=
  match parseUint version with
  | none => .error (.sentinel .postgresErrAuthorityUnavailable)
  | some n =>
    if scope.validate ≠ none ∨ scope.tenantID ≠ tenant ∨ scope.policyNamespace ≠ namespace' ∨
        scope.subjectID ≠ subject ∨ n = 0 ∨ formatUint n ≠ version then
      .error (.sentinel .postgresErrAuthorityUnavailable)
    else .ok ⟨scope, n⟩

/-- What may go wrong with a call: it may fail before its statement runs, or
after the statement ran. -/
inductive Fault
  | none
  | before (err : GoError)
  | after (err : GoError)
deriving DecidableEq

/-- `authorityQuery`, given the statement.  The statement's row carries the
scope's own key. -/
def authorityQuery (scope : AuthorityScope) (fault : Fault) (row : Row Nat Nat)
    (statement : Row Nat Nat → Option (Option Nat × Row Nat Nat)) (missing : GoError) :
    Option (Except GoError AuthorityRecord × Row Nat Nat) :=
  if scope.validate ≠ none then some (.error (.sentinel .postgresErrInvalidAuthority), row)
  else
    match fault with
    | .before err => some (.error err, row)
    | .after err => (statement row).map fun (_, row) => (.error err, row)
    | .none => (statement row).map fun (answer, row) =>
      match answer with
      | none => (.error missing, row)
      | some version =>
        (decodeAuthority scope scope.tenantID scope.policyNamespace scope.subjectID
          (formatNat version), row)

/-- `InitializeAuthority` by transaction `t`. -/
def initializeAuthority (t : Nat) (scope : AuthorityScope) (fault : Fault) (row : Row Nat Nat) :
    Option (Except GoError AuthorityRecord × Row Nat Nat) :=
  authorityQuery scope fault row (Row.insert t 1) (.sentinel .postgresErrAuthorityConflict)

/-- `AdvanceAuthority`: zero and the greatest epoch are refused before the
statement. -/
def advanceAuthority (t : Nat) (scope : AuthorityScope) (expected : UInt64) (fault : Fault)
    (row : Row Nat Nat) : Option (Except GoError AuthorityRecord × Row Nat Nat) :=
  if expected = 0 then some (.error (.sentinel .postgresErrInvalidAuthority), row)
  else if expected.toNat = 2 ^ 64 - 1 then
    some (.error (.sentinel .postgresErrAuthorityOverflow), row)
  else authorityQuery scope fault row (Row.update t (· = expected.toNat) (· + 1))
    (.sentinel .postgresErrAuthorityConflict)

/-- `RequireAuthority`; nil is `.ok ()`. -/
def requireAuthority (t : Nat) (scope : AuthorityScope) (expected : UInt64) (fault : Fault)
    (row : Row Nat Nat) : Option (Except GoError Unit × Row Nat Nat) :=
  if expected = 0 then some (.error (.sentinel .postgresErrInvalidAuthority), row)
  else
    (authorityQuery scope fault row (Row.selectForShare t)
      (.sentinel .postgresErrAuthorityDenied)).map fun (result, row) =>
      match result with
      | .error err => (.error err, row)
      | .ok current =>
        if current.version ≠ expected then (.error (.sentinel .postgresErrAuthorityDenied), row)
        else (.ok (), row)

/-! ### Transactions -/

inductive TxStatus
  | active
  /-- A call returned an error: only an abort may follow. -/
  | failed
  | ended
deriving DecidableEq

structure ScopeState where
  row : Row Nat Nat := {}
  /-- The epochs from which an open transaction's successful calls advanced. -/
  advances : Nat → List Nat := fun _ => []
  initialized : Nat → Bool := fun _ => false
  /-- The epochs an open transaction required with success. -/
  required : Nat → List Nat := fun _ => []
  committedAdvances : List Nat := []

structure AuthorityState where
  status : Nat → TxStatus := fun _ => .active
  scopes : AuthorityScope → ScopeState := fun _ => {}

inductive AuthorityAction
  | initializeAuthority (t : Nat) (scope : AuthorityScope) (fault : Fault)
  | advanceAuthority (t : Nat) (scope : AuthorityScope) (expected : UInt64) (fault : Fault)
  | requireAuthority (t : Nat) (scope : AuthorityScope) (expected : UInt64) (fault : Fault)
  | commit (t : Nat)
  | abort (t : Nat)

/-- The transaction's status after a call. -/
def statusAfter {α : Type} (status : TxStatus) : Except GoError α → TxStatus
  | .ok _ => status
  | .error _ => .failed

/-- What a call leaves of a scope, with its success recorded. -/
def ScopeState.record {α : Type} (scope : ScopeState) (row : Row Nat Nat) (result : Except GoError α)
    (success : ScopeState → ScopeState) : ScopeState :=
  match result with
  | .ok _ => success { scope with row := row }
  | .error _ => { scope with row := row }

/-- The end of a transaction at one scope. -/
def ScopeState.finish (t : Nat) (commit : Bool) (scope : ScopeState) : ScopeState where
  row := scope.row.release t commit
  advances := Function.update scope.advances t []
  initialized := Function.update scope.initialized t false
  required := Function.update scope.required t []
  committedAdvances :=
    if commit then scope.committedAdvances ++ scope.advances t else scope.committedAdvances

/-- One call on one scope, by an active transaction. -/
def AuthorityState.call {α : Type} (s : AuthorityState) (t : Nat) (scope : AuthorityScope)
    (call : Row Nat Nat → Option (Except GoError α × Row Nat Nat))
    (success : ScopeState → ScopeState) : Option AuthorityState :=
  if s.status t = .active then
    (call (s.scopes scope).row).map fun (result, row) =>
      { status := Function.update s.status t (statusAfter (s.status t) result)
        scopes := Function.update s.scopes scope ((s.scopes scope).record row result success) }
  else none

def authorityStep (s : AuthorityState) : AuthorityAction → Option AuthorityState
  | .initializeAuthority t scope fault =>
    s.call t scope (initializeAuthority t scope fault) fun st =>
      { st with initialized := Function.update st.initialized t true }
  | .advanceAuthority t scope expected fault =>
    s.call t scope (advanceAuthority t scope expected fault) fun st =>
      { st with advances := Function.update st.advances t (st.advances t ++ [expected.toNat]) }
  | .requireAuthority t scope expected fault =>
    s.call t scope (requireAuthority t scope expected fault) fun st =>
      { st with required := Function.update st.required t (st.required t ++ [expected.toNat]) }
  | .commit t =>
    if s.status t = .active then
      some ⟨Function.update s.status t .ended, fun scope => (s.scopes scope).finish t true⟩
    else none
  | .abort t =>
    if s.status t ≠ .ended then
      some ⟨Function.update s.status t .ended, fun scope => (s.scopes scope).finish t false⟩
    else none

/-- Any number of transactions on an empty table. -/
def authoritySystem : System AuthorityState AuthorityAction where
  init s := s = {}
  step := authorityStep

/-! ### What a call answers -/

theorem decodeAuthority_ok {scope : AuthorityScope} {tenant namespace' subject : Bytes}
    {version : Nat} {record : AuthorityRecord}
    (h : decodeAuthority scope tenant namespace' subject (formatNat version) = .ok record) :
    record.version.toNat = version ∧ 1 ≤ version ∧ version < 2 ^ 64 := by
  unfold decodeAuthority at h
  rw [parseUint, parseNat_formatNat, Option.bind_some] at h
  by_cases hlt : version < 2 ^ 64
  · rw [if_pos hlt] at h
    dsimp only at h
    split at h
    · cases h
    · rename_i hok
      injection h with h
      subst h
      have hn : (UInt64.ofNat version).toNat = version := UInt64.toNat_ofNat_of_lt' hlt
      refine ⟨hn, ?_, hlt⟩
      by_contra hz
      have hz' : version = 0 := by omega
      subst hz'
      exact hok (Or.inr (Or.inr (Or.inr (Or.inr (Or.inl rfl)))))
  · rw [if_neg hlt] at h
    cases h

/-- **A call either fails or its statement returned the row it reports.**  A
failed call may have run its statement. -/
theorem authorityQuery_cases {scope : AuthorityScope} {fault : Fault} {row row' : Row Nat Nat}
    {statement : Row Nat Nat → Option (Option Nat × Row Nat Nat)} {missing : GoError}
    {result : Except GoError AuthorityRecord}
    (h : authorityQuery scope fault row statement missing = some (result, row')) :
    (∃ err, result = .error err ∧ (row' = row ∨ ∃ answer, statement row = some (answer, row'))) ∨
      ∃ record, result = .ok record ∧ statement row = some (some record.version.toNat, row') := by
  unfold authorityQuery at h
  split at h
  · cases h; exact Or.inl ⟨_, rfl, Or.inl rfl⟩
  · split at h
    · cases h; exact Or.inl ⟨_, rfl, Or.inl rfl⟩
    · obtain ⟨⟨answer, row''⟩, hs, he⟩ := Option.map_eq_some_iff.mp h
      cases he
      exact Or.inl ⟨_, rfl, Or.inr ⟨answer, hs⟩⟩
    · obtain ⟨⟨answer, row''⟩, hs, he⟩ := Option.map_eq_some_iff.mp h
      cases answer with
      | none => cases he; exact Or.inl ⟨_, rfl, Or.inr ⟨none, hs⟩⟩
      | some version =>
        injection he with hres hrow
        subst hrow
        cases result with
        | error err => exact Or.inl ⟨err, rfl, Or.inr ⟨some version, hs⟩⟩
        | ok record =>
          obtain ⟨hv, _⟩ := decodeAuthority_ok hres
          exact Or.inr ⟨record, rfl, by rw [hv]; exact hs⟩

/-! ### The invariant of a scope -/

/-- The epoch a transaction's advances start from: the committed one, or the
one a new row gets. -/
def ScopeState.base (st : ScopeState) : Nat := st.row.committed.getD 1

structure ScopeInv (status : Nat → TxStatus) (st : ScopeState) : Prop where
  exclusive : st.row.Exclusive
  /-- A row that nobody sees has no share locks. -/
  unshared : st.row.committed = none → st.row.sharers = []
  bounded : ∀ v, st.row.committed = some v → 1 ≤ v ∧ v < 2 ^ 64
  history : st.committedAdvances = List.range' 1 (st.base - 1)
  /-- What an active writer did so far accounts for the value it wrote. -/
  writer : ∀ t w, st.row.writer = some (t, w) → 1 ≤ w ∧ w < 2 ^ 64 ∧ (status t = .active →
    w = st.base + (st.advances t).length ∧
    st.advances t = List.range' st.base (st.advances t).length ∧
    (st.row.committed = none → st.initialized t = true) ∧
    (st.row.committed ≠ none → st.advances t ≠ []))
  idle : ∀ t, (∀ w, st.row.writer ≠ some (t, w)) → st.advances t = [] ∧ st.initialized t = false
  required : ∀ t, ∀ e ∈ st.required t, st.row.Pinned t e ∨ st.initialized t = true ∨
    st.advances t ≠ []

namespace ScopeInv

variable {status : Nat → TxStatus} {st : ScopeState}

theorem initial (status : Nat → TxStatus) : ScopeInv status {} :=
  ⟨nofun, fun _ => rfl, nofun, rfl, nofun, fun _ _ => ⟨rfl, rfl⟩, nofun⟩

/-- Only whether a transaction is active matters, and less is known of one that
is not. -/
theorem mono {status' : Nat → TxStatus} (h : ScopeInv status st)
    (hs : ∀ t, status' t = .active → status t = .active) : ScopeInv status' st := by
  refine ⟨h.exclusive, h.unshared, h.bounded, h.history, ?_, h.idle, h.required⟩
  intro t w hw
  obtain ⟨h1, h2, h3⟩ := h.writer t w hw
  exact ⟨h1, h2, fun ha => h3 (hs t ha)⟩

theorem one_le_base (h : ScopeInv status st) : 1 ≤ st.base := by
  unfold ScopeState.base
  cases hc : st.row.committed with
  | none => exact le_refl _
  | some v => exact (h.bounded v hc).1

/-- What a call of somebody else, or the end of a transaction, leaves of the
requirements of the others. -/
theorem required_of_pinned (h : ScopeInv status st) {t : Nat}
    (hidle : ∀ w, st.row.writer ≠ some (t, w)) {e : Nat} (he : e ∈ st.required t) :
    st.row.Pinned t e := by
  obtain ⟨hadv, hinit⟩ := h.idle t hidle
  rcases h.required t e he with hp | hi | ha
  · exact hp
  · rw [hinit] at hi; cases hi
  · exact absurd hadv ha

theorem finish_required {t u : Nat} {commit : Bool} (hu : u ≠ t) :
    (st.finish t commit).required u = st.required u := Function.update_of_ne hu _ _

/-- **The end of a transaction.** -/
theorem finish (h : ScopeInv status st) (t : Nat) (commit : Bool)
    (hactive : commit = true → status t = .active) :
    ScopeInv (Function.update status t .ended) (st.finish t commit) := by
  have hexcl : (st.finish t commit).row.Exclusive := h.exclusive.release t commit
  -- whoever is not `t` and not the writer keeps its pins
  have hreq : ∀ u, u ≠ t → (∀ w, st.row.writer ≠ some (u, w)) →
      ∀ e ∈ (st.finish t commit).required u, (st.finish t commit).row.Pinned u e := by
    intro u hu hidle e he
    rw [finish_required hu] at he
    exact (h.required_of_pinned hidle he).release h.exclusive hu commit
  have hgone : (st.finish t commit).required t = [] := Function.update_self _ _ _
  rcases st.row.release_cases t commit with ⟨v, hw, he⟩ | ⟨hnw, he⟩
  · have hothers : ∀ u, u ≠ t → ∀ w, st.row.writer ≠ some (u, w) := by
      intro u hu w hc
      rw [hw] at hc
      cases hc
      exact hu rfl
    have hnone : (st.finish t commit).row.writer = none := by
      show (st.row.release t commit).writer = none
      rw [he]
    obtain ⟨hv1, hv2, hcount⟩ := h.writer t v hw
    refine ⟨hexcl, ?_, ?_, ?_, ?_, ?_, ?_⟩
    · intro hn
      have hn' : (st.row.release t commit).committed = none := hn
      show (st.row.release t commit).sharers = []
      rw [he] at hn' ⊢
      cases commit with
      | true => cases hn'
      | false =>
        have hnil := h.unshared hn'
        dsimp only
        rw [hnil]
        rfl
    · intro v' hv'
      have hv'' : (if commit then some v else st.row.committed) = some v' := by
        have : (st.row.release t commit).committed = some v' := hv'
        rw [he] at this
        exact this
      cases commit with
      | true => cases hv''; exact ⟨hv1, hv2⟩
      | false => exact h.bounded v' hv''
    · cases commit with
      | true =>
        obtain ⟨hv, hrange, _⟩ := hcount (hactive rfl)
        have hbase : (st.finish t true).base = v := by
          show ((st.row.release t true).committed).getD 1 = v
          rw [he]
          rfl
        show st.committedAdvances ++ st.advances t = _
        rw [hbase, h.history, hrange, hv]
        have hone := h.one_le_base
        have hsplit : st.base = 1 + (st.base - 1) := by omega
        conv_lhs => rw [hsplit]
        rw [show 1 + (st.base - 1) - 1 = st.base - 1 by omega, List.range'_append_1]
        congr 1
        omega
      | false =>
        have hbase : (st.finish t false).base = st.base := by
          show ((st.row.release t false).committed).getD 1 = _
          rw [he]
          rfl
        rw [hbase]
        exact h.history
    · intro u w hc
      rw [hnone] at hc
      cases hc
    · intro u _
      by_cases hu : u = t
      · subst hu
        exact ⟨Function.update_self _ _ _, Function.update_self _ _ _⟩
      · obtain ⟨h1, h2⟩ := h.idle u (hothers u hu)
        exact ⟨(Function.update_of_ne hu _ _).trans h1, (Function.update_of_ne hu _ _).trans h2⟩
    · intro u e hm
      by_cases hu : u = t
      · subst hu; rw [hgone] at hm; cases hm
      · exact Or.inl (hreq u hu (hothers u hu) e hm)
  · obtain ⟨hadv, hinit⟩ := h.idle t hnw
    have hcom : (st.finish t commit).row.committed = st.row.committed := by
      show (st.row.release t commit).committed = _
      rw [he]
    have hwr : (st.finish t commit).row.writer = st.row.writer := by
      show (st.row.release t commit).writer = _
      rw [he]
    have hbase : (st.finish t commit).base = st.base := by
      rw [ScopeState.base, hcom, ScopeState.base]
    have hsame : ∀ u, (st.finish t commit).advances u = st.advances u ∧
        (st.finish t commit).initialized u = st.initialized u := by
      intro u
      by_cases hu : u = t
      · subst hu
        exact ⟨(Function.update_self _ _ _).trans hadv.symm,
          (Function.update_self _ _ _).trans hinit.symm⟩
      · exact ⟨Function.update_of_ne hu _ _, Function.update_of_ne hu _ _⟩
    refine ⟨hexcl, ?_, ?_, ?_, ?_, ?_, ?_⟩
    · intro hn
      rw [hcom] at hn
      have hnil := h.unshared hn
      show (st.row.release t commit).sharers = []
      rw [he]
      dsimp only
      rw [hnil]
      rfl
    · rw [hcom]; exact h.bounded
    · rw [hbase, ← h.history]
      show (if commit then st.committedAdvances ++ st.advances t else st.committedAdvances) = _
      rw [hadv, List.append_nil, ite_self]
    · intro u w hc
      rw [hwr] at hc
      obtain ⟨h1, h2, h3⟩ := h.writer u w hc
      have hu : u ≠ t := fun hu => hnw w (hu ▸ hc)
      refine ⟨h1, h2, fun ha => ?_⟩
      rw [Function.update_of_ne hu] at ha
      rw [hbase, (hsame u).1, (hsame u).2, hcom]
      exact h3 ha
    · rw [hwr]
      intro u hidle
      rw [(hsame u).1, (hsame u).2]
      exact h.idle u hidle
    · intro u e hm
      by_cases hu : u = t
      · subst hu; rw [hgone] at hm; cases hm
      · rw [(hsame u).1, (hsame u).2]
        rw [finish_required hu] at hm
        rcases h.required u e hm with hp | ho
        · exact Or.inl (hp.release h.exclusive hu commit)
        · exact Or.inr ho

/-- A write by `t`, alone on the row, with what is recorded of it. -/
theorem write (h : ScopeInv status st) {t w : Nat}
    (hprev : st.row.writer = none ∨ ∃ v, st.row.writer = some (t, v))
    (hshare : ∀ u ∈ st.row.sharers, u = t) (h1 : 1 ≤ w) (h2 : w < 2 ^ 64) (adv : List Nat)
    (init : Bool) (hadv : st.advances t ≠ [] → adv ≠ [])
    (hinit : st.initialized t = true → init = true)
    (hcount : status t = .active → w = st.base + adv.length ∧
      adv = List.range' st.base adv.length ∧ (st.row.committed = none → init = true) ∧
      (st.row.committed ≠ none → adv ≠ [])) :
    ScopeInv status { st with
      row := { st.row with writer := some (t, w) }
      advances := Function.update st.advances t adv
      initialized := Function.update st.initialized t init } := by
  have hbefore : ∀ u, u ≠ t → ∀ v, st.row.writer ≠ some (u, v) := by
    intro u hu v hc
    rcases hprev with hn | ⟨v', hv'⟩
    · rw [hn] at hc; cases hc
    · rw [hv'] at hc; cases hc; exact hu rfl
  refine ⟨Row.Exclusive.write hshare, h.unshared, h.bounded, h.history, ?_, ?_, ?_⟩
  · intro u v he
    cases he
    refine ⟨h1, h2, fun ha => ?_⟩
    dsimp only
    rw [Function.update_self, Function.update_self]
    exact hcount ha
  · intro u hidle
    have hu : u ≠ t := fun hu => hidle w (by rw [hu])
    obtain ⟨ha, hi⟩ := h.idle u (hbefore u hu)
    exact ⟨(Function.update_of_ne hu _ _).trans ha, (Function.update_of_ne hu _ _).trans hi⟩
  · intro u e hm
    rcases h.required u e hm with hp | hi | ha
    · exact Or.inl hp
    · refine Or.inr (Or.inl ?_)
      dsimp only
      by_cases hu : u = t
      · subst hu; rw [Function.update_self]; exact hinit hi
      · rw [Function.update_of_ne hu]; exact hi
    · refine Or.inr (Or.inr ?_)
      dsimp only
      by_cases hu : u = t
      · subst hu; rw [Function.update_self]; exact hadv ha
      · rw [Function.update_of_ne hu]; exact ha

/-- A write whose call did not come back well: the transaction is no longer
active, so nothing is recorded. -/
theorem write_failed (h : ScopeInv status st) {t w : Nat} (hfailed : status t ≠ .active)
    (hprev : st.row.writer = none ∨ ∃ v, st.row.writer = some (t, v))
    (hshare : ∀ u ∈ st.row.sharers, u = t) (h1 : 1 ≤ w) (h2 : w < 2 ^ 64) :
    ScopeInv status { st with row := { st.row with writer := some (t, w) } } := by
  have hw := h.write hprev hshare h1 h2 (st.advances t) (st.initialized t) id id
    (fun ha => absurd ha hfailed)
  rw [Function.update_eq_self, Function.update_eq_self] at hw
  exact hw

/-- A share lock on the committed value. -/
theorem share (h : ScopeInv status st) {t v : Nat} (hw : st.row.writer = none)
    (hc : st.row.committed = some v) {required : List Nat}
    (hreq : ∀ e ∈ required, e ∈ st.required t ∨ e = v) :
    ScopeInv status { st with
      row := { st.row with sharers := t :: st.row.sharers }
      required := Function.update st.required t required } := by
  refine ⟨Row.Exclusive.share hw, fun hn => ?_, h.bounded, h.history, h.writer, h.idle, ?_⟩
  · rw [show st.row.committed = none from hn] at hc; cases hc
  intro u e hm
  have hold : e ∈ st.required u → Row.Pinned u e { st.row with sharers := t :: st.row.sharers } ∨
      st.initialized u = true ∨ st.advances u ≠ [] := by
    intro he
    rcases h.required u e he with hp | ho
    · exact Or.inl ⟨List.mem_cons_of_mem _ hp.1, hp.2⟩
    · exact Or.inr ho
  dsimp only at hm
  by_cases hu : u = t
  · subst hu
    rw [Function.update_self] at hm
    rcases hreq e hm with he | rfl
    · exact hold he
    · exact Or.inl ⟨List.mem_cons_self, hc⟩
  · rw [Function.update_of_ne hu] at hm
    exact hold hm

/-- A failed call leaves a transaction that is no longer active. -/
theorem fail (h : ScopeInv status st) (t : Nat) :
    ScopeInv (Function.update status t .failed) st := by
  apply h.mono
  intro u hu
  by_cases hut : u = t
  · subst hut; rw [Function.update_self] at hu; cases hu
  · rw [Function.update_of_ne hut] at hu; exact hu

theorem failed_ne {t : Nat} : Function.update status t .failed t ≠ TxStatus.active := by
  rw [Function.update_self]
  nofun

/-- `InitializeAuthority` at its scope. -/
theorem call_insert (h : ScopeInv status st) {t : Nat}
    {scope : AuthorityScope} {fault : Fault} {result : Except GoError AuthorityRecord}
    {row : Row Nat Nat} (hc : initializeAuthority t scope fault st.row = some (result, row)) :
    ScopeInv (Function.update status t (statusAfter (status t) result))
      (st.record row result fun st =>
        { st with initialized := Function.update st.initialized t true }) := by
  have hlone : st.row.writer = none → st.row.committed = none → ∀ u ∈ st.row.sharers, u = t := by
    intro _ hn u hu
    rw [h.unshared hn] at hu
    cases hu
  rcases authorityQuery_cases hc with ⟨err, rfl, hrow⟩ | ⟨record, rfl, hrow⟩
  · have hf := h.fail t
    rcases hrow with rfl | ⟨answer, hs⟩
    · exact hf
    · rcases Row.insert_cases hs with ⟨_, rfl⟩ | ⟨_, hw, hn, rfl⟩
      · exact hf
      · exact hf.write_failed failed_ne (Or.inl hw) (hlone hw hn) (le_refl _) (by norm_num)
  · rcases Row.insert_cases hrow with ⟨hnone, _⟩ | ⟨hv, hw, hn, rfl⟩
    · cases hnone
    · have hadv := (h.idle t (fun w => by rw [hw]; nofun)).1
      have hwrite := h.write (Or.inl hw) (hlone hw hn) (le_refl 1) (by norm_num) (st.advances t) true
        id (fun _ => rfl) (fun _ => by
          rw [hadv, ScopeState.base, hn]
          exact ⟨rfl, rfl, fun _ => rfl, fun hc => absurd rfl hc⟩)
      rw [Function.update_eq_self] at hwrite
      rw [statusAfter, Function.update_eq_self]
      exact hwrite

/-- `AdvanceAuthority` at its scope. -/
theorem call_update (h : ScopeInv status st) {t : Nat} (ha : status t = .active)
    {scope : AuthorityScope} {expected : UInt64} {fault : Fault}
    {result : Except GoError AuthorityRecord} {row : Row Nat Nat}
    (hc : advanceAuthority t scope expected fault st.row = some (result, row)) :
    ScopeInv (Function.update status t (statusAfter (status t) result))
      (st.record row result fun st =>
        { st with advances := Function.update st.advances t (st.advances t ++ [expected.toNat]) }) := by
  have hf := h.fail t
  unfold advanceAuthority at hc
  split at hc
  · cases hc; exact hf
  · split at hc
    · cases hc; exact hf
    · rename_i _ hmax
      have hlt : expected.toNat + 1 < 2 ^ 64 := by
        have := expected.toNat_lt
        omega
      have hpos : 1 ≤ expected.toNat + 1 := by omega
      -- in both cases the update could only run alone on the row
      have hprev : ∀ {v : Nat}, (st.row.writer = some (t, v) ∨ (st.row.writer = none ∧
          st.row.committed = some v ∧ ∀ u ∈ st.row.sharers, u = t)) →
          (st.row.writer = none ∨ ∃ v, st.row.writer = some (t, v)) ∧
            ∀ u ∈ st.row.sharers, u = t := by
        intro v hv
        rcases hv with hw | ⟨hw, _, hs⟩
        · exact ⟨Or.inr ⟨v, hw⟩, h.exclusive t v hw⟩
        · exact ⟨Or.inl hw, hs⟩
      rcases authorityQuery_cases hc with ⟨err, rfl, hrow⟩ | ⟨record, rfl, hrow⟩
      · rcases hrow with rfl | ⟨answer, hs⟩
        · exact hf
        · rcases Row.update_cases hs with ⟨_, rfl⟩ | ⟨v, hp, _, rfl, hv⟩
          · exact hf
          · have hve : v = expected.toNat := by simpa using hp
            subst hve
            obtain ⟨hpr, hsh⟩ := hprev hv
            exact hf.write_failed failed_ne hpr hsh hpos hlt
      · rcases Row.update_cases hrow with ⟨hnone, _⟩ | ⟨v, hp, _, rfl, hv⟩
        · cases hnone
        · have hve : v = expected.toNat := by simpa using hp
          subst hve
          obtain ⟨hpr, hsh⟩ := hprev hv
          have hwrite := h.write hpr hsh hpos hlt (st.advances t ++ [expected.toNat])
            (st.initialized t) (fun _ => by simp) id (fun _ => ?_)
          · rw [Function.update_eq_self] at hwrite
            rw [statusAfter, Function.update_eq_self]
            exact hwrite
          · -- the epoch it advances from is the base plus the earlier advances
            have hacc : expected.toNat = st.base + (st.advances t).length ∧
                st.advances t = List.range' st.base (st.advances t).length ∧
                (st.row.committed = none → st.initialized t = true) := by
              rcases hv with hw | ⟨hw, hcom, _⟩
              · obtain ⟨_, _, hcount⟩ := h.writer t _ hw
                obtain ⟨h1, h2, h3, _⟩ := hcount ha
                exact ⟨h1, h2, h3⟩
              · obtain ⟨hadv, _⟩ := h.idle t (fun w => by rw [hw]; nofun)
                rw [hadv, ScopeState.base, hcom]
                exact ⟨rfl, rfl, nofun⟩
            obtain ⟨hexp, hrange, hini⟩ := hacc
            refine ⟨?_, ?_, hini, fun _ => by simp⟩
            · rw [List.length_append, List.length_singleton]
              omega
            · rw [List.length_append, List.length_singleton, List.range'_1_concat, ← hrange, ← hexp]

/-- `RequireAuthority` at its scope. -/
theorem call_select (h : ScopeInv status st) {t : Nat} (ha : status t = .active)
    {scope : AuthorityScope} {expected : UInt64} {fault : Fault} {result : Except GoError Unit}
    {row : Row Nat Nat}
    (hc : requireAuthority t scope expected fault st.row = some (result, row)) :
    ScopeInv (Function.update status t (statusAfter (status t) result))
      (st.record row result fun st =>
        { st with required := Function.update st.required t (st.required t ++ [expected.toNat]) }) := by
  have hf := h.fail t
  -- a lock that is not recorded does no harm
  have hlock : ∀ {answer : Option Nat} {row' : Row Nat Nat},
      st.row.selectForShare t = some (answer, row') →
      ScopeInv (Function.update status t .failed) { st with row := row' } := by
    intro answer row' hs
    rcases Row.selectForShare_cases hs with ⟨_, rfl⟩ | ⟨_, _, _, rfl⟩ | ⟨v, _, hw, hcom, rfl⟩
    · exact hf
    · exact hf
    · have hshare := hf.share (t := t) hw hcom (fun e he => Or.inl he)
      rw [Function.update_eq_self] at hshare
      exact hshare
  unfold requireAuthority at hc
  split at hc
  · cases hc; exact hf
  · obtain ⟨⟨answer, row'⟩, hq, he⟩ := Option.map_eq_some_iff.mp hc
    rcases authorityQuery_cases hq with ⟨err, rfl, hrow⟩ | ⟨record, rfl, hrow⟩
    · cases he
      rcases hrow with rfl | ⟨answer, hs⟩
      · exact hf
      · exact hlock hs
    · dsimp only at he
      split at he
      · cases he
        exact hlock hrow
      · rename_i hver
        cases he
        have hver' : record.version = expected := not_not.mp hver
        rw [statusAfter, Function.update_eq_self]
        rcases Row.selectForShare_cases hrow with ⟨hn, _⟩ | ⟨v, hv, hw, rfl⟩ | ⟨v, hv, hw, hcom, rfl⟩
        · cases hn
        · -- its own write: nothing is pinned, and the writer is on record
          obtain ⟨_, _, hcount⟩ := h.writer t v hw
          obtain ⟨_, _, hini, hadv⟩ := hcount ha
          refine ⟨h.exclusive, h.unshared, h.bounded, h.history, h.writer, h.idle, ?_⟩
          intro u e hm
          by_cases hu : u = t
          · subst hu
            refine Or.inr ?_
            by_cases hcom : st.row.committed = none
            · exact Or.inl (hini hcom)
            · exact Or.inr (hadv hcom)
          · have hm' : e ∈ st.required u := by
              have hm'' : e ∈ Function.update st.required t (st.required t ++ [expected.toNat]) u := hm
              rw [Function.update_of_ne hu] at hm''
              exact hm''
            exact h.required u e hm'
        · injection hv with hv
          refine h.share hw hcom ?_
          intro e hm
          rcases List.mem_append.mp hm with hm | hm
          · exact Or.inl hm
          · rw [List.mem_singleton] at hm
            rw [hm, ← hver', hv]
            exact Or.inr rfl

end ScopeInv

/-! ### Every run -/

def AuthorityInv (s : AuthorityState) : Prop := ∀ scope, ScopeInv s.status (s.scopes scope)

/-- A call changes its own scope and perhaps the status of its transaction. -/
theorem AuthorityInv.call {α : Type} {s s' : AuthorityState} (h : AuthorityInv s) {t : Nat}
    {scope : AuthorityScope} {call : Row Nat Nat → Option (Except GoError α × Row Nat Nat)}
    {success : ScopeState → ScopeState} (hs : s.call t scope call success = some s')
    (hcall : ∀ result row, s.status t = .active →
      call (s.scopes scope).row = some (result, row) →
      ScopeInv (Function.update s.status t (statusAfter (s.status t) result))
        ((s.scopes scope).record row result success)) : AuthorityInv s' := by
  unfold AuthorityState.call at hs
  split at hs
  · rename_i hactive
    obtain ⟨⟨result, row⟩, hc, rfl⟩ := Option.map_eq_some_iff.mp hs
    intro scope'
    dsimp only
    by_cases he : scope' = scope
    · subst he
      rw [Function.update_self]
      exact hcall result row hactive hc
    · rw [Function.update_of_ne he]
      cases result with
      | ok _ => rw [statusAfter, Function.update_eq_self]; exact h scope'
      | error _ => exact (h scope').fail t
  · cases hs

theorem AuthorityInv.step {s s' : AuthorityState} (h : AuthorityInv s) {action : AuthorityAction}
    (hs : authorityStep s action = some s') : AuthorityInv s' := by
  cases action with
  | initializeAuthority t scope fault =>
    exact h.call hs (fun result row _ hc => (h scope).call_insert hc)
  | advanceAuthority t scope expected fault =>
    exact h.call hs (fun result row ha hc => (h scope).call_update ha hc)
  | requireAuthority t scope expected fault =>
    exact h.call hs (fun result row ha hc => (h scope).call_select ha hc)
  | commit t =>
    rw [authorityStep] at hs
    split at hs
    · rename_i ha
      cases hs
      exact fun scope => (h scope).finish t true (fun _ => ha)
    · cases hs
  | abort t =>
    rw [authorityStep] at hs
    split at hs
    · cases hs
      exact fun scope => (h scope).finish t false nofun
    · cases hs

theorem AuthorityInv.of_reachable {s : AuthorityState} (hs : authoritySystem.Reachable s) :
    AuthorityInv s := by
  refine System.Reachable.invariant ?_ ?_ hs
  · rintro s rfl scope
    exact ScopeInv.initial _
  · intro s a s' _ hinv hstep
    exact hinv.step hstep

/-- How a commit with `n` advances changes an epoch: a committed epoch grows by
`n`; an absent one stays absent, or starts at one and grows by `n`. -/
def Grows (before after : Option Nat) (n : Nat) : Prop :=
  match before with
  | some v => after = some (v + n)
  | none => (after = none ∧ n = 0) ∨ after = some (1 + n)

theorem ScopeInv.grows {status : Nat → TxStatus} {st : ScopeState} (h : ScopeInv status st) {t : Nat}
    (ha : status t = .active) :
    Grows st.row.committed (st.finish t true).row.committed (st.advances t).length := by
  show Grows st.row.committed (st.row.release t true).committed _
  rcases st.row.release_cases t true with ⟨w, hw, he⟩ | ⟨hnw, he⟩
  · obtain ⟨_, _, hcount⟩ := h.writer t w hw
    obtain ⟨hval, _⟩ := hcount ha
    rw [he]
    unfold ScopeState.base at hval
    cases hc : st.row.committed with
    | none =>
      rw [hc] at hval
      exact Or.inr (congrArg some hval)
    | some v =>
      rw [hc] at hval
      exact congrArg some hval
  · obtain ⟨hadv, _⟩ := h.idle t hnw
    rw [he, hadv]
    cases hc : st.row.committed with
    | none => exact Or.inl ⟨rfl, rfl⟩
    | some v => rfl

theorem authorityQuery_committed {scope : AuthorityScope} {fault : Fault} {row row' : Row Nat Nat}
    {statement : Row Nat Nat → Option (Option Nat × Row Nat Nat)} {missing : GoError}
    {result : Except GoError AuthorityRecord}
    (hstatement : ∀ answer row', statement row = some (answer, row') →
      row'.committed = row.committed)
    (h : authorityQuery scope fault row statement missing = some (result, row')) :
    row'.committed = row.committed := by
  rcases authorityQuery_cases h with ⟨_, _, rfl | ⟨_, hs⟩⟩ | ⟨_, _, hs⟩
  · rfl
  · exact hstatement _ _ hs
  · exact hstatement _ _ hs

theorem call_committed {α : Type} {s s' : AuthorityState} {t : Nat} {scope : AuthorityScope}
    {call : Row Nat Nat → Option (Except GoError α × Row Nat Nat)}
    {success : ScopeState → ScopeState} (hsuccess : ∀ st, (success st).row = st.row)
    (hcall : ∀ row result row', call row = some (result, row') → row'.committed = row.committed)
    (hs : s.call t scope call success = some s') (scope' : AuthorityScope) :
    (s'.scopes scope').row.committed = (s.scopes scope').row.committed := by
  unfold AuthorityState.call at hs
  split at hs
  · obtain ⟨⟨result, row⟩, hc, rfl⟩ := Option.map_eq_some_iff.mp hs
    dsimp only
    by_cases he : scope' = scope
    · subst he
      rw [Function.update_self, ← hcall _ _ _ hc]
      cases result with
      | ok _ => rw [ScopeState.record, hsuccess]
      | error _ => rfl
    · rw [Function.update_of_ne he]
  · cases hs

/-- Only a commit changes a committed epoch. -/
theorem authorityStep_committed {s s' : AuthorityState} {action : AuthorityAction}
    (hs : authorityStep s action = some s') (hne : ∀ t, action ≠ .commit t)
    (scope : AuthorityScope) :
    (s'.scopes scope).row.committed = (s.scopes scope).row.committed := by
  cases action with
  | initializeAuthority t scope' fault =>
    refine call_committed ?_ ?_ hs scope
    · intro st; rfl
    · intro row result row' hc
      exact authorityQuery_committed (fun _ _ => Row.insert_committed) hc
  | advanceAuthority t scope' expected fault =>
    refine call_committed ?_ ?_ hs scope
    · intro st; rfl
    · intro row result row' hc
      unfold advanceAuthority at hc
      split at hc
      · cases hc; rfl
      · split at hc
        · cases hc; rfl
        · exact authorityQuery_committed (fun _ _ => Row.update_committed) hc
  | requireAuthority t scope' expected fault =>
    refine call_committed ?_ ?_ hs scope
    · intro st; rfl
    · intro row result row' hc
      unfold requireAuthority at hc
      split at hc
      · cases hc; rfl
      · obtain ⟨⟨answer, row''⟩, hq, he⟩ := Option.map_eq_some_iff.mp hc
        have hrow : row'' = row' := by
          dsimp only at he
          split at he
          · cases he; rfl
          · split at he <;> cases he <;> rfl
        rw [← hrow]
        exact authorityQuery_committed (fun _ _ => Row.selectForShare_committed) hq
  | commit t => exact absurd rfl (hne t)
  | abort t =>
    rw [authorityStep] at hs
    split at hs
    · cases hs
      show ((s.scopes scope).row.release t false).committed = _
      rcases (s.scopes scope).row.release_cases t false with ⟨_, _, he⟩ | ⟨_, he⟩ <;> rw [he]
      rfl
    · cases hs

/-- **The epoch protocol.**  In every reachable state and for every scope: the
committed epoch is a positive 64-bit number; a commit adds to it the number of
the transaction's successful advances, or creates it at one plus that number,
and nothing else changes it; no two committed advances start from the same
epoch; and what a transaction required with success is the committed epoch
until it ends, unless it initialized or advanced the scope itself. -/
theorem authority_epochs {s : AuthorityState} (hs : authoritySystem.Reachable s)
    (scope : AuthorityScope) :
    (∀ v, (s.scopes scope).row.committed = some v → 1 ≤ v ∧ v ≤ 2 ^ 64 - 1) ∧
    (∀ t s', authorityStep s (.commit t) = some s' →
      Grows (s.scopes scope).row.committed (s'.scopes scope).row.committed
        ((s.scopes scope).advances t).length) ∧
    (∀ action s', authorityStep s action = some s' → (∀ t, action ≠ .commit t) →
      (s'.scopes scope).row.committed = (s.scopes scope).row.committed) ∧
    (s.scopes scope).committedAdvances.Nodup ∧
    ∀ t, ∀ e ∈ (s.scopes scope).required t, (s.scopes scope).initialized t = false →
      (s.scopes scope).advances t = [] → (s.scopes scope).row.committed = some e := by
  have h := AuthorityInv.of_reachable hs scope
  refine ⟨?_, ?_, fun _ _ hstep hne => authorityStep_committed hstep hne scope, ?_, ?_⟩
  · intro v hv
    have := h.bounded v hv
    omega
  · intro t s' hstep
    rw [authorityStep] at hstep
    split at hstep
    · rename_i ha
      cases hstep
      exact h.grows ha
    · cases hstep
  · rw [h.history]
    exact List.nodup_range'
  · intro t e he hinit hadv
    rcases h.required t e he with hp | hi | ha
    · exact hp.2
    · rw [hinit] at hi; cases hi
    · exact absurd hadv ha

/-- A scope for the runs below. -/
def sampleScope : AuthorityScope := ⟨str "tenant", str "orders", str "user-1"⟩

/-- One transaction initializes a scope, another requires and advances it. -/
theorem authority_epochs_run : ∃ s, authoritySystem.Reachable s ∧
    (s.scopes sampleScope).row.committed = some 1 ∧ (s.scopes sampleScope).required 1 = [1] ∧
    ∀ s', authorityStep s (.commit 1) = some s' →
      Grows (some 1) (s'.scopes sampleScope).row.committed 1 := by
  have hrun : authoritySystem.run {} [.initializeAuthority 0 sampleScope .none, .commit 0,
      .requireAuthority 1 sampleScope 1 .none, .advanceAuthority 1 sampleScope 1 .none]
      = some _ := rfl
  have hreach := System.Reachable.run (.init rfl) hrun
  exact ⟨_, hreach, rfl, rfl, (authority_epochs hreach sampleScope).2.1 1⟩

/-- A transaction that initializes a scope and then advances it commits the
absent epoch straight to two, and one that initializes a scope may require
epoch one while nothing is committed. -/
theorem authority_epochs_absent :
    (∃ s s', authoritySystem.Reachable s ∧ authorityStep s (.commit 0) = some s' ∧
      (s.scopes sampleScope).row.committed = none ∧
      (s'.scopes sampleScope).row.committed = some 2) ∧
    ∃ s, authoritySystem.Reachable s ∧ (s.scopes sampleScope).required 0 = [1] ∧
      (s.scopes sampleScope).advances 0 = [] ∧ (s.scopes sampleScope).row.committed = none := by
  have hadvance : authoritySystem.run {} [.initializeAuthority 0 sampleScope .none,
      .advanceAuthority 0 sampleScope 1 .none] = some _ := rfl
  have hrequire : authoritySystem.run {} [.initializeAuthority 0 sampleScope .none,
      .requireAuthority 0 sampleScope 1 .none] = some _ := rfl
  exact ⟨⟨_, _, System.Reachable.run (.init rfl) hadvance, rfl, rfl, rfl⟩,
    ⟨_, System.Reachable.run (.init rfl) hrequire, rfl, rfl, rfl⟩⟩

end Authorization.Postgres
