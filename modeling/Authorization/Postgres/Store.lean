import Authorization.Policy.Manifest

/-!
# The manifest store

`postgres/store.go` over the one row of `authorization_policy_manifests`.  Both
statements are functions of the row; `Load` and `Update` are what the calls do
before and after them.  What the `jsonb` column returns for a text that was
written to it is a parameter, `column`.
-/

namespace Authorization.Postgres

open Authorization.Foundation Authorization.Core Authorization.Policy

structure ManifestRow where
  revision : Revision
  manifest : Bytes

/-- `loadManifestSQL`. -/
def loadManifest (row : Option ManifestRow) : Option Bytes := row.map (·.manifest)

/-- `updateManifestSQL`: the row is replaced when it has the expected revision and
an older one than the new, and inserted when there is none and none was expected.
The answer is the stored manifest, or no row. -/
def updateManifest (column : Bytes → Bytes) (expected revision : Revision) (encoded : Bytes) :
    Option ManifestRow → Option Bytes × Option ManifestRow
  | some row =>
    if row.revision = expected ∧ row.revision < revision then
      (some (column encoded), some ⟨revision, column encoded⟩)
    else (none, some row)
  | none =>
    if expected = 0 then (some (column encoded), some ⟨revision, column encoded⟩) else (none, none)

namespace Store

/-- `Load` after the statement. -/
def load (answer : Option Bytes) : Except GoError Manifest :=
  match answer with
  | none => .error (.sentinel .postgresErrNotInitialized)
  | some encoded => decode encoded

/-- `Update` up to the statement. -/
def prepare (expected : Revision) (next : Manifest) : Except GoError Bytes :=
  match encode next with
  | .error err => .error err
  | .ok encoded =>
    if next.revision ≤ expected then .error (.sentinel .postgresErrRevisionNotMonotonic)
    else .ok encoded

/-- `Update` after the statement. -/
def finish (answer : Option Bytes) : Except GoError Manifest :=
  match answer with
  | none => .error (.sentinel .postgresErrRevisionConflict)
  | some stored => decode stored

end Store

/-- The revision of the row, zero for none. -/
def storedRevision (row : Option ManifestRow) : Revision := row.elim 0 (·.revision)

/-- **The statement writes exactly on the revision it expects** and leaves the row
alone otherwise. -/
theorem updateManifest_cases (column : Bytes → Bytes) (encoded : Bytes) (row : Option ManifestRow)
    {expected revision : Revision} (hnew : expected < revision) :
    (storedRevision row = expected ∧ updateManifest column expected revision encoded row
        = (some (column encoded), some ⟨revision, column encoded⟩)) ∨
    (storedRevision row ≠ expected ∧
      updateManifest column expected revision encoded row = (none, row)) := by
  cases row with
  | none =>
    by_cases hzero : expected = 0
    · exact Or.inl ⟨hzero.symm, by rw [updateManifest, if_pos hzero]⟩
    · exact Or.inr ⟨fun h => hzero h.symm, by rw [updateManifest, if_neg hzero]⟩
  | some r =>
    by_cases heq : r.revision = expected
    · exact Or.inl ⟨heq, by rw [updateManifest, if_pos ⟨heq, heq ▸ hnew⟩]⟩
    · exact Or.inr ⟨heq, by rw [updateManifest, if_neg fun h => heq h.1]⟩

theorem Store.prepare_eq_ok {next : Manifest} (h : Store.prepare expected next = .ok encoded) :
    encode next = .ok encoded ∧ expected < next.revision := by
  unfold Store.prepare at h
  split at h
  · cases h
  · rename_i text hencode
    split at h
    · cases h
    · rename_i hnot
      cases h
      exact ⟨hencode, not_le.mp hnot⟩

end Authorization.Postgres
