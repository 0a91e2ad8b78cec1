import Mathlib

/-!
# A row under row-level locks

One row of a table as concurrent transactions see it under read committed: the
committed value, the value its one uncommitted writer has given it, and the
transactions that hold a share lock.  A statement answers with the row it
returns, or is not enabled while it would wait; a statement that waited is
evaluated again, on the row as it is then, when it becomes enabled.

A share lock pins the committed value: no statement of anybody changes it until
the holder ends (`Pinned`).
-/

namespace Authorization.Foundation

structure Row (τ α : Type*) where
  committed : Option α := none
  /-- The transaction that wrote the row, with the value it wrote last. -/
  writer : Option (τ × α) := none
  /-- The holders of a share lock. -/
  sharers : List τ := []

namespace Row

variable {τ α : Type*} [DecidableEq τ]

/-- `INSERT … ON CONFLICT DO NOTHING RETURNING`: waits for another writer. -/
def insert (t : τ) (v : α) (row : Row τ α) : Option (Option α × Row τ α) :=
  match row.writer with
  | some (u, _) => if u = t then some (none, row) else none
  | none =>
    match row.committed with
    | some _ => some (none, row)
    | none => some (some v, { row with writer := some (t, v) })

/-- `UPDATE … SET v = f v WHERE p v RETURNING`: sees its own writes or the
committed value; on a match it waits for another writer and for every other
share lock. -/
def update (t : τ) (p : α → Bool) (f : α → α) (row : Row τ α) : Option (Option α × Row τ α) :=
  match row.writer with
  | some (u, v) =>
    if u = t then
      if p v then some (some (f v), { row with writer := some (t, f v) }) else some (none, row)
    else if row.committed.any p then none else some (none, row)
  | none =>
    match row.committed with
    | none => some (none, row)
    | some v =>
      if p v then
        if row.sharers.all (· = t) then some (some (f v), { row with writer := some (t, f v) })
        else none
      else some (none, row)

/-- `SELECT … FOR SHARE`: sees its own writes or the committed value, and waits
for another writer of a row it can see. -/
def selectForShare (t : τ) (row : Row τ α) : Option (Option α × Row τ α) :=
  match row.writer with
  | some (u, v) =>
    if u = t then some (some v, row)
    else if row.committed.isSome then none else some (none, row)
  | none =>
    match row.committed with
    | none => some (none, row)
    | some v => some (some v, { row with sharers := t :: row.sharers })

/-- The end of a transaction: its write takes effect or vanishes, its locks go. -/
def release (t : τ) (commit : Bool) (row : Row τ α) : Row τ α :=
  let sharers := row.sharers.filter (· ≠ t)
  match row.writer with
  | some (u, v) =>
    if u = t then ⟨if commit then some v else row.committed, none, sharers⟩
    else { row with sharers := sharers }
  | none => { row with sharers := sharers }

/-- Nobody else holds a share lock on a row that is being written. -/
def Exclusive (row : Row τ α) : Prop :=
  ∀ t v, row.writer = some (t, v) → ∀ u ∈ row.sharers, u = t

/-- A share lock on a committed value. -/
def Pinned (t : τ) (v : α) (row : Row τ α) : Prop := t ∈ row.sharers ∧ row.committed = some v

/-! ### What the statements do -/

section Statements

variable {t : τ} {v : α} {p : α → Bool} {f : α → α} {answer : Option α} {row row' : Row τ α}

/-- An insert leaves the row alone, or writes a row that nobody has. -/
theorem insert_cases (h : row.insert t v = some (answer, row')) :
    (answer = none ∧ row' = row) ∨
      (answer = some v ∧ row.writer = none ∧ row.committed = none ∧
        row' = { row with writer := some (t, v) }) := by
  unfold insert at h
  split at h
  · split at h
    · cases h; exact Or.inl ⟨rfl, rfl⟩
    · cases h
  · rename_i hw
    split at h
    · cases h; exact Or.inl ⟨rfl, rfl⟩
    · rename_i hc
      cases h
      exact Or.inr ⟨rfl, hw, hc, rfl⟩

/-- An update leaves the row alone, or replaces its own value, or replaces the
committed one while nobody else holds a lock. -/
theorem update_cases (h : row.update t p f = some (answer, row')) :
    (answer = none ∧ row' = row) ∨
      ∃ v, p v = true ∧ answer = some (f v) ∧ row' = { row with writer := some (t, f v) } ∧
        (row.writer = some (t, v) ∨
          (row.writer = none ∧ row.committed = some v ∧ ∀ u ∈ row.sharers, u = t)) := by
  unfold update at h
  split at h
  · rename_i u v hw
    split at h
    · rename_i hu
      subst hu
      split at h
      · rename_i hp
        cases h
        exact Or.inr ⟨v, hp, rfl, rfl, Or.inl hw⟩
      · cases h; exact Or.inl ⟨rfl, rfl⟩
    · split at h
      · cases h
      · cases h; exact Or.inl ⟨rfl, rfl⟩
  · rename_i hw
    split at h
    · cases h; exact Or.inl ⟨rfl, rfl⟩
    · rename_i v hc
      split at h
      · rename_i hp
        split at h
        · rename_i hall
          cases h
          refine Or.inr ⟨v, hp, rfl, rfl, Or.inr ⟨hw, hc, ?_⟩⟩
          intro u hu
          simpa using List.all_eq_true.mp hall u hu
        · cases h
      · cases h; exact Or.inl ⟨rfl, rfl⟩

/-- A locking read finds nothing, its own value, or pins the committed one. -/
theorem selectForShare_cases (h : row.selectForShare t = some (answer, row')) :
    (answer = none ∧ row' = row) ∨
      (∃ v, answer = some v ∧ row.writer = some (t, v) ∧ row' = row) ∨
      ∃ v, answer = some v ∧ row.writer = none ∧ row.committed = some v ∧
        row' = { row with sharers := t :: row.sharers } := by
  unfold selectForShare at h
  split at h
  · rename_i u v hw
    split at h
    · rename_i hu
      subst hu
      cases h
      exact Or.inr (Or.inl ⟨v, rfl, hw, rfl⟩)
    · split at h
      · cases h
      · cases h; exact Or.inl ⟨rfl, rfl⟩
  · rename_i hw
    split at h
    · cases h; exact Or.inl ⟨rfl, rfl⟩
    · rename_i v hc
      cases h
      exact Or.inr (Or.inr ⟨v, rfl, hw, hc, rfl⟩)

/-! No statement changes the committed value. -/

theorem insert_committed (h : row.insert t v = some (answer, row')) :
    row'.committed = row.committed := by
  rcases insert_cases h with ⟨_, rfl⟩ | ⟨_, _, _, rfl⟩ <;> rfl

theorem update_committed (h : row.update t p f = some (answer, row')) :
    row'.committed = row.committed := by
  rcases update_cases h with ⟨_, rfl⟩ | ⟨_, _, _, rfl, _⟩ <;> rfl

theorem selectForShare_committed (h : row.selectForShare t = some (answer, row')) :
    row'.committed = row.committed := by
  rcases selectForShare_cases h with ⟨_, rfl⟩ | ⟨_, _, _, rfl⟩ | ⟨_, _, _, _, rfl⟩ <;> rfl

/-- The end of a transaction commits its write or leaves the committed value. -/
theorem release_cases (t : τ) (commit : Bool) (row : Row τ α) :
    (∃ v, row.writer = some (t, v) ∧
        row.release t commit = ⟨if commit then some v else row.committed, none,
          row.sharers.filter (· ≠ t)⟩) ∨
      ((∀ v, row.writer ≠ some (t, v)) ∧
        row.release t commit = { row with sharers := row.sharers.filter (· ≠ t) }) := by
  unfold release
  dsimp only
  split
  · rename_i u v hw
    split
    · rename_i hu
      subst hu
      exact Or.inl ⟨v, hw, rfl⟩
    · rename_i hu
      refine Or.inr ⟨?_, rfl⟩
      intro v' hv'
      rw [hw] at hv'
      cases hv'
      exact hu rfl
  · rename_i hw
    exact Or.inr ⟨fun v => by rw [hw]; nofun, rfl⟩

end Statements

/-! ### Exclusion -/

section Exclusion

variable {t : τ} {row : Row τ α}

omit [DecidableEq τ] in
/-- Writing keeps exclusion when no other lock is there. -/
theorem Exclusive.write {v : α} (h : ∀ u ∈ row.sharers, u = t) :
    Exclusive { row with writer := some (t, v) } := by
  intro t' v' he u hu
  cases he
  exact h u hu

omit [DecidableEq τ] in
theorem Exclusive.share (h : row.writer = none) :
    Exclusive { row with sharers := t :: row.sharers } := by
  intro t' v' he
  rw [show row.writer = some (t', v') from he] at h
  cases h

theorem Exclusive.release (h : row.Exclusive) (t : τ) (commit : Bool) :
    (row.release t commit).Exclusive := by
  rcases release_cases t commit row with ⟨v, _, he⟩ | ⟨_, he⟩
  · rw [he]; intro _ _ hw; cases hw
  · rw [he]
    intro t' v' hw u hu
    exact h t' v' hw u (List.mem_filter.mp hu).1

/-- **A share lock outlives the end of everybody else**: who could commit
another value would have to hold the row alone. -/
theorem Pinned.release {v : α} (hx : row.Exclusive) (h : row.Pinned t v) {u : τ} (hne : t ≠ u)
    (commit : Bool) : (row.release u commit).Pinned t v := by
  have hmem : t ∈ row.sharers.filter (· ≠ u) := List.mem_filter.mpr ⟨h.1, by simpa using hne⟩
  rcases release_cases u commit row with ⟨w, hw, he⟩ | ⟨_, he⟩
  · exact absurd (hx u w hw t h.1) hne
  · rw [he]
    exact ⟨hmem, h.2⟩

end Exclusion

end Row

end Authorization.Foundation
