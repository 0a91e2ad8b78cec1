import Mathlib

/-!
# Maps with sorted keys

A finite map as the list of its entries in strictly increasing order of keys, so
two maps with the same entries are equal.  It is what a map is to a reader that
lists it in order.

Inserting the entries of a map one by one, in order, builds the map
(`insertAll_entries`).
-/

namespace Authorization.Foundation

structure SortedMap (κ α : Type*) [LT κ] where
  entries : List (κ × α)
  sorted : entries.Pairwise fun e e' => e.1 < e'.1
deriving DecidableEq

namespace SortedMap

variable {κ α : Type*} [LinearOrder κ]

instance : EmptyCollection (SortedMap κ α) := ⟨⟨[], List.Pairwise.nil⟩⟩

@[ext] theorem ext {m m' : SortedMap κ α} (h : m.entries = m'.entries) : m = m' := by
  cases m
  cases m'
  cases h
  rfl

def insertEntry (key : κ) (value : α) : List (κ × α) → List (κ × α)
  | [] => [(key, value)]
  | entry :: rest =>
    if key < entry.1 then (key, value) :: entry :: rest
    else if key = entry.1 then (key, value) :: rest
    else entry :: insertEntry key value rest

theorem mem_insertEntry {key : κ} {value : α} {entry : κ × α} : ∀ {entries : List (κ × α)},
    entry ∈ insertEntry key value entries → entry = (key, value) ∨ entry ∈ entries := by
  intro entries
  induction entries with
  | nil => intro h; exact Or.inl (List.mem_singleton.mp h)
  | cons first rest ih =>
    intro h
    rw [insertEntry] at h
    split at h
    · exact List.mem_cons.mp h
    · split at h
      · exact (List.mem_cons.mp h).imp_right (List.mem_cons_of_mem _)
      · rcases List.mem_cons.mp h with rfl | h
        · exact Or.inr List.mem_cons_self
        · exact (ih h).imp_right (List.mem_cons_of_mem _)

theorem sorted_insertEntry (key : κ) (value : α) : ∀ {entries : List (κ × α)},
    (entries.Pairwise fun e e' => e.1 < e'.1) →
    (insertEntry key value entries).Pairwise fun e e' => e.1 < e'.1 := by
  intro entries
  induction entries with
  | nil => intro _; exact List.pairwise_singleton _ _
  | cons first rest ih =>
    intro h
    obtain ⟨hfirst, hrest⟩ := List.pairwise_cons.mp h
    rw [insertEntry]
    split
    · rename_i hlt
      refine List.pairwise_cons.mpr ⟨?_, h⟩
      intro entry he
      rcases List.mem_cons.mp he with rfl | he
      · exact hlt
      · exact hlt.trans (hfirst entry he)
    · rename_i hnot
      split
      · rename_i heq
        exact List.pairwise_cons.mpr ⟨fun entry he => heq ▸ hfirst entry he, hrest⟩
      · rename_i hne
        refine List.pairwise_cons.mpr ⟨?_, ih hrest⟩
        intro entry he
        rcases mem_insertEntry he with rfl | he
        · exact lt_of_le_of_ne (not_lt.mp hnot) (Ne.symm hne)
        · exact hfirst entry he

/-- The map with the key set to the value. -/
def insert (m : SortedMap κ α) (key : κ) (value : α) : SortedMap κ α :=
  ⟨insertEntry key value m.entries, sorted_insertEntry key value m.sorted⟩

def insertAll (m : SortedMap κ α) (entries : List (κ × α)) : SortedMap κ α :=
  entries.foldl (fun m entry => m.insert entry.1 entry.2) m

theorem mem_entries_insertAll {entry : κ × α} : ∀ {entries : List (κ × α)} {m : SortedMap κ α},
    entry ∈ (m.insertAll entries).entries → entry ∈ m.entries ∨ entry ∈ entries := by
  intro entries
  induction entries with
  | nil => intro m h; exact Or.inl h
  | cons first rest ih =>
    intro m h
    rcases ih (m := m.insert first.1 first.2) h with h | h
    · rcases mem_insertEntry h with rfl | h
      · exact Or.inr List.mem_cons_self
      · exact Or.inl h
    · exact Or.inr (List.mem_cons_of_mem _ h)

/-- A key above all others goes to the end. -/
theorem insertEntry_of_lt {key : κ} {value : α} : ∀ {entries : List (κ × α)},
    (∀ entry ∈ entries, entry.1 < key) →
    insertEntry key value entries = entries ++ [(key, value)] := by
  intro entries
  induction entries with
  | nil => intro _; rfl
  | cons first rest ih =>
    intro h
    have hfirst := h first List.mem_cons_self
    rw [insertEntry, if_neg (not_lt.mpr hfirst.le), if_neg hfirst.ne',
      ih fun entry he => h entry (List.mem_cons_of_mem _ he)]
    rfl

theorem entries_insertAll : ∀ {entries : List (κ × α)} {m : SortedMap κ α},
    ((m.entries ++ entries).Pairwise fun e e' => e.1 < e'.1) →
    (m.insertAll entries).entries = m.entries ++ entries := by
  intro entries
  induction entries with
  | nil => intro m _; exact (List.append_nil _).symm
  | cons entry rest ih =>
    intro m h
    have hlast : (m.insert entry.1 entry.2).entries = m.entries ++ [entry] :=
      insertEntry_of_lt fun other ho =>
        (List.pairwise_append.mp h).2.2 other ho entry List.mem_cons_self
    have hrest : (m.insert entry.1 entry.2).entries ++ rest = m.entries ++ entry :: rest := by
      rw [hlast, List.append_assoc]
      rfl
    have hinsert := ih (m := m.insert entry.1 entry.2) (by rw [hrest]; exact h)
    rw [hrest] at hinsert
    exact hinsert

/-- **The entries of a map, inserted in order, give the map.** -/
theorem insertAll_entries (m : SortedMap κ α) : (∅ : SortedMap κ α).insertAll m.entries = m :=
  ext (entries_insertAll m.sorted)

end SortedMap

end Authorization.Foundation
