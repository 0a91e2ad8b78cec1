import Mathlib

/-!
# Byte strings

A Go string is a list of bytes with no promise about its encoding, so every
identifier, text and document of the model is a `Bytes`.  Comparison is
lexicographic on bytes, as `cmp.Compare` and `sort.Strings` have it; Mathlib's
order on lists gives it once `UInt8` is a linear order.

`sortBy` is the sort of the source's `slices.SortFunc`.  The source's
comparators are strict on the lists they are given, and then a sorted
permutation is unique (`sortBy_eq_of_perm`), so it does not matter which
sorting algorithm runs.
-/

namespace Authorization.Foundation

/-- A Go string, or a `[]byte`. -/
abbrev Bytes := List UInt8

/-- The bytes of a literal. -/
def str (s : String) : Bytes := s.toUTF8.data.toList

instance uint8LinearOrder : LinearOrder UInt8 where
  le_refl a := UInt8.le_refl a
  le_trans _ _ _ := UInt8.le_trans
  lt_iff_le_not_ge a b := by
    rw [UInt8.lt_iff_toNat_lt, UInt8.le_iff_toNat_le, UInt8.le_iff_toNat_le]
    omega
  le_antisymm _ _ := UInt8.le_antisymm
  le_total a b := UInt8.le_total a b
  toDecidableLE := inferInstance
  toDecidableEq := inferInstance
  toDecidableLT := inferInstance

instance uint64LinearOrder : LinearOrder UInt64 where
  le_refl a := UInt64.le_refl a
  le_trans _ _ _ := UInt64.le_trans
  lt_iff_le_not_ge a b := by
    rw [UInt64.lt_iff_toNat_lt, UInt64.le_iff_toNat_le, UInt64.le_iff_toNat_le]
    omega
  le_antisymm _ _ := UInt64.le_antisymm
  le_total a b := UInt64.le_total a b
  toDecidableLE := inferInstance
  toDecidableEq := inferInstance
  toDecidableLT := inferInstance

instance bytesLawfulBEq : LawfulBEq Bytes := inferInstance

/-- The rest after one given byte. -/
def expect (b : UInt8) : Bytes → Option Bytes
  | [] => none
  | c :: rest => if c = b then some rest else none

@[simp] theorem expect_cons_self (b : UInt8) (rest : Bytes) : expect b (b :: rest) = some rest := by
  simp [expect]

theorem expect_eq_some {b : UInt8} {s rest : Bytes} :
    expect b s = some rest ↔ s = b :: rest := by
  cases s with
  | nil => simp [expect]
  | cons c s =>
    rw [expect]
    split
    · rename_i h; subst h; simp
    · rename_i h; simp [h]

/-! ### Walking over a byte string

A scanner that may look ahead and take several bytes at once: `look` gives the
output for the bytes at hand and how many of them it takes.  The walk goes byte
by byte and skips what is taken, so it is structural. -/

section Walk

variable {α : Type*} (look : Bytes → List α × Nat)

/-- The output after the first `skip` bytes. -/
def walkFrom : Nat → Bytes → List α
  | _, [] => []
  | skip + 1, _ :: rest => walkFrom skip rest
  | 0, b :: rest => (look (b :: rest)).1 ++ walkFrom ((look (b :: rest)).2 - 1) rest

def walk (s : Bytes) : List α := walkFrom look 0 s

@[simp] theorem walk_nil : walk look [] = [] := rfl

theorem walkFrom_eq_walk_drop : ∀ (s : Bytes) (skip : Nat),
    walkFrom look skip s = walk look (s.drop skip) := by
  intro s
  induction s with
  | nil => intro skip; cases skip <;> rfl
  | cons b rest ih =>
    intro skip
    cases skip with
    | zero => rfl
    | succ n => rw [walkFrom, ih, List.drop_succ_cons]

theorem walk_cons (b : UInt8) (rest : Bytes) : walk look (b :: rest)
    = (look (b :: rest)).1 ++ walk look (rest.drop ((look (b :: rest)).2 - 1)) := by
  rw [walk, walkFrom, walkFrom_eq_walk_drop]

variable {look}

/-- A chunk that is taken whole comes off in front. -/
theorem walk_append {chunk rest : Bytes} {out : List α} (hne : chunk ≠ [])
    (h : look (chunk ++ rest) = (out, chunk.length)) :
    walk look (chunk ++ rest) = out ++ walk look rest := by
  obtain ⟨b, t, rfl⟩ := List.exists_cons_of_ne_nil hne
  rw [List.cons_append] at h ⊢
  rw [walk_cons, h]
  simp only [List.length_cons, Nat.add_sub_cancel, List.drop_left]

end Walk

/-! ### Sorting -/

section Sorting

variable {α : Type*} (le : α → α → Prop) [DecidableRel le]

/-- The list sorted by `le`. -/
def sortBy (l : List α) : List α := l.insertionSort le

theorem sortBy_perm (l : List α) : (sortBy le l).Perm l := l.perm_insertionSort le

@[simp] theorem mem_sortBy {l : List α} {x : α} : x ∈ sortBy le l ↔ x ∈ l :=
  (sortBy_perm le l).mem_iff

@[simp] theorem length_sortBy (l : List α) : (sortBy le l).length = l.length :=
  (sortBy_perm le l).length_eq

/-- A map that keeps the order commutes with sorting. -/
theorem map_sortBy {β : Type*} (le' : β → β → Prop) [DecidableRel le'] (f : α → β) {l : List α}
    (h : ∀ a ∈ l, ∀ b ∈ l, le a b ↔ le' (f a) (f b)) :
    (sortBy le l).map f = sortBy le' (l.map f) :=
  List.map_insertionSort le le' f l h

variable [Std.Total le] [IsTrans α le]

theorem pairwise_sortBy (l : List α) : (sortBy le l).Pairwise le := l.pairwise_insertionSort le

/-- **A sorted permutation is unique** when no two members are tied. -/
theorem sortBy_eq_of_perm {l₁ l₂ : List α} (hp : l₁.Perm l₂)
    (anti : ∀ a ∈ l₁, ∀ b ∈ l₁, le a b → le b a → a = b) : sortBy le l₁ = sortBy le l₂ := by
  have hp' : (sortBy le l₁).Perm (sortBy le l₂) :=
    (sortBy_perm le l₁).trans (hp.trans (sortBy_perm le l₂).symm)
  refine hp'.eq_of_pairwise ?_ (pairwise_sortBy le l₁) (pairwise_sortBy le l₂)
  intro a b ha hb
  exact anti a ((mem_sortBy le).mp ha) b (hp.mem_iff.mpr ((mem_sortBy le).mp hb))

/-- Selecting members commutes with sorting when no two members are tied. -/
theorem filter_sortBy (p : α → Bool) {l : List α}
    (anti : ∀ a ∈ l, ∀ b ∈ l, le a b → le b a → a = b) :
    (sortBy le l).filter p = sortBy le (l.filter p) := by
  have hp : ((sortBy le l).filter p).Perm (sortBy le (l.filter p)) :=
    ((sortBy_perm le l).filter p).trans (sortBy_perm le _).symm
  refine hp.eq_of_pairwise ?_ ((pairwise_sortBy le l).sublist List.filter_sublist)
    (pairwise_sortBy le _)
  intro a b ha hb
  have ha' := (mem_sortBy le).mp (List.mem_filter.mp ha).1
  have hb' := (List.mem_filter.mp ((mem_sortBy le).mp hb)).1
  exact anti a ha' b hb'

end Sorting

/-! ### Strictly increasing lists -/

section Increasing

variable {α : Type*} [LinearOrder α]

theorem pairwise_lt_sortBy {l : List α} (h : l.Nodup) :
    (sortBy (· ≤ ·) l).Pairwise (· < ·) := by
  have hnodup : (sortBy (· ≤ ·) l).Pairwise (· ≠ ·) := (sortBy_perm (· ≤ ·) l).nodup_iff.mpr h
  exact ((pairwise_sortBy (· ≤ ·) l).and hnodup).imp fun hab => lt_of_le_of_ne hab.1 hab.2

/-- **A strictly increasing list is determined by its members.** -/
theorem eq_of_pairwise_lt {l l' : List α} (h : l.Pairwise (· < ·)) (h' : l'.Pairwise (· < ·))
    (hmem : ∀ x, x ∈ l ↔ x ∈ l') : l = l' := by
  have hne : ∀ {k : List α}, k.Pairwise (· < ·) → k.Nodup := fun hk => hk.imp ne_of_lt
  have hperm : l.Perm l' := (List.perm_ext_iff_of_nodup (hne h) (hne h')).mpr hmem
  exact hperm.eq_of_pairwise (fun a b _ _ hab hba => absurd (lt_trans hab hba) (lt_irrefl a)) h h'

end Increasing

/-! ### Descending priority, then ascending identifier

Snapshots, RBAC permissions and ABAC rules are sorted by the same two keys. -/

section Priority

variable {α : Type*} (priority : α → Int) (id : α → Bytes)

/-- `left` sorts no later than `right`. -/
def PriorityLe (left right : α) : Prop :=
  priority right < priority left ∨ (priority left = priority right ∧ id left ≤ id right)

instance : DecidableRel (PriorityLe priority id) :=
  fun _ _ => inferInstanceAs (Decidable (_ ∨ _))

instance : Std.Total (PriorityLe priority id) where
  total a b := by
    unfold PriorityLe
    rcases lt_trichotomy (priority a) (priority b) with h | h | h
    · exact Or.inr (Or.inl h)
    · rcases le_total (id a) (id b) with h' | h'
      · exact Or.inl (Or.inr ⟨h, h'⟩)
      · exact Or.inr (Or.inr ⟨h.symm, h'⟩)
    · exact Or.inl (Or.inl h)

instance : IsTrans α (PriorityLe priority id) where
  trans a b c hab hbc := by
    unfold PriorityLe at *
    rcases hab with h | ⟨h, hid⟩
    · rcases hbc with h' | ⟨h', _⟩
      · exact Or.inl (lt_trans h' h)
      · exact Or.inl (h' ▸ h)
    · rcases hbc with h' | ⟨h', hid'⟩
      · exact Or.inl (h ▸ h')
      · exact Or.inr ⟨h.trans h', le_trans hid hid'⟩

variable {priority id}

theorem PriorityLe.id_eq {a b : α} (hab : PriorityLe priority id a b)
    (hba : PriorityLe priority id b a) : id a = id b := by
  rcases hab with h | ⟨_, h⟩
  · rcases hba with h' | ⟨h', _⟩
    · exact absurd (lt_trans h h') (lt_irrefl _)
    · rw [h'] at h; exact absurd h (lt_irrefl _)
  · rcases hba with h' | ⟨_, h'⟩
    · rename_i he; rw [he] at h'; exact absurd h' (lt_irrefl _)
    · exact le_antisymm h h'

/-- Distinct identifiers leave no ties. -/
theorem PriorityLe.eq_of_nodup {l : List α} (h : (l.map id).Nodup) :
    ∀ a ∈ l, ∀ b ∈ l, PriorityLe priority id a b → PriorityLe priority id b a → a = b :=
  fun _ ha _ hb hab hba => List.inj_on_of_nodup_map h ha hb (hab.id_eq hba)

variable (priority id) in
/-- `left` sorts before `right`. -/
def PriorityLt (left right : α) : Prop :=
  priority right < priority left ∨ (priority left = priority right ∧ id left < id right)

/-- Distinct identifiers are sorted strictly. -/
theorem pairwise_priorityLt {l : List α} (h : (l.map id).Nodup) :
    (sortBy (PriorityLe priority id) l).Pairwise (PriorityLt priority id) := by
  have hnodup : ((sortBy (PriorityLe priority id) l).map id).Nodup :=
    ((sortBy_perm _ l).map id).nodup_iff.mpr h
  refine ((pairwise_sortBy (PriorityLe priority id) l).and
    (List.pairwise_map.mp hnodup)).imp ?_
  rintro a b ⟨hle | ⟨heq, hid⟩, hne⟩
  · exact Or.inl hle
  · exact Or.inr ⟨heq, lt_of_le_of_ne hid hne⟩

end Priority

end Authorization.Foundation
