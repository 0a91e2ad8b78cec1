import Authorization.Core.Value

/-!
# String sets are canonical

`StringSetValue` sorts a copy of its argument and compacts it in place: `unique` is a
slice of the array that the loop is still reading.  What is written never reaches
what is still to be read, so the loop does what it would do on two arrays
(`compactInPlace_eq`), and its result has the elements of the argument
(`mem_compact`).  A set value is determined by its elements, which makes equality,
size and membership those of sets.
-/

namespace Authorization.Core

open Authorization.Foundation

/-! ### The loop on one array -/

/-- The compaction loop on its backing array: `remaining` turns are left, the next
element is read at `read`, and `unique` is the first `written` elements. -/
def compactInPlace : Nat → Nat → List Bytes → Nat → List Bytes
  | 0, _, backing, written => backing.take written
  | remaining + 1, read, backing, written =>
    match backing[read]? with
    | none => backing.take written
    | some value =>
      if written = 0 ∨ backing[written - 1]? ≠ some value then
        compactInPlace remaining (read + 1) (backing.set written value) (written + 1)
      else compactInPlace remaining (read + 1) backing written

/-- The test looks at the last element of `unique`. -/
theorem getLast?_take {backing : List Bytes} {written : Nat} (hpos : 0 < written)
    (hle : written ≤ backing.length) : (backing.take written).getLast? = backing[written - 1]? := by
  rw [List.getLast?_take, if_neg (by omega), List.getElem?_eq_getElem (by omega)]
  rfl

theorem take_set_succ {backing : List Bytes} {written : Nat} (h : written < backing.length)
    (value : Bytes) :
    (backing.set written value).take (written + 1) = backing.take written ++ [value] := by
  rw [List.take_add_one, List.take_set_of_le (Nat.le_refl written), List.getElem?_set_self h]
  rfl

/-- **Writing stays behind reading**, so one array is as good as two. -/
theorem compactInPlace_eq : ∀ (remaining read : Nat) (backing : List Bytes) (written : Nat),
    read + remaining = backing.length → written ≤ read →
    compactInPlace remaining read backing written
      = compact (backing.take written) (backing.drop read) := by
  intro remaining
  induction remaining with
  | zero =>
    intro read backing written hlength hle
    rw [List.drop_eq_nil_of_le (by omega), compact, compactInPlace]
  | succ remaining ih =>
    intro read backing written hlength hle
    have hread : read < backing.length := by omega
    have htest : (written = 0 ∨ backing[written - 1]? ≠ some backing[read]) ↔
        (backing.take written = [] ∨ (backing.take written).getLast? ≠ some backing[read]) := by
      rcases Nat.eq_zero_or_pos written with rfl | hpos
      · exact iff_of_true (Or.inl rfl) (Or.inl rfl)
      · have hne : backing.take written ≠ [] := by
          intro hnil
          have hzero := congrArg List.length hnil
          rw [List.length_take, List.length_nil] at hzero
          omega
        rw [getLast?_take hpos (by omega)]
        exact ⟨fun h => Or.inr (h.resolve_left (by omega)), fun h => Or.inr (h.resolve_left hne)⟩
    rw [List.drop_eq_getElem_cons hread, compact, compactInPlace, List.getElem?_eq_getElem hread]
    dsimp only
    split
    · rename_i hnew
      rw [if_pos (htest.mp hnew),
        ih (read + 1) (backing.set written backing[read]) (written + 1)
          (by rw [List.length_set]; omega) (by omega),
        take_set_succ (by omega), List.drop_set_of_lt (by omega)]
    · rename_i hold
      rw [if_neg (fun h => hold (htest.mpr h)), ih (read + 1) backing written (by omega) (by omega)]

/-! ### The elements -/

theorem mem_compact {x : Bytes} : ∀ {rest unique : List Bytes},
    x ∈ compact unique rest ↔ x ∈ unique ∨ x ∈ rest := by
  intro rest
  induction rest with
  | nil => intro unique; simp [compact]
  | cons value rest ih =>
    intro unique
    rw [compact]
    split
    · rw [ih, List.mem_append, List.mem_singleton, List.mem_cons, or_assoc]
    · rename_i hlast
      push Not at hlast
      have hmem : value ∈ unique := List.mem_of_getLast? hlast.2
      rw [ih, List.mem_cons]
      constructor
      · exact fun h => h.imp_right Or.inr
      · rintro (h | rfl | h)
        · exact Or.inl h
        · exact Or.inl hmem
        · exact Or.inr h

/-- What `StringSetValue` stores. -/
def stringSetElems (values : List Bytes) : List Bytes := compact [] (sortBy (· ≤ ·) values)

theorem stringSet?_stringSetValue (values : List Bytes) :
    (stringSetValue values).stringSet? = some (stringSetElems values) := rfl

theorem stringSetElems_eq_inPlace (values : List Bytes) :
    stringSetElems values = compactInPlace values.length 0 (sortBy (· ≤ ·) values) 0 := by
  rw [compactInPlace_eq _ _ _ _ (by rw [length_sortBy, Nat.zero_add]) (Nat.le_refl 0)]
  rfl

theorem pairwise_stringSetElems (values : List Bytes) :
    (stringSetElems values).Pairwise (· < ·) :=
  pairwise_compact _ _ List.Pairwise.nil (pairwise_sortBy _ _)
    fun _ hx => absurd hx List.not_mem_nil

@[simp] theorem mem_stringSetElems {values : List Bytes} {x : Bytes} :
    x ∈ stringSetElems values ↔ x ∈ values := by
  rw [stringSetElems, mem_compact, mem_sortBy, or_iff_right List.not_mem_nil]

/-- **A set is its elements.** -/
theorem stringSetElems_eq_iff {values others : List Bytes} :
    stringSetElems values = stringSetElems others ↔ ∀ x, x ∈ values ↔ x ∈ others := by
  constructor
  · intro h x
    rw [← mem_stringSetElems, h, mem_stringSetElems]
  · intro h
    refine eq_of_pairwise_lt (pairwise_stringSetElems values) (pairwise_stringSetElems others) ?_
    intro x
    rw [mem_stringSetElems, mem_stringSetElems, h x]

theorem equal_stringSetValue {values others : List Bytes} :
    (stringSetValue values).equal (stringSetValue others) = true ↔
      ∀ x, x ∈ values ↔ x ∈ others := by
  rw [← stringSetElems_eq_iff]
  exact beq_iff_eq

/-- **The size is the number of distinct elements.** -/
theorem collectionLength_stringSetValue (values : List Bytes) :
    (stringSetValue values).collectionLength = some values.toFinset.card := by
  have hnodup : (stringSetElems values).Nodup :=
    (pairwise_stringSetElems values).imp ne_of_lt
  have hsame : (stringSetElems values).toFinset = values.toFinset := by
    ext x
    rw [List.mem_toFinset, List.mem_toFinset, mem_stringSetElems]
  show some (stringSetElems values).length = _
  rw [← hsame, List.toFinset_card_of_nodup hnodup]

theorem StringSet.eq_of_elems : ∀ {set other : StringSet}, set.elems = other.elems → set = other
  | ⟨_, _⟩, ⟨_, _⟩, rfl => rfl

/-- A set value comes back from its elements. -/
theorem stringSetValue_of_stringSet? {value : Value} {set : List Bytes}
    (h : value.stringSet? = some set) : stringSetValue set = value := by
  cases value with
  | stringSet stored =>
    cases h
    have helems : stringSetElems stored.elems = stored.elems :=
      eq_of_pairwise_lt (pairwise_stringSetElems _) stored.sorted fun x => mem_stringSetElems
    exact congrArg Value.stringSet (StringSet.eq_of_elems helems)
  | _ => cases h

end Authorization.Core
