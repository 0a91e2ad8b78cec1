import Mathlib

/-!
# Maps

A Go map is an association list without repeated keys, Mathlib's `AList`.  The
order of its entries means nothing to a program: a `range` over a map visits
the keys in an order the runtime picks, so a function that ranges over one
takes that order as an argument, a `MapRange`.

The models of this development build their indexes with
`m[k] = append(m[k], v)` over a list.  `bucket_groupBy` says what such an
index holds: under each key, the list's elements with that key, in list order.
-/

namespace Authorization.Foundation

/-- `map[κ]α`.  A nil map reads as the empty one. -/
abbrev GoMap (κ α : Type*) := AList (fun _ : κ => α)

/-- The order in which the runtime visits the keys of a map. -/
structure MapRange (κ : Type*) where
  order : List κ → List κ
  perm : ∀ keys, (order keys).Perm keys

/-- The order in which the keys were inserted last. -/
def MapRange.insertion {κ : Type*} : MapRange κ := ⟨id, fun _ => List.Perm.refl _⟩

@[simp] theorem MapRange.mem_order {κ : Type*} (r : MapRange κ) {keys : List κ} {k : κ} :
    k ∈ r.order keys ↔ k ∈ keys := (r.perm keys).mem_iff

/-- Two disjoint selections together are the selection of both. -/
theorem filter_append_filter_perm {α : Type*} (p q : α → Bool) (l : List α)
    (h : ∀ x ∈ l, p x = true → q x = true → False) :
    (l.filter p ++ l.filter q).Perm (l.filter fun x => p x || q x) := by
  have hsplit := List.filter_append_perm p (l.filter fun x => p x || q x)
  rw [List.filter_filter, List.filter_filter] at hsplit
  have hleft : (l.filter fun x => p x && (p x || q x)) = l.filter p :=
    List.filter_congr fun x _ => by cases p x <;> rfl
  have hright : (l.filter fun x => !p x && (p x || q x)) = l.filter q := by
    refine List.filter_congr fun x hx => ?_
    have hx' := h x hx
    cases hp : p x with
    | false => rfl
    | true =>
      cases hq : q x with
      | false => rfl
      | true => exact (hx' hp hq).elim
  rwa [hleft, hright] at hsplit

section Buckets

variable {κ α : Type*} [DecidableEq κ]

/-- `m[k]` for a map of slices: a missing key reads as the empty slice. -/
def bucket (m : GoMap κ (List α)) (k : κ) : List α := (m.lookup k).getD []

/-- `m[k] = append(m[k], v)`. -/
def appendAt (m : GoMap κ (List α)) (k : κ) (v : α) : GoMap κ (List α) :=
  m.insert k (bucket m k ++ [v])

/-- The index of a list by `key`. -/
def groupBy (key : α → κ) (l : List α) : GoMap κ (List α) :=
  l.foldl (fun m v => appendAt m (key v) v) ∅

@[simp] theorem bucket_empty (k : κ) : bucket (∅ : GoMap κ (List α)) k = [] := rfl

theorem bucket_appendAt (m : GoMap κ (List α)) (k k' : κ) (v : α) :
    bucket (appendAt m k v) k' = if k' = k then bucket m k ++ [v] else bucket m k' := by
  unfold bucket appendAt
  split
  · rename_i h; subst h; rw [AList.lookup_insert]; rfl
  · rename_i h; rw [AList.lookup_insert_ne h]

theorem bucket_foldl_appendAt (key : α → κ) (k : κ) : ∀ (l : List α) (m : GoMap κ (List α)),
    bucket (l.foldl (fun m v => appendAt m (key v) v) m) k
      = bucket m k ++ l.filter (fun v => key v = k) := by
  intro l
  induction l with
  | nil => intro m; simp
  | cons v l ih =>
    intro m
    rw [List.foldl_cons, ih, bucket_appendAt]
    by_cases h : key v = k
    · rw [if_pos h.symm, List.filter_cons_of_pos (by simpa using h), h, List.append_assoc]
      rfl
    · rw [if_neg (fun e => h e.symm), List.filter_cons_of_neg (by simpa using h)]

/-- **An index holds, under each key, the elements with that key.** -/
theorem bucket_groupBy (key : α → κ) (l : List α) (k : κ) :
    bucket (groupBy key l) k = l.filter (fun v => key v = k) := by
  rw [groupBy, bucket_foldl_appendAt, bucket_empty, List.nil_append]

/-- Reading an index under several keys collects the elements with one of them. -/
theorem flatMap_bucket_perm (key : α → κ) (l : List α) : ∀ {ks : List κ}, ks.Nodup →
    (ks.flatMap (bucket (groupBy key l))).Perm (l.filter fun v => key v ∈ ks) := by
  intro ks
  induction ks with
  | nil => intro _; simp
  | cons k ks ih =>
    intro hnd
    rw [List.nodup_cons] at hnd
    rw [List.flatMap_cons, bucket_groupBy]
    have hsplit := filter_append_filter_perm (fun v => decide (key v = k))
      (fun v => decide (key v ∈ ks)) l fun v _ hk hks => by
        simp only [decide_eq_true_eq] at hk hks
        exact hnd.1 (hk ▸ hks)
    refine ((List.Perm.append_left _ (ih hnd.2)).trans hsplit).trans (List.Perm.of_eq ?_)
    refine List.filter_congr fun v _ => ?_
    simp only [List.mem_cons, Bool.decide_or]

/-- `m[key(v)] = v` over a list. -/
def indexBy (key : α → κ) (l : List α) : GoMap κ α := l.foldl (fun m v => m.insert (key v) v) ∅

theorem lookup_foldl_insert (key : α → κ) (k : κ) : ∀ (l : List α) (m : GoMap κ α),
    (l.map key).Nodup → (l.foldl (fun m v => m.insert (key v) v) m).lookup k
      = (l.find? (fun v => key v = k)).or (m.lookup k) := by
  intro l
  induction l with
  | nil => intro m _; rfl
  | cons v l ih =>
    intro m hnd
    rw [List.map_cons, List.nodup_cons] at hnd
    rw [List.foldl_cons, ih _ hnd.2]
    by_cases h : key v = k
    · have hnone : l.find? (fun v => key v = k) = none := by
        rw [List.find?_eq_none]
        intro u hu hk
        exact hnd.1 (List.mem_map.mpr ⟨u, hu, (of_decide_eq_true hk).trans h.symm⟩)
      rw [hnone, List.find?_cons_of_pos (by simpa using h), ← h, AList.lookup_insert]
      rfl
    · rw [List.find?_cons_of_neg (by simpa using h), AList.lookup_insert_ne (fun e => h e.symm)]

/-- **An index of distinct keys** finds an element under its key and nothing
else. -/
theorem lookup_indexBy {key : α → κ} {l : List α} (h : (l.map key).Nodup) {k : κ} {v : α} :
    (indexBy key l).lookup k = some v ↔ v ∈ l ∧ key v = k := by
  rw [indexBy, lookup_foldl_insert key k l ∅ h, AList.lookup_empty, Option.or_none]
  constructor
  · intro hf
    exact ⟨List.mem_of_find?_eq_some hf, by simpa using List.find?_some hf⟩
  · rintro ⟨hv, hk⟩
    cases hf : l.find? (fun v => key v = k) with
    | none => exact absurd (by simpa using hk) (List.find?_eq_none.mp hf v hv)
    | some u =>
      have hu : key u = k := by simpa using List.find?_some hf
      rw [List.inj_on_of_nodup_map h (List.mem_of_find?_eq_some hf) hv (hu.trans hk.symm)]

/-- Storing something made of the element instead of the element. -/
theorem lookup_foldl_insert_map {β : Type*} (key : α → κ) (f : α → β) (k : κ) :
    ∀ (l : List α) (m : GoMap κ β) (m' : GoMap κ α), m.lookup k = (m'.lookup k).map f →
      (l.foldl (fun m v => m.insert (key v) (f v)) m).lookup k
        = ((l.foldl (fun m v => m.insert (key v) v) m').lookup k).map f := by
  intro l
  induction l with
  | nil => intro m m' h; exact h
  | cons v l ih =>
    intro m m' h
    rw [List.foldl_cons, List.foldl_cons]
    refine ih _ _ ?_
    by_cases hk : k = key v
    · subst hk
      rw [AList.lookup_insert, AList.lookup_insert]
      rfl
    · rw [AList.lookup_insert_ne hk, AList.lookup_insert_ne hk, h]

end Buckets

end Authorization.Foundation
