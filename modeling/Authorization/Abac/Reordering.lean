import Authorization.Abac.Withheld

/-!
# Reordering the children of a condition

Each connective asks its children in order and stops early, but whether `Any`
matches, whether it has a definite status, and whether `All` matches do not depend
on that order.  The status of an `All` that does not match does: it is that of the
first child that does not.  Under `Not` a definite status becomes a match and an
undecided one does not, so there the order of an `All` with both kinds of children
decides what is granted (`reordered_under_not`).

Trees that differ otherwise match alike: `reordering_matched`.
-/

namespace Authorization.Abac

open Authorization.Foundation Authorization.Core

/-- The trees differ by the order of children.  The flag says that the node is under a
`Not`; a reordering of the children of `All` has to be admitted. -/
inductive Rearranged (admits : Bool → List Condition → List Condition → Prop) :
    Bool → Condition → Condition → Prop
  | refl (under : Bool) (condition : Condition) : Rearranged admits under condition condition
  | all {under : Bool} {pairs : List (Condition × Condition)} {children : List Condition} :
      (∀ pair ∈ pairs, Rearranged admits under pair.1 pair.2) →
      children.Perm (pairs.map Prod.snd) → admits under (pairs.map Prod.fst) children →
      Rearranged admits under (.allCondition (pairs.map Prod.fst)) (.allCondition children)
  | allInPlace {under : Bool} {pairs : List (Condition × Condition)} :
      (∀ pair ∈ pairs, Rearranged admits under pair.1 pair.2) →
      Rearranged admits under (.allCondition (pairs.map Prod.fst))
        (.allCondition (pairs.map Prod.snd))
  | any {under : Bool} {pairs : List (Condition × Condition)} {children : List Condition} :
      (∀ pair ∈ pairs, Rearranged admits under pair.1 pair.2) →
      children.Perm (pairs.map Prod.snd) →
      Rearranged admits under (.anyCondition (pairs.map Prod.fst)) (.anyCondition children)
  | not {under : Bool} {condition condition' : Condition} :
      Rearranged admits true condition condition' →
      Rearranged admits under (.notCondition condition) (.notCondition condition')

/-- The trees differ by the order of children, at any depth. -/
def Permuted : Condition → Condition → Prop := Rearranged (fun _ _ _ => True) false

/-- None of the conditions comes to no match, or none to an undecided status. -/
def Unmixed (request : Request) (maxSetSize : Int) (conditions : List Condition) : Prop :=
  (∀ condition ∈ conditions,
    (condition.meaning request maxSetSize).value ≠ .decided .statusNoMatch) ∨
  ∀ condition ∈ conditions, ∀ status,
    (condition.meaning request maxSetSize).value = .decided status → status.Definite

/-- The trees differ by the order of children, except that an `All` under a `Not` keeps
their order if its children in the two trees, taken together, come both to no match and
to an undecided status. -/
def PermutedFor (request : Request) (limits : Limits) : Condition → Condition → Prop :=
  Rearranged (fun under children children' => under = true →
    Unmixed request (normalizedLimits limits).maxSetSize (children ++ children')) false

/-- Both match or neither does; under a `Not` both have no match or neither does. -/
structure Alike (under : Bool) (status status' : Status) : Prop where
  matched : status = .statusMatch ↔ status' = .statusMatch
  noMatch : under = true → (status = .statusNoMatch ↔ status' = .statusNoMatch)

section Alike

variable {request : Request} {maxSetSize : Int} {under : Bool}

/-- The conditions are alike wherever both have a status. -/
def AlikeOn (request : Request) (maxSetSize : Int) (under : Bool)
    (condition condition' : Condition) : Prop :=
  ∀ status status', (condition.meaning request maxSetSize).value = .decided status →
    (condition'.meaning request maxSetSize).value = .decided status' → Alike under status status'

theorem mem_pairs_snd {pairs : List (Condition × Condition)} {children : List Condition}
    (hperm : children.Perm (pairs.map Prod.snd)) {child : Condition} (hmem : child ∈ children) :
    ∃ pair ∈ pairs, pair.2 = child :=
  List.mem_map.mp (hperm.mem_iff.mp hmem)

theorem pair_snd_mem {pairs : List (Condition × Condition)} {children : List Condition}
    (hperm : children.Perm (pairs.map Prod.snd)) {pair : Condition × Condition}
    (hmem : pair ∈ pairs) : pair.2 ∈ children :=
  hperm.mem_iff.mpr (List.mem_map_of_mem hmem)

variable {pairs : List (Condition × Condition)} {children : List Condition}
  {status status' : Status}

theorem meaningAll_matched (hpairs : ∀ pair ∈ pairs, AlikeOn request maxSetSize under pair.1 pair.2)
    (hperm : children.Perm (pairs.map Prod.snd))
    (h : (meaningAll request maxSetSize (pairs.map Prod.fst)).value = .decided status)
    (h' : (meaningAll request maxSetSize children).value = .decided status') :
    status = .statusMatch ↔ status' = .statusMatch := by
  constructor
  · rintro rfl
    by_contra hother
    have hne : Verdict.decided status' ≠ .decided .statusMatch :=
      fun heq => hother (Verdict.decided.inj heq)
    obtain ⟨child, hmem, hchild⟩ := meaningAll_eq_other hne h'
    obtain ⟨pair, hpair, rfl⟩ := mem_pairs_snd hperm hmem
    have hfirst := meaningAll_eq_match_iff.mp h pair.1 (List.mem_map_of_mem hpair)
    exact hother ((hpairs pair hpair _ _ hfirst hchild).matched.mp rfl)
  · rintro rfl
    by_contra hother
    have hne : Verdict.decided status ≠ .decided .statusMatch :=
      fun heq => hother (Verdict.decided.inj heq)
    obtain ⟨child, hmem, hchild⟩ := meaningAll_eq_other hne h
    obtain ⟨pair, hpair, rfl⟩ := List.mem_map.mp hmem
    have hsecond := meaningAll_eq_match_iff.mp h' pair.2 (pair_snd_mem hperm hpair)
    exact hother ((hpairs pair hpair _ _ hchild hsecond).matched.mpr rfl)

theorem meaningAny_matched (hpairs : ∀ pair ∈ pairs, AlikeOn request maxSetSize under pair.1 pair.2)
    (hperm : children.Perm (pairs.map Prod.snd))
    (h : (meaningAny request maxSetSize .statusNoMatch (pairs.map Prod.fst)).value
      = .decided status)
    (h' : (meaningAny request maxSetSize .statusNoMatch children).value = .decided status') :
    status = .statusMatch ↔ status' = .statusMatch := by
  constructor
  · rintro rfl
    by_contra hother
    obtain ⟨child, hmem, hchild⟩ := meaningAny_eq_match (by decide) h
    obtain ⟨pair, hpair, rfl⟩ := List.mem_map.mp hmem
    obtain ⟨other, hne, hsecond⟩ := meaningAny_eq_other hother h' pair.2 (pair_snd_mem hperm hpair)
    exact hne ((hpairs pair hpair _ _ hchild hsecond).matched.mp rfl)
  · rintro rfl
    by_contra hother
    obtain ⟨child, hmem, hchild⟩ := meaningAny_eq_match (by decide) h'
    obtain ⟨pair, hpair, rfl⟩ := mem_pairs_snd hperm hmem
    obtain ⟨other, hne, hfirst⟩ := meaningAny_eq_other hother h pair.1 (List.mem_map_of_mem hpair)
    exact hne ((hpairs pair hpair _ _ hfirst hchild).matched.mpr rfl)

/-- `Any` has no match when no child has one, in whatever order. -/
theorem meaningAny_noMatch (hpairs : ∀ pair ∈ pairs, AlikeOn request maxSetSize true pair.1 pair.2)
    (hperm : children.Perm (pairs.map Prod.snd))
    (h : (meaningAny request maxSetSize .statusNoMatch (pairs.map Prod.fst)).value
      = .decided status)
    (h' : (meaningAny request maxSetSize .statusNoMatch children).value = .decided status') :
    status = .statusNoMatch ↔ status' = .statusNoMatch := by
  have hmatched := meaningAny_matched hpairs hperm h h'
  constructor
  · rintro rfl
    have hall := (meaningAny_eq_noMatch_iff.mp h).2
    have hother : status' ≠ .statusMatch := fun heq => absurd (hmatched.mpr heq) (by decide)
    have hnone : (meaningAny request maxSetSize .statusNoMatch children).value
        = .decided .statusNoMatch := by
      refine meaningAny_eq_noMatch_iff.mpr ⟨rfl, fun child hmem => ?_⟩
      obtain ⟨pair, hpair, rfl⟩ := mem_pairs_snd hperm hmem
      obtain ⟨other, -, hsecond⟩ := meaningAny_eq_other hother h' pair.2 hmem
      have hfirst := hall pair.1 (List.mem_map_of_mem hpair)
      rw [hsecond, ((hpairs pair hpair _ _ hfirst hsecond).noMatch rfl).mp rfl]
    exact Verdict.decided.inj (h'.symm.trans hnone)
  · rintro rfl
    have hall := (meaningAny_eq_noMatch_iff.mp h').2
    have hother : status ≠ .statusMatch := fun heq => absurd (hmatched.mp heq) (by decide)
    have hnone : (meaningAny request maxSetSize .statusNoMatch (pairs.map Prod.fst)).value
        = .decided .statusNoMatch := by
      refine meaningAny_eq_noMatch_iff.mpr ⟨rfl, fun child hmem => ?_⟩
      obtain ⟨pair, hpair, rfl⟩ := List.mem_map.mp hmem
      obtain ⟨other, -, hfirst⟩ := meaningAny_eq_other hother h pair.1 hmem
      have hsecond := hall pair.2 (pair_snd_mem hperm hpair)
      rw [hfirst, ((hpairs pair hpair _ _ hfirst hsecond).noMatch rfl).mpr rfl]
    exact Verdict.decided.inj (h.symm.trans hnone)

/-- Without children of both kinds the order of `All` does not matter either. -/
theorem meaningAll_noMatch (hpairs : ∀ pair ∈ pairs, AlikeOn request maxSetSize true pair.1 pair.2)
    (hperm : children.Perm (pairs.map Prod.snd))
    (hunmixed : Unmixed request maxSetSize (pairs.map Prod.fst ++ children))
    (h : (meaningAll request maxSetSize (pairs.map Prod.fst)).value = .decided status)
    (h' : (meaningAll request maxSetSize children).value = .decided status') :
    status = .statusNoMatch ↔ status' = .statusNoMatch := by
  have hmatched := meaningAll_matched hpairs hperm h h'
  by_cases hstatus : status = .statusMatch
  · rw [hstatus, hmatched.mp hstatus]
  have hstatus' : status' ≠ .statusMatch := fun heq => hstatus (hmatched.mpr heq)
  have hfirst : Verdict.decided status ≠ .decided .statusMatch :=
    fun heq => hstatus (Verdict.decided.inj heq)
  have hsecond : Verdict.decided status' ≠ .decided .statusMatch :=
    fun heq => hstatus' (Verdict.decided.inj heq)
  obtain ⟨child, hmem, hchild⟩ := meaningAll_eq_other hfirst h
  obtain ⟨child', hmem', hchild'⟩ := meaningAll_eq_other hsecond h'
  rcases hunmixed with hnone | hdefinite
  · constructor
    · rintro rfl
      exact absurd hchild (hnone child (List.mem_append_left _ hmem))
    · rintro rfl
      exact absurd hchild' (hnone child' (List.mem_append_right _ hmem'))
  · have hdef := hdefinite child (List.mem_append_left _ hmem) status hchild
    have hdef' := hdefinite child' (List.mem_append_right _ hmem') status' hchild'
    exact ⟨fun _ => hdef'.resolve_left hstatus', fun _ => hdef.resolve_left hstatus⟩

/-- Children that stay in place decide at the same place. -/
theorem meaningAll_inPlace : ∀ {pairs : List (Condition × Condition)} {status status' : Status},
    (∀ pair ∈ pairs, AlikeOn request maxSetSize under pair.1 pair.2) →
    (meaningAll request maxSetSize (pairs.map Prod.fst)).value = .decided status →
    (meaningAll request maxSetSize (pairs.map Prod.snd)).value = .decided status' →
    Alike under status status' := by
  intro pairs
  induction pairs with
  | nil =>
    intro status status' _ h h'
    have heq : status = status' := Verdict.decided.inj (h.symm.trans h')
    subst heq
    exact ⟨Iff.rfl, fun _ => Iff.rfl⟩
  | cons pair rest ih =>
    intro status status' hpairs h h'
    obtain ⟨hpair, hrest⟩ := List.forall_mem_cons.mp hpairs
    rw [List.map_cons, meaningAll, Priced.bind_value] at h h'
    split at h
    · rename_i hmatch
      split at h'
      · exact ih hrest h h'
      · rename_i hother
        have heq := (hpair _ _ hmatch h').matched.mp rfl
        rw [Priced.free_value, heq] at h'
        exact absurd h' hother
    · rename_i hother
      split at h'
      · rename_i hmatch
        have heq := (hpair _ _ h hmatch).matched.mpr rfl
        rw [Priced.free_value, heq] at h
        exact absurd h hother
      · exact hpair _ _ h h'

theorem Alike.negate {status status' : Status} (h : Alike true status status') (under : Bool) :
    Alike under status.negate status'.negate := by
  have hmatched := h.matched
  have hnoMatch := h.noMatch rfl
  refine ⟨?_, fun _ => ?_⟩
  · cases status <;> cases status' <;> simp_all [Status.negate]
  · cases status <;> cases status' <;> simp_all [Status.negate]

end Alike

/-- **Rearranged conditions are alike.** -/
theorem Rearranged.alike {request : Request} {maxSetSize : Int} {under : Bool}
    {condition condition' : Condition}
    (h : Rearranged (fun under children children' => under = true →
      Unmixed request maxSetSize (children ++ children')) under condition condition') :
    AlikeOn request maxSetSize under condition condition' := by
  induction h with
  | refl under condition =>
    intro status status' h h'
    have heq : status = status' := Verdict.decided.inj (h.symm.trans h')
    subst heq
    exact ⟨Iff.rfl, fun _ => Iff.rfl⟩
  | all hpairs hperm hadmitted ih =>
    intro status status' h h'
    rw [Condition.meaning] at h h'
    refine ⟨meaningAll_matched ih hperm h h', ?_⟩
    rintro rfl
    exact meaningAll_noMatch ih hperm (hadmitted rfl) h h'
  | allInPlace hpairs ih =>
    intro status status' h h'
    rw [Condition.meaning] at h h'
    exact meaningAll_inPlace ih h h'
  | any hpairs hperm ih =>
    intro status status' h h'
    rw [Condition.meaning] at h h'
    refine ⟨meaningAny_matched ih hperm h h', ?_⟩
    rintro rfl
    exact meaningAny_noMatch ih hperm h h'
  | @not under condition condition' _ ih =>
    intro status status' h h'
    rw [Condition.meaning] at h h'
    have halike := ih _ _ (Verdict.negate_eq_decided h) (Verdict.negate_eq_decided h')
    have hnegated := halike.negate under
    rwa [status.negate_negate, status'.negate_negate] at hnegated

/-- **Reordering does not change what is granted**, but for the order of an `All` under
a `Not` whose children, those of the two trees taken together, come both to no match and
to an undecided status. -/
theorem reordering_matched {W W' : Type} {request : Request} {limits : Limits}
    {condition condition' : Condition} (hpermuted : PermutedFor request limits condition condition')
    {ctx : Context W} {ctx' : Context W'} {w : W} {w' : W'} {result result' : Result}
    (h : (evaluateCondition ctx condition request limits w).1 = .returned result none)
    (h' : (evaluateCondition ctx' condition' request limits w').1 = .returned result' none) :
    result'.matched = result.matched := by
  obtain ⟨hmatched, hverdict⟩ := evaluateCondition_decided h
  obtain ⟨hmatched', hverdict'⟩ := evaluateCondition_decided h'
  have halike := hpermuted.alike _ _ hverdict hverdict'
  rw [hmatched, hmatched', decide_eq_decide]
  exact halike.matched.symm

/-! ### The order that matters -/

section Swap

variable {admits : Bool → List Condition → List Condition → Prop} {under : Bool}

theorem Rearranged.refl_pairs (first second : Condition) :
    ∀ pair ∈ [(first, first), (second, second)], Rearranged admits under pair.1 pair.2 := by
  intro pair hpair
  rcases List.mem_pair.mp hpair with rfl | rfl
  · exact .refl under first
  · exact .refl under second

theorem Rearranged.any_swap (first second : Condition) :
    Rearranged admits under (.anyCondition [first, second]) (.anyCondition [second, first]) := by
  have hpairs : ∀ pair ∈ [(first, first), (second, second)],
      Rearranged admits under pair.1 pair.2 := Rearranged.refl_pairs first second
  have h := Rearranged.any hpairs (.swap first second [])
  exact h

theorem Rearranged.all_swap (first second : Condition)
    (hadmitted : admits under [first, second] [second, first]) :
    Rearranged admits under (.allCondition [first, second]) (.allCondition [second, first]) := by
  have hpairs : ∀ pair ∈ [(first, first), (second, second)],
      Rearranged admits under pair.1 pair.2 := Rearranged.refl_pairs first second
  have h := Rearranged.all hpairs (.swap first second []) hadmitted
  exact h

end Swap

/-- The level is a public one. -/
def isPublic : Condition := .equalCondition (requested "level") (.string (str "public"))

/-- The team is the red one. -/
def isRed : Condition := .equalCondition (requested "team") (.string (str "red"))

/-- A request that knows of a level and of no team. -/
def secretRequest : Request :=
  asking ((∅ : Attributes).insert (str "level") (.string (str "secret")))

/-- `Any` under a `Not`, with a child that has no match and one that is undecided. -/
theorem reordering_matched_any :
    (evaluateCondition (.background (W := Unit)) (.notCondition (.anyCondition [isPublic, isRed]))
      secretRequest {} ()).1 = .returned ⟨false, .statusMissing, 4⟩ none ∧
    ∀ result, (evaluateCondition (.background (W := Unit))
      (.notCondition (.anyCondition [isRed, isPublic])) secretRequest {} ()).1
        = .returned result none → result.matched = false := by
  have hmissing : (evaluateCondition (.background (W := Unit))
      (.notCondition (.anyCondition [isPublic, isRed])) secretRequest {} ()).1
        = .returned ⟨false, .statusMissing, 4⟩ none := by decide +kernel
  have hpermuted : PermutedFor secretRequest {} (.notCondition (.anyCondition [isPublic, isRed]))
      (.notCondition (.anyCondition [isRed, isPublic])) :=
    .not (.any_swap isPublic isRed)
  exact ⟨hmissing, fun result h => reordering_matched hpermuted hmissing h⟩

/-- **Under a `Not` the order of an `All` decides what is granted**: the first child that
does not match is one with no match or one whose attribute is missing. -/
theorem reordered_under_not :
    Permuted (.notCondition (.allCondition [isPublic, isRed]))
      (.notCondition (.allCondition [isRed, isPublic])) ∧
    (evaluateCondition (.background (W := Unit)) (.notCondition (.allCondition [isPublic, isRed]))
      secretRequest {} ()).1 = .returned ⟨true, .statusMatch, 3⟩ none ∧
    (evaluateCondition (.background (W := Unit)) (.notCondition (.allCondition [isRed, isPublic]))
      secretRequest {} ()).1 = .returned ⟨false, .statusMissing, 3⟩ none := by
  exact ⟨.not (.all_swap isPublic isRed trivial), by decide +kernel, by decide +kernel⟩

end Authorization.Abac
