import Mathlib

/-!
# Walking a tree with an explicit stack

A loop is given by its body: a turn ends it with a result or leads to the next
state, and `Returns` says what it ends with.  A loop whose turns lower a measure is
computed by a function on fuel (`returns_of_fuel`), and a property that every turn
carries over, both ways, says when it ends with a given result
(`returns_iff_of_turn`).

`Walk` is the loop that visits a tree from a stack of nodes with their depths.  A
node is refused if it is too deep or fails its check, and the walk ends when the
weights of the nodes visited exceed what is allowed.  `Walk.returns_none_iff` says
what it accepts without a stack: by the soundness, the depth and the total weight of
the trees.
-/

namespace Authorization.Foundation

/-! ### Loops -/

section Loop

variable {σ ρ : Type*} {turn : σ → ρ ⊕ σ} {measure : σ → Nat}

/-- The loop with this body returns `r` from the state `s`. -/
inductive Returns (turn : σ → ρ ⊕ σ) : σ → ρ → Prop
  | stop {s : σ} {r : ρ} : turn s = .inl r → Returns turn s r
  | again {s s' : σ} {r : ρ} : turn s = .inr s' → Returns turn s' r → Returns turn s r

theorem returns_iff {s : σ} {r : ρ} :
    Returns turn s r ↔ (turn s).elim (· = r) (Returns turn · r) := by
  constructor
  · intro h
    cases h with
    | stop hstop => rw [hstop]; rfl
    | again hagain h => rw [hagain]; exact h
  · intro h
    cases hturn : turn s with
    | inl r' =>
      rw [hturn] at h
      exact .stop (hturn.trans (congrArg Sum.inl h))
    | inr s' =>
      rw [hturn] at h
      exact .again hturn h

theorem Returns.unique {s : σ} {r r' : ρ} (h : Returns turn s r) (h' : Returns turn s r') :
    r = r' := by
  induction h with
  | stop hstop =>
    rw [returns_iff, hstop] at h'
    exact h'
  | again hagain _ ih =>
    rw [returns_iff, hagain] at h'
    exact ih h'

/-- **Enough fuel.**  What makes the turns on fuel, from the states of an invariant,
returns what the loop returns, if the fuel exceeds a measure that every turn lowers. -/
theorem returns_of_fuel {I : σ → Prop} {f : Nat → σ → ρ}
    (hI : ∀ s s', I s → turn s = .inr s' → I s')
    (hf : ∀ n s, I s → f (n + 1) s = (turn s).elim id (f n))
    (hmeasure : ∀ s s', turn s = .inr s' → measure s' < measure s) :
    ∀ n s, I s → measure s < n → Returns turn s (f n s) := by
  intro n
  induction n with
  | zero => intro s _ hs; omega
  | succ n ih =>
    intro s hIs hs
    rw [hf n s hIs]
    cases hturn : turn s with
    | inl r => exact .stop hturn
    | inr s' =>
      have hless := hmeasure s s' hturn
      exact .again hturn (ih s' (hI s s' hIs hturn) (by omega))

/-- **What the loop returns, by turns.** -/
theorem returns_iff_of_turn {r : ρ} {P : σ → Prop}
    (hP : ∀ s, P s ↔ (turn s).elim (· = r) P)
    (hmeasure : ∀ s s', turn s = .inr s' → measure s' < measure s) :
    ∀ s, Returns turn s r ↔ P s := by
  have hbound : ∀ n s, measure s < n → (Returns turn s r ↔ P s) := by
    intro n
    induction n with
    | zero => intro s hs; omega
    | succ n ih =>
      intro s hs
      rw [returns_iff, hP s]
      cases hturn : turn s with
      | inl r' => exact Iff.rfl
      | inr s' =>
        have hless := hmeasure s s' hturn
        exact ih s' (by omega)
  exact fun s => hbound (measure s + 1) s (Nat.lt_succ_self _)

end Loop

/-! ### Walks -/

/-- What a walk visits and what it refuses. -/
structure Walk (α ε : Type*) where
  children : α → List α
  check : α → Option ε
  weight : α → Nat
  maxDepth : Int
  maxWeight : Int
  tooDeep : ε
  tooHeavy : ε

namespace Walk

variable {α ε : Type*} (walk : Walk α ε)

/-- The frames of the children of a node. -/
def below (node : α) (depth : Int) : List (α × Int) :=
  (walk.children node).map fun child => (child, depth + 1)

/-- One turn: the top of the stack is the head of the list, the number is the weight
of the nodes visited so far. -/
def turn : List (α × Int) × Int → Option ε ⊕ (List (α × Int) × Int)
  | ([], _) => .inl none
  | ((node, depth) :: stack, spent) =>
    if depth > walk.maxDepth then .inl (some walk.tooDeep)
    else
      match walk.check node with
      | some err => .inl (some err)
      | none =>
        if walk.weight node > walk.maxWeight - spent then .inl (some walk.tooHeavy)
        else .inr (walk.below node depth ++ stack, spent + walk.weight node)

/-- What is made of a turn. -/
theorem elim_turn_cons {γ : Type*} (f : Option ε → γ) (g : List (α × Int) × Int → γ) (node : α)
    (depth : Int) (stack : List (α × Int)) (spent : Int) :
    (walk.turn ((node, depth) :: stack, spent)).elim f g =
      if depth > walk.maxDepth then f (some walk.tooDeep)
      else
        match walk.check node with
        | some err => f (some err)
        | none =>
          if walk.weight node > walk.maxWeight - spent then f (some walk.tooHeavy)
          else g (walk.below node depth ++ stack, spent + walk.weight node) := by
  rw [turn]
  split
  · rfl
  cases walk.check node with
  | some err => rfl
  | none =>
    dsimp only
    split <;> rfl

/-- A turn that goes on has taken a node that passes. -/
theorem turn_eq_inr {walk : Walk α ε} {s s' : List (α × Int) × Int}
    (h : walk.turn s = .inr s') :
    ∃ node depth stack, s.1 = (node, depth) :: stack ∧ depth ≤ walk.maxDepth ∧
      walk.check node = none ∧ s' = (walk.below node depth ++ stack, s.2 + walk.weight node) := by
  obtain ⟨stack, spent⟩ := s
  cases stack with
  | nil => cases h
  | cons frame stack =>
    obtain ⟨node, depth⟩ := frame
    rw [turn] at h
    split at h
    · cases h
    rename_i hdepth
    split at h
    · cases h
    rename_i hcheck
    split at h
    · cases h
    cases h
    exact ⟨node, depth, stack, rfl, Int.not_lt.mp hdepth, hcheck, rfl⟩

/-- The recursive readings of a walk over finite trees: how many nodes there are, how
deep they are nested, what they weigh together, and whether all of them pass. -/
structure Tree (size depth total : α → Nat) (Sound : α → Prop) : Prop where
  size_children : ∀ node, ((walk.children node).map size).sum < size node
  sound_iff : ∀ node, Sound node ↔
    walk.check node = none ∧ ∀ child ∈ walk.children node, Sound child
  depth_pos : ∀ node, 0 < depth node
  /-- A node is one level above the deepest of its children. -/
  depth_le_iff : ∀ node, walk.check node = none → ∀ n : Nat,
    depth node ≤ n + 1 ↔ ∀ child ∈ walk.children node, depth child ≤ n
  total_eq : ∀ node, total node = walk.weight node + ((walk.children node).map total).sum

section Tree

variable {walk} {size depth total : α → Nat} {Sound : α → Prop}

/-- The sum of a reading over the trees on a stack. -/
def stackSum (f : α → Nat) (stack : List (α × Int)) : Nat :=
  (stack.map fun frame => f frame.1).sum

theorem stackSum_below_append (f : α → Nat) (node : α) (level : Int) (stack : List (α × Int)) :
    stackSum f (walk.below node level ++ stack)
      = ((walk.children node).map f).sum + stackSum f stack := by
  rw [stackSum, List.map_append, List.sum_append, below, List.map_map]
  rfl

/-- Every turn takes a node off the stack. -/
theorem Tree.size_lt (h : walk.Tree size depth total Sound) (s s' : List (α × Int) × Int)
    (hturn : walk.turn s = .inr s') : stackSum size s'.1 < stackSum size s.1 := by
  obtain ⟨node, level, stack, hs, -, -, hs'⟩ := turn_eq_inr hturn
  have hsize := h.size_children node
  rw [hs, hs', stackSum_below_append]
  show _ < size node + stackSum size stack
  omega

/-- A tree at this level does not reach below the deepest level allowed. -/
def Within (walk : Walk α ε) (depth : α → Nat) (frame : α × Int) : Prop :=
  frame.2 + depth frame.1 ≤ walk.maxDepth + 1

theorem Tree.level_le (h : walk.Tree size depth total Sound) {node : α} {level : Int}
    (hwithin : walk.Within depth (node, level)) : level ≤ walk.maxDepth := by
  have hpos := h.depth_pos node
  have hle : level + depth node ≤ walk.maxDepth + 1 := hwithin
  omega

theorem Tree.within_iff (h : walk.Tree size depth total Sound) {node : α} {level : Int}
    (hcheck : walk.check node = none) (hlevel : level ≤ walk.maxDepth) :
    walk.Within depth (node, level) ↔ ∀ frame ∈ walk.below node level, walk.Within depth frame := by
  have hiff := h.depth_le_iff node hcheck (walk.maxDepth - level).toNat
  constructor
  · intro hwithin frame hframe
    obtain ⟨child, hchild, rfl⟩ := List.mem_map.mp hframe
    have hle : level + depth node ≤ walk.maxDepth + 1 := hwithin
    have hbelow := hiff.mp (by omega) child hchild
    show level + 1 + depth child ≤ walk.maxDepth + 1
    omega
  · intro hbelow
    have hle : depth node ≤ (walk.maxDepth - level).toNat + 1 := by
      refine hiff.mpr fun child hchild => ?_
      have hwithin : level + 1 + depth child ≤ walk.maxDepth + 1 :=
        hbelow (child, level + 1) (List.mem_map_of_mem hchild)
      omega
    show level + depth node ≤ walk.maxDepth + 1
    omega

/-- What is still on the stack passes. -/
def Passes (walk : Walk α ε) (depth total : α → Nat) (Sound : α → Prop)
    (s : List (α × Int) × Int) : Prop :=
  (∀ frame ∈ s.1, Sound frame.1 ∧ walk.Within depth frame) ∧
    (s.1 = [] ∨ s.2 + stackSum total s.1 ≤ walk.maxWeight)

theorem Tree.passes_turn (h : walk.Tree size depth total Sound) (s : List (α × Int) × Int) :
    walk.Passes depth total Sound s ↔
      (walk.turn s).elim (· = none) (walk.Passes depth total Sound) := by
  obtain ⟨stack, spent⟩ := s
  cases stack with
  | nil => exact iff_of_true ⟨fun _ hframe => absurd hframe List.not_mem_nil, Or.inl rfl⟩ rfl
  | cons frame stack =>
    obtain ⟨node, level⟩ := frame
    rw [turn]
    by_cases hlevel : level > walk.maxDepth
    · rw [if_pos hlevel]
      refine iff_of_false (fun hpasses => ?_) (Option.some_ne_none _)
      exact absurd (h.level_le (hpasses.1 _ List.mem_cons_self).2) (Int.not_le.mpr hlevel)
    rw [if_neg hlevel]
    have hlevel := Int.not_lt.mp hlevel
    cases hcheck : walk.check node with
    | some err =>
      refine iff_of_false (fun hpasses => ?_) (Option.some_ne_none _)
      have hsound := (h.sound_iff node).mp (hpasses.1 _ List.mem_cons_self).1
      exact absurd (hcheck.symm.trans hsound.1) (Option.some_ne_none _)
    | none =>
      have htotal := h.total_eq node
      have hsum : stackSum total ((node, level) :: stack) = total node + stackSum total stack := rfl
      have hbelow : stackSum total (walk.below node level ++ stack) = _ :=
        stackSum_below_append total node level stack
      dsimp only
      by_cases hheavy : walk.weight node > walk.maxWeight - spent
      · rw [if_pos hheavy]
        refine iff_of_false (fun hpasses => ?_) (Option.some_ne_none _)
        have hle : spent + stackSum total ((node, level) :: stack) ≤ walk.maxWeight :=
          hpasses.2.resolve_left (List.cons_ne_nil _ _)
        omega
      rw [if_neg hheavy]
      have hsound : Sound node ↔ ∀ frame ∈ walk.below node level, Sound frame.1 := by
        rw [h.sound_iff node, below, List.forall_mem_map]
        exact and_iff_right hcheck
      have hwithin := h.within_iff hcheck hlevel
      constructor
      · rintro ⟨hframes, hweight⟩
        obtain ⟨hnode, hstack⟩ := List.forall_mem_cons.mp hframes
        refine ⟨fun frame hframe => ?_, Or.inr ?_⟩
        · rcases List.mem_append.mp hframe with hframe | hframe
          · exact ⟨hsound.mp hnode.1 frame hframe, hwithin.mp hnode.2 frame hframe⟩
          · exact hstack frame hframe
        · have hle : spent + stackSum total ((node, level) :: stack) ≤ walk.maxWeight :=
            hweight.resolve_left (List.cons_ne_nil _ _)
          show spent + walk.weight node + stackSum total (walk.below node level ++ stack)
            ≤ walk.maxWeight
          omega
      · rintro ⟨hframes, hweight⟩
        refine ⟨List.forall_mem_cons.mpr ⟨⟨?_, ?_⟩, ?_⟩, Or.inr ?_⟩
        · exact hsound.mpr fun frame hframe => (hframes frame (List.mem_append_left _ hframe)).1
        · exact hwithin.mpr fun frame hframe => (hframes frame (List.mem_append_left _ hframe)).2
        · exact fun frame hframe => hframes frame (List.mem_append_right _ hframe)
        · show spent + stackSum total ((node, level) :: stack) ≤ walk.maxWeight
          rcases hweight with hempty | hle
          · have hzero : stackSum total (walk.below node level ++ stack) = 0 := by
              dsimp only at hempty
              rw [hempty]
              rfl
            omega
          · have hle : spent + walk.weight node + stackSum total (walk.below node level ++ stack)
                ≤ walk.maxWeight := hle
            omega

/-- **What a walk accepts**: sound trees that are not too deep and not too heavy. -/
theorem Tree.returns_none_iff (h : walk.Tree size depth total Sound) (root : α) :
    Returns walk.turn ([(root, 1)], 0) none ↔
      Sound root ∧ depth root ≤ walk.maxDepth ∧ total root ≤ walk.maxWeight := by
  rw [returns_iff_of_turn h.passes_turn h.size_lt, Passes]
  have hwithin : walk.Within depth (root, 1) ↔ depth root ≤ walk.maxDepth := by
    show (1 : Int) + depth root ≤ walk.maxDepth + 1 ↔ _
    omega
  have hweight : (0 : Int) + stackSum total [(root, 1)] ≤ walk.maxWeight ↔
      total root ≤ walk.maxWeight := by
    show (0 : Int) + (total root + 0 : Nat) ≤ walk.maxWeight ↔ _
    omega
  simp only [List.forall_mem_singleton, List.cons_ne_nil, false_or, hwithin, hweight, and_assoc]

/-- **A walk over trees that are not too deep** fails for their weight or for a check. -/
theorem Tree.returns_some (h : walk.Tree size depth total Sound) {err : ε}
    {s : List (α × Int) × Int} (hreturns : Returns walk.turn s (some err))
    (hwithin : ∀ frame ∈ s.1, walk.Within depth frame) :
    err = walk.tooHeavy ∨ ∃ node, walk.check node = some err := by
  generalize hr : some err = r at hreturns
  induction hreturns with
  | @stop s r hstop =>
    subst hr
    obtain ⟨stack, spent⟩ := s
    cases stack with
    | nil => cases hstop
    | cons frame stack =>
      obtain ⟨node, level⟩ := frame
      have hlevel := h.level_le (hwithin _ List.mem_cons_self)
      rw [turn, if_neg (Int.not_lt.mpr hlevel)] at hstop
      split at hstop
      · rename_i failure hcheck
        cases hstop
        exact Or.inr ⟨node, hcheck⟩
      · split at hstop
        · cases hstop
          exact Or.inl rfl
        · cases hstop
  | @again s s' r hturn hreturns ih =>
    obtain ⟨node, level, stack, hs, hlevel, hcheck, hs'⟩ := turn_eq_inr hturn
    refine ih (fun frame hframe => ?_) hr
    rw [hs] at hwithin
    rw [hs'] at hframe
    rcases List.mem_append.mp hframe with hframe | hframe
    · exact (h.within_iff hcheck hlevel).mp (hwithin _ List.mem_cons_self) frame hframe
    · exact hwithin frame (List.mem_cons_of_mem _ hframe)

end Tree

end Walk

end Authorization.Foundation
