import Authorization.Foundation.Closure
import Authorization.Foundation.GoMap

/-!
# Cycles and longest chains, depth first

Two recursions over a finite graph given by successor lists.  `colour` marks a node
1 while its successors are being visited and 2 when they are done, and fails when it
meets a node marked 1; `longest` remembers the length of the longest chain from
every node it has finished.

`colourAll_eq_none` says that the search fails exactly when the graph has a cycle,
from whatever list of roots that covers the graph, and `longest_spec` that without a
cycle the length is the longest chain's.  The fuel bounds the depth of the recursion.
`Colours` and `Lengths` are the same recursions without fuel: a derivation is a
recursion that ends, and the specifications provide one.
-/

namespace Authorization.Foundation

variable {κ : Type*}

/-! ### Chains -/

/-- A chain of the given number of steps. -/
inductive Steps (r : κ → κ → Prop) : Nat → κ → κ → Prop
  | refl (a : κ) : Steps r 0 a a
  | head {n : Nat} {a b c : κ} : r a b → Steps r n b c → Steps r (n + 1) a c

theorem Steps.of_reflTransGen {r : κ → κ → Prop} {a b : κ} (h : Relation.ReflTransGen r a b) :
    ∃ n, Steps r n a b := by
  induction h using Relation.ReflTransGen.head_induction_on with
  | refl => exact ⟨0, .refl _⟩
  | head hstep _ ih =>
    obtain ⟨n, hn⟩ := ih
    exact ⟨n + 1, .head hstep hn⟩

/-- The steps of the graph. -/
def Edge (next : κ → List κ) (a b : κ) : Prop := b ∈ next a

/-- Every chain from the node ends. -/
def Founded (next : κ → List κ) (k : κ) : Prop := Acc (fun b a => Edge next a b) k

theorem Founded.of_next {next : κ → List κ} {k : κ} (h : ∀ c ∈ next k, Founded next c) :
    Founded next k := Acc.intro k h

theorem Founded.next {next : κ → List κ} {k c : κ} (h : Founded next k) (hc : c ∈ next k) :
    Founded next c := h.inv hc

theorem Founded.not_cycle {next : κ → List κ} {k : κ} (h : Founded next k) :
    ¬ Relation.TransGen (Edge next) k k := by
  have hacc : Acc (Relation.TransGen fun b a => Edge next a b) k := Acc.transGen h
  intro hcycle
  have hloop : Relation.TransGen (fun b a => Edge next a b) k k :=
    Relation.transGen_swap.mp hcycle
  clear hcycle h
  induction hacc with
  | intro x _ ih => exact ih x hloop hloop

variable [DecidableEq κ] {next : κ → List κ} {nodes : List κ}

/-! ### Three colours -/

/-- Marks the node and what it leads to; `none` is a cycle. -/
def colour (next : κ → List κ) : Nat → κ → GoMap κ UInt8 → Option (GoMap κ UInt8)
  | 0, _, states => some states
  | fuel + 1, k, states =>
    if (states.lookup k).getD 0 = 1 then none
    else if (states.lookup k).getD 0 = 2 then some states
    else ((next k).foldlM (fun states c => colour next fuel c states) (states.insert k 1)).map
      (·.insert k 2)

/-- A fold that may fail, with a reason for the failure. -/
theorem foldlM_elim {σ α ε : Type*} (err : ε) (f : σ → α → Option σ) :
    ∀ (l : List α) (s : σ), l.foldlM (fun s a => (f s a).elim (Except.error err) Except.ok) s
      = (l.foldlM f s).elim (Except.error err) Except.ok := by
  intro l
  induction l with
  | nil => intro s; rfl
  | cons a l ih =>
    intro s
    rw [List.foldlM_cons, List.foldlM_cons]
    cases f s a with
    | none => rfl
    | some s' => exact ih s'

/-- The visits of a list of nodes, one after the other. -/
inductive Colours (next : κ → List κ) : List κ → GoMap κ UInt8 → Option (GoMap κ UInt8) → Prop
  | nil (states : GoMap κ UInt8) : Colours next [] states (some states)
  | grey {k : κ} {ks : List κ} {states : GoMap κ UInt8} :
      (states.lookup k).getD 0 = 1 → Colours next (k :: ks) states none
  | black {k : κ} {ks : List κ} {states : GoMap κ UInt8} {result : Option (GoMap κ UInt8)} :
      (states.lookup k).getD 0 = 2 → Colours next ks states result →
      Colours next (k :: ks) states result
  | cycle {k : κ} {ks : List κ} {states : GoMap κ UInt8} :
      states.lookup k = none → Colours next (next k) (states.insert k 1) none →
      Colours next (k :: ks) states none
  | done {k : κ} {ks : List κ} {states states' : GoMap κ UInt8}
      {result : Option (GoMap κ UInt8)} :
      states.lookup k = none → Colours next (next k) (states.insert k 1) (some states') →
      Colours next ks (states'.insert k 2) result → Colours next (k :: ks) states result

theorem Colours.cons {k : κ} {ks : List κ} {states states' : GoMap κ UInt8}
    {result : Option (GoMap κ UInt8)} (h : Colours next [k] states (some states'))
    (h' : Colours next ks states' result) : Colours next (k :: ks) states result := by
  cases h with
  | black hblack hnil => cases hnil; exact .black hblack h'
  | done hwhite hnext hnil => cases hnil; exact .done hwhite hnext h'

theorem Colours.cons_none {k : κ} {ks : List κ} {states : GoMap κ UInt8}
    (h : Colours next [k] states none) : Colours next (k :: ks) states none := by
  cases h with
  | grey hgrey => exact .grey hgrey
  | black _ hnil => cases hnil
  | cycle hwhite hnext => exact .cycle hwhite hnext
  | done _ _ hnil => cases hnil

/-- Marks are 1 or 2, and from a node marked 2 every chain ends. -/
structure Coloured (next : κ → List κ) (states : GoMap κ UInt8) : Prop where
  range : ∀ k v, states.lookup k = some v → v = 1 ∨ v = 2
  founded : ∀ k, states.lookup k = some 2 → Founded next k

/-- The visits of `ks` succeeded. -/
structure Visited (next : κ → List κ) (ks : List κ) (states states' : GoMap κ UInt8) : Prop where
  coloured : Coloured next states'
  keys : states.keys ⊆ states'.keys
  grey : ∀ k, states'.lookup k = some 1 ↔ states.lookup k = some 1
  black : ∀ k, states.lookup k = some 2 → states'.lookup k = some 2
  marked : ∀ k ∈ ks, states'.lookup k = some 2

/-- What the visits of `ks` come to. -/
def VisitSpec (next : κ → List κ) (ks : List κ) (states : GoMap κ UInt8)
    (result : Option (GoMap κ UInt8)) : Prop :=
  Colours next ks states result ∧
    match result with
    | none => ∃ x, Relation.TransGen (Edge next) x x
    | some states' => Visited next ks states states'

theorem Visited.refl {states : GoMap κ UInt8} (h : Coloured next states) :
    Visited next [] states states :=
  ⟨h, List.Subset.refl _, fun _ => Iff.rfl, fun _ hk => hk, fun _ hk => absurd hk List.not_mem_nil⟩

theorem Visited.cons {k : κ} {ks : List κ} {s s' s'' : GoMap κ UInt8}
    (h : Visited next [k] s s') (h' : Visited next ks s' s'') : Visited next (k :: ks) s s'' where
  coloured := h'.coloured
  keys := List.Subset.trans h.keys h'.keys
  grey x := (h'.grey x).trans (h.grey x)
  black x hx := h'.black x (h.black x hx)
  marked := by
    intro x hx
    rcases List.mem_cons.mp hx with rfl | hx
    · exact h'.black x (h.marked x List.mem_cons_self)
    · exact h'.marked x hx

/-- The nodes being visited lead to the node. -/
def GreyLeads (next : κ → List κ) (states : GoMap κ UInt8) (k : κ) : Prop :=
  ∀ g, states.lookup g = some 1 → Relation.TransGen (Edge next) g k

/-- Visits in turn, if each of them meets its specification. -/
theorem VisitSpec.foldlM (f : κ → GoMap κ UInt8 → Option (GoMap κ UInt8)) (bound : Nat)
    (hf : ∀ k states, Coloured next states → GreyLeads next states k →
      unseen nodes states.keys < bound → VisitSpec next [k] states (f k states)) :
    ∀ (ks : List κ) (states : GoMap κ UInt8), Coloured next states →
      (∀ k ∈ ks, GreyLeads next states k) → unseen nodes states.keys < bound →
      VisitSpec next ks states (ks.foldlM (fun states k => f k states) states) := by
  intro ks
  induction ks with
  | nil => intro states h _ _; exact ⟨.nil states, .refl h⟩
  | cons k ks ih =>
    intro states h hgrey hbound
    rw [List.foldlM_cons]
    have hk := hf k states h (hgrey k List.mem_cons_self) hbound
    cases hresult : f k states with
    | none =>
      rw [hresult] at hk
      exact ⟨hk.1.cons_none, hk.2⟩
    | some states' =>
      rw [hresult] at hk
      obtain ⟨hcolours, hvisited⟩ := hk
      have hrest := ih states' hvisited.coloured
        (fun c hc g hg => hgrey c (List.mem_cons_of_mem _ hc) g ((hvisited.grey g).mp hg))
        (Nat.lt_of_le_of_lt (unseen_mono hvisited.keys) hbound)
      refine ⟨hcolours.cons hrest.1, ?_⟩
      have hspec := hrest.2
      show match ks.foldlM (fun states k => f k states) states' with
        | none => _
        | some states'' => _
      cases hfold : ks.foldlM (fun states k => f k states) states' with
      | none =>
        rw [hfold] at hspec
        exact hspec
      | some states'' =>
        rw [hfold] at hspec
        exact hvisited.cons hspec

theorem lookup_cases {states : GoMap κ UInt8} (h : Coloured next states) (k : κ) :
    states.lookup k = some 1 ∨ states.lookup k = some 2 ∨ states.lookup k = none := by
  cases hk : states.lookup k with
  | none => exact Or.inr (Or.inr rfl)
  | some v =>
    rcases h.range k v hk with rfl | rfl
    · exact Or.inl rfl
    · exact Or.inr (Or.inl rfl)

/-- A node is marked 1 before its successors are visited. -/
theorem Coloured.insert_grey {states : GoMap κ UInt8} (h : Coloured next states) (k : κ) :
    Coloured next (states.insert k 1) := by
  constructor
  · intro x v hx
    by_cases hxk : x = k
    · subst hxk
      rw [AList.lookup_insert] at hx
      cases hx
      exact Or.inl rfl
    · rw [AList.lookup_insert_ne hxk] at hx
      exact h.range x v hx
  · intro x hx
    by_cases hxk : x = k
    · subst hxk
      rw [AList.lookup_insert] at hx
      cases hx
    · rw [AList.lookup_insert_ne hxk] at hx
      exact h.founded x hx

/-- And 2 when they are done. -/
theorem Visited.node {k : κ} {states states' : GoMap κ UInt8} (hwhite : states.lookup k = none)
    (h : Visited next (next k) (states.insert k 1) states') :
    Visited next [k] states (states'.insert k 2) := by
  refine ⟨⟨?_, ?_⟩, ?_, ?_, ?_, ?_⟩
  · intro x v hx
    by_cases hxk : x = k
    · subst hxk
      rw [AList.lookup_insert] at hx
      cases hx
      exact Or.inr rfl
    · rw [AList.lookup_insert_ne hxk] at hx
      exact h.coloured.range x v hx
  · intro x hx
    by_cases hxk : x = k
    · subst hxk
      exact .of_next fun c hc => h.coloured.founded c (h.marked c hc)
    · rw [AList.lookup_insert_ne hxk] at hx
      exact h.coloured.founded x hx
  · intro x hx
    have hinsert : x ∈ (states.insert k 1).keys := by
      rw [← AList.mem_keys, AList.mem_insert]
      exact Or.inr hx
    have hmem : x ∈ states' := h.keys hinsert
    rw [← AList.mem_keys, AList.mem_insert]
    exact Or.inr hmem
  · intro x
    by_cases hxk : x = k
    · subst hxk
      rw [AList.lookup_insert, hwhite]
      exact ⟨nofun, nofun⟩
    · rw [AList.lookup_insert_ne hxk, h.grey x, AList.lookup_insert_ne hxk]
  · intro x hx
    by_cases hxk : x = k
    · subst hxk
      rw [hwhite] at hx
      cases hx
    · rw [AList.lookup_insert_ne hxk]
      refine h.black x ?_
      rw [AList.lookup_insert_ne hxk]
      exact hx
  · intro x hx
    rw [List.mem_singleton.mp hx, AList.lookup_insert]

theorem unseen_insert_lt {α : Type*} {states : GoMap κ α} {k : κ} {v : α} (hk : k ∈ nodes)
    (hwhite : states.lookup k = none) :
    unseen nodes (states.insert k v).keys < unseen nodes states.keys := by
  have hnew : k ∉ states.keys := AList.lookup_eq_none.mp hwhite
  refine Nat.lt_of_le_of_lt (unseen_mono ?_) (unseen_cons_lt hk hnew)
  intro x hx
  rw [← AList.mem_keys, AList.mem_insert]
  rcases List.mem_cons.mp hx with rfl | hx
  · exact Or.inl rfl
  · exact Or.inr hx

section Fuel

variable (hnext : ∀ k, k ∉ nodes → next k = [])

include hnext

/-- Fuel above the number of unmarked nodes with successors is enough. -/
theorem colour_spec : ∀ (fuel : Nat) (k : κ) (states : GoMap κ UInt8), Coloured next states →
    GreyLeads next states k → unseen nodes states.keys < fuel →
    VisitSpec next [k] states (colour next fuel k states) := by
  intro fuel
  induction fuel with
  | zero => intro k states _ _ h; omega
  | succ fuel ih =>
    intro k states h hgrey hfuel
    rw [colour]
    rcases lookup_cases h k with hk | hk | hk
    · rw [if_pos (by rw [hk]; rfl)]
      exact ⟨.grey (by rw [hk]; rfl), k, hgrey k hk⟩
    · rw [if_neg (by rw [hk]; decide), if_pos (by rw [hk]; rfl)]
      refine ⟨.black (by rw [hk]; rfl) (.nil _), h, List.Subset.refl _, fun _ => Iff.rfl,
        fun _ hx => hx, ?_⟩
      intro x hx
      rw [List.mem_singleton.mp hx, hk]
    · rw [if_neg (by rw [hk]; decide), if_neg (by rw [hk]; decide)]
      -- the successors are led to by what is being visited, and now by `k` too
      have hchildren : ∀ c ∈ next k, GreyLeads next (states.insert k 1) c := by
        intro c hc g hg
        by_cases hgk : g = k
        · subst hgk
          exact .single hc
        · rw [AList.lookup_insert_ne hgk] at hg
          exact .tail (hgrey g hg) hc
      have hspec : VisitSpec next (next k) (states.insert k 1)
          ((next k).foldlM (fun states c => colour next fuel c states) (states.insert k 1)) := by
        by_cases hnode : k ∈ nodes
        · have hlt := unseen_insert_lt (v := (1 : UInt8)) hnode hk
          exact VisitSpec.foldlM (fun c states => colour next fuel c states) fuel ih _ _
            (h.insert_grey k) hchildren (by omega)
        · rw [hnext k hnode]
          exact ⟨.nil _, .refl (h.insert_grey k)⟩
      cases hfold : (next k).foldlM (fun states c => colour next fuel c states)
        (states.insert k 1) with
      | none =>
        rw [hfold] at hspec
        exact ⟨.cycle hk hspec.1, hspec.2⟩
      | some states' =>
        rw [hfold] at hspec
        exact ⟨.done hk hspec.1 (.nil _), Visited.node hk hspec.2⟩

/-- The visits of all roots. -/
theorem colourAll_spec {fuel : Nat} (hfuel : nodes.length < fuel) (roots : List κ) :
    VisitSpec next roots ∅
      (roots.foldlM (fun states k => colour next fuel k states) (∅ : GoMap κ UInt8)) := by
  refine VisitSpec.foldlM (fun k states => colour next fuel k states) fuel
    (colour_spec hnext fuel) roots ∅ ⟨nofun, nofun⟩ (fun _ _ => nofun) ?_
  exact Nat.lt_of_le_of_lt (List.length_filter_le _ _) hfuel

/-- **The search fails exactly on a cycle**, if the roots cover the graph. -/
theorem colourAll_eq_none {fuel : Nat} (hfuel : nodes.length < fuel) {roots : List κ}
    (hroots : nodes ⊆ roots) :
    roots.foldlM (fun states k => colour next fuel k states) (∅ : GoMap κ UInt8) = none ↔
      ∃ x, Relation.TransGen (Edge next) x x := by
  obtain ⟨-, hspec⟩ := colourAll_spec hnext hfuel roots
  cases hresult : roots.foldlM (fun states k => colour next fuel k states) (∅ : GoMap κ UInt8) with
  | none =>
    rw [hresult] at hspec
    exact ⟨fun _ => hspec, fun _ => rfl⟩
  | some states =>
    rw [hresult] at hspec
    refine ⟨nofun, ?_⟩
    rintro ⟨x, hx⟩
    -- a node on a cycle has a successor, so it is a root and every chain from it ends
    obtain ⟨y, hy, -⟩ := Relation.TransGen.head'_iff.mp hx
    have hnode : x ∈ nodes := by
      by_contra hn
      have hnil : y ∈ next x := hy
      rw [hnext x hn] at hnil
      cases hnil
    have hblack : Visited next roots ∅ states := hspec
    exact absurd hx (hblack.coloured.founded x (hblack.marked x (hroots hnode))).not_cycle

/-- Without a cycle every chain ends. -/
theorem founded_of_acyclic (hacyclic : ∀ x, ¬ Relation.TransGen (Edge next) x x) (k : κ) :
    Founded next k := by
  have hspec := colourAll_spec hnext (Nat.lt_succ_self nodes.length) (k :: nodes)
  cases hresult : (k :: nodes).foldlM (fun states k => colour next (nodes.length + 1) k states)
      (∅ : GoMap κ UInt8) with
  | none =>
    rw [hresult] at hspec
    obtain ⟨x, hx⟩ := hspec.2
    exact absurd hx (hacyclic x)
  | some states =>
    rw [hresult] at hspec
    have hblack : Visited next (k :: nodes) ∅ states := hspec.2
    exact hblack.coloured.founded k (hblack.marked k List.mem_cons_self)

end Fuel

/-! ### Longest chains -/

/-- The length of the longest chain from the node, with the lengths known so far. -/
def longest (next : κ → List κ) : Nat → κ → GoMap κ Nat → Nat × GoMap κ Nat
  | 0, _, depths => (0, depths)
  | fuel + 1, k, depths =>
    match depths.lookup k with
    | some known => (known, depths)
    | none =>
      let result := (next k).foldl
        (fun acc c =>
          let child := longest next fuel c acc.2
          (max acc.1 (1 + child.1), child.2))
        (0, depths)
      (result.1, result.2.insert k result.1)

/-- The lengths of a list of nodes, one after the other; the first component is the
largest so far. -/
inductive Lengths (next : κ → List κ) : List κ → Nat × GoMap κ Nat → Nat × GoMap κ Nat → Prop
  | nil (acc : Nat × GoMap κ Nat) : Lengths next [] acc acc
  | known {k : κ} {ks : List κ} {m n : Nat} {depths : GoMap κ Nat} {result : Nat × GoMap κ Nat} :
      depths.lookup k = some n → Lengths next ks (max m (1 + n), depths) result →
      Lengths next (k :: ks) (m, depths) result
  | node {k : κ} {ks : List κ} {m n : Nat} {depths depths' : GoMap κ Nat}
      {result : Nat × GoMap κ Nat} :
      depths.lookup k = none → Lengths next (next k) (0, depths) (n, depths') →
      Lengths next ks (max m (1 + n), depths'.insert k n) result →
      Lengths next (k :: ks) (m, depths) result

theorem Lengths.cons {k : κ} {ks : List κ} {acc acc' result : Nat × GoMap κ Nat}
    (h : Lengths next [k] acc acc') (h' : Lengths next ks acc' result) :
    Lengths next (k :: ks) acc result := by
  cases h with
  | known hknown hnil => cases hnil; exact .known hknown h'
  | node hnew hnext hnil => cases hnil; exact .node hnew hnext h'

/-- The longest chain from the node has `n` steps. -/
structure IsHeight (next : κ → List κ) (k : κ) (n : Nat) : Prop where
  attained : ∃ x, Steps (Edge next) n k x
  bound : ∀ m x, Steps (Edge next) m k x → m ≤ n

def Remembered (next : κ → List κ) (depths : GoMap κ Nat) : Prop :=
  ∀ k n, depths.lookup k = some n → IsHeight next k n

/-- What the length of one node comes to. -/
structure HeightSpec (next : κ → List κ) (k : κ) (depths : GoMap κ Nat)
    (result : Nat × GoMap κ Nat) : Prop where
  run : ∀ m, Lengths next [k] (m, depths) (max m (1 + result.1), result.2)
  height : IsHeight next k result.1
  remembered : Remembered next result.2

/-- What the lengths of a list of nodes come to. -/
structure HeightsSpec (next : κ → List κ) (ks : List κ) (acc result : Nat × GoMap κ Nat) :
    Prop where
  run : Lengths next ks acc result
  remembered : Remembered next result.2
  start : acc.1 ≤ result.1
  bound : ∀ k ∈ ks, ∀ n x, Steps (Edge next) n k x → n + 1 ≤ result.1
  attained : result.1 = acc.1 ∨ ∃ k ∈ ks, ∃ n x, Steps (Edge next) n k x ∧ result.1 = n + 1

/-- Lengths in turn, if each of them meets its specification. -/
theorem HeightsSpec.foldl (f : κ → GoMap κ Nat → Nat × GoMap κ Nat) :
    ∀ (ks : List κ) (acc : Nat × GoMap κ Nat),
      (∀ k ∈ ks, ∀ depths, Remembered next depths → HeightSpec next k depths (f k depths)) →
      Remembered next acc.2 →
      HeightsSpec next ks acc
        (ks.foldl (fun acc k => (max acc.1 (1 + (f k acc.2).1), (f k acc.2).2)) acc) := by
  intro ks
  induction ks with
  | nil =>
    intro acc _ h
    exact ⟨.nil acc, h, le_refl _, fun _ hk => absurd hk List.not_mem_nil, Or.inl rfl⟩
  | cons k ks ih =>
    intro acc hf h
    have hk := hf k List.mem_cons_self acc.2 h
    have hrest := ih (max acc.1 (1 + (f k acc.2).1), (f k acc.2).2)
      (fun c hc => hf c (List.mem_cons_of_mem _ hc)) hk.remembered
    have hstart : max acc.1 (1 + (f k acc.2).1) ≤ _ := hrest.start
    refine ⟨(hk.run acc.1).cons hrest.run, hrest.remembered, ?_, ?_, ?_⟩
    · exact le_trans (le_max_left _ _) hstart
    · intro c hc n x hsteps
      rcases List.mem_cons.mp hc with rfl | hc
      · have hn := hk.height.bound n x hsteps
        exact le_trans (by omega) (le_trans (le_max_right _ _) hstart)
      · exact hrest.bound c hc n x hsteps
    · rcases hrest.attained with he | ⟨c, hc, n, x, hsteps, he⟩
      · rcases le_total acc.1 (1 + (f k acc.2).1) with hle | hle
        · obtain ⟨x, hx⟩ := hk.height.attained
          refine Or.inr ⟨k, List.mem_cons_self, _, x, hx, he.trans ?_⟩
          show max _ _ = _
          rw [max_eq_right hle, Nat.add_comm]
        · exact Or.inl (he.trans (max_eq_left hle))
      · exact Or.inr ⟨c, List.mem_cons_of_mem _ hc, n, x, hsteps, he⟩

/-- The longest chain from a node goes through the longest from a successor. -/
theorem HeightsSpec.isHeight {k : κ} {depths : GoMap κ Nat} {result : Nat × GoMap κ Nat}
    (h : HeightsSpec next (next k) (0, depths) result) : IsHeight next k result.1 := by
  constructor
  · rcases h.attained with he | ⟨c, hc, n, x, hsteps, he⟩
    · rw [he]
      exact ⟨k, .refl k⟩
    · rw [he]
      exact ⟨x, .head hc hsteps⟩
  · intro m x hsteps
    cases hsteps with
    | refl => exact Nat.zero_le _
    | head hc hrest => exact h.bound _ hc _ x hrest

section Longest

variable (hnext : ∀ k, k ∉ nodes → next k = [])

include hnext

/-- **Without a cycle the length is the longest chain's.**  `stack` are the nodes whose
lengths are being computed. -/
theorem longest_spec : ∀ (fuel : Nat) (k : κ) (stack : List κ) (depths : GoMap κ Nat),
    Founded next k → (∀ g ∈ stack, Relation.TransGen (Edge next) g k) →
    unseen nodes stack < fuel → Remembered next depths →
    HeightSpec next k depths (longest next fuel k depths) := by
  intro fuel
  induction fuel with
  | zero => intro k stack depths _ _ h; omega
  | succ fuel ih =>
    intro k stack depths hfounded hstack hfuel hremembered
    rw [longest]
    cases hk : depths.lookup k with
    | some known =>
      exact ⟨fun m => .known hk (.nil _), hremembered k known hk, hremembered⟩
    | none =>
      have hspec : HeightsSpec next (next k) (0, depths) ((next k).foldl (fun acc c =>
          (max acc.1 (1 + (longest next fuel c acc.2).1), (longest next fuel c acc.2).2))
          (0, depths)) := by
        refine HeightsSpec.foldl (fun c depths => longest next fuel c depths) _ _ ?_ hremembered
        intro c hc depths' hd
        have hnode : k ∈ nodes := by
          by_contra hn
          rw [hnext k hn] at hc
          cases hc
        have hnew : k ∉ stack := fun hm => hfounded.not_cycle (hstack k hm)
        have hlt := unseen_cons_lt hnode hnew
        refine ih c (k :: stack) depths' (hfounded.next hc) ?_ (by omega) hd
        intro g hg
        rcases List.mem_cons.mp hg with rfl | hg
        · exact .single hc
        · exact .tail (hstack g hg) hc
      have hheight := hspec.isHeight
      refine ⟨fun m => .node hk hspec.run (.nil _), hheight, ?_⟩
      intro x n hx
      by_cases hxk : x = k
      · subst hxk
        rw [AList.lookup_insert] at hx
        cases hx
        exact hheight
      · rw [AList.lookup_insert_ne hxk] at hx
        exact hspec.remembered x n hx

end Longest

end Authorization.Foundation
