import Mathlib

/-!
# Depth-first closure

`closure next fuel node seen` marks `node` and then, depth first, everything
`next` leads to, skipping what is already in `seen`.  The fuel bounds the depth
of the recursion: only nodes with successors recurse, so one more than their
number is enough whatever the graph.

`mem_closureAll` is the result: from a list of roots, the closure is the set of
nodes reachable from one of them, without repetitions.  The order in which the
roots are visited is not part of it.
-/

namespace Authorization.Foundation

variable {κ : Type*}

/-- The second node is reached from the first along `next`. -/
def Reaches (next : κ → List κ) : κ → κ → Prop := Relation.ReflTransGen fun a b => b ∈ next a

/-- What a closure from `starts` around `seen` comes to. -/
structure ClosureSpec (next : κ → List κ) (starts seen result : List κ) : Prop where
  keeps : seen ⊆ result
  starts_mem : starts ⊆ result
  closed : ∀ x ∈ result, x ∈ seen ∨ next x ⊆ result
  sound : ∀ x ∈ result, x ∈ seen ∨ ∃ s ∈ starts, Reaches next s x
  nodup : seen.Nodup → result.Nodup

namespace ClosureSpec

variable {next : κ → List κ}

theorem nil (seen : List κ) : ClosureSpec next [] seen seen where
  keeps := List.Subset.refl _
  starts_mem := List.nil_subset _
  closed _ h := Or.inl h
  sound _ h := Or.inl h
  nodup h := h

theorem cons {s : κ} {starts seen middle result : List κ} (h : ClosureSpec next [s] seen middle)
    (h' : ClosureSpec next starts middle result) : ClosureSpec next (s :: starts) seen result where
  keeps := List.Subset.trans h.keeps h'.keeps
  starts_mem := by
    intro x hx
    rcases List.mem_cons.mp hx with rfl | hx
    · exact h'.keeps (h.starts_mem (by simp))
    · exact h'.starts_mem hx
  closed := by
    intro x hx
    rcases h'.closed x hx with hm | hn
    · rcases h.closed x hm with hs | hn
      · exact Or.inl hs
      · exact Or.inr (List.Subset.trans hn h'.keeps)
    · exact Or.inr hn
  sound := by
    intro x hx
    rcases h'.sound x hx with hm | ⟨t, ht, hr⟩
    · rcases h.sound x hm with hs | ⟨t, ht, hr⟩
      · exact Or.inl hs
      · exact Or.inr ⟨t, by simp_all, hr⟩
    · exact Or.inr ⟨t, List.mem_cons_of_mem _ ht, hr⟩
  nodup hn := h'.nodup (h.nodup hn)

/-- A node not seen yet, with the closure of its successors. -/
theorem node {k : κ} {seen result : List κ} (hnew : k ∉ seen)
    (h : ClosureSpec next (next k) (k :: seen) result) : ClosureSpec next [k] seen result where
  keeps := fun _ hx => h.keeps (List.mem_cons_of_mem _ hx)
  starts_mem := by
    intro x hx
    rw [List.mem_singleton.mp hx]
    exact h.keeps List.mem_cons_self
  closed := by
    intro x hx
    rcases h.closed x hx with hs | hn
    · rcases List.mem_cons.mp hs with rfl | hs
      · exact Or.inr h.starts_mem
      · exact Or.inl hs
    · exact Or.inr hn
  sound := by
    intro x hx
    rcases h.sound x hx with hs | ⟨t, ht, hr⟩
    · rcases List.mem_cons.mp hs with rfl | hs
      · exact Or.inr ⟨x, List.mem_singleton_self x, Relation.ReflTransGen.refl⟩
      · exact Or.inl hs
    · exact Or.inr ⟨k, List.mem_singleton_self k, Relation.ReflTransGen.head ht hr⟩
  nodup hn := h.nodup (List.nodup_cons.mpr ⟨hnew, hn⟩)

theorem of_mem {k : κ} {seen : List κ} (hk : k ∈ seen) : ClosureSpec next [k] seen seen where
  keeps := List.Subset.refl _
  starts_mem := by simpa using hk
  closed _ h := Or.inl h
  sound _ h := Or.inl h
  nodup h := h

/-- A chain of closures, if each of them meets its specification. -/
theorem foldl (f : κ → List κ → List κ) (P : List κ → Prop)
    (hmono : ∀ seen seen', seen ⊆ seen' → P seen → P seen')
    (hf : ∀ k seen, P seen → ClosureSpec next [k] seen (f k seen)) :
    ∀ (starts seen : List κ), P seen →
      ClosureSpec next starts seen (starts.foldl (fun seen k => f k seen) seen) := by
  intro starts
  induction starts with
  | nil => intro seen _; exact .nil seen
  | cons s starts ih =>
    intro seen hP
    have hs := hf s seen hP
    exact hs.cons (ih _ (hmono _ _ hs.keeps hP))

end ClosureSpec

variable [DecidableEq κ]

/-- The nodes of `seen` and those reached from `node` around them. -/
def closure (next : κ → List κ) : Nat → κ → List κ → List κ
  | 0, _, seen => seen
  | fuel + 1, node, seen =>
    if node ∈ seen then seen
    else (next node).foldl (fun seen child => closure next fuel child seen) (node :: seen)

/-- The closure of several roots. -/
def closureAll (next : κ → List κ) (fuel : Nat) (roots : List κ) : List κ :=
  roots.foldl (fun seen root => closure next fuel root seen) []

/-- The members of `nodes` not seen yet, the measure of the recursion. -/
def unseen (nodes seen : List κ) : Nat := (nodes.filter (· ∉ seen)).length

theorem unseen_mono {nodes seen seen' : List κ} (h : seen ⊆ seen') :
    unseen nodes seen' ≤ unseen nodes seen := by
  refine (List.Sublist.length_le ?_)
  refine List.monotone_filter_right nodes ?_
  intro k hk
  simp only [decide_not, Bool.not_eq_eq_eq_not, Bool.not_true, decide_eq_false_iff_not] at hk ⊢
  exact fun hc => hk (h hc)

theorem unseen_cons_lt {nodes seen : List κ} {k : κ} (hk : k ∈ nodes) (hnew : k ∉ seen) :
    unseen nodes (k :: seen) < unseen nodes seen := by
  unfold unseen
  have hsub : (nodes.filter (· ∉ k :: seen)).Sublist (nodes.filter (· ∉ seen)) := by
    refine List.monotone_filter_right nodes ?_
    intro x hx
    simp only [List.mem_cons, not_or, Bool.decide_and, decide_not, Bool.and_eq_true,
      Bool.not_eq_eq_eq_not, Bool.not_true, decide_eq_false_iff_not] at hx ⊢
    exact hx.2
  rcases Nat.lt_or_ge (nodes.filter (· ∉ k :: seen)).length (nodes.filter (· ∉ seen)).length
    with h | h
  · exact h
  · have he := hsub.eq_of_length_le h
    have hin : k ∈ nodes.filter (· ∉ seen) := List.mem_filter.mpr ⟨hk, by simpa using hnew⟩
    rw [← he] at hin
    simp at hin

section Fuel

variable {next : κ → List κ} {nodes : List κ} (hnext : ∀ k, k ∉ nodes → next k = [])

include hnext

/-- Fuel above the number of unseen nodes with successors is enough. -/
theorem closure_spec : ∀ (fuel : Nat) (k : κ) (seen : List κ), unseen nodes seen < fuel →
    ClosureSpec next [k] seen (closure next fuel k seen) := by
  intro fuel
  induction fuel with
  | zero => intro k seen h; omega
  | succ fuel ih =>
    intro k seen h
    rw [closure]
    by_cases hseen : k ∈ seen
    · rw [if_pos hseen]
      exact .of_mem hseen
    · rw [if_neg hseen]
      refine .node hseen ?_
      by_cases hk : k ∈ nodes
      · have hlt := unseen_cons_lt hk hseen
        exact ClosureSpec.foldl _ (fun seen => unseen nodes seen < fuel)
          (fun _ _ hs hP => Nat.lt_of_le_of_lt (unseen_mono hs) hP) (fun k seen hP => ih k seen hP)
          _ _ (by omega)
      · rw [hnext k hk]
        exact .nil _

theorem closureAll_spec {fuel : Nat} (hfuel : nodes.length < fuel) (roots : List κ) :
    ClosureSpec next roots [] (closureAll next fuel roots) := by
  refine ClosureSpec.foldl _ (fun seen => unseen nodes seen < fuel)
    (fun _ _ hs hP => Nat.lt_of_le_of_lt (unseen_mono hs) hP)
    (fun k seen hP => closure_spec hnext fuel k seen hP) roots [] ?_
  exact Nat.lt_of_le_of_lt (List.length_filter_le _ _) hfuel

/-- **The closure of the roots is what they reach.** -/
theorem mem_closureAll {fuel : Nat} (hfuel : nodes.length < fuel) {roots : List κ} {x : κ} :
    x ∈ closureAll next fuel roots ↔ ∃ r ∈ roots, Reaches next r x := by
  have h := closureAll_spec hnext hfuel roots
  constructor
  · intro hx
    rcases h.sound x hx with hs | hr
    · cases hs
    · exact hr
  · rintro ⟨r, hr, hreach⟩
    induction hreach with
    | refl => exact h.starts_mem hr
    | tail _ hstep ih =>
      rcases h.closed _ ih with hs | hn
      · cases hs
      · exact hn hstep

theorem nodup_closureAll {fuel : Nat} (hfuel : nodes.length < fuel) (roots : List κ) :
    (closureAll next fuel roots).Nodup :=
  (closureAll_spec hnext hfuel roots).nodup List.nodup_nil

end Fuel

end Authorization.Foundation
