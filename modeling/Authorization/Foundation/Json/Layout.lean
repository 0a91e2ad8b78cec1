import Authorization.Foundation.Json.Parse
import Authorization.Foundation.Json.Strings

/-!
# Layout and value of JSON texts

`indent` is the layout an indenting encoder gives a text, `escape` the escaping
of its strings, and `value` what is left when layout and spelling are
forgotten.  Both are rewritings of a tree node by node, so their laws are
instances of three: how rewritings compose, when they keep the value, and that
they keep the depth.

Indenting forgets the old layout and escaping once is enough, so a text that was
escaped and indented comes out the same the next time.

`object` and `array` are the texts an encoder builds, `members?` and `elements?`
what a decoder reads.
-/

namespace Authorization.Foundation.Json

/-! ### Rewriting -/

/-- What to do at the nodes of a tree; a level is how deep the container stands
that an item belongs to. -/
structure Rewrite where
  label : {kind : Kind} → Nat → Label kind → Label kind
  body : Body → Body
  inner : Ws → Ws
  comma : Ws → Ws
  closing : Nat → Ws → Ws

mutual

def Tree.rewrite (r : Rewrite) (level : Nat) : Tree → Tree
  | .null => .null
  | .bool value => .bool value
  | .num text => .num text
  | .str body => .str (r.body body)
  | .empty kind inner => .empty kind (r.inner inner)
  | .node kind items => .node kind (Items.rewrite r level items)

def Items.rewrite (r : Rewrite) (level : Nat) : {kind : Kind} → Items kind → Items kind
  | _, .last label value after =>
    .last (r.label level label) (value.rewrite r (level + 1)) (r.closing level after)
  | _, .cons label value after rest =>
    .cons (r.label level label) (value.rewrite r (level + 1)) (r.comma after)
      (Items.rewrite r level rest)

end

/-- `first` from level `m` and then `second` from level `n` do what `both` does
from level `k`. -/
structure Rewrite.Composes (first : Rewrite) (m : Nat) (second : Rewrite) (n : Nat)
    (both : Rewrite) (k : Nat) : Prop where
  label : ∀ (d : Nat) {kind : Kind} (label : Label kind),
    second.label (n + d) (first.label (m + d) label) = both.label (k + d) label
  body : ∀ body, second.body (first.body body) = both.body body
  inner : ∀ inner, second.inner (first.inner inner) = both.inner inner
  comma : ∀ after, second.comma (first.comma after) = both.comma after
  closing : ∀ d after,
    second.closing (n + d) (first.closing (m + d) after) = both.closing (k + d) after

theorem Rewrite.Composes.deeper {first second both : Rewrite} {m n k : Nat}
    (h : first.Composes m second n both k) : first.Composes (m + 1) second (n + 1) both (k + 1) where
  label d _ label := by
    simpa only [Nat.add_assoc, Nat.add_comm 1 d] using h.label (d + 1) label
  body := h.body
  inner := h.inner
  comma := h.comma
  closing d := by simpa only [Nat.add_assoc, Nat.add_comm 1 d] using h.closing (d + 1)

mutual

theorem Tree.rewrite_rewrite : ∀ (t : Tree) {first second both : Rewrite} {m n k : Nat},
    first.Composes m second n both k →
    (t.rewrite first m).rewrite second n = t.rewrite both k
  | .null, _, _, _, _, _, _, _ => rfl
  | .bool _, _, _, _, _, _, _, _ => rfl
  | .num _, _, _, _, _, _, _, _ => rfl
  | .str body, _, _, _, _, _, _, h => by simp only [Tree.rewrite, h.body]
  | .empty _ inner, _, _, _, _, _, _, h => by simp only [Tree.rewrite, h.inner]
  | .node kind items, _, _, _, _, _, _, h => by
    simp only [Tree.rewrite, Items.rewrite_rewrite items h]

theorem Items.rewrite_rewrite : ∀ {kind : Kind} (items : Items kind) {first second both : Rewrite}
    {m n k : Nat}, first.Composes m second n both k →
    (items.rewrite first m).rewrite second n = items.rewrite both k
  | _, .last label value after, _, _, _, _, _, _, h => by
    have hlabel := h.label 0 label
    have hclosing := h.closing 0 after
    simp only [Nat.add_zero] at hlabel hclosing
    simp only [Items.rewrite, hlabel, hclosing, Tree.rewrite_rewrite value h.deeper]
  | _, .cons label value after rest, _, _, _, _, _, _, h => by
    have hlabel := h.label 0 label
    simp only [Nat.add_zero] at hlabel
    simp only [Items.rewrite, hlabel, h.comma, Tree.rewrite_rewrite value h.deeper,
      Items.rewrite_rewrite rest h]

end

mutual

theorem Tree.depth_rewrite : ∀ (t : Tree) (r : Rewrite) (n : Nat), (t.rewrite r n).depth = t.depth
  | .null, _, _ => rfl
  | .bool _, _, _ => rfl
  | .num _, _, _ => rfl
  | .str _, _, _ => rfl
  | .empty _ _, _, _ => rfl
  | .node kind items, r, n => by simp only [Tree.rewrite, Tree.depth, Items.depth_rewrite items r n]

theorem Items.depth_rewrite : ∀ {kind : Kind} (items : Items kind) (r : Rewrite) (n : Nat),
    (items.rewrite r n).depth = items.depth
  | _, .last label value _, r, n => by
    simp only [Items.rewrite, Items.depth, Tree.depth_rewrite value]
  | _, .cons label value _ rest, r, n => by
    simp only [Items.rewrite, Items.depth, Tree.depth_rewrite value, Items.depth_rewrite rest]

end

/-! ### Values -/

/-- A JSON value: numbers by their text, strings as they are read, and the entries
of a container in order, with their keys in an object. -/
inductive Value
  | null
  | bool (value : Bool)
  | num (text : Bytes)
  | str (value : Bytes)
  | container (kind : Kind) (entries : List (Option Bytes × Value))

def Label.key : {kind : Kind} → Label kind → Option Bytes
  | _, .elem _ => none
  | _, .member _ key _ _ => some (unquote key.bytes)

mutual

def Tree.value : Tree → Value
  | .null => .null
  | .bool value => .bool value
  | .num text => .num text.bytes
  | .str body => .str (unquote body.bytes)
  | .empty kind _ => .container kind []
  | .node kind items => .container kind (Items.entries items)

def Items.entries : {kind : Kind} → Items kind → List (Option Bytes × Value)
  | _, .last label value _ => [(label.key, value.value)]
  | _, .cons label value _ rest => (label.key, value.value) :: Items.entries rest

end

/-- A rewriting that changes the spelling of strings at most. -/
structure Rewrite.KeepsValue (r : Rewrite) : Prop where
  body : ∀ body, unquote (r.body body).bytes = unquote body.bytes
  label : ∀ (n : Nat) {kind : Kind} (label : Label kind), (r.label n label).key = label.key

mutual

theorem Tree.value_rewrite : ∀ (t : Tree) {r : Rewrite} (n : Nat), r.KeepsValue →
    (t.rewrite r n).value = t.value
  | .null, _, _, _ => rfl
  | .bool _, _, _, _ => rfl
  | .num _, _, _, _ => rfl
  | .str body, _, _, h => by simp only [Tree.rewrite, Tree.value, h.body]
  | .empty _ _, _, _, _ => rfl
  | .node kind items, _, n, h => by
    simp only [Tree.rewrite, Tree.value, Items.entries_rewrite items n h]

theorem Items.entries_rewrite : ∀ {kind : Kind} (items : Items kind) {r : Rewrite} (n : Nat),
    r.KeepsValue → (items.rewrite r n).entries = items.entries
  | _, .last label value _, _, n, h => by
    simp only [Items.rewrite, Items.entries, h.label, Tree.value_rewrite value _ h]
  | _, .cons label value _ rest, _, n, h => by
    simp only [Items.rewrite, Items.entries, h.label, Tree.value_rewrite value _ h,
      Items.entries_rewrite rest n h]

end

/-! ### Indentation -/

/-- A line break and two spaces for each level. -/
def newline (level : Nat) : Ws where
  bytes := 0x0A :: List.replicate (2 * level) 0x20
  ok := by
    rw [List.all_cons, Bool.and_eq_true]
    exact ⟨by decide, List.all_eq_true.mpr fun b hb => by rw [List.eq_of_mem_replicate hb]; decide⟩

def Ws.space : Ws := ⟨[0x20], rfl⟩

def Label.indent (level : Nat) : {kind : Kind} → Label kind → Label kind
  | _, .elem _ => .elem (newline (level + 1))
  | _, .member _ key _ _ => .member (newline (level + 1)) key .nil .space

def indentation : Rewrite where
  label level label := label.indent level
  body := id
  inner _ := .nil
  comma _ := .nil
  closing level _ := newline level

/-- `json.Indent` with two spaces, for a value in a container at the given
level. -/
def Tree.indent (level : Nat) (t : Tree) : Tree := t.rewrite indentation level

/-! ### Escaping -/

def Label.escape : {kind : Kind} → Label kind → Label kind
  | _, .elem before => .elem before
  | _, .member before key colon value => .member before key.escape colon value

def escaping : Rewrite where
  label _ label := label.escape
  body := Body.escape
  inner := id
  comma := id
  closing _ := id

def Tree.escape (t : Tree) : Tree := t.rewrite escaping 0

/-- Both at once. -/
def escapedIndentation : Rewrite where
  label level label := (label.indent level).escape
  body := Body.escape
  inner _ := .nil
  comma _ := .nil
  closing level _ := newline level

theorem Body.escape_escape (body : Body) : body.escape.escape = body.escape := by
  simp only [Body.escape, Json.escape_escape]

theorem Label.escape_escape {kind : Kind} (label : Label kind) :
    label.escape.escape = label.escape := by
  cases label with
  | elem before => rfl
  | member before key colon value => simp only [Label.escape, Body.escape_escape]

/-- Indenting forgets the layout there was. -/
theorem Tree.indent_indent (t : Tree) (m n : Nat) : (t.indent m).indent n = t.indent n :=
  t.rewrite_rewrite
    { label := fun _ _ label => by cases label <;> rfl
      body := fun _ => rfl
      inner := fun _ => rfl
      comma := fun _ => rfl
      closing := fun _ _ => rfl }

theorem Tree.escape_escape (t : Tree) : t.escape.escape = t.escape :=
  t.rewrite_rewrite
    { label := fun _ _ label => label.escape_escape
      body := Body.escape_escape
      inner := fun _ => rfl
      comma := fun _ => rfl
      closing := fun _ _ => rfl }

theorem Tree.escape_indent (t : Tree) (n : Nat) : (t.indent n).escape = t.escape.indent n := by
  have hleft : (t.indent n).escape = t.rewrite escapedIndentation n :=
    t.rewrite_rewrite
      { label := fun _ _ _ => rfl
        body := fun _ => rfl
        inner := fun _ => rfl
        comma := fun _ => rfl
        closing := fun _ _ => rfl }
  have hright : t.escape.indent n = t.rewrite escapedIndentation n :=
    t.rewrite_rewrite
      { label := fun _ _ label => by cases label <;> rfl
        body := fun _ => rfl
        inner := fun _ => rfl
        comma := fun _ => rfl
        closing := fun _ _ => rfl }
  rw [hleft, hright]

/-- **Indenting keeps the value.** -/
theorem Tree.value_indent (t : Tree) (n : Nat) : (t.indent n).value = t.value :=
  t.value_rewrite n ⟨fun _ => rfl, fun _ _ label => by cases label <;> rfl⟩

/-- **Escaping keeps the value.** -/
theorem Tree.value_escape (t : Tree) : t.escape.value = t.value := by
  refine t.value_rewrite 0 ⟨unquote_escape, fun _ _ label => ?_⟩
  cases label with
  | elem before => rfl
  | member before key colon value =>
    show some (unquote key.escape.bytes) = some (unquote key.bytes)
    rw [unquote_escape]

@[simp] theorem Tree.depth_indent (t : Tree) (n : Nat) : (t.indent n).depth = t.depth :=
  t.depth_rewrite indentation n

@[simp] theorem Tree.depth_escape (t : Tree) : t.escape.depth = t.depth :=
  t.depth_rewrite escaping 0

/-! ### Building -/

def Items.ofList {kind : Kind} (first : Label kind × Tree) : List (Label kind × Tree) → Items kind
  | [] => .last first.1 first.2 .nil
  | next :: rest => .cons first.1 first.2 .nil (Items.ofList next rest)

def container (kind : Kind) : List (Label kind × Tree) → Tree
  | [] => .empty kind .nil
  | first :: rest => .node kind (Items.ofList first rest)

/-- An object without white space. -/
def object (members : List (Bytes × Tree)) : Tree :=
  container .obj (members.map fun member =>
    (.member .nil (quoteBody member.1) .nil .nil, member.2))

/-- An array without white space. -/
def array (elements : List Tree) : Tree :=
  container .arr (elements.map fun element => (.elem .nil, element))

/-! ### Reading -/

def Items.toList : {kind : Kind} → Items kind → List (Label kind × Tree)
  | _, .last label value _ => [(label, value)]
  | _, .cons label value _ rest => (label, value) :: rest.toList

def Label.name : Label .obj → Bytes
  | .member _ key _ _ => unquote key.bytes

/-- The members of an object. -/
def Tree.members? : Tree → Option (List (Bytes × Tree))
  | .empty .obj _ => some []
  | .node .obj items => some (items.toList.map fun item => (item.1.name, item.2))
  | _ => none

/-- The elements of an array. -/
def Tree.elements? : Tree → Option (List Tree)
  | .empty .arr _ => some []
  | .node .arr items => some (items.toList.map Prod.snd)
  | _ => none

theorem Items.toList_ofList {kind : Kind} : ∀ (rest : List (Label kind × Tree))
    (first : Label kind × Tree), (Items.ofList first rest).toList = first :: rest := by
  intro rest
  induction rest with
  | nil => intro first; rfl
  | cons next rest ih => intro first; rw [Items.ofList, Items.toList, ih]

theorem Items.toList_rewrite (r : Rewrite) (n : Nat) : ∀ {kind : Kind} (items : Items kind),
    (items.rewrite r n).toList
      = items.toList.map fun item => (r.label n item.1, item.2.rewrite r (n + 1))
  | _, .last label value _ => rfl
  | _, .cons label value _ rest => by
    rw [Items.rewrite, Items.toList, Items.toList_rewrite r n rest, Items.toList, List.map_cons]

theorem members?_indent_object (members : List (Bytes × Tree))
    (h : ∀ member ∈ members, Utf8.valid member.1 = true) (n : Nat) :
    ((object members).indent n).members?
      = some (members.map fun member => (member.1, member.2.indent (n + 1))) := by
  have hmember : ∀ member ∈ members,
      ((Label.indent n (.member .nil (quoteBody member.1) .nil .nil)).name,
        member.2.indent (n + 1)) = (member.1, member.2.indent (n + 1)) := by
    intro member hm
    show (unquote (quote member.1), _) = _
    rw [unquote_quote (h member hm)]
  rw [← List.map_congr_left hmember]
  cases members with
  | nil => rfl
  | cons first rest =>
    show some ((Items.rewrite indentation n (Items.ofList _ _)).toList.map _) = _
    rw [Items.toList_rewrite, Items.toList_ofList, List.map_map, List.map_cons, List.map_map]
    rfl

theorem elements?_indent_array (elements : List Tree) (n : Nat) :
    ((array elements).indent n).elements?
      = some (elements.map fun element => element.indent (n + 1)) := by
  cases elements with
  | nil => rfl
  | cons first rest =>
    show some ((Items.rewrite indentation n (Items.ofList _ _)).toList.map _) = _
    rw [Items.toList_rewrite, Items.toList_ofList, List.map_map, List.map_cons, List.map_map]
    rfl

/-! ### Objects -/

def Tree.isObject : Tree → Bool
  | .empty .obj _ => true
  | .node .obj _ => true
  | _ => false

@[simp] theorem Tree.isObject_rewrite (r : Rewrite) (n : Nat) (t : Tree) :
    (t.rewrite r n).isObject = t.isObject := by
  cases t with
  | empty kind inner => cases kind <;> rfl
  | node kind items => cases kind <;> rfl
  | _ => rfl

theorem Items.exists_print_eq : ∀ {kind : Kind} (items : Items kind),
    ∃ s, items.print = s ++ [kind.closing]
  | kind, .last label value after =>
    ⟨label.print ++ (value.print ++ after.bytes), by simp [Items.print]⟩
  | kind, .cons label value after rest => by
    obtain ⟨s, hs⟩ := Items.exists_print_eq rest
    exact ⟨label.print ++ (value.print ++ (after.bytes ++ 0x2C :: s)), by simp [Items.print, hs]⟩

/-- An object is printed between braces. -/
theorem Tree.exists_print_of_isObject {t : Tree} (h : t.isObject = true) :
    ∃ s, t.print = 0x7B :: (s ++ [0x7D]) := by
  match t, h with
  | .empty .obj inner, _ => exact ⟨inner.bytes, rfl⟩
  | .node .obj items, _ =>
    obtain ⟨s, hs⟩ := items.exists_print_eq
    exact ⟨s, by rw [Tree.print, hs]; rfl⟩

/-- Only an object starts with a brace. -/
theorem Tree.isObject_of_head {t : Tree} (h : t.print.head? = some 0x7B) : t.isObject = true := by
  cases t with
  | null => cases h
  | bool value => cases value <;> cases h
  | num text =>
    obtain ⟨b, tail, he, hb⟩ := isValueStart_num text
    rw [Tree.print, he, List.head?_cons] at h
    cases h
    exact absurd hb (by decide)
  | str body => cases h
  | empty kind inner => cases kind with
    | arr => cases h
    | obj => rfl
  | node kind items => cases kind with
    | arr => cases h
    | obj => rfl

/-! ### Layout of built containers -/

theorem Items.indent_ofList_congr {kind : Kind} {n : Nat} :
    ∀ {rest rest' : List (Label kind × Tree)} {first first' : Label kind × Tree},
      (first :: rest).map (fun item => (item.1.indent n, item.2.indent (n + 1)))
        = (first' :: rest').map (fun item => (item.1.indent n, item.2.indent (n + 1))) →
      (Items.ofList first rest).rewrite indentation n
        = (Items.ofList first' rest').rewrite indentation n := by
  intro rest
  induction rest with
  | nil =>
    intro rest' first first' h
    cases rest' with
    | cons next rest' => simp at h
    | nil =>
      rw [List.map_singleton, List.map_singleton, List.cons.injEq, Prod.mk.injEq] at h
      show Items.last (first.1.indent n) (first.2.indent (n + 1)) _ = _
      rw [h.1.1, h.1.2]
      rfl
  | cons next rest ih =>
    intro rest' first first' h
    cases rest' with
    | nil => simp at h
    | cons next' rest' =>
      rw [List.map_cons, List.map_cons (l := next' :: rest'), List.cons.injEq, Prod.mk.injEq] at h
      show Items.cons (first.1.indent n) (first.2.indent (n + 1)) _
        ((Items.ofList next rest).rewrite indentation n) = _
      rw [h.1.1, h.1.2, ih h.2]
      rfl

/-- Once indented, a container does not show the layout of its items. -/
theorem indent_container_congr {kind : Kind} {n : Nat} {items items' : List (Label kind × Tree)}
    (h : items.map (fun item => (item.1.indent n, item.2.indent (n + 1)))
      = items'.map (fun item => (item.1.indent n, item.2.indent (n + 1)))) :
    (container kind items).indent n = (container kind items').indent n := by
  cases items with
  | nil =>
    cases items' with
    | nil => rfl
    | cons first' rest' => simp at h
  | cons first rest =>
    cases items' with
    | nil => simp at h
    | cons first' rest' =>
      show Tree.node kind _ = Tree.node kind _
      rw [Items.indent_ofList_congr h]

theorem indent_object_congr {n : Nat} {members members' : List (Bytes × Tree)}
    (h : members.map (fun member => (member.1, member.2.indent (n + 1)))
      = members'.map (fun member => (member.1, member.2.indent (n + 1)))) :
    (object members).indent n = (object members').indent n := by
  apply indent_container_congr
  rw [List.map_map, List.map_map]
  have hlabel := congrArg (List.map fun member : Bytes × Tree =>
    (Label.indent n (.member .nil (quoteBody member.1) .nil .nil), member.2)) h
  rw [List.map_map, List.map_map] at hlabel
  exact hlabel

theorem indent_array_congr {n : Nat} {elements elements' : List Tree}
    (h : elements.map (Tree.indent (n + 1)) = elements'.map (Tree.indent (n + 1))) :
    (array elements).indent n = (array elements').indent n := by
  apply indent_container_congr
  rw [List.map_map, List.map_map]
  have hlabel := congrArg (List.map fun element : Tree =>
    (Label.indent n (.elem .nil), element)) h
  rw [List.map_map, List.map_map] at hlabel
  exact hlabel

/-! ### The size of an indented text -/

theorem Label.length_indent_le {kind : Kind} (label : Label kind) (n : Nat) :
    2 * n + 3 ≤ (label.indent n).print.length := by
  have hnewline : (newline (n + 1)).bytes.length = 2 * n + 3 := by
    show (0x0A :: List.replicate (2 * (n + 1)) 0x20).length = _
    rw [List.length_cons, List.length_replicate]
    omega
  cases label with
  | elem before => exact hnewline.ge
  | member before key colon value =>
    show _ ≤ ((newline (n + 1)).bytes ++ _).length
    rw [List.length_append, hnewline]
    omega

mutual

/-- **Nesting costs its square**: every level indents all the levels inside it. -/
theorem Tree.depth_le_length : ∀ (t : Tree) (n : Nat),
    (t.depth - 1) * (2 * n + t.depth) ≤ (t.indent n).print.length
  | .null, n => by simp [Tree.depth]
  | .bool _, n => by simp [Tree.depth]
  | .num _, n => by simp [Tree.depth]
  | .str _, n => by simp [Tree.depth]
  | .empty _ _, n => by simp [Tree.depth]
  | .node kind items, n => by
    have hitems := Items.depth_le_length items n
    show _ ≤ (kind.opening :: (items.rewrite indentation n).print).length
    rw [Tree.depth, List.length_cons, Nat.add_sub_cancel_left]
    generalize (items.rewrite indentation n).print.length = len at hitems ⊢
    generalize items.depth = d at hitems ⊢
    cases d with
    | zero => omega
    | succ k =>
      rw [Nat.add_sub_cancel] at hitems
      have h1 : (k + 1) * (2 * n + (1 + (k + 1))) = k * (2 * (n + 1) + (k + 1)) + (2 * n + 2) := by
        ring
      omega

theorem Items.depth_le_length : ∀ {kind : Kind} (items : Items kind) (n : Nat),
    2 * n + 3 + (items.depth - 1) * (2 * (n + 1) + items.depth)
      ≤ (items.rewrite indentation n).print.length
  | _, .last label value after, n => by
    have hlabel := label.length_indent_le n
    have hvalue := Tree.depth_le_length value (n + 1)
    show _ ≤ ((label.indent n).print ++ ((value.indent (n + 1)).print ++ _)).length
    rw [List.length_append, List.length_append, Items.depth]
    omega
  | _, .cons label value after rest, n => by
    have hlabel := label.length_indent_le n
    have hvalue := Tree.depth_le_length value (n + 1)
    have hrest := Items.depth_le_length rest n
    show _ ≤ ((label.indent n).print ++ ((value.indent (n + 1)).print ++
      (_ ++ 0x2C :: (rest.rewrite indentation n).print))).length
    rw [List.length_append, List.length_append, List.length_append, List.length_cons, Items.depth]
    rcases Nat.le_total value.depth rest.depth with h | h
    · rw [Nat.max_eq_right h]
      omega
    · rw [Nat.max_eq_left h]
      omega

end

end Authorization.Foundation.Json
