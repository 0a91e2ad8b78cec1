import Authorization.Foundation.Decimal

/-!
# JSON texts

A JSON text as a tree that keeps every byte: white space, the spelling of
numbers and the escapes of strings.  `print` gives the bytes back, so operations
on texts such as indentation are functions on trees, and a parser is right when
it inverts `print`.

White space, string bodies and numbers are byte strings with a proof that the
grammar accepts them.  Bodies and numbers are accepted by small automata, the
same the parser runs.  A container is either empty, with the white space between
its brackets, or a non-empty sequence of items.
-/

namespace Authorization.Foundation.Json

/-! ### White space -/

def isSpace (b : UInt8) : Bool := b == 0x20 || b == 0x09 || b == 0x0A || b == 0x0D

structure Ws where
  bytes : Bytes
  ok : bytes.all isSpace = true
deriving DecidableEq

def Ws.nil : Ws := ⟨[], rfl⟩

/-! ### String bodies -/

/-- Where a string scanner stands: between characters, after a backslash, or with
`n + 1` hexadecimal digits to come. -/
inductive StrState
  | plain | esc | hex (n : Nat)
deriving DecidableEq

def isHex (b : UInt8) : Bool :=
  (0x30 ≤ b && b ≤ 0x39) || (0x41 ≤ b && b ≤ 0x46) || (0x61 ≤ b && b ≤ 0x66)

/-- The letters of the two-byte escapes: quote, backslash, slash, `b`, `f`, `n`,
`r`, `t`. -/
def shortEscapes : Bytes := [0x22, 0x5C, 0x2F, 0x62, 0x66, 0x6E, 0x72, 0x74]

def strNext : StrState → UInt8 → Option StrState
  | .plain, b =>
    if b < 0x20 || b == 0x22 then none else if b == 0x5C then some .esc else some .plain
  | .esc, b => if b ∈ shortEscapes then some .plain else if b == 0x75 then some (.hex 3) else none
  | .hex 0, b => if isHex b then some .plain else none
  | .hex (n + 1), b => if isHex b then some (.hex n) else none

def strRun : StrState → Bytes → Option StrState
  | st, [] => some st
  | st, b :: rest => (strNext st b).bind fun st' => strRun st' rest

/-- The bytes between the quotes of a string. -/
structure Body where
  bytes : Bytes
  ok : strRun .plain bytes = some .plain
deriving DecidableEq

theorem strRun_append : ∀ (l l' : Bytes) (st : StrState),
    strRun st (l ++ l') = (strRun st l).bind fun st' => strRun st' l' := by
  intro l l'
  induction l with
  | nil => intro st; rfl
  | cons b l ih =>
    intro st
    rw [List.cons_append, strRun, strRun]
    cases strNext st b with
    | none => rfl
    | some st' => exact ih st'

/-! ### Numbers -/

inductive NumState
  | start | minus | zero | int | point | frac | exp | expSign | expInt
deriving DecidableEq

def isDigit19 (b : UInt8) : Bool := 0x31 ≤ b && b ≤ 0x39

def isExp (b : UInt8) : Bool := b == 0x65 || b == 0x45

def numNext : NumState → UInt8 → Option NumState
  | .start, b =>
    if b == 0x2D then some .minus else if b == 0x30 then some .zero
    else if isDigit19 b then some .int else none
  | .minus, b => if b == 0x30 then some .zero else if isDigit19 b then some .int else none
  | .zero, b => if b == 0x2E then some .point else if isExp b then some .exp else none
  | .int, b =>
    if isDigit b then some .int else if b == 0x2E then some .point
    else if isExp b then some .exp else none
  | .point, b => if isDigit b then some .frac else none
  | .frac, b => if isDigit b then some .frac else if isExp b then some .exp else none
  | .exp, b =>
    if b == 0x2B || b == 0x2D then some .expSign else if isDigit b then some .expInt else none
  | .expSign, b => if isDigit b then some .expInt else none
  | .expInt, b => if isDigit b then some .expInt else none

/-- A number may end here. -/
def NumState.final : NumState → Bool
  | .zero | .int | .frac | .expInt => true
  | _ => false

def numAccepts : NumState → Bytes → Bool
  | st, [] => st.final
  | st, b :: rest =>
    match numNext st b with
    | some st' => numAccepts st' rest
    | none => false

structure Num where
  bytes : Bytes
  ok : numAccepts .start bytes = true
deriving DecidableEq

/-- The bytes a number is made of. -/
def isNumByte (b : UInt8) : Bool := isDigit b || b == 0x2E || isExp b || b == 0x2B || b == 0x2D

/-! ### Trees -/

inductive Kind
  | arr | obj
deriving DecidableEq

def Kind.opening : Kind → UInt8
  | .arr => 0x5B
  | .obj => 0x7B

def Kind.closing : Kind → UInt8
  | .arr => 0x5D
  | .obj => 0x7D

/-- What stands in front of a value in a container: white space, and in an object
the key with the white space around the colon. -/
inductive Label : Kind → Type
  | elem (before : Ws) : Label .arr
  | member (before : Ws) (key : Body) (colon value : Ws) : Label .obj

mutual

inductive Tree : Type
  | null
  | bool (value : Bool)
  | num (text : Num)
  | str (body : Body)
  | empty (kind : Kind) (inner : Ws)
  | node (kind : Kind) (items : Items kind)

/-- The items of a non-empty container, each with the white space after it. -/
inductive Items : Kind → Type
  | last {kind : Kind} (label : Label kind) (value : Tree) (after : Ws) : Items kind
  | cons {kind : Kind} (label : Label kind) (value : Tree) (after : Ws) (rest : Items kind) :
      Items kind

end

/-! ### Printing -/

def litNull : Bytes := [0x6E, 0x75, 0x6C, 0x6C]
def litTrue : Bytes := [0x74, 0x72, 0x75, 0x65]
def litFalse : Bytes := [0x66, 0x61, 0x6C, 0x73, 0x65]

/-- A string in its quotes. -/
def Body.print (body : Body) : Bytes := 0x22 :: (body.bytes ++ [0x22])

def Label.print : {kind : Kind} → Label kind → Bytes
  | _, .elem before => before.bytes
  | _, .member before key colon value =>
    before.bytes ++ (key.print ++ (colon.bytes ++ 0x3A :: value.bytes))

mutual

def Tree.print : Tree → Bytes
  | .null => litNull
  | .bool value => if value then litTrue else litFalse
  | .num text => text.bytes
  | .str body => body.print
  | .empty kind inner => kind.opening :: (inner.bytes ++ [kind.closing])
  | .node kind items => kind.opening :: Items.print items

/-- The items and the closing bracket. -/
def Items.print : {kind : Kind} → Items kind → Bytes
  | kind, .last label value after =>
    label.print ++ (value.print ++ (after.bytes ++ [kind.closing]))
  | _, .cons label value after rest =>
    label.print ++ (value.print ++ (after.bytes ++ 0x2C :: Items.print rest))

end

mutual

/-- How deep containers are nested. -/
def Tree.depth : Tree → Nat
  | .empty _ _ => 1
  | .node _ items => 1 + Items.depth items
  | _ => 0

def Items.depth : {kind : Kind} → Items kind → Nat
  | _, .last _ value _ => value.depth
  | _, .cons _ value _ rest => max value.depth (Items.depth rest)

end

/-- The number of items. -/
def Items.count : {kind : Kind} → Items kind → Nat
  | _, .last _ _ _ => 1
  | _, .cons _ _ _ rest => rest.count + 1

end Authorization.Foundation.Json
