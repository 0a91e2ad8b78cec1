import Authorization.Core.Value
import Authorization.Foundation.GoMap

/-!
# Requests and contexts

`request.go`.  A request is borrowed data: its maps are read, never written.

Everything outside the program lives in a world `W`.  Reading a context,
calling an evaluator or sampling a clock is a function of the world that
returns its answer and the world afterwards, so a collaborator may answer
differently on every call, and a callback may cancel the context it was given.
-/

namespace Authorization.Core

open Authorization.Foundation

abbrev SubjectKind := Bytes
abbrev SubjectID := Bytes
abbrev Action := Bytes
abbrev ResourceType := Bytes
abbrev ResourceID := Bytes
abbrev TenantID := Bytes
abbrev AttributeName := Bytes
abbrev Attributes := GoMap AttributeName Value

/-- `SubjectGroup`, the kind of a group principal. -/
def subjectGroup : SubjectKind := str "group"

structure Subject where
  kind : SubjectKind
  id : SubjectID
  groups : List SubjectID := []
  attributes : Attributes := ∅
deriving DecidableEq

/-- The subject and its groups, the principals a policy may name. -/
def principals (subject : Subject) : List Subject :=
  subject :: subject.groups.map fun groupID => { kind := subjectGroup, id := groupID }

structure Resource where
  type : ResourceType
  id : ResourceID := []
  attributes : Attributes := ∅
deriving DecidableEq

structure Environment where
  time : Time := .zero
  attributes : Attributes := ∅
deriving DecidableEq

structure Request where
  subject : Subject
  action : Action
  resource : Resource
  tenant : TenantID := []
  environment : Environment := {}
  attributes : Attributes := ∅
deriving DecidableEq

/-- The group loop of `Validate`, from `index` on. -/
def validateGroups (index : Nat) : List SubjectID → Option GoError
  | [] => none
  | groupID :: rest =>
    if groupID = [] then some (.validation (str s!"subject.groups[{index}]"))
    else validateGroups (index + 1) rest

/-- The fields `Validate` requires, with the names it reports. -/
def Request.requiredFields (request : Request) : List (String × Bytes) :=
  [("subject.kind", request.subject.kind), ("subject.id", request.subject.id),
    ("action", request.action), ("resource.type", request.resource.type)]

/-- `Validate`; `none` is nil. -/
def Request.validate (request : Request) : Option GoError :=
  match request.requiredFields.find? (fun field => field.2 = []) with
  | some field => some (.validation (str field.1))
  | none => validateGroups 0 request.subject.groups

/-- A `context.Context`, read through `Err`. -/
structure Context (W : Type) where
  err : W → Option GoError × W

/-- A context that is never cancelled. -/
def Context.background {W : Type} : Context W := ⟨fun w => (none, w)⟩

/-- The context is never found cancelled. -/
def Context.Quiet {W : Type} (ctx : Context W) : Prop := ∀ w, (ctx.err w).1 = none

theorem Context.Quiet.err_eq {W : Type} {ctx : Context W} (h : ctx.Quiet) (w : W) :
    ∃ w', ctx.err w = (none, w') :=
  ⟨(ctx.err w).2, Prod.ext (h w) rfl⟩

theorem Context.quiet_background {W : Type} : (Context.background (W := W)).Quiet := fun _ => rfl

end Authorization.Core
