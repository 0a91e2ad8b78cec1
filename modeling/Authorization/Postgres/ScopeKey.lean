import Authorization.Foundation.Base64
import Authorization.Foundation.Framing
import Authorization.Postgres.Authority

/-!
# The keys of authority scopes

`AuthorityScope.Key` hashes a fixed domain and the three components of a scope, each
framed by its length.  `Validate` bounds the components by 128 bytes, so the lengths
fit their two bytes and the hashed text determines the scope
(`AuthorityScope.hashed_injective`).  The hash is a parameter: what follows is that
two scopes with one key are a collision of it.
-/

namespace Authorization.Postgres

open Authorization.Foundation Authorization.Core

/-- The components, in the order of the key. -/
def AuthorityScope.components (scope : AuthorityScope) : List Bytes :=
  [scope.tenantID, scope.policyNamespace, scope.subjectID]

def keyDomain : Bytes := str "golib.authorization.authority.v1\x00"

/-- The loop of `Key`: what is written to the hash. -/
def writeComponents : Bytes → List Bytes → Except GoError Bytes
  | written, [] => .ok written
  | written, id :: rest =>
    if id.length < 1 ∨ id.length > 128 then .error (.sentinel .postgresErrInvalidAuthority)
    else
      let size := putUint16 (UInt16.ofNat id.length)
      writeComponents ((written ++ size) ++ id) rest

/-- What `Key` hashes. -/
def AuthorityScope.hashed (scope : AuthorityScope) : Except GoError Bytes :=
  match scope.validate with
  | some err => .error err
  | none => writeComponents keyDomain scope.components

/-- `Key`, with `sha256` as the hash. -/
def AuthorityScope.key (sha256 : Bytes → Bytes) (scope : AuthorityScope) : Except GoError Bytes :=
  scope.hashed.map fun written => str "authorization:v1:" ++ encodeBase64 (sha256 written)

/-! ### What is hashed -/

/-- A valid component has between one and 128 bytes. -/
theorem AuthorityScope.length_of_validate {scope : AuthorityScope} (h : scope.validate = none) :
    ∀ id ∈ scope.components, 1 ≤ id.length ∧ id.length ≤ 128 := by
  unfold AuthorityScope.validate at h
  split at h
  · rename_i hall
    intro id hid
    have hvalid := List.all_eq_true.mp hall id hid
    simp only [Bool.and_eq_true, decide_eq_true_eq, ne_eq] at hvalid
    omega
  · cases h

/-- Components in range are written in frames. -/
theorem writeComponents_eq : ∀ {ids : List Bytes} {written : Bytes},
    (∀ id ∈ ids, 1 ≤ id.length ∧ id.length ≤ 128) →
    writeComponents written ids = .ok (written ++ frames ids) := by
  intro ids
  induction ids with
  | nil => intro written _; rw [writeComponents, frames, List.flatMap_nil, List.append_nil]
  | cons id rest ih =>
    intro written h
    rw [List.forall_mem_cons] at h
    rw [writeComponents, if_neg (by omega)]
    dsimp only
    rw [ih h.2, List.append_assoc, List.append_assoc, frames, frames, List.flatMap_cons, frame,
      List.append_assoc]

theorem AuthorityScope.hashed_eq {scope : AuthorityScope} (h : scope.validate = none) :
    scope.hashed = .ok (keyDomain ++ frames scope.components) := by
  rw [AuthorityScope.hashed, h]
  exact writeComponents_eq (length_of_validate h)

/-- **The hashed text determines the scope.** -/
theorem AuthorityScope.hashed_injective {scope scope' : AuthorityScope}
    (h : scope.validate = none) (h' : scope'.validate = none)
    (heq : scope.hashed = scope'.hashed) : scope = scope' := by
  rw [hashed_eq h, hashed_eq h'] at heq
  injection heq with heq
  have hcomponents : scope.components = scope'.components := by
    refine frames_injective ?_ ?_ (List.append_cancel_left heq)
    · intro id hid
      have hlength := length_of_validate h id hid
      omega
    · intro id hid
      have hlength := length_of_validate h' id hid
      omega
  cases scope
  cases scope'
  simp only [components, List.cons.injEq, and_true] at hcomponents
  obtain ⟨rfl, rfl, rfl⟩ := hcomponents
  rfl

/-! ### The key -/

theorem AuthorityScope.key_eq {scope : AuthorityScope} (sha256 : Bytes → Bytes)
    (h : scope.validate = none) :
    scope.key sha256 = .ok (str "authorization:v1:" ++
      encodeBase64 (sha256 (keyDomain ++ frames scope.components))) := by
  rw [AuthorityScope.key, hashed_eq h]
  rfl

theorem AuthorityScope.key_eq_error {scope : AuthorityScope} {sha256 : Bytes → Bytes}
    {err : GoError} : scope.key sha256 = .error err ↔ scope.validate = some err := by
  cases hvalid : scope.validate with
  | none =>
    rw [key_eq sha256 hvalid]
    constructor
    · intro h
      cases h
    · intro h
      cases h
  | some err' =>
    rw [AuthorityScope.key, AuthorityScope.hashed, hvalid]
    constructor
    · intro h
      cases h
      rfl
    · intro h
      cases h
      rfl

/-- **Scope keys are unambiguous.**  `Key` fails exactly when `Validate` does; no
length of a valid component is truncated; the hashed texts of two valid scopes are
equal only if the scopes are; and two valid scopes with one key are one scope or a
collision of the hash. -/
theorem scope_keys_unambiguous (sha256 : Bytes → Bytes) (scope : AuthorityScope) :
    (∀ err, scope.key sha256 = .error err ↔ scope.validate = some err) ∧
    (scope.validate = none →
      (∀ id ∈ scope.components, (UInt16.ofNat id.length).toNat = id.length) ∧
      scope.hashed = .ok (keyDomain ++ frames scope.components) ∧
      ∀ scope' : AuthorityScope, scope'.validate = none →
        (scope.hashed = scope'.hashed → scope = scope') ∧
        (scope.key sha256 = scope'.key sha256 → scope = scope' ∨
          ∃ written written', scope.hashed = .ok written ∧ scope'.hashed = .ok written' ∧
            written ≠ written' ∧ sha256 written = sha256 written')) := by
  refine ⟨fun err => AuthorityScope.key_eq_error, fun h => ⟨?_, scope.hashed_eq h, ?_⟩⟩
  · intro id hid
    have hlength := scope.length_of_validate h id hid
    exact toNat_length (by omega)
  · intro scope' h'
    refine ⟨AuthorityScope.hashed_injective h h', fun hkey => ?_⟩
    rw [AuthorityScope.key_eq sha256 h, AuthorityScope.key_eq sha256 h'] at hkey
    injection hkey with hkey
    have hdigest := encodeBase64_injective (List.append_cancel_left hkey)
    by_cases hsame : scope = scope'
    · exact Or.inl hsame
    · refine Or.inr ⟨_, _, scope.hashed_eq h, scope'.hashed_eq h', fun hwritten => ?_, hdigest⟩
      refine hsame (AuthorityScope.hashed_injective h h' ?_)
      rw [scope.hashed_eq h, scope'.hashed_eq h', hwritten]

/-- Two scopes that a join with colons would confuse. -/
def joinedLeft : AuthorityScope := ⟨str "tenant:policy", str "subject", str "tail"⟩

def joinedRight : AuthorityScope := ⟨str "tenant", str "policy:subject", str "tail"⟩

/-- The digests of the two hashed texts. -/
def joinedDigest (written : Bytes) : Bytes :=
  if written = keyDomain ++ frames joinedLeft.components then
    [0xD6, 0xD5, 0x72, 0x3C, 0x8D, 0x6E, 0x61, 0xBD, 0xF4, 0x89, 0x11, 0xEC, 0xC4, 0x39, 0x88, 0x6E,
    0x03, 0xE4, 0x8D, 0x1E, 0xC1, 0x40, 0x00, 0x70, 0x27, 0xF2, 0xC3, 0xA2, 0x10, 0xC2, 0x74, 0x78]
  else if written = keyDomain ++ frames joinedRight.components then
    [0xA7, 0xF2, 0xF7, 0x47, 0x29, 0xD2, 0x86, 0xC6, 0xE3, 0x9A, 0xBD, 0xF1, 0xB6, 0x47, 0xF7, 0x5C,
    0x0E, 0x65, 0x8E, 0xE2, 0x32, 0xB6, 0x2F, 0x5B, 0xEE, 0xD1, 0x24, 0x4C, 0xD4, 0x17, 0x0D, 0x1D]
  else []

theorem scope_keys_unambiguous_joined :
    joinedLeft.key joinedDigest
      = .ok (str "authorization:v1:1tVyPI1uYb30iRHsxDmIbgPkjR7BQABwJ_LDohDCdHg") ∧
    joinedRight.key joinedDigest
      = .ok (str "authorization:v1:p_L3RynShsbjmr3xtkf3XA5ljuIyti9b7tEkTNQXDR0") ∧
    joinedLeft.hashed ≠ joinedRight.hashed := by
  refine ⟨by decide +kernel, by decide +kernel, fun heq => ?_⟩
  have hsame := (((scope_keys_unambiguous joinedDigest joinedLeft).2 (by decide +kernel)).2.2
    joinedRight (by decide +kernel)).1 heq
  exact absurd hsame (by decide +kernel)

end Authorization.Postgres
