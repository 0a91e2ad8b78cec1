import Authorization.Core.Error
import Authorization.Foundation.Decimal
import Authorization.Foundation.Transition

/-!
# Invalidation through Valkey

`valkey/invalidator.go`.  Publishers run a script that sets a key and publishes
a message; the watcher is woken through a channel with one slot and always
reads the key.  Messages carry no information: the callback drops what it
received and sends without blocking, so several messages may share one wakeup.

The key is the text the script wrote.  `tonumber`, the comparison of the
script, is a parameter that only has to be monotone on the texts of 64-bit
numbers: above 2^53 Lua's is no more than that.

Nothing is lost because the script sets the key before it publishes
(`KeyInv`), and a message that finds the slot full finds a wakeup that was not
taken yet, so the key will still be read after it (`Seen`).
-/

namespace Authorization.Valkey

open Authorization.Foundation Authorization.Core

abbrev Revision := UInt64

section Script

variable {N : Type*} [LinearOrder N] (tonumber : Bytes → N)

/-- `publishScript`: the key afterwards and whether it was set and published. -/
def publishScript (key : Option Bytes) (next : Bytes) : Option Bytes × Bool :=
  match key with
  | some current => if tonumber current ≥ tonumber next then (key, false) else (some next, true)
  | none => (some next, true)

end Script

/-- `Revision`: a missing key reads as zero. -/
def readRevision (key : Option Bytes) : Except GoError Revision :=
  match key with
  | none => .ok 0
  | some encoded =>
    match parseUint encoded with
    | none => .error (.sentinel .valkeyErrInvalidRevision)
    | some parsed =>
      if parsed = 0 then .error (.sentinel .valkeyErrInvalidRevision) else .ok parsed

/-! ### The watcher -/

/-- Where `Watch` stands. -/
inductive WatchPhase
  | notStarted
  /-- In `observe`, before the key is read. -/
  | reading
  | handling (revision : Revision)
  /-- In the `select`. -/
  | waiting
  | returned (err : GoError)
deriving DecidableEq

structure WatchState where
  key : Option Bytes := none
  /-- Messages published and not delivered. -/
  inflight : List Bytes := []
  phase : WatchPhase := .notStarted
  after : Revision
  /-- The slot of the `wakeup` channel. -/
  wakeup : Bool := false
  /-- `Receive` has not returned. -/
  receiving : Bool := false
  /-- `receiveDone` is not nil. -/
  receiveDone : Bool := true
  -- what happened so far, for the statements
  delivered : List Bytes := []
  /-- The handler's calls that came back, with whether they succeeded. -/
  handled : List (Revision × Bool) := []
deriving DecidableEq

inductive WatchAction
  | publish (revision : Revision)
  /-- `Watch` is called, with a context that may be cancelled already. -/
  | watch (err : Option GoError)
  /-- The callback gets a message. -/
  | deliver (message : Nat)
  | receiveEnds
  | takeReceiveDone
  | takeTick
  | takeWakeup
  | takeDone (err : GoError)
  /-- The client's answer to the read, or its error. -/
  | readKey (err : Option GoError)
  | handlerReturns (err : Option GoError)

section Watch

variable {N : Type*} [LinearOrder N] (tonumber : Bytes → N)

/-- `Publish`: a zero revision is refused before the script runs. -/
def publish (s : WatchState) (revision : Revision) : Except GoError Bool × WatchState :=
  if revision = 0 then (.error (.sentinel .valkeyErrInvalidRevision), s)
  else
    let encoded := formatUint revision
    match publishScript tonumber s.key encoded with
    | (key, true) => (.ok true, { s with key := key, inflight := s.inflight ++ [encoded] })
    | (key, false) => (.ok false, { s with key := key })

/-- The end of `observe` once the key was read. -/
def observed (s : WatchState) : Except GoError Revision → WatchState
  | .error err => { s with phase := .returned err }
  | .ok revision =>
    if revision > s.after then { s with phase := .handling revision }
    else { s with phase := .waiting }

def watchStep (s : WatchState) : WatchAction → Option WatchState
  | .publish revision => some (publish tonumber s revision).2
  | .watch err =>
    if s.phase = .notStarted then
      match err with
      | some err => some { s with phase := .returned err }
      | none => some { s with phase := .reading, receiving := true }
    else none
  | .deliver message =>
    if s.receiving then
      (s.inflight[message]?).map fun m =>
        { s with inflight := s.inflight.eraseIdx message, delivered := s.delivered ++ [m]
                 wakeup := true }
    else none
  | .receiveEnds => if s.receiving then some { s with receiving := false } else none
  | .takeReceiveDone =>
    if s.phase = .waiting ∧ !s.receiving ∧ s.receiveDone then some { s with receiveDone := false }
    else none
  | .takeTick => if s.phase = .waiting then some { s with phase := .reading } else none
  | .takeWakeup =>
    if s.phase = .waiting ∧ s.wakeup then some { s with phase := .reading, wakeup := false }
    else none
  | .takeDone err => if s.phase = .waiting then some { s with phase := .returned err } else none
  | .readKey err =>
    if s.phase = .reading then some (observed s (err.elim (readRevision s.key) .error)) else none
  | .handlerReturns err =>
    match s.phase, err with
    | .handling revision, none =>
      some { s with after := revision, phase := .waiting
                    handled := s.handled ++ [(revision, true)] }
    | .handling revision, some err =>
      some { s with phase := .returned err, handled := s.handled ++ [(revision, false)] }
    | _, _ => none

/-- One watcher that starts after revision `after`, and any number of
publishers, on a key nobody has written. -/
def watchSystem (after : Revision) : System WatchState WatchAction where
  init s := s = { after := after }
  step := watchStep tonumber

end Watch

/-! ### The key -/

/-- The revision a key holds, zero for a missing one. -/
def keyRevision (key : Option Bytes) : Revision := (key.bind parseUint).getD 0

@[simp] theorem keyRevision_some (r : Revision) : keyRevision (some (formatUint r)) = r := by
  rw [keyRevision, Option.bind_some, parseUint_formatUint, Option.getD_some]

/-- What the script leaves behind: the key is the text of a positive revision,
and no message is ahead of it. -/
structure KeyInv (s : WatchState) : Prop where
  text : ∀ t, s.key = some t → ∃ r, r ≠ 0 ∧ t = formatUint r
  inflight : ∀ m ∈ s.inflight, ∃ r, m = formatUint r ∧ r ≤ keyRevision s.key
  delivered : ∀ m ∈ s.delivered, ∃ r, m = formatUint r ∧ r ≤ keyRevision s.key

/-- Under the invariant a read cannot fail on its own. -/
theorem KeyInv.readRevision {s : WatchState} (h : KeyInv s) :
    readRevision s.key = .ok (keyRevision s.key) := by
  cases hk : s.key with
  | none => rfl
  | some t =>
    obtain ⟨r, hr, rfl⟩ := h.text t hk
    simp only [keyRevision_some, Valkey.readRevision, parseUint_formatUint, if_neg hr]

theorem KeyInv.of_le {s s' : WatchState} (h : KeyInv s)
    (htext : ∀ t, s'.key = some t → ∃ r, r ≠ 0 ∧ t = formatUint r)
    (hle : keyRevision s.key ≤ keyRevision s'.key)
    (hin : ∀ m ∈ s'.inflight, m ∈ s.inflight ∨ ∃ r, m = formatUint r ∧ r ≤ keyRevision s'.key)
    (hdel : ∀ m ∈ s'.delivered, m ∈ s.delivered ∨ m ∈ s.inflight) : KeyInv s' := by
  have hold : ∀ m, (∃ r, m = formatUint r ∧ r ≤ keyRevision s.key) →
      ∃ r, m = formatUint r ∧ r ≤ keyRevision s'.key := by
    rintro m ⟨r, rfl, hr⟩
    exact ⟨r, rfl, le_trans hr hle⟩
  refine ⟨htext, ?_, ?_⟩
  · intro m hm
    rcases hin m hm with hm | hm
    · exact hold m (h.inflight m hm)
    · exact hm
  · intro m hm
    rcases hdel m hm with hm | hm
    · exact hold m (h.delivered m hm)
    · exact hold m (h.inflight m hm)

section Publish

variable {N : Type*} [LinearOrder N] {tonumber : Bytes → N}

/-- **A publication never takes the key back**, because `tonumber` is monotone. -/
theorem publish_key (hmono : Monotone fun r : Revision => tonumber (formatUint r)) {s : WatchState}
    (h : KeyInv s) (revision : Revision) :
    KeyInv (publish tonumber s revision).2 ∧
      keyRevision s.key ≤ keyRevision (publish tonumber s revision).2.key := by
  unfold publish
  by_cases hz : revision = 0
  · rw [if_pos hz]
    exact ⟨h, le_refl _⟩
  · rw [if_neg hz]
    have hset : keyRevision s.key ≤ revision →
        KeyInv { s with key := some (formatUint revision)
                        inflight := s.inflight ++ [formatUint revision] } := by
      intro hle
      refine h.of_le ?_ ?_ ?_ (fun m hm => Or.inl hm)
      · intro t ht
        cases ht
        exact ⟨revision, hz, rfl⟩
      · show keyRevision s.key ≤ keyRevision (some (formatUint revision))
        rw [keyRevision_some]
        exact hle
      · intro m hm
        rcases List.mem_append.mp hm with hm | hm
        · exact Or.inl hm
        · rw [List.mem_singleton] at hm
          exact Or.inr ⟨revision, hm, by rw [keyRevision_some]⟩
    cases hk : s.key with
    | none =>
      have hle : keyRevision s.key ≤ revision := by
        rw [hk]
        exact UInt64.zero_le
      refine ⟨hset hle, ?_⟩
      show _ ≤ keyRevision (some (formatUint revision))
      rw [keyRevision_some, ← hk]
      exact hle
    | some current =>
      obtain ⟨r, hr, rfl⟩ := h.text current hk
      dsimp only [publishScript]
      by_cases hge : tonumber (formatUint r) ≥ tonumber (formatUint revision)
      · rw [if_pos hge]
        have hsame : { s with key := some (formatUint r) } = s := by rw [← hk]
        dsimp only
        rw [hsame]
        exact ⟨h, le_refl _⟩
      · rw [if_neg hge]
        -- the script saw a greater number, so the revision is greater
        have hle : r ≤ revision := by
          by_contra hc
          exact hge (hmono (le_of_lt (not_le.mp hc)))
        have hle' : keyRevision s.key ≤ revision := by
          rw [hk, keyRevision_some]
          exact hle
        refine ⟨hset hle', ?_⟩
        show _ ≤ keyRevision (some (formatUint revision))
        rw [keyRevision_some, keyRevision_some]
        exact hle

variable (tonumber) in
/-- A publication touches nothing of the watcher's. -/
theorem publish_frame (s : WatchState) (revision : Revision) : ∃ key inflight,
    (publish tonumber s revision).2 = { s with key := key, inflight := inflight } := by
  unfold publish
  split
  · exact ⟨s.key, s.inflight, rfl⟩
  · dsimp only
    split
    · exact ⟨_, _, rfl⟩
    · exact ⟨_, s.inflight, rfl⟩

end Publish

/-! ### The watcher -/

/-- Revision `r` is not lost: the watcher has passed it, or will still read the
key, or is handing over a revision that covers it, or has returned. -/
def Seen (s : WatchState) (r : Revision) : Prop :=
  r ≤ s.after ∨ s.wakeup = true ∨ s.phase = .reading ∨
    (∃ v, s.phase = .handling v ∧ r ≤ v) ∨ ∃ err, s.phase = .returned err

/-- The revisions passed to the handler, a running call last. -/
def passed (s : WatchState) : List Revision :=
  s.handled.map Prod.fst ++ match s.phase with
    | .handling v => [v]
    | _ => []

/-- What the handler has been called with since `Watch` started after `start`. -/
structure HandlerInv (start : Revision) (s : WatchState) : Prop where
  after_ge : start ≤ s.after
  above : ∀ v ∈ passed s, start < v
  increasing : (passed s).Pairwise (· < ·)
  /-- Before it returns, every call succeeded and `after` has passed it. -/
  running : (∀ err, s.phase ≠ .returned err) → ∀ h ∈ s.handled, h.1 ≤ s.after ∧ h.2 = true
  /-- A failed call is the last one. -/
  failed : ∀ h ∈ s.handled.dropLast, h.2 = true
  handling : ∀ v, s.phase = .handling v → s.after < v

structure WatchInv (start : Revision) (s : WatchState) : Prop where
  key : KeyInv s
  wakeup : ∀ r, formatUint r ∈ s.delivered → Seen s r
  handler : HandlerInv start s

namespace WatchInv

variable {start : Revision} {s : WatchState}

theorem initial (start : Revision) : WatchInv start { after := start } := by
  refine ⟨⟨nofun, by simp, by simp⟩, by simp, ⟨le_refl _, by simp [passed], by simp [passed], ?_, ?_,
    nofun⟩⟩
  · intro _ h hm; cases hm
  · intro h hm; cases hm

end WatchInv

namespace HandlerInv

variable {start : Revision} {s s' : WatchState}

/-- Only `after`, the calls and the phase matter. -/
theorem congr (h : HandlerInv start s) (hafter : s'.after = s.after)
    (hhandled : s'.handled = s.handled) (hphase : s'.phase = s.phase) : HandlerInv start s' := by
  have hpassed : passed s' = passed s := by rw [passed, passed, hhandled, hphase]
  refine ⟨?_, ?_, ?_, ?_, ?_, ?_⟩
  · rw [hafter]; exact h.after_ge
  · rw [hpassed]; exact h.above
  · rw [hpassed]; exact h.increasing
  · rw [hafter, hhandled, hphase]; exact h.running
  · rw [hhandled]; exact h.failed
  · rw [hafter, hphase]; exact h.handling

/-- A change of phase outside the handler; a new call must be ahead of
`after`. -/
theorem move (h : HandlerInv start s) (hidle : ∀ v, s.phase ≠ .handling v)
    (hrunning : ∀ err, s.phase ≠ .returned err) (hafter : s'.after = s.after)
    (hhandled : s'.handled = s.handled) (hnew : ∀ v, s'.phase = .handling v → s.after < v) :
    HandlerInv start s' := by
  have hrun := h.running hrunning
  have hold : passed s = s.handled.map Prod.fst := by
    rw [passed]
    split
    · rename_i v hv; exact absurd hv (hidle v)
    · exact List.append_nil _
  have habove := h.above
  have hinc := h.increasing
  rw [hold] at habove hinc
  -- either nothing was passed on, or one revision ahead of all earlier ones
  have hpassed : passed s' = s.handled.map Prod.fst ∨
      ∃ v, s.after < v ∧ passed s' = s.handled.map Prod.fst ++ [v] := by
    rw [passed, hhandled]
    split
    · rename_i v hv; exact Or.inr ⟨v, hnew v hv, rfl⟩
    · exact Or.inl (List.append_nil _)
  refine ⟨?_, ?_, ?_, ?_, ?_, ?_⟩
  · rw [hafter]; exact h.after_ge
  · rcases hpassed with hp | ⟨v, hv, hp⟩
    · rw [hp]; exact habove
    · rw [hp]
      intro u hu
      rcases List.mem_append.mp hu with hu | hu
      · exact habove u hu
      · rw [List.mem_singleton] at hu
        rw [hu]
        exact lt_of_le_of_lt h.after_ge hv
  · rcases hpassed with hp | ⟨v, hv, hp⟩
    · rw [hp]; exact hinc
    · rw [hp, List.pairwise_append]
      refine ⟨hinc, List.pairwise_singleton _ _, ?_⟩
      intro u hu v' hv'
      rw [List.mem_singleton] at hv'
      obtain ⟨c, hc, rfl⟩ := List.mem_map.mp hu
      rw [hv']
      exact lt_of_le_of_lt (hrun c hc).1 hv
  · rw [hafter, hhandled]; intro _; exact hrun
  · rw [hhandled]; exact h.failed
  · rw [hafter]; exact hnew

/-- The handler comes back: what was running joins the calls. -/
theorem finish (h : HandlerInv start s) {v : Revision} (hv : s.phase = .handling v) {ok : Bool}
    (hhandled : s'.handled = s.handled ++ [(v, ok)]) (hidle : ∀ u, s'.phase ≠ .handling u)
    (hok : (∀ err, s'.phase ≠ .returned err) → ok = true ∧ s'.after = v)
    (hafter : s.after ≤ s'.after) : HandlerInv start s' := by
  have hrun := h.running (by rw [hv]; nofun)
  have hlt := h.handling v hv
  have hpassed : passed s' = passed s := by
    have hp' : passed s' = s'.handled.map Prod.fst := by
      rw [passed]
      split
      · rename_i u hu; exact absurd hu (hidle u)
      · exact List.append_nil _
    rw [hp', hhandled, passed, hv, List.map_append]
    rfl
  refine ⟨le_trans h.after_ge hafter, ?_, ?_, ?_, ?_, fun u hu => absurd hu (hidle u)⟩
  · rw [hpassed]; exact h.above
  · rw [hpassed]; exact h.increasing
  · intro hr c hc
    obtain ⟨htrue, hv'⟩ := hok hr
    rw [hhandled] at hc
    rw [hv']
    rcases List.mem_append.mp hc with hc | hc
    · exact ⟨le_of_lt (lt_of_le_of_lt (hrun c hc).1 hlt), (hrun c hc).2⟩
    · rw [List.mem_singleton] at hc
      rw [hc]
      exact ⟨le_refl _, htrue⟩
  · rw [hhandled, List.dropLast_concat]
    intro c hc
    exact (hrun c hc).2

end HandlerInv

namespace WatchInv

variable {start : Revision} {s s' : WatchState} {N : Type*} [LinearOrder N] {tonumber : Bytes → N}

/-- A step of the watcher that leaves the key and the messages alone. -/
theorem local_step (h : WatchInv start s) (hkey : s'.key = s.key)
    (hin : s'.inflight = s.inflight) (hdel : s'.delivered = s.delivered)
    (hseen : ∀ r, r ≤ keyRevision s.key → Seen s r → Seen s' r) (hhandler : HandlerInv start s') :
    WatchInv start s' := by
  refine ⟨⟨?_, ?_, ?_⟩, ?_, hhandler⟩
  · rw [hkey]; exact h.key.text
  · rw [hkey, hin]; exact h.key.inflight
  · rw [hkey, hdel]; exact h.key.delivered
  · rw [hdel]
    intro r hr
    obtain ⟨r', hr', hle⟩ := h.key.delivered _ hr
    rw [← formatUint_injective hr'] at hle
    exact hseen r hle (h.wakeup r hr)

/-- **Every step keeps the invariant.** -/
theorem step (hmono : Monotone fun r : Revision => tonumber (formatUint r))
    (h : WatchInv start s) {action : WatchAction} (hs : watchStep tonumber s action = some s') :
    WatchInv start s' := by
  cases action with
  | publish revision =>
    cases hs
    have hkey := (publish_key hmono h.key revision).1
    obtain ⟨key, inflight, he⟩ := publish_frame tonumber s revision
    rw [he] at hkey ⊢
    exact ⟨hkey, h.wakeup, h.handler.congr rfl rfl rfl⟩
  | watch err =>
    dsimp only [watchStep] at hs
    split at hs
    · rename_i hphase
      have hmove : ∀ {phase receiving}, (∀ v, phase ≠ .handling v) →
          HandlerInv start { s with phase := phase, receiving := receiving } := by
        intro phase receiving hnot
        exact h.handler.move (by rw [hphase]; nofun) (by rw [hphase]; nofun) rfl rfl
          (fun v hv => absurd hv (hnot v))
      cases err with
      | some err =>
        cases hs
        exact h.local_step rfl rfl rfl (fun r _ _ => Or.inr (Or.inr (Or.inr (Or.inr ⟨err, rfl⟩))))
          (hmove nofun)
      | none =>
        cases hs
        exact h.local_step rfl rfl rfl (fun r _ _ => Or.inr (Or.inr (Or.inl rfl))) (hmove nofun)
    · cases hs
  | deliver message =>
    dsimp only [watchStep] at hs
    split at hs
    · obtain ⟨m, hm, rfl⟩ := Option.map_eq_some_iff.mp hs
      refine ⟨?_, fun r _ => Or.inr (Or.inl rfl), h.handler.congr rfl rfl rfl⟩
      refine h.key.of_le h.key.text (le_refl _) ?_ ?_
      · intro m' hm'
        exact Or.inl (List.mem_of_mem_eraseIdx hm')
      · intro m' hm'
        rcases List.mem_append.mp hm' with hm' | hm'
        · exact Or.inl hm'
        · rw [List.mem_singleton] at hm'
          exact Or.inr (hm' ▸ List.mem_of_getElem? hm)
    · cases hs
  | receiveEnds =>
    dsimp only [watchStep] at hs
    split at hs
    · cases hs
      exact h.local_step rfl rfl rfl (fun _ _ hseen => hseen) (h.handler.congr rfl rfl rfl)
    · cases hs
  | takeReceiveDone =>
    dsimp only [watchStep] at hs
    split at hs
    · cases hs
      exact h.local_step rfl rfl rfl (fun _ _ hseen => hseen) (h.handler.congr rfl rfl rfl)
    · cases hs
  | takeTick =>
    dsimp only [watchStep] at hs
    split at hs
    · rename_i hphase
      cases hs
      exact h.local_step rfl rfl rfl (fun r _ _ => Or.inr (Or.inr (Or.inl rfl)))
        (h.handler.move (by rw [hphase]; nofun) (by rw [hphase]; nofun) rfl rfl nofun)
    · cases hs
  | takeWakeup =>
    dsimp only [watchStep] at hs
    split at hs
    · rename_i hphase
      cases hs
      exact h.local_step rfl rfl rfl (fun r _ _ => Or.inr (Or.inr (Or.inl rfl)))
        (h.handler.move (by rw [hphase.1]; nofun) (by rw [hphase.1]; nofun) rfl rfl nofun)
    · cases hs
  | takeDone err =>
    dsimp only [watchStep] at hs
    split at hs
    · rename_i hphase
      cases hs
      exact h.local_step rfl rfl rfl (fun r _ _ => Or.inr (Or.inr (Or.inr (Or.inr ⟨err, rfl⟩))))
        (h.handler.move (by rw [hphase]; nofun) (by rw [hphase]; nofun) rfl rfl nofun)
    · cases hs
  | readKey err =>
    dsimp only [watchStep] at hs
    split at hs
    · rename_i hphase
      cases hs
      have hmove : ∀ s' : WatchState, s'.after = s.after → s'.handled = s.handled →
          (∀ v, s'.phase = .handling v → s.after < v) → HandlerInv start s' :=
        fun s' => h.handler.move (by rw [hphase]; nofun) (by rw [hphase]; nofun)
      cases err with
      | some err =>
        exact h.local_step rfl rfl rfl (fun r _ _ => Or.inr (Or.inr (Or.inr (Or.inr ⟨err, rfl⟩))))
          (hmove _ rfl rfl nofun)
      | none =>
        show WatchInv start (observed s (readRevision s.key))
        rw [h.key.readRevision, observed]
        split
        · rename_i hgt
          refine h.local_step rfl rfl rfl (fun r hr _ => ?_) (hmove _ rfl rfl ?_)
          · exact Or.inr (Or.inr (Or.inr (Or.inl ⟨_, rfl, hr⟩)))
          · intro v hv
            cases hv
            exact hgt
        · rename_i hle
          refine h.local_step rfl rfl rfl (fun r hr _ => ?_) (hmove _ rfl rfl nofun)
          exact Or.inl (le_trans hr (not_lt.mp hle))
    · cases hs
  | handlerReturns err =>
    dsimp only [watchStep] at hs
    split at hs
    · rename_i v hphase
      cases hs
      have hlt := h.handler.handling v hphase
      refine h.local_step rfl rfl rfl ?_
        (h.handler.finish hphase rfl nofun (fun _ => ⟨rfl, rfl⟩) (le_of_lt hlt))
      rintro r hr (hr' | hw | hp | ⟨u, hu, hru⟩ | ⟨err, he⟩)
      · exact Or.inl (le_trans hr' (le_of_lt hlt))
      · exact Or.inr (Or.inl hw)
      · rw [hphase] at hp; cases hp
      · rw [hphase] at hu
        cases hu
        exact Or.inl hru
      · rw [hphase] at he; cases he
    · rename_i v err hphase
      cases hs
      exact h.local_step rfl rfl rfl (fun r _ _ => Or.inr (Or.inr (Or.inr (Or.inr ⟨err, rfl⟩))))
        (h.handler.finish hphase rfl nofun (fun hr => absurd rfl (hr err)) (le_refl _))
    · cases hs

theorem of_reachable (hmono : Monotone fun r : Revision => tonumber (formatUint r))
    (hs : (watchSystem tonumber start).Reachable s) : WatchInv start s := by
  refine System.Reachable.invariant ?_ ?_ hs
  · rintro s rfl
    exact initial start
  · intro s a s' _ hinv hstep
    exact hinv.step hmono hstep

end WatchInv

section Main

variable {N : Type*} [LinearOrder N] {tonumber : Bytes → N}

/-- Only a publication changes the key. -/
theorem watchStep_key {s s' : WatchState} {action : WatchAction}
    (hs : watchStep tonumber s action = some s') :
    s'.key = s.key ∨ ∃ revision, s' = (publish tonumber s revision).2 := by
  cases action with
  | publish revision => cases hs; exact Or.inr ⟨revision, rfl⟩
  | watch err =>
    dsimp only [watchStep] at hs
    split at hs
    · cases err <;> cases hs <;> exact Or.inl rfl
    · cases hs
  | deliver message =>
    dsimp only [watchStep] at hs
    split at hs
    · obtain ⟨m, _, rfl⟩ := Option.map_eq_some_iff.mp hs
      exact Or.inl rfl
    · cases hs
  | readKey err =>
    dsimp only [watchStep] at hs
    split at hs
    · cases hs
      refine Or.inl ?_
      unfold observed
      split
      · rfl
      · split <;> rfl
    · cases hs
  | handlerReturns err =>
    dsimp only [watchStep] at hs
    split at hs <;> cases hs <;> exact Or.inl rfl
  | receiveEnds | takeReceiveDone | takeTick | takeWakeup | takeDone err =>
    dsimp only [watchStep] at hs
    split at hs
    · cases hs; exact Or.inl rfl
    · cases hs

/-- **No invalidation is lost.**  Under any interleaving of publishers,
deliveries and one watcher: the key never decreases, the handler is called with
strictly increasing revisions and never again after it failed, and whatever was
delivered is passed or will still be seen. -/
theorem no_lost_wakeup (hmono : Monotone fun r : Revision => tonumber (formatUint r))
    (after : Revision) {s : WatchState} (hs : (watchSystem tonumber after).Reachable s) :
    (∀ actions s', (watchSystem tonumber after).run s actions = some s' →
      keyRevision s.key ≤ keyRevision s'.key) ∧
    (passed s).Pairwise (· < ·) ∧
    (∀ v ∈ passed s, after < v) ∧
    (∀ h ∈ s.handled.dropLast, h.2 = true) ∧
    (∀ v, (v, false) ∈ s.handled → ∃ err, s.phase = .returned err) ∧
    ∀ r, formatUint r ∈ s.delivered → Seen s r := by
  have h := WatchInv.of_reachable hmono hs
  refine ⟨?_, h.handler.increasing, h.handler.above, h.handler.failed, ?_, h.wakeup⟩
  · intro actions s' hrun
    refine hs.run_rel (R := fun s s' => keyRevision s.key ≤ keyRevision s'.key) (fun _ => le_refl _)
      (fun _ _ _ => le_trans) ?_ hrun
    intro t a t' ht hstep
    rcases watchStep_key hstep with hk | ⟨revision, rfl⟩
    · rw [hk]
    · exact (publish_key hmono (WatchInv.of_reachable hmono ht).key revision).2
  · intro v hv
    by_contra hc
    have hok := (h.handler.running (fun err he => hc ⟨err, he⟩) _ hv).2
    cases hok

/-- Two publications, one of them delivered while the watcher handles the
other. -/
theorem no_lost_wakeup_pending : ∃ s : WatchState, s.phase = .handling 3 ∧ s.wakeup = true ∧
    formatUint 5 ∈ s.delivered ∧ Seen s 5 := by
  have hmono : Monotone fun r : Revision => (parseUint (formatUint r)).getD 0 := by
    intro a b hab
    simpa using hab
  have hrun : (watchSystem (fun t => (parseUint t).getD 0) 2).run { after := 2 }
      [.publish 3, .watch none, .readKey none, .publish 5, .deliver 1] = some _ := rfl
  refine ⟨_, rfl, rfl, by decide, (no_lost_wakeup hmono 2 (.run (.init rfl) hrun)).2.2.2.2.2 5 ?_⟩
  decide

end Main


end Authorization.Valkey
