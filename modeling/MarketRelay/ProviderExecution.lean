import Mathlib.Tactic.ByContra
import MarketRelay.Lib.Machine

/-!
# Provider Calls in a Child Process

`run_with_deadline`: a provider action runs in a child process, which sends its result through a
pipe, and the parent waits for the child to exit before it reads. The pipe is a bounded buffer: a
send blocks until there is room, and the child exits only after its send. So a result that does
not fit into the buffer keeps the child from exiting and the parent from reading, and the deadline
strikes although the action has finished.

A child that dies leaves an open question of another kind: at the end of file `poll` is true and
`recv` raises `EOFError`, which nothing turns into `ProviderProcessError`.

## Main results

* `ProviderCall.run_bounded`, `ProviderCall.Inv.moves`: every run comes to its end.
* `run_with_deadline_iff`: for which actions and buffers the outcome is the matching one.
* `run_with_deadline_mismatch`: runs in which the outcome does not match.
-/

namespace MarketRelay

/-- What the child sends: `(True, value)` or `(False, None)`. -/
inductive ChildMessage (α : Type) where
  | value (v : α)
  | failed
deriving DecidableEq

/-- What the provider action does in its process. -/
structure ProviderAction (α : Type) where
  /-- What the child has to send when the action is over; absent, if it never returns. -/
  result : Option (ChildMessage α)
  /-- The process can die before it exits. -/
  mayDie : Bool

/-- The pipe, and the number of bytes of each pickled message with its header. -/
structure Pipe (α : Type) where
  capacity : ℕ
  size : ChildMessage α → ℕ

/-- How a call of `run_with_deadline` ends. -/
inductive CallOutcome (α : Type) where
  | returned (v : α)
  /-- `ProviderTimeoutError` -/
  | timeout
  /-- `ProviderProcessError` -/
  | process
  /-- The `EOFError` of `recv`; an `OSError`, if the end of file is inside of a message. -/
  | endOfFile
deriving DecidableEq

/-- Where the child is. -/
inductive ChildPhase where
  | acting
  | sending
  | exited
  | dead
deriving DecidableEq, Repr

/-- Where the parent is. -/
inductive ParentPhase where
  /-- In `process.join(timeout_seconds)`. -/
  | joining
  | polling
  | receiving
  | ended
deriving DecidableEq, Repr

/-- The two processes and the pipe between them. -/
structure ProviderCall (α : Type) where
  child : ChildPhase
  parent : ParentPhase
  /-- How the call has ended, once it has. -/
  outcome : Option (CallOutcome α)
  /-- What the action has ended with, once it has. -/
  finished : Option (ChildMessage α)
  /-- The child has died by itself. -/
  died : Bool
  /-- The bytes of the message that have been written to the pipe. -/
  written : ℕ
  /-- The bytes that the parent has read from it. -/
  read : ℕ
deriving DecidableEq

/-- A step of one of the processes, the death of the child, or the deadline. -/
inductive ProviderCallEvent where
  | finish
  /-- A write of some bytes. -/
  | write (bytes : ℕ)
  | exit
  | die
  | deadline
  | join
  | poll
  /-- A read of some bytes. -/
  | read (bytes : ℕ)
  | receive
  | raiseEof
deriving DecidableEq, Repr

namespace ProviderCall

variable {α : Type}

/-- The child process exists. -/
def alive (s : ProviderCall α) : Bool := s.child = .acting || s.child = .sending

/-- How the call ends with a received message. -/
def outcomeOf : ChildMessage α → CallOutcome α
  | .value v => .returned v
  | .failed => .process

/-- `_invoke` in the child and `run_with_deadline` in the parent. -/
def step (pipe : Pipe α) (action : ProviderAction α) (s : ProviderCall α) :
    ProviderCallEvent → Option (ProviderCall α)
  | .finish =>
    if s.child = .acting then
      action.result.map fun m => { s with child := .sending, finished := some m }
    else none
  | .write bytes =>
    -- A write moves at least one byte, and not more than there is room for.
    if s.child = .sending ∧ 0 < bytes ∧ (∃ m ∈ s.finished, s.written + bytes ≤ pipe.size m) ∧
        s.written + bytes ≤ s.read + pipe.capacity then
      some { s with written := s.written + bytes }
    else none
  | .exit =>
    if s.child = .sending ∧ ∃ m ∈ s.finished, s.written = pipe.size m then
      some { s with child := .exited }
    else none
  | .die =>
    if action.mayDie ∧ s.alive then some { s with child := .dead, died := true } else none
  | .deadline =>
    -- The child that is found alive is terminated.
    if s.parent = .joining ∧ s.alive then
      some { s with child := .dead, parent := .ended, outcome := some .timeout }
    else none
  | .join => if s.parent = .joining ∧ ¬ s.alive then some { s with parent := .polling } else none
  | .poll =>
    -- There is something to read, or the end of file.
    if s.parent = .polling then
      if s.read < s.written ∨ ¬ s.alive then some { s with parent := .receiving }
      else some { s with parent := .ended, outcome := some .process }
    else none
  | .read bytes =>
    if s.parent = .receiving ∧ 0 < bytes ∧ s.read + bytes ≤ s.written then
      some { s with read := s.read + bytes }
    else none
  | .receive =>
    s.finished.bind fun m =>
      if s.parent = .receiving ∧ s.read = pipe.size m then
        some { s with parent := .ended, outcome := some (outcomeOf m) }
      else none
  | .raiseEof =>
    if s.parent = .receiving ∧ s.read = s.written ∧ ¬ s.alive ∧
        ¬ ∃ m ∈ s.finished, s.read = pipe.size m then
      some { s with parent := .ended, outcome := some .endOfFile }
    else none

/-- The call, from `process.start()`. -/
def machine (pipe : Pipe α) (action : ProviderAction α) : Machine (ProviderCall α) ProviderCallEvent :=
  ⟨⟨.acting, .joining, none, none, false, 0, 0⟩, step pipe action⟩

/-- The matching outcome: that of the action, if it has ended, and of the process. -/
def expected (s : ProviderCall α) : CallOutcome α :=
  if s.died then .process
  else
    match s.finished with
    | some m => outcomeOf m
    | none => .timeout

/-- The parent waits for the child to exit, and the child for the parent to read. -/
def Deadlocked (pipe : Pipe α) (s : ProviderCall α) : Prop :=
  s.parent = .joining ∧ s.child = .sending ∧
    (∃ m ∈ s.finished, s.written < pipe.size m) ∧ s.read + pipe.capacity ≤ s.written

/-- The deadline strikes while the action is running: not between its end and the exit of the
child. -/
def Prompt (s : ProviderCall α) (e : ProviderCallEvent) : Prop := e = .deadline → s.child = .acting

/-- A call that has ended has the matching outcome; one that has not goes on, and the processes
do not wait for each other. -/
structure Good (pipe : Pipe α) (action : ProviderAction α) (s : ProviderCall α) : Prop where
  outcome : ∀ o, s.outcome = some o → o = s.expected
  notDeadlocked : ¬ s.Deadlocked pipe
  moves : s.parent ≠ .ended → ∃ e s', Prompt s e ∧ step pipe action s e = some s'

/-! ### The invariant -/

section Invariant

variable {pipe : Pipe α} {action : ProviderAction α} {s s' : ProviderCall α}
  {e : ProviderCallEvent}

/-- What holds in every state, whatever the order of the steps. -/
structure Inv (pipe : Pipe α) (action : ProviderAction α) (s : ProviderCall α) : Prop where
  acting : s.child = .acting → s.finished = none
  sending : s.child = .sending → ∃ m, s.finished = some m
  exited : s.child = .exited → s.died = false ∧ ∃ m, s.finished = some m ∧ s.written = pipe.size m
  died : s.died = true → action.mayDie = true ∧ s.child = .dead
  finished : ∀ m, s.finished = some m → action.result = some m ∧ s.written ≤ pipe.size m
  unfinished : s.finished = none → s.written = 0
  read : s.read ≤ s.written
  dead : s.parent ≠ .ended → s.child = .dead → s.died = true
  gone : s.parent ≠ .joining → s.alive = false
  outcome : ∀ o, s.outcome = some o → s.parent = .ended

theorem alive_iff : s.alive = true ↔ s.child = .acting ∨ s.child = .sending := by
  rw [alive, Bool.or_eq_true, decide_eq_true_eq, decide_eq_true_eq]

theorem not_alive_iff : s.alive = false ↔ s.child = .exited ∨ s.child = .dead := by
  rw [alive]
  cases s.child <;> simp

theorem inv_start : Inv pipe action (machine pipe action).start where
  acting _ := rfl
  sending h := nomatch h
  exited h := nomatch h
  died h := nomatch h
  finished _ h := nomatch h
  unfinished _ := rfl
  read := Nat.le_refl 0
  dead _ h := nomatch h
  gone h := absurd rfl h
  outcome _ h := nomatch h

/-- The events that are enabled, each with what enables it and the state that it leads to. -/
inductive Step (pipe : Pipe α) (action : ProviderAction α) (s : ProviderCall α) :
    ProviderCallEvent → ProviderCall α → Prop
  | finish {m : ChildMessage α} (hchild : s.child = .acting) (hm : action.result = some m) :
      Step pipe action s .finish { s with child := .sending, finished := some m }
  | write {bytes : ℕ} {m : ChildMessage α} (hchild : s.child = .sending) (hpos : 0 < bytes)
      (hm : s.finished = some m) (hsize : s.written + bytes ≤ pipe.size m)
      (hroom : s.written + bytes ≤ s.read + pipe.capacity) :
      Step pipe action s (.write bytes) { s with written := s.written + bytes }
  | exit {m : ChildMessage α} (hchild : s.child = .sending) (hm : s.finished = some m)
      (hwritten : s.written = pipe.size m) : Step pipe action s .exit { s with child := .exited }
  | die (hdie : action.mayDie = true) (halive : s.alive = true) :
      Step pipe action s .die { s with child := .dead, died := true }
  | deadline (hparent : s.parent = .joining) (halive : s.alive = true) :
      Step pipe action s .deadline
        { s with child := .dead, parent := .ended, outcome := some .timeout }
  | join (hparent : s.parent = .joining) (hgone : s.alive = false) :
      Step pipe action s .join { s with parent := .polling }
  | poll (hparent : s.parent = .polling) (hready : s.read < s.written ∨ s.alive = false) :
      Step pipe action s .poll { s with parent := .receiving }
  | nothing (hparent : s.parent = .polling) (hempty : ¬ s.read < s.written)
      (halive : s.alive = true) :
      Step pipe action s .poll { s with parent := .ended, outcome := some .process }
  | read {bytes : ℕ} (hparent : s.parent = .receiving) (hpos : 0 < bytes)
      (hread : s.read + bytes ≤ s.written) :
      Step pipe action s (.read bytes) { s with read := s.read + bytes }
  | receive {m : ChildMessage α} (hparent : s.parent = .receiving) (hm : s.finished = some m)
      (hread : s.read = pipe.size m) :
      Step pipe action s .receive { s with parent := .ended, outcome := some (outcomeOf m) }
  | raiseEof (hparent : s.parent = .receiving) (hread : s.read = s.written)
      (hgone : s.alive = false) (hshort : ∀ m, s.finished = some m → s.read ≠ pipe.size m) :
      Step pipe action s .raiseEof { s with parent := .ended, outcome := some .endOfFile }

/-- **What a step can do.** -/
theorem step_inv (h : step pipe action s e = some s') : Step pipe action s e s' := by
  cases e with
  | finish =>
      simp only [step, Option.ite_none_right_eq_some, Option.map_eq_some_iff] at h
      obtain ⟨hchild, m, hm, rfl⟩ := h
      exact .finish hchild hm
  | write bytes =>
      simp only [step, Option.ite_none_right_eq_some, Option.some.injEq] at h
      obtain ⟨⟨hchild, hpos, ⟨m, hm, hsize⟩, hroom⟩, rfl⟩ := h
      exact .write hchild hpos hm hsize hroom
  | exit =>
      simp only [step, Option.ite_none_right_eq_some, Option.some.injEq] at h
      obtain ⟨⟨hchild, m, hm, hwritten⟩, rfl⟩ := h
      exact .exit hchild hm hwritten
  | die =>
      simp only [step, Option.ite_none_right_eq_some, Option.some.injEq] at h
      obtain ⟨⟨hdie, halive⟩, rfl⟩ := h
      exact .die hdie halive
  | deadline =>
      simp only [step, Option.ite_none_right_eq_some, Option.some.injEq] at h
      obtain ⟨⟨hparent, halive⟩, rfl⟩ := h
      exact .deadline hparent halive
  | join =>
      simp only [step, Option.ite_none_right_eq_some, Option.some.injEq, Bool.not_eq_true] at h
      obtain ⟨⟨hparent, hgone⟩, rfl⟩ := h
      exact .join hparent hgone
  | poll =>
      simp only [step, Option.ite_none_right_eq_some, Bool.not_eq_true] at h
      obtain ⟨hparent, h⟩ := h
      split at h
      · rename_i hready
        obtain rfl := Option.some.inj h
        exact .poll hparent hready
      · rename_i hready
        obtain rfl := Option.some.inj h
        rw [not_or, Bool.not_eq_false] at hready
        exact .nothing hparent hready.1 hready.2
  | read bytes =>
      simp only [step, Option.ite_none_right_eq_some, Option.some.injEq] at h
      obtain ⟨⟨hparent, hpos, hread⟩, rfl⟩ := h
      exact .read hparent hpos hread
  | receive =>
      simp only [step, Option.bind_eq_some_iff, Option.ite_none_right_eq_some,
        Option.some.injEq] at h
      obtain ⟨m, hm, ⟨hparent, hread⟩, rfl⟩ := h
      exact .receive hparent hm hread
  | raiseEof =>
      simp only [step, Option.ite_none_right_eq_some, Option.some.injEq, Bool.not_eq_true,
        not_exists, not_and] at h
      obtain ⟨⟨hparent, hread, hgone, hshort⟩, rfl⟩ := h
      exact .raiseEof hparent hread hgone hshort

theorem step_of (h : Step pipe action s e s') : step pipe action s e = some s' := by
  cases h with
  | finish hchild hm => exact (if_pos hchild).trans (by rw [hm]; rfl)
  | write hchild hpos hm hsize hroom => exact if_pos ⟨hchild, hpos, ⟨_, hm, hsize⟩, hroom⟩
  | exit hchild hm hwritten => exact if_pos ⟨hchild, _, hm, hwritten⟩
  | die hdie halive => exact if_pos ⟨hdie, halive⟩
  | deadline hparent halive => exact if_pos ⟨hparent, halive⟩
  | join hparent hgone => exact if_pos ⟨hparent, by rw [hgone]; simp⟩
  | poll hparent hready =>
      exact (if_pos hparent).trans (if_pos (hready.imp id fun hgone => by rw [hgone]; simp))
  | nothing hparent hempty halive =>
      exact (if_pos hparent).trans (if_neg (not_or.mpr ⟨hempty, not_not.mpr halive⟩))
  | read hparent hpos hread => exact if_pos ⟨hparent, hpos, hread⟩
  | receive hparent hm hread =>
      simp only [step, hm, Option.bind_some]
      exact if_pos ⟨hparent, hread⟩
  | raiseEof hparent hread hgone hshort =>
      refine if_pos ⟨hparent, hread, by rw [hgone]; simp, ?_⟩
      rintro ⟨m, hm, hwhole⟩
      exact hshort m hm hwhole

/-- The parent of a living child waits for it. -/
theorem Inv.joining (h : Inv pipe action s) (halive : s.alive = true) : s.parent = .joining := by
  by_contra hparent
  rw [h.gone hparent] at halive
  exact absurd halive (by simp)

/-- A living child has not died. -/
theorem Inv.not_died (h : Inv pipe action s) (halive : s.alive = true) : s.died = false := by
  refine Bool.eq_false_iff.mpr fun hdied => ?_
  have hdead := not_alive_iff.mpr (Or.inr (h.died hdied).2)
  rw [hdead] at halive
  exact absurd halive (by simp)

/-- **Every step keeps the invariant.** -/
theorem Inv.next (h : Inv pipe action s) (hs : Step pipe action s e s') : Inv pipe action s' := by
  cases hs with
  | finish hchild hm =>
      have halive := alive_iff.mpr (Or.inl hchild)
      exact { h with
        acting := nofun
        sending := fun _ => ⟨_, rfl⟩
        exited := nofun
        died := fun hdied => absurd hdied (by simp [h.not_died halive])
        finished := fun m' hm' => by
          obtain rfl := Option.some.inj hm'
          exact ⟨hm, by rw [h.unfinished (h.acting hchild)]; exact Nat.zero_le _⟩
        unfinished := nofun
        dead := nofun
        gone := fun hparent => absurd (h.joining halive) hparent }
  | write hchild hpos hm hsize hroom =>
      exact { h with
        exited := fun hexited => absurd (hchild.symm.trans hexited) (by simp)
        finished := fun m' hm' => by
          obtain rfl := Option.some.inj (hm.symm.trans hm')
          exact ⟨(h.finished _ hm).1, hsize⟩
        unfinished := fun hnone => absurd (hm.symm.trans hnone) (by simp)
        read := Nat.le_trans h.read (Nat.le_add_right _ _) }
  | exit hchild hm hwritten =>
      have halive := alive_iff.mpr (Or.inr hchild)
      exact { h with
        acting := nofun
        sending := nofun
        exited := fun _ => ⟨h.not_died halive, _, hm, hwritten⟩
        died := fun hdied => absurd hdied (by simp [h.not_died halive])
        dead := nofun
        gone := fun _ => rfl }
  | die hdie halive =>
      exact { h with
        acting := nofun
        sending := nofun
        exited := nofun
        died := fun _ => ⟨hdie, rfl⟩
        dead := fun _ _ => rfl
        gone := fun _ => rfl }
  | deadline hparent halive =>
      exact { h with
        acting := nofun
        sending := nofun
        exited := nofun
        died := fun hdied => absurd hdied (by simp [h.not_died halive])
        dead := fun hended => absurd rfl hended
        gone := fun _ => rfl
        outcome := fun _ _ => rfl }
  | join hparent hgone =>
      exact { h with
        dead := fun _ hdead => h.dead (by simp [hparent]) hdead
        gone := fun _ => hgone
        outcome := fun o ho => absurd (hparent.symm.trans (h.outcome o ho)) (by simp) }
  | poll hparent hready =>
      exact { h with
        dead := fun _ hdead => h.dead (by simp [hparent]) hdead
        gone := fun _ => h.gone (by simp [hparent])
        outcome := fun o ho => absurd (hparent.symm.trans (h.outcome o ho)) (by simp) }
  | nothing hparent hempty halive =>
      exact absurd (hparent.symm.trans (h.joining halive)) (by simp)
  | read hparent hpos hread =>
      exact { h with read := hread }
  | receive hparent hm hread =>
      exact { h with
        dead := fun hended => absurd rfl hended
        gone := fun _ => h.gone (by simp [hparent])
        outcome := fun _ _ => rfl }
  | raiseEof hparent hread hgone hshort =>
      exact { h with
        dead := fun hended => absurd rfl hended
        gone := fun _ => hgone
        outcome := fun _ _ => rfl }

/-- No step is left when the call has ended. -/
theorem Inv.not_ended (h : Inv pipe action s) (hs : Step pipe action s e s') :
    s.parent ≠ .ended := by
  intro hended
  have hgone := h.gone (by simp [hended])
  have hnot : s.child ≠ .acting ∧ s.child ≠ .sending := by
    rcases not_alive_iff.mp hgone with hchild | hchild <;> simp [hchild]
  cases hs with
  | finish hchild => exact hnot.1 hchild
  | write hchild => exact hnot.2 hchild
  | exit hchild => exact hnot.2 hchild
  | die _ halive => exact absurd (hgone.symm.trans halive) (by simp)
  | deadline hparent => exact absurd (hended.symm.trans hparent) (by simp)
  | join hparent => exact absurd (hended.symm.trans hparent) (by simp)
  | poll hparent => exact absurd (hended.symm.trans hparent) (by simp)
  | nothing hparent => exact absurd (hended.symm.trans hparent) (by simp)
  | read hparent => exact absurd (hended.symm.trans hparent) (by simp)
  | receive hparent => exact absurd (hended.symm.trans hparent) (by simp)
  | raiseEof hparent => exact absurd (hended.symm.trans hparent) (by simp)

theorem Inv.of_reaches {allowed : ProviderCall α → ProviderCallEvent → Prop}
    (h : (machine pipe action).Reaches allowed s) : Inv pipe action s :=
  h.invariant inv_start fun _ _ _ hinv _ hs => hinv.next (step_inv hs)

end Invariant

/-! ### Every run comes to its end -/

section Progress

variable {pipe : Pipe α} {action : ProviderAction α} {s s' : ProviderCall α}
  {e : ProviderCallEvent}

/-- The bytes that the child has to send. -/
def messageSize (pipe : Pipe α) (action : ProviderAction α) : ℕ :=
  (action.result.map pipe.size).getD 0

/-- What is left to do: the steps of the child and of the parent, and the bytes to write and to
read. -/
def left (pipe : Pipe α) (action : ProviderAction α) (s : ProviderCall α) : ℕ :=
  (match s.child with | .acting => 2 | .sending => 1 | .exited | .dead => 0) +
    (match s.parent with | .joining => 3 | .polling => 2 | .receiving => 1 | .ended => 0) +
    (messageSize pipe action - s.written) + (messageSize pipe action - s.read)

theorem Inv.size_eq (h : Inv pipe action s) {m : ChildMessage α} (hm : s.finished = some m) :
    messageSize pipe action = pipe.size m := by
  rw [messageSize, (h.finished m hm).1]
  rfl

theorem Inv.written_le (h : Inv pipe action s) : s.written ≤ messageSize pipe action := by
  cases hm : s.finished with
  | none =>
      rw [h.unfinished hm]
      exact Nat.zero_le _
  | some m =>
      rw [h.size_eq hm]
      exact (h.finished m hm).2

/-- Every step leaves less to do. -/
theorem Inv.left_lt (h : Inv pipe action s) (hs : Step pipe action s e s') :
    left pipe action s' < left pipe action s := by
  have hended := h.not_ended hs
  have hwritten := h.written_le
  cases hs with
  | finish hchild hm => simp only [left, hchild]; omega
  | write hchild hpos hm hsize hroom =>
      have := h.size_eq hm
      simp only [left]
      omega
  | exit hchild hm hsize => simp only [left, hchild]; omega
  | die hdie halive =>
      simp only [left]
      rcases alive_iff.mp halive with hchild | hchild <;> simp only [hchild] <;> omega
  | deadline hparent halive =>
      simp only [left, hparent]
      rcases alive_iff.mp halive with hchild | hchild <;> simp only [hchild] <;> omega
  | join hparent hgone => simp only [left, hparent]; omega
  | poll hparent hready => simp only [left, hparent]; omega
  | nothing hparent hempty halive => simp only [left, hparent]; omega
  | read hparent hpos hread => simp only [left]; omega
  | receive hparent hm hread => simp only [left, hparent]; omega
  | raiseEof hparent hread hgone hshort => simp only [left, hparent]; omega

/-- **Every run is bounded**: some steps for the processes, and one for each byte at the most. -/
theorem run_bounded {events : List ProviderCallEvent}
    (h : (machine pipe action).run (machine pipe action).start events = some s) :
    events.length ≤ 5 + 2 * messageSize pipe action := by
  have hbound := Machine.length_le_of_run (μ := left pipe action)
    (fun _ _ _ hinv hs => Inv.next hinv (step_inv hs))
    (fun _ _ _ hinv hs => Inv.left_lt hinv (step_inv hs)) inv_start h
  have hstart : left pipe action (machine pipe action).start =
      2 + 3 + messageSize pipe action + messageSize pipe action := rfl
  omega

/-- **A call that has not ended goes on**, and if the processes do not wait for each other it goes
on without a deadline between the end of the action and the exit of the child. -/
theorem Inv.moves (h : Inv pipe action s) (hended : s.parent ≠ .ended)
    (hfree : ¬ s.Deadlocked pipe) :
    ∃ e s', Prompt s e ∧ step pipe action s e = some s' := by
  have hgo : ∀ {e s'}, Step pipe action s e s' → Prompt s e →
      ∃ e s', Prompt s e ∧ step pipe action s e = some s' := fun hs hprompt =>
    ⟨_, _, hprompt, step_of hs⟩
  cases hparent : s.parent with
  | ended => exact absurd hparent hended
  | joining =>
      cases hchild : s.child with
      | acting => exact hgo (.deadline hparent (alive_iff.mpr (Or.inl hchild))) fun _ => hchild
      | sending =>
          obtain ⟨m, hm⟩ := h.sending hchild
          rcases Nat.lt_or_ge s.written (pipe.size m) with hlt | hge
          · have hroom : s.written + 1 ≤ s.read + pipe.capacity := by
              by_contra hfull
              exact hfree ⟨hparent, hchild, ⟨m, hm, hlt⟩, by omega⟩
            exact hgo (.write hchild Nat.one_pos hm hlt hroom) nofun
          · have heq : s.written = pipe.size m := Nat.le_antisymm (h.finished m hm).2 hge
            exact hgo (.exit hchild hm heq) nofun
      | exited => exact hgo (.join hparent (not_alive_iff.mpr (Or.inl hchild))) nofun
      | dead => exact hgo (.join hparent (not_alive_iff.mpr (Or.inr hchild))) nofun
  | polling => exact hgo (.poll hparent (Or.inr (h.gone (by simp [hparent])))) nofun
  | receiving =>
      have hgone := h.gone (by simp [hparent])
      by_cases hwhole : ∃ m ∈ s.finished, s.read = pipe.size m
      · obtain ⟨m, hm, hread⟩ := hwhole
        exact hgo (.receive hparent hm hread) nofun
      · rcases Nat.lt_or_ge s.read s.written with hlt | hge
        · exact hgo (.read hparent Nat.one_pos hlt) nofun
        · have heq : s.read = s.written := Nat.le_antisymm h.read hge
          exact hgo (.raiseEof hparent heq hgone fun m hm hread => hwhole ⟨m, hm, hread⟩) nofun

end Progress

/-! ### The outcome -/

section Outcome

variable {pipe : Pipe α} {action : ProviderAction α} {s s' : ProviderCall α}
  {e : ProviderCallEvent}

/-- The step that ends a call gives it the matching outcome, if the process cannot die and the
deadline does not strike between the end of the action and the exit of the child. -/
theorem Inv.outcome_step (h : Inv pipe action s) (hdie : action.mayDie = false)
    (hprompt : Prompt s e) (hs : Step pipe action s e s') :
    ∀ o, s'.outcome = some o → o = s'.expected := by
  have hended := h.not_ended hs
  have hnone : ∀ o, s.outcome ≠ some o := fun o ho => hended (h.outcome o ho)
  have hlives : s.died = false :=
    Bool.eq_false_iff.mpr fun hdied => absurd (h.died hdied).1 (by simp [hdie])
  intro o ho
  cases hs with
  | deadline hparent halive =>
      obtain rfl := Option.some.inj ho
      simp only [expected, hlives, h.acting (hprompt rfl)]
      rfl
  | nothing hparent hempty halive => exact absurd (hparent.symm.trans (h.joining halive)) (by simp)
  | receive hparent hm hread =>
      obtain rfl := Option.some.inj ho
      simp only [expected, hlives, hm]
      rfl
  | raiseEof hparent hread hgone hshort =>
      -- The child has exited, so that the whole message has been written.
      rcases not_alive_iff.mp hgone with hchild | hchild
      · obtain ⟨-, m, hm, hwritten⟩ := h.exited hchild
        exact absurd (hread.trans hwritten) (hshort m hm)
      · exact absurd (h.dead hended hchild) (by simp [hlives])
  | die hdie' => exact absurd hdie' (by simp [hdie])
  | finish | write | exit | join | poll | read => exact absurd ho (hnone o)

/-- A message that fits into the pipe never blocks its sender. -/
theorem Inv.not_deadlocked (h : Inv pipe action s)
    (hfits : ∀ m, action.result = some m → pipe.size m ≤ pipe.capacity) : ¬ s.Deadlocked pipe := by
  rintro ⟨-, -, ⟨m, hm, hlt⟩, hfull⟩
  have hsize := hfits m (h.finished m hm).1
  omega

end Outcome

end ProviderCall

open ProviderCall

/-- **Every call ends, and it ends with the matching outcome exactly when** the process cannot die
and the result fits into the pipe, as long as the deadline does not strike between the end of the
action and the exit of the child. -/
theorem run_with_deadline_iff {α : Type} (pipe : Pipe α) (action : ProviderAction α) :
    (∀ events s, (machine pipe action).run (machine pipe action).start events = some s →
      events.length ≤ 5 + 2 * messageSize pipe action) ∧
    ((∀ s, (machine pipe action).Reaches Prompt s → s.Good pipe action) ↔
      action.mayDie = false ∧ ∀ m, action.result = some m → pipe.size m ≤ pipe.capacity) := by
  refine ⟨fun events s h => run_bounded h, fun hgood => ⟨?_, fun m hm => ?_⟩, ?_⟩
  · -- A child that dies at once leaves the parent with the end of file.
    refine Bool.eq_false_iff.mpr fun hdie => ?_
    have hstart : (machine pipe action).Reaches Prompt (machine pipe action).start := .start
    have hdead := hstart.step (step_of (.die hdie rfl)) nofun
    have hpolling := hdead.step (step_of (.join rfl rfl)) nofun
    have hreceiving := hpolling.step (step_of (.poll rfl (Or.inr rfl))) nofun
    have hended := hreceiving.step (step_of (.raiseEof rfl rfl rfl nofun)) nofun
    exact absurd ((hgood _ hended).outcome _ rfl) nofun
  · by_contra hlarge
    have hlt := Nat.not_le.mp hlarge
    have hstart : (machine pipe action).Reaches Prompt (machine pipe action).start := .start
    have hsending := hstart.step (step_of (.finish rfl hm)) nofun
    rcases Nat.eq_zero_or_pos pipe.capacity with hzero | hpos
    · refine (hgood _ hsending).notDeadlocked ⟨rfl, rfl, ⟨m, rfl, Nat.zero_lt_of_lt hlt⟩, ?_⟩
      exact Nat.le_of_eq ((Nat.zero_add _).trans hzero)
    · have hwrite : Step pipe action
          { (machine pipe action).start with child := .sending, finished := some m }
          (.write pipe.capacity) _ :=
        .write rfl hpos rfl (Nat.le_trans (Nat.le_of_eq (Nat.zero_add _)) (Nat.le_of_lt hlt))
          (Nat.le_refl _)
      have hfull := hsending.step (step_of hwrite) nofun
      refine (hgood _ hfull).notDeadlocked ⟨rfl, rfl, ⟨m, rfl, ?_⟩, ?_⟩
      · exact Nat.lt_of_le_of_lt (Nat.le_of_eq (Nat.zero_add _)) hlt
      · exact Nat.le_refl _
  · rintro ⟨hdie, hfits⟩ s hs
    have hinv := Inv.of_reaches hs
    refine ⟨?_, hinv.not_deadlocked hfits, fun hended => hinv.moves hended
      (hinv.not_deadlocked hfits)⟩
    cases hs with
    | start => exact fun o ho => nomatch ho
    | step hprev hstep hprompt =>
        exact (Inv.of_reaches hprev).outcome_step hdie hprompt (step_inv hstep)

/-- **The outcome does not always match.** A value of 65536 bytes, sent with a header of four
through a pipe of 65536, times out after its action has returned it; and a process that dies at
once makes the call raise `EOFError`. -/
theorem run_with_deadline_mismatch :
    (¬ ∀ (pipe : Pipe Unit) (action : ProviderAction Unit) (s : ProviderCall Unit),
      action.mayDie = false → (machine pipe action).Reaches (fun _ _ => True) s →
      (∀ o, s.outcome = some o → o = s.expected) ∧ ¬ s.Deadlocked pipe) ∧
    ¬ ∀ (pipe : Pipe Unit) (action : ProviderAction Unit) (s : ProviderCall Unit),
      action.result = none → (machine pipe action).Reaches (fun _ _ => True) s →
      ∀ o, s.outcome = some o → o = s.expected := by
  constructor
  · intro hall
    let pipe : Pipe Unit := ⟨65536, fun _ => 65540⟩
    let action : ProviderAction Unit := ⟨some (.value ()), false⟩
    -- The buffer is full, and four bytes of the message are left: only the deadline is enabled.
    have hend : (machine pipe action).run (machine pipe action).start
        [.finish, .write 65536, .deadline] = some
          ⟨.dead, .ended, some .timeout, some (.value ()), false, 65536, 0⟩ := by decide
    have hgood := hall pipe action _ rfl (Machine.run_reaches .start hend)
    exact absurd (hgood.1 .timeout rfl) (by decide)
  · intro hall
    let pipe : Pipe Unit := ⟨65536, fun _ => 65540⟩
    let action : ProviderAction Unit := ⟨none, true⟩
    have hend : (machine pipe action).run (machine pipe action).start
        [.die, .join, .poll, .raiseEof] = some
          ⟨.dead, .ended, some .endOfFile, none, true, 0, 0⟩ := by decide
    have hgood := hall pipe action _ rfl (Machine.run_reaches .start hend)
    exact absurd (hgood .endOfFile rfl) (by decide)

end MarketRelay
