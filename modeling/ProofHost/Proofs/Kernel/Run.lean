import ProofHost.Kernel.Basic
import ProofHost.Wire.Text

/-!
Runs of a kernel of any kind. Lines are posted to it one after another, and in between others may
change the files and the interrupt flag of the place where it works. What was posted is kept
together with what came back.
-/

set_option autoImplicit false

namespace ProofHost

def Reply.answers (r : Reply) : List Answer := r.lines.map Answer.ofLine

namespace Kernel

inductive Act where
  | post (line : String)
  /-- The place where the kernel works is changed from outside. -/
  | disturb (change : Site → Site)

inductive Exchange where
  | posted (line : String) (reply : Reply)
  | disturbed (change : Site → Site)

namespace Exchange

def act : Exchange → Act
  | posted line _ => .post line
  | disturbed change => .disturb change

def reply? : Exchange → Option Reply
  | posted _ reply => some reply
  | disturbed _ => none

end Exchange

def replies (log : List Exchange) : List Reply := log.filterMap Exchange.reply?

def posts (acts : List Act) : List String := acts.filterMap fun
  | .post line => some line
  | .disturb _ => none

variable {κ : Type} [Kernel κ]

def meet (s : κ × Site) : Act → Exchange × κ × Site
  | .post line =>
    let posted := Kernel.post s.1 line s.2
    (.posted line posted.1, posted.2)
  | .disturb change => (.disturbed change, s.1, change s.2)

def record : κ × Site → List Act → List Exchange
  | _, [] => []
  | s, a :: as => (meet s a).1 :: record (meet s a).2 as

def after : κ × Site → List Act → κ × Site
  | s, [] => s
  | s, a :: as => after (meet s a).2 as

def answered (s : κ × Site) (acts : List Act) : List Answer :=
  (replies (record s acts)).flatMap Reply.answers

variable {s : κ × Site}

@[simp] theorem act_meet (s : κ × Site) (a : Act) : (meet s a).1.act = a := by
  cases a <;> rfl

@[simp] theorem record_append (s : κ × Site) (front back : List Act) :
    record s (front ++ back) = record s front ++ record (after s front) back := by
  induction front generalizing s with
  | nil => rfl
  | cons a front ih => simp [record, after, ih]

theorem after_append (s : κ × Site) (front back : List Act) :
    after s (front ++ back) = after (after s front) back := by
  induction front generalizing s with
  | nil => rfl
  | cons a front ih => exact ih (meet s a).2

@[simp] theorem answered_post (line : String) (acts : List Act) :
    answered s (.post line :: acts) =
      (Kernel.post s.1 line s.2).1.answers ++ answered (Kernel.post s.1 line s.2).2 acts := rfl

@[simp] theorem answered_append (front back : List Act) :
    answered s (front ++ back) = answered s front ++ answered (after s front) back := by
  simp [answered, replies]

private theorem length_replies (acts : List Act) :
    (replies (record s acts)).length = (posts acts).length := by
  induction acts generalizing s with
  | nil => rfl
  | cons a acts ih =>
    cases a with
    | post line => exact congrArg Nat.succ ih
    | disturb change => exact ih

theorem reply_at (front : List Act) (line : String) (back : List Act) :
    (replies (record s (front ++ .post line :: back)))[(posts front).length]? =
      some (Kernel.post (after s front).1 line (after s front).2).1 := by
  have split : replies (record s (front ++ .post line :: back)) = replies (record s front) ++
      (Kernel.post (after s front).1 line (after s front).2).1 ::
        replies (record (Kernel.post (after s front).1 line (after s front).2).2 back) := by
    rw [record_append, replies, List.filterMap_append]
    rfl
  rw [split, ← length_replies (s := s), List.getElem?_append_right (Nat.le_refl _), Nat.sub_self]
  rfl

end Kernel

end ProofHost
