import ProofHost.Session.Basic

/-!
What a command does to a session, with any kernel. The session hears the answers of the kernel one
after another and keeps its own document in step; in the end the interrupt is cleared.
-/

set_option autoImplicit false

namespace ProofHost.Session

variable {κ : Type}

private theorem foldl_hear (c : Command) (answers : List Answer) (s : Session κ) :
    answers.foldl (fun s a => s.hear c a) s =
      { s with
        document := answers.foldl (fun d a => d.track c a) s.document
        bus := s.bus.publishAll (answers.map fun a => .message (.answer a)) } := by
  induction answers generalizing s with
  | nil => rfl
  | cons a answers ih => exact ih (s.hear c a)

theorem command_eq [Kernel κ] {s : Session κ} {c : Command} (valid : c.validate = .ok ())
    (booted : s.booted = true) :
    let posted := Kernel.post s.kernel c.encode s.site
    let answers := posted.1.lines.map Answer.ofLine
    s.command c =
      (posted.1.failure.elim (.ok answers) fun e => .error (.kernel e),
        { s with
          kernel := posted.2.1
          site := posted.2.2.clearInterrupt
          document := answers.foldl (fun d a => d.track c a) s.document
          bus := s.bus.publishAll (answers.map fun a => .message (.answer a)) }) := by
  intro posted answers
  have isPosted : Kernel.post s.kernel c.encode s.site = posted := rfl
  have running : (!s.booted) = false := by rw [booted]; rfl
  simp only [command, valid, running, isPosted, Bool.false_eq_true, if_false, foldl_hear]
  cases posted.1.failure <;> rfl

end ProofHost.Session
