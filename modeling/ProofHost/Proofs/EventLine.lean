import ProofHost.Event
import ProofHost.Proofs.Json.OneLine
import ProofHost.Proofs.Wire.Reencoding

/-!
The line on which an event is written. It is the text of one value, which says what the event is,
and the value is read back from the line however many containers are inside one another.
-/

set_option autoImplicit false

namespace ProofHost

open Json

/-- A value that says which event it stands for. -/
inductive Event.Shows : Event → Json → Prop
  | message {m : Message} {payload : Json} (read : Message.ofJson payload = .ok m) :
    Shows (.message m) (.object [("event", .string "message"), ("payload", payload)])
  | progress (uri : String) (state : Progress) :
    Shows (.progress uri state) (.object [("event", .string "progress"), ("payload", .object [
      ("download", .object [
        ("downloaded", .number (.natural state.downloaded)),
        ("total", (state.total.map fun total => Json.number (.natural total)).getD .null)]),
      ("uri", .string uri)])])

theorem Event.Shows.unique {e e' : Event} {v : Json} (first : e.Shows v) (second : e'.Shows v) :
    e = e' := by
  cases first with
  | @message m payload read =>
    generalize same : Json.object _ = v at second
    cases second with
    | @message m' payload' read' =>
      obtain rfl : payload = payload' := by simpa using same
      rw [Except.ok.inj (read.symm.trans read')]
    | progress uri state => simp at same
  | progress uri state =>
    generalize same : Json.object _ = v at second
    cases second with
    | message read' => simp at same
    | progress uri' state' =>
      obtain ⟨total, downloaded⟩ := state
      obtain ⟨total', downloaded'⟩ := state'
      obtain ⟨⟨rfl, totals⟩, rfl⟩ : (downloaded = downloaded' ∧
          (total.map fun total => Json.number (.natural total)).getD .null =
            (total'.map fun total => Json.number (.natural total)).getD .null) ∧ uri = uri' := by
        simpa using same
      cases total <;> cases total' <;> simp_all

section Answers

variable {a : Answer} {line : String}

end Answers

end ProofHost
