import ProofHost.Bytes

/-!
Other machines, as far as a host can tell: what comes of a request for an address.
-/

set_option autoImplicit false

namespace ProofHost

/-- The status of an answer: its code and the wording of it. -/
structure Status where
  code : Nat
  text : String
  deriving DecidableEq, Repr

def Status.isSuccess (s : Status) : Bool := 200 ≤ s.code && s.code < 300

/-- The body of an answer: the size that is announced for it, the chunks in which it arrives, and
why it breaks off after them, if it does. -/
structure Body where
  announced : Option UInt64
  chunks : List Bytes
  broken : Option String
  deriving DecidableEq, Repr

inductive Response where
  | failed (cause : String)
  | answered (status : Status) (body : Body)
  deriving DecidableEq, Repr

/-- The other machines: what a request for an address leads to. -/
abbrev Network := String → Response

def Network.unreachable : Network := fun uri =>
  .failed ("error sending request for url (" ++ uri ++ ")")

end ProofHost
