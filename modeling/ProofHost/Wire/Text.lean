import ProofHost.Wire.Message

/-!
Messages as lines of text, and the values of messages read straight from a text.
-/

set_option autoImplicit false

namespace ProofHost

def decodeText {α : Type} (ofJson : Json → Except (TagError FieldError) α) (text : String) :
    Except DecodeError α :=
  match Json.parse text with
  | none => .error .malformed
  | some v =>
    match ofJson v with
    | .ok a => .ok a
    | .error e => .error (.tagged e)

def Command.encode (c : Command) : String := c.toJson.render

def Command.decode (text : String) : Except DecodeError Command := decodeText Command.ofJson text

def Answer.encode (a : Answer) : String := a.toJson.render

def Answer.decode (text : String) : Except DecodeError Answer := decodeText Answer.ofJson text

/-- The answer of a line of kernel output; what is no answer is kept as it came. -/
def Answer.ofLine (line : String) : Answer :=
  match Answer.decode line with
  | .ok a => a
  | .error _ => .garbled line

def Request.encode (r : Request) : String := r.toJson.render

def Request.decode (text : String) : Except DecodeError Request := decodeText Request.ofJson text

def Notice.encode (n : Notice) : String := n.toJson.render

def Notice.decode (text : String) : Except DecodeError Notice := decodeText Notice.ofJson text

def Message.encode (m : Message) : String := m.toJson.render

def Message.decode (text : String) : Except DecodeError Message := decodeText Message.ofJson text

def Search.encode (s : Search) : String := s.toJson.render

def TagError.ofSearch : TagError Mismatch → TagError FieldError
  | notArray => .notArray
  | missingTag => .missingTag
  | unknownTag tag => .unknownTag tag
  | arity tag expected found => .arity tag expected found
  | field tag index cause => .field tag index (.shape cause)

def Search.decode (text : String) : Except DecodeError Search :=
  decodeText (fun v => (Search.ofJson v).mapError TagError.ofSearch) text

/-- Why a value read straight from a text is refused. -/
inductive Refusal where
  | shape (cause : Mismatch)
  | tagged (cause : TagError FieldError)
  deriving DecidableEq, Repr

def Refusal.message : Refusal → String
  | shape cause => cause.message
  | tagged cause => cause.message FieldError.message

namespace Reader

def shaped {α : Type} (reader : Reader Mismatch α) : Reader Refusal α := fun cs =>
  match reader cs with
  | .ok r => .ok r
  | .error .malformed => .error .malformed
  | .error (.rejected e) => .error (.rejected (.shape e))

def taggedList {α : Type} (ofJson : Json → Except (TagError FieldError) α) :
    Reader Refusal (List α) := fun cs =>
  match Json.skipSpace cs with
  | '[' :: rest =>
    let item (items : List α) : Reader Refusal (List α) := fun cs =>
      match Json.readValue (Json.maxDepth - 1) cs with
      | .error e => .error e
      | .ok (v, rest') =>
        match ofJson v with
        | .ok a => .ok (a :: items, rest')
        | .error e => .error (.rejected (.tagged e))
    (Json.readItems item [] rest).map fun (items, r) => (items.reverse, r)
  | rest =>
    match shaped (checked fun v => .error (.kind v "a sequence")) rest with
    | .ok (_, rest') => .ok ([], rest')
    | .error e => .error e

def record {α : Type} (shape : RecordShape) (build : List Json → Except Mismatch α) :
    Reader Mismatch α := fun cs =>
  match shape.read Json.maxDepth cs with
  | .error e => .error e
  | .ok (values, rest) =>
    match build values with
    | .ok a => .ok (a, rest)
    | .error e => .error (.rejected e)

def decoded {α : Type} (decode : Json.Decoder α) : Reader Mismatch α := fun cs =>
  match Json.readValue Json.maxDepth cs with
  | .error e => .error e
  | .ok (v, rest) =>
    match decode v with
    | .ok a => .ok (a, rest)
    | .error e => .error (.rejected e)

end Reader

def Span.parse (text : String) : Except (Fault Mismatch) Span :=
  Json.readAll (Reader.record Span.shape Span.ofValues) text.toList

def Feedback.parse (text : String) : Except (Fault Mismatch) Feedback :=
  Json.readAll (Reader.record Feedback.shape Feedback.ofValues) text.toList

def InterruptSetup.parse (text : String) : Except (Fault Mismatch) InterruptSetup :=
  Json.readAll (Reader.record InterruptSetup.shape InterruptSetup.ofValues) text.toList

def Content.parse (text : String) : Except (Fault Mismatch) Content :=
  Json.readAll (Reader.decoded Content.ofJson) text.toList

def Command.parseList (text : String) : Except (Fault Refusal) (List Command) :=
  Json.readAll (Reader.taggedList Command.ofJson) text.toList

def Answer.parseList (text : String) : Except (Fault Refusal) (List Answer) :=
  Json.readAll (Reader.taggedList Answer.ofJson) text.toList

def Request.parseList (text : String) : Except (Fault Refusal) (List Request) :=
  Json.readAll (Reader.taggedList Request.ofJson) text.toList

def Message.parseList (text : String) : Except (Fault Refusal) (List Message) :=
  Json.readAll (Reader.taggedList Message.ofJson) text.toList

end ProofHost
