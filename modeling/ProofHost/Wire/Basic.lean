import ProofHost.Bytes
import ProofHost.Json.Record

/-!
The values that host and kernel exchange inside their messages: state numbers, source spans,
feedback, file contents and searches.
-/

set_option autoImplicit false

namespace ProofHost

abbrev StateId := UInt64

structure Span where
  start : UInt64
  stop : UInt64
  line : UInt32
  lineStart : UInt64
  deriving DecidableEq, Repr

namespace Span

/-- The span of a whole sentence: all its bytes, on the first line. -/
def ofText (text : String) : Span := ⟨0, text.utf8ByteSize.toUInt64, 1, 0⟩

/-- The fields of a span; line and line start may be left out and are zero then. -/
def shape : RecordShape where
  name := "Span"
  fields := [
    .scalar "bp" Json.asSize none,
    .scalar "ep" Json.asSize none,
    .scalar "line_nb" Json.asHalf (some (Json.ofWord 0)),
    .scalar "bol_pos" Json.asSize (some (Json.ofWord 0))]

def ofValues : List Json → Except Mismatch Span
  | [start, stop, line, lineStart] => do
    return ⟨← Json.asSize start, ← Json.asSize stop, ← Json.asHalf line, ← Json.asSize lineStart⟩
  | values => .error (.short values.length shape.wantCount)

def ofJson : Json.Decoder Span := fun v => shape.ofJson v >>= ofValues

def toJson (s : Span) : Json :=
  .object [("bol_pos", Json.ofWord s.lineStart), ("bp", Json.ofWord s.start),
    ("ep", Json.ofWord s.stop), ("line_nb", Json.ofWord s.line.toUInt64)]

def toRecord (s : Span) : Json :=
  .object [("bp", Json.ofWord s.start), ("ep", Json.ofWord s.stop),
    ("line_nb", Json.ofWord s.line.toUInt64), ("bol_pos", Json.ofWord s.lineStart)]

end Span

inductive Level where
  | debug
  | info
  | notice
  | warning
  | error
  deriving DecidableEq, Repr

namespace Level

def name : Level → String
  | debug => "Debug"
  | info => "Info"
  | notice => "Notice"
  | warning => "Warning"
  | error => "Error"

def all : List Level := [debug, info, notice, warning, error]

def ofName (text : String) : Except Mismatch Level :=
  match all.find? fun level => level.name == text with
  | some level => .ok level
  | none => .error (.unknownName text (all.map name))

/-- Decode a level: its name, or an object whose one field has that name and holds null. -/
def ofJson : Json.Decoder Level
  | .string s => ofName s
  | .object [(key, v)] =>
    match ofName key with
    | .error e => .error e
    | .ok level => (Json.asUnit v).map fun _ => level
  | .object _ => .error .notOneField
  | other => .error (.kind other "string or map")

def toJson (level : Level) : Json := .string level.name

/-- The object form of a level in a text, after its brace; its key has to be a string. -/
def readObject : Reader Mismatch Level := fun cs =>
  match Json.skipSpace cs with
  | '"' :: rest =>
    match Reader.checked (fun v => (ofJson v).map fun _ => ()) ('"' :: rest) with
    | .error e => .error e
    | .ok (v, rest) =>
      match Json.readColon rest with
      | .error e => .error e
      | .ok (_, rest') =>
        match Reader.checked (fun u => Json.asUnit u) rest' with
        | .error e => .error e
        | .ok (_, rest'') =>
          match Json.skipSpace rest'' with
          | '\x7d' :: rest''' =>
            match ofJson v with
            | .ok level => .ok (level, rest''')
            | .error e => .error (.rejected e)
          | _ => .error .malformed
  | _ => .error .malformed

/-- Read a level from a text; what is neither a string nor an object is malformed there. -/
def read : Reader Mismatch Json := fun cs =>
  match Json.skipSpace cs with
  | '"' :: rest =>
    Reader.checked (fun v => (ofJson v).map fun _ => ()) ('"' :: rest)
  | '\x7b' :: rest => (readObject rest).map fun (level, r) => (level.toJson, r)
  | _ => .error .malformed

end Level

/-- A piece of output that the kernel reports about a state. -/
structure Feedback where
  state : StateId
  route : UInt32
  level : Level
  contents : Json
  deriving DecidableEq, Repr

namespace Feedback

/-- The fields of a piece of feedback, none of which may be left out. -/
def shape : RecordShape where
  name := "FeedbackMsg"
  fields := [
    .scalar "span_id" Json.asWord none,
    .scalar "route" Json.asHalf none,
    ⟨"level", fun v => (Level.ofJson v).map fun _ => (), fun _ => Level.read, none⟩,
    .any "contents" none]

def ofValues : List Json → Except Mismatch Feedback
  | [state, route, level, contents] => do
    return ⟨← Json.asWord state, ← Json.asHalf route, ← Level.ofJson level, contents⟩
  | values => .error (.short values.length shape.wantCount)

def ofJson : Json.Decoder Feedback := fun v => shape.ofJson v >>= ofValues

/-- The fields of a piece of feedback in ascending order of their names. -/
def toJson (f : Feedback) : Json :=
  .object [("contents", f.contents), ("level", f.level.toJson),
    ("route", Json.ofWord f.route.toUInt64), ("span_id", Json.ofWord f.state)]

def toRecord (f : Feedback) : Json :=
  .object [("span_id", Json.ofWord f.state), ("route", Json.ofWord f.route.toUInt64),
    ("level", f.level.toJson), ("contents", f.contents)]

end Feedback

/-- The contents of a file in a message: a text, or bytes one by one. -/
inductive Content where
  | text (s : String)
  | bytes (b : Bytes)
  deriving DecidableEq, Repr

namespace Content

def toBytes : Content → Bytes
  | text s => Bytes.ofText s
  | bytes b => b

def ofBytes (b : Bytes) : Json := .array (b.map fun x => Json.ofWord x.toUInt64)

def ofJson : Json.Decoder Content
  | .string s => .ok (text s)
  | .array items =>
    match Json.decodeItems Json.asByte items with
    | .ok b => .ok (bytes b)
    | .error _ => .error (.noForm "Content")
  | _ => .error (.noForm "Content")

def toJson : Content → Json
  | text s => .string s
  | bytes b => ofBytes b

end Content

/-- A request to show the interrupt flag in a marker file. -/
structure InterruptSetup where
  marker : Option String
  deriving DecidableEq, Repr

namespace InterruptSetup

def shape : RecordShape where
  name := "InterruptConfig"
  fields := [.scalar "marker" (Json.asOption Json.asText) (some .null)]

def ofValues : List Json → Except Mismatch InterruptSetup
  | [marker] => (Json.asOption Json.asText marker).map fun m => ⟨m⟩
  | values => .error (.short values.length shape.wantCount)

def ofJson : Json.Decoder InterruptSetup := fun v => shape.ofJson v >>= ofValues

def toJson (r : InterruptSetup) : Json := .object [("marker", Json.ofOption .string r.marker)]

end InterruptSetup

end ProofHost
