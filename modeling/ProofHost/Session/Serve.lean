import ProofHost.Session.Boot

/-!
Serving requests that come as lines of text. Each line is one request, and every event is one line
of output.
-/

set_option autoImplicit false

namespace ProofHost.Session

variable {κ : Type}

def requestOf (line : String) : Option Request :=
  if (Text.trim line.toList).isEmpty then none
  else (Request.decode line).toOption

/-- A line of the input, with what goes on beside it: the order in which the packages that it names
are installed, and how many events are written after it. -/
structure InputLine where
  text : String
  schedule : List Nat
  written : Nat
  deriving DecidableEq, Repr

def InputLine.plain (text : String) : InputLine := ⟨text, [], 0⟩

/-- Serve the request of a line; a request that fails stops nothing. -/
def takeLine [Kernel κ] (s : Session κ) (line : InputLine) : Session κ :=
  match requestOf line.text with
  | some r => (s.handle line.schedule r).2
  | none => s

/-- Let the writer take events that wait for it, at most the given number. -/
def write (watcher : Nat) : Nat → Session κ → List Event × Session κ
  | 0, s => ([], s)
  | n + 1, s =>
    match s.bus.receive watcher with
    | (.event e, bus) =>
      let (events, s') := write watcher n { s with bus := bus }
      (e :: events, s')
    | (_, bus) => ([], { s with bus := bus })

/-- Serve lines in order; gives the events that are written meanwhile. -/
def takeLines [Kernel κ] (watcher : Nat) : List InputLine → Session κ → List Event × Session κ
  | [], s => ([], s)
  | line :: lines, s =>
    let (events, s') := (s.takeLine line).write watcher line.written
    let (events', s'') := takeLines watcher lines s'
    (events ++ events', s'')

def outputLine (e : Event) : String := e.encode ++ "\n"

def outputOf (events : List Event) : String := String.join (events.map outputLine)

/--
Serve lines; gives the output of what happens meanwhile. The session ends with the input, and what
waits for the writer then is written after that.
-/
def serve [Kernel κ] (s : Session κ) (lines : List InputLine) : String × Session κ :=
  let (watcher, bus) := s.bus.subscribe
  let (events, served) := takeLines watcher lines { s with bus := bus }
  let ended := served.shutdown
  let (left, bus') := ended.bus.drain watcher
  (outputOf (events ++ left), { ended with bus := bus' })

end ProofHost.Session
