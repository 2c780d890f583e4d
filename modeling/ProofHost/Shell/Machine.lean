import ProofHost.Shell.Builtin
import ProofHost.Shell.Grammar

/-!
The running of shell scripts, step by step. A machine keeps what is left to do, so that it can wait
for input at any place of the script and go on later.
-/

set_option autoImplicit false

namespace ProofHost.Shell

inductive Task where
  | run (c : Command)
  /-- Run the command if the last one has succeeded, or if it has failed. -/
  | runAfter (onSuccess : Bool) (c : Command)
  | negate
  | choose (yes no : Command)
  /-- Go on with a loop after its condition; the status is that of the body before. -/
  | decide (whileSuccess : Bool) (condition body : Command) (status : Nat)
  /-- Go on with a loop after its body. -/
  | again (whileSuccess : Bool) (condition body : Command)
  /-- Run the body with a variable set to each of the texts in turn. -/
  | next (name : Chars) (texts : List Chars) (body : Command)

structure Machine where
  /-- What is left to do, the next first; nothing when the script has ended. -/
  tasks : List Task
  values : Values
  /-- The directory in which the script works. -/
  workDir : List String
  input : Chars
  output : Chars

namespace Machine

def withStatus (m : Machine) (status : Nat) : Machine :=
  { m with values := { m.values with status := status } }

def hasEnded (m : Machine) : Bool := m.tasks.isEmpty

def sink : String := String.ofList sinkName

def openFiles (v : Values) (h : Host) : List Redirect → Bool × Host
  | [] => (true, h)
  | r :: rs =>
    let path := pathOf (v.text r.file)
    if path = sink then openFiles v h rs
    else
      match r.mode with
      | .input => if h.isFile path then openFiles v h rs else (false, h)
      | .append =>
        if h.isFile path then openFiles v h rs
        else
          match h.write path [] with
          | .ok h' => openFiles v h' rs
          | .error _ => (false, h)
      | .overwrite =>
        match h.write path [] with
        | .ok h' => openFiles v h' rs
        | .error _ => (false, h)

def redirectOf? (stream : Nat) (rs : List Redirect) : Option Redirect :=
  rs.reverse.find? fun r => r.stream == stream

def fileInput (v : Values) (h : Host) (rs : List Redirect) : Chars :=
  match redirectOf? 0 rs with
  | some r => Bytes.toChars ((h.read (pathOf (v.text r.file))).toOption.getD [])
  | none => []

def deliver (m : Machine) (v : Values) (h : Host) (rs : List Redirect) (out : Chars) :
    Machine × Host :=
  match redirectOf? 1 rs with
  | none => ({ m with output := m.output ++ out }, h)
  | some r =>
    let path := pathOf (v.text r.file)
    if path = sink then (m, h)
    else
      let before := (h.read path).toOption.getD []
      match h.write path (before ++ Bytes.ofChars out) with
      | .ok h' => (m, h')
      | .error _ => (m, h)

def takeLine? (m : Machine) : Option (Chars × Machine) :=
  match m.input.dropWhile (· != '\n') with
  | [] => none
  | _ :: rest => some (m.input.takeWhile (· != '\n'), { m with input := rest })

def assignLine (v : Values) (separators : Chars) : List Chars → Chars → Values
  | [], _ => v
  | [name], line =>
    v.set name ((line.dropWhile separators.contains).reverse.dropWhile separators.contains).reverse
  | name :: names, line =>
    let line := line.dropWhile separators.contains
    let word := line.takeWhile (!separators.contains ·)
    assignLine (v.set name word) separators names (line.drop word.length)

def withoutEscapes : Chars → Chars
  | '\\' :: c :: cs => c :: withoutEscapes cs
  | c :: cs => c :: withoutEscapes cs
  | [] => []

def assign (v : Values) : List (Chars × Word) → Values
  | [] => v
  | (name, w) :: rest => assign (v.set name (v.text w)) rest

def simple? (m : Machine) (h : Host) (assignments : List (Chars × Word)) (words : List Word)
    (redirects : List Redirect) : Option (Machine × Host) :=
  let v := assign m.values assignments
  match words.flatMap m.values.expand with
  | [] => some ({ m with values := v }.withStatus 0, (openFiles v h redirects).2)
  | name :: args =>
    match String.ofList name with
    | "exit" =>
      some ({ m with tasks := [] }.withStatus
        (((args.head?.bind number?).map Int.toNat).getD m.values.status), h)
    | "read" =>
      match m.takeLine? with
      | none => none
      | some (line, m') =>
        let names := args.filter (· != ['-', 'r'])
        let line := if args.contains ['-', 'r'] then line else withoutEscapes line
        let values := assignLine m.values v.separators names line
        some ({ m' with values := values }.withStatus 0, h)
    | _ =>
      match openFiles v h redirects with
      | (false, h') => some (m.withStatus 2, h')
      | (true, h') =>
        let e := builtin h' name args (fileInput v h' redirects)
        let (m', h'') := deliver (m.withStatus e.status) v e.host redirects e.output
        some (m', h'')

def push (m : Machine) (tasks : List Task) : Machine := { m with tasks := tasks ++ m.tasks }

def orRun (m : Machine) : Command → Machine
  | .nothing => m.withStatus 0
  | c => m.push [.run c]

def pickArm (v : Values) (subject : Chars) : List (List Word × Command) → Command
  | [] => .nothing
  | (patterns, body) :: arms =>
    if patterns.any fun w => matchesAll (v.pattern w) subject then body
    else pickArm v subject arms

def begin? (m : Machine) (h : Host) : Command → Option (Machine × Host)
  | .nothing => some (m, h)
  | .simple assignments words redirects => m.simple? h assignments words redirects
  | .sequence first second => some (m.push [.run first, .run second], h)
  | .afterwards onSuccess first second =>
    some (m.push [.run first, .runAfter onSuccess second], h)
  | .negation c => some (m.push [.run c, .negate], h)
  | .choice condition yes no => some (m.push [.run condition, .choose yes no], h)
  | .loop whileSuccess condition body =>
    some (m.push [.run condition, .decide whileSuccess condition body 0], h)
  | .select subject arms =>
    some (m.orRun (pickArm m.values (m.values.text subject) arms), h)
  | .each name words body =>
    match words.flatMap m.values.expand with
    | [] => some (m.withStatus 0, h)
    | texts => some (m.push [.next name texts body], h)

/-- Do the next thing that is left; none when it waits for input or nothing is left. -/
def step? (m : Machine) (h : Host) : Option (Machine × Host) :=
  let ok := m.values.status == 0
  match m.tasks with
  | [] => none
  | task :: rest =>
    let m' := { m with tasks := rest }
    match task with
    | .run c => begin? m' h c
    | .runAfter onSuccess c => some (if ok == onSuccess then m'.push [.run c] else m', h)
    | .negate => some (m'.withStatus (if ok then 1 else 0), h)
    | .choose yes no => some (m'.orRun (if ok then yes else no), h)
    | .decide whileSuccess condition body status =>
      some (if ok == whileSuccess then m'.push [.run body, .again whileSuccess condition body]
        else m'.withStatus status, h)
    | .again whileSuccess condition body =>
      let status := m.values.status
      some (m'.push [.run condition, .decide whileSuccess condition body status], h)
    | .next _ [] _ => some (m', h)
    | .next name (text :: texts) body =>
      some ({ m' with values := m'.values.set name text }.push [.run body, .next name texts body], h)

def stepLimit : Nat := 1000000

def run : Nat → Machine → Host → Machine × Host
  | 0, m, h => (m, h)
  | fuel + 1, m, h =>
    match m.step? h with
    | none => (m, h)
    | some (m', h') => run fuel m' h'

def proceed (m : Machine) (h : Host) : (Machine × Bytes) × Host :=
  let (m', h') := run stepLimit m { h with workDir := m.workDir }
  (({ m' with output := [] }, Bytes.ofChars m'.output), { h' with workDir := h.workDir })

end Machine

end ProofHost.Shell
