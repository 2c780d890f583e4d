import ProofHost.Wire.Basic

/-!
The document: a tree of sentences. Every state that was ever issued stays recorded with its parent
and its text; removing a state only marks it and what is built on it as dead, so that the counter
goes on above all of them, up to the greatest number, which it does not leave any more.
-/

set_option autoImplicit false

namespace ProofHost

structure Entry where
  id : StateId
  parent : Option StateId
  text : String
  live : Bool
  deriving DecidableEq, Repr

/-- A document, its entries in ascending order of their numbers. -/
structure Document where
  entries : List Entry
  root : Option StateId
  tip : Option StateId
  /-- The number that the next new state gets, one at least. -/
  next : UInt64
  deriving DecidableEq, Repr

inductive DocumentError where
  | notInitialized
  | notLive (id : StateId)
  | cannotCancelRoot
  | reused (id : StateId)
  /-- Both an edit point and a parent were given. -/
  | ambiguous
  /-- The parents of the state lead around in a circle, so that its path never comes to an end. -/
  | endless (id : StateId)
  deriving DecidableEq, Repr

def DocumentError.message : DocumentError → String
  | notInitialized => "document has no root yet"
  | notLive id => "state " ++ toString id.toNat ++ " is not live"
  | cannotCancelRoot => "the root state cannot be cancelled"
  | reused id => "state " ++ toString id.toNat ++ " was already issued"
  | ambiguous => "edit point and parent are mutually exclusive"
  | endless id => "the path of state " ++ toString id.toNat ++ " does not end"

def StateId.greatest : StateId := 0xFFFFFFFFFFFFFFFF

/-- The number after a given one; the greatest has none and stays. -/
def StateId.following (id : StateId) : StateId :=
  if id = StateId.greatest then id else id + 1

namespace Document

def new : Document := ⟨[], none, none, 1⟩

/-- A document without a root whose counter was never set. -/
def blank : Document := ⟨[], none, none, 0⟩

def find? (d : Document) (id : StateId) : Option Entry := d.entries.find? fun e => e.id == id

def isLive (d : Document) (id : StateId) : Bool := (d.find? id).any (·.live)

def wasIssued (d : Document) (id : StateId) : Bool := (d.find? id).isSome

def parentOf (d : Document) (id : StateId) : Option StateId := (d.find? id).bind (·.parent)

def textOf (d : Document) (id : StateId) : Option String := (d.find? id).map (·.text)

def liveIds (d : Document) : List StateId := (d.entries.filter (·.live)).map (·.id)

def children (d : Document) (id : StateId) : List StateId :=
  (d.entries.filter fun e => id ≤ e.id && e.live && e.parent == some id).map (·.id)

/-- Put an entry at its place; an entry of the same number is replaced. -/
def record (e : Entry) : List Entry → List Entry
  | [] => [e]
  | other :: rest =>
    if e.id < other.id then e :: other :: rest
    else if e.id = other.id then e :: rest
    else other :: record e rest

/-- Mark the entries for which a test holds as dead. -/
def kill (dead : StateId → Bool) (entries : List Entry) : List Entry :=
  entries.map fun e => if dead e.id then { e with live := false } else e

def issue (d : Document) : StateId × Document :=
  let id := if d.next < 1 then 1 else d.next
  (id, { d with next := StateId.following id })

/-- Let the counter pass a number that was issued elsewhere. -/
def bump (d : Document) (id : StateId) : Document :=
  let after := StateId.following id
  { d with next := if d.next < after then after else d.next }

/-- Start over with the given state as root; all other states are dead then. -/
def reset (d : Document) (id : StateId) : Document :=
  let d' := d.bump id
  { d' with
    entries := record ⟨id, none, "", true⟩ (kill (fun _ => true) d'.entries)
    root := some id
    tip := some id }

def init (d : Document) : StateId × Document :=
  let (id, d') := d.issue
  (id, d'.reset id)

def ensureLive (d : Document) (id : StateId) : Except DocumentError Unit :=
  if d.root.isNone then .error .notInitialized
  else if d.isLive id then .ok ()
  else .error (.notLive id)

/-- The state on which a new sentence is built. -/
def resolveParent (d : Document) (editAt parent : Option StateId) :
    Except DocumentError StateId := do
  let chosen ←
    match editAt, parent with
    | some _, some _ => .error .ambiguous
    | some edit, none => do
      d.ensureLive edit
      match d.parentOf edit with
      | some p => .ok p
      | none => .error .cannotCancelRoot
    | none, some p => .ok p
    | none, none =>
      match d.tip with
      | some tip => .ok tip
      | none => .error .notInitialized
  d.ensureLive chosen
  return chosen

def truncate (d : Document) (start : StateId) : Document :=
  { d with
    entries := kill (fun id => start ≤ id) d.entries
    tip := d.parentOf start }

/-- Drop the edit point, if there is one, and what was issued after it. -/
def cut (d : Document) (editAt : Option StateId) : Document :=
  match editAt with
  | some start => d.truncate start
  | none => d

/-- Record a live state and make it the tip. -/
def attach (d : Document) (id parent : StateId) (text : String) : Document :=
  { d with
    entries := record ⟨id, some parent, text, true⟩ d.entries
    tip := some id }

def add (d : Document) (editAt parent : Option StateId) (text : String) :
    Except DocumentError StateId × Document :=
  match d.resolveParent editAt parent with
  | .error e => (.error e, d)
  | .ok p =>
    let (id, d') := (d.cut editAt).issue
    (.ok id, d'.attach id p text)

/-- Add a sentence under a number that was issued elsewhere. -/
def insert (d : Document) (id : StateId) (editAt parent : Option StateId) (text : String) :
    Except DocumentError Unit × Document :=
  if d.wasIssued id then (.error (.reused id), d)
  else
    match d.resolveParent editAt parent with
    | .error e => (.error e, d)
    | .ok p => (.ok (), ((d.cut editAt).bump id).attach id p text)

/--
A state and the live states built on it, found in one pass upwards because parents have smaller
numbers than their children.
-/
def subtree (d : Document) (id : StateId) : List StateId :=
  (d.entries.filter fun e => id < e.id).foldl
    (fun members e =>
      if e.live && e.parent.any (members.contains ·) then members ++ [e.id] else members) [id]

/-- Remove a state and what is built on it; a tip that is removed goes back to its parent. -/
def prune (d : Document) (id : StateId) : Document :=
  let removed := d.subtree id
  { d with
    entries := kill (removed.contains ·) d.entries
    tip := d.tip.bind fun tip => if removed.contains tip then d.parentOf id else some tip }

/-- Remove a state and what is built on it; gives the tip after that. -/
def cancel (d : Document) (id : StateId) : Except DocumentError StateId × Document :=
  match d.ensureLive id with
  | .error e => (.error e, d)
  | .ok _ =>
    if d.root = some id then (.error .cannotCancelRoot, d)
    else
      let d' := d.prune id
      match d'.tip with
      | none => (.error .notInitialized, d')
      | some tip => (.ok tip, d')

/-- Go back after a failure: the failing state is removed and the good one becomes the tip. -/
def rollback (d : Document) (good bad : StateId) : Except DocumentError Unit × Document :=
  match d.ensureLive good with
  | .error e => (.error e, d)
  | .ok _ =>
    if d.isLive bad && d.root != some bad then
      match d.cancel bad with
      | (.error e, d') => (.error e, d')
      | (.ok _, d') => (.ok (), { d' with tip := some good })
    else (.ok (), { d with tip := some good })

/-- Follow parents from a state up, at most the given number of times; none if there are more. -/
def climb (d : Document) : Nat → StateId → Option (List StateId)
  | 0, id => if (d.parentOf id).isSome then none else some [id]
  | fuel + 1, id =>
    match d.parentOf id with
    | none => some [id]
    | some p => (climb d fuel p).map (id :: ·)

def path (d : Document) (id : StateId) : Except DocumentError (List StateId) := do
  d.ensureLive id
  match d.climb d.entries.length id with
  | some up => return up.reverse
  | none => .error (.endless id)

end Document

end ProofHost
