import ProofHost.Package.Fetch
import ProofHost.Wire.Text

/-!
What a session reports to those who watch it, and the bus that hands every report to each of them.
-/

set_option autoImplicit false

namespace ProofHost

inductive Event where
  /-- A message of the kernel or a notice of the host. -/
  | message (m : Message)
  /-- A package's download has come further. -/
  | progress (uri : String) (state : Progress)
  deriving DecidableEq, Repr

namespace Event

def name : Event → String
  | message _ => "message"
  | progress .. => "progress"

def payload : Event → Json
  | message m => m.toJson
  | progress uri state =>
    .object [
      ("download", .object [("downloaded", Json.ofWord state.downloaded),
        ("total", Json.ofOption Json.ofWord state.total)]),
      ("uri", .string uri)]

def toJson (e : Event) : Json := .object [("event", .string e.name), ("payload", e.payload)]

def encode (e : Event) : String := e.toJson.render

def message? : Event → Option Message
  | message m => some m
  | progress .. => none

end Event

/-- A subscriber: what it has not yet received, and whether it listens and is listed at the bus. -/
structure Subscriber where
  queue : List Event
  listening : Bool
  listed : Bool
  deriving DecidableEq, Repr

/-- A bus with all its subscribers, each known by its place in the list. -/
structure EventBus where
  subscribers : List Subscriber
  deriving DecidableEq, Repr

namespace EventBus

def new : EventBus := ⟨[]⟩

def subscribe (bus : EventBus) : Nat × EventBus :=
  (bus.subscribers.length, ⟨bus.subscribers ++ [⟨[], true, true⟩]⟩)

/-- Hand a report to every listed subscriber; one that no longer listens is taken off the list. -/
def publish (bus : EventBus) (e : Event) : EventBus :=
  ⟨bus.subscribers.map fun s =>
    if s.listed then
      if s.listening then { s with queue := s.queue ++ [e] } else { s with listed := false }
    else s⟩

def publishAll (bus : EventBus) (es : List Event) : EventBus := es.foldl publish bus

def count (bus : EventBus) : Nat := (bus.subscribers.filter (·.listed)).length

def close (bus : EventBus) : EventBus :=
  ⟨bus.subscribers.map fun s => { s with listed := false }⟩

def listener? (bus : EventBus) (i : Nat) : Option Subscriber :=
  bus.subscribers[i]?.filter (·.listening)

def setQueue (bus : EventBus) (i : Nat) (queue : List Event) : EventBus :=
  ⟨bus.subscribers.modify i fun s => { s with queue := queue }⟩

/-- Let a subscriber stop listening; what it has not received is lost. -/
def drop (bus : EventBus) (i : Nat) : EventBus :=
  ⟨bus.subscribers.modify i fun s => { s with queue := [], listening := false }⟩

def drain (bus : EventBus) (i : Nat) : List Event × EventBus :=
  match bus.listener? i with
  | none => ([], bus)
  | some s => (s.queue, bus.setQueue i [])

inductive Receipt where
  | event (e : Event)
  /-- There is none now, but there may be later. -/
  | pending
  /-- There is none and there will be none. -/
  | ended
  deriving DecidableEq, Repr

def receive (bus : EventBus) (i : Nat) : Receipt × EventBus :=
  match bus.listener? i with
  | none => (.ended, bus)
  | some s =>
    match s.queue with
    | e :: rest => (.event e, bus.setQueue i rest)
    | [] => (if s.listed then .pending else .ended, bus)

end EventBus

end ProofHost
