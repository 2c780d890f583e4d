import ProofHost.Host.Basic
import ProofHost.Network

/-!
Fetching a package's bytes from where its address points: a file of the host, or another machine.
Bytes arrive in pieces, and each piece can be reported with the count of bytes that have arrived.
-/

set_option autoImplicit false

namespace ProofHost

/-- How far a download has come: the announced size and the bytes that have arrived. -/
structure Progress where
  total : Option UInt64
  downloaded : UInt64
  deriving DecidableEq, Repr

inductive FetchError where
  | unreadable (uri : String) (cause : OsError)
  /-- A request to another machine fails, or its answer breaks off. -/
  | request (cause : String)
  | status (uri : String) (answer : Status)
  deriving DecidableEq, Repr

def FetchError.message : FetchError → String
  | unreadable uri cause => "failed to read '" ++ uri ++ "': " ++ cause.message
  | request cause => "HTTP request failed: " ++ cause
  | status uri answer => uri ++ ": HTTP " ++ answer.text

namespace Package

def readSize : Nat := 65536

def reads (b : Bytes) : List Bytes :=
  if b.isEmpty then [] else b.take readSize :: reads (b.drop readSize)
termination_by b.length
decreasing_by
  cases b with
  | nil => simp_all
  | cons x xs => simp only [List.length_drop, List.length_cons, readSize]; omega

def report (total : Option UInt64) (arrived : Bytes) : Progress :=
  ⟨total, arrived.length.toUInt64⟩

def reports (total : Option UInt64) : Bytes → List Bytes → List Progress
  | _, [] => []
  | arrived, piece :: pieces =>
    report total (arrived ++ piece) :: reports total (arrived ++ piece) pieces

/--
Collect reads of a file until they end, after the bytes that have arrived before. Each read is
reported; the end is reported only when nothing has arrived at all.
-/
def receive (total : Nat) : Bytes → List Bytes → Bytes × List Progress
  | arrived, [] => (arrived, if arrived.isEmpty then [report (some total.toUInt64) arrived] else [])
  | arrived, chunk :: chunks =>
    let now := arrived ++ chunk
    let (all, later) := receive total now chunks
    (all, report (some total.toUInt64) now :: later)

def isRemote (uri : String) : Bool :=
  "http://".toList.isPrefixOf uri.toList || "https://".toList.isPrefixOf uri.toList

def localPath (uri : String) : String :=
  match Text.dropLeading? "file://".toList uri.toList with
  | some path => String.ofList path
  | none => uri

def fetchFile (h : Host) (uri : String) : Except FetchError Bytes :=
  (h.read (localPath uri)).mapError (.unreadable uri)

def fetchFileReported (h : Host) (uri : String) : List Progress × Except FetchError Bytes :=
  match fetchFile h uri with
  | .error e => ([], .error e)
  | .ok bytes =>
    let (all, reports) := receive bytes.length [] (reads bytes)
    (reports, .ok all)

def bodyBytes (body : Body) : Except FetchError Bytes :=
  match body.broken with
  | some cause => .error (.request cause)
  | none => .ok body.chunks.flatten

/--
The bytes of a body chunk by chunk. Each chunk is reported, also of a body that breaks off later;
the end is reported only when there was no chunk.
-/
def bodyReported (body : Body) : List Progress × Except FetchError Bytes :=
  let told := reports body.announced [] body.chunks
  match body.broken with
  | some cause => (told, .error (.request cause))
  | none => (if told.isEmpty then [report body.announced []] else told, .ok body.chunks.flatten)

def fetchRemote (network : Network) (uri : String) : Except FetchError Bytes :=
  match network uri with
  | .failed cause => .error (.request cause)
  | .answered status body =>
    if status.isSuccess then bodyBytes body else .error (.status uri status)

def fetchRemoteReported (network : Network) (uri : String) :
    List Progress × Except FetchError Bytes :=
  match network uri with
  | .failed cause => ([], .error (.request cause))
  | .answered status body =>
    if status.isSuccess then bodyReported body else ([], .error (.status uri status))

def fetch (network : Network) (h : Host) (uri : String) : Except FetchError Bytes :=
  if isRemote uri then fetchRemote network uri else fetchFile h uri

/-- The bytes to which an address points, with the reports on their arrival. -/
def fetchReported (network : Network) (h : Host) (uri : String) :
    List Progress × Except FetchError Bytes :=
  if isRemote uri then fetchRemoteReported network uri else fetchFileReported h uri

end Package

end ProofHost
