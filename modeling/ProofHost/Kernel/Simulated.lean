import ProofHost.Document.Basic
import ProofHost.Kernel.Basic
import ProofHost.Kernel.Goals
import ProofHost.Kernel.Modules
import ProofHost.Wire.Text

/-!
A kernel inside the host. It keeps a document and the states that are executed; whether a sentence
can be executed is the decision of a checker, and before each sentence the interrupt flag is polled.
-/

set_option autoImplicit false

namespace ProofHost

structure SimulatedKernel where
  document : Document
  /-- The executed states, the latest first. -/
  executed : List StateId
  modules : List String
  booted : Bool
  /-- Why a sentence cannot be executed, if it cannot. -/
  reject : String → Option String
  /-- How often the interrupt flag is polled before a sentence. -/
  polls : Nat

namespace SimulatedKernel

/-- A kernel that has not been started, with the given checker and number of polls. -/
def new (reject : String → Option String) (polls : Nat) : SimulatedKernel :=
  ⟨.new, [], [], false, reject, polls⟩

def textOf (k : SimulatedKernel) (id : StateId) : String := (k.document.textOf id).getD ""

def isExecuted (k : SimulatedKernel) (id : StateId) : Bool := k.executed.contains id

/-- Forget the executed states that are no longer live. -/
def prune (k : SimulatedKernel) : SimulatedKernel :=
  { k with executed := k.executed.filter k.document.isLive }

def refusal (reason : String) : Answer := .failed none none reason

def feedback (state : StateId) (route : UInt32) (level : Level) (contents : Json) : Answer :=
  .feedback ⟨state, route, level, contents⟩

def defaultRoute : UInt32 := 0

/-- Poll the interrupt flag up to the given number of times. -/
def poll : Nat → Site → Bool × Site
  | 0, site => (false, site)
  | n + 1, site =>
    match site.takeInterrupt with
    | (true, site') => (true, site')
    | (false, site') => poll n site'

/-- Go back to the good state after the execution of a bad one has failed. -/
def fail (k : SimulatedKernel) (good bad : StateId) (location : Option Span) (reason : String) :
    Answer × SimulatedKernel :=
  let (_, document) := k.document.rollback good bad
  (.failed location (some (good, bad)) reason, { k with document := document }.prune)

def executeAfter (k : SimulatedKernel) (site : Site) (good : StateId) :
    List StateId → List Answer × SimulatedKernel × Site
  | [] => ([], k, site)
  | id :: rest =>
    if k.isExecuted id then executeAfter k site id rest
    else
      let text := k.textOf id
      match poll k.polls site with
      | (true, site') =>
        let (answer, k') := k.fail good id none "User interrupt."
        ([answer], k', site')
      | (false, site') =>
        match k.reject text with
        | some reason =>
          let (answer, k') := k.fail good id (some (Span.ofText text)) reason
          ([answer], k', site')
        | none =>
          let processed := feedback id defaultRoute .info (Json.ofTexts ["Processed"])
          let (answers, k', site'') :=
            executeAfter { k with executed := id :: k.executed } site' id rest
          (processed :: answers, k', site'')

def execute (k : SimulatedKernel) (site : Site) (id : StateId) :
    List Answer × SimulatedKernel × Site :=
  match k.document.path id with
  | .error e => ([refusal e.message], k, site)
  | .ok [] => ([], k, site)
  | .ok (root :: rest) => k.executeAfter site root rest

def goals (k : SimulatedKernel) (id : StateId) : Option Json :=
  match k.document.path id with
  | .error _ => none
  | .ok path => (Goals.openStatement (path.map k.textOf)).map Goals.snapshot

def localNames (k : SimulatedKernel) (id : StateId) : List String :=
  match k.document.path id with
  | .error _ => []
  | .ok path => (path.filter k.isExecuted).filterMap fun s => Goals.declaredName (k.textOf s)

def search (k : SimulatedKernel) (id : StateId) : Search → List String
  | .all => k.modules ++ k.localNames id
  | .currentFile => k.localNames id
  | .locals => k.localNames id
  | .modulesUnder path => k.modules.filter (Modules.isUnder path)
  | .keyword word => (k.modules ++ k.localNames id).filter (Modules.mentions word)

def serve (k : SimulatedKernel) (site : Site) :
    Command → List Answer × SimulatedKernel × Site
  | .init =>
    let (root, document) := k.document.init
    ([.ready root], { k with document := document, executed := [root] }, site)
  | .add editAt parent text verbose =>
    match k.document.add editAt parent text with
    | (.error e, document) => ([refusal e.message], { k with document := document }, site)
    | (.ok id, document) =>
      let note := if verbose then [feedback id defaultRoute .debug (Json.ofTexts ["Added"])] else []
      (.added id (some (Span.ofText text)) :: note, { k with document := document }.prune, site)
  | .exec id => k.execute site id
  | .cancel id =>
    match k.document.cancel id with
    | (.error e, document) => ([refusal e.message], { k with document := document }, site)
    | (.ok tip, document) => ([.backTo tip], { k with document := document }.prune, site)
  | .goals id =>
    if k.isExecuted id && k.document.isLive id then ([.ofGoals id (k.goals id)], k, site)
    else ([refusal ("state " ++ toString id.toNat ++ " has not been executed")], k, site)
  | .query id route text =>
    if k.document.isLive id then
      ([feedback id route .notice (.object [("query", .string text)])], k, site)
    else ([refusal (DocumentError.notLive id).message], k, site)
  | .inspect id route what =>
    if k.document.isLive id then
      ((k.search id what).map fun name =>
        feedback id route .info (.object [("name", .string name)]), k, site)
    else ([refusal (DocumentError.notLive id).message], k, site)
  | .refreshLoadPath => ([], { k with modules := Modules.scan site.host site.sandbox }, site)

def firstMissing (site : Site) (paths : List String) : Option String :=
  paths.find? fun path => !site.sandbox.holds site.host path

def boot (k : SimulatedKernel) (order : BootOrder) (site : Site) :
    Except KernelError Unit × SimulatedKernel × Site :=
  match firstMissing site (order.image :: order.stubs) with
  | some path => (.error (.missingImage path), k, site)
  | none => (.ok (), { k with booted := true }, site)

def post (k : SimulatedKernel) (line : String) (site : Site) : Reply × SimulatedKernel × Site :=
  if !k.booted then (⟨[], some .notBooted⟩, k, site)
  else
    match Command.decode line with
    | .error e => (⟨[(refusal ("malformed command: " ++ e.message)).encode], none⟩, k, site)
    | .ok command =>
      let (answers, k', site') := k.serve site command
      (⟨answers.map Answer.encode, none⟩, k', site')

instance : Kernel SimulatedKernel := ⟨boot, post⟩

end SimulatedKernel

end ProofHost
