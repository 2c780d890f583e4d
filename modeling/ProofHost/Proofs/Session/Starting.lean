import ProofHost.Proofs.Session.Mirror
import ProofHost.Proofs.Session.Service
import ProofHost.Proofs.Turns

/-!
When a session serves commands. It does so from the moment its kernel is started, and nothing takes
that back. So a boot that fails before its kernel is started leaves a session that refuses commands
until another boot starts the kernel, while a boot that fails after that leaves one that serves
them. All this holds for any kernel and in whatever order the files of a boot are installed.
-/

set_option autoImplicit false

namespace ProofHost

def SessionError.beforeStart : SessionError → Bool
  | fetch _ | sandbox _ | kernel _ => true
  | _ => false

def SessionError.afterStart : SessionError → Bool
  | kernel _ | noRoot | install _ => true
  | _ => false

namespace Session

variable {κ : Type}

/-- Why a session whose kernel is not started refuses a command. -/
def refusal (c : Command) : SessionError :=
  match c.validate with
  | .ok _ => .notBooted
  | .error cause => .command cause

/-- A file is on its way, or it is not there because it could not be fetched or put into the
sandbox. -/
def Settles (b : Binary) : Prop := ∀ e, b.result? = some (.error e) → e.beforeStart = true

private theorem settles_step (site : Site) (b : Binary) (settles : Settles b) :
    Settles (Binary.step site b).1 := by
  cases b with
  | wanted uri path =>
    dsimp only [Binary.step]
    generalize Package.fetchReported site.network site.host uri = r
    obtain ⟨reports, e | content⟩ := r
    · rintro _ ⟨⟩
      rfl
    · exact nofun
  | fetched path content =>
    dsimp only [Binary.step]
    generalize site.put path content = r
    obtain ⟨e | v, site'⟩ := r
    · rintro _ ⟨⟩
      rfl
    · exact nofun
  | settled r => exact settles

private theorem settles_binaries (c : Config) : ∀ b ∈ binaries c, Settles b := by
  intro b there
  rcases List.mem_cons.mp there with rfl | isStub
  · exact nofun
  · obtain ⟨stub, -, rfl⟩ := List.mem_map.mp isStub
    exact nofun

private theorem mem_of_allPaths {results : List (Except SessionError String)} {e : SessionError}
    (failed : allPaths results = .error e) : .error e ∈ results := by
  induction results with
  | nil => cases failed
  | cons r results ih =>
    cases r with
    | error e' =>
      cases failed
      exact List.mem_cons_self
    | ok path =>
      refine List.mem_cons_of_mem _ (ih ?_)
      rw [allPaths] at failed
      cases rest : allPaths results with
      | error e' =>
        rw [rest] at failed
        exact failed
      | ok paths =>
        rw [rest] at failed
        cases failed

private theorem installBinaries_error (s : Session κ) (schedule : List Nat) {e : SessionError}
    (failed : (s.installBinaries schedule).1 = .error e) : e.beforeStart = true := by
  have twice : Turns.Repeats Binary.step Binary.run := fun _ _ => ⟨2, rfl⟩
  have taken := Turns.taken_all twice schedule s.site (binaries s.config)
  have settle := taken.forall_mem settles_step (settles_binaries s.config)
  unfold installBinaries at failed
  generalize Turns.all Binary.step Binary.run schedule s.site (binaries s.config) = r
    at failed settle
  obtain ⟨finished, events, site⟩ := r
  dsimp only at failed settle
  cases paths : allPaths (finished.filterMap Binary.result?) with
  | error e' =>
    rw [paths] at failed
    cases failed
    obtain ⟨b, there, result⟩ := List.mem_filterMap.mp (mem_of_allPaths paths)
    exact settle b there _ result
  | ok paths' =>
    rw [paths] at failed
    cases failed

private theorem setupInterrupt_error (s : Session κ) (marker : Option String) {e : SessionError}
    (failed : (s.setupInterrupt marker).1 = .error e) : e.beforeStart = true := by
  unfold setupInterrupt at failed
  cases marker with
  | none => cases failed
  | some path =>
    dsimp only at failed
    generalize s.site.attachMarker path = r at failed
    obtain ⟨e | u, site⟩ := r <;> cases failed
    rfl

private theorem booted_installBinaries (s : Session κ) (schedule : List Nat) :
    (s.installBinaries schedule).2.booted = s.booted := by
  unfold installBinaries
  dsimp only
  split <;> rfl

private theorem booted_setupInterrupt (s : Session κ) (marker : Option String) :
    (s.setupInterrupt marker).2.booted = s.booted := by
  obtain ⟨site, after⟩ := s.setupInterrupt_site marker
  rw [after]

section Kernel

variable [Kernel κ]

private theorem booted_command (s : Session κ) (c : Command) :
    (s.command c).2.booted = s.booted := by
  cases valid : c.validate with
  | error e => simp [command, valid]
  | ok u =>
    cases booted : s.booted with
    | false => simp [command, valid, booted]
    | true =>
      rw [command_eq valid booted]
      exact booted

private theorem command_of_not_booted {s : Session κ} (unbooted : s.booted = false) (c : Command) :
    s.command c = (.error (refusal c), s) := by
  unfold command refusal
  cases c.validate <;> simp [unbooted]

private theorem command_error {s : Session κ} {c : Command} {e : SessionError}
    (valid : c.validate = .ok ()) (booted : s.booted = true) (failed : (s.command c).1 = .error e) :
    ∃ cause, e = .kernel cause := by
  rw [(command_posted valid booted).2.2] at failed
  cases failure : (Kernel.post s.kernel c.encode s.site).1.failure with
  | none =>
    rw [failure] at failed
    cases failed
  | some cause =>
    rw [failure] at failed
    cases failed
    exact ⟨cause, rfl⟩

private theorem command_ne_notBooted {s : Session κ} (booted : s.booted = true) (c : Command) :
    (s.command c).1 ≠ .error .notBooted := by
  intro refused
  cases valid : c.validate with
  | error cause => simp [command, valid] at refused
  | ok u =>
    obtain ⟨cause, same⟩ := command_error valid booted refused
    cases same

private theorem booted_installPackages (s : Session κ) (schedule : List Nat) (uris : List String)
    (refresh : Bool) : (s.installPackages schedule uris refresh).2.booted = s.booted := by
  rw [installPackages_eq]
  dsimp only [notify, publish, refreshed]
  split
  · exact booted_command _ _
  · rfl

private theorem booted_handle (s : Session κ) (schedule : List Nat) (r : Request) :
    (s.handle schedule r).2.booted = s.booted := by
  cases r with
  | loadPackages uris => exact booted_installPackages s schedule uris true
  | put path content =>
    dsimp only [handle]
    generalize s.site.put path content.toBytes = r
    obtain ⟨e | v, site⟩ := r <;> rfl
  | get path =>
    dsimp only [handle]
    generalize s.site.sandbox.get s.site.host path = r
    cases r <;> rfl
  | setupInterrupt setup => exact booted_setupInterrupt s setup.marker
  | kernel c => exact booted_command s c

private theorem booted_establishRoot (s : Session κ) : s.establishRoot.2.booted = s.booted := by
  have asked := booted_command s .init
  unfold establishRoot
  generalize s.command .init = r at asked ⊢
  obtain ⟨e | answers, s'⟩ := r
  · exact asked
  · dsimp only
    split <;> exact asked

private theorem establishRoot_error {s : Session κ} {e : SessionError} (booted : s.booted = true)
    (failed : s.establishRoot.1 = .error e) : e.afterStart = true := by
  have kernelFails : ∀ e, (s.command .init).1 = .error e → ∃ cause, e = .kernel cause :=
    fun _ => command_error rfl booted
  unfold establishRoot at failed
  generalize s.command .init = r at kernelFails failed
  obtain ⟨e' | answers, s'⟩ := r
  · obtain ⟨cause, same⟩ := kernelFails e' rfl
    cases failed
    exact same ▸ rfl
  · dsimp only at failed
    split at failed <;> cases failed
    rfl

private theorem booted_installInitial (s : Session κ) (schedule : List Nat) :
    (s.installInitial schedule).2.booted = s.booted := by
  unfold installInitial
  split
  · rfl
  · exact booted_installPackages s schedule s.config.initialPackages true

private theorem installInitial_error {s : Session κ} {schedule : List Nat} {e : SessionError}
    (failed : (s.installInitial schedule).1 = .error e) : e.afterStart = true := by
  unfold installInitial at failed
  split at failed
  · cases failed
  · rw [installPackages_eq] at failed
    generalize Package.installAll s.plan schedule s.config.initialPackages s.site = batch at failed
    obtain ⟨-, -, refusals⟩ :=
      refreshed_cases (({ s with site := batch.2.2 } : Session κ).publish batch.2.1) true
    cases first : firstFailure batch.1 with
    | some cause =>
      rw [first] at failed
      cases failed
      rfl
    | none =>
      rw [first] at failed
      generalize (({ s with site := batch.2.2 } : Session κ).publish batch.2.1).refreshed true = asked
        at refusals failed
      obtain ⟨e' | answers, s'⟩ := asked
      · cases failed
        obtain ⟨-, cause, -, rfl⟩ := (refusals e).mp rfl
        rfl
      · cases failed

private theorem goOn_cases {s : Session κ} (booted : s.booted = true) (initial : List Nat) :
    let r := andThen s.establishRoot fun root s =>
      andThen (s.installInitial initial) fun _ s => (.ok root, s)
    r.2.booted = true ∧ ∀ e, r.1 = .error e → e.afterStart = true := by
  have booted₁ := s.booted_establishRoot.trans booted
  have late₁ : ∀ e, s.establishRoot.1 = .error e → e.afterStart = true :=
    fun _ => establishRoot_error booted
  generalize s.establishRoot = rooted at booted₁ late₁ ⊢
  obtain ⟨e | root, s₁⟩ := rooted
  · exact ⟨booted₁, late₁⟩
  have booted₂ := (s₁.booted_installInitial initial).trans booted₁
  have late₂ : ∀ e, (s₁.installInitial initial).1 = .error e → e.afterStart = true :=
    fun _ => installInitial_error
  dsimp only [andThen]
  generalize s₁.installInitial initial = installed at booted₂ late₂ ⊢
  obtain ⟨e | u, s₂⟩ := installed
  · refine ⟨booted₂, ?_⟩
    rintro _ ⟨⟩
    exact late₂ e rfl
  · exact ⟨booted₂, nofun⟩

/-- A boot starts its kernel: the files are installed, the marker is attached and the kernel
starts. -/
def Starts (s : Session κ) (schedule : List Nat) : Prop :=
  ∃ order s₁ s₂, s.installBinaries schedule = (.ok order, s₁) ∧
    s₁.setupInterrupt s₁.config.interruptMarker = (.ok (), s₂) ∧
    (Kernel.boot s₂.kernel order s₂.site).1 = .ok ()

private theorem boot_cases (s : Session κ) (schedule initial : List Nat) :
    (¬ s.Starts schedule ∧ (s.boot schedule initial).2.booted = s.booted ∧
      ∃ e, (s.boot schedule initial).1 = .error e ∧ e.beforeStart = true) ∨
    (s.Starts schedule ∧ (s.boot schedule initial).2.booted = true ∧
      ∀ e, (s.boot schedule initial).1 = .error e → e.afterStart = true) := by
  have same₁ := s.booted_installBinaries schedule
  have early₁ : ∀ e, (s.installBinaries schedule).1 = .error e → e.beforeStart = true :=
    fun _ => s.installBinaries_error schedule
  unfold boot Starts
  generalize s.installBinaries schedule = installed at same₁ early₁
  obtain ⟨e | order, s₁⟩ := installed
  · exact .inl ⟨by simp, same₁, e, rfl, early₁ e rfl⟩
  have same₂ := s₁.booted_setupInterrupt s₁.config.interruptMarker
  have early₂ : ∀ e, (s₁.setupInterrupt s₁.config.interruptMarker).1 = .error e →
      e.beforeStart = true := fun _ => s₁.setupInterrupt_error _
  dsimp only [andThen]
  generalize attaches : s₁.setupInterrupt s₁.config.interruptMarker = attached at same₂ early₂ ⊢
  obtain ⟨e | u, s₂⟩ := attached
  · refine .inl ⟨?_, same₂.trans same₁, e, rfl, early₂ e rfl⟩
    rintro ⟨order', t₁, t₂, same, attaches', -⟩
    cases same
    cases attaches.symm.trans attaches'
  -- From here on the files and the marker are there, and only the kernel itself can still refuse.
  dsimp only [start]
  generalize starts : Kernel.boot s₂.kernel order s₂.site = started
  obtain ⟨e | u', kernel, site⟩ := started
  · refine .inl ⟨?_, same₂.trans same₁, .kernel e, rfl, rfl⟩
    rintro ⟨order', t₁, t₂, same, attaches', starts'⟩
    cases same
    cases attaches.symm.trans attaches'
    rw [starts] at starts'
    cases starts'
  · exact .inr ⟨⟨order, s₁, s₂, rfl, attaches, by rw [starts]⟩, goOn_cases rfl initial⟩

def perform (s : Session κ) : Act → Session κ
  | .boot schedule initial => (s.boot schedule initial).2
  | .request schedule r => (s.handle schedule r).2
  | .command c => (s.command c).2
  | .install schedule uris refresh => (s.installPackages schedule uris refresh).2
  | .disturb site => { s with site := site }
  | .watch bus => { s with bus := bus }

theorem perform_eq_act (s : Session SimulatedKernel) (a : Act) : s.perform a = s.act a := by
  cases a <;> rfl

def performAll (s : Session κ) (as : List Act) : Session κ := as.foldl perform s

def StartsBy (s : Session κ) (a : Act) : Prop :=
  ∃ schedule initial, a = .boot schedule initial ∧ s.Starts schedule

/-- One of several acts is a boot that starts the kernel. -/
def StartsIn : Session κ → List Act → Prop
  | _, [] => False
  | s, a :: as => s.StartsBy a ∨ StartsIn (s.perform a) as

/-- The flag is set by a boot that starts the kernel, and by nothing else, and it is never taken
back. -/
private theorem booted_perform (s : Session κ) (a : Act) :
    (s.perform a).booted = true ↔ s.booted = true ∨ s.StartsBy a := by
  -- Every act but a boot leaves the flag and is no boot that starts the kernel.
  have unchanged (same : (s.perform a).booted = s.booted) (other : ¬ s.StartsBy a) :
      (s.perform a).booted = true ↔ s.booted = true ∨ s.StartsBy a := by
    simp [same, other]
  cases a with
  | boot schedule initial =>
    have by_iff : s.StartsBy (.boot schedule initial) ↔ s.Starts schedule := by simp [StartsBy]
    rw [by_iff]
    show (s.boot schedule initial).2.booted = true ↔ _
    obtain ⟨fails, same, -⟩ | ⟨starts, booted, -⟩ := s.boot_cases schedule initial
    · simp [same, fails]
    · simp [booted, starts]
  | request schedule r => exact unchanged (s.booted_handle schedule r) nofun
  | command c => exact unchanged (s.booted_command c) nofun
  | install schedule uris refresh =>
    exact unchanged (s.booted_installPackages schedule uris refresh) nofun
  | disturb site => exact unchanged rfl nofun
  | watch bus => exact unchanged rfl nofun

private theorem booted_performAll (s : Session κ) (as : List Act) :
    (s.performAll as).booted = true ↔ s.booted = true ∨ s.StartsIn as := by
  induction as generalizing s with
  | nil => simp [performAll, StartsIn]
  | cons a as ih =>
    have later := ih (s.perform a)
    rw [booted_perform, or_assoc] at later
    exact later

/--
A boot fails in a session whose kernel was never started. If the boot got so far as to start the
kernel, the session counts as booted from then on, whatever follows, and no command is refused for
that reason. Otherwise every command is refused and changes nothing until another boot starts the
kernel. Which of the two it is shows in the failure, unless it comes from the kernel.
-/
theorem failed_boot_serves_iff_started (s : Session κ) (schedule initial : List Nat)
    {e : SessionError} (unbooted : s.booted = false)
    (failed : (s.boot schedule initial).1 = .error e) (as : List Act) :
    let after := (s.boot schedule initial).2
    let later := after.performAll as
    (after.booted = true ↔ s.Starts schedule) ∧
      (if after.booted then e.afterStart else e.beforeStart) = true ∧
      (later.booted = true ↔ s.Starts schedule ∨ after.StartsIn as) ∧
      (later.booted = true → ∀ c, (later.command c).1 ≠ .error .notBooted) ∧
      (later.booted = false → ∀ c, later.command c = (.error (refusal c), later)) := by
  intro after later
  have kinds : (after.booted = true ↔ s.Starts schedule) ∧
      (if after.booted then e.afterStart else e.beforeStart) = true := by
    obtain ⟨fails, same, e', failed', early⟩ | ⟨starts, booted, late⟩ := s.boot_cases schedule initial
    · cases failed.symm.trans failed'
      have off : after.booted = false := same.trans unbooted
      simp [off, fails, early]
    · have on : after.booted = true := booted
      simp [on, starts, late e failed]
  refine ⟨kinds.1, kinds.2, ?_, command_ne_notBooted, command_of_not_booted⟩
  rw [← kinds.1]
  exact after.booted_performAll as

end Kernel

/-- Another machine, which has a kernel image or has nothing at all. -/
def machine (hasImage : Bool) : Network := fun uri =>
  if hasImage && uri == "https://m/k" then .answered ⟨200, "200 OK"⟩ ⟨none, [[1], [2]], none⟩
  else .answered ⟨404, "404 Not Found"⟩ ⟨none, [], none⟩

/-- A new session whose image and whose first package are to come from that machine. -/
def distant (hasImage : Bool) : Except SandboxError (Session SimulatedKernel) × Host :=
  new { Config.default [] with
      sandboxRoot := "/", kernelImage := "https://m/k", imagePath := "/i",
      initialPackages := ["https://m/p"] }
    (SimulatedKernel.new (fun _ => none) 1) (machine hasImage) ⟨.directory [], []⟩

/-- Without the image well-formed commands are refused, also after a request and another boot;
without the package alone the boot fails too, but no command is refused for that. -/
theorem failed_boot_serves_iff_started_from_afar :
    let as : List Act := [.request [] (.put "a" (.text "x")), .boot [] []]
    (∃ s host', distant false = (.ok s, host') ∧ ¬ s.Starts [] ∧
      ((s.boot [] []).2.performAll as).command (.goals 1) =
        (.error .notBooted, (s.boot [] []).2.performAll as)) ∧
    ∃ s host', distant true = (.ok s, host') ∧ s.Starts [] ∧
      (s.boot [] []).1 =
        .error (.install ⟨"https://m/p", .fetch (.status "https://m/p" ⟨404, "404 Not Found"⟩)⟩) ∧
      ∀ c, (((s.boot [] []).2.performAll as).command c).1 ≠ .error .notBooted := by
  intro as
  have ran (hasImage : Bool) : ((distant hasImage).1.toOption.map fun s => (s.booted,
      (s.boot [] []).1, (s.boot [] []).2.booted, ((s.boot [] []).2.performAll as).booted)) =
        some (false, .error (if hasImage then
          .install ⟨"https://m/p", .fetch (.status "https://m/p" ⟨404, "404 Not Found"⟩)⟩
          else .fetch (.status "https://m/k" ⟨404, "404 Not Found"⟩)), hasImage, hasImage) := by
    cases hasImage <;> decide +kernel
  constructor
  · have none := ran false
    generalize distant false = r at none ⊢
    obtain ⟨e | s, host'⟩ := r
    · cases none
    have none := Option.some.inj none
    simp only [Prod.mk.injEq] at none
    obtain ⟨unbooted, failed, after, later⟩ := none
    obtain ⟨flag, -, -, -, refuses⟩ := failed_boot_serves_iff_started s [] [] unbooted failed as
    refine ⟨s, host', rfl, ?_, refuses later (.goals 1)⟩
    rw [← flag, after]
    exact Bool.false_ne_true
  · have image := ran true
    generalize distant true = r at image ⊢
    obtain ⟨e | s, host'⟩ := r
    · cases image
    have image := Option.some.inj image
    simp only [Prod.mk.injEq] at image
    obtain ⟨unbooted, failed, after, later⟩ := image
    obtain ⟨flag, -, -, serves, -⟩ := failed_boot_serves_iff_started s [] [] unbooted failed as
    exact ⟨s, host', rfl, flag.mp after, failed, serves later⟩

/-- A package is missing, so the boot fails, but the kernel is started and serves commands. -/
theorem failed_boot_serves_without_package :
    let config : Config := { Config.default [] with
      sandboxRoot := "/", kernelImage := "/k", imagePath := "/i", initialPackages := ["/p"] }
    let host : Host := ⟨.directory [("k", .file [])], []⟩
    ∃ s host', new config (SimulatedKernel.new (fun _ => none) 1) .unreachable host =
        (.ok s, host') ∧
      s.booted = false ∧
      (s.boot [] []).1 = .error (.install ⟨"/p", .fetch (.unreadable "/p" .notFound)⟩) ∧
      (s.boot [] []).2.booted = true ∧
      ((s.boot [] []).2.command (.goals 1)).1 = .ok [.goalInfo 1 none] := by
  intro config host
  generalize opened : new config (SimulatedKernel.new (fun _ => none) 1) .unreachable host = r
  have ran : (r.1.toOption.map fun s => (s.booted, (s.boot [] []).1, (s.boot [] []).2.booted,
      ((s.boot [] []).2.command (.goals 1)).1)) =
        some (false, .error (.install ⟨"/p", .fetch (.unreadable "/p" .notFound)⟩), true,
          .ok [.goalInfo 1 none]) := by
    rw [← opened]
    decide +kernel
  obtain ⟨e | s, host'⟩ := r
  · cases ran
  · have ran := Option.some.inj ran
    simp only [Prod.mk.injEq] at ran
    exact ⟨s, host', rfl, ran⟩

end Session

end ProofHost
