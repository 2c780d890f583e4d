import ProofHost.Proofs.Kernel.Following
import ProofHost.Proofs.Session.Commands
import ProofHost.Session.Boot

/-!
The document that a session keeps by listening to its kernel is the kernel's own document. The two
are changed by different operations and know each other only through lines of text; they are equal
after every command, in whatever order clients ask for things, as long as the kernel has a number
left for each new state.
-/

set_option autoImplicit false

namespace ProofHost

namespace Session

variable {s s' : Session SimulatedKernel} {n : Nat}

/-- A session whose document is that of its kernel, of which so many numbers are given out. -/
structure InStep (n : Nat) (s : Session SimulatedKernel) : Prop where
  same : s.document = s.kernel.document
  numbered : s.kernel.document.Numbered n

private theorem InStep.mono {m : Nat} (h : s.InStep n) (le : n ≤ m) : s.InStep m :=
  ⟨h.same, h.numbered.mono le⟩

structure Keeps (s s' : Session SimulatedKernel) : Prop where
  own : s'.document = s.document
  kernel : s'.kernel.document = s.kernel.document

private theorem InStep.keep (h : s.InStep n) (keeps : s.Keeps s') : s'.InStep n :=
  ⟨by rw [keeps.own, keeps.kernel, h.same], keeps.kernel ▸ h.numbered⟩

private theorem map_ofLine_encode {answers : List Answer} (h : ∀ a ∈ answers, a.Transparent) :
    (answers.map Answer.encode).map Answer.ofLine = answers := by
  rw [List.map_map]
  refine (List.map_congr_left fun a ha => ?_).trans (List.map_id answers)
  simp [Answer.ofLine, Answer.decode_encode (h a ha)]

/-- How many commands that may need a number reach the kernel when it is to serve a command. -/
def served (s : Session SimulatedKernel) (c : Command) : Nat :=
  if s.booted && c.validate.toOption.isSome && SimulatedKernel.issues c then 1 else 0

private theorem command_reaches {c : Command} (valid : c.validate = .ok ())
    (booted : s.booted = true)
    (running : s.kernel.booted = true)
    (h : ∀ a ∈ (s.kernel.serve s.site c).1, a.Transparent) :
    (s.command c).2.document =
        (s.kernel.serve s.site c).1.foldl (fun d a => d.track c a) s.document ∧
      (s.command c).2.kernel = (s.kernel.serve s.site c).2.1 := by
  have posted : Kernel.post s.kernel c.encode s.site =
      (⟨(s.kernel.serve s.site c).1.map Answer.encode, none⟩, (s.kernel.serve s.site c).2) := by
    simp [Kernel.post, SimulatedKernel.post, running, Command.decode_encode]
  rw [command_eq valid booted, posted]
  exact ⟨congrArg _ (map_ofLine_encode h), rfl⟩

private theorem keeps_command {c : Command}
    (h : ¬ (c.validate = .ok () ∧ s.booted = true ∧ s.kernel.booted = true)) :
    s.Keeps (s.command c).2 := by
  unfold Session.command
  split
  · exact ⟨rfl, rfl⟩
  · rename_i valid
    split
    · exact ⟨rfl, rfl⟩
    · rename_i booted
      have stopped : s.kernel.booted = false := by
        refine Bool.eq_false_iff.mpr fun running => h ⟨valid, ?_, running⟩
        simpa using booted
      have posted : Kernel.post s.kernel c.encode s.site =
          (⟨[], some .notBooted⟩, s.kernel, s.site) := by
        simp [Kernel.post, SimulatedKernel.post, stopped]
      simp only [posted]
      exact ⟨rfl, rfl⟩

private theorem InStep.command (h : s.InStep n) (c : Command)
    (left : n + s.served c ≤ StateId.greatest.toNat) :
    (s.command c).2.InStep (n + s.served c) := by
  by_cases reaches : c.validate = .ok () ∧ s.booted = true ∧ s.kernel.booted = true
  · obtain ⟨valid, booted, running⟩ := reaches
    have served : s.served c = (SimulatedKernel.issues c).toNat := by
      simp only [Session.served, valid, booted, Except.toOption]
      cases SimulatedKernel.issues c <;> rfl
    rw [served] at left ⊢
    have room (issues : SimulatedKernel.issues c = true) : n < StateId.greatest.toNat := by
      rw [issues] at left
      exact left
    have followed := SimulatedKernel.followed_serve h.numbered room s.site
    obtain ⟨own, kernel⟩ := command_reaches valid booted running followed.transparent
    exact ⟨by rw [own, kernel, h.same, followed.mirrored], kernel ▸ followed.numbered⟩
  · exact (h.keep (keeps_command reaches)).mono (Nat.le_add_right _ _)

private theorem Keeps.refl (s : Session SimulatedKernel) : s.Keeps s := ⟨rfl, rfl⟩

private theorem Keeps.trans {s'' : Session SimulatedKernel} (h : s.Keeps s') (h' : s'.Keeps s'') :
    s.Keeps s'' :=
  ⟨h'.own.trans h.own, h'.kernel.trans h.kernel⟩

private theorem keeps_installBinaries (s : Session SimulatedKernel) (schedule : List Nat) :
    s.Keeps (s.installBinaries schedule).2 := by
  unfold installBinaries
  simp only
  split <;> exact ⟨rfl, rfl⟩

private theorem keeps_setupInterrupt (s : Session SimulatedKernel) (marker : Option String) :
    s.Keeps (s.setupInterrupt marker).2 := by
  unfold setupInterrupt
  split
  · exact .refl s
  · split <;> exact ⟨rfl, rfl⟩

private theorem document_boot (k : SimulatedKernel) (order : BootOrder) (site : Site) :
    (Kernel.boot k order site).2.1.document = k.document := by
  have boots : Kernel.boot k order site = k.boot order site := rfl
  rw [boots]
  unfold SimulatedKernel.boot
  generalize SimulatedKernel.firstMissing site (order.image :: order.stubs) = missing
  cases missing <;> rfl

private theorem keeps_start (s : Session SimulatedKernel) (order : BootOrder) :
    s.Keeps (s.start order).2 := by
  have document := document_boot s.kernel order s.site
  unfold start
  generalize Kernel.boot s.kernel order s.site = r at document ⊢
  obtain ⟨e | u, kernel, site⟩ := r <;> exact ⟨rfl, document⟩

private theorem InStep.refresh (h : s.InStep n) (few : n ≤ StateId.greatest.toNat) :
    (s.command .refreshLoadPath).2.InStep n := by
  have served : s.served .refreshLoadPath = 0 := by simp [Session.served, SimulatedKernel.issues]
  have refreshed := h.command .refreshLoadPath (by omega)
  rwa [served] at refreshed

private theorem InStep.installPackages (h : s.InStep n) (few : n ≤ StateId.greatest.toNat)
    (schedule : List Nat) (uris : List String) (refresh : Bool) :
    (s.installPackages schedule uris refresh).2.InStep n := by
  unfold Session.installPackages
  generalize Package.installAll s.plan schedule uris s.site = r
  obtain ⟨results, events, site⟩ := r
  simp only
  have installed : (({ s with site := site } : Session SimulatedKernel).publish events).InStep n :=
    h.keep ⟨rfl, rfl⟩
  generalize ({ s with site := site } : Session SimulatedKernel).publish events = s' at installed ⊢
  have refreshed : (if refresh && s'.booted then s'.command .refreshLoadPath
      else (.ok [], s')).2.InStep n := by
    split
    · exact installed.refresh few
    · exact installed
  generalize (if refresh && s'.booted then s'.command .refreshLoadPath else (.ok [], s')) = r
    at refreshed ⊢
  split <;> exact refreshed.keep ⟨rfl, rfl⟩

private theorem InStep.establishRoot (h : s.InStep n) (left : n + 1 ≤ StateId.greatest.toNat) :
    s.establishRoot.2.InStep (n + 1) := by
  have served : s.served .init ≤ 1 := by
    unfold Session.served
    split <;> omega
  have asked := (h.command .init (by omega)).mono (by omega : n + s.served .init ≤ n + 1)
  unfold Session.establishRoot
  generalize s.command .init = r at asked ⊢
  obtain ⟨e | answers, s'⟩ := r
  · exact asked
  · simp only
    split <;> exact asked

private theorem InStep.installInitial (h : s.InStep n) (few : n ≤ StateId.greatest.toNat)
    (schedule : List Nat) : (s.installInitial schedule).2.InStep n := by
  unfold Session.installInitial
  split
  · exact h
  · exact h.installPackages few schedule _ true

/-- How many commands that may need a number reach the kernel in a request. -/
def requested (s : Session SimulatedKernel) : Request → Nat
  | .kernel c => s.served c
  | _ => 0

private theorem InStep.handle (h : s.InStep n) (schedule : List Nat) (r : Request)
    (left : n + s.requested r ≤ StateId.greatest.toNat) :
    (s.handle schedule r).2.InStep (n + s.requested r) := by
  cases r with
  | loadPackages uris => exact h.installPackages left schedule uris true
  | put path content =>
    unfold Session.handle
    simp only
    split <;> exact h.keep ⟨rfl, rfl⟩
  | get path =>
    unfold Session.handle
    simp only
    split
    · exact h.keep ⟨rfl, rfl⟩
    · exact h
  | setupInterrupt setup => exact h.keep (keeps_setupInterrupt s setup.marker)
  | kernel c => exact h.command c left

inductive Act where
  | boot (schedule initial : List Nat)
  | request (schedule : List Nat) (r : Request)
  | command (c : Command)
  | install (schedule : List Nat) (uris : List String) (refresh : Bool)
  /-- The files and the interrupt flag are changed from outside. -/
  | disturb (site : Site)
  /-- Those who watch come, go or take what waits for them. -/
  | watch (bus : EventBus)

def started (s : Session SimulatedKernel) (schedule : List Nat) :
    Except SessionError Unit × Session SimulatedKernel :=
  andThen (s.installBinaries schedule) fun order s =>
  andThen (s.setupInterrupt s.config.interruptMarker) fun _ s => s.start order

def act (s : Session SimulatedKernel) : Act → Session SimulatedKernel
  | .boot schedule initial => (s.boot schedule initial).2
  | .request schedule r => (s.handle schedule r).2
  | .command c => (s.command c).2
  | .install schedule uris refresh => (s.installPackages schedule uris refresh).2
  | .disturb site => { s with site := site }
  | .watch bus => { s with bus := bus }

/-- How many commands that may need a number reach the kernel in an act. -/
def needs (s : Session SimulatedKernel) : Act → Nat
  | .boot schedule _ => if (s.started schedule).1.toOption.isSome then 1 else 0
  | .request _ r => s.requested r
  | .command c => s.served c
  | _ => 0

def acts (s : Session SimulatedKernel) (as : List Act) : Session SimulatedKernel := as.foldl act s

/-- How many commands that may need a number reach the kernel in several acts. -/
def needed : Session SimulatedKernel → List Act → Nat
  | _, [] => 0
  | s, a :: as => s.needs a + needed (s.act a) as

private theorem andThen_snd {α β : Type} {P : Session SimulatedKernel → Prop}
    {r : Except SessionError α × Session SimulatedKernel}
    {next : α → Session SimulatedKernel → Except SessionError β × Session SimulatedKernel}
    (first : P r.2) (later : ∀ a s, P s → P (next a s).2) : P (andThen r next).2 := by
  obtain ⟨e | a, s⟩ := r
  · exact first
  · exact later a s first

private theorem keeps_started (s : Session SimulatedKernel) (schedule : List Nat) :
    s.Keeps (s.started schedule).2 :=
  andThen_snd (P := s.Keeps) (keeps_installBinaries s schedule) fun order s' h =>
    andThen_snd (P := s.Keeps) (h.trans (keeps_setupInterrupt s' _)) fun _ s'' h =>
      h.trans (keeps_start s'' order)

private theorem boot_eq (s : Session SimulatedKernel) (schedule initial : List Nat) :
    s.boot schedule initial =
      andThen (s.started schedule) fun _ s =>
      andThen s.establishRoot fun root s =>
      andThen (s.installInitial initial) fun _ s => (.ok root, s) := by
  unfold Session.boot started
  rcases s.installBinaries schedule with ⟨e | order, s₁⟩
  · rfl
  · simp only [andThen]
    rcases s₁.setupInterrupt s₁.config.interruptMarker with ⟨e | u, s₂⟩ <;> rfl

private theorem InStep.boot (h : s.InStep n) (schedule initial : List Nat)
    (left : n + s.needs (.boot schedule initial) ≤ StateId.greatest.toNat) :
    (s.boot schedule initial).2.InStep (n + s.needs (.boot schedule initial)) := by
  have begun := h.keep (keeps_started s schedule)
  have needs : s.needs (.boot schedule initial) =
      if (s.started schedule).1.toOption.isSome then 1 else 0 := rfl
  rw [needs] at left ⊢
  rw [boot_eq]
  generalize s.started schedule = r at begun left ⊢
  obtain ⟨e | u, s₁⟩ := r
  · exact begun
  · have left : n + 1 ≤ StateId.greatest.toNat := left
    have rooted : s₁.establishRoot.2.InStep (n + 1) := InStep.establishRoot begun left
    show (andThen s₁.establishRoot _).2.InStep (n + 1)
    exact andThen_snd (P := InStep (n + 1)) rooted fun root s₂ h =>
      andThen_snd (P := InStep (n + 1)) (h.installInitial left initial) fun _ _ h => h

private theorem InStep.act (h : s.InStep n) (a : Act)
    (left : n + s.needs a ≤ StateId.greatest.toNat) :
    (s.act a).InStep (n + s.needs a) := by
  cases a with
  | boot schedule initial => exact h.boot schedule initial left
  | request schedule r => exact h.handle schedule r left
  | command c => exact h.command c left
  | install schedule uris refresh => exact h.installPackages left schedule uris refresh
  | disturb site => exact h.keep ⟨rfl, rfl⟩
  | watch bus => exact h.keep ⟨rfl, rfl⟩

private theorem InStep.acts (h : s.InStep n) (as : List Act)
    (left : n + s.needed as ≤ StateId.greatest.toNat) :
    (s.acts as).InStep (n + s.needed as) := by
  induction as generalizing s n with
  | nil => exact h
  | cons a as ih =>
    rw [needed] at left ⊢
    have first := h.act a (by omega)
    have later := ih first (by omega)
    rw [Nat.add_assoc] at later
    exact later

private theorem inStep_new {config : Config} {reject : String → Option String} {polls : Nat}
    {network : Network} {host host' : Host}
    (opened : new config (SimulatedKernel.new reject polls) network host = (.ok s, host')) :
    s.InStep 0 := by
  unfold new at opened
  split at opened
  · cases opened
  · cases opened
    exact ⟨rfl, Document.Numbered.new⟩

private theorem needs_le_one (s : Session SimulatedKernel) (a : Act) : s.needs a ≤ 1 := by
  have served (c : Command) : s.served c ≤ 1 := by
    unfold Session.served
    split <;> omega
  cases a with
  | boot schedule initial =>
    show (if (s.started schedule).1.toOption.isSome then 1 else 0) ≤ 1
    split <;> omega
  | request schedule r =>
    cases r with
    | kernel c => exact served c
    | _ => exact Nat.zero_le 1
  | command c => exact served c
  | _ => exact Nat.zero_le 1

private theorem needed_le_length (s : Session SimulatedKernel) (as : List Act) :
    s.needed as ≤ as.length := by
  induction as generalizing s with
  | nil => exact Nat.le_refl 0
  | cons a as ih =>
    have first := needs_le_one s a
    have later := ih (s.act a)
    rw [needed, List.length_cons]
    omega

/--
The document that a session keeps is the one of its kernel, entry by entry, after every run in which
no more commands that may need a number reach the kernel than there are numbers.
-/
theorem document_eq_kernel_document {config : Config} {reject : String → Option String}
    {polls : Nat} {network : Network} {host host' : Host}
    (opened : new config (SimulatedKernel.new reject polls) network host = (.ok s, host'))
    (as : List Act)
    (few : s.needed as < UInt64.size) :
    (s.acts as).document = (s.acts as).kernel.document := by
  have enough : 0 + s.needed as ≤ StateId.greatest.toNat := by
    rw [Nat.zero_add]
    exact Nat.le_of_lt_succ few
  exact ((inStep_new opened).acts as enough).same

/-- A run with a kernel that executes nothing: it goes back, and the next sentence has a new
number. -/
theorem document_eq_kernel_document_after_failure :
    let config : Config :=
      { Config.default [] with sandboxRoot := "/", kernelImage := "/k", imagePath := "/i" }
    let kernel := SimulatedKernel.new some 1
    let host : Host := ⟨.directory [("k", .file [])], []⟩
    let as : List Act := [.boot [] [], .command (.add none none "a." false),
      .request [] (.kernel (.exec 2)), .command (.add none none "b." false)]
    ∃ s host', new config kernel .unreachable host = (.ok s, host') ∧
      (s.acts as).document = (s.acts as).kernel.document ∧
      (s.acts as).document.liveIds = [1, 3] := by
  intro config kernel host as
  have ran : ((new config kernel .unreachable host).1.toOption.map
      fun s => (s.acts as).document.liveIds) = some [1, 3] := by
    decide +kernel
  cases opened : new config kernel .unreachable host with
  | mk r host' =>
    rw [opened] at ran
    cases r with
    | error e => cases ran
    | ok s =>
      have few : s.needed as < UInt64.size := Nat.lt_of_le_of_lt (needed_le_length s as) (by decide)
      exact ⟨s, host', rfl, document_eq_kernel_document opened as few, Option.some.inj ran⟩

end Session

end ProofHost
