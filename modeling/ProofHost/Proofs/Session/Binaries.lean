import ProofHost.Kernel.Simulated
import ProofHost.Proofs.Interrupt
import ProofHost.Proofs.Sandbox.Calls
import ProofHost.Proofs.Session.Service
import ProofHost.Proofs.Session.Supply
import ProofHost.Proofs.Wire.RoundTrip

/-!
What is at the virtual paths of a kernel's image and libraries right after a boot. Of the name of a
library only the last component counts, so that it may have the virtual path of another one or of
the image. A virtual path has the contents of one of the files that have it, unless an interrupt
marker or the kernel itself touches the file after it is put.
-/

set_option autoImplicit false

namespace ProofHost

namespace Sandbox

variable {s : Sandbox} {h h' : Host} {path : String} {parts other : List String} {content : Bytes}
  {value : Option Bytes}

/-- On the second host the file at the virtual path with the given components is still as it was. -/
structure Spared (s : Sandbox) (parts : List String) (h h' : Host) : Prop where
  stands : s.Stands h'
  file : ∀ path, s.components? path = some parts → s.get h' path = s.get h path

private theorem spared_sameFiles (stands : s.Stands h) (same : h.SameFiles h') :
    s.Spared parts h h' := by
  have base : s.base h' = s.base h := base_of_workDir same.workDir
  have stands' := stands.mono same.workDir same.directories
  refine ⟨stands', ?_⟩
  intro path found
  have before := get_eq_stat (h := h) found
  rw [before, get_eq_ok_iff stands' found, base, same.files]
  exact (get_eq_ok_iff stands found).mp before

private theorem Stored.spared (stored : s.Stored h other value h') (ne : parts ≠ other) :
    s.Spared parts h h' :=
  ⟨stored.stands, fun path found => stored.elsewhere path parts found ne⟩

private theorem spared_put (stands : s.Stands h) (elsewhere : s.components? path ≠ some parts)
    (content : Bytes) : s.Spared parts h (s.put h path content).2 := by
  rcases put_cases s h path content with ⟨e, -, same⟩ | ⟨other, found, fits, -, replaced⟩
  · exact spared_sameFiles stands same
  · have ne : parts ≠ other := by
      rintro rfl
      exact elsewhere found
    exact (stored_of_replaced stands (fun _ => fits) replaced).spared ne

private theorem spared_remove (stands : s.Stands h) (elsewhere : s.components? path ≠ some parts) :
    s.Spared parts h (s.remove h path).2 := by
  have unchanged : s.Spared parts h h := spared_sameFiles stands (.refl h)
  cases found : s.components? path with
  | none =>
    rw [remove_of_escape found]
    exact unchanged
  | some other =>
    have ne : parts ≠ other := by
      rintro rfl
      exact elsewhere found
    cases result : (s.remove h path).1 with
    | ok was => exact (stored_remove stands found result).spared ne
    | error e =>
      rcases remove_cases h found with ⟨e, failed⟩ | ⟨-, nothing⟩ | ⟨h', -, gone⟩
      · rw [failed]
        exact unchanged
      · rw [nothing] at result
        cases result
      · rw [gone] at result
        cases result

end Sandbox

namespace Site

variable {site site' : Site} {parts : List String} {path v : String}

/-- Between two sites the sandbox stays, and so does the file with the given components. -/
structure Spares (parts : List String) (site site' : Site) : Prop where
  sandbox : site'.sandbox = site.sandbox
  file : site.sandbox.Stands site.host → site.sandbox.Spared parts site.host site'.host

private theorem Spares.refl (parts : List String) (site : Site) : Spares parts site site :=
  ⟨rfl, fun stands => Sandbox.spared_sameFiles stands (.refl site.host)⟩

private theorem Spares.trans {site'' : Site} (first : Spares parts site site')
    (second : Spares parts site' site'') : Spares parts site site'' := by
  refine ⟨second.sandbox.trans first.sandbox, ?_⟩
  intro stands
  have once := first.file stands
  have twice := second.file (first.sandbox.symm ▸ once.stands)
  rw [first.sandbox] at twice
  exact ⟨twice.stands, fun path found => (twice.file path found).trans (once.file path found)⟩

private theorem spares_writeMarker (elsewhere : site.sandbox.components? path ≠ some parts)
    (present : Bool) : Spares parts site (site.writeMarker path present).2 := by
  refine ⟨writeMarker_sandbox site path present, ?_⟩
  intro stands
  cases present with
  | true =>
    rw [writeMarker_true]
    exact Sandbox.spared_put stands elsewhere markerContent
  | false =>
    rw [writeMarker_false]
    exact Sandbox.spared_remove stands elsewhere

private theorem Spares.of_withFlag {isSet : Bool}
    (spares : Spares parts (site.withFlag isSet) site') :
    Spares parts site site' :=
  ⟨spares.sandbox, spares.file⟩

/-- The attached marker is not at the virtual path with the given components. -/
def MarkerApart (site : Site) (parts : List String) : Prop :=
  ∀ v, site.interrupt.marker = some v → site.sandbox.components? v ≠ some parts

private theorem markerApart_of_marker (sandbox : site'.sandbox = site.sandbox)
    (marker : site'.interrupt.marker = some v)
    (elsewhere : site.sandbox.components? v ≠ some parts) : site'.MarkerApart parts := by
  intro u isMarker
  rw [marker] at isMarker
  cases isMarker
  rw [sandbox]
  exact elsewhere

private theorem spares_clearInterrupt (apart : site.MarkerApart parts) :
    Spares parts site site.clearInterrupt := by
  unfold clearInterrupt showFlag
  cases attached : site.interrupt.marker with
  | none => exact ⟨rfl, (Spares.refl parts site).file⟩
  | some v =>
    have elsewhere : (site.withFlag false).sandbox.components? v ≠ some parts := apart v attached
    exact (spares_writeMarker elsewhere false).of_withFlag

private theorem spares_attachMarker (apart : site.MarkerApart parts)
    (elsewhere : site.sandbox.components? path ≠ some parts)
    (done : (site.attachMarker path).1 = .ok ()) :
    Spares parts site (site.attachMarker path).2 ∧
      (site.attachMarker path).2.MarkerApart parts := by
  cases found : site.sandbox.components? path with
  | none =>
    have escapes : site.sandbox.virtualPath path = .error (.escape path) := by
      rw [Sandbox.virtualPath, found]
    unfold attachMarker at done
    rw [escapes] at done
    cases done
  | some other =>
    have spelled := Sandbox.components?_renderPath (s := site.sandbox)
      (Sandbox.proper_of_components found)
    have elsewhere : site.sandbox.components? (Sandbox.renderPath other) ≠ some parts := by
      rw [spelled, ← found]
      exact elsewhere
    have wrote := spares_writeMarker elsewhere site.interrupt.isSet
    have attached : Spares parts site (site.withMarker (Sandbox.renderPath other)) :=
      ⟨withMarker_sandbox site _, wrote.file⟩
    obtain ⟨-, ⟨-, result⟩ | ⟨old, before, -, result⟩⟩ :=
      attachMarker_cases (Sandbox.virtualPath_of_components found) done
    · rw [result]
      exact ⟨attached, markerApart_of_marker (by simp) (by simp) elsewhere⟩
    · rw [result]
      have apartOld := apart old before
      have removed : Spares parts (site.withMarker (Sandbox.renderPath other))
          ((site.withMarker (Sandbox.renderPath other)).writeMarker old false).2 :=
        spares_writeMarker (by rwa [withMarker_sandbox]) false
      exact ⟨attached.trans removed, markerApart_of_marker (by simp) (by simp) elsewhere⟩

end Site

namespace Session

variable {κ : Type} {s s' : Session κ} {schedule initial : List Nat} {parts : List String}

/-- Neither the marker that a boot attaches nor the one attached before it is at the virtual path
with the given components. -/
def MarkersApart (s : Session κ) (parts : List String) : Prop :=
  s.site.MarkerApart parts ∧
    ∀ path, s.config.interruptMarker = some path → s.site.sandbox.components? path ≠ some parts

private theorem spares_setupInterrupt (apart : s.MarkersApart parts)
    (done : s.setupInterrupt s.config.interruptMarker = (.ok (), s')) :
    Site.Spares parts s.site s'.site ∧ s'.site.MarkerApart parts := by
  unfold setupInterrupt at done
  cases marker : s.config.interruptMarker with
  | none =>
    rw [marker] at done
    cases done
    exact ⟨.refl parts s.site, apart.1⟩
  | some path =>
    have attaches := Site.spares_attachMarker apart.1 (apart.2 path marker)
    rw [marker] at done
    dsimp only at done
    generalize s.site.attachMarker path = r at attaches done
    obtain ⟨e | u, site⟩ := r
    · cases done
    · cases done
      exact attaches rfl

private theorem config_of_installBinaries {order : BootOrder}
    (installed : s.installBinaries schedule = (.ok order, s')) : s'.config = s.config := by
  unfold installBinaries at installed
  generalize Turns.all Binary.step Binary.run schedule s.site (binaries s.config) = r at installed
  dsimp only at installed
  split at installed <;> cases installed
  rfl

private theorem andThen_ok {α β : Type} {r : Except SessionError α × Session κ}
    {next : α → Session κ → Except SessionError β × Session κ} {b : β}
    (done : (andThen r next).1 = .ok b) :
    ∃ a s, r = (.ok a, s) ∧ andThen r next = next a s := by
  obtain ⟨e | a, s⟩ := r
  · cases done
  · exact ⟨a, s, rfl, rfl⟩

section Kernel

variable [Kernel κ]

def kernelStarted (s : Session κ) (order : BootOrder) : κ × Site :=
  (Kernel.boot s.kernel order s.site).2

/-- The site once the kernel that is started was asked for a root state. -/
def siteAsked (s : Session κ) (order : BootOrder) : Site :=
  (Kernel.post (s.kernelStarted order).1 Command.init.encode (s.kernelStarted order).2).2.2

private theorem start_ok {order : BootOrder} (started : s.start order = (.ok (), s')) :
    s'.config = s.config ∧ s'.booted = true ∧ s'.kernel = (s.kernelStarted order).1 ∧
      s'.site = (s.kernelStarted order).2 := by
  unfold start at started
  unfold kernelStarted
  generalize Kernel.boot s.kernel order s.site = r at started ⊢
  obtain ⟨e | u, kernel, site⟩ := r <;> cases started
  exact ⟨rfl, rfl, rfl, rfl⟩

private theorem establishRoot_ok {root : StateId} (rooted : s.establishRoot = (.ok root, s')) :
    s' = (s.command .init).2 := by
  unfold establishRoot at rooted
  generalize s.command .init = r at rooted ⊢
  obtain ⟨e | answers, after⟩ := r
  · cases rooted
  · dsimp only at rooted
    split at rooted <;> cases rooted
    rfl

private theorem boot_ok {root : StateId} (noPackages : s.config.initialPackages = [])
    (booted : (s.boot schedule initial).1 = .ok root) :
    ∃ order s₁ s₂, s.installBinaries schedule = (.ok order, s₁) ∧
      s₁.setupInterrupt s₁.config.interruptMarker = (.ok (), s₂) ∧
      (s.boot schedule initial).2.site = (s₂.siteAsked order).clearInterrupt := by
  unfold boot at booted ⊢
  obtain ⟨order, s₁, installed, same₁⟩ := andThen_ok booted
  rw [same₁] at booted ⊢
  obtain ⟨⟨⟩, s₂, attached, same₂⟩ := andThen_ok booted
  rw [same₂] at booted ⊢
  obtain ⟨⟨⟩, s₃, started, same₃⟩ := andThen_ok booted
  rw [same₃] at booted ⊢
  obtain ⟨root', s₄, rooted, same₄⟩ := andThen_ok booted
  rw [same₄]
  obtain ⟨site, isSite⟩ := s₁.setupInterrupt_site s₁.config.interruptMarker
  rw [attached] at isSite
  obtain ⟨config₃, booted₃, kernel₃, site₃⟩ := start_ok started
  have asked := command_eq (c := .init) rfl booted₃
  have config₄ : s₄.config = s₃.config := by rw [establishRoot_ok rooted, asked]
  have site₄ : s₄.site =
      (Kernel.post s₃.kernel Command.init.encode s₃.site).2.2.clearInterrupt := by
    rw [establishRoot_ok rooted, asked]
  have config : s₄.config = s.config := by
    rw [config₄, config₃, show s₂ = _ from isSite, ← config_of_installBinaries installed]
  have nothing : s₄.installInitial initial = (.ok (), s₄) := by
    simp [installInitial, config, noPackages]
  refine ⟨order, s₁, s₂, installed, attached, ?_⟩
  rw [nothing]
  show s₄.site = _
  rw [site₄, kernel₃, site₃, siteAsked]

/-- While a boot starts the kernel and asks it for a root state, the kernel leaves the file with the
given components as it is, and the marker attached. -/
def KernelSpares (s : Session κ) (schedule : List Nat) (parts : List String) : Prop :=
  ∀ order s₁ s₂, s.installBinaries schedule = (.ok order, s₁) →
    s₁.setupInterrupt s₁.config.interruptMarker = (.ok (), s₂) →
    Site.Spares parts s₂.site (s₂.siteAsked order) ∧
      (s₂.siteAsked order).interrupt.marker = s₂.site.interrupt.marker

/--
A boot succeeds without packages to install, and no file is put where another one comes from. Then
each file that the kernel needs has a virtual path, and if neither the markers nor the kernel touch
it, this path has the contents of one of the files that have it; so these are its own if no other
one has it.
-/
theorem booted_files_belong (s : Session κ) (schedule initial : List Nat) {root : StateId}
    (stands : s.site.sandbox.Stands s.site.host) (undisturbed : s.supply.Undisturbed)
    (noPackages : s.config.initialPackages = []) (booted : (s.boot schedule initial).1 = .ok root)
    {uri path : String} (mem : (uri, path) ∈ wanted s.config) :
    ∃ parts, s.site.sandbox.components? path = some parts ∧
      (s.MarkersApart parts → s.KernelSpares schedule parts →
        ∃ content, s.supply.Belongs parts content ∧
          ((∀ w ∈ wanted s.config, s.site.sandbox.components? w.2 = some parts → w.1 = uri) →
            Package.resource? s.site.network s.site.host uri = some content) ∧
          let after := (s.boot schedule initial).2.site
          after.sandbox.get after.host path = .ok (some content)) := by
  obtain ⟨order, s₁, s₂, installed, attached, final⟩ := boot_ok noPackages booted
  obtain ⟨config, delivers, holds⟩ := installBinaries_ok undisturbed installed
  obtain ⟨parts, content, found, fits, belongs, there⟩ := holds (uri, path) mem
  refine ⟨parts, found, ?_⟩
  intro apart spares
  have stands₁ : s₁.site.sandbox.Stands s₁.site.host := by
    rw [delivers.sandbox]
    exact stands.mono delivers.workDir delivers.directories
  have found₁ : s₁.site.sandbox.components? path = some parts := by
    rw [delivers.sandbox]
    exact found
  have got : s₁.site.sandbox.get s₁.site.host path = .ok (some content) := by
    have base : s₁.site.sandbox.base s₁.site.host = s.supply.base := by
      rw [delivers.sandbox]
      exact Sandbox.base_of_workDir delivers.workDir
    rw [Sandbox.get_eq_ok_iff stands₁ found₁, base, there, delivers.sandbox]
    exact fun _ => ⟨fun same => ⟨fits, same⟩, And.right⟩
  have apart₁ : s₁.MarkersApart parts := by
    unfold MarkersApart Site.MarkerApart
    rw [config, delivers.sandbox, delivers.interrupt]
    exact apart
  -- From the install on, every stage of the boot leaves the file as it is.
  obtain ⟨attaches, apart₂⟩ := spares_setupInterrupt apart₁ attached
  obtain ⟨kernel, marker⟩ := spares order s₁ s₂ installed attached
  have apart₃ : (s₂.siteAsked order).MarkerApart parts := by
    intro v isMarker
    rw [kernel.sandbox]
    exact apart₂ v (marker ▸ isMarker)
  have whole := (attaches.trans kernel).trans (Site.spares_clearInterrupt apart₃)
  rw [← final] at whole
  refine ⟨content, belongs, ?_, ?_⟩
  · intro alone
    obtain ⟨w, memW, foundW, isContent⟩ := belongs
    rwa [alone w memW foundW] at isContent
  · intro after
    rw [whole.sandbox, (whole.file stands₁).file path found₁]
    exact got

end Kernel

private theorem kernelSpares_simulated (s : Session SimulatedKernel) (schedule : List Nat)
    (parts : List String) : s.KernelSpares schedule parts := by
  intro order s₁ s₂ _ _
  have boots (k : SimulatedKernel) (site : Site) : (Kernel.boot k order site).2.2 = site := by
    have same : Kernel.boot k order site = k.boot order site := rfl
    rw [same]
    unfold SimulatedKernel.boot
    split <;> rfl
  have posts (k : SimulatedKernel) (site : Site) :
      (Kernel.post k Command.init.encode site).2.2 = site := by
    have same : Kernel.post k Command.init.encode site = k.post Command.init.encode site := rfl
    rw [same]
    unfold SimulatedKernel.post
    rw [Command.decode_encode]
    split <;> rfl
  have same : s₂.siteAsked order = s₂.site := by
    rw [siteAsked, posts, kernelStarted, boots]
  rw [same]
  exact ⟨.refl parts s₂.site, rfl⟩

private theorem stands_new {config : Config} {kernel : κ} {network : Network} {h h' : Host}
    (start : h.DirectoryAt (h.origin config.sandboxRoot))
    (opened : new config kernel network h = (.ok s, h')) : s.site.sandbox.Stands s.site.host := by
  unfold new at opened
  split at opened
  · cases opened
  · rename_i sandbox host made
    cases opened
    exact (Sandbox.stands_open start made).of_root (sandbox.root_withLibRoot config.libRoot)

def stocked : Config :=
  { Config.default [] with
    sandboxRoot := "/vfs", kernelImage := "/k", imagePath := "/bin/i",
    stubs := ["/x/s", "https://m/n"] }

def stockedHost : Host :=
  ⟨.directory [("k", .file [1]), ("x", .directory [("s", .file [2]), ("i", .file [3])]),
    ("vfs", .directory [("bin", .directory [("s", .file [4])])])], []⟩

def stockedNetwork : Network := fun uri =>
  if uri = "https://m/n" then .answered ⟨200, "200 OK"⟩ ⟨some 2, [[5], [6]], none⟩
  else .failed "no route"

theorem booted_files_belong_stocked :
    ∃ s host', new stocked (SimulatedKernel.new (fun _ => none) 1) stockedNetwork stockedHost =
        (.ok s, host') ∧
      let booted := s.boot [1, 1, 2, 2] []
      let got := booted.2.site.sandbox.get booted.2.site.host
      booted.1 = .ok 1 ∧ got "/bin/i" = .ok (some [1]) ∧ got "/bin/s" = .ok (some [2]) ∧
        got "/bin/n" = .ok (some [5, 6]) := by
  generalize opened :
    new stocked (SimulatedKernel.new (fun _ => none) 1) stockedNetwork stockedHost = r
  have ran : (r.1.toOption.map fun s => decide (s.config = stocked ∧
      (s.boot [1, 1, 2, 2] []).1 = .ok 1 ∧ s.site.interrupt.marker = none ∧
      (∀ w ∈ s.supply.files, Package.isRemote w.1 = false →
        ¬ s.supply.base <+: s.supply.site.host.placeOf (Package.localPath w.1)) ∧
      s.site.sandbox.components? "/bin/i" = some ["bin", "i"] ∧
      s.site.sandbox.components? "/bin/s" = some ["bin", "s"] ∧
      s.site.sandbox.components? "/bin/n" = some ["bin", "n"] ∧
      Package.resource? s.site.network s.site.host "/k" = some [1] ∧
      Package.resource? s.site.network s.site.host "/x/s" = some [2] ∧
      Package.resource? s.site.network s.site.host "https://m/n" = some [5, 6])) = some true := by
    rw [← opened]
    decide +kernel
  obtain ⟨e | s, host'⟩ := r
  · cases ran
  obtain ⟨config, booted, marker, outside, imageAt, libraryAt, otherAt, isImage, isLibrary, isOther⟩ :=
    of_decide_eq_true (Option.some.inj ran)
  have stands : s.site.sandbox.Stands s.site.host := stands_new ⟨_, rfl⟩ opened
  have undisturbed := Supply.undisturbed_of_outside outside
  have files : wanted s.config =
      [("/k", "/bin/i"), ("/x/s", "/bin/s"), ("https://m/n", "/bin/n")] := by
    rw [config]
    decide +kernel
  have noMarker : s.config.interruptMarker = none := by rw [config]; rfl
  have apart (parts : List String) : s.MarkersApart parts := by
    constructor
    · rw [Site.MarkerApart, marker]
      exact nofun
    · rw [noMarker]
      exact nofun
  have held {uri path : String} {parts : List String} (mem : (uri, path) ∈ wanted s.config)
      (isPath : s.site.sandbox.components? path = some parts)
      (alone : ∀ w ∈ wanted s.config, s.site.sandbox.components? w.2 = some parts → w.1 = uri) :
      (s.boot [1, 1, 2, 2] []).2.site.sandbox.get (s.boot [1, 1, 2, 2] []).2.site.host path =
        .ok (Package.resource? s.site.network s.site.host uri) := by
    obtain ⟨parts', found, holds⟩ :=
      booted_files_belong s [1, 1, 2, 2] [] stands undisturbed (by rw [config]; rfl) booted mem
    cases isPath.symm.trans found
    obtain ⟨content, -, own, got⟩ :=
      holds (apart parts) (s.kernelSpares_simulated [1, 1, 2, 2] parts)
    rw [own alone]
    exact got
  rw [files] at held
  have image := @held "/k" "/bin/i" _ (by simp) imageAt (by simp [libraryAt, otherAt])
  have library := @held "/x/s" "/bin/s" _ (by simp) libraryAt (by simp [imageAt, otherAt])
  have other := @held "https://m/n" "/bin/n" _ (by simp) otherAt (by simp [imageAt, libraryAt])
  rw [isImage] at image
  rw [isLibrary] at library
  rw [isOther] at other
  exact ⟨s, host', rfl, booted, image, library, other⟩

/-- What the boot of a new session gives, with an interrupt or not, and what is at the virtual path
of the image after it. -/
def imageAfterBoot (config : Config) (interrupted : Bool) (schedule : List Nat) :
    Option (Except SessionError StateId × Except SandboxError (Option Bytes)) :=
  let opened := new config (SimulatedKernel.new (fun _ => none) 1) stockedNetwork stockedHost
  opened.1.toOption.map fun s =>
    let before := if interrupted then { s with site := s.site.setInterrupt } else s
    let (result, after) := before.boot schedule []
    (result, after.site.sandbox.get after.site.host config.imagePath)

/-- At the virtual path of the image are the contents of a library with its last component; or
nothing, since it is the one of the marker as well; or the contents of the library that is put where
the image comes from. -/
theorem image_replaced :
    let resource := Package.resource? stockedNetwork stockedHost
    let named := { stocked with stubs := ["/x/i"] }
    let marked := { stocked with interruptMarker := some "/bin/i" }
    let inside := { stocked with kernelImage := "/vfs/bin/s" }
    (resource "/k" = some [1] ∧ imageAfterBoot named false [] = some (.ok 1, .ok (some [3]))) ∧
      (resource "/k" = some [1] ∧ imageAfterBoot marked true [] = some (.ok 1, .ok none)) ∧
      resource "/vfs/bin/s" = some [4] ∧
        imageAfterBoot inside false [1, 1] = some (.ok 1, .ok (some [2])) := by
  decide +kernel

end Session

end ProofHost
