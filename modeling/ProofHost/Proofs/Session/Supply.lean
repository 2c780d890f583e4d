import ProofHost.Proofs.Package.Repetition
import ProofHost.Proofs.Sandbox.Contents
import ProofHost.Proofs.Turns
import ProofHost.Session.Boot

/-!
The files that a boot puts into the sandbox. Several of them may have the same virtual path, and
then the one that is put last stays; so in whatever order they are put, a virtual path ends up with
the contents of one of those that have it.
-/

set_option autoImplicit false

namespace ProofHost

namespace Package

/-- The bytes to which an address leads: those of a body that comes with a code of success and does
not break off, or those of a file. -/
def resource? (network : Network) (h : Host) (uri : String) : Option Bytes :=
  if isRemote uri then
    match network uri with
    | .failed _ => none
    | .answered status body =>
      if 200 ≤ status.code ∧ status.code < 300 ∧ body.broken = none then some body.chunks.flatten
      else none
  else h.fileAt (h.placeOf (localPath uri))

private theorem resource?_of_fetchRemote {network : Network} {h : Host} {uri : String}
    {content : Bytes}
    (remote : isRemote uri = true) (fetched : fetchRemote network uri = .ok content) :
    resource? network h uri = some content := by
  rw [resource?, if_pos remote]
  unfold fetchRemote at fetched
  cases answer : network uri with
  | failed cause =>
    rw [answer] at fetched
    cases fetched
  | answered status body =>
    rw [answer] at fetched
    dsimp only at fetched ⊢
    split at fetched
    · rename_i success
      obtain ⟨least, most⟩ : 200 ≤ status.code ∧ status.code < 300 := by
        simpa [Status.isSuccess] using success
      unfold bodyBytes at fetched
      cases broken : body.broken with
      | some cause =>
        rw [broken] at fetched
        cases fetched
      | none =>
        rw [broken] at fetched
        cases fetched
        rw [if_pos ⟨least, most, rfl⟩]
    · cases fetched

private theorem resource?_of_fetch {network : Network} {h : Host} {uri : String} {content : Bytes}
    (fetched : fetch network h uri = .ok content) : resource? network h uri = some content := by
  cases remote : isRemote uri with
  | true =>
    rw [fetch, if_pos remote] at fetched
    exact resource?_of_fetchRemote remote fetched
  | false =>
    rw [fetch_of_local network h remote, fetchFile_eq_ok_iff] at fetched
    obtain ⟨-, -, inside, -⟩ := Host.stat_file_iff.mp fetched
    rw [resource?, remote, if_neg Bool.false_ne_true, Host.fileAt, Node.fileAt_eq_some_iff]
    exact inside

end Package

namespace Binary

private theorem step_fetched (site : Site) (path : String) (content : Bytes) :
    step site (.fetched path content) =
      (.settled ((site.sandbox.put site.host path content).1.mapError .sandbox), [],
        { site with host := (site.sandbox.put site.host path content).2 }) := by
  dsimp only [step, Site.put]
  generalize site.sandbox.put site.host path content = r
  obtain ⟨e | v, host⟩ := r <;> rfl

private theorem step_ne_wanted (site : Site) (b : Binary) (uri path : String) :
    (step site b).1 ≠ .wanted uri path := by
  cases b with
  | wanted uri' path' =>
    dsimp only [step]
    generalize Package.fetchReported site.network site.host uri' = r
    obtain ⟨reports, e | content⟩ := r
    · exact nofun
    · exact nofun
  | fetched path' content =>
    rw [step_fetched]
    exact nofun
  | settled r => exact nofun

private theorem settled_step (site : Site) {b : Binary} (begun : ∀ uri path, b ≠ .wanted uri path) :
    ∃ r, (step site b).1 = .settled r := by
  cases b with
  | wanted uri path => exact absurd rfl (begun uri path)
  | fetched path content =>
    rw [step_fetched]
    exact ⟨_, rfl⟩
  | settled r => exact ⟨r, rfl⟩

private theorem settled_run (site : Site) (b : Binary) : ∃ r, (run site b).1 = .settled r := by
  obtain ⟨twice, -⟩ := Turns.repeated_succ step 1 site b
  rw [run, twice]
  exact settled_step _ (step_ne_wanted site b)

end Binary

/-- Files that are to be put into a sandbox, each with the address it comes from and its virtual
path, and the site before any of them is there. -/
structure Supply where
  site : Site
  files : List (String × String)

namespace Supply

variable {supply : Supply} {site site' : Site} {w : String × String} {b : Binary}

def base (supply : Supply) : List String := supply.site.sandbox.base supply.site.host

/-- The contents are those of one of the files that have the virtual path. -/
def Belongs (supply : Supply) (parts : List String) (content : Bytes) : Prop :=
  ∃ w ∈ supply.files, supply.site.sandbox.components? w.2 = some parts ∧
    Package.resource? supply.site.network supply.site.host w.1 = some content

/-- No file of the host is needed from a place where another one with other contents is put. -/
def Undisturbed (supply : Supply) : Prop :=
  ∀ w ∈ supply.files, Package.isRemote w.1 = false → ∀ other ∈ supply.files, ∀ parts,
    supply.site.sandbox.components? other.2 = some parts →
    supply.site.host.placeOf (Package.localPath w.1) = supply.base ++ parts →
    Package.resource? supply.site.network supply.site.host w.1 =
      Package.resource? supply.site.network supply.site.host other.1

theorem undisturbed_of_outside
    (outside : ∀ w ∈ supply.files, Package.isRemote w.1 = false →
      ¬ supply.base <+: supply.site.host.placeOf (Package.localPath w.1)) :
    supply.Undisturbed := by
  intro w mem isLocal other _ parts _ inside
  exact absurd (inside ▸ List.prefix_append supply.base parts) (outside w mem isLocal)

/-- Between two sites nothing is put but files that belong where they are. -/
structure Delivers (supply : Supply) (site site' : Site) : Prop where
  network : site'.network = site.network
  sandbox : site'.sandbox = site.sandbox
  interrupt : site'.interrupt = site.interrupt
  workDir : site'.host.workDir = site.host.workDir
  directories : ∀ place, site.host.DirectoryAt place → site'.host.DirectoryAt place
  files : ∀ place, site'.host.fileAt place = site.host.fileAt place ∨
    ∃ parts content, place = supply.base ++ parts ∧ supply.Belongs parts content ∧
      site'.host.fileAt place = some content

private theorem Delivers.refl (supply : Supply) (site : Site) : supply.Delivers site site :=
  ⟨rfl, rfl, rfl, rfl, fun _ => id, fun _ => Or.inl rfl⟩

private theorem Delivers.trans {site'' : Site} (first : supply.Delivers site site')
    (second : supply.Delivers site' site'') : supply.Delivers site site'' := by
  refine ⟨second.network.trans first.network, second.sandbox.trans first.sandbox,
    second.interrupt.trans first.interrupt, second.workDir.trans first.workDir,
    fun place here => second.directories place (first.directories place here), ?_⟩
  intro place
  rcases second.files place with same | put
  · rw [same]
    exact first.files place
  · exact Or.inr put

private theorem Delivers.resource? (delivers : supply.Delivers supply.site site)
    (undisturbed : supply.Undisturbed) (mem : w ∈ supply.files) :
    Package.resource? site.network site.host w.1 =
      Package.resource? supply.site.network supply.site.host w.1 := by
  rw [delivers.network]
  cases remote : Package.isRemote w.1 with
  | true => rw [Package.resource?, Package.resource?, if_pos remote, if_pos remote]
  | false =>
    have place := Host.placeOf_of_workDir delivers.workDir (Package.localPath w.1)
    have isFile (h : Host) : Package.resource? supply.site.network h w.1 =
        h.fileAt (h.placeOf (Package.localPath w.1)) := by
      rw [Package.resource?, remote, if_neg Bool.false_ne_true]
    rw [isFile site.host, place]
    rcases delivers.files (supply.site.host.placeOf (Package.localPath w.1)) with same | put
    · rw [same, isFile supply.site.host]
    · obtain ⟨parts, content, isPlace, ⟨other, memOther, found, isContent⟩, now⟩ := put
      rw [now, ← isContent]
      exact (undisturbed w mem remote other memOther parts found isPlace).symm

/-- The virtual path of a file has contents that belong there. -/
def Holds (supply : Supply) (w : String × String) (site : Site) : Prop :=
  ∃ parts content, supply.site.sandbox.components? w.2 = some parts ∧
    supply.site.sandbox.Fits parts ∧ supply.Belongs parts content ∧
    site.host.fileAt (supply.base ++ parts) = some content

private theorem Holds.delivers (holds : supply.Holds w site)
    (delivers : supply.Delivers site site') :
    supply.Holds w site' := by
  obtain ⟨parts, content, found, fits, belongs, there⟩ := holds
  rcases delivers.files (supply.base ++ parts) with same | put
  · exact ⟨parts, content, found, fits, belongs, same.trans there⟩
  · obtain ⟨parts', content', isPlace, belongs', there'⟩ := put
    obtain rfl : parts = parts' := List.append_cancel_left isPlace
    exact ⟨parts, content', found, fits, belongs', there'⟩

/-- A file on its way is the one that it was at first, and one that is put is where it belongs. -/
def Ties (supply : Supply) (w : String × String) (site : Site) : Binary → Prop
  | .wanted uri path => uri = w.1 ∧ path = w.2
  | .fetched path content =>
    path = w.2 ∧ Package.resource? supply.site.network supply.site.host w.1 = some content
  | .settled (.error _) => True
  | .settled (.ok _) => supply.Holds w site

private theorem Ties.delivers (ties : supply.Ties w site b)
    (delivers : supply.Delivers site site') :
    supply.Ties w site' b := by
  cases b with
  | wanted uri path => exact ties
  | fetched path content => exact ties
  | settled r =>
    cases r with
    | error e => trivial
    | ok v => exact Holds.delivers ties delivers

private theorem step_put {content : Bytes} (mem : w ∈ supply.files)
    (kept : supply.Delivers supply.site site)
    (isContent :
      Package.resource? supply.site.network supply.site.host w.1 = some content) :
    supply.Delivers site (Binary.step site (.fetched w.2 content)).2.2 ∧
      supply.Ties w (Binary.step site (.fetched w.2 content)).2.2
        (Binary.step site (.fetched w.2 content)).1 := by
  have base : site.sandbox.base site.host = supply.base := by
    rw [kept.sandbox]
    exact Sandbox.base_of_workDir kept.workDir
  have cases := Sandbox.put_cases site.sandbox site.host w.2 content
  rw [Binary.step_fetched]
  generalize site.sandbox.put site.host w.2 content = r at cases ⊢
  obtain ⟨result, host⟩ := r
  dsimp only at cases ⊢
  rcases cases with ⟨e, rfl, same⟩ | ⟨parts, found, fits, rfl, replaced⟩
  · exact ⟨⟨rfl, rfl, rfl, same.workDir, same.directories,
      fun place => Or.inl (same.files place)⟩, trivial⟩
  · rw [kept.sandbox] at found fits
    rw [base] at replaced
    have belongs : supply.Belongs parts content := ⟨w, mem, found, isContent⟩
    refine ⟨⟨rfl, rfl, rfl, replaced.workDir, replaced.directories, ?_⟩,
      parts, content, found, fits, belongs, replaced.here⟩
    intro place
    by_cases here : place = supply.base ++ parts
    · exact Or.inr ⟨parts, content, here, belongs, here ▸ replaced.here⟩
    · exact Or.inl (replaced.elsewhere place here)

private theorem step_delivers (undisturbed : supply.Undisturbed) (mem : w ∈ supply.files)
    (kept : supply.Delivers supply.site site) (ties : supply.Ties w site b) :
    supply.Delivers site (Binary.step site b).2.2 ∧
      supply.Ties w (Binary.step site b).2.2 (Binary.step site b).1 := by
  cases b with
  | wanted uri path =>
    obtain ⟨rfl, rfl⟩ := ties
    obtain ⟨reports, fetches⟩ := Package.fetchReported_eq site.network site.host w.1
    unfold Binary.step
    cases fetched : Package.fetch site.network site.host w.1 with
    | error e =>
      rw [fetched] at fetches
      simp only [fetches]
      exact ⟨.refl supply site, trivial⟩
    | ok content =>
      rw [fetched] at fetches
      simp only [fetches]
      have arrived := Package.resource?_of_fetch fetched
      rw [kept.resource? undisturbed mem] at arrived
      exact ⟨.refl supply site, rfl, arrived⟩
  | fetched path content =>
    obtain ⟨rfl, isContent⟩ := ties
    exact step_put mem kept isContent
  | settled r => exact ⟨.refl supply site, ties⟩

def jobs (supply : Supply) : List Binary := supply.files.map fun w => .wanted w.1 w.2

private theorem delivered (undisturbed : supply.Undisturbed) (schedule : List Nat) :
    let done := Turns.all Binary.step Binary.run schedule supply.site supply.jobs
    supply.Delivers supply.site done.2.2 ∧
      List.Forall₂ (fun w b => supply.Ties w done.2.2 b) supply.files done.1 := by
  have twice : Turns.Repeats Binary.step Binary.run := fun _ _ => ⟨2, rfl⟩
  have taken := Turns.taken_all twice schedule supply.site supply.jobs
  refine taken.forall₂ (supply.Delivers supply.site) supply.Ties (.refl supply supply.site) ?_ ?_ ?_
  · rw [jobs, List.forall₂_map_right_iff, List.forall₂_same]
    exact fun _ _ => ⟨rfl, rfl⟩
  · intro w mem site b kept ties
    obtain ⟨delivers, tiesNow⟩ := step_delivers undisturbed mem kept ties
    exact ⟨kept.trans delivers, tiesNow⟩
  · intro w mem site b kept ties other c tiesOther
    exact tiesOther.delivers (step_delivers undisturbed mem kept ties).1

end Supply

namespace Session

variable {κ : Type} {s s' : Session κ} {schedule : List Nat} {parts : List String}

/-- The files that a kernel needs, each with its address and its virtual path. -/
def wanted (c : Config) : List (String × String) :=
  (c.locate c.kernelImage, c.imagePath) ::
    c.stubs.map fun stub => (c.locate stub, c.stubPath stub)

def supply (s : Session κ) : Supply := ⟨s.site, wanted s.config⟩

private theorem jobs_supply (s : Session κ) : s.supply.jobs = binaries s.config := by
  simp [Supply.jobs, supply, wanted, binaries, Function.comp_def]

private theorem eq_map_of_allPaths {results : List (Except SessionError String)}
    {paths : List String}
    (all : allPaths results = .ok paths) : results = paths.map .ok := by
  induction results generalizing paths with
  | nil =>
    cases all
    rfl
  | cons r results ih =>
    cases r with
    | error e => cases all
    | ok path =>
      rw [allPaths] at all
      cases rest : allPaths results with
      | error e =>
        rw [rest] at all
        cases all
      | ok others =>
        rw [rest] at all
        cases all
        rw [ih rest, List.map_cons]

theorem installBinaries_ok {order : BootOrder} (undisturbed : s.supply.Undisturbed)
    (done : s.installBinaries schedule = (.ok order, s')) :
    s'.config = s.config ∧ s.supply.Delivers s.site s'.site ∧
      ∀ w ∈ wanted s.config, s.supply.Holds w s'.site := by
  obtain ⟨delivers, ties⟩ := s.supply.delivered undisturbed schedule
  have ended : ∀ b ∈ (Turns.all Binary.step Binary.run schedule s.site s.supply.jobs).1,
      ∃ r, b = .settled r :=
    Turns.over_all Binary.step Binary.settled_run schedule s.site s.supply.jobs
  have site : s.supply.site = s.site := rfl
  rw [site] at delivers ties
  unfold installBinaries at done
  rw [← jobs_supply] at done
  generalize Turns.all Binary.step Binary.run schedule s.site s.supply.jobs = r
    at done delivers ties ended
  obtain ⟨finished, events, site'⟩ := r
  dsimp only at done delivers ties ended
  cases paths : allPaths (finished.filterMap Binary.result?) with
  | error e =>
    rw [paths] at done
    cases done
  | ok found =>
    rw [paths] at done
    cases done
    refine ⟨rfl, delivers, ?_⟩
    intro w mem
    obtain ⟨i, inside, rfl⟩ := List.getElem_of_mem mem
    have same := ties.length_eq
    have tied := ties.get inside (same ▸ inside)
    obtain ⟨r, isResult⟩ := ended _ (List.get_mem finished ⟨i, same ▸ inside⟩)
    have mem : r ∈ found.map Except.ok := by
      rw [← eq_map_of_allPaths paths]
      refine List.mem_filterMap.mpr ⟨_, List.get_mem finished ⟨i, same ▸ inside⟩, ?_⟩
      rw [isResult]
      rfl
    obtain ⟨v, -, rfl⟩ := List.mem_map.mp mem
    rw [isResult] at tied
    exact tied

end Session

end ProofHost
