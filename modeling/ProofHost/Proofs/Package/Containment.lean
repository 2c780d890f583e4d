import ProofHost.Package.Install
import ProofHost.Proofs.Package.Target

/-!
Where an install writes. The names of a package's files are checked as they stand in the archive,
before backslashes become slashes, so that a name which is safe at the check may lead anywhere in
the sandbox when it is used. What an install writes is decided by the name as it is used.
-/

set_option autoImplicit false

namespace ProofHost.Package

open Text.Path (dropStartSlashes)

theorem flatten_reads (b : Bytes) : (reads b).flatten = b := by
  induction b using reads.induct with
  | case1 b empty =>
    rw [reads, if_pos empty]
    exact (List.isEmpty_iff.mp empty).symm
  | case2 b notEmpty ih =>
    rw [reads, if_neg notEmpty, List.flatten_cons, ih, List.take_append_drop]

theorem receive_fst (total : Nat) (arrived : Bytes) (chunks : List Bytes) :
    (receive total arrived chunks).1 = arrived ++ chunks.flatten := by
  induction chunks generalizing arrived with
  | nil => simp [receive]
  | cons chunk chunks ih =>
    rw [receive, List.flatten_cons, ← List.append_assoc]
    exact ih (arrived ++ chunk)

private theorem bodyReported_snd (body : Body) : (bodyReported body).2 = bodyBytes body := by
  unfold bodyReported bodyBytes
  cases body.broken <;> rfl

private theorem fetchFileReported_snd (h : Host) (uri : String) :
    (fetchFileReported h uri).2 = fetchFile h uri := by
  unfold fetchFileReported
  cases fetchFile h uri with
  | error e => rfl
  | ok bytes =>
    have whole := receive_fst bytes.length [] (reads bytes)
    rw [flatten_reads, List.nil_append] at whole
    exact congrArg Except.ok whole

private theorem fetchRemoteReported_snd (network : Network) (uri : String) :
    (fetchRemoteReported network uri).2 = fetchRemote network uri := by
  unfold fetchRemoteReported fetchRemote
  cases network uri with
  | failed cause => rfl
  | answered status body =>
    dsimp only
    split
    · exact bodyReported_snd body
    · rfl

theorem fetch_of_local (network : Network) (h : Host) {uri : String}
    (isLocal : isRemote uri = false) : fetch network h uri = fetchFile h uri := by
  rw [fetch, isLocal]
  rfl

theorem fetchReported_eq (network : Network) (h : Host) (uri : String) :
    ∃ reports, fetchReported network h uri = (reports, fetch network h uri) := by
  refine ⟨(fetchReported network h uri).1, Prod.ext rfl ?_⟩
  unfold fetchReported fetch
  split
  · exact fetchRemoteReported_snd network uri
  · exact fetchFileReported_snd h uri

/-- The files of a package's archive, as far as it can be fetched and opened. -/
def entries (plan : InstallPlan) (uri : String) (site : Site) :
    List (Except ArchiveError (String × Bytes)) :=
  match fetch site.network site.host (resolve plan.binaryRoot uri) with
  | .error _ => []
  | .ok bytes => (Archive.unpack bytes).toOption.getD []

/-- The names of the files that are put, one after another, until an entry or a put fails. -/
def namesPut {σ : Type} (put : σ → String → Bytes → Except SandboxError String × σ) :
    σ → List (Except ArchiveError (String × Bytes)) → List String
  | s, .ok (name, content) :: left =>
    match put s name content with
    | (.ok _, s') => name :: namesPut put s' left
    | (.error _, _) => []
  | _, _ => []

def putFile (plan : InstallPlan) (site : Site) (name : String) (content : Bytes) :
    Except SandboxError String × Site :=
  site.put (Package.target plan.dir name) content

/-- The names of the files that an install of some entries writes until it ends. -/
def written (plan : InstallPlan) : Site → List (Except ArchiveError (String × Bytes)) → List String :=
  namesPut (putFile plan)

/-- The host place at which a file of the given name is put. -/
def place? (plan : InstallPlan) (site : Site) (name : String) : Option (List String) :=
  (site.sandbox.components? (Package.target plan.dir name)).map (site.sandbox.base site.host ++ ·)

/-- A site after files with the given names are written: they are there, and no other file has
changed. -/
structure Filled (plan : InstallPlan) (site : Site) (names : List String) (site' : Site) :
    Prop where
  network : site'.network = site.network
  sandbox : site'.sandbox = site.sandbox
  workDir : site'.host.workDir = site.host.workDir
  changed : ∀ place, site'.host.fileAt place ≠ site.host.fileAt place →
    ∃ name ∈ names, place? plan site name = some place
  there : ∀ name ∈ names, ∃ place, place? plan site name = some place ∧
    (site'.host.fileAt place).isSome = true

variable {plan : InstallPlan} {uri name : String} {site site' : Site}
  {names target : List String}

private theorem filled_nothing (network : site'.network = site.network)
    (sandbox : site'.sandbox = site.sandbox) (same : site.host.SameFiles site'.host) :
    Filled plan site [] site' := by
  refine ⟨network, sandbox, same.workDir, ?_, nofun⟩
  intro place changed
  exact absurd (same.files place) changed

private theorem place?_congr (sandbox : site'.sandbox = site.sandbox)
    (workDir : site'.host.workDir = site.host.workDir) (name : String) :
    place? plan site' name = place? plan site name := by
  rw [place?, place?, Sandbox.base, Sandbox.base, sandbox, Host.placeOf_of_workDir workDir]

private theorem Filled.cons {site'' : Site} {name : String} {place : List String} {content : Bytes}
    (isPlace : place? plan site name = some place) (network : site'.network = site.network)
    (sandbox : site'.sandbox = site.sandbox)
    (wrote : site.host.Replaced place (some content) site'.host)
    (rest : Filled plan site' names site'') :
    Filled plan site (name :: names) site'' := by
  have same (name : String) : place? plan site' name = place? plan site name :=
    place?_congr sandbox wrote.workDir name
  refine ⟨rest.network.trans network, rest.sandbox.trans sandbox, rest.workDir.trans wrote.workDir, ?_, ?_⟩
  · intro other changed
    by_cases later : site''.host.fileAt other = site'.host.fileAt other
    · by_cases here : other = place
      · exact ⟨name, List.mem_cons_self, here ▸ isPlace⟩
      · exact absurd (later.trans (wrote.elsewhere other here)) changed
    · obtain ⟨next, hnext, isOther⟩ := rest.changed other later
      exact ⟨next, List.mem_cons_of_mem _ hnext, same next ▸ isOther⟩
  · have here : (site''.host.fileAt place).isSome = true := by
      by_cases later : site''.host.fileAt place = site'.host.fileAt place
      · rw [later, wrote.here]
        rfl
      · obtain ⟨next, hnext, isHere⟩ := rest.changed place later
        obtain ⟨other, isOther, there⟩ := rest.there next hnext
        cases isHere.symm.trans isOther
        exact there
    refine List.forall_mem_cons.mpr ⟨⟨place, isPlace, here⟩, ?_⟩
    intro next hnext
    obtain ⟨other, isOther, there⟩ := rest.there next hnext
    exact ⟨other, same next ▸ isOther, there⟩

private theorem repeated_succ {ι ω σ : Type} (step : Turns.Step ι ω σ) (n : Nat) (s : σ) (i : ι) :
    (Turns.repeated step (n + 1) s i).2.2 =
      (Turns.repeated step n (step s i).2.2 (step s i).1).2.2 := rfl

private theorem repeated_done (n : Nat) (site : Site) (result : InstallResult) :
    (Turns.repeated (Install.step plan) n site (.done uri result)).2.2 = site := by
  induction n with
  | zero => rfl
  | succ n ih => exact ih

theorem putFile_eq (plan : InstallPlan) (site : Site) (name : String) (content : Bytes) :
    putFile plan site name content =
      ((site.sandbox.put site.host (Package.target plan.dir name) content).1,
        { site with
          host := (site.sandbox.put site.host (Package.target plan.dir name) content).2 }) := by
  unfold putFile Site.put
  generalize site.sandbox.put site.host (Package.target plan.dir name) content = r
  obtain ⟨result, host⟩ := r
  rfl

section Steps

variable {σ : Type} {put : σ → String → Bytes → Except SandboxError String × σ} {t t' : σ}
  {name path : String} {content : Bytes} {e : SandboxError}

private theorem namesPut_ok (h : put t name content = (.ok path, t'))
    (left : List (Except ArchiveError (String × Bytes))) :
    namesPut put t (.ok (name, content) :: left) = name :: namesPut put t' left := by
  simp only [namesPut, h]

private theorem namesPut_error (h : put t name content = (.error e, t'))
    (left : List (Except ArchiveError (String × Bytes))) :
    namesPut put t (.ok (name, content) :: left) = [] := by
  simp only [namesPut, h]

theorem write_ok (h : putFile plan site name content = (.ok path, site'))
    (done : List String) (left : List (Except ArchiveError (String × Bytes))) :
    Install.write plan uri done site (.ok (name, content) :: left) =
      (.writing uri left (done ++ [path]), [], site') := by
  unfold putFile at h
  delta Install.write
  simp only [h]

theorem write_error (h : putFile plan site name content = (.error e, site'))
    (done : List String) (left : List (Except ArchiveError (String × Bytes))) :
    Install.write plan uri done site (.ok (name, content) :: left) =
      Install.fail uri (.sandbox e) [] site' := by
  unfold putFile at h
  delta Install.write
  simp only [h]

end Steps

private theorem filled_repeated (left : List (Except ArchiveError (String × Bytes)))
    (done : List String) (site : Site) :
    Filled plan site (written plan site left)
      (Turns.repeated (Install.step plan) (left.length + 1) site (.writing uri left done)).2.2 := by
  induction left generalizing done site with
  | nil => exact filled_nothing rfl rfl (.refl site.host)
  | cons entry left ih =>
    rw [List.length_cons, repeated_succ, Install.step]
    cases entry with
    | error e =>
      have ended : Install.write plan uri done site (.error e :: left) =
        Install.fail uri (.archive e) [] site := rfl
      rw [ended, Install.fail, Install.finish, repeated_done]
      exact filled_nothing rfl rfl (.refl site.host)
    | ok file =>
      obtain ⟨name, content⟩ := file
      have outcome := site.sandbox.put_cases site.host (Package.target plan.dir name) content
      have put := putFile_eq plan site name content
      generalize site.sandbox.put site.host (Package.target plan.dir name) content = r
        at outcome put
      obtain ⟨result, host⟩ := r
      dsimp only at put
      rcases outcome with ⟨e, rfl, same⟩ | ⟨parts, found, -, rfl, wrote⟩
      · have nothing : written plan site (.ok (name, content) :: left) = [] :=
          namesPut_error put left
        rw [nothing, write_error put, Install.fail, Install.finish, repeated_done]
        exact filled_nothing rfl rfl same
      · have more : written plan site (.ok (name, content) :: left) =
            name :: written plan { site with host := host } left := namesPut_ok put left
        rw [more, write_ok put]
        dsimp only
        have isPlace : place? plan site name =
            some (site.sandbox.base site.host ++ parts) := by
          rw [place?, found]
          rfl
        have rest := ih (done ++ [Sandbox.renderPath parts]) { site with host := host }
        have network : ({ site with host := host } : Site).network = site.network := rfl
        have sandbox : ({ site with host := host } : Site).sandbox = site.sandbox := rfl
        exact Filled.cons isPlace network sandbox wrote rest

private theorem install_site (plan : InstallPlan) (uri : String) (site : Site) :
    (Package.install plan uri site).2.2 = (Install.run plan site (.waiting uri)).2.2 := by
  unfold Package.install
  split <;> rename_i ran <;> rw [ran]

private theorem run_site {i i' : Install} {events : List Event}
    (h : Install.step plan site i = (i', events, site')) :
    (Install.run plan site i).2.2 =
      (Turns.repeated (Install.step plan) i'.stepsLeft site' i').2.2 := by
  rw [Install.run, h]

private theorem fetch_cases (plan : InstallPlan) (uri : String) (site : Site) :
    ∃ events, (∃ cause, entries plan uri site = [] ∧
        Install.fetch plan uri site = Install.fail uri cause events site) ∨
      Install.fetch plan uri site = (.writing uri (entries plan uri site) [], events, site) := by
  obtain ⟨reports, fetched⟩ :=
    fetchReported_eq site.network site.host (resolve plan.binaryRoot uri)
  unfold Install.fetch entries
  rw [fetched]
  cases fetch site.network site.host (resolve plan.binaryRoot uri) with
  | error e => exact ⟨_, Or.inl ⟨.fetch e, rfl, rfl⟩⟩
  | ok bytes =>
    dsimp only
    cases Archive.unpack bytes with
    | error e => exact ⟨_, Or.inl ⟨.archive e, rfl, rfl⟩⟩
    | ok files => exact ⟨_, Or.inr rfl⟩

theorem filled_install (plan : InstallPlan) (uri : String) (site : Site) :
    Filled plan site (written plan site (entries plan uri site))
      (Package.install plan uri site).2.2 := by
  have started : Install.step plan site (.waiting uri) = Install.fetch plan uri site := rfl
  rw [install_site]
  obtain ⟨events, ⟨cause, none, failed⟩ | begun⟩ := fetch_cases plan uri site
  · rw [run_site (started.trans failed), none]
    exact filled_nothing rfl rfl (.refl site.host)
  · rw [run_site (started.trans begun)]
    exact filled_repeated (entries plan uri site) [] site

private theorem exists_of_mem_namesPut {σ : Type}
    {put : σ → String → Bytes → Except SandboxError String × σ}
    (left : List (Except ArchiveError (String × Bytes))) (t : σ) (h : name ∈ namesPut put t left) :
    ∃ content, .ok (name, content) ∈ left := by
  induction left generalizing t with
  | nil => cases h
  | cons entry left ih =>
    cases entry with
    | error e => cases h
    | ok file =>
      obtain ⟨first, content⟩ := file
      cases outcome : put t first content with
      | mk result t' =>
        cases result with
        | error e =>
          rw [namesPut_error outcome] at h
          cases h
        | ok path =>
          rw [namesPut_ok outcome] at h
          rcases List.mem_cons.mp h with rfl | later
          · exact ⟨content, List.mem_cons_self⟩
          · obtain ⟨content, there⟩ := ih t' later
            exact ⟨content, List.mem_cons_of_mem _ there⟩

private theorem safe_of_extract {archive content : Bytes} {m : Archive.Member}
    (h : Archive.extract archive m = some (.ok (name, content))) :
    Archive.isSafeName m.name = true ∧ name = Archive.slashed m.name := by
  unfold Archive.extract at h
  split at h
  · cases h
  split at h
  · cases h
  rename_i data found
  split at h
  · cases h
  split at h
  · cases h
  split at h
  · cases h
  split at h
  · rename_i safe
    refine ⟨safe, ?_⟩
    cases opened : Archive.contents m (Archive.slashed m.name) data with
    | error e =>
      simp only [opened] at h
      cases h
    | ok body =>
      simp only [opened] at h
      cases h
      rfl
  · cases h

/-- Every name of a package's files stands in the archive under a safe spelling, with backslashes or
slashes. -/
private theorem safe_of_mem_entries {content : Bytes}
    (h : .ok (name, content) ∈ entries plan uri site) :
    ∃ stored, Archive.isSafeName stored = true ∧ name = Archive.slashed stored := by
  unfold entries at h
  split at h
  · cases h
  rename_i bytes fetched
  unfold Archive.unpack at h
  split at h
  · cases h
  rename_i members opened
  obtain ⟨m, -, extracted⟩ := List.mem_filterMap.mp h
  exact ⟨m.name, safe_of_extract extracted⟩

/--
An install changes no files but the ones that it writes, and each of these lies below the target
directory exactly if its name, with slashes for the backslashes that it has in the archive, leads
there.
-/
theorem install_writes_below_iff (plan : InstallPlan) (uri : String) (site : Site)
    (defined : site.sandbox.components? (dropStartSlashes plan.dir) = some target) :
    let names := written plan site (entries plan uri site)
    let host := (Package.install plan uri site).2.2.host
    (∀ place, host.fileAt place ≠ site.host.fileAt place →
      ∃ name ∈ names, place? plan site name = some place) ∧
    ∀ name ∈ names,
      (∃ stored, Archive.isSafeName stored = true ∧ name = Archive.slashed stored) ∧
      ∃ place, place? plan site name = some place ∧ (host.fileAt place).isSome = true ∧
        (Below (site.sandbox.base site.host ++ target) place ↔
          LeadsBelow target plan.dir name) := by
  intro names host
  have filled := filled_install plan uri site
  refine ⟨filled.changed, ?_⟩
  intro name hname
  constructor
  · obtain ⟨content, there⟩ := exists_of_mem_namesPut _ _ hname
    exact safe_of_mem_entries there
  · obtain ⟨place, isPlace, there⟩ := filled.there name hname
    obtain ⟨parts, found, rfl⟩ := Option.map_eq_some_iff.mp isPlace
    refine ⟨_, isPlace, there, ?_⟩
    rw [below_append_iff]
    exact below_iff_leadsBelow defined found

/-- An archive with a single file, two bytes under the name of two dots, a backslash and an x. -/
def escaping : Bytes :=
  [0x50, 0x4b, 0x03, 0x04, 0x14, 0x00, 0x00, 0x00, 0x00, 0x00, 0x00, 0x00, 0x21, 0x00, 0xac, 0x2a,
   0x93, 0xd8, 0x02, 0x00, 0x00, 0x00, 0x02, 0x00, 0x00, 0x00, 0x04, 0x00, 0x00, 0x00, 0x2e, 0x2e,
   0x5c, 0x78, 0x68, 0x69, 0x50, 0x4b, 0x01, 0x02, 0x14, 0x03, 0x14, 0x00, 0x00, 0x00, 0x00, 0x00,
   0x00, 0x00, 0x21, 0x00, 0xac, 0x2a, 0x93, 0xd8, 0x02, 0x00, 0x00, 0x00, 0x02, 0x00, 0x00, 0x00,
   0x04, 0x00, 0x00, 0x00, 0x00, 0x00, 0x00, 0x00, 0x00, 0x00, 0x00, 0x00, 0x80, 0x01, 0x00, 0x00,
   0x00, 0x00, 0x2e, 0x2e, 0x5c, 0x78, 0x50, 0x4b, 0x05, 0x06, 0x00, 0x00, 0x00, 0x00, 0x01, 0x00,
   0x01, 0x00, 0x32, 0x00, 0x00, 0x00, 0x24, 0x00, 0x00, 0x00, 0x00, 0x00]

def escapingSite : Site :=
  .new .unreachable ⟨.directory [("vfs", .directory []), ("p", .file escaping)], []⟩ ⟨"/vfs", "/lib"⟩

theorem install_writes_below_iff_escaping :
    let plan : InstallPlan := ⟨"", "pkg"⟩
    "../x" ∈ written plan escapingSite (entries plan "/p" escapingSite) ∧
    ∃ place, place? plan escapingSite "../x" = some place ∧
      ¬ Below ["vfs", "lib", "pkg"] place := by
  intro plan
  have writes : "../x" ∈ written plan escapingSite (entries plan "/p" escapingSite) := by
    decide +kernel
  have defined : escapingSite.sandbox.components? (dropStartSlashes plan.dir) =
      some ["lib", "pkg"] := by decide +kernel
  have top : escapingSite.sandbox.base escapingSite.host ++ ["lib", "pkg"] =
      ["vfs", "lib", "pkg"] := by decide +kernel
  obtain ⟨-, each⟩ := install_writes_below_iff plan "/p" escapingSite defined
  obtain ⟨-, place, isPlace, -, lies⟩ := each "../x" writes
  rw [top] at lies
  have leaves : ¬ LeadsBelow ["lib", "pkg"] plan.dir "../x" := by decide +kernel
  exact ⟨writes, place, isPlace, fun below => leaves (lies.mp below)⟩

/-- That file is new, though the target directory is defined and the file is not below it. -/
theorem install_writes_outside :
    let plan : InstallPlan := ⟨"", "pkg"⟩
    let host := (Package.install plan "/p" escapingSite).2.2.host
    escapingSite.sandbox.components? (dropStartSlashes plan.dir) = some ["lib", "pkg"] ∧
    escapingSite.host.fileAt ["vfs", "lib", "x"] = none ∧
    host.fileAt ["vfs", "lib", "x"] = some [104, 105] ∧
    ¬ Below (escapingSite.sandbox.base escapingSite.host ++ ["lib", "pkg"]) ["vfs", "lib", "x"] := by
  refine ⟨?_, ?_, ?_, ?_⟩ <;> decide +kernel

end ProofHost.Package
