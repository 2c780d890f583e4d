import ProofHost.Proofs.Package.Batch
import ProofHost.Proofs.Package.Containment
import ProofHost.Proofs.Sandbox.Repetition

/-!
Packages that are installed twice. An install that succeeds has put all files of the archive, one
after another; the same archive can then be installed again, which gives the same paths and changes
no file.
-/

set_option autoImplicit false

namespace ProofHost.Package

variable {plan : InstallPlan} {uri : String} {site : Site} {paths : List String} {h' : Host}

/-- An install has ended well with the given paths, and left the given host. -/
def EndsWell (o : Install.Outcome) (paths : List String) (h' : Host) : Prop :=
  o.1.result? = some (.ok paths) ∧ o.2.2.host = h'

private theorem endsWell_succ (n : Nat) (site : Site) (i : Install) :
    EndsWell (Turns.repeated (Install.step plan) (n + 1) site i) paths h' ↔
      EndsWell (Turns.repeated (Install.step plan) n (Install.step plan site i).2.2
        (Install.step plan site i).1) paths h' := Iff.rfl

private theorem endsWell_run_iff (site : Site) (i : Install) :
    EndsWell (Install.run plan site i) paths h' ↔
      EndsWell (Turns.repeated (Install.step plan) (Install.step plan site i).1.stepsLeft
        (Install.step plan site i).2.2 (Install.step plan site i).1) paths h' := Iff.rfl

private theorem endsWell_done_iff (n : Nat) (site : Site) (result : InstallResult) :
    EndsWell (Turns.repeated (Install.step plan) n site (.done uri result)) paths h' ↔
      result = .ok paths ∧ site.host = h' := by
  have idle : Turns.Idle (Install.step plan) (.done uri result) := fun _ => rfl
  rw [Turns.repeated_of_idle idle, EndsWell, Install.result?, Option.some.injEq]

/-- The files of an archive at the paths at which an install puts them. -/
def targets (plan : InstallPlan) (files : List (String × Bytes)) : List (String × Bytes) :=
  files.map fun file => (target plan.dir file.1, file.2)

private theorem endsWell_writing_iff (left : List (Except ArchiveError (String × Bytes)))
    (done : List String) (site : Site) :
    EndsWell (Turns.repeated (Install.step plan) (left.length + 1) site (.writing uri left done))
        paths h' ↔
      ∃ files writes, left = files.map .ok ∧ paths = done ++ writes.map Prod.fst ∧
        site.sandbox.Puts site.host (targets plan files) writes h' := by
  induction left generalizing done site with
  | nil =>
    have ended : Install.step plan site (.writing uri [] done) =
      Install.finish uri (.ok done) [] site := rfl
    rw [endsWell_succ, ended, Install.finish, endsWell_done_iff]
    constructor
    · rintro ⟨⟨⟩, rfl⟩
      exact ⟨[], [], rfl, (List.append_nil _).symm, .nil _⟩
    · rintro ⟨files, writes, none, rfl, puts⟩
      obtain rfl := List.map_eq_nil_iff.mp none.symm
      cases puts
      rw [List.map_nil, List.append_nil]
      exact ⟨rfl, rfl⟩
  | cons entry left ih =>
    have written : Install.step plan site (.writing uri (entry :: left) done) =
      Install.write plan uri done site (entry :: left) := rfl
    rw [endsWell_succ, written]
    cases entry with
    | error e =>
      have failed : Install.write plan uri done site (.error e :: left) =
        Install.fail uri (.archive e) [] site := rfl
      rw [failed, Install.fail, Install.finish, List.length_cons, endsWell_done_iff]
      refine iff_of_false (by rintro ⟨⟨⟩, -⟩) ?_
      rintro ⟨files, writes, all, -⟩
      cases files <;> cases all
    | ok file =>
      obtain ⟨name, content⟩ := file
      have put := putFile_eq plan site name content
      cases outcome : site.sandbox.put site.host (target plan.dir name) content with
      | mk answer host =>
        rw [outcome] at put
        cases answer with
        | error e =>
          rw [write_error put, Install.fail, Install.finish, List.length_cons, endsWell_done_iff]
          refine iff_of_false (by rintro ⟨⟨⟩, -⟩) ?_
          rintro ⟨files, writes, all, -, puts⟩
          obtain ⟨file, files, rfl, ⟨⟩, rfl⟩ := List.map_eq_cons_iff.mp all.symm
          obtain ⟨v, h', rest, first, -⟩ := Sandbox.puts_cons_iff.mp puts
          cases outcome.symm.trans first
        | ok path =>
          rw [write_ok put, List.length_cons, ih]
          constructor
          · rintro ⟨files, writes, rfl, rfl, puts⟩
            exact ⟨(name, content) :: files, (path, content) :: writes, rfl,
              (List.append_cons _ _ _).symm, .cons outcome puts⟩
          · rintro ⟨files, writes, all, rfl, puts⟩
            obtain ⟨file, files, rfl, ⟨⟩, rfl⟩ := List.map_eq_cons_iff.mp all.symm
            obtain ⟨v, h', rest, first, rfl, later⟩ := Sandbox.puts_cons_iff.mp puts
            cases outcome.symm.trans first
            exact ⟨files, rest, rfl, List.append_cons _ _ _, later⟩

private theorem endsWell_install_iff :
    (install plan uri site).1 = .ok paths ∧ (install plan uri site).2.2.host = h' ↔
      EndsWell (Install.run plan site (.waiting uri)) paths h' := by
  have ended := Install.over_run plan site (.waiting uri)
  unfold install
  generalize Install.run plan site (.waiting uri) = o at ended ⊢
  obtain ⟨i, events, site'⟩ := o
  cases i with
  | waiting uri => cases ended
  | writing uri left done => cases ended
  | done uri result =>
    rw [EndsWell, Install.result?, Option.some.injEq]

/-- An install ends well exactly if its archive can be fetched and opened, every entry is a file,
and all files can be put. -/
private theorem install_ok_iff :
    (install plan uri site).1 = .ok paths ∧ (install plan uri site).2.2.host = h' ↔
      ∃ bytes files writes,
        fetch site.network site.host (resolve plan.binaryRoot uri) = .ok bytes ∧
        Archive.unpack bytes = .ok (files.map .ok) ∧ paths = writes.map Prod.fst ∧
        site.sandbox.Puts site.host (targets plan files) writes h' := by
  obtain ⟨reports, fetched⟩ :=
    fetchReported_eq site.network site.host (resolve plan.binaryRoot uri)
  have first : Install.step plan site (.waiting uri) = Install.fetch plan uri site := rfl
  rw [endsWell_install_iff, endsWell_run_iff, first]
  unfold Install.fetch
  rw [fetched]
  cases fetch site.network site.host (resolve plan.binaryRoot uri) with
  | error e =>
    simp only [Install.fail, Install.finish]
    rw [endsWell_done_iff]
    exact iff_of_false (by rintro ⟨⟨⟩, -⟩) (by rintro ⟨bytes, files, writes, ⟨⟩, -⟩)
  | ok bytes =>
    simp only
    cases opened : Archive.unpack bytes with
    | error e =>
      simp only [Install.fail, Install.finish]
      rw [endsWell_done_iff]
      refine iff_of_false (by rintro ⟨⟨⟩, -⟩) ?_
      rintro ⟨bytes, files, writes, ⟨⟩, found, -⟩
      cases opened.symm.trans found
    | ok left =>
      simp only [Install.stepsLeft]
      rw [endsWell_writing_iff]
      constructor
      · rintro ⟨files, writes, rfl, rfl, puts⟩
        exact ⟨bytes, files, writes, rfl, opened, rfl, puts⟩
      · rintro ⟨bytes, files, writes, ⟨⟩, found, rfl, puts⟩
        cases opened.symm.trans found
        exact ⟨files, writes, rfl, rfl, puts⟩

theorem fetchFile_eq_ok_iff {h : Host} {bytes : Bytes} :
    fetchFile h uri = .ok bytes ↔ h.stat (localPath uri) = .ok (.file bytes) := by
  rw [← Host.read_eq_ok_iff, fetchFile]
  cases h.read (localPath uri) with
  | error e => exact iff_of_false (by rintro ⟨⟩) (by rintro ⟨⟩)
  | ok bytes' => rw [Except.mapError, Except.ok.injEq, Except.ok.injEq]

private theorem fetchFile_again {h k : Host} {bytes : Bytes} (keeps : h.Keeps k)
    (same : k.fileAt (h.placeOf (localPath uri)) = h.fileAt (h.placeOf (localPath uri)))
    (fetched : fetchFile h uri = .ok bytes) : fetchFile k uri = .ok bytes := by
  have origin : k.origin (localPath uri) = h.origin (localPath uri) := by
    rw [Host.origin, Host.origin, keeps.workDir]
  obtain ⟨checked, follow, there, wants⟩ := Host.stat_file_iff.mp (fetchFile_eq_ok_iff.mp fetched)
  rw [fetchFile_eq_ok_iff, Host.stat_file_iff, Host.placeOf_of_workDir keeps.workDir, origin]
  refine ⟨checked, Host.follow_of_directories keeps.directories follow, ?_, wants⟩
  exact Node.fileAt_eq_some_iff.mp (same.trans (Node.fileAt_eq_some_iff.mpr there))

private theorem fetch_again {network : Network} {h k : Host} {bytes : Bytes} (keeps : h.Keeps k)
    (same : isRemote uri = true ∨
      k.fileAt (h.placeOf (localPath uri)) = h.fileAt (h.placeOf (localPath uri)))
    (fetched : fetch network h uri = .ok bytes) : fetch network k uri = .ok bytes := by
  cases remote : isRemote uri with
  | true =>
    rw [fetch, if_pos remote] at fetched ⊢
    exact fetched
  | false =>
    rw [remote] at same
    rw [fetch_of_local _ _ remote] at fetched ⊢
    exact fetchFile_again keeps (same.resolve_left Bool.false_ne_true) fetched

/--
After an install that succeeds, each path that it gives holds what the archive's last file for it
has, and no file at another place has changed. The same archive, wherever it is now, can be
installed again at once; that gives the same paths and changes no file. It is still at its own
address unless that is a file which the install has replaced.
-/
theorem install_again (installed : (install plan uri site).1 = .ok paths) :
    ∃ bytes files writes,
      fetch site.network site.host (resolve plan.binaryRoot uri) = .ok bytes ∧
      Archive.unpack bytes = .ok (files.map .ok) ∧
      List.Forall₂ (fun file write =>
        site.sandbox.virtualPath (target plan.dir file.1) = .ok write.1 ∧ write.2 = file.2)
        files writes ∧
      paths = writes.map Prod.fst ∧
      let after := (install plan uri site).2.2
      let address := resolve plan.binaryRoot uri
      let archive := site.host.placeOf (localPath address)
      (∀ path ∈ paths, ∃ content, Sandbox.lastWritten writes path = some content ∧
        after.sandbox.get after.host path = .ok (some content)) ∧
      (∀ place, after.host.fileAt place ≠ site.host.fileAt place →
        ∃ path ∈ paths, site.sandbox.placeOf? site.host path = some place) ∧
      (∀ uri', fetch after.network after.host (resolve plan.binaryRoot uri') = .ok bytes →
        (install plan uri' after).1 = .ok paths ∧
          ∀ place, (install plan uri' after).2.2.host.fileAt place = after.host.fileAt place) ∧
      (isRemote address = true ∨ after.host.fileAt archive = site.host.fileAt archive →
        fetch after.network after.host address = .ok bytes) := by
  obtain ⟨bytes, files, writes, fetched, opened, rfl, puts⟩ := install_ok_iff.mp ⟨installed, rfl⟩
  have filled := filled_install plan uri site
  have sandbox := filled.sandbox
  refine ⟨bytes, files, writes, fetched, opened, ?_, rfl, ?_, ?_, ?_, ?_⟩
  · have all := puts.forall₂
    simp only [targets, List.forall₂_map_left_iff] at all
    exact all
  · intro path there
    obtain ⟨content, last⟩ := Sandbox.exists_lastWritten there
    rw [sandbox, puts.get there, last]
    exact ⟨content, rfl, rfl⟩
  · exact fun place changed => puts.written_of_changed changed
  · intro uri' fetched'
    obtain ⟨k, again⟩ := puts.again (.refl _)
    rw [← sandbox] at again
    have result := install_ok_iff.mpr ⟨bytes, files, writes, fetched', opened, rfl, again⟩
    refine ⟨result.1, fun place => ?_⟩
    rw [result.2]
    rw [sandbox] at again
    exact puts.fileAt_again again place
  · intro same
    rw [filled.network]
    exact fetch_again puts.keeps same fetched

/-- An archive in which a name comes first with one byte and then, after a dot and a slash, with
two. -/
def aliasing : Bytes :=
  [0x50, 0x4b, 0x03, 0x04, 0x14, 0x00, 0x00, 0x00, 0x00, 0x00, 0x00, 0x00, 0x21, 0x00, 0x83, 0x16,
   0xdc, 0x8c, 0x01, 0x00, 0x00, 0x00, 0x01, 0x00, 0x00, 0x00, 0x01, 0x00, 0x00, 0x00, 0x61, 0x78,
   0x50, 0x4b, 0x03, 0x04, 0x14, 0x00, 0x00, 0x00, 0x00, 0x00, 0x00, 0x00, 0x21, 0x00, 0x62, 0x48,
   0xf4, 0x0f, 0x02, 0x00, 0x00, 0x00, 0x02, 0x00, 0x00, 0x00, 0x03, 0x00, 0x00, 0x00, 0x2e, 0x2f,
   0x61, 0x79, 0x7a, 0x50, 0x4b, 0x01, 0x02, 0x14, 0x03, 0x14, 0x00, 0x00, 0x00, 0x00, 0x00, 0x00,
   0x00, 0x21, 0x00, 0x83, 0x16, 0xdc, 0x8c, 0x01, 0x00, 0x00, 0x00, 0x01, 0x00, 0x00, 0x00, 0x01,
   0x00, 0x00, 0x00, 0x00, 0x00, 0x00, 0x00, 0x00, 0x00, 0x00, 0x00, 0x80, 0x01, 0x00, 0x00, 0x00,
   0x00, 0x61, 0x50, 0x4b, 0x01, 0x02, 0x14, 0x03, 0x14, 0x00, 0x00, 0x00, 0x00, 0x00, 0x00, 0x00,
   0x21, 0x00, 0x62, 0x48, 0xf4, 0x0f, 0x02, 0x00, 0x00, 0x00, 0x02, 0x00, 0x00, 0x00, 0x03, 0x00,
   0x00, 0x00, 0x00, 0x00, 0x00, 0x00, 0x00, 0x00, 0x00, 0x00, 0x80, 0x01, 0x20, 0x00, 0x00, 0x00,
   0x2e, 0x2f, 0x61, 0x50, 0x4b, 0x05, 0x06, 0x00, 0x00, 0x00, 0x00, 0x02, 0x00, 0x02, 0x00, 0x60,
   0x00, 0x00, 0x00, 0x43, 0x00, 0x00, 0x00, 0x00, 0x00]

def aliasingSite : Site :=
  .new .unreachable ⟨.directory [("vfs", .directory []), ("p", .file aliasing)], []⟩ ⟨"/vfs", "/lib"⟩

theorem install_again_aliasing :
    let plan : InstallPlan := ⟨"", "pkg"⟩
    let after := (install plan "/p" aliasingSite).2.2
    (install plan "/p" aliasingSite).1 = .ok ["/lib/pkg/a", "/lib/pkg/a"] ∧
      after.host.fileAt ["vfs", "lib", "pkg", "a"] = some [0x79, 0x7a] ∧
      (install plan "/p" after).1 = .ok ["/lib/pkg/a", "/lib/pkg/a"] ∧
      ∀ place, (install plan "/p" after).2.2.host.fileAt place = after.host.fileAt place := by
  intro plan after
  have installed : (install plan "/p" aliasingSite).1 = .ok ["/lib/pkg/a", "/lib/pkg/a"] := by
    decide +kernel
  have last : after.host.fileAt ["vfs", "lib", "pkg", "a"] = some [0x79, 0x7a] := by
    decide +kernel
  have archive : after.host.fileAt ["p"] = aliasingSite.host.fileAt ["p"] := by decide +kernel
  obtain ⟨bytes, files, writes, -, -, -, -, -, -, again, stays⟩ := install_again installed
  have place : aliasingSite.host.placeOf (localPath (resolve plan.binaryRoot "/p")) = ["p"] := by
    decide +kernel
  rw [place] at stays
  obtain ⟨result, files⟩ := again "/p" (stays (Or.inr archive))
  exact ⟨installed, last, result, files⟩

end ProofHost.Package
