import ProofHost.Proofs.Interrupt
import ProofHost.Proofs.Sandbox.Calls

/-!
Attachments that fail. A marker is written before it takes the place of the one that is attached,
and the file of that one is removed after: a failure of the first leaves the channel alone, and a
failure of the second comes when the new marker is in its place already.
-/

set_option autoImplicit false

namespace ProofHost

namespace Sandbox

variable {s : Sandbox} {h : Host} {path : String} {parts : List String} {e : SandboxError}

private theorem remove_error_host (failed : (s.remove h path).1 = .error e) :
    (s.remove h path).2 = h := by
  unfold remove at failed ⊢
  split
  · rfl
  · rename_i host resolved
    rw [resolved] at failed
    cases removed : h.remove host with
    | ok h' => simp [removed] at failed
    | error cause => cases cause <;> rfl

private theorem get_of_remove_error (found : s.components? path = some parts)
    (failed : (s.remove h path).1 = .error e) : s.get h path = .ok none := by
  rw [get_eq_stat found]
  cases there : h.stat (Text.Path.below s.root (Text.Path.join parts)) with
  | error cause => rfl
  | ok node =>
    cases node with
    | directory entries => rfl
    | file content =>
      obtain ⟨h', removed⟩ := Host.remove_isOk_iff.mpr ⟨content, there⟩
      rw [remove_of_removed found removed] at failed
      cases failed

end Sandbox

namespace Site

variable {site later : Site} {path v old : String} {e : SandboxError}

/-- What comes of a site when the flag is set, cleared and taken and others work on the host, and no
marker is attached. -/
inductive Later (site : Site) : Site → Prop
  | now : Later site site
  | set {later : Site} (past : Later site later) : Later site later.setInterrupt
  | clear {later : Site} (past : Later site later) : Later site later.clearInterrupt
  | take {later : Site} (past : Later site later) : Later site later.takeInterrupt.2
  | others {later : Site} (past : Later site later) (host : Host) :
    Later site { later with host := host }

/-- The site once the flag is set or not and a marker shows it. -/
def shown (site : Site) (marker : Option String) (isSet : Bool) : Site :=
  match marker with
  | none => site.withFlag isSet
  | some v => ((site.withFlag isSet).writeMarker v isSet).2

/-- The flag is shown by a marker, or by none: its path is told, and each signal goes to its
file. -/
structure ShowsBy (site : Site) (marker : Option String) : Prop where
  told : site.markerPath = marker.bind fun v => (site.sandbox.resolve v).toOption
  set : site.setInterrupt = site.shown marker true
  clear : site.clearInterrupt = site.shown marker false

private theorem showsBy_marker (site : Site) : site.ShowsBy site.interrupt.marker := by
  refine ⟨rfl, ?_, ?_⟩
  all_goals
    cases attached : site.interrupt.marker with
    | none => simp [setInterrupt, clearInterrupt, showFlag, shown, withFlag, attached]
    | some v => simp [setInterrupt, clearInterrupt, showFlag, shown, withFlag, attached]

private theorem Later.marker (past : site.Later later) :
    later.interrupt.marker = site.interrupt.marker := by
  induction past with
  | now => rfl
  | set _ ih => rw [setInterrupt, showFlag_interrupt, ← ih]
  | clear _ ih => rw [clearInterrupt, showFlag_interrupt, ← ih]
  | take _ ih =>
    unfold takeInterrupt
    split
    · rw [showFlag_interrupt, ← ih]
    · exact ih
  | others _ host ih => exact ih

private theorem Later.showsBy (past : site.Later later) : later.ShowsBy site.interrupt.marker :=
  past.marker ▸ later.showsBy_marker

/-- The marker is written, and another one is attached whose file is to go. -/
def Replaces (site : Site) (path v old : String) : Prop :=
  site.sandbox.virtualPath path = .ok v ∧ (site.writeMarker v site.interrupt.isSet).1 = .ok () ∧
    site.interrupt.marker = some old ∧ old ≠ v

private theorem writeMarker_false_error (failed : (site.writeMarker path false).1 = .error e) :
    (site.sandbox.remove site.host path).1 = .error e ∧ (site.writeMarker path false).2 = site := by
  rw [writeMarker_false] at failed ⊢
  cases removed : (site.sandbox.remove site.host path).1 with
  | ok was =>
    simp only [removed, Except.map] at failed
    cases failed
  | error e' =>
    simp only [removed, Except.map] at failed
    cases failed
    refine ⟨rfl, ?_⟩
    change { site with host := (site.sandbox.remove site.host path).2 } = site
    rw [Sandbox.remove_error_host removed]

private theorem attachMarker_failed_cases (failed : (site.attachMarker path).1 = .error e) :
    ((site.attachMarker path).2.interrupt = site.interrupt ∧
        ∀ v, site.sandbox.virtualPath path = .ok v →
          (site.writeMarker v site.interrupt.isSet).1 = .error e) ∨
      ∃ v old, site.sandbox.virtualPath path = .ok v ∧
        (site.writeMarker v site.interrupt.isSet).1 = .ok () ∧ site.interrupt.marker = some old ∧
          ((site.withMarker v).writeMarker old false).1 = .error e ∧
          (site.attachMarker path).2 = site.withMarker v := by
  unfold attachMarker at failed ⊢
  cases found : site.sandbox.virtualPath path with
  | error e' => exact Or.inl ⟨rfl, nofun⟩
  | ok v =>
    simp only [found] at failed ⊢
    cases wrote : site.writeMarker v site.interrupt.isSet with
    | mk result site' =>
      have kept : site'.interrupt = site.interrupt := by
        simpa only [wrote] using writeMarker_interrupt site v site.interrupt.isSet
      simp only [wrote] at failed ⊢
      cases result with
      | error e' =>
        cases failed
        refine Or.inl ⟨kept, fun v' same => ?_⟩
        cases same
        rw [wrote]
      | ok done =>
        have attached : site.withMarker v =
            { site' with interrupt := { site'.interrupt with marker := some v } } := by
          rw [withMarker, wrote]
        simp only [← attached] at failed ⊢
        cases before : site.interrupt.marker with
        | none =>
          rw [before] at failed
          cases failed
        | some old =>
          rw [before] at failed
          exact Or.inr ⟨v, old, rfl, by rw [wrote], rfl, failed, (writeMarker_false_error failed).2⟩

private theorem attachMarker_sandbox (site : Site) (path : String) :
    (site.attachMarker path).2.sandbox = site.sandbox := by
  unfold attachMarker
  split
  · rfl
  · rename_i v found
    have wrote := writeMarker_sandbox site v site.interrupt.isSet
    split
    · rename_i e site' failed
      rwa [failed] at wrote
    · rename_i done site' failed
      rw [failed] at wrote
      split
      · exact wrote
      · rw [writeMarker_sandbox]
        exact wrote

private theorem Replaces.halfway (replaces : site.Replaces path v old)
    (failed : (site.attachMarker path).1 = .error e) :
    (site.attachMarker path).2 = site.withMarker v ∧
      ((site.withMarker v).writeMarker old false).1 = .error e := by
  obtain ⟨found, wrote, attached, -⟩ := replaces
  rcases attachMarker_failed_cases failed with
    ⟨-, refused⟩ | ⟨v', old', found', -, attached', removal, halfway⟩
  · cases wrote.symm.trans (refused v found)
  · cases found.symm.trans found'
    cases attached.symm.trans attached'
    exact ⟨halfway, removal⟩

private theorem interrupt_kept_iff (failed : (site.attachMarker path).1 = .error e) :
    (site.attachMarker path).2.interrupt = site.interrupt ↔ ¬ ∃ v old, site.Replaces path v old := by
  constructor
  · rintro kept ⟨v, old, replaces⟩
    rw [(replaces.halfway failed).1, withMarker_interrupt] at kept
    have same : old = v := by
      obtain ⟨-, -, attached, -⟩ := replaces
      rw [← kept] at attached
      exact (Option.some.inj attached).symm
    exact replaces.2.2.2 same
  · intro none
    rcases attachMarker_failed_cases failed with
      ⟨kept, -⟩ | ⟨v, old, found, wrote, attached, -, halfway⟩
    · exact kept
    · have same : old = v := not_not.mp fun ne => none ⟨v, old, found, wrote, attached, ne⟩
      rw [halfway, withMarker_interrupt, ← same, ← attached]

private theorem Replaces.files (replaces : site.Replaces path v old)
    (failed : (site.attachMarker path).1 = .error e) (stands : site.sandbox.Stands site.host)
    (spelled : site.sandbox.Spelled old) :
    site.sandbox.get (site.withMarker v).host v = .ok (markerFile site.interrupt.isSet) ∧
      site.sandbox.get (site.withMarker v).host old = .ok none := by
  have itself := Sandbox.spelled_of_virtualPath replaces.1
  constructor
  · rw [withMarker_host, get_writeMarker stands itself replaces.2.1 itself, if_pos rfl]
  · obtain ⟨parts, components, -⟩ := spelled
    have removal := (writeMarker_false_error (replaces.halfway failed).2).1
    rw [withMarker_sandbox] at removal
    exact Sandbox.get_of_remove_error components removal

/--
An attachment that fails leaves the channel as it was, and every later signal goes to the marker
attached before, unless the new marker is written and it is the removal of the file of another one
that fails. Then the channel is as after an attachment that does not fail: the new marker is told,
every later signal goes to it, it shows the flag, and the other one has no file.
-/
theorem failed_attachment_keeps_channel_iff (failed : (site.attachMarker path).1 = .error e) :
    let left := (site.attachMarker path).2
    ((left.interrupt = site.interrupt ∧ left.markerPath = site.markerPath ∧
        ∀ later, left.Later later → later.ShowsBy site.interrupt.marker) ↔
      ¬ ∃ v old, site.Replaces path v old) ∧
    ∀ v old, site.Replaces path v old →
      left = site.withMarker v ∧ (left.sandbox.remove left.host old).1 = .error e ∧
        (∀ later, left.Later later → later.ShowsBy (some v)) ∧
        (site.sandbox.Stands site.host → site.sandbox.Spelled old →
          left.sandbox.get left.host v = .ok (markerFile site.interrupt.isSet) ∧
            left.sandbox.get left.host old = .ok none) := by
  intro left
  have sandbox : left.sandbox = site.sandbox := attachMarker_sandbox site path
  constructor
  · rw [← interrupt_kept_iff failed]
    refine ⟨And.left, fun kept => ⟨kept, ?_, fun later past => ?_⟩⟩
    · rw [markerPath, markerPath, sandbox, kept]
    · rw [← kept]
      exact past.showsBy
  · intro v old replaces
    obtain ⟨halfway, removal⟩ := replaces.halfway failed
    have attached : left.interrupt.marker = some v := by
      rw [show left = site.withMarker v from halfway, withMarker_interrupt]
    refine ⟨halfway, ?_, fun later past => ?_, fun stands spelled => ?_⟩
    · rw [show left = site.withMarker v from halfway]
      exact (writeMarker_false_error removal).1
    · rw [← attached]
      exact past.showsBy
    · rw [sandbox, show left = site.withMarker v from halfway]
      exact replaces.files failed stands spelled

/-- A site with a marker attached below a name that came to be that of a file. -/
def blocked : Site :=
  (((Site.new .unreachable Watch.emptyHost ⟨"/vfs", "/lib"⟩).attachMarker "/a/m").2.put "/a"
    [120]).2

private theorem stands_blocked : blocked.sandbox.Stands blocked.host := by
  have attached := Watch.runs_empty.signal (.attach "/a/m") (by unfold Works; decide +kernel)
  have put : (((Site.new .unreachable Watch.emptyHost
      ⟨"/vfs", "/lib"⟩).attachMarker "/a/m").2.put "/a" [120]).1 = .ok "/a" := by
    decide +kernel
  have found : (⟨"/vfs", "/lib"⟩ : Sandbox).components? "/a" = some ["a"] := by decide +kernel
  exact (Sandbox.stored_put attached.sound.stands found put).stands

/-- A path that leads above the sandbox leaves the marker; one that is written takes its place. -/
theorem failed_attachment_keeps_channel_iff_blocked :
    (blocked.attachMarker "/..").2.markerPath = some "/vfs/a/m" ∧
      (blocked.attachMarker "/n").2.markerPath = some "/vfs/n" ∧
      (blocked.attachMarker "/n").2.sandbox.get (blocked.attachMarker "/n").2.host "/a/m" =
        .ok none := by
  have above : (blocked.attachMarker "/..").1 = .error (.escape "/..") := by decide +kernel
  have failed : (blocked.attachMarker "/n").1 = .error (.os "/a/m" .notDirectory) := by
    decide +kernel
  have replaces : blocked.Replaces "/n" "/n" "/a/m" := by
    unfold Replaces
    decide +kernel
  have spelled : blocked.sandbox.Spelled "/a/m" := ⟨["a", "m"], by decide +kernel, by decide⟩
  obtain ⟨kept, -⟩ := failed_attachment_keeps_channel_iff above
  obtain ⟨-, halfway⟩ := failed_attachment_keeps_channel_iff failed
  obtain ⟨-, -, later, files⟩ := halfway "/n" "/a/m" replaces
  refine ⟨?_, ?_, (files stands_blocked spelled).2⟩
  · have left_alone : ¬ ∃ v old, blocked.Replaces "/.." v old := by
      rintro ⟨v, old, found, -⟩
      have none : blocked.sandbox.virtualPath "/.." = .error (.escape "/..") := by decide +kernel
      cases none.symm.trans found
    rw [(kept.mpr left_alone).2.1]
    decide +kernel
  · rw [(later _ .now).told]
    decide +kernel

/-- The failed attachment of one marker takes another one off the channel. -/
theorem marker_taken_off_by_failure :
    (blocked.attachMarker "/n").1 = .error (.os "/a/m" .notDirectory) ∧
      blocked.markerPath = some "/vfs/a/m" ∧
      (blocked.attachMarker "/n").2.markerPath = some "/vfs/n" ∧
      ∃ later, (blocked.attachMarker "/n").2.Later later ∧
        later.sandbox.get later.host "/n" = .ok (some markerContent) := by
  have failed : (blocked.attachMarker "/n").1 = .error (.os "/a/m" .notDirectory) := by
    decide +kernel
  exact ⟨failed, by decide +kernel, by decide +kernel, _, .set .now, by decide +kernel⟩

end Site

end ProofHost
