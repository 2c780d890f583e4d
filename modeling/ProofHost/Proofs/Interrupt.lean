import Mathlib.Control.Monad.Basic
import ProofHost.Interrupt
import ProofHost.Proofs.Sandbox.Contents

/-!
The files of the interrupt markers. A marker that is attached comes to show the flag, and the marker
before it goes away last; so a marker that is attached in its own place while the flag is set loses
its file, and does not show the flag before the next signal.
-/

set_option autoImplicit false

namespace ProofHost

namespace Site

variable {site : Site} {path v other : String} {parts : List String} {present isSet : Bool}

def markerFile (present : Bool) : Option Bytes := if present then some markerContent else none

theorem writeMarker_true (site : Site) (path : String) :
    site.writeMarker path true =
      let (r, h) := site.sandbox.put site.host path markerContent
      (r.map fun _ => (), { site with host := h }) := by
  unfold writeMarker put
  generalize site.sandbox.put site.host path markerContent = done
  rfl

theorem writeMarker_false (site : Site) (path : String) :
    site.writeMarker path false =
      let (r, h) := site.sandbox.remove site.host path
      (r.map fun _ => (), { site with host := h }) := by
  unfold writeMarker remove
  generalize site.sandbox.remove site.host path = done
  rfl

@[simp] theorem writeMarker_sandbox (site : Site) (path : String) (present : Bool) :
    (site.writeMarker path present).2.sandbox = site.sandbox := by
  cases present
  · rw [writeMarker_false]
  · rw [writeMarker_true]

@[simp] theorem writeMarker_interrupt (site : Site) (path : String) (present : Bool) :
    (site.writeMarker path present).2.interrupt = site.interrupt := by
  cases present
  · rw [writeMarker_false]
  · rw [writeMarker_true]

@[simp] theorem showFlag_sandbox (site : Site) (present : Bool) :
    (site.showFlag present).sandbox = site.sandbox := by
  unfold showFlag
  split
  · rfl
  · exact writeMarker_sandbox site _ present

@[simp] theorem showFlag_interrupt (site : Site) (present : Bool) :
    (site.showFlag present).interrupt = site.interrupt := by
  unfold showFlag
  split
  · rfl
  · exact writeMarker_interrupt site _ present

private theorem stored_writeMarker (stands : site.sandbox.Stands site.host)
    (found : site.sandbox.components? path = some parts)
    (done : (site.writeMarker path present).1 = .ok ()) :
    site.sandbox.Stored site.host parts (markerFile present)
      (site.writeMarker path present).2.host := by
  cases present with
  | true =>
    rw [writeMarker_true] at done ⊢
    cases result : (site.sandbox.put site.host path markerContent).1 with
    | error e =>
      simp only [result, Except.map] at done
      cases done
    | ok v => exact Sandbox.stored_put stands found result
  | false =>
    rw [writeMarker_false] at done ⊢
    cases result : (site.sandbox.remove site.host path).1 with
    | error e =>
      simp only [result, Except.map] at done
      cases done
    | ok was => exact Sandbox.stored_remove stands found result

private theorem stands_writeMarker (stands : site.sandbox.Stands site.host)
    (spelled : site.sandbox.Spelled v) (done : (site.writeMarker v present).1 = .ok ()) :
    site.sandbox.Stands (site.writeMarker v present).2.host := by
  obtain ⟨parts, found, -⟩ := spelled
  exact (stored_writeMarker stands found done).stands

theorem get_writeMarker (stands : site.sandbox.Stands site.host)
    (spelled : site.sandbox.Spelled v) (done : (site.writeMarker v present).1 = .ok ())
    (spelledOther : site.sandbox.Spelled other) :
    site.sandbox.get (site.writeMarker v present).2.host other =
      if other = v then .ok (markerFile present) else site.sandbox.get site.host other := by
  obtain ⟨parts, found, rfl⟩ := spelled
  exact (stored_writeMarker stands found done).get_eq found spelledOther

def withFlag (site : Site) (isSet : Bool) : Site :=
  { site with interrupt := { site.interrupt with isSet := isSet } }

@[simp] theorem withFlag_sandbox (site : Site) (isSet : Bool) :
    (site.withFlag isSet).sandbox = site.sandbox := rfl

@[simp] theorem withFlag_host (site : Site) (isSet : Bool) :
    (site.withFlag isSet).host = site.host := rfl

@[simp] theorem withFlag_interrupt (site : Site) (isSet : Bool) :
    (site.withFlag isSet).interrupt = ⟨isSet, site.interrupt.marker⟩ := rfl

/-- The site with a new marker that shows the flag, the file of the one before it still there. -/
def withMarker (site : Site) (v : String) : Site :=
  let site' := (site.writeMarker v site.interrupt.isSet).2
  { site' with interrupt := { site'.interrupt with marker := some v } }

@[simp] theorem withMarker_interrupt (site : Site) (v : String) :
    (site.withMarker v).interrupt = ⟨site.interrupt.isSet, some v⟩ := by
  simp [withMarker]

@[simp] theorem withMarker_sandbox (site : Site) (v : String) :
    (site.withMarker v).sandbox = site.sandbox := by
  simp [withMarker]

@[simp] theorem withMarker_host (site : Site) (v : String) :
    (site.withMarker v).host = (site.writeMarker v site.interrupt.isSet).2.host := rfl

theorem attachMarker_cases (found : site.sandbox.virtualPath path = .ok v)
    (done : (site.attachMarker path).1 = .ok ()) :
    (site.writeMarker v site.interrupt.isSet).1 = .ok () ∧
      ((site.interrupt.marker = none ∧ (site.attachMarker path).2 = site.withMarker v) ∨
        ∃ old, site.interrupt.marker = some old ∧
          ((site.withMarker v).writeMarker old false).1 = .ok () ∧
          (site.attachMarker path).2 = ((site.withMarker v).writeMarker old false).2) := by
  unfold attachMarker at done ⊢
  simp only [found] at done ⊢
  split at done
  · cases done
  · rename_i site' wrote
    refine ⟨by rw [wrote], ?_⟩
    simp only [withMarker, wrote]
    cases attached : site.interrupt.marker with
    | none => exact Or.inl ⟨rfl, rfl⟩
    | some old =>
      rw [attached] at done
      exact Or.inr ⟨old, rfl, done, rfl⟩

end Site

/-- What is done with the flag, by the client and by the kernel. -/
inductive Signal where
  | set
  | clear
  | take
  | attach (path : String)
  deriving DecidableEq, Repr

namespace Site

/-- The file operation that shows the flag, once it is set or not, does not fail. -/
def Shows (site : Site) (isSet : Bool) : Prop :=
  ∀ v, site.interrupt.marker = some v → ((site.withFlag isSet).writeMarker v isSet).1 = .ok ()

def Works (site : Site) : Signal → Prop
  | .set => site.Shows true
  | .clear => site.Shows false
  | .take => site.interrupt.isSet = true → site.Shows false
  | .attach path => (site.attachMarker path).1 = .ok ()

end Site

/-- A site with the markers that were attached to it, and whether the attached one was attached in
its own place since the flag was set. -/
structure Watch where
  site : Site
  markers : List String
  hidden : Bool

namespace Watch

variable {w : Watch} {host host' : Host} {sandbox : Sandbox} {v : String}

def attach (w : Watch) (path : String) : Watch :=
  match w.site.sandbox.virtualPath path with
  | .error _ => w
  | .ok v =>
    ⟨(w.site.attachMarker path).2, v :: w.markers,
      w.site.interrupt.isSet && w.site.interrupt.marker == some v⟩

def after (w : Watch) : Signal → Watch
  | .set => ⟨w.site.setInterrupt, w.markers, false⟩
  | .clear => ⟨w.site.clearInterrupt, w.markers, false⟩
  | .take => ⟨w.site.takeInterrupt.2, w.markers, false⟩
  | .attach path => w.attach path

/--
The runs of signals at a site that is new: no file operation fails, and whoever else works on the
host leaves the directory of the sandbox and the files of the markers alone.
-/
inductive Runs (host : Host) (sandbox : Sandbox) : Watch → Prop
  | new (network : Network) (stands : sandbox.Stands host) :
    Runs host sandbox ⟨.new network host sandbox, [], false⟩
  | signal {w : Watch} (run : Runs host sandbox w) (signal : Signal) (works : w.site.Works signal) :
    Runs host sandbox (w.after signal)
  | others {w : Watch} (run : Runs host sandbox w) (host' : Host)
    (stands : w.site.sandbox.Stands host')
    (untouched : ∀ v ∈ w.markers,
      w.site.sandbox.get host' v = w.site.sandbox.get w.site.host v) :
    Runs host sandbox { w with site := { w.site with host := host' } }

def shown (w : Watch) (v : String) : Option Bytes :=
  Site.markerFile (w.site.interrupt.marker == some v && w.site.interrupt.isSet && !w.hidden)

private theorem shown_of_ne (ne : w.site.interrupt.marker ≠ some v) : w.shown v = none := by
  simp [shown, Site.markerFile, ne]

structure Sound (w : Watch) : Prop where
  stands : w.site.sandbox.Stands w.site.host
  spelled : ∀ v ∈ w.markers, w.site.sandbox.Spelled v
  attached : ∀ v, w.site.interrupt.marker = some v → v ∈ w.markers
  files : ∀ v ∈ w.markers, w.site.sandbox.get w.site.host v = .ok (w.shown v)

private theorem Sound.new (network : Network) (stands : sandbox.Stands host) :
    Sound ⟨.new network host sandbox, [], false⟩ where
  stands := stands
  spelled := List.forall_mem_nil _
  attached := nofun
  files := List.forall_mem_nil _

private theorem Sound.others (sound : w.Sound) (stands : w.site.sandbox.Stands host')
    (untouched : ∀ v ∈ w.markers, w.site.sandbox.get host' v = w.site.sandbox.get w.site.host v) :
    Sound { w with site := { w.site with host := host' } } where
  stands := stands
  spelled := sound.spelled
  attached := sound.attached
  files v hmem := (untouched v hmem).trans (sound.files v hmem)

private theorem Sound.showFlag {isSet : Bool} (sound : w.Sound) (works : w.site.Shows isSet) :
    Sound ⟨(w.site.withFlag isSet).showFlag isSet, w.markers, false⟩ := by
  cases attached : w.site.interrupt.marker with
  | none =>
    have none_shown : (w.site.withFlag isSet).showFlag isSet = w.site.withFlag isSet := by
      unfold Site.showFlag
      simp only [Site.withFlag_interrupt, attached]
    rw [none_shown]
    refine ⟨sound.stands, sound.spelled, sound.attached, ?_⟩
    intro v hmem
    simpa [shown, attached] using sound.files v hmem
  | some u =>
    have shown_at : (w.site.withFlag isSet).showFlag isSet =
        ((w.site.withFlag isSet).writeMarker u isSet).2 := by
      unfold Site.showFlag
      simp only [Site.withFlag_interrupt, attached]
    have stands : (w.site.withFlag isSet).sandbox.Stands (w.site.withFlag isSet).host := sound.stands
    have spelled : (w.site.withFlag isSet).sandbox.Spelled u :=
      sound.spelled u (sound.attached u attached)
    have wrote := works u attached
    rw [shown_at]
    refine ⟨by simpa using Site.stands_writeMarker stands spelled wrote,
      by simpa using sound.spelled, by simpa using sound.attached, ?_⟩
    intro v hmem
    rw [Site.writeMarker_sandbox,
      Site.get_writeMarker stands spelled wrote (sound.spelled v hmem)]
    by_cases here : v = u
    · simp [shown, attached, here]
    · have ne : w.site.interrupt.marker ≠ some v := by simpa [attached] using Ne.symm here
      have before := sound.files v hmem
      rw [shown_of_ne ne] at before
      rw [if_neg here, shown_of_ne (by simpa using ne)]
      exact before

private theorem Sound.replace {path : String} (sound : w.Sound)
    (found : w.site.sandbox.virtualPath path = .ok v)
    (done : (w.site.attachMarker path).1 = .ok ()) :
    Sound ⟨(w.site.attachMarker path).2, v :: w.markers,
      w.site.interrupt.isSet && w.site.interrupt.marker == some v⟩ := by
  have itself := Sandbox.spelled_of_virtualPath found
  have spelled : ∀ u ∈ v :: w.markers, w.site.sandbox.Spelled u :=
    List.forall_mem_cons.mpr ⟨itself, sound.spelled⟩
  obtain ⟨wrote, steps⟩ := Site.attachMarker_cases found done
  have stands : (w.site.withMarker v).sandbox.Stands (w.site.withMarker v).host := by
    simpa using Site.stands_writeMarker sound.stands itself wrote
  -- What is there once the new marker is written, before the one in its place goes away.
  have first : ∀ u ∈ v :: w.markers, w.site.sandbox.get (w.site.withMarker v).host u =
      .ok (if u = v then Site.markerFile w.site.interrupt.isSet else w.shown u) := by
    intro u hmem
    rw [Site.withMarker_host, Site.get_writeMarker sound.stands itself wrote (spelled u hmem)]
    split
    · rfl
    · rename_i ne
      exact sound.files u ((List.mem_cons.mp hmem).resolve_left ne)
  rcases steps with ⟨attached, attach⟩ | ⟨old, attached, removed, attach⟩
  · rw [attach, attached]
    refine ⟨stands, by simpa using spelled, by simp, ?_⟩
    intro u hmem
    rw [Site.withMarker_sandbox, first u hmem]
    by_cases here : u = v
    · simp [shown, here]
    · rw [if_neg here, shown_of_ne (by simp [attached]), shown_of_ne (by simpa using Ne.symm here)]
  · have isOld : (w.site.withMarker v).sandbox.Spelled old := by
      simpa using sound.spelled old (sound.attached old attached)
    rw [attach, attached]
    refine ⟨by simpa using Site.stands_writeMarker stands isOld removed, by simpa using spelled,
      by simp, ?_⟩
    intro u hmem
    rw [Site.writeMarker_sandbox,
      Site.get_writeMarker stands isOld removed (by simpa using spelled u hmem),
      Site.withMarker_sandbox, first u hmem]
    by_cases gone : u = old
    · -- The file that goes away may be the new marker's own.
      rw [if_pos gone]
      by_cases here : u = v
      · simp [shown, Site.markerFile, ← gone, ← here]
      · rw [shown_of_ne (by simpa using Ne.symm here)]
        rfl
    · rw [if_neg gone]
      by_cases here : u = v
      · have moved : (old == v) = false := by simpa [here] using Ne.symm gone
        simp [shown, here, moved]
      · have ne : w.site.interrupt.marker ≠ some u := by simpa [attached] using Ne.symm gone
        rw [if_neg here, shown_of_ne ne, shown_of_ne (by simpa using Ne.symm here)]

private theorem Sound.attach {path : String} (sound : w.Sound)
    (done : (w.site.attachMarker path).1 = .ok ()) : (w.attach path).Sound := by
  cases found : w.site.sandbox.virtualPath path with
  | error e =>
    unfold Watch.attach
    rw [found]
    exact sound
  | ok v =>
    unfold Watch.attach
    simp only [found]
    exact sound.replace found done

private theorem Sound.after {signal : Signal} (sound : w.Sound) (works : w.site.Works signal) :
    (w.after signal).Sound := by
  cases signal with
  | set => exact sound.showFlag works
  | clear => exact sound.showFlag works
  | take =>
    cases flag : w.site.interrupt.isSet with
    | true =>
      have taken : w.site.takeInterrupt.2 = (w.site.withFlag false).showFlag false := by
        rw [Site.takeInterrupt, if_pos flag]
        rfl
      simp only [Watch.after, taken]
      exact sound.showFlag (works flag)
    | false =>
      have left_alone : w.site.takeInterrupt.2 = w.site := by simp [Site.takeInterrupt, flag]
      simp only [Watch.after, left_alone]
      refine ⟨sound.stands, sound.spelled, sound.attached, ?_⟩
      intro v hmem
      simpa [shown, flag] using sound.files v hmem
  | attach path => exact sound.attach works

theorem Runs.sound (run : w.Runs host sandbox) : w.Sound := by
  induction run with
  | new network stands => exact .new network stands
  | signal _ signal works ih => exact ih.after works
  | others _ host' stands untouched ih => exact ih.others stands untouched

/--
The file of the attached marker is there exactly while the flag is set, unless that marker was
attached in its own place since the flag was set; and no other marker that was attached has a file.
-/
theorem marker_shows_flag (run : w.Runs host sandbox)
    (attached : w.site.interrupt.marker = some v) :
    w.site.sandbox.get w.site.host v =
        .ok (if w.site.interrupt.isSet && !w.hidden then some Site.markerContent else none) ∧
      ∀ other ∈ w.markers, other ≠ v → w.site.sandbox.get w.site.host other = .ok none := by
  have sound := run.sound
  constructor
  · rw [sound.files v (sound.attached v attached)]
    simp [shown, Site.markerFile, attached]
  · intro other hmem ne
    rw [sound.files other hmem, shown_of_ne]
    simpa [attached] using Ne.symm ne

def emptyHost : Host := (Sandbox.open (.empty []) "/vfs").2

theorem runs_empty :
    Runs emptyHost ⟨"/vfs", "/lib"⟩ ⟨.new .unreachable emptyHost ⟨"/vfs", "/lib"⟩, [], false⟩ := by
  have opened : Sandbox.open (.empty []) "/vfs" = (.ok ⟨"/vfs", "/lib"⟩, emptyHost) :=
    Prod.ext (by decide +kernel) rfl
  exact .new _ (Sandbox.stands_open ⟨[], rfl⟩ opened)

theorem marker_shows_flag_of_two :
    let site : Site := .new .unreachable emptyHost ⟨"/vfs", "/lib"⟩
    let w := (((⟨site, [], false⟩ : Watch).after .set).after (.attach "/m")).after (.attach "/n")
    w.site.sandbox.get w.site.host "/n" = .ok (some Site.markerContent) ∧
      w.site.sandbox.get w.site.host "/m" = .ok none := by
  intro site w
  have set := runs_empty.signal .set nofun
  have first := set.signal (.attach "/m") (by unfold Site.Works; decide +kernel)
  have second : w.Runs emptyHost ⟨"/vfs", "/lib"⟩ :=
    first.signal (.attach "/n") (by unfold Site.Works; decide +kernel)
  have attached : w.site.interrupt.marker = some "/n" := by decide +kernel
  have seen : (w.site.interrupt.isSet && !w.hidden) = true := by decide +kernel
  obtain ⟨there, others⟩ := marker_shows_flag second attached
  rw [seen] at there
  exact ⟨there, others "/m" (by decide +kernel) (by decide)⟩

/-- A marker that takes its own place while the flag is set has no file, though the flag is set. -/
theorem marker_attached_twice_is_gone :
    ∃ w : Watch, w.Runs emptyHost ⟨"/vfs", "/lib"⟩ ∧ w.site.interrupt = ⟨true, some "/m"⟩ ∧
      w.site.sandbox.get w.site.host "/m" = .ok none := by
  have set := runs_empty.signal .set nofun
  have first := set.signal (.attach "/m") (by unfold Site.Works; decide +kernel)
  have second := first.signal (.attach "/m") (by unfold Site.Works; decide +kernel)
  exact ⟨_, second, by decide +kernel, by decide +kernel⟩

end Watch

end ProofHost
