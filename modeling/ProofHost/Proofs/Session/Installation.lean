import ProofHost.Proofs.Delivery
import ProofHost.Proofs.Package.Batch
import ProofHost.Proofs.Session.Commands

/-!
What a session does to install a list of packages, with any kernel and in whatever order the
installs go on: notice of each package comes first, then the kernel is asked once to look for
modules, and last comes the notice of all that were installed. Of several failures the first one in
the list counts.
-/

set_option autoImplicit false

namespace ProofHost

namespace Session

variable {κ : Type} [Kernel κ]

def lineEvent (line : String) : Event := .message (.answer (.ofLine line))

theorem command_posted {s : Session κ} {c : Command} (valid : c.validate = .ok ())
    (booted : s.booted = true) :
    let posted := Kernel.post s.kernel c.encode s.site
    (s.command c).2.kernel = posted.2.1 ∧
      (s.command c).2.bus = s.bus.publishAll (posted.1.lines.map lineEvent) ∧
      (s.command c).1 = posted.1.failure.elim (.ok (posted.1.lines.map Answer.ofLine))
        fun e => .error (.kernel e) := by
  rw [command_eq valid booted, List.map_map]
  exact ⟨rfl, rfl, rfl⟩

/-- The refresh of a session: it is left out if it is not wanted or the kernel is not started. -/
def refreshed (s : Session κ) (refresh : Bool) : Except SessionError (List Answer) × Session κ :=
  if refresh && s.booted then s.command .refreshLoadPath else (.ok [], s)

theorem refreshed_cases (s : Session κ) (refresh : Bool) :
    let posted := Kernel.post s.kernel Command.refreshLoadPath.encode s.site
    let asked := refresh && s.booted
    (s.refreshed refresh).2.kernel = (if asked then posted.2.1 else s.kernel) ∧
      (s.refreshed refresh).2.bus =
        s.bus.publishAll (if asked then posted.1.lines.map lineEvent else []) ∧
      (∀ e, (s.refreshed refresh).1 = .error e ↔
        asked = true ∧ ∃ cause, posted.1.failure = some cause ∧ e = .kernel cause) := by
  intro posted asked
  unfold refreshed
  by_cases isAsked : asked = true
  · have booted : s.booted = true := (Bool.and_eq_true_iff.mp isAsked).2
    obtain ⟨kernel, bus, result⟩ := command_posted (c := .refreshLoadPath) rfl booted
    have taken : (refresh && s.booted) = true := isAsked
    rw [if_pos taken, if_pos isAsked, if_pos isAsked]
    refine ⟨kernel, bus, ?_⟩
    intro e
    rw [result]
    have isPosted : Kernel.post s.kernel Command.refreshLoadPath.encode s.site = posted := rfl
    rw [isPosted]
    cases posted.1.failure with
    | none => simp
    | some cause => simp [isAsked, eq_comm]
  · have skipped : ¬ (refresh && s.booted) = true := isAsked
    rw [if_neg skipped, if_neg isAsked, if_neg isAsked]
    refine ⟨rfl, rfl, ?_⟩
    intro e
    simp [isAsked]

private theorem refreshed_isOk_iff (s : Session κ) (refresh : Bool) :
    (∀ e, (s.refreshed refresh).1 ≠ .error e) ↔
      ((refresh && s.booted) = true →
        (Kernel.post s.kernel Command.refreshLoadPath.encode s.site).1.failure = none) := by
  obtain ⟨-, -, failure⟩ := refreshed_cases s refresh
  constructor
  · intro quiet asked
    cases failed : (Kernel.post s.kernel Command.refreshLoadPath.encode s.site).1.failure with
    | none => rfl
    | some cause => exact absurd ((failure (.kernel cause)).mpr ⟨asked, cause, failed, rfl⟩) (quiet _)
  · intro quiet e isError
    obtain ⟨asked, cause, failed, -⟩ := (failure e).mp isError
    cases (quiet asked).symm.trans failed

private theorem succeeded_eq (results : List (String × InstallResult)) :
    succeeded results = (results.filter fun r => r.2.isOk).map Prod.fst := by
  have same (r : InstallResult) : r.toOption.isSome = r.isOk := by cases r <;> rfl
  simp only [succeeded, same]

private theorem firstFailure_eq_none_iff (results : List (String × InstallResult)) :
    firstFailure results = none ↔ ∀ r ∈ results, r.2.isOk = true := by
  rw [firstFailure, List.findSome?_eq_none_iff]
  refine forall₂_congr fun r _ => ?_
  obtain ⟨uri, e | paths⟩ := r <;> simp [Except.isOk, Except.toBool]

private theorem firstFailure_of_split {results front back : List (String × InstallResult)}
    {uri : String}
    {e : InstallError} (split : results = front ++ (uri, .error e) :: back)
    (before : ∀ r ∈ front, r.2.isOk = true) : firstFailure results = some e := by
  have none : firstFailure front = none := (firstFailure_eq_none_iff front).mpr before
  rw [firstFailure] at none
  rw [split, firstFailure, List.findSome?_append, none]
  rfl

section Returned

variable {α : Type} {results : List (String × InstallResult)} {result : Except SessionError α}
  {loaded list : List String}

private theorem returned_of_isOk (all : ∀ r ∈ results, r.2.isOk = true) :
    (firstFailure results).elim (result.map fun _ => loaded) (fun e => .error (.install e)) =
      result.map fun _ => loaded := by
  rw [(firstFailure_eq_none_iff results).mpr all]
  rfl

private theorem returned_eq_ok_iff :
    (firstFailure results).elim (result.map fun _ => loaded) (fun e => .error (.install e)) =
        .ok list ↔
      list = loaded ∧ (∀ r ∈ results, r.2.isOk = true) ∧ ∀ e, result ≠ .error e := by
  rw [← firstFailure_eq_none_iff]
  cases firstFailure results with
  | some e => exact ⟨nofun, fun ⟨_, noFailure, _⟩ => nomatch noFailure⟩
  | none =>
    cases result with
    | error e => exact ⟨nofun, fun ⟨_, _, quiet⟩ => absurd rfl (quiet e)⟩
    | ok a => exact ⟨fun same => ⟨(Except.ok.inj same).symm, rfl, nofun⟩, fun ⟨same, _⟩ => same ▸ rfl⟩

end Returned

/-- Packages are installed, then the kernel is asked, and then notice is given; the first failure of
the list is returned, or else the failure of the kernel. -/
theorem installPackages_eq (s : Session κ) (schedule : List Nat) (uris : List String)
    (refresh : Bool) :
    let batch := Package.installAll s.plan schedule uris s.site
    let installed := ({ s with site := batch.2.2 } : Session κ).publish batch.2.1
    let asked := installed.refreshed refresh
    s.installPackages schedule uris refresh =
      ((firstFailure batch.1).elim (asked.1.map fun _ => succeeded batch.1)
          fun e => .error (.install e),
        asked.2.notify (.batchLoaded (succeeded batch.1))) := by
  simp only [installPackages]
  cases firstFailure (Package.installAll s.plan schedule uris s.site).1 <;> rfl

private theorem isOk_of_zip {uris : List String} {outcomes : List InstallResult}
    (length : outcomes.length = uris.length) :
    (∀ r ∈ uris.zip outcomes, r.2.isOk = true) ↔ ∀ r ∈ outcomes, r.isOk = true := by
  have seconds : (uris.zip outcomes).map Prod.snd = outcomes :=
    List.map_snd_zip (Nat.le_of_eq length)
  constructor
  · intro all r there
    rw [← seconds] at there
    obtain ⟨pair, hpair, rfl⟩ := List.mem_map.mp there
    exact all pair hpair
  · intro all r there
    refine all r.2 ?_
    rw [← seconds]
    exact List.mem_map_of_mem there

private theorem forall₂_notices {results : List (String × InstallResult)}
    (named : ∀ uri e, (uri, .error e) ∈ results → e.uri = uri) :
    List.Forall₂ (fun r notice =>
        (∀ paths, r.2 = .ok paths → notice = Message.notice (.packageLoaded r.1)) ∧
        ∀ e, r.2 = .error e →
          notice = .notice (.packageFailed r.1 (r.1 ++ ": " ++ e.cause.message)))
      results (results.map fun r => .notice (Install.notice r.1 r.2)) := by
  rw [List.forall₂_map_right_iff, List.forall₂_same]
  rintro ⟨uri, result⟩ there
  constructor
  · rintro paths ⟨⟩
    rfl
  · rintro e ⟨⟩
    have same := named uri e there
    simp only [Install.notice, InstallError.message, same]

/--
To install packages, with any kernel and in any order of the installs: each place of the list has
one result and one notice, which says that its package is there or why it is not; then, if it is
wanted and the kernel is started, the kernel serves one refresh; then notice is given of the
installed packages in the order of the list, and of nothing after that. Everybody on the bus who
listens gets all this behind what still waits, and nobody else gets anything. The list is returned
if nothing failed, or else the first failure of the list, or else the failure of the refresh.
-/
theorem installPackages_outcome (s : Session κ) (schedule : List Nat) (uris : List String)
    (refresh : Bool) :
    ∃ (outcomes : List InstallResult) (told : List Event) (notices : List Message) (site : Site),
      outcomes.length = uris.length ∧
      Package.installAll s.plan schedule uris s.site = (uris.zip outcomes, told, site) ∧
      List.Forall₂ (fun r notice =>
          (∀ paths, r.2 = .ok paths → notice = Message.notice (.packageLoaded r.1)) ∧
          ∀ e, r.2 = .error e →
            notice = .notice (.packageFailed r.1 (r.1 ++ ": " ++ e.cause.message)))
        (uris.zip outcomes) notices ∧
      (told.filterMap Event.message?).Perm notices ∧
      let asked := refresh && s.booted
      let posted := Kernel.post s.kernel "[\"RefreshLoadPath\"]" site
      let answers := posted.1.lines.map fun line => Event.message (.answer (.ofLine line))
      let loaded := ((uris.zip outcomes).filter fun r => r.2.isOk).map Prod.fst
      let reported := told ++ (if asked then answers else []) ++
        [.message (.notice (.batchLoaded loaded))]
      let returned := (s.installPackages schedule uris refresh).1
      let after := (s.installPackages schedule uris refresh).2
      after.kernel = (if asked then posted.2.1 else s.kernel) ∧
      (∀ (i : Nat) (queue : List Event), s.bus.subscribers[i]? = some ⟨queue, true, true⟩ →
        after.bus.subscribers[i]? = some ⟨queue ++ reported, true, true⟩) ∧
      (∀ (i : Nat) (queue : List Event) (listening : Bool),
        s.bus.subscribers[i]? = some ⟨queue, listening, false⟩ →
        after.bus.subscribers[i]? = some ⟨queue, listening, false⟩) ∧
      after.bus = s.bus.publishAll reported ∧
      (∀ list, returned = .ok list ↔
        list = loaded ∧ (∀ r ∈ outcomes, r.isOk = true) ∧
          (asked = true → posted.1.failure = none)) ∧
      (∀ front uri e back, uris.zip outcomes = front ++ (uri, .error e) :: back →
        (∀ r ∈ front, r.2.isOk = true) → returned = .error (.install e) ∧ e.uri = uri) ∧
      ((∀ r ∈ outcomes, r.isOk = true) → asked = true →
        ∀ e, posted.1.failure = some e → returned = .error (.kernel e)) := by
  obtain ⟨outcomes, length, results, notices, named⟩ :=
    Package.installAll_results s.plan schedule uris s.site
  have whole := installPackages_eq s schedule uris refresh
  generalize Package.installAll s.plan schedule uris s.site = batch at results notices whole ⊢
  obtain ⟨results', told, site⟩ := batch
  dsimp only at results notices whole
  subst results
  refine ⟨outcomes, told, _, site, length, rfl, forall₂_notices named, notices, ?_⟩
  intro asked posted answers loaded reported returned after
  have line : Command.refreshLoadPath.encode = "[\"RefreshLoadPath\"]" := by decide +kernel
  obtain ⟨kernel, bus, failure⟩ :=
    refreshed_cases (({ s with site := site } : Session κ).publish told) refresh
  have quiet := refreshed_isOk_iff (({ s with site := site } : Session κ).publish told) refresh
  rw [line] at kernel bus failure quiet
  have isLoaded : succeeded (uris.zip outcomes) = loaded := succeeded_eq _
  rw [isLoaded] at whole
  have isReturned : returned = _ := congrArg Prod.fst whole
  have isAfter : after = _ := congrArg Prod.snd whole
  have allOk := isOk_of_zip length
  have published : after.bus = s.bus.publishAll reported := by
    rw [isAfter, EventBus.publishAll_append, EventBus.publishAll_append]
    exact congrArg (fun bus => EventBus.publishAll bus _) bus
  refine ⟨?_, ?_, ?_, published, ?_, ?_, ?_⟩
  · rw [isAfter]
    exact kernel
  · intro i queue listens
    rw [published]
    exact EventBus.Listens.publishAll listens reported
  · intro i queue listening unlisted
    rw [published]
    exact EventBus.publishAll_unlisted unlisted reported
  · intro list
    rw [isReturned, returned_eq_ok_iff, allOk, quiet]
    exact Iff.rfl
  · intro front uri e back split before
    have there : (uri, .error e) ∈ uris.zip outcomes := by
      rw [split]
      exact List.mem_append_right _ List.mem_cons_self
    refine ⟨?_, named uri e there⟩
    rw [isReturned, firstFailure_of_split split before]
    rfl
  · intro all isAsked e failed
    rw [isReturned, returned_of_isOk (allOk.mpr all), (failure (.kernel e)).mpr
      ⟨isAsked, e, failed, rfl⟩]
    rfl

end Session

end ProofHost
