import ProofHost.Package.Install
import ProofHost.Proofs.Turns

/-!
Installs of several packages at once. Whatever turns they take, each one ends, gives notice of its
end exactly once, and has its result at the place of its package in the list.
-/

set_option autoImplicit false

namespace ProofHost

namespace Install

variable {plan : InstallPlan} {site : Site} {i i' : Install} {uri : String} {events : List Event}

def settled? (i : Install) : Option Message := i.result?.map fun r => .notice (notice i.uri r)

def NamesItself (i : Install) : Prop := ∀ e, i.result? = some (.error e) → e.uri = i.uri

structure Stepped (i : Install) (events : List Event) (i' : Install) : Prop where
  uri : i'.uri = i.uri
  told : i.settled?.toList ++ events.filterMap Event.message? = i'.settled?.toList
  names : i.NamesItself → i'.NamesItself
  begun : ∀ uri, i' ≠ .waiting uri
  nearer : (∀ uri, i ≠ .waiting uri) → i'.stepsLeft ≤ i.stepsLeft - 1

private theorem filterMap_message?_progress (uri : String) (reports : List Progress) :
    (reports.map (Event.progress uri)).filterMap Event.message? = [] := by
  rw [List.filterMap_map]
  exact List.filterMap_eq_nil_iff.mpr fun _ _ => rfl

private theorem stepped_finish {result : InstallResult} (running : i.result? = none)
    (quiet : events.filterMap Event.message? = [])
    (named : ∀ e, result = .error e → e.uri = i.uri) :
    i.Stepped (finish i.uri result events site).2.1 (finish i.uri result events site).1 where
  uri := rfl
  told := by
    have before : i.settled? = none := by rw [settled?, running]; rfl
    simp only [finish, List.filterMap_append, quiet, before]
    rfl
  names := by
    intro _ e same
    exact named e (Option.some.inj same)
  begun := nofun
  nearer _ := Nat.zero_le _

private theorem stepped_fail (cause : InstallCause) (running : i.result? = none)
    (quiet : events.filterMap Event.message? = []) :
    i.Stepped (fail i.uri cause events site).2.1 (fail i.uri cause events site).1 := by
  refine stepped_finish running quiet ?_
  rintro e ⟨⟩
  rfl

private theorem stepped_writing {left : List (Except ArchiveError (String × Bytes))}
    {written : List String} (running : i.result? = none)
    (quiet : events.filterMap Event.message? = [])
    (nearer : (∀ uri, i ≠ .waiting uri) → left.length + 1 ≤ i.stepsLeft - 1) :
    i.Stepped events (.writing i.uri left written) where
  uri := rfl
  told := by
    have before : i.settled? = none := by rw [settled?, running]; rfl
    rw [before, quiet]
    rfl
  names _ := nofun
  begun := nofun
  nearer := nearer

private theorem stepped_fetch (plan : InstallPlan) (uri : String) (site : Site) :
    (Install.waiting uri).Stepped (fetch plan uri site).2.1 (fetch plan uri site).1 := by
  have quiet := filterMap_message?_progress uri
  unfold fetch
  generalize Package.fetchReported site.network site.host (Package.resolve plan.binaryRoot uri) = r
  obtain ⟨reports, e | bytes⟩ := r
  · exact stepped_fail (i := .waiting uri) _ rfl (quiet reports)
  · dsimp only
    split
    · exact stepped_fail (i := .waiting uri) _ rfl (quiet reports)
    · exact stepped_writing (i := .waiting uri) rfl (quiet reports) fun begun =>
        absurd rfl (begun uri)

private theorem stepped_write (plan : InstallPlan) (uri : String) (written : List String)
    (site : Site)
    (left : List (Except ArchiveError (String × Bytes))) :
    (Install.writing uri left written).Stepped (write plan uri written site left).2.1
      (write plan uri written site left).1 := by
  cases left with
  | nil => exact stepped_finish (i := .writing uri [] written) rfl rfl nofun
  | cons entry left =>
    cases entry with
    | error e => exact stepped_fail (i := .writing uri (.error e :: left) written) _ rfl rfl
    | ok file =>
      obtain ⟨name, content⟩ := file
      unfold write
      simp only
      split
      · exact stepped_writing (i := .writing uri (.ok (name, content) :: left) written) rfl rfl
          fun _ => Nat.le_refl _
      · exact stepped_fail (i := .writing uri (.ok (name, content) :: left) written) _ rfl rfl

theorem stepped (plan : InstallPlan) (site : Site) (i : Install) :
    i.Stepped (step plan site i).2.1 (step plan site i).1 := by
  cases i with
  | waiting uri => exact stepped_fetch plan uri site
  | writing uri left written => exact stepped_write plan uri written site left
  | done uri r => exact ⟨rfl, by simp [step], id, nofun, fun _ => Nat.zero_le _⟩

def Over (i : Install) : Prop := i.result?.isSome = true

private theorem over_of_stepsLeft (begun : ∀ uri, i ≠ .waiting uri) (none : i.stepsLeft = 0) :
    i.Over := by
  cases i with
  | waiting uri => exact absurd rfl (begun uri)
  | writing uri left written => cases none
  | done uri r => rfl

private theorem over_repeated (n : Nat) (site : Site) (begun : ∀ uri, i ≠ .waiting uri)
    (enough : i.stepsLeft ≤ n) : (Turns.repeated (step plan) n site i).1.Over := by
  induction n generalizing i site with
  | zero =>
    have none : i.stepsLeft = 0 := by omega
    exact over_of_stepsLeft begun none
  | succ n ih =>
    have first := stepped plan site i
    have nearer := first.nearer begun
    have closer : (step plan site i).1.stepsLeft ≤ n := by omega
    exact ih (step plan site i).2.2 first.begun closer

theorem repeats_run (plan : InstallPlan) : Turns.Repeats (step plan) (run plan) := by
  intro site i
  exact ⟨(step plan site i).1.stepsLeft + 1, rfl⟩

theorem over_run (plan : InstallPlan) (site : Site) (i : Install) : (run plan site i).1.Over := by
  have first := stepped plan site i
  exact over_repeated _ (step plan site i).2.2 first.begun (Nat.le_refl _)

section Turns

variable {s' : Site} {jobs jobs' : List Install} {reports : List Event}

private theorem map_uri_of_taken (taken : Turns.Taken (step plan) site jobs reports s' jobs') :
    jobs'.map Install.uri = jobs.map Install.uri := by
  induction taken with
  | start => rfl
  | @turn reports s' front back i taken ih =>
    have same := (stepped plan s' i).uri
    simpa [same] using ih

private theorem told_of_taken (taken : Turns.Taken (step plan) site jobs reports s' jobs') :
    (jobs.filterMap settled? ++ reports.filterMap Event.message?).Perm
      (jobs'.filterMap settled?) := by
  induction taken with
  | start => simp
  | @turn reports s' front back i taken ih =>
    have told := (stepped plan s' i).told
    have cons (j : Install) : (front ++ j :: back).filterMap settled? =
        front.filterMap settled? ++ (j.settled?.toList ++ back.filterMap settled?) := by
      rw [List.filterMap_append, List.filterMap_cons]
      cases j.settled? <;> rfl
    rw [List.filterMap_append, ← List.append_assoc, cons, ← told]
    rw [cons] at ih
    -- The new messages move from behind everything to their install.
    refine (ih.append_right _).trans ?_
    simp only [List.append_assoc]
    exact (List.perm_append_comm.append_left _).append_left _

end Turns

end Install

namespace Package

open Install (Over settled? notice)

private theorem results_eq_zip {jobs : List Install} (ended : ∀ i ∈ jobs, i.Over) :
    ∃ outcomes, outcomes.length = jobs.length ∧
      results jobs = (jobs.map Install.uri).zip outcomes := by
  induction jobs with
  | nil => exact ⟨[], rfl, rfl⟩
  | cons i jobs ih =>
    obtain ⟨first, others⟩ := List.forall_mem_cons.mp ended
    obtain ⟨result, isResult⟩ := Option.isSome_iff_exists.mp first
    obtain ⟨outcomes, length, rest⟩ := ih others
    refine ⟨result :: outcomes, by simp [length], ?_⟩
    have head : results (i :: jobs) = (i.uri, result) :: results jobs := by
      simp [results, isResult]
    rw [head, rest]
    rfl

theorem installAll_results (plan : InstallPlan) (schedule : List Nat) (uris : List String)
    (site : Site) :
    ∃ outcomes, outcomes.length = uris.length ∧
      (installAll plan schedule uris site).1 = uris.zip outcomes ∧
      ((installAll plan schedule uris site).2.1.filterMap Event.message?).Perm
        ((uris.zip outcomes).map fun r => .notice (notice r.1 r.2)) ∧
      ∀ uri e, (uri, .error e) ∈ uris.zip outcomes → e.uri = uri := by
  have taken := Turns.taken_all (Install.repeats_run plan) schedule site (uris.map .waiting)
  have ended := Turns.over_all (Install.step plan) (Install.over_run plan) schedule site
    (uris.map .waiting)
  have places : (installAll plan schedule uris site).1 =
      results (Turns.all (Install.step plan) (Install.run plan) schedule site
        (uris.map .waiting)).1 := rfl
  have reported : (installAll plan schedule uris site).2.1 =
      (Turns.all (Install.step plan) (Install.run plan) schedule site
        (uris.map .waiting)).2.1 := rfl
  rw [places, reported]
  generalize Turns.all (Install.step plan) (Install.run plan) schedule site (uris.map .waiting) = r
    at taken ended ⊢
  obtain ⟨finished, events, site'⟩ := r
  dsimp only at taken ended ⊢
  have same : finished.map Install.uri = uris := by
    rw [Install.map_uri_of_taken taken, List.map_map]
    exact List.map_id uris
  have told := Install.told_of_taken taken
  have fresh : (uris.map Install.waiting).filterMap settled? = [] := by
    rw [List.filterMap_map]
    exact List.filterMap_eq_nil_iff.mpr fun _ _ => rfl
  rw [fresh, List.nil_append] at told
  have named : ∀ i ∈ finished, i.NamesItself := by
    refine taken.forall_mem (fun s i => (Install.stepped plan s i).names) ?_
    intro i there
    obtain ⟨uri, -, rfl⟩ := List.mem_map.mp there
    exact nofun
  obtain ⟨outcomes, length, zipped⟩ := results_eq_zip ended
  rw [same] at zipped
  refine ⟨outcomes, by rw [length, ← same, List.length_map], zipped, ?_, ?_⟩
  · have notices : finished.filterMap settled? =
        (results finished).map fun r => Message.notice (notice r.1 r.2) := by
      rw [results, List.map_filterMap]
      congr 1
      funext i
      rw [settled?, Option.map_map]
      rfl
    rwa [notices, zipped] at told
  · intro uri e there
    rw [← zipped] at there
    obtain ⟨i, hi, isResult⟩ := List.mem_filterMap.mp there
    obtain ⟨result, found, pair⟩ := Option.map_eq_some_iff.mp isResult
    cases pair
    exact named i hi e found

end Package

end ProofHost
