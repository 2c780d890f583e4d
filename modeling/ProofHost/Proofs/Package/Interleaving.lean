import ProofHost.Proofs.Package.Batch
import ProofHost.Proofs.Package.Containment
import ProofHost.Proofs.Sandbox.Agreement

/-!
Installs whose files lie apart do not notice each other. Each reads and changes what is along the
paths of its own files; directories that they share may be made by any of them, and no file is in
the way. So whatever turns they take, each ends as it would have ended alone, and the files are the
same.
-/

set_option autoImplicit false

namespace ProofHost

namespace Install

variable {plan : InstallPlan} {site t u : Site} {i j : Install} {p q place : List String}
  {jobs jobs' : List Install}

/-- The virtual path at which the next step puts a file, if it puts one. -/
def next? (plan : InstallPlan) (site : Site) : Install → Option (List String)
  | writing _ (.ok (name, _) :: _) _ => site.sandbox.components? (Package.target plan.dir name)
  | _ => none

/-- The virtual paths at which so many steps put files. -/
def attempts (plan : InstallPlan) : Nat → Site → Install → List (List String)
  | 0, _, _ => []
  | n + 1, site, i =>
    (next? plan site i).toList ++ attempts plan n (step plan site i).2.2 (step plan site i).1

/-- The virtual paths that an install writes, or tries to write, when it is alone. -/
def attempted (plan : InstallPlan) (site : Site) (i : Install) : List (List String) :=
  attempts plan ((step plan site i).1.stepsLeft + 1) site i

/-- No path that one of two installs writes or tries to write is the same as one of the other
install, or above it. -/
def Apart (plan : InstallPlan) (site : Site) (i j : Install) : Prop :=
  ∀ p ∈ attempted plan site i, ∀ q ∈ attempted plan site j, ¬ p <+: q ∧ ¬ q <+: p

instance (plan : InstallPlan) (site : Site) (i j : Install) : Decidable (Apart plan site i j) :=
  inferInstanceAs (Decidable (∀ p ∈ attempted plan site i, ∀ q ∈ attempted plan site j,
    ¬ p <+: q ∧ ¬ q <+: p))

/-- If the archive has yet to be fetched, it does not lie in the sandbox: the same is fetched from
every host that differs from this one in the sandbox alone. -/
def FetchedApart (plan : InstallPlan) (site : Site) (i : Install) : Prop :=
  ∀ uri, i = .waiting uri → ∀ h : Host, h.workDir = site.host.workDir →
    (∀ place, ¬ site.sandbox.base site.host <+: place → h.seen place = site.host.seen place) →
    Package.fetch site.network h (Package.resolve plan.binaryRoot uri) =
      Package.fetch site.network site.host (Package.resolve plan.binaryRoot uri)

/-- An archive whose path, without dots, leads to no place in the sandbox is fetched apart. -/
private theorem fetchedApart_of_outside {uri path : String}
    (isPath : Package.localPath (Package.resolve plan.binaryRoot uri) = path)
    (proper : ∀ part ∈ Host.names path, Sandbox.Proper part)
    (outside : ¬ site.sandbox.base site.host <+: site.host.origin path ++ Host.names path) :
    FetchedApart plan site (.waiting uri) := by
  rintro _ ⟨⟩ h workDir same
  have origin : h.origin path = site.host.origin path := by rw [Host.origin, Host.origin, workDir]
  have read : h.read path = site.host.read path := by
    refine Sandbox.read_congr workDir proper fun front isFront => ?_
    rw [origin]
    refine same _ fun inside => outside ?_
    exact inside.trans ((List.prefix_append_right_inj _).mpr isFront)
  rw [Package.fetch, Package.fetch, Package.fetchFile, Package.fetchFile, isPath, read]

private theorem Apart.symm (apart : Apart plan site i j) : Apart plan site j i :=
  fun q hq p hp => (apart p hp q hq).symm

private theorem write_file (plan : InstallPlan) (uri name : String) (content : Bytes)
    (left : List (Except ArchiveError (String × Bytes))) (done : List String) (site : Site) :
    write plan uri done site (.ok (name, content) :: left) =
      match Package.putFile plan site name content with
      | (.ok path, site') => (.writing uri left (done ++ [path]), [], site')
      | (.error e, site') => fail uri (.sandbox e) [] site' := by
  cases put : Package.putFile plan site name content with
  | mk result site' =>
    cases result with
    | ok path => exact Package.write_ok put done left
    | error e => exact Package.write_error put done left

private theorem fetch_site (plan : InstallPlan) (uri : String) (site : Site) :
    (fetch plan uri site).2.2 = site := by
  unfold fetch
  generalize Package.fetchReported site.network site.host (Package.resolve plan.binaryRoot uri) = r
  obtain ⟨reports, e | bytes⟩ := r
  · rfl
  · dsimp only
    split <;> rfl

private theorem write_site (plan : InstallPlan) (uri name : String) (content : Bytes)
    (left : List (Except ArchiveError (String × Bytes))) (done : List String) (site : Site) :
    (write plan uri done site (.ok (name, content) :: left)).2.2 =
      (Package.putFile plan site name content).2 := by
  rw [write_file]
  generalize Package.putFile plan site name content = r
  obtain ⟨e | path, site'⟩ := r <;> rfl

private theorem step_cases (plan : InstallPlan) (site : Site) (i : Install) :
    (step plan site i).2.2 = site ∨ ∃ name content,
      next? plan site i = site.sandbox.components? (Package.target plan.dir name) ∧
      (step plan site i).2.2.sandbox = site.sandbox ∧
      (step plan site i).2.2.network = site.network ∧
      (step plan site i).2.2.host =
        (site.sandbox.put site.host (Package.target plan.dir name) content).2 := by
  cases i with
  | waiting uri => exact Or.inl (fetch_site plan uri site)
  | done uri r => exact Or.inl rfl
  | writing uri left written =>
    cases left with
    | nil => exact Or.inl rfl
    | cons entry left =>
      cases entry with
      | error e => exact Or.inl rfl
      | ok file =>
        obtain ⟨name, content⟩ := file
        refine Or.inr ⟨name, content, rfl, ?_⟩
        rw [step, write_site, Package.putFile_eq]
        dsimp only
        exact ⟨rfl, rfl, rfl⟩

/-- A site after installs have taken turns: all that they may have changed is in the sandbox. -/
structure Still (site t : Site) : Prop where
  sandbox : t.sandbox = site.sandbox
  network : t.network = site.network
  workDir : t.host.workDir = site.host.workDir
  stands : t.sandbox.Stands t.host
  outside : ∀ place, ¬ site.sandbox.base site.host <+: place →
    t.host.seen place = site.host.seen place

private theorem Still.base (still : Still site t) :
    t.sandbox.base t.host = site.sandbox.base site.host := by
  rw [still.sandbox]
  exact Sandbox.base_of_workDir still.workDir

private theorem Still.next? (still : Still site t) (i : Install) :
    i.next? plan t = i.next? plan site := by
  unfold Install.next?
  rw [still.sandbox]

private theorem Still.step (still : Still site t) (i : Install) :
    Still site (step plan t i).2.2 := by
  rcases step_cases plan t i with same | ⟨name, content, -, sandbox, network, put⟩
  · rw [same]
    exact still
  · have keeps := Sandbox.keeps_put t.sandbox t.host (Package.target plan.dir name) content
    have stands := Sandbox.stands_put still.stands (Package.target plan.dir name) content
    rw [← put] at keeps stands
    refine ⟨sandbox.trans still.sandbox, network.trans still.network,
      keeps.workDir.trans still.workDir, sandbox.symm ▸ stands, ?_⟩
    intro place outside
    have here := still.base.symm ▸ outside
    rw [put, Sandbox.seen_put_outside still.stands _ here]
    exact still.outside place outside

private theorem fileAt_step (still : Still site t)
    (off : ∀ q, next? plan t i = some q → place ≠ site.sandbox.base site.host ++ q) :
    (step plan t i).2.2.host.fileAt place = t.host.fileAt place := by
  rcases step_cases plan t i with same | ⟨name, content, isNext, -, -, put⟩
  · rw [same]
  · rw [put]
    rcases Sandbox.put_cases t.sandbox t.host (Package.target plan.dir name) content with
      ⟨e, -, same⟩ | ⟨q, found, -, -, replaced⟩
    · exact same.files place
    · have offHere := off q (isNext.trans found)
      rw [← still.base] at offHere
      exact replaced.elsewhere place offHere

def AlikeTo (plan : InstallPlan) (site : Site) (i : Install) (t u : Site) : Prop :=
  Sandbox.Alike (site.sandbox.base site.host) (attempted plan site i) t.host u.host

private theorem fetch_of_alike {uri : String} (t' : Still site t) (u' : Still site u)
    (fetched : FetchedApart plan site (.waiting uri)) :
    (fetch plan uri t).1 = (fetch plan uri u).1 := by
  have same : Package.fetch t.network t.host (Package.resolve plan.binaryRoot uri) =
      Package.fetch u.network u.host (Package.resolve plan.binaryRoot uri) := by
    rw [t'.network, u'.network, fetched uri rfl t.host t'.workDir t'.outside,
      fetched uri rfl u.host u'.workDir u'.outside]
  obtain ⟨told, there⟩ :=
    Package.fetchReported_eq t.network t.host (Package.resolve plan.binaryRoot uri)
  obtain ⟨told', here⟩ :=
    Package.fetchReported_eq u.network u.host (Package.resolve plan.binaryRoot uri)
  unfold fetch
  rw [there, here, same]
  generalize Package.fetch u.network u.host (Package.resolve plan.binaryRoot uri) = r
  obtain e | bytes := r
  · rfl
  · dsimp only
    split <;> rfl

private theorem step_agree (c : Install) (t' : Still site t) (u' : Still site u)
    (fetched : FetchedApart plan site c) (alike : AlikeTo plan site i t u)
    (inside : ∀ p, next? plan t c = some p → p ∈ attempted plan site i) :
    (step plan t c).1 = (step plan u c).1 ∧
      AlikeTo plan site i (step plan t c).2.2 (step plan u c).2.2 := by
  cases c with
  | done uri r => exact ⟨rfl, alike⟩
  | waiting uri =>
    refine ⟨fetch_of_alike t' u' fetched, ?_⟩
    rw [step, step, fetch_site, fetch_site]
    exact alike
  | writing uri left done =>
    cases left with
    | nil => exact ⟨rfl, alike⟩
    | cons entry left =>
      cases entry with
      | error e => exact ⟨rfl, alike⟩
      | ok file =>
        obtain ⟨name, content⟩ := file
        have sandbox : u.sandbox = t.sandbox := u'.sandbox.trans t'.sandbox.symm
        have workDir : u.host.workDir = t.host.workDir := u'.workDir.trans t'.workDir.symm
        have there := u'.stands
        rw [sandbox] at there
        rw [AlikeTo, ← t'.base] at alike
        rw [next?] at inside
        obtain ⟨result, after⟩ := alike.put content t'.stands there workDir inside
        rw [step, step, write_file, write_file, Package.putFile_eq, Package.putFile_eq, sandbox]
        rw [AlikeTo, ← t'.base]
        generalize t.sandbox.put t.host (Package.target plan.dir name) content = r at result after ⊢
        generalize t.sandbox.put u.host (Package.target plan.dir name) content = r' at result after ⊢
        obtain ⟨outcome, h⟩ := r
        obtain ⟨outcome', h'⟩ := r'
        obtain rfl : outcome = outcome' := result
        cases outcome <;> exact ⟨rfl, after⟩

private theorem step_spares (c : Install) (t' : Still site t) (alike : AlikeTo plan site j t u)
    (apart : ∀ q, next? plan t c = some q →
      ∀ p ∈ attempted plan site j, ¬ p <+: q ∧ ¬ q <+: p) :
    AlikeTo plan site j (step plan t c).2.2 u := by
  rcases step_cases plan t c with same | ⟨name, content, isNext, -, -, put⟩
  · rw [same]
    exact alike
  · rw [AlikeTo, put]
    rw [AlikeTo, ← t'.base] at alike
    rw [← t'.base]
    rw [isNext] at apart
    exact alike.put_apart t'.stands apart

private theorem idle_of_over (ended : i.Over) : Turns.Idle (step plan) i := by
  cases i with
  | done uri r => exact fun _ => rfl
  | waiting uri => cases ended
  | writing uri left done => cases ended

private theorem next?_of_over (ended : i.Over) (site : Site) : next? plan site i = none := by
  cases i with
  | done uri r => rfl
  | waiting uri => cases ended
  | writing uri left done => cases ended

private theorem still_repeated (plan : InstallPlan) (stands : site.sandbox.Stands site.host)
    (n : Nat) (i : Install) :
    Still site (Turns.repeated (step plan) n site i).2.2 := by
  induction n with
  | zero => exact ⟨rfl, rfl, rfl, stands, fun _ _ => rfl⟩
  | succ n ih =>
    rw [(Turns.repeated_succ (step plan) n site i).2]
    exact ih.step _

private theorem mem_attempts {m n : Nat} (less : n < m)
    (isNext : next? plan (Turns.repeated (step plan) n site i).2.2
      (Turns.repeated (step plan) n site i).1 = some p) : p ∈ attempts plan m site i := by
  induction n generalizing m site i with
  | zero =>
    obtain ⟨m, rfl⟩ := Nat.exists_eq_add_of_lt less
    have first : next? plan site i = some p := isNext
    rw [Nat.zero_add, attempts, first]
    exact List.mem_append_left _ List.mem_cons_self
  | succ n ih =>
    cases m with
    | zero => cases less
    | succ m =>
      have later := ih (Nat.lt_of_succ_lt_succ less) isNext
      exact List.mem_append_right _ later

private theorem mem_attempted {n : Nat}
    (isNext : next? plan (Turns.repeated (step plan) n site i).2.2
      (Turns.repeated (step plan) n site i).1 = some p) : p ∈ attempted plan site i := by
  refine mem_attempts ?_ isNext
  rcases Nat.lt_or_ge n ((step plan site i).1.stepsLeft + 1) with less | more
  · exact less
  · have ended : (Turns.repeated (step plan) ((step plan site i).1.stepsLeft + 1) site i).1.Over :=
      over_run plan site i
    obtain ⟨rest, rfl⟩ := Nat.exists_eq_add_of_le more
    obtain ⟨job, -⟩ :=
      Turns.repeated_add (step plan) ((step plan site i).1.stepsLeft + 1) rest site i
    rw [Turns.repeated_of_idle (idle_of_over ended)] at job
    rw [job, next?_of_over ended] at isNext
    cases isNext

private theorem eq_waiting_of_repeated {n : Nat} {uri : String}
    (waits : (Turns.repeated (step plan) n site i).1 = .waiting uri) : i = .waiting uri := by
  cases n with
  | zero => exact waits
  | succ n =>
    rw [(Turns.repeated_succ (step plan) n site i).1] at waits
    exact absurd waits ((stepped plan _ _).begun uri)

/-- A site after some installs have taken turns: no other files have changed than theirs. -/
structure Within (plan : InstallPlan) (site : Site) (jobs : List Install) (t : Site) : Prop where
  still : Still site t
  files : ∀ place, (∀ i ∈ jobs, ∀ p ∈ attempted plan site i,
    place ≠ site.sandbox.base site.host ++ p) → t.host.fileAt place = site.host.fileAt place

private theorem mem_attempted_of_still (stands : site.sandbox.Stands site.host) (t' : Still site t)
    (n : Nat)
    (isNext : next? plan t (Turns.repeated (step plan) n site i).1 = some p) :
    p ∈ attempted plan site i := by
  have still := still_repeated plan stands n i
  have alone : next? plan (Turns.repeated (step plan) n site i).2.2
      (Turns.repeated (step plan) n site i).1 = some p := by
    rw [still.next?, ← t'.next?, isNext]
  exact mem_attempted alone

private theorem spares_of_apart (stands : site.sandbox.Stands site.host)
    (apart : Apart plan site i j) :
    Turns.Spares (step plan) site (Within plan site jobs) (AlikeTo plan site) i j := by
  intro n t t' within alike
  have elsewhere : ∀ q, next? plan t (Turns.repeated (step plan) n site i).1 = some q →
      ∀ p ∈ attempted plan site j, ¬ p <+: q ∧ ¬ q <+: p := by
    intro q isNext p hp
    exact (apart q (mem_attempted_of_still stands within.still n isNext) p hp).symm
  have spared := step_spares (Turns.repeated (step plan) n site i).1 within.still alike elsewhere
  exact spared

private theorem Within.step (stands : site.sandbox.Stands site.host)
    (within : Within plan site jobs t)
    (hi : i ∈ jobs) (n : Nat) :
    Within plan site jobs
      (Install.step plan t (Turns.repeated (Install.step plan) n site i).1).2.2 := by
  refine ⟨within.still.step _, ?_⟩
  intro place off
  have elsewhere : ∀ q, Install.next? plan t (Turns.repeated (Install.step plan) n site i).1 = some q →
      place ≠ site.sandbox.base site.host ++ q := by
    intro q isNext
    exact off i hi q (mem_attempted_of_still stands within.still n isNext)
  rw [fileAt_step within.still elsewhere]
  exact within.files place off

private theorem step_as_alone (stands : site.sandbox.Stands site.host)
    (fetched : FetchedApart plan site i) (t' : Still site t) (n : Nat)
    (alike : AlikeTo plan site i t (Turns.repeated (step plan) n site i).2.2) :
    (step plan t (Turns.repeated (step plan) n site i).1).1 =
        (Turns.repeated (step plan) (n + 1) site i).1 ∧
      AlikeTo plan site i (step plan t (Turns.repeated (step plan) n site i).1).2.2
        (Turns.repeated (step plan) (n + 1) site i).2.2 := by
  have reads : FetchedApart plan site (Turns.repeated (step plan) n site i).1 := by
    intro uri waits
    exact fetched uri (eq_waiting_of_repeated waits)
  rw [(Turns.repeated_succ (step plan) n site i).1, (Turns.repeated_succ (step plan) n site i).2]
  have attempts : ∀ p, next? plan t (Turns.repeated (step plan) n site i).1 = some p →
      p ∈ attempted plan site i := by
    intro p isNext
    exact mem_attempted_of_still stands t' n isNext
  have agree := step_agree (Turns.repeated (step plan) n site i).1 t'
    (still_repeated plan stands n i) reads alike attempts
  exact agree

private theorem independent (stands : site.sandbox.Stands site.host)
    (fetched : ∀ i ∈ jobs, FetchedApart plan site i) (apart : jobs.Pairwise (Apart plan site)) :
    Turns.Independent (step plan) site (Within plan site jobs) (AlikeTo plan site) jobs where
  kept := ⟨⟨rfl, rfl, rfl, stands, fun _ _ => rfl⟩, fun _ _ => rfl⟩
  alike _ _ _ _ := ⟨rfl, fun _ _ => rfl⟩
  keeps _ hi n _ within := within.step stands hi n
  own _ hi n _ within alike := step_as_alone stands (fetched _ hi) within.still n alike
  others := apart.imp fun apart => ⟨spares_of_apart stands apart, spares_of_apart stands apart.symm⟩

private theorem alone_of_taken {reports : List Event} (stands : site.sandbox.Stands site.host)
    (fetched : ∀ i ∈ jobs, FetchedApart plan site i) (apart : jobs.Pairwise (Apart plan site))
    (taken : Turns.Taken (step plan) site jobs reports t jobs') (ended : ∀ i ∈ jobs', i.Over) :
    jobs' = jobs.map (fun i => (run plan site i).1) ∧ Within plan site jobs t ∧
      ∀ i ∈ jobs, ∀ p ∈ attempted plan site i,
        t.host.fileAt (site.sandbox.base site.host ++ p) =
          (run plan site i).2.2.host.fileAt (site.sandbox.base site.host ++ p) := by
  obtain ⟨within, counted, rfl, rfl, alike⟩ := taken.alone (independent stands fetched apart)
  have ended : ∀ c ∈ counted,
      (Turns.repeated (step plan) c.2 site c.1).1 = (run plan site c.1).1 ∧
        (Turns.repeated (step plan) c.2 site c.1).2.2 = (run plan site c.1).2.2 := by
    intro c hc
    have first := ended _ (List.mem_map_of_mem hc)
    have second : (Turns.repeated (step plan) ((step plan site c.1).1.stepsLeft + 1) site c.1).1.Over :=
      over_run plan site c.1
    exact Turns.repeated_eq_of_idle (idle_of_over first) (idle_of_over second)
  refine ⟨?_, within, ?_⟩
  · rw [List.map_map]
    exact List.map_congr_left fun c hc => (ended c hc).1
  · intro i hi p hp
    obtain ⟨c, hc, rfl⟩ := List.mem_map.mp hi
    have files := (alike c hc p hp).2 p (List.prefix_refl p)
    rwa [(ended c hc).2] at files

private theorem fileAt_eq_of_alone {t t' : Site} {order : List Install}
    (first : Within plan site jobs t) (second : Within plan site order t')
    (same : ∀ i, i ∈ order ↔ i ∈ jobs)
    (files : ∀ i ∈ jobs, ∀ p ∈ attempted plan site i,
      t.host.fileAt (site.sandbox.base site.host ++ p) =
        (run plan site i).2.2.host.fileAt (site.sandbox.base site.host ++ p))
    (files' : ∀ i ∈ order, ∀ p ∈ attempted plan site i,
      t'.host.fileAt (site.sandbox.base site.host ++ p) =
        (run plan site i).2.2.host.fileAt (site.sandbox.base site.host ++ p))
    (place : List String) : t.host.fileAt place = t'.host.fileAt place := by
  by_cases theirs : ∃ i ∈ jobs, ∃ p ∈ attempted plan site i, place = site.sandbox.base site.host ++ p
  · obtain ⟨i, hi, p, hp, rfl⟩ := theirs
    rw [files i hi p hp, files' i ((same i).mpr hi) p hp]
  · have off : ∀ i ∈ jobs, ∀ p ∈ attempted plan site i, place ≠ site.sandbox.base site.host ++ p :=
      fun i hi p hp isPlace => theirs ⟨i, hi, p, hp, isPlace⟩
    rw [first.files place off, second.files place fun i hi => off i ((same i).mp hi)]

/-- Installs whose files lie apart end as each would have ended alone, and leave the same files,
whatever turns they take and in whatever order they are run one after another. -/
theorem interleaved_eq_serial (plan : InstallPlan) (schedule : List Nat) (site : Site)
    (jobs : List Install) (stands : site.sandbox.Stands site.host)
    (fetched : ∀ i ∈ jobs, FetchedApart plan site i)
    (apart : jobs.Pairwise (Apart plan site)) :
    let together := Turns.all (step plan) (run plan) schedule site jobs
    together.1 = jobs.map (fun i => (run plan site i).1) ∧
    ∀ order, order.Perm jobs →
      let serial := Turns.inOrder (run plan) site order
      serial.1 = order.map (fun i => (run plan site i).1) ∧
      ∀ place, together.2.2.host.fileAt place = serial.2.2.host.fileAt place := by
  intro together
  have repeats := repeats_run plan
  have taken := Turns.taken_all repeats schedule site jobs
  have ended := Turns.over_all (step plan) (over_run plan) schedule site jobs
  obtain ⟨alone, within, files⟩ := alone_of_taken stands fetched apart taken ended
  refine ⟨alone, ?_⟩
  intro order perm serial
  have mem (i : Install) : i ∈ order ↔ i ∈ jobs := perm.mem_iff
  have taken' := Turns.taken_inOrder repeats site order
  have ended' := Turns.over_inOrder (over_run plan) site order
  have apart' : order.Pairwise (Apart plan site) :=
    apart.perm perm.symm Apart.symm
  obtain ⟨alone', within', files'⟩ := alone_of_taken stands
    (fun i hi => fetched i ((mem i).mp hi)) apart' taken' ended'
  exact ⟨alone', fileAt_eq_of_alone within within' mem files files'⟩

/-- Three installs, two of which have a directory in common, and one of these fails when it takes
its first file for a directory. -/
def neighbours : List Install :=
  [.waiting "/p", .writing "a" [.ok ("shared/x", [1]), .ok ("shared/x/y", [2])] [],
    .writing "b" [.ok ("shared/z", [3]), .ok ("deep/z", [4])] []]

def neighbourPlan : InstallPlan := ⟨"", "pkg"⟩

theorem interleaved_eq_serial_neighbours :
    Package.escapingSite.sandbox.Stands Package.escapingSite.host ∧
      (∀ i ∈ neighbours, FetchedApart neighbourPlan Package.escapingSite i) ∧
      neighbours.Pairwise (Apart neighbourPlan Package.escapingSite) ∧
      ∀ place, (Turns.all (step neighbourPlan) (run neighbourPlan) [2, 0, 1, 1, 2]
          Package.escapingSite neighbours).2.2.host.fileAt place =
        (Turns.inOrder (run neighbourPlan) Package.escapingSite
          neighbours.reverse).2.2.host.fileAt place := by
  have top : Package.escapingSite.sandbox.base Package.escapingSite.host = ["vfs"] := by
    decide +kernel
  have stands : Package.escapingSite.sandbox.Stands Package.escapingSite.host :=
    ⟨rfl, top ▸ ⟨[], rfl⟩⟩
  have fetched : ∀ i ∈ neighbours, FetchedApart neighbourPlan Package.escapingSite i := by
    have outside : FetchedApart neighbourPlan Package.escapingSite (.waiting "/p") := by
      have names : Host.names "/p" = ["p"] := by decide +kernel
      have isPath : Package.localPath (Package.resolve neighbourPlan.binaryRoot "/p") = "/p" := by
        decide +kernel
      refine fetchedApart_of_outside isPath ?_ ?_
      · rw [names]
        exact List.forall_mem_singleton.mpr
          ⟨by decide, by decide, by decide, by simp [Text.Path.NoSlash]⟩
      · rw [top, names]
        decide +kernel
    intro i hi uri waits
    subst waits
    have isFirst : uri = "/p" := by simpa [neighbours] using hi
    subst isFirst
    exact outside "/p" rfl
  have apart : neighbours.Pairwise (Apart neighbourPlan Package.escapingSite) := by decide +kernel
  have both := interleaved_eq_serial neighbourPlan [2, 0, 1, 1, 2] Package.escapingSite neighbours
    stands fetched apart
  have reversed := (both.2 neighbours.reverse neighbours.reverse_perm).2
  exact ⟨stands, fetched, apart, reversed⟩

end Install

end ProofHost
