import ProofHost.Proofs.Interrupt
import ProofHost.Proofs.Kernel.Execution

/-!
How the execution of a state ends. Only the states on the path that are not executed yet matter, in
their order: an interrupt that is seen stops at the first of them, a sentence that is rejected stops
where it stands, and otherwise all of them are executed. After a stop the failing state and what is
built on it are gone, and the kernel stands on the state before it.
-/

set_option autoImplicit false

namespace ProofHost

namespace SimulatedKernel

open Answer (executedIn issuedIn)
open Kernel (Act after answered)

variable {k k' : SimulatedKernel} {site site' : Site} {good bad id : StateId}
  {front later rest : List StateId} {reason : String} {n : Nat}

/-- The states among the given ones that are not executed, in their order. -/
def pending (k : SimulatedKernel) (branch : List StateId) : List StateId :=
  branch.filter fun x => !k.isExecuted x

def executing (k : SimulatedKernel) (ids : List StateId) : SimulatedKernel :=
  { k with executed := ids.reverse ++ k.executed }

def goneBack (k : SimulatedKernel) (good bad : StateId) : SimulatedKernel :=
  { k with document := (k.document.rollback good bad).2 }.prune

def Interrupted (k : SimulatedKernel) (site : Site) (pending : List StateId) : Prop :=
  site.interrupt.isSet = true ∧ 1 ≤ k.polls ∧ pending ≠ []

private theorem poll_of_isSet (isSet : site.interrupt.isSet = true) (some : 1 ≤ n) :
    poll n site = (true, site.takeInterrupt.2) := by
  obtain ⟨m, rfl⟩ := Nat.exists_eq_add_of_le' some
  have taken : site.takeInterrupt = (true, site.takeInterrupt.2) := by
    simp [Site.takeInterrupt, isSet]
  rw [poll, taken]

private theorem poll_of_not_seen (quiet : site.interrupt.isSet = true → n = 0) :
    poll n site = (false, site) := by
  induction n with
  | zero => rfl
  | succ n ih =>
    have clear : site.interrupt.isSet = false := by
      apply Bool.eq_false_iff.mpr
      intro isSet
      exact Nat.succ_ne_zero n (quiet isSet)
    have untaken : site.takeInterrupt = (false, site) := by
      simp [Site.takeInterrupt, clear]
    rw [poll, untaken]
    exact ih fun isSet => absurd isSet (by simp [clear])

private theorem poll_of_not_interrupted {ids : List StateId} (quiet : ¬ k.Interrupted site ids)
    (ne : ids ≠ []) : poll k.polls site = (false, site) := by
  apply poll_of_not_seen
  intro isSet
  by_contra some
  exact quiet ⟨isSet, Nat.one_le_iff_ne_zero.mpr some, ne⟩

private theorem isSet_takeInterrupt (isSet : site.interrupt.isSet = true) :
    site.takeInterrupt.2.interrupt.isSet = false := by
  simp [Site.takeInterrupt, isSet]

private theorem isExecuted_executing {ids : List StateId} {x : StateId} :
    (k.executing ids).isExecuted x = true ↔ x ∈ ids ∨ k.isExecuted x = true := by
  simp [isExecuted, executing]

private theorem executeAfter_skip (executed : k.isExecuted id = true) :
    k.executeAfter site good (id :: rest) = k.executeAfter site id rest := by
  rw [executeAfter, if_pos executed]

private theorem executeAfter_next (site : Site) (waits : k.pending rest = id :: later)
    (linked : (good :: rest).IsChain fun p x => k.document.parentOf x = some p)
    (executed : k.isExecuted good = true) :
    ∃ p more, k.isExecuted p = true ∧ k.isExecuted id = false ∧ k.pending more = later ∧
      (p :: id :: more).IsChain (fun p x => k.document.parentOf x = some p) ∧
      (id :: more).Sublist rest ∧
      k.executeAfter site good rest = k.executeAfter site p (id :: more) := by
  induction rest generalizing good with
  | nil => cases waits
  | cons x rest ih =>
    by_cases already : k.isExecuted x = true
    · have passed : k.pending (x :: rest) = k.pending rest :=
        List.filter_cons_of_neg (by simp [already])
      rw [passed] at waits
      obtain ⟨p, more, executedP, new, others, chain, sub, same⟩ :=
        ih waits (List.isChain_cons_cons.mp linked).2 already
      exact ⟨p, more, executedP, new, others, chain, sub.cons x,
        (executeAfter_skip already).trans same⟩
    · have new : k.isExecuted x = false := by simpa using already
      have first : k.pending (x :: rest) = x :: k.pending rest :=
        List.filter_cons_of_pos (by simp [new])
      rw [first] at waits
      obtain ⟨rfl, others⟩ := List.cons.inj waits
      exact ⟨good, rest, executed, new, others, linked, List.Sublist.refl _, rfl⟩

private theorem executeAfter_of_pending_eq_nil (site : Site) (good : StateId)
    (none : k.pending rest = []) :
    k.executeAfter site good rest = ([], k, site) := by
  induction rest generalizing good with
  | nil => rfl
  | cons x rest ih =>
    have all := List.filter_eq_nil_iff.mp none
    have executed : k.isExecuted x = true := by simpa using all x List.mem_cons_self
    rw [executeAfter_skip executed]
    apply ih
    exact List.filter_eq_nil_iff.mpr fun y mem => all y (List.mem_cons_of_mem x mem)

private theorem executeAfter_accepted (new : k.isExecuted id = false)
    (quiet : poll k.polls site = (false, site)) (accepted : k.reject (k.textOf id) = none) :
    k.executeAfter site good (id :: rest) =
      (processed id :: ((k.executing [id]).executeAfter site id rest).1,
        ((k.executing [id]).executeAfter site id rest).2) := by
  rw [executeAfter]
  simp only [new, quiet, accepted]
  rfl

private theorem executeAfter_rejected (good : StateId) (rest : List StateId)
    (new : k.isExecuted id = false)
    (quiet : poll k.polls site = (false, site)) (no : k.reject (k.textOf id) = some reason) :
    k.executeAfter site good (id :: rest) =
      ([.failed (some (Span.ofText (k.textOf id))) (some (good, id)) reason],
        k.goneBack good id, site) := by
  rw [executeAfter]
  simp only [new, quiet, no]
  rfl

private theorem executeAfter_interrupted (good : StateId) (rest : List StateId)
    (new : k.isExecuted id = false) (seen : poll k.polls site = (true, site')) :
    k.executeAfter site good (id :: rest) =
      ([.failed none (some (good, id)) "User interrupt."], k.goneBack good id, site') := by
  rw [executeAfter]
  simp only [new, seen]
  rfl

private theorem pending_executing (new : id ∉ rest) :
    (k.executing [id]).pending rest = k.pending rest := by
  apply List.filter_congr
  intro x mem
  have ne : x ≠ id := fun same => new (same ▸ mem)
  have same : (k.executing [id]).isExecuted x = k.isExecuted x := by
    apply Bool.eq_iff_iff.mpr
    rw [isExecuted_executing, List.mem_singleton, or_iff_right ne]
  rw [same]

/-- The pending states whose texts are accepted are executed one after another, and the execution
goes on with those after them. -/
private theorem executeAfter_front (site : Site) (waits : k.pending rest = front ++ later)
    (linked : (good :: rest).IsChain fun p x => k.document.parentOf x = some p)
    (once : rest.Nodup) (executed : k.isExecuted good = true)
    (quiet : front ≠ [] → poll k.polls site = (false, site))
    (accepted : ∀ x ∈ front, k.reject (k.textOf x) = none) :
    ∃ p more, (k.executing front).isExecuted p = true ∧ (k.executing front).pending more = later ∧
      (p :: more).IsChain (fun p x => k.document.parentOf x = some p) ∧
      k.executeAfter site good rest =
        (front.map processed ++ ((k.executing front).executeAfter site p more).1,
          ((k.executing front).executeAfter site p more).2) := by
  -- Each step executes the first of the pending states, so the induction is on these.
  induction front generalizing k good rest with
  | nil => exact ⟨good, rest, executed, waits, linked, rfl⟩
  | cons id front ih =>
    obtain ⟨acceptedId, acceptedFront⟩ := List.forall_mem_cons.mp accepted
    obtain ⟨p, more, -, new, others, chain, sub, same⟩ :=
      executeAfter_next site waits linked executed
    obtain ⟨notLater, onceMore⟩ := List.nodup_cons.mp (once.sublist sub)
    have still : (k.executing [id]).pending more = front ++ later :=
      (pending_executing notLater).trans others
    have nowExecuted : (k.executing [id]).isExecuted id = true :=
      isExecuted_executing.mpr (Or.inl (List.mem_singleton_self id))
    have quietNow := quiet (List.cons_ne_nil id front)
    obtain ⟨p', more', executed', waits', chain', run⟩ :=
      ih (k := k.executing [id]) still (List.isChain_cons_cons.mp chain).2 onceMore nowExecuted
        (fun _ => quietNow) acceptedFront
    have whole : (k.executing [id]).executing front = k.executing (id :: front) := by
      simp [executing]
    rw [whole] at executed' waits' run
    refine ⟨p', more', executed', waits', chain', ?_⟩
    rw [same, executeAfter_accepted new quietNow acceptedId, run]
    rfl

/-- What has become of a kernel that went back from a bad state to the good one before it: exactly
the bad state and what is built on it are no longer live, the good one is the tip, and its goals can
be asked for. -/
structure WentBack (k k' : SimulatedKernel) (good bad : StateId) : Prop where
  live : ∀ x, k'.document.isLive x = true ↔
    k.document.isLive x = true ∧ x ≠ bad ∧ ¬ k.document.BuiltOn bad x
  tip : k'.document.tip = some good
  goals : ∀ line site, Command.decode line = .ok (.goals good) →
    ∃ goals, (k'.post line site).1 = ⟨[(Answer.goalInfo good goals).encode], none⟩

private theorem rollback_child_eq {d : Document} (numbered : d.Numbered n)
    (live : d.isLive bad = true)
    (parent : d.parentOf bad = some good) :
    d.isLive good = true ∧
      (d.rollback good bad).2 = { d.prune bad with tip := some good } := by
  obtain ⟨root, rooted⟩ := numbered.rooted_of_isLive live
  have notRoot : bad ≠ root := by
    rintro rfl
    simp [rooted.topmost] at parent
  obtain ⟨p, isParent, liveParent, -⟩ := rooted.parent bad live notRoot
  obtain rfl : p = good := Option.some.inj (isParent.symm.trans parent)
  have notIsRoot : d.root ≠ some bad := by
    rw [rooted.isRoot]
    exact fun same => notRoot (Option.some.inj same).symm
  have hasRoot : d.root.isSome = true := by simp [rooted.isRoot]
  obtain ⟨tip, isTip, -⟩ := (rooted.prune live notRoot).liveTip
  have accepted : d.ensureLive p = .ok () := by
    simp [Document.ensureLive, rooted.isRoot, liveParent]
  have removes : (d.isLive bad && d.root != some bad) = true := by simp [live, notIsRoot]
  refine ⟨liveParent, ?_⟩
  simp only [Document.rollback, accepted, removes, if_true,
    Document.cancel_eq hasRoot live notIsRoot, isTip]
  rfl

private theorem wentBack_goneBack (booted : k.booted = true) (numbered : k.document.Numbered n)
    (live : k.document.isLive bad = true) (parent : k.document.parentOf bad = some good)
    (executed : k.isExecuted good = true) : WentBack k (k.goneBack good bad) good bad := by
  obtain ⟨root, rooted⟩ := numbered.rooted_of_isLive live
  obtain ⟨liveGood, gone⟩ := rollback_child_eq numbered live parent
  have document : (k.goneBack good bad).document = { k.document.prune bad with tip := some good } :=
    gone
  have stays (x : StateId) : (k.goneBack good bad).document.isLive x = true ↔
      k.document.isLive x = true ∧ x ≠ bad ∧ ¬ k.document.BuiltOn bad x := by
    have moved : (k.goneBack good bad).document.isLive x = (k.document.prune bad).isLive x := by
      rw [document]
      rfl
    have built : k.document.GrownOn bad x ↔ k.document.BuiltOn bad x :=
      ⟨Document.GrownOn.builtOn, rooted.toBranching.grownOn⟩
    rw [moved, Document.isLive_prune, Document.mem_subtree_iff rooted.ascending, not_or, built]
  have less : good < bad := rooted.toBranching.lt_of_parentOf live parent
  have apart : ¬ k.document.BuiltOn bad good := by
    intro below
    exact UInt64.lt_irrefl _ (UInt64.lt_trans less (rooted.toBranching.lt_of_builtOn below))
  have stillLive : (k.goneBack good bad).document.isLive good = true :=
    (stays good).mpr ⟨liveGood, UInt64.ne_of_lt less, apart⟩
  have stillExecuted : (k.goneBack good bad).isExecuted good = true :=
    isExecuted_prune.mpr ⟨executed, stillLive⟩
  refine ⟨stays, by rw [document], ?_⟩
  intro line site asked
  have serves : (k.goneBack good bad).booted = true := booted
  refine ⟨((k.goneBack good bad).goals good).filter fun g => g != .null, ?_⟩
  rw [post_command serves asked, serve]
  simp [stillExecuted, stillLive, Answer.ofGoals]

/-- What a kernel replies when the given states are pending, and what has become of it and of its
place then. -/
structure Verdict (k : SimulatedKernel) (site : Site) (pending : List StateId)
    (next : Reply × SimulatedKernel × Site) : Prop where
  interrupted : ∀ first later, k.Interrupted site pending → pending = first :: later →
    ∃ good, k.document.parentOf first = some good ∧
      next.1 = ⟨[(Answer.failed none (some (good, first)) "User interrupt.").encode], none⟩ ∧
      WentBack k next.2.1 good first ∧
      next.2.2 = site.takeInterrupt.2 ∧ next.2.2.interrupt.isSet = false
  rejected : ∀ front bad later reason, ¬ k.Interrupted site pending →
    pending = front ++ bad :: later → (∀ x ∈ front, k.reject (k.textOf x) = none) →
    k.reject (k.textOf bad) = some reason →
    ∃ good, k.document.parentOf bad = some good ∧
      next.1 = ⟨(front.map processed ++
        [.failed (some ⟨0, (k.textOf bad).utf8ByteSize.toUInt64, 1, 0⟩) (some (good, bad))
          reason]).map Answer.encode, none⟩ ∧
      WentBack k next.2.1 good bad ∧ next.2.2 = site
  accepted : ¬ k.Interrupted site pending → (∀ x ∈ pending, k.reject (k.textOf x) = none) →
    next.1 = ⟨(pending.map processed).map Answer.encode, none⟩ ∧
      next.2.1.document = k.document ∧ next.2.2 = site

private theorem verdict_executeAfter (booted : k.booted = true) (numbered : k.document.Numbered n)
    (linked : (good :: rest).IsChain fun p x => k.document.parentOf x = some p)
    (once : rest.Nodup) (live : ∀ x ∈ rest, k.document.isLive x = true)
    (executed : k.isExecuted good = true) {next : Reply × SimulatedKernel × Site}
    (isNext : next = (⟨(k.executeAfter site good rest).1.map Answer.encode, none⟩,
      (k.executeAfter site good rest).2)) : Verdict k site (k.pending rest) next := by
  have liveOf {x : StateId} (mem : x ∈ k.pending rest) : k.document.isLive x = true :=
    live x (List.mem_of_mem_filter mem)
  refine ⟨?_, ?_, ?_⟩
  · rintro first later ⟨isSet, some, -⟩ waits
    obtain ⟨p, more, executedP, new, -, chain, -, same⟩ :=
      executeAfter_next site waits linked executed
    have parent := (List.isChain_cons_cons.mp chain).1
    have stopped := executeAfter_interrupted p more new
      (poll_of_isSet isSet some)
    have liveFirst := liveOf (waits ▸ List.mem_cons_self)
    rw [isNext, same, stopped]
    exact ⟨p, parent, rfl, wentBack_goneBack booted numbered liveFirst parent executedP, rfl,
      isSet_takeInterrupt isSet⟩
  · intro front bad later reason quiet waits accepted no
    have notSeen := poll_of_not_interrupted quiet (by rw [waits]; simp)
    obtain ⟨q, more, executedQ, others, chain, run⟩ := executeAfter_front site waits
      linked once executed (fun _ => notSeen) accepted
    obtain ⟨p, final, executedP, new, -, chain, -, same⟩ :=
      executeAfter_next (k := k.executing front) site others chain executedQ
    have parent := (List.isChain_cons_cons.mp chain).1
    have stopped := executeAfter_rejected (k := k.executing front) p final new
      notSeen no
    have liveBad := liveOf (waits ▸ List.mem_append_right front List.mem_cons_self)
    have back : WentBack (k.executing front) ((k.executing front).goneBack p bad) p bad :=
      wentBack_goneBack booted numbered liveBad parent executedP
    rw [isNext, run, same, stopped]
    exact ⟨p, parent, rfl, ⟨back.live, back.tip, back.goals⟩, rfl⟩
  · intro quiet accepted
    have notSeen (ne : k.pending rest ≠ []) := poll_of_not_interrupted quiet ne
    obtain ⟨q, more, -, none, -, run⟩ := executeAfter_front site
      (List.append_nil _).symm linked once executed notSeen accepted
    have finished := executeAfter_of_pending_eq_nil site q none
    rw [isNext, run, finished, List.append_nil]
    exact ⟨rfl, rfl, rfl⟩

private theorem post_exec (booted : k.booted = true) {line : String}
    (asked : Command.decode line = .ok (.exec id))
    (path : k.document.path id = .ok (good :: rest)) (site : Site) :
    k.post line site = (⟨(k.executeAfter site good rest).1.map Answer.encode, none⟩,
      (k.executeAfter site good rest).2) := by
  rw [post_command booted asked, serve, execute]
  simp only [path]

/--
In every run of a started kernel that gives out no more numbers than there are, each command to
execute a live state ends in the one way that the states on its path that are not executed, the
checker, the number of polls and the interrupt flag decide.
-/
theorem execution_ends_as_decided {reject : String → Option String} {polls : Nat}
    {order : BootOrder} (started : (new reject polls).boot order site' = (.ok (), k, site))
    (acts : List Act) (few : issuedIn (answered (k, site) acts) < UInt64.size) {line : String}
    (asked : Command.decode line = .ok (.exec id))
    (live : (after (k, site) acts).1.document.isLive id = true) :
    let s := after (k, site) acts
    ∃ branch, s.1.document.path id = .ok branch ∧
      Verdict s.1 s.2 (s.1.pending branch) (s.1.post line s.2) := by
  intro s
  have enough : 0 + issuedIn (answered (k, site) acts) ≤ StateId.greatest.toNat := by
    rw [Nat.zero_add]
    exact Nat.le_of_lt_succ few
  have start : Tracked 0 [] k := tracked_boot started
  have tracked := (start.run (s := (k, site)) acts enough).1
  obtain ⟨top, rooted⟩ := tracked.numbered.rooted_of_isLive live
  obtain ⟨branch, path, isBranch⟩ := rooted.path live
  obtain ⟨rest, rfl⟩ : ∃ rest, branch = top :: rest := List.head?_eq_some_iff.mp isBranch.starts
  have executed : s.1.isExecuted top = true :=
    (tracked.executed top).mpr ⟨rooted.liveRoot, Or.inl rooted.isRoot⟩
  have waits : s.1.pending (top :: rest) = s.1.pending rest :=
    List.filter_cons_of_neg (by simp [executed])
  have once : rest.Nodup :=
    (List.pairwise_cons.mp isBranch.increasing).2.imp fun less => UInt64.ne_of_lt less
  refine ⟨top :: rest, path, ?_⟩
  rw [waits]
  exact verdict_executeAfter tracked.booted tracked.numbered isBranch.linked once
    (fun x mem => isBranch.live x (List.mem_cons_of_mem top mem)) executed
    (post_exec tracked.booted asked path s.2)

def stubborn : SimulatedKernel :=
  { new (fun text => if text = "b." then some "no" else none) 1 with booted := true }

def threeSentences : List Act :=
  .post (Command.encode .init) ::
    ["a.", "b.", "c."].map fun text => .post (Command.encode (.add none none text false))

theorem execution_ends_as_decided_rejected :
    let s := after (stubborn, bareSite) threeSentences
    let next := s.1.post (Command.encode (.exec 4)) s.2
    s.1.pending [1, 2, 3, 4] = [2, 3, 4] ∧
      next.1 = ⟨[.feedback ⟨2, 0, .info, .array [.string "Processed"]⟩,
        .failed (some ⟨0, 2, 1, 0⟩) (some (2, 3)) "no"].map Answer.encode, none⟩ ∧
      next.2.1.document.tip = some 2 := by
  have document : (after (stubborn, bareSite) threeSentences).1.document =
      ⟨[⟨1, none, "", true⟩, ⟨2, some 1, "a.", true⟩, ⟨3, some 2, "b.", true⟩,
        ⟨4, some 3, "c.", true⟩], some 1, some 4, 5⟩ := by
    decide +kernel
  have executed : (after (stubborn, bareSite) threeSentences).1.executed = [1] := by
    decide +kernel
  have calm : (after (stubborn, bareSite) threeSentences).2.interrupt.isSet = false := by
    decide +kernel
  have checked : (after (stubborn, bareSite) threeSentences).1.reject "a." = none ∧
      (after (stubborn, bareSite) threeSentences).1.reject "b." = some "no" := by
    decide +kernel
  have live : (after (stubborn, bareSite) threeSentences).1.document.isLive 4 = true := by
    rw [document]
    decide
  have started : (new stubborn.reject 1).boot ⟨"/k", []⟩ bareSite = (.ok (), stubborn, bareSite) :=
    boot_bareSite _ _
  have few : issuedIn (answered (stubborn, bareSite) threeSentences) < UInt64.size :=
    Nat.lt_of_le_of_lt (issuedIn_answered_le (serving_boot started) _) (by decide)
  have asked : Command.decode (Command.encode (.exec 4)) = .ok (.exec 4) := Command.decode_encode _
  have decided := execution_ends_as_decided started threeSentences few asked live
  -- From here on only these facts of the reached state count, not how it was reached.
  generalize after (stubborn, bareSite) threeSentences = s
    at document executed calm checked decided ⊢
  obtain ⟨branch, path, verdict⟩ := decided
  have isBranch : branch = [1, 2, 3, 4] := by
    rw [document] at path
    exact (Except.ok.inj path).symm
  have waits : s.1.pending [1, 2, 3, 4] = [2, 3, 4] := by
    simp only [pending, isExecuted, executed]
    decide
  rw [isBranch, waits] at verdict
  have textA : s.1.textOf 2 = "a." := by
    simp only [textOf, document]
    decide
  have textB : s.1.textOf 3 = "b." := by
    simp only [textOf, document]
    decide
  have quiet : ¬ s.1.Interrupted s.2 [2, 3, 4] := by
    rintro ⟨isSet, -⟩
    simp [calm] at isSet
  have before : ∀ x ∈ [2], s.1.reject (s.1.textOf x) = none := by
    rw [List.forall_mem_singleton, textA]
    exact checked.1
  have stop : s.1.reject (s.1.textOf 3) = some "no" := by
    rw [textB]
    exact checked.2
  obtain ⟨good, parent, told, back, -⟩ := verdict.rejected [2] 3 [4] "no" quiet rfl before stop
  have isGood : good = 2 := by
    rw [document] at parent
    exact (Option.some.inj parent).symm
  subst isGood
  rw [textB] at told
  exact ⟨waits, told, back.tip⟩

end SimulatedKernel

end ProofHost
