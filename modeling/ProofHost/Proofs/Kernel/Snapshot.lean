import ProofHost.Proofs.Kernel.Execution

/-!
Goals that a kernel inside the host has shown once. The snapshot of a state is worked out anew at
each question, from the texts along its path; but no command changes what a recorded state is built
on or what it says, and none takes a live state out of the executed ones. So as long as the state is
live, each later question about it is answered in the same words.
-/

set_option autoImplicit false

namespace ProofHost

namespace SimulatedKernel

open Answer (executedIn issuedIn)
open Kernel (Act after answered answered_post answered_append)

variable {k k' : SimulatedKernel} {site site' : Site} {c : Command} {answers : List Answer}
  {good id : StateId} {done done' rest : List StateId} {n n' : Nat}

private theorem Execution.retained (run : Execution k good rest answers k') :
    k.document.Retained k'.document := by
  induction run with
  | done k _ => exact .refl k.document
  | skip _ _ ih => exact ih
  | @stop k good id => exact (Document.Continued.rollback k.document good id).retained
  | go _ _ ih => exact ih

private theorem Outcome.retained (outcome : Outcome k site c answers k' site')
    (numbered : k.document.Numbered n) (few : n + issuedIn answers ≤ StateId.greatest.toNat) :
    k.document.Retained k'.document := by
  -- Only a command that issues a state needs a number, so only then is room for one asked for.
  have fresh (issued : 1 ≤ issuedIn answers) :
      k.document.wasIssued k.document.issue.1 = false :=
    Document.wasIssued_of_above (numbered.fresh (by omega))
  cases outcome with
  | refused => exact .refl _
  | shown => exact .refl _
  | rooted => exact .init (fresh (Nat.le_refl 1))
  | @added editAt parent p text verbose resolved =>
    obtain ⟨-, issued⟩ := told_of_added k.document.issue.1 (some (Span.ofText text)) verbose
    exact (Document.Continued.add (fresh (Nat.le_of_eq issued.symm)) editAt p text).retained
  | @removed id => exact (Document.Continued.prune k.document id).retained
  | executed _ run => exact run.retained
  | refreshed => exact .refl _

private theorem Tracked.retained_post (h : Tracked n done k) (line : String) (site : Site)
    (few : n + issuedIn (k.post line site).1.answers ≤ StateId.greatest.toNat) :
    k.document.Retained (k.post line site).2.1.document := by
  obtain ⟨c, answers, k', site', -, outcome, posted⟩ := outcome_post h.serving line site
  rw [posted] at few ⊢
  simp only [answers_encoded outcome.transparent] at few
  exact outcome.retained h.numbered few

private theorem Tracked.retained_run {s : SimulatedKernel × Site} (h : Tracked n done s.1)
    (acts : List Act) (few : n + issuedIn (answered s acts) ≤ StateId.greatest.toNat) :
    s.1.document.Retained (after s acts).1.document := by
  induction acts generalizing s n done with
  | nil => exact .refl _
  | cons a acts ih =>
    cases a with
    | disturb change => exact ih (s := (s.1, change s.2)) h few
    | post line =>
      rw [answered_post, issuedIn_append, ← Nat.add_assoc] at few
      have now := Nat.le_trans (Nat.le_add_right _ _) few
      have first := h.retained_post line s.2 now
      exact first.trans (ih (h.post line s.2 now).2 few)

private theorem goals_eq_of_retained (h : Tracked n done k) (h' : Tracked n' done' k')
    (retained : k.document.Retained k'.document) (recorded : k.document.wasIssued id = true)
    (live : k'.document.isLive id = true) : k'.goals id = k.goals id := by
  have before : k.document.isLive id = true := (retained.live id live recorded).1
  obtain ⟨root, rooted⟩ := h.numbered.rooted_of_isLive before
  obtain ⟨root', rooted'⟩ := h'.numbered.rooted_of_isLive live
  obtain ⟨branch, path, isBranch⟩ := rooted.path before
  have path' : k'.document.path id = .ok branch :=
    (retained.path_eq rooted.toBranching rooted'.toBranching live recorded).trans path
  -- The branch is the same, and it is made of recorded states, whose texts stay.
  have texts : branch.map k'.textOf = branch.map k.textOf := by
    refine List.map_congr_left fun x mem => ?_
    rw [textOf, textOf, retained.textOf_eq (Document.wasIssued_of_isLive (isBranch.live x mem))]
  simp only [goals, path, path', texts]

private theorem Tracked.isExecuted_of_retained (h : Tracked n done k)
    (h' : Tracked n' (done ++ done') k')
    (retained : k.document.Retained k'.document) (executed : k.isExecuted id = true)
    (live : k'.document.isLive id = true) : k'.isExecuted id = true := by
  obtain ⟨before, told⟩ := (h.executed id).mp executed
  -- What was told is told still; only another root could make it count no more.
  have sameRoot := (retained.live id live (Document.wasIssued_of_isLive before)).2
  refine (h'.executed id).mpr ⟨live, ?_⟩
  rw [sameRoot]
  exact told.imp_right (List.mem_append_left done')

theorem reply_goals (h : k.Serving) {line : String} (asked : Command.decode line = .ok (.goals id))
    (executed : k.isExecuted id = true) (live : k.document.isLive id = true) (site : Site) :
    (k.post line site).1 = ⟨[(Answer.ofGoals id (k.goals id)).encode], none⟩ := by
  rw [post_command h.booted asked, serve]
  simp [executed, live]

/--
In every run of a started kernel that gives out no more numbers than there are: once goals were
shown at a state, every later question about that state gets the same reply as long as the state is
live, whatever lines were posted and whatever was changed around the kernel in between.
-/
theorem goals_shown_again {reject : String → Option String} {polls : Nat} {order : BootOrder}
    (started : (new reject polls).boot order site' = (.ok (), k, site)) (acts : List Act)
    (few : issuedIn (answered (k, site) acts) < UInt64.size) :
    ∀ front line middle line' back,
      acts = front ++ .post line :: (middle ++ .post line' :: back) →
      let s := after (k, site) front
      let s' := after (k, site) (front ++ .post line :: middle)
      ∀ id goals, Command.decode line = .ok (.goals id) → Command.decode line' = .ok (.goals id) →
        (s.1.post line s.2).1.answers = [.goalInfo id goals] →
        s'.1.document.isLive id = true →
        (s'.1.post line' s'.2).1 = (s.1.post line s.2).1 := by
  rintro front line middle line' back rfl s s' id goals asked asked' shown live
  have enough : 0 + issuedIn (answered (k, site) (front ++ .post line :: middle)) ≤
      StateId.greatest.toNat := by
    rw [← List.cons_append, ← List.append_assoc, answered_append, issuedIn_append] at few
    rw [Nat.zero_add]
    exact Nat.le_of_lt_succ (Nat.lt_of_le_of_lt (Nat.le_add_right _ _) few)
  have start : Tracked 0 [] k := tracked_boot started
  have later := (start.run (s := (k, site)) (front ++ .post line :: middle) enough).1
  rw [answered_append, issuedIn_append, ← Nat.add_assoc] at enough
  have earlier := (start.run (s := (k, site)) front (Nat.le_of_add_right_le enough)).1
  have retained : s.1.document.Retained s'.1.document := by
    have whole : s' = after s (.post line :: middle) := Kernel.after_append _ _ _
    rw [whole]
    exact earlier.retained_run (s := s) (.post line :: middle) enough
  obtain ⟨executed, wasLive⟩ := (answers_goals earlier.serving asked s.2).mp ⟨goals, shown⟩
  have recorded := Document.wasIssued_of_isLive wasLive
  rw [answered_append, executedIn_append, ← List.append_assoc] at later
  have stillExecuted := earlier.isExecuted_of_retained later retained executed live
  rw [reply_goals earlier.serving asked executed wasLive,
    reply_goals later.serving asked' stillExecuted live,
    goals_eq_of_retained earlier later retained recorded live]

/-- A started kernel that cannot execute one of the sentences. -/
def picky : SimulatedKernel :=
  { new (fun text => if text = "c." then some "no" else none) 1 with booted := true }

def opening : List Act :=
  [.post (Command.encode .init), .post (Command.encode (.add none none "Lemma a." false)),
    .post (Command.encode (.add none none "Proof." false)), .post (Command.encode (.exec 3))]

def failing : List Act :=
  [.post (Command.encode (.add none none "c." false)), .post (Command.encode (.exec 4))]

def question : String := Command.encode (.goals 3)

theorem goals_shown_again_after_failure :
    let s := after (picky, bareSite) opening
    let s' := after (picky, bareSite) (opening ++ .post question :: failing)
    (s.1.post question s.2).1.answers = [.goalInfo 3 (some (Goals.snapshot "Lemma a.".toList))] ∧
      s'.1.document.liveIds = [1, 2, 3] ∧ s'.1.document.wasIssued 4 = true ∧
      (s'.1.post question s'.2).1 = (s.1.post question s.2).1 := by
  have started : (new picky.reject 1).boot ⟨"/k", []⟩ bareSite = (.ok (), picky, bareSite) :=
    boot_bareSite _ _
  have few : issuedIn (answered (picky, bareSite)
      (opening ++ .post question :: (failing ++ [.post question]))) < UInt64.size :=
    Nat.lt_of_le_of_lt (issuedIn_answered_le (serving_boot started) _) (by decide)
  have shown : ((after (picky, bareSite) opening).1.post question
      (after (picky, bareSite) opening).2).1.answers =
        [.goalInfo 3 (some (Goals.snapshot "Lemma a.".toList))] := by
    decide +kernel
  have later : (after (picky, bareSite) (opening ++ .post question :: failing)).1.document =
      ⟨[⟨1, none, "", true⟩, ⟨2, some 1, "Lemma a.", true⟩, ⟨3, some 2, "Proof.", true⟩,
        ⟨4, some 3, "c.", false⟩], some 1, some 3, 5⟩ := by
    decide +kernel
  have asked : Command.decode question = .ok (.goals 3) := Command.decode_encode _
  have again := goals_shown_again started _ few opening question failing question [] rfl 3
    (some (Goals.snapshot "Lemma a.".toList)) asked asked shown (by rw [later]; decide)
  exact ⟨shown, by rw [later]; decide, by rw [later]; decide, again⟩

end SimulatedKernel

end ProofHost
