import ProofHost.Proofs.Kernel.Outcome

/-!
Posts that leave no trace. A kernel inside the host that is asked for something, or that refuses a
line without going back, is afterwards what it was before, and so is the place where it works. Such
posts can be left out of a run, and no other post of the run is answered differently.
-/

set_option autoImplicit false

namespace ProofHost

namespace Kernel

/-- A post that only asks for something, or is answered only by a failure without going back. -/
def Exchange.Quiet : Exchange → Prop
  | posted line reply =>
    (∃ c, Command.decode line = .ok c ∧ c.asks = true) ∨
      ∃ location reason, reply.answers = [.failed location none reason]
  | disturbed _ => False

/-- One record is another one from which some quiet posts are left out. -/
inductive Thinned : List Exchange → List Exchange → Prop
  | nil : Thinned [] []
  | keep {log short : List Exchange} (e : Exchange) (rest : Thinned log short) :
    Thinned (e :: log) (e :: short)
  | drop {log short : List Exchange} {e : Exchange} (quiet : e.Quiet) (rest : Thinned log short) :
    Thinned (e :: log) short

end Kernel

namespace SimulatedKernel

open Kernel

variable {k k' : SimulatedKernel} {site site' : Site} {c : Command} {answers : List Answer}
  {good : StateId} {rest : List StateId} {location : Option Span} {reason : String}

private theorem Execution.ne_failed (run : Execution k good rest answers k') :
    answers ≠ [.failed location none reason] := by
  induction run with
  | done => exact nofun
  | skip _ _ ih => exact ih
  | stop => simp
  | go => exact nofun

/-- What is only asked for and what is refused without going back changes nothing. -/
private theorem Outcome.unchanged (outcome : Outcome k site c answers k' site')
    (quiet : c.asks = true ∨ ∃ location reason, answers = [.failed location none reason]) :
    k' = k ∧ site' = site := by
  have failed (asks : c.asks = false) :
      ∃ location reason, answers = [.failed location none reason] :=
    quiet.resolve_left (by simp [asks])
  cases outcome with
  | refused => exact ⟨rfl, rfl⟩
  | shown => exact ⟨rfl, rfl⟩
  | rooted =>
    obtain ⟨_, _, same⟩ := failed rfl
    cases same
  | added =>
    obtain ⟨_, _, same⟩ := failed rfl
    cases same
  | removed =>
    obtain ⟨_, _, same⟩ := failed rfl
    cases same
  | executed _ run =>
    obtain ⟨_, _, same⟩ := failed rfl
    exact absurd same run.ne_failed
  | refreshed =>
    obtain ⟨_, _, same⟩ := failed rfl
    cases same

private theorem meet_quiet {s : SimulatedKernel × Site} (h : s.1.Serving) {a : Act}
    (quiet : (meet s a).1.Quiet) : (meet s a).2 = s := by
  cases a with
  | disturb change => exact quiet.elim
  | post line =>
    have met : meet s (.post line) =
        (.posted line (s.1.post line s.2).1, (s.1.post line s.2).2) := rfl
    obtain ⟨c, answers, k', site', decoded, outcome, posted⟩ := outcome_post h line s.2
    rw [met, posted] at quiet ⊢
    simp only [Exchange.Quiet, answers_encoded outcome.transparent] at quiet
    have asked : c.asks = true ∨ ∃ location reason, answers = [.failed location none reason] :=
      quiet.imp_left fun ⟨c', same, asks⟩ => decoded c' same ▸ asks
    obtain ⟨sameKernel, sameSite⟩ := outcome.unchanged asked
    rw [sameKernel, sameSite]

private theorem record_thinned_of_serving {s : SimulatedKernel × Site} (h : s.1.Serving)
    (acts : List Act)
    {short : List Exchange} (thinned : Thinned (record s acts) short) :
    record s (short.map Exchange.act) = short ∧
      after s (short.map Exchange.act) = after s acts := by
  induction acts generalizing s short with
  | nil =>
    cases thinned
    exact ⟨rfl, rfl⟩
  | cons a acts ih =>
    cases thinned with
    | keep _ rest =>
      obtain ⟨sameRecord, sameEnd⟩ := ih (serving_meet h a) rest
      rw [List.map_cons, act_meet]
      exact ⟨congrArg _ sameRecord, sameEnd⟩
    | drop quiet rest =>
      -- The rest of the run starts where this post found the kernel.
      have stays := meet_quiet h quiet
      rw [stays] at rest
      obtain ⟨sameRecord, sameEnd⟩ := ih h rest
      refine ⟨sameRecord, sameEnd.trans ?_⟩
      rw [after, stays]

/--
Quiet posts can be left out of any run of a started kernel: the others are answered as before, and
the kernel, its document and the place where it works are the same at the end.
-/
theorem record_thinned {reject : String → Option String} {polls : Nat} {order : BootOrder}
    (started : (new reject polls).boot order site' = (.ok (), k, site)) (acts : List Act)
    {short : List Exchange} (thinned : Thinned (record (k, site) acts) short) :
    record (k, site) (short.map Exchange.act) = short ∧
      after (k, site) (short.map Exchange.act) = after (k, site) acts :=
  record_thinned_of_serving (s := (k, site)) (serving_boot started) acts thinned

theorem record_thinned_question :
    let start := ({ new (fun _ => none) 1 with booted := true }, bareSite)
    let line := Command.encode (.add none none "a." false)
    let acts := [.post (Command.encode .init), .post (Command.encode (.goals 1)), .post line]
    ∃ short, Thinned (record start acts) short ∧ posts (short.map Exchange.act) =
      [Command.encode .init, line] ∧ record start (short.map Exchange.act) = short ∧
      after start (short.map Exchange.act) = after start acts := by
  intro start line acts
  have thinned : Thinned (record start acts) [_, _] :=
    .keep _ (.drop (.inl ⟨_, Command.decode_encode _, rfl⟩) (.keep _ .nil))
  exact ⟨_, thinned, by simp [posts, line], record_thinned (boot_bareSite _ _) acts thinned⟩

end SimulatedKernel

end ProofHost
