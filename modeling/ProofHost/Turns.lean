/-!
Jobs that take turns. Each job goes on in steps on a state that all of them share, and each step may
report something; a schedule says whose turn it is.
-/

set_option autoImplicit false

namespace ProofHost.Turns

variable {ι ω σ : Type}

/-- What a step does: it gives the job after it, its reports and the state after it. -/
abbrev Step (ι ω σ : Type) := σ → ι → ι × List ω × σ

/-- Let one job take several steps. -/
def repeated (step : Step ι ω σ) : Nat → Step ι ω σ
  | 0, s, i => (i, [], s)
  | n + 1, s, i =>
    let (i', reports, s') := step s i
    let (i'', reports', s'') := repeated step n s' i'
    (i'', reports ++ reports', s'')

/-- Let jobs take steps as a schedule says, which gives the place of a job for each step. -/
def follow (step : Step ι ω σ) : List Nat → σ → List ι → List ι × List ω × σ
  | [], s, jobs => (jobs, [], s)
  | place :: schedule, s, jobs =>
    match jobs[place]? with
    | none => follow step schedule s jobs
    | some i =>
      let (i', reports, s') := step s i
      let (jobs', reports', s'') := follow step schedule s' (jobs.set place i')
      (jobs', reports ++ reports', s'')

/-- Let jobs take all their steps, one job after another. -/
def inOrder (run : Step ι ω σ) : σ → List ι → List ι × List ω × σ
  | s, [] => ([], [], s)
  | s, i :: jobs =>
    let (i', reports, s') := run s i
    let (jobs', reports', s'') := inOrder run s' jobs
    (i' :: jobs', reports ++ reports', s'')

/-- Follow a schedule as far as it goes, and then let each job take the steps it has left. -/
def all (step run : Step ι ω σ) (schedule : List Nat) (s : σ) (jobs : List ι) :
    List ι × List ω × σ :=
  let (begun, reports, s') := follow step schedule s jobs
  let (finished, reports', s'') := inOrder run s' begun
  (finished, reports ++ reports', s'')

end ProofHost.Turns
