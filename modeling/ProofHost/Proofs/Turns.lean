import Mathlib.Data.List.Forall2
import ProofHost.Turns

/-!
What jobs that take turns lead to, in whatever order they do. A schedule, with the steps that each
job has left after it, is one order of single turns; so what every turn keeps holds in the end.
-/

set_option autoImplicit false

namespace ProofHost.Turns

variable {ι ω σ : Type} {step run : Step ι ω σ} {s s' : σ} {jobs jobs' : List ι}
  {reports : List ω}

/-- Turns that jobs have taken in some order, with the reports, the state and the jobs after
them. -/
inductive Taken (step : Step ι ω σ) (s : σ) (jobs : List ι) : List ω → σ → List ι → Prop
  | start : Taken step s jobs [] s jobs
  | turn {reports : List ω} {s' : σ} {front back : List ι} {i : ι}
    (taken : Taken step s jobs reports s' (front ++ i :: back)) :
    Taken step s jobs (reports ++ (step s' i).2.1) (step s' i).2.2
      (front ++ (step s' i).1 :: back)

/-- A run of a job is nothing but several of its steps. -/
def Repeats (step run : Step ι ω σ) : Prop := ∀ s i, ∃ n, run s i = repeated step n s i

private theorem exists_split_of_getElem? {place : Nat} {i : ι} (there : jobs[place]? = some i) :
    ∃ front back, jobs = front ++ i :: back ∧
      ∀ i', jobs.set place i' = front ++ i' :: back := by
  obtain ⟨inside, rfl⟩ := List.getElem?_eq_some_iff.mp there
  refine ⟨jobs.take place, jobs.drop (place + 1), ?_, ?_⟩
  · rw [← List.drop_eq_getElem_cons inside, List.take_append_drop]
  · intro i'
    exact List.set_eq_take_append_cons_drop.trans (if_pos inside)

namespace Taken

private theorem follow (schedule : List Nat) (taken : Taken step s jobs reports s' jobs') :
    Taken step s jobs (reports ++ (Turns.follow step schedule s' jobs').2.1)
      (Turns.follow step schedule s' jobs').2.2 (Turns.follow step schedule s' jobs').1 := by
  induction schedule generalizing reports s' jobs' with
  | nil => simpa [Turns.follow] using taken
  | cons place schedule ih =>
    rw [Turns.follow]
    cases there : jobs'[place]? with
    | none => exact ih taken
    | some i =>
      obtain ⟨front, back, rfl, set⟩ := exists_split_of_getElem? there
      have next := ih taken.turn
      rw [← set, List.append_assoc] at next
      exact next

private theorem repeated (n : Nat) {front back : List ι} {i : ι}
    (taken : Taken step s jobs reports s' (front ++ i :: back)) :
    Taken step s jobs (reports ++ (Turns.repeated step n s' i).2.1)
      (Turns.repeated step n s' i).2.2 (front ++ (Turns.repeated step n s' i).1 :: back) := by
  induction n generalizing reports s' i with
  | zero => simpa [Turns.repeated] using taken
  | succ n ih =>
    have next := ih taken.turn
    rw [List.append_assoc] at next
    exact next

private theorem inOrder (repeats : Repeats step run) {front back : List ι}
    (taken : Taken step s jobs reports s' (front ++ back)) :
    Taken step s jobs (reports ++ (Turns.inOrder run s' back).2.1)
      (Turns.inOrder run s' back).2.2 (front ++ (Turns.inOrder run s' back).1) := by
  induction back generalizing reports s' front with
  | nil => simpa [Turns.inOrder] using taken
  | cons i back ih =>
    obtain ⟨n, ran⟩ := repeats s' i
    have first := taken.repeated n
    rw [← ran] at first
    have split : front ++ (run s' i).1 :: back = (front ++ [(run s' i).1]) ++ back := by simp
    rw [split] at first
    have rest := ih first
    rw [List.append_assoc, List.append_assoc] at rest
    exact rest

private theorem inOrder_all (repeats : Repeats step run)
    (taken : Taken step s jobs reports s' jobs') :
    Taken step s jobs (reports ++ (Turns.inOrder run s' jobs').2.1)
      (Turns.inOrder run s' jobs').2.2 (Turns.inOrder run s' jobs').1 :=
  inOrder repeats (List.nil_append jobs' ▸ taken)

end Taken

theorem taken_inOrder (repeats : Repeats step run) (s : σ) (jobs : List ι) :
    Taken step s jobs (inOrder run s jobs).2.1 (inOrder run s jobs).2.2 (inOrder run s jobs).1 := by
  have fresh : Taken step s jobs [] s jobs := .start
  exact fresh.inOrder_all repeats

theorem taken_all (repeats : Repeats step run) (schedule : List Nat) (s : σ) (jobs : List ι) :
    Taken step s jobs (all step run schedule s jobs).2.1 (all step run schedule s jobs).2.2
      (all step run schedule s jobs).1 := by
  have fresh : Taken step s jobs [] s jobs := .start
  have finished := (fresh.follow schedule).inOrder_all repeats
  exact finished

theorem over_inOrder {Over : ι → Prop} (ends : ∀ s i, Over (run s i).1) (s : σ)
    (jobs : List ι) : ∀ i ∈ (inOrder run s jobs).1, Over i := by
  induction jobs generalizing s with
  | nil => exact List.forall_mem_nil _
  | cons i jobs ih =>
    have rest := ih (run s i).2.2
    exact List.forall_mem_cons.mpr ⟨ends s i, rest⟩

theorem over_all (step : Step ι ω σ) {Over : ι → Prop} (ends : ∀ s i, Over (run s i).1)
    (schedule : List Nat) (s : σ) (jobs : List ι) :
    ∀ i ∈ (all step run schedule s jobs).1, Over i :=
  over_inOrder ends _ _

theorem Taken.forall_mem {P : ι → Prop} (taken : Taken step s jobs reports s' jobs')
    (keeps : ∀ s i, P i → P (step s i).1) (before : ∀ i ∈ jobs, P i) : ∀ i ∈ jobs', P i := by
  induction taken with
  | start => exact before
  | turn taken ih =>
    obtain ⟨front, here, back⟩ := List.forall_mem_append.mp ih |>.imp_right List.forall_mem_cons.mp
    exact List.forall_mem_append.mpr ⟨front, List.forall_mem_cons.mpr ⟨keeps _ _ here, back⟩⟩

theorem Taken.forall₂ {α : Type} {origins : List α} (Kept : σ → Prop) (Tied : α → σ → ι → Prop)
    (taken : Taken step s jobs reports s' jobs') (kept : Kept s)
    (before : List.Forall₂ (fun a i => Tied a s i) origins jobs)
    (own : ∀ a ∈ origins, ∀ t i, Kept t → Tied a t i →
      Kept (step t i).2.2 ∧ Tied a (step t i).2.2 (step t i).1)
    (others : ∀ a ∈ origins, ∀ t i, Kept t → Tied a t i →
      ∀ b j, Tied b t j → Tied b (step t i).2.2 j) :
    Kept s' ∧ List.Forall₂ (fun a i => Tied a s' i) origins jobs' := by
  induction taken with
  | start => exact ⟨kept, before⟩
  | @turn reports t front back i taken ih =>
    obtain ⟨kept, tied⟩ := ih
    have inFront := List.forall₂_take_append origins front (i :: back) tied
    obtain ⟨a, rest, here, inBack, fromHere⟩ :=
      List.forall₂_cons_right_iff.mp (List.forall₂_drop_append origins front (i :: back) tied)
    have split : origins = origins.take front.length ++ a :: rest := by
      rw [← fromHere, List.take_append_drop]
    have mem : a ∈ origins := by
      rw [split]
      exact List.mem_append_right _ List.mem_cons_self
    have still := others a mem t i kept here
    obtain ⟨keptNow, tiedNow⟩ := own a mem t i kept here
    refine ⟨keptNow, ?_⟩
    rw [split]
    exact List.rel_append (inFront.imp still) (.cons tiedNow (inBack.imp still))

theorem repeated_add (step : Step ι ω σ) (m n : Nat) (s : σ) (i : ι) :
    (repeated step (m + n) s i).1 =
        (repeated step n (repeated step m s i).2.2 (repeated step m s i).1).1 ∧
      (repeated step (m + n) s i).2.2 =
        (repeated step n (repeated step m s i).2.2 (repeated step m s i).1).2.2 := by
  induction m generalizing s i with
  | zero =>
    rw [Nat.zero_add]
    exact ⟨rfl, rfl⟩
  | succ m ih =>
    rw [Nat.succ_add]
    exact ih (step s i).2.2 (step s i).1

theorem repeated_succ (step : Step ι ω σ) (n : Nat) (s : σ) (i : ι) :
    (repeated step (n + 1) s i).1 = (step (repeated step n s i).2.2 (repeated step n s i).1).1 ∧
      (repeated step (n + 1) s i).2.2 =
        (step (repeated step n s i).2.2 (repeated step n s i).1).2.2 :=
  repeated_add step n 1 s i

def Idle (step : Step ι ω σ) (i : ι) : Prop := ∀ s, step s i = (i, [], s)

theorem repeated_of_idle {i : ι} (idle : Idle step i) (n : Nat) (s : σ) :
    repeated step n s i = (i, [], s) := by
  induction n with
  | zero => rfl
  | succ n ih => simp only [repeated, idle s, ih, List.append_nil]

theorem repeated_eq_of_idle {m n : Nat} {i : ι} (first : Idle step (repeated step m s i).1)
    (second : Idle step (repeated step n s i).1) :
    (repeated step m s i).1 = (repeated step n s i).1 ∧
      (repeated step m s i).2.2 = (repeated step n s i).2.2 := by
  have longer {m n : Nat} (less : m ≤ n) (idle : Idle step (repeated step m s i).1) :
      (repeated step m s i).1 = (repeated step n s i).1 ∧
        (repeated step m s i).2.2 = (repeated step n s i).2.2 := by
    obtain ⟨more, rfl⟩ := Nat.exists_eq_add_of_le less
    obtain ⟨job, state⟩ := repeated_add step m more s i
    rw [job, state, repeated_of_idle idle]
    exact ⟨rfl, rfl⟩
  rcases Nat.le_total m n with less | less
  · exact longer less first
  · obtain ⟨job, state⟩ := longer less second
    exact ⟨job.symm, state.symm⟩

section Independent

variable (step) (s) (Kept : σ → Prop) (Alike : ι → σ → σ → Prop)

def Spares (i j : ι) : Prop :=
  ∀ n t t', Kept t → Alike j t t' → Alike j (step t (repeated step n s i).1).2.2 t'

/-- A turn of each job gives what it would give if the job had been alone from the start, in any
state that looks alike to it, and the turns of other jobs do not change how the state looks to
it. -/
structure Independent (jobs : List ι) : Prop where
  kept : Kept s
  alike : ∀ i ∈ jobs, Alike i s s
  keeps : ∀ i ∈ jobs, ∀ n t, Kept t → Kept (step t (repeated step n s i).1).2.2
  own : ∀ i ∈ jobs, ∀ n t, Kept t → Alike i t (repeated step n s i).2.2 →
    (step t (repeated step n s i).1).1 = (repeated step (n + 1) s i).1 ∧
      Alike i (step t (repeated step n s i).1).2.2 (repeated step (n + 1) s i).2.2
  others : jobs.Pairwise fun i j => Spares step s Kept Alike i j ∧ Spares step s Kept Alike j i

end Independent

theorem Taken.alone {Kept : σ → Prop} {Alike : ι → σ → σ → Prop}
    (independent : Independent step s Kept Alike jobs)
    (taken : Taken step s jobs reports s' jobs') :
    Kept s' ∧ ∃ counted : List (ι × Nat), counted.map Prod.fst = jobs ∧
      jobs' = counted.map (fun c => (Turns.repeated step c.2 s c.1).1) ∧
      ∀ c ∈ counted, Alike c.1 s' (Turns.repeated step c.2 s c.1).2.2 := by
  induction taken with
  | start =>
    refine ⟨independent.kept, jobs.map fun i => (i, 0), ?_, ?_, ?_⟩
    · rw [List.map_map]
      exact List.map_id jobs
    · rw [List.map_map]
      exact (List.map_id jobs).symm
    · intro c there
      obtain ⟨i, hi, rfl⟩ := List.mem_map.mp there
      exact independent.alike i hi
  | @turn reports t front back i taken ih =>
    obtain ⟨kept, counted, starts, places, alike⟩ := ih
    obtain ⟨before, rest, rfl, rfl, splitRest⟩ := List.map_eq_append_iff.mp places.symm
    obtain ⟨⟨i₀, n⟩, after, rfl, rfl, rfl⟩ := List.map_eq_cons_iff.mp splitRest
    have inJobs : i₀ ∈ jobs := by
      rw [← starts]
      simp
    have others := independent.others
    rw [← starts, List.map_append, List.map_cons] at others
    obtain ⟨-, later, earlier⟩ := List.pairwise_append.mp others
    have later := (List.pairwise_cons.mp later).1
    have now := alike (i₀, n) (by simp)
    obtain ⟨job, stillAlike⟩ := independent.own i₀ inJobs n t kept now
    refine ⟨independent.keeps i₀ inJobs n t kept, before ++ (i₀, n + 1) :: after, ?_, ?_, ?_⟩
    · rw [← starts]
      simp
    · rw [List.map_append, List.map_cons, job]
    · intro c there
      rcases List.mem_append.mp there with isBefore | fromHere
      · have spared := (earlier c.1 (List.mem_map_of_mem isBefore) i₀ List.mem_cons_self).2
        exact spared n t _ kept (alike c (List.mem_append_left _ isBefore))
      · rcases List.mem_cons.mp fromHere with rfl | isAfter
        · exact stillAlike
        · have spared := (later c.1 (List.mem_map_of_mem isAfter)).1
          exact spared n t _ kept
            (alike c (List.mem_append_right _ (List.mem_cons_of_mem _ isAfter)))

end ProofHost.Turns
