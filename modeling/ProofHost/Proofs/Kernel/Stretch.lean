import ProofHost.Kernel.Child
import ProofHost.Proofs.Bytes
import ProofHost.Proofs.Kernel.Run

/-!
What a kernel that is a program is read for a command: the lines up to the first one that is blank
or no text, and no line after it. Over a run the output of the program falls into such stretches,
and each command gets the next one.
-/

set_option autoImplicit false

namespace ProofHost.ChildKernel

open Bytes (Ended)
open Kernel (Act Exchange posts meet record replies after)

variable {π : Type} [Program π] {k : ChildKernel π} {p : π} {site : Site} {acts front back : List Act}
  {outputs pieces : List Bytes} {unread ahead output b : Bytes} {s : List Bytes} {line : String}

def Line.stops : Line → Bool
  | text _ => false
  | blank => true
  | unreadable => true

inductive Stretch : List Bytes → Prop
  | last {b : Bytes} (ended : Ended b) (stops : (Line.ofBytes b).stops = true) : Stretch [b]
  | more {b : Bytes} {rest : List Bytes} (ended : Ended b)
    (goesOn : (Line.ofBytes b).stops = false) (later : Stretch rest) : Stretch (b :: rest)

private theorem Stretch.ended (h : Stretch s) : ∀ b ∈ s, Ended b := by
  induction h with
  | last ended _ => exact List.forall_mem_singleton.mpr ended
  | more ended _ _ ih => exact List.forall_mem_cons.mpr ⟨ended, ih⟩

theorem Stretch.flatten_ne_nil (h : Stretch s) : s.flatten ≠ [] := by
  cases h with
  | last ended _ =>
    obtain ⟨l, -, rfl⟩ := ended
    simp
  | more ended _ _ =>
    obtain ⟨l, -, rfl⟩ := ended
    simp

private theorem Stretch.readReply_append (h : Stretch s) (rest : List Bytes) :
    readReply (s ++ rest) = ((readReply s).1, rest) := by
  induction h with
  | @last b _ stops =>
    rw [List.singleton_append, readReply, readReply]
    cases line : Line.ofBytes b with
    | text cs => simp [line, Line.stops] at stops
    | blank => rfl
    | unreadable => rfl
  | @more b later _ goesOn _ ih =>
    rw [List.cons_append, readReply, readReply]
    cases line : Line.ofBytes b with
    | text cs => simp only [ih]
    | blank => simp [line, Line.stops] at goesOn
    | unreadable => simp [line, Line.stops] at goesOn

/-- What a program puts out for the lines that are posted, as long as it has not ended. -/
inductive Emits : π → Site → List Act → List Bytes → Prop
  | nil (p : π) (site : Site) : Emits p site [] []
  | disturb {p : π} {site : Site} {change : Site → Site} {acts : List Act} {outputs : List Bytes}
    (later : Emits p (change site) acts outputs) :
    Emits p site (.disturb change :: acts) outputs
  | post {p p' : π} {site : Site} {line : String} {acts : List Act} {output : Bytes}
    {outputs : List Bytes} {host : Host} (running : Program.hasEnded p = false)
    (fed : Program.feed p (commandLine line) site.host = ((p', output), host))
    (later : Emits p' { site with host := host } acts outputs) :
    Emits p site (.post line :: acts) (output :: outputs)

theorem Emits.length (h : Emits p site acts outputs) : outputs.length = (posts acts).length := by
  induction h with
  | nil => rfl
  | disturb _ ih => exact ih
  | post _ _ _ ih => exact congrArg Nat.succ ih

private theorem Emits.take (h : Emits p site (front ++ back) outputs) :
    Emits p site front (outputs.take (posts front).length) := by
  induction front generalizing p site outputs with
  | nil => exact .nil p site
  | cons a front ih =>
    cases h with
    | disturb later => exact .disturb (ih later)
    | post running fed later => exact .post running fed (ih later)

/-- The pieces come in order out of what is unread and what is put out, each of them before the
program waits for more than its own command. -/
structure InTime (unread : Bytes) (outputs pieces : List Bytes) : Prop where
  length : pieces.length = outputs.length
  prefixes : ∀ n, (pieces.take n).flatten <+: unread ++ (outputs.take n).flatten

theorem InTime.self (pieces : List Bytes) : InTime [] pieces pieces :=
  ⟨rfl, fun _ => List.prefix_rfl⟩

private theorem InTime.cons {piece : Bytes}
    (h : InTime unread (output :: outputs) (piece :: pieces)) :
    ∃ ahead, unread ++ output = piece ++ ahead ∧ InTime ahead outputs pieces := by
  obtain ⟨ahead, first⟩ := h.prefixes 1
  simp only [List.take_succ_cons, List.take_zero, List.flatten_singleton] at first
  refine ⟨ahead, first.symm, Nat.succ.inj h.length, fun n => ?_⟩
  have next := h.prefixes (n + 1)
  rw [List.take_succ_cons, List.take_succ_cons, List.flatten_cons, List.flatten_cons,
    ← List.append_assoc, ← first, List.append_assoc] at next
  exact (List.prefix_append_right_inj piece).mp next

private theorem InTime.take (h : InTime unread outputs pieces) (n : Nat) :
    InTime unread (outputs.take n) (pieces.take n) where
  length := by rw [List.length_take, List.length_take, h.length]
  prefixes m := by
    rw [List.take_take, List.take_take]
    exact h.prefixes (min m n)

private theorem post_stretch (program : k.program = some p) (running : Program.hasEnded p = false)
    {p' : π} {host : Host}
    (fed : Program.feed p (commandLine line) site.host = ((p', output), host)) (h : Stretch s)
    (delivered : k.unread ++ output = s.flatten ++ ahead) :
    k.post line site = ((readReply s).1, { k with program := some p', unread := ahead },
      { site with host := host }) := by
  -- The lines that are left are those of what lies ahead, and together they are all of it.
  have read : readReply (Bytes.lines (k.unread ++ output)) = ((readReply s).1, Bytes.lines ahead) := by
    rw [delivered, Bytes.lines_flatten_append h.ended, h.readReply_append]
  unfold post
  simp [program, running, fed, read, Bytes.flatten_lines]

theorem replies_of_stretches (program : k.program = some p) (emits : Emits p site acts outputs)
    {ss : List (List Bytes)} (stretch : ∀ s ∈ ss, Stretch s)
    (inTime : InTime k.unread outputs (ss.map List.flatten)) :
    replies (record (k, site) acts) = ss.map (fun s => (readReply s).1) ∧
      (ss.map List.flatten).flatten ++ (after (k, site) acts).1.unread =
        k.unread ++ outputs.flatten := by
  -- What lies ahead of a stretch is what is unread at the next command.
  induction emits generalizing k ss with
  | nil p site =>
    have none : ss = [] := by simpa using inTime.length
    subst none
    exact ⟨rfl, by simp [after]⟩
  | disturb _ ih => exact ih program stretch inTime
  | @post p p' site line acts output outputs host running fed _ ih =>
    cases ss with
    | nil =>
      have same := inTime.length
      simp at same
    | cons s ss =>
      obtain ⟨first, others⟩ := List.forall_mem_cons.mp stretch
      obtain ⟨ahead, delivered, later⟩ := inTime.cons
      have posted := post_stretch program running fed first delivered
      obtain ⟨sameReplies, sameUnread⟩ :=
        ih (k := { k with program := some p', unread := ahead }) rfl others later
      have met : meet (k, site) (.post line) = (.posted line (readReply s).1,
          { k with program := some p', unread := ahead }, { site with host := host }) := by
        show (Exchange.posted line (k.post line site).1, (k.post line site).2) = _
        rw [posted]
      rw [record, after, met]
      refine ⟨congrArg (List.cons _) sameReplies, ?_⟩
      rw [List.map_cons, List.flatten_cons, List.flatten_cons, List.append_assoc, sameUnread,
        ← List.append_assoc, ← delivered, List.append_assoc]

theorem unread_of_stretches (program : k.program = some p)
    (emits : Emits p site (front ++ back) outputs) {ss : List (List Bytes)}
    (stretch : ∀ s ∈ ss, Stretch s) (inTime : InTime k.unread outputs (ss.map List.flatten)) :
    ((ss.take (posts front).length).map List.flatten).flatten ++ (after (k, site) front).1.unread =
      k.unread ++ (outputs.take (posts front).length).flatten := by
  have taken := inTime.take (posts front).length
  rw [← List.map_take] at taken
  have before : ∀ s ∈ ss.take (posts front).length, Stretch s :=
    fun s mem => stretch s (List.mem_of_mem_take mem)
  exact (replies_of_stretches program emits.take before taken).2

theorem reply_of_stretches (program : k.program = some p)
    (emits : Emits p site (front ++ .post line :: back) outputs) {ss : List (List Bytes)}
    (stretch : ∀ s ∈ ss, Stretch s) (inTime : InTime k.unread outputs (ss.map List.flatten)) :
    (ss[(posts front).length]?).map (fun s => (readReply s).1) =
      some ((after (k, site) front).1.post line (after (k, site) front).2).1 := by
  have replied := (replies_of_stretches program emits stretch inTime).1
  rw [← List.getElem?_map, ← replied]
  exact Kernel.reply_at (s := (k, site)) front line back

private theorem post_program (program : k.program = some p) (running : Program.hasEnded p = false)
    {p' : π} {host : Host}
    (fed : Program.feed p (commandLine line) site.host = ((p', output), host)) :
    ∃ k' : ChildKernel π, (k.post line site).2 = (k', { site with host := host }) ∧
      k'.program = some p' := by
  unfold post
  simp [program, running, fed]

/-- A program together with all that it was fed. -/
structure Overheard (π : Type) where
  program : π
  heard : Bytes

instance : Program (Overheard π) where
  start launch host :=
    match Program.start (π := π) launch host with
    | (.ok (p, output), host') => (.ok (⟨p, []⟩, output), host')
    | (.error e, host') => (.error e, host')
  feed o input host :=
    let fed := Program.feed o.program input host
    ((⟨fed.1.1, o.heard ++ input⟩, fed.1.2), fed.2)
  hasEnded o := Program.hasEnded o.program

private theorem feed_overheard {p' : π} {input : Bytes} {host host' : Host} (heard : Bytes)
    (fed : Program.feed p input host = ((p', output), host')) :
    Program.feed (⟨p, heard⟩ : Overheard π) input host =
      ((⟨p', heard ++ input⟩, output), host') := by
  simp only [Program.feed] at fed ⊢
  rw [fed]

theorem Emits.overheard (h : Emits p site acts outputs) (heard : Bytes) :
    Emits (⟨p, heard⟩ : Overheard π) site acts outputs := by
  induction h generalizing heard with
  | nil => exact .nil _ _
  | disturb _ ih => exact .disturb (ih heard)
  | post running fed _ ih => exact .post running (feed_overheard heard fed) (ih _)

theorem heard_after {k : ChildKernel (Overheard π)} {heard : Bytes}
    (program : k.program = some ⟨p, heard⟩) (emits : Emits p site acts outputs) :
    ∃ q, (after (k, site) acts).1.program =
      some ⟨q, heard ++ (posts acts).flatMap commandLine⟩ := by
  induction emits generalizing k heard with
  | nil p site => exact ⟨p, by simpa [after, posts] using program⟩
  | disturb _ ih => exact ih program
  | @post p p' site line acts output outputs host running fed _ ih =>
    obtain ⟨k', posted, program'⟩ := post_program program running (feed_overheard heard fed)
    obtain ⟨q, later⟩ := ih program'
    have met : (meet (k, site) (.post line)).2 = (k', { site with host := host }) := posted
    refine ⟨q, ?_⟩
    rw [after, met, later, List.append_assoc]
    rfl

end ProofHost.ChildKernel
