import ProofHost.Proofs.Host.Files
import ProofHost.Proofs.Text.Path
import ProofHost.Sandbox.Basic

/-!
Where the files of a sandbox are. A virtual path is walked component by component, its place on the
host is below the place of the sandbox, and to put a file changes that place alone.
-/

set_option autoImplicit false

namespace ProofHost

namespace Sandbox

open Text.Path (NoSlash split join below)

variable {s : Sandbox} {h h' : Host} {path : String} {parts kept : List String} {content : Bytes}

/-- A component that names something in its directory. -/
structure Proper (part : String) : Prop where
  notEmpty : part ≠ ""
  notDot : part ≠ "."
  notDots : part ≠ ".."
  noSlash : NoSlash part

theorem walk_append (kept front back : List String) :
    walk kept (front ++ back) = (walk kept front).bind fun inner => walk inner back := by
  induction front generalizing kept with
  | nil => rfl
  | cons part front ih =>
    simp only [List.cons_append, walk]
    split
    · exact ih kept
    · split
      · cases kept with
        | nil => rfl
        | cons last kept => exact ih kept
      · exact ih (part :: kept)

theorem walk_filter (kept parts : List String) :
    walk kept (parts.filter (· != "")) = walk kept parts := by
  induction parts generalizing kept with
  | nil => rfl
  | cons part parts ih =>
    by_cases empty : part = ""
    · subst empty
      exact ih kept
    · have stays : (part :: parts).filter (· != "") = part :: parts.filter (· != "") :=
        List.filter_cons_of_pos (by simpa using empty)
      simp only [stays, walk, ih]

theorem walk_of_proper (h : ∀ part ∈ parts, Proper part) (kept : List String) :
    walk kept parts = some (parts.reverse ++ kept) := by
  induction parts generalizing kept with
  | nil => rfl
  | cons part parts ih =>
    obtain ⟨first, others⟩ := List.forall_mem_cons.mp h
    simp [walk, first.notEmpty, first.notDot, first.notDots, ih others]

private theorem proper_of_walk {after : List String} (noSlash : ∀ part ∈ parts, NoSlash part)
    (before : ∀ part ∈ kept, Proper part) (walked : walk kept parts = some after) :
    ∀ part ∈ after, Proper part := by
  induction parts generalizing kept with
  | nil =>
    cases walked
    exact before
  | cons part parts ih =>
    obtain ⟨first, others⟩ := List.forall_mem_cons.mp noSlash
    simp only [walk] at walked
    split at walked
    · exact ih others before walked
    · rename_i notSkipped
      split at walked
      · cases kept with
        | nil => cases walked
        | cons last kept => exact ih others (List.forall_mem_cons.mp before).2 walked
      · rename_i notDots
        obtain ⟨notEmpty, notDot⟩ : part ≠ "" ∧ part ≠ "." := by simpa using notSkipped
        exact ih others (List.forall_mem_cons.mpr ⟨⟨notEmpty, notDot, notDots, first⟩, before⟩) walked

theorem proper_of_components (h : s.components? path = some parts) :
    ∀ part ∈ parts, Proper part := by
  obtain ⟨after, walked, rfl⟩ := Option.map_eq_some_iff.mp h
  intro part hpart
  exact proper_of_walk (fun part hpart => Text.Path.noSlash_of_mem_split hpart)
    (List.forall_mem_nil _) walked part (List.mem_reverse.mp hpart)

theorem Proper.named {part : String} (h : Proper part) : Text.Path.Named part :=
  ⟨h.notEmpty, h.noSlash⟩

theorem split_join_of_proper (h : ∀ part ∈ parts, Proper part) :
    (split (join parts)).filter (· != "") = parts :=
  Text.Path.filter_split_join fun part hpart => (h part hpart).named

theorem isAbsolute_join (h : ∀ part ∈ parts, Proper part) :
    Text.Path.isAbsolute (join parts) = false :=
  Text.Path.isAbsolute_join fun part hpart => (h part hpart).named

theorem components?_renderPath (h : ∀ part ∈ parts, Proper part) :
    s.components? (renderPath parts) = some parts := by
  have absolute : Text.Path.isAbsolute (renderPath parts) = true := by
    simp [renderPath, Text.Path.isAbsolute]
  have skipped : walk [] ("" :: split (join parts)) = walk [] (split (join parts)) := rfl
  rw [components?, fullPath, if_pos absolute, renderPath, Text.Path.split_slash_append, skipped,
    ← walk_filter, split_join_of_proper h, walk_of_proper h]
  simp

theorem renderPath_inj {parts' : List String} (proper : ∀ part ∈ parts, Proper part)
    (proper' : ∀ part ∈ parts', Proper part) (same : renderPath parts = renderPath parts') :
    parts = parts' := by
  have first := components?_renderPath (s := ⟨"", ""⟩) proper
  rw [same, components?_renderPath proper'] at first
  exact (Option.some.inj first).symm

private theorem dropStartSlashes_renderPath (h : ∀ part ∈ parts, Proper part) :
    Text.Path.dropStartSlashes (renderPath parts) = join parts := by
  have relative := isAbsolute_join h
  apply String.toList_inj.mp
  rw [Text.Path.dropStartSlashes, renderPath, String.toList_append, String.toList_ofList]
  rw [Text.Path.isAbsolute] at relative
  cases chars : (join parts).toList with
  | nil => simp
  | cons c cs =>
    rw [chars] at relative
    have : c ≠ '/' := by simpa using relative
    simp [this]

def base (s : Sandbox) (h : Host) : List String := h.placeOf s.root

theorem split_below (dir path : String) :
    ∃ front, split (below dir path) = front ++ split path ∧
      front.filter (· != "") = Host.names dir := by
  unfold below
  split
  · rename_i empty
    exact ⟨[], rfl, by rw [String.isEmpty_iff.mp empty]; rfl⟩
  · split
    · rename_i slash
      obtain ⟨front, whole⟩ := List.getLast?_eq_some_iff.mp (eq_of_beq slash)
      have whole : dir = String.ofList front ++ "/" := by
        apply String.toList_inj.mp
        simp [whole]
      have cut : split dir = split (String.ofList front) ++ [""] := by
        have := Text.Path.split_append (String.ofList front) ""
        rwa [String.append_empty, ← whole] at this
      refine ⟨split (String.ofList front), by rw [whole, Text.Path.split_append], ?_⟩
      rw [Host.names, cut, List.filter_append]
      simp
    · exact ⟨split dir, Text.Path.split_append dir path, rfl⟩

theorem names_below (dir : String) (proper : ∀ part ∈ parts, Proper part) :
    Host.names (below dir (join parts)) = Host.names dir ++ parts := by
  obtain ⟨front, cut, isDir⟩ := split_below dir (join parts)
  rw [Host.names, cut, List.filter_append, isDir, split_join_of_proper proper]

theorem wantsDirectory_below (dir : String) (proper : ∀ part ∈ parts, Proper part)
    (ne : parts ≠ []) : Host.wantsDirectory (below dir (join parts)) = false := by
  obtain ⟨front, cut, -⟩ := split_below dir (join parts)
  rw [Text.Path.split_join ne fun part hpart => (proper part hpart).noSlash] at cut
  obtain ⟨last, ends⟩ := Option.isSome_iff_exists.mp (List.getLast?_isSome.mpr ne)
  have isProper := proper last (List.mem_of_getLast? ends)
  have isLast : (front ++ parts).getLast? = some last := by rw [List.getLast?_append, ends]; rfl
  simp [Host.wantsDirectory, cut, isLast, isProper.notEmpty, isProper.notDot, isProper.notDots]

theorem origin_below (h : Host) (dir : String) (proper : ∀ part ∈ parts, Proper part) :
    h.origin (below dir (join parts)) = h.origin dir := by
  have same : Text.Path.isAbsolute (below dir (join parts)) = Text.Path.isAbsolute dir := by
    unfold below
    split
    · rename_i empty
      rw [isAbsolute_join proper, String.isEmpty_iff.mp empty]
      rfl
    · rename_i notEmpty
      have chars : dir.toList ≠ [] := fun none =>
        notEmpty (String.isEmpty_iff.mpr (String.toList_eq_nil_iff.mp none))
      obtain ⟨c, cs, chars⟩ := List.exists_cons_of_ne_nil chars
      split <;> simp [Text.Path.isAbsolute, chars]
  rw [Host.origin, same, Host.origin]

theorem placeOf_below (h : Host) (dir : String) (proper : ∀ part ∈ parts, Proper part) :
    h.placeOf (below dir (join parts)) = h.placeOf dir ++ parts := by
  have straight (place : List String) : Host.lead place parts = place ++ parts := by
    induction parts generalizing place with
    | nil => simp [Host.lead]
    | cons part rest ih =>
      obtain ⟨first, others⟩ := List.forall_mem_cons.mp proper
      have turned : Host.turn place part = place ++ [part] := by
        rw [Host.turn, if_neg first.notDot, if_neg first.notDots]
      calc Host.lead place (part :: rest) = Host.lead (Host.turn place part) rest := rfl
        _ = place ++ [part] ++ rest := by rw [turned, ih others]
        _ = place ++ part :: rest := by simp
  rw [Host.placeOf, names_below dir proper, origin_below h dir proper, Host.lead,
    List.foldl_append]
  exact straight _

theorem virtualPath_of_components (found : s.components? path = some parts) :
    s.virtualPath path = .ok (renderPath parts) := by
  rw [virtualPath, found]

theorem components_of_virtualPath {v : String} (found : s.virtualPath path = .ok v) :
    ∃ parts, s.components? path = some parts ∧ v = renderPath parts := by
  unfold virtualPath at found
  split at found
  · rename_i parts components
    exact ⟨parts, components, (Except.ok.inj found).symm⟩
  · cases found

theorem resolve_of_components (found : s.components? path = some parts) :
    s.resolve path = .ok (below s.root (join parts)) := by
  unfold resolve virtualPath
  rw [found]
  simp only [Except.map, dropStartSlashes_renderPath (proper_of_components found)]

theorem resolve_renderPath (proper : ∀ part ∈ parts, Proper part) :
    s.resolve (renderPath parts) = .ok (below s.root (join parts)) :=
  resolve_of_components (components?_renderPath proper)

/-- The operating system takes the host path of the components, and no component is too long. -/
structure Fits (s : Sandbox) (parts : List String) : Prop where
  checked : Host.checkPath (below s.root (join parts)) = .ok ()
  short : ∀ part ∈ parts, part.utf8ByteSize ≤ Host.maxName

theorem step_proper {place : List String} {part : String} (directory : h.DirectoryAt place)
    (proper : Proper part) :
    h.step place part =
      if Host.maxName < part.utf8ByteSize then .error .nameTooLong else .ok (place ++ [part]) := by
  rw [Host.step_of_directoryAt directory, if_neg proper.notDot, if_neg proper.notDots]

private theorem short_of_follow {place after : List String} (proper : ∀ part ∈ parts, Proper part)
    (follow : h.follow place parts = .ok after) :
    ∀ part ∈ parts, part.utf8ByteSize ≤ Host.maxName := by
  induction parts generalizing place with
  | nil => exact List.forall_mem_nil _
  | cons part rest ih =>
    obtain ⟨first, others⟩ := List.forall_mem_cons.mp proper
    rw [Host.follow_cons] at follow
    obtain ⟨next, step, follow⟩ := Host.exists_of_bind_ok follow
    refine List.forall_mem_cons.mpr ⟨?_, ih others follow⟩
    rw [step_proper (Host.directoryAt_of_step step) first] at step
    split at step
    · cases step
    · rename_i short
      exact Nat.not_lt.mp short

theorem follow_below (s : Sandbox) (h : Host) (proper : ∀ part ∈ parts, Proper part) :
    h.follow (h.origin (below s.root (join parts))) (Host.names (below s.root (join parts))) =
      (h.follow (h.origin s.root) (Host.names s.root)).bind fun top => h.follow top parts := by
  rw [names_below s.root proper, origin_below h s.root proper, Host.follow_append]

theorem fits_of_follow {place : List String} (proper : ∀ part ∈ parts, Proper part)
    (checked : Host.checkPath (below s.root (join parts)) = .ok ())
    (follow : h.follow (h.origin (below s.root (join parts)))
      (Host.names (below s.root (join parts))) = .ok place) : s.Fits parts := by
  rw [follow_below s h proper] at follow
  obtain ⟨top, -, follow⟩ := Host.exists_of_bind_ok follow
  exact ⟨checked, short_of_follow proper follow⟩

/-- The first part of putting a file: the directories above it are made. -/
def makeParent (h : Host) (path : String) : Except OsError Unit × Host :=
  match Text.Path.parent? path with
  | some dir => h.makeDirs dir
  | none => (.ok (), h)

theorem put_cases (s : Sandbox) (h : Host) (path : String) (content : Bytes) :
    (∃ e, (s.put h path content).1 = .error e ∧ h.SameFiles (s.put h path content).2) ∨
      ∃ parts, s.components? path = some parts ∧ s.Fits parts ∧
        (s.put h path content).1 = .ok (renderPath parts) ∧
        h.Replaced (s.base h ++ parts) (some content) (s.put h path content).2 := by
  unfold put virtualPath
  cases found : s.components? path with
  | none => exact Or.inl ⟨_, rfl, .refl h⟩
  | some parts =>
    have proper := proper_of_components found
    simp only [resolve_renderPath proper]
    have made : h.SameFiles (makeParent h (below s.root (join parts))).2 := by
      unfold makeParent
      split
      · exact Host.sameFiles_makeDirs h _
      · exact .refl h
    split
    · rename_i e h' failed
      exact Or.inl ⟨_, rfl, by rwa [show makeParent h _ = _ from failed] at made⟩
    · rename_i h' done
      rw [show makeParent h _ = _ from done] at made
      cases done : h'.write (below s.root (join parts)) content with
      | error e => exact Or.inl ⟨_, rfl, made⟩
      | ok h'' =>
        obtain ⟨checked, follow, -, wrote⟩ := Host.replaced_write done
        have replaced := made.replaced wrote
        rw [Host.placeOf_of_workDir made.workDir, placeOf_below h s.root proper] at replaced
        exact Or.inr ⟨parts, rfl, fits_of_follow proper checked follow, rfl, replaced⟩

end Sandbox

end ProofHost
