import ProofHost.Proofs.Sandbox.Contents

/-!
What putting a file looks at and what it changes. It looks at the files along its path and at what
is at the end of it, and at nothing else; so two hosts that agree there give the same result and
still agree after it. It changes nothing off its path.
-/

set_option autoImplicit false

namespace ProofHost

namespace Host

variable {h k h' : Host} {place after names : List String} {name path : String}

/-- What is seen at a place: nothing, a directory, or a file with its contents. -/
def seen (h : Host) (place : List String) : Option (Option Bytes) := h.root.seen place

theorem seen_eq_directory_iff : h.seen place = some none ↔ h.DirectoryAt place :=
  Node.seen_eq_directory_iff

private theorem follow_without_dots (follow : h.follow place names = .ok after) :
    h.follow place (names.filter (· != ".")) = .ok after := by
  induction names generalizing place with
  | nil => exact follow
  | cons name rest ih =>
    rw [follow_cons] at follow
    obtain ⟨next, step, follow⟩ := exists_of_bind_ok follow
    by_cases dot : name = "."
    · have stays : next = place := by
        rw [step_of_directoryAt (directoryAt_of_step step), if_pos dot] at step
        exact (Except.ok.inj step).symm
      have dropped : (name :: rest).filter (· != ".") = rest.filter (· != ".") :=
        List.filter_cons_of_neg (by simpa using dot)
      rw [dropped]
      rw [stays] at follow
      exact ih follow
    · have kept : (name :: rest).filter (· != ".") = name :: rest.filter (· != ".") :=
        List.filter_cons_of_pos (by simpa using dot)
      rw [kept, follow_cons, step]
      exact ih follow

theorem directoryAt_of_follow (follow : h.follow place (name :: names) = .ok after) :
    h.DirectoryAt place := by
  rw [follow_cons] at follow
  obtain ⟨next, step, -⟩ := exists_of_bind_ok follow
  exact directoryAt_of_step step

theorem makeAlong_followed (follow : h.follow place names = .ok after)
    (directory : h.DirectoryAt after) (rest : List String) :
    h.makeAlong place (names ++ rest) = h.makeAlong after rest := by
  induction names generalizing place with
  | nil =>
    cases follow
    rfl
  | cons name names ih =>
    rw [follow_cons] at follow
    obtain ⟨next, step, follow⟩ := exists_of_bind_ok follow
    have between : h.DirectoryAt next := by
      cases names with
      | nil =>
        cases follow
        exact directory
      | cons name names => exact directoryAt_of_follow follow
    obtain ⟨entries, inside⟩ := between
    rw [List.cons_append, makeAlong]
    simp only [step, inside]
    exact ih follow

/-- To make directories along names fails at the first name if there is a file, and goes on from
there otherwise, whether or not the directory had to be made. -/
private theorem makeAlong_cons_cases (step : h.step place name = .ok after) (rest : List String) :
    ((h.fileAt after).isSome = true ∧ h.makeAlong place (name :: rest) =
        (.error (if rest.isEmpty then .exists else .notDirectory), h)) ∨
      (h.fileAt after = none ∧ ∃ next : Host,
        h.makeAlong place (name :: rest) = next.makeAlong after rest ∧ h.SameFiles next ∧
        next.DirectoryAt after ∧
        ∀ other, next.seen other = if other = after then some none else h.seen other) := by
  rw [makeAlong]
  simp only [step]
  cases there : h.node? after with
  | none =>
    have found : h.root.find? after = none := there
    refine Or.inr ⟨by rw [fileAt, Node.fileAt, found]; rfl, _, rfl,
      sameFiles_makeDirectory step there, ⟨[], find?_makeDirectory step there⟩, ?_⟩
    intro other
    split
    · rename_i same
      subst same
      exact seen_eq_directory_iff.mpr ⟨[], find?_makeDirectory step there⟩
    · rename_i ne
      refine Node.seen_set_of_ne Node.isLeaf_empty ?_ ne
      intro entries directory
      cases found.symm.trans directory
  | some node =>
    have found : h.root.find? after = some node := there
    cases node with
    | file content =>
      refine Or.inl ⟨?_, rfl⟩
      rw [fileAt, Node.fileAt, found]
      rfl
    | directory entries =>
      have directory : h.DirectoryAt after := ⟨entries, there⟩
      refine Or.inr ⟨by rw [fileAt, Node.fileAt, found]; rfl, h, rfl, .refl h, directory, ?_⟩
      intro other
      split
      · rename_i same
        subst same
        exact seen_eq_directory_iff.mpr directory
      · rfl

end Host

namespace Sandbox

open Text.Path (NoSlash split join below parent? isAbsolute)

variable {s : Sandbox} {h k h' : Host} {path v : String} {parts names place : List String}
  {content : Bytes}

theorem follow_proper {after : List String} (proper : ∀ part ∈ parts, Proper part)
    (follow : h.follow place parts = .ok after) : after = place ++ parts := by
  induction parts generalizing place with
  | nil =>
    cases follow
    simp
  | cons part rest ih =>
    obtain ⟨first, others⟩ := List.forall_mem_cons.mp proper
    rw [Host.follow_cons] at follow
    obtain ⟨next, step, follow⟩ := Host.exists_of_bind_ok follow
    have stepped : next = place ++ [part] := by
      rw [(Host.step_cases step).1, Host.turn, if_neg first.notDot, if_neg first.notDots]
    rw [ih others follow, stepped]
    simp

theorem seen_makeAlong (proper : ∀ part ∈ parts, Proper part) {other : List String}
    (off : ¬ other <+: place ++ parts) : (h.makeAlong place parts).2.seen other = h.seen other := by
  induction parts generalizing h place with
  | nil => rfl
  | cons part rest ih =>
    obtain ⟨first, others⟩ := List.forall_mem_cons.mp proper
    have long : place ++ part :: rest = place ++ [part] ++ rest := by simp
    cases step : h.step place part with
    | error e => simp only [Host.makeAlong, step]
    | ok after =>
      obtain rfl : after = place ++ [part] := by
        rw [(Host.step_cases step).1, Host.turn, if_neg first.notDot, if_neg first.notDots]
      rcases Host.makeAlong_cons_cases step rest with ⟨-, failed⟩ | ⟨-, next, made, -, -, seen⟩
      · rw [failed]
      · have ne : other ≠ place ++ [part] := by
          rintro rfl
          exact off (long ▸ List.prefix_append _ _)
        rw [long] at off
        rw [made, ih others off, seen, if_neg ne]

/-- Two hosts with the same files along some names agree on whether directories can be made there,
and go on agreeing wherever they did. -/
theorem makeAlong_agree (proper : ∀ part ∈ parts, Proper part) (here : h.DirectoryAt place)
    (there : k.DirectoryAt place)
    (files : ∀ front, front <+: parts → h.fileAt (place ++ front) = k.fileAt (place ++ front)) :
    (h.makeAlong place parts).1 = (k.makeAlong place parts).1 ∧
      ∀ other, h.seen other = k.seen other →
        (h.makeAlong place parts).2.seen other = (k.makeAlong place parts).2.seen other := by
  induction parts generalizing h k place with
  | nil => exact ⟨rfl, fun _ same => same⟩
  | cons part rest ih =>
    obtain ⟨first, others⟩ := List.forall_mem_cons.mp proper
    have stepHere := step_proper here first
    have stepThere := step_proper there first
    split at stepHere
    · rename_i long
      rw [if_pos long] at stepThere
      simp only [Host.makeAlong, stepHere, stepThere]
      exact ⟨trivial, fun _ same => same⟩
    · rename_i short
      rw [if_neg short] at stepThere
      have same : h.fileAt (place ++ [part]) = k.fileAt (place ++ [part]) :=
        files [part] (List.prefix_append [part] rest)
      rcases Host.makeAlong_cons_cases stepHere rest with
        ⟨file, failed⟩ | ⟨noFile, next, made, sameFiles, directory, seen⟩
      · rcases Host.makeAlong_cons_cases stepThere rest with
          ⟨-, failed'⟩ | ⟨noFile', -⟩
        · rw [failed, failed']
          exact ⟨rfl, fun _ same => same⟩
        · rw [same, noFile'] at file
          cases file
      · rcases Host.makeAlong_cons_cases stepThere rest with
          ⟨file', -⟩ | ⟨-, next', made', sameFiles', directory', seen'⟩
        · rw [← same, noFile] at file'
          cases file'
        · rw [made, made']
          have further : ∀ front, front <+: rest →
              next.fileAt (place ++ [part] ++ front) = next'.fileAt (place ++ [part] ++ front) := by
            intro front isFront
            have along := files (part :: front) (List.cons_prefix_cons.mpr ⟨rfl, isFront⟩)
            rw [sameFiles.files, sameFiles'.files]
            simpa using along
          obtain ⟨result, agree⟩ := ih others directory directory' further
          refine ⟨result, fun other sameSeen => agree other ?_⟩
          rw [seen, seen', sameSeen]

def counted : List String → List String
  | [] => []
  | first :: rest =>
    if first = "." then "." :: rest.filter fun part => part != "" && part != "."
    else (first :: rest).filter fun part => part != "" && part != "."

def directoryPath (absolute : Bool) (parts : List String) : String :=
  (if absolute then "/" else "") ++ join parts

private theorem parent?_eq (path : String) :
    parent? path =
      if counted (split path) = [] then none
      else some (directoryPath (isAbsolute path) (counted (split path)).dropLast) := by
  have cut : ∃ kept, kept = counted (split path) ∧ parent? path =
      match kept.reverse with
      | [] => none
      | _ :: rest => some ((if isAbsolute path then "/" else "") ++ join rest.reverse) := by
    refine ⟨_, ?_, rfl⟩
    cases split path with
    | nil => rfl
    | cons first rest =>
      by_cases dot : first = "."
      · subst dot
        rfl
      · rw [counted, if_neg dot]
        split
        · rename_i whole
          cases whole
          exact absurd rfl dot
        · rfl
  obtain ⟨kept, rfl, cut⟩ := cut
  rw [cut]
  rcases List.eq_nil_or_concat (counted (split path)) with none | ⟨front, last, whole⟩
  · rw [none]
    rfl
  · rw [whole]
    simp [directoryPath]

private theorem filter_of_proper (proper : ∀ part ∈ parts, Proper part) :
    parts.filter (fun part => part != "" && part != ".") = parts := by
  refine List.filter_eq_self.mpr fun part hpart => ?_
  have isProper := proper part hpart
  simp [isProper.notEmpty, isProper.notDot]

private theorem filter_split_of_proper (proper : ∀ part ∈ parts, Proper part) :
    (split (join parts)).filter (fun part => part != "" && part != ".") = parts := by
  have dots : (split (join parts)).filter (fun part => part != "" && part != ".") =
      ((split (join parts)).filter (· != "")).filter (· != ".") := by
    rw [List.filter_filter]
    exact List.filter_congr fun part _ => Bool.and_comm _ _
  rw [dots, split_join_of_proper proper]
  refine List.filter_eq_self.mpr fun part hpart => ?_
  simpa using (proper part hpart).notDot

private theorem counted_append (front : List String) (proper : ∀ part ∈ parts, Proper part) :
    counted (front ++ split (join parts)) = counted front ++ parts := by
  cases front with
  | cons first rest =>
    simp only [List.cons_append, counted]
    split
    · rw [List.filter_append, filter_split_of_proper proper]
      rfl
    · rw [← List.cons_append, List.filter_append, filter_split_of_proper proper]
  | nil =>
    cases parts with
    | nil => rfl
    | cons part rest =>
      have whole : split (join (part :: rest)) = part :: rest :=
        Text.Path.split_join (by simp) fun part hpart => (proper part hpart).noSlash
      have all : counted (part :: rest) = part :: rest := by
        rw [counted, if_neg (proper part List.mem_cons_self).notDot, filter_of_proper proper]
      rw [List.nil_append, whole, all]
      rfl

private theorem mem_of_mem_counted {front : List String} {part : String}
    (there : part ∈ counted front) :
    part ∈ front ∧ part ≠ "" := by
  cases front with
  | nil => cases there
  | cons first rest =>
    rw [counted] at there
    split at there
    · rename_i dot
      rcases List.mem_cons.mp there with rfl | later
      · exact ⟨dot ▸ List.mem_cons_self, by decide⟩
      · obtain ⟨hmem, kept⟩ := List.mem_filter.mp later
        have ne : part ≠ "" ∧ part ≠ "." := by simpa using kept
        exact ⟨List.mem_cons_of_mem _ hmem, ne.1⟩
    · obtain ⟨hmem, kept⟩ := List.mem_filter.mp there
      have ne : part ≠ "" ∧ part ≠ "." := by simpa using kept
      exact ⟨hmem, ne.1⟩

private theorem dot_not_mem_tail_counted (front : List String) : "." ∉ (counted front).tail := by
  cases front with
  | nil => simp [counted]
  | cons first rest =>
    rw [counted]
    split
    · simp
    · intro dot
      have inside := List.mem_of_mem_tail dot
      simp at inside

private theorem dot_not_mem_tail_append (front : List String)
    (proper : ∀ part ∈ parts, Proper part) :
    "." ∉ (counted front ++ parts).tail := by
  intro later
  cases above : counted front with
  | nil =>
    rw [above, List.nil_append] at later
    exact (proper "." (List.mem_of_mem_tail later)).notDot rfl
  | cons first rest =>
    rw [above, List.cons_append, List.tail_cons] at later
    rcases List.mem_append.mp later with inRoot | inParts
    · have noDot := dot_not_mem_tail_counted front
      rw [above] at noDot
      exact noDot inRoot
    · exact (proper "." inParts).notDot rfl

private theorem eq_dot_of_getLast? (noLater : "." ∉ parts.tail) (dot : parts.getLast? = some ".") :
    parts = ["."] := by
  obtain ⟨front, rfl⟩ := List.getLast?_eq_some_iff.mp dot
  cases front with
  | nil => rfl
  | cons first rest => exact absurd (by simp) noLater

private theorem follow_counted {front after : List String}
    (follow : h.follow place (front.filter (· != "")) = .ok after) :
    h.follow place (counted front) = .ok after := by
  have both (xs : List String) : (xs.filter (· != "")).filter (· != ".") =
      xs.filter fun part => part != "" && part != "." := by
    rw [List.filter_filter]
    exact List.filter_congr fun part _ => Bool.and_comm _ _
  cases front with
  | nil => exact follow
  | cons first rest =>
    rw [counted]
    split
    · rename_i dot
      subst dot
      have kept : ("." :: rest).filter (· != "") = "." :: rest.filter (· != "") := rfl
      rw [kept, Host.follow_cons] at follow
      obtain ⟨next, step, follow⟩ := Host.exists_of_bind_ok follow
      rw [Host.follow_cons, step, ← both]
      exact Host.follow_without_dots follow
    · rw [← both]
      exact Host.follow_without_dots follow

private theorem names_directoryPath (absolute : Bool)
    (named : ∀ part ∈ parts, Text.Path.Named part) :
    Host.names (directoryPath absolute parts) = parts := by
  have alone := Text.Path.filter_split_join named
  cases absolute with
  | false => simpa [directoryPath, Host.names] using alone
  | true =>
    rw [directoryPath, if_pos rfl, Host.names, Text.Path.split_slash_append]
    exact alone

private theorem origin_directoryPath (h : Host) (named : ∀ part ∈ parts, Text.Path.Named part)
    (path : String) : h.origin (directoryPath (isAbsolute path) parts) = h.origin path := by
  have same : isAbsolute (directoryPath (isAbsolute path) parts) = isAbsolute path := by
    cases isAbsolute path with
    | false => simpa [directoryPath] using Text.Path.isAbsolute_join named
    | true => simp [directoryPath, isAbsolute]
  rw [Host.origin, same, Host.origin]

theorem stat_directory {entries : List (String × Node)} (checked : Host.checkPath path = .ok ())
    (follow : h.follow (h.origin path) (Host.names path) = .ok place)
    (there : h.node? place = some (.directory entries)) :
    h.stat path = .ok (.directory entries) := by
  simp [Host.stat, Host.locate, checked, follow, there, bind, Except.bind, pure, Except.pure]

/-- What the operating system says of the path of the directory above a file, before it looks at
any directory. -/
def parentCheck (path : String) : Except OsError Unit :=
  match parent? path with
  | none => .ok ()
  | some dir => if dir.isEmpty then .ok () else Host.checkPath dir

private theorem makeDirs_eq {dir : String} (notEmpty : dir.isEmpty = false)
    (dots : (Host.names dir).getLast? = some "." →
      Host.names dir = ["."] ∧ h.DirectoryAt (h.origin dir)) :
    h.makeDirs dir =
      match Host.checkPath dir with
      | .error e => (.error e, h)
      | .ok _ => h.makeAlong (h.origin dir) (Host.names dir) := by
  unfold Host.makeDirs
  rw [notEmpty]
  simp only [Bool.false_eq_true, if_false]
  cases checked : Host.checkPath dir with
  | error e => rfl
  | ok u =>
    cases u
    by_cases dot : (Host.names dir).getLast? = some "."
    · obtain ⟨alone, here⟩ := dots dot
      obtain ⟨entries, inside⟩ := here
      have step : h.step (h.origin dir) "." = .ok (h.origin dir) := by
        rw [Host.step_of_directoryAt ⟨entries, inside⟩, if_pos rfl]
      have follow : h.follow (h.origin dir) (Host.names dir) = .ok (h.origin dir) := by
        rw [alone, Host.follow_cons, step]
        rfl
      have found := stat_directory checked follow inside
      have made : h.makeAlong (h.origin dir) (Host.names dir) = (.ok (), h) := by
        have followed := Host.makeAlong_followed follow ⟨entries, inside⟩ []
        rwa [List.append_nil] at followed
      simp only [dot, beq_self_eq_true, if_true, Host.makeAboveDot, found, made]
    · have other : ((Host.names dir).getLast? == some ".") = false := by simpa using dot
      simp only [other, Bool.false_eq_true, if_false]

private theorem makeAlong_dropLast {above : List String} (stands : s.Stands h)
    (follow : h.follow (h.origin s.root) above = .ok (s.base h)) (parts : List String) :
    h.makeAlong (h.origin s.root) (above ++ parts).dropLast =
      h.makeAlong (s.base h) parts.dropLast := by
  cases parts with
  | cons part rest =>
    rw [List.dropLast_append_of_ne_nil (by simp)]
    exact Host.makeAlong_followed follow stands.directory _
  | nil =>
    rw [List.append_nil]
    rcases List.eq_nil_or_concat above with rfl | ⟨front, last, rfl⟩
    · have same : h.origin s.root = s.base h := Except.ok.inj follow
      rw [same]
    · rw [List.concat_eq_append, Host.follow_append] at follow
      obtain ⟨middle, reached, follow⟩ := Host.exists_of_bind_ok follow
      have made := Host.makeAlong_followed reached (Host.directoryAt_of_follow follow) []
      rw [List.append_nil] at made
      rw [List.concat_eq_append, List.dropLast_concat, made]
      rfl

private theorem named_of_mem_dropLast {front : List String} (noSlash : ∀ part ∈ front, NoSlash part)
    (proper : ∀ part ∈ parts, Proper part) :
    ∀ part ∈ (counted front ++ parts).dropLast, Text.Path.Named part := by
  intro part there
  rcases List.mem_append.mp (List.dropLast_subset _ there) with above | inside
  · obtain ⟨hmem, notEmpty⟩ := mem_of_mem_counted above
    exact ⟨notEmpty, noSlash part hmem⟩
  · exact (proper part inside).named

private theorem only_dot_above {front after : List String} (proper : ∀ part ∈ parts, Proper part)
    (follow : h.follow place (counted front) = .ok after)
    (dot : (counted front ++ parts).dropLast.getLast? = some ".") :
    (counted front ++ parts).dropLast = ["."] ∧ h.DirectoryAt place := by
  have noLater : "." ∉ (counted front ++ parts).dropLast.tail := by
    rw [List.tail_dropLast]
    exact fun inside => dot_not_mem_tail_append front proper (List.dropLast_subset _ inside)
  refine ⟨eq_dot_of_getLast? noLater dot, ?_⟩
  have inside : "." ∈ counted front ++ parts :=
    List.dropLast_subset _ (List.mem_of_getLast? dot)
  cases above : counted front with
  | nil =>
    rw [above, List.nil_append] at inside
    exact absurd rfl (proper "." inside).notDot
  | cons first rest =>
    rw [above] at follow
    exact Host.directoryAt_of_follow follow

theorem makeParent_eq (stands : s.Stands h) (proper : ∀ part ∈ parts, Proper part) :
    makeParent h (below s.root (join parts)) =
      match parentCheck (below s.root (join parts)) with
      | .error e => (.error e, h)
      | .ok _ => h.makeAlong (s.base h) parts.dropLast := by
  obtain ⟨front, cut, isRoot⟩ := split_below s.root (join parts)
  have follow : h.follow (h.origin s.root) (counted front) = .ok (s.base h) := by
    refine follow_counted ?_
    rw [isRoot]
    exact stands.follow
  have whole : counted (split (below s.root (join parts))) = counted front ++ parts := by
    rw [cut, counted_append front proper]
  have noSlash : ∀ part ∈ front, NoSlash part := by
    intro part there
    have inSplit : part ∈ split (below s.root (join parts)) := by
      rw [cut]
      exact List.mem_append_left _ there
    exact Text.Path.noSlash_of_mem_split inSplit
  have named := named_of_mem_dropLast noSlash proper
  have along := makeAlong_dropLast stands follow parts
  have names := names_directoryPath (isAbsolute (below s.root (join parts))) named
  have origin := origin_directoryPath h named (below s.root (join parts))
  rw [origin_below h s.root proper] at origin
  unfold makeParent parentCheck
  rw [parent?_eq, whole]
  by_cases none : counted front ++ parts = []
  · rw [if_pos none]
    obtain ⟨-, rfl⟩ := List.append_eq_nil_iff.mp none
    rfl
  · rw [if_neg none]
    simp only
    cases empty : (directoryPath (isAbsolute (below s.root (join parts)))
        (counted front ++ parts).dropLast).isEmpty with
    | true =>
      have nameless : (counted front ++ parts).dropLast = [] := by
        rw [← names, String.isEmpty_iff.mp empty]
        rfl
      rw [nameless] at along
      simp only [Host.makeDirs, empty, if_true, ← along]
      rfl
    | false =>
      rw [makeDirs_eq empty, names, origin, along]
      · simp only [Bool.false_eq_true, if_false]
      · rw [names, origin]
        exact only_dot_above proper follow

end Sandbox

end ProofHost
