import ProofHost.Proofs.Sandbox.Placement

/-!
Two hosts that agree along the path of a file give the same result when the file is put, and go on
agreeing wherever they did. So what is put beside each other can be put in any order.
-/

set_option autoImplicit false

namespace ProofHost

namespace Sandbox

open Text.Path (split join below)

variable {s : Sandbox} {h k h' : Host} {path v : String} {parts place : List String}
  {content : Bytes}

private theorem node_cases (same : h.seen place = k.seen place) :
    (h.node? place = none ∧ k.node? place = none) ∨
      (∃ content, h.node? place = some (.file content) ∧ k.node? place = some (.file content)) ∨
      ∃ entries entries', h.node? place = some (.directory entries) ∧
        k.node? place = some (.directory entries') := by
  have kinds : (h.node? place).map Node.content? = (k.node? place).map Node.content? := same
  cases here : h.node? place with
  | none =>
    rw [here] at kinds
    exact Or.inl ⟨rfl, Option.map_eq_none_iff.mp kinds.symm⟩
  | some node =>
    rw [here] at kinds
    obtain ⟨node', there, contents⟩ := Option.map_eq_some_iff.mp kinds.symm
    refine Or.inr ?_
    cases node with
    | file content =>
      cases node' with
      | file content' =>
        cases Option.some.inj contents
        exact Or.inl ⟨_, rfl, there⟩
      | directory entries => cases contents
    | directory entries =>
      cases node' with
      | file content => cases contents
      | directory entries' => exact Or.inr ⟨entries, entries', rfl, there⟩

private theorem step_congr {name : String} (same : h.seen place = k.seen place) :
    h.step place name = k.step place name := by
  unfold Host.step
  rcases node_cases same with ⟨here, there⟩ | ⟨content, here, there⟩ | ⟨entries, entries', here, there⟩
    <;> rw [here, there]

private theorem follow_congr (proper : ∀ part ∈ parts, Proper part)
    (same : ∀ front, front <+: parts → h.seen (place ++ front) = k.seen (place ++ front)) :
    h.follow place parts = k.follow place parts := by
  induction parts generalizing place with
  | nil => rfl
  | cons part rest ih =>
    obtain ⟨first, others⟩ := List.forall_mem_cons.mp proper
    have here : h.seen place = k.seen place := by
      simpa using same [] List.nil_prefix
    rw [Host.follow_cons, Host.follow_cons, step_congr here]
    cases step : k.step place part with
    | error e => rfl
    | ok after =>
      obtain rfl : after = place ++ [part] := by
        rw [(Host.step_cases step).1, Host.turn, if_neg first.notDot, if_neg first.notDots]
      refine ih others fun front isFront => ?_
      have along := same (part :: front) (List.cons_prefix_cons.mpr ⟨rfl, isFront⟩)
      simpa using along

theorem read_congr (workDir : h.workDir = k.workDir)
    (proper : ∀ part ∈ Host.names path, Proper part)
    (same : ∀ front, front <+: Host.names path →
      h.seen (h.origin path ++ front) = k.seen (h.origin path ++ front)) :
    h.read path = k.read path := by
  have origin : k.origin path = h.origin path := by rw [Host.origin, Host.origin, workDir]
  have follow := follow_congr proper same
  unfold Host.read Host.stat Host.locate
  rw [origin, follow]
  cases Host.checkPath path with
  | error e => rfl
  | ok u =>
    cases reached : k.follow (h.origin path) (Host.names path) with
    | error e => rfl
    | ok after =>
      obtain rfl := follow_proper proper reached
      have atEnd := same (Host.names path) (List.prefix_refl _)
      simp only [bind, Except.bind]
      rcases node_cases atEnd with
        ⟨here, there⟩ | ⟨content, here, there⟩ | ⟨entries, entries', here, there⟩
      · rw [here, there]
      · rw [here, there]
      · rw [here, there]
        rfl

theorem wantsDirectory_below_nil (dir : String) :
    Host.wantsDirectory (below dir (join [])) = true := by
  obtain ⟨front, cut, -⟩ := split_below dir (join [])
  have empty : split (join []) = [""] := rfl
  have isLast : (split (below dir (join []))).getLast? = some "" := by
    rw [cut, empty, List.getLast?_concat]
  simp [Host.wantsDirectory, isLast]

/-- What the operating system says of a path at which a file is to be written, before it looks at
what is there. -/
def writeCheck (root : String) (parts : List String) : Except OsError Unit :=
  match Host.checkPath (below root (join parts)) with
  | .error e => .error e
  | .ok _ =>
    match parts.getLast? with
    | none => .error .isDirectory
    | some last => if Host.maxName < last.utf8ByteSize then .error .nameTooLong else .ok ()

private theorem write_root (stands : s.Stands h)
    (checked : Host.checkPath (below s.root (join [])) = .ok ()) :
    h.write (below s.root (join [])) content = .error .isDirectory := by
  have follow : h.follow (h.origin (below s.root (join []))) (Host.names (below s.root (join []))) =
      .ok (s.base h) := by
    rw [follow_below s h (List.forall_mem_nil _), stands.follow]
    rfl
  rw [Host.write, checked]
  simp only [bind, Except.bind]
  rcases List.eq_nil_or_concat (Host.names (below s.root (join []))) with none | ⟨front, last, ends⟩
  · rw [none]
    rfl
  · rw [ends, List.concat_eq_append, Host.follow_append] at follow
    obtain ⟨middle, above, follow⟩ := Host.exists_of_bind_ok follow
    rw [Host.follow_cons] at follow
    obtain ⟨next, step, -⟩ := Host.exists_of_bind_ok follow
    rw [ends, List.concat_eq_append, List.dropLast_concat, List.getLast?_concat]
    simp only [above, step, wantsDirectory_below_nil, if_true]

private theorem write_below (stands : s.Stands h) (proper : ∀ part ∈ parts, Proper part)
    (above : h.follow (s.base h) parts.dropLast = .ok (s.base h ++ parts.dropLast))
    (directory : h.DirectoryAt (s.base h ++ parts.dropLast)) :
    h.write (below s.root (join parts)) content =
      match writeCheck s.root parts with
      | .error e => .error e
      | .ok _ =>
        if h.seen (s.base h ++ parts) = some none then .error .isDirectory
        else .ok { h with root := Node.set (.file content) h.root (s.base h ++ parts) } := by
  unfold writeCheck
  cases checked : Host.checkPath (below s.root (join parts)) with
  | error e =>
    rw [Host.write, checked]
    rfl
  | ok u =>
    cases u
    rcases List.eq_nil_or_concat parts with rfl | ⟨front, last, isLast⟩
    · rw [write_root stands checked]
      rfl
    · rw [List.concat_eq_append] at isLast
      subst isLast
      rw [List.dropLast_concat] at above directory
      have isProper := proper last (by simp)
      have step := step_proper directory isProper
      have wants := wantsDirectory_below s.root proper (by simp)
      have follow : h.follow (h.origin (below s.root (join (front ++ [last]))))
          (Host.names s.root ++ front) = .ok (s.base h ++ front) := by
        rw [origin_below h s.root proper, Host.follow_append, stands.follow]
        exact above
      have names : (Host.names s.root ++ (front ++ [last])).dropLast = Host.names s.root ++ front := by
        rw [← List.append_assoc, List.dropLast_concat]
      have ends : (Host.names s.root ++ (front ++ [last])).getLast? = some last := by
        rw [← List.append_assoc, List.getLast?_concat]
      rw [Host.write, checked]
      simp only [bind, Except.bind, names_below s.root proper, names, ends, follow, step, wants,
        List.getLast?_concat]
      by_cases long : Host.maxName < last.utf8ByteSize
      · simp only [if_pos long]
      · simp only [if_neg long, List.append_assoc]
        by_cases seen : h.seen (s.base h ++ (front ++ [last])) = some none
        · obtain ⟨entries, inside⟩ := Host.seen_eq_directory_iff.mp seen
          simp [seen, inside]
        · rw [if_neg seen]
          cases there : h.node? (s.base h ++ (front ++ [last])) with
          | none => rfl
          | some node =>
            cases node with
            | file old => rfl
            | directory entries => exact absurd (Host.seen_eq_directory_iff.mpr ⟨entries, there⟩) seen

theorem put_of_escape (escapes : s.components? path = none) :
    s.put h path content = (.error (.escape path), h) := by
  unfold put virtualPath
  rw [escapes]

private theorem put_eq_write (found : s.components? path = some parts) :
    s.put h path content =
      match makeParent h (below s.root (join parts)) with
      | (.error e, h') => (.error (.os (renderPath parts) e), h')
      | (.ok _, h') =>
        match h'.write (below s.root (join parts)) content with
        | .ok h'' => (.ok (renderPath parts), h'')
        | .error e => (.error (.os (renderPath parts) e), h') := by
  unfold put virtualPath
  simp only [found, resolve_renderPath (proper_of_components found)]
  rfl

theorem write_of_put (done : s.put h path content = (.ok v, h')) :
    ∃ parts made, s.components? path = some parts ∧ v = renderPath parts ∧
      makeParent h (below s.root (join parts)) = (.ok (), made) ∧
      made.write (below s.root (join parts)) content = .ok h' := by
  cases found : s.components? path with
  | none =>
    rw [put_of_escape found] at done
    cases done
  | some parts =>
    rw [put_eq_write found] at done
    split at done
    · cases done
    · rename_i made parent
      split at done
      · rename_i written
        cases done
        exact ⟨parts, made, rfl, rfl, parent, written⟩
      · cases done

private theorem directory_of_made (stands : s.Stands h) (proper : ∀ part ∈ parts, Proper part)
    (made : h.makeAlong (s.base h) parts = (.ok (), h')) :
    h'.follow (s.base h) parts = .ok (s.base h ++ parts) ∧ h'.DirectoryAt (s.base h ++ parts) := by
  obtain ⟨after, above, directory⟩ := Host.directory_of_makeAlong stands.directory made
  obtain rfl := follow_proper proper above
  exact ⟨above, directory⟩

theorem put_eq (stands : s.Stands h) (found : s.components? path = some parts) :
    s.put h path content =
      match parentCheck (below s.root (join parts)) with
      | .error e => (.error (.os (renderPath parts) e), h)
      | .ok _ =>
        match h.makeAlong (s.base h) parts.dropLast with
        | (.error e, h') => (.error (.os (renderPath parts) e), h')
        | (.ok _, h') =>
          match writeCheck s.root parts with
          | .error e => (.error (.os (renderPath parts) e), h')
          | .ok _ =>
            if h'.seen (s.base h ++ parts) = some none then
              (.error (.os (renderPath parts) .isDirectory), h')
            else
              (.ok (renderPath parts),
                { h' with root := Node.set (.file content) h'.root (s.base h ++ parts) }) := by
  have proper := proper_of_components found
  have front : ∀ part ∈ parts.dropLast, Proper part := fun part there =>
    proper part (List.dropLast_subset _ there)
  rw [put_eq_write found, makeParent_eq stands proper]
  cases parentCheck (below s.root (join parts)) with
  | error e => rfl
  | ok u =>
    simp only
    cases made : h.makeAlong (s.base h) parts.dropLast with
    | mk result h' =>
      cases result with
      | error e => rfl
      | ok u =>
        cases u
        obtain ⟨above, directory⟩ := directory_of_made stands front made
        have same := Host.sameFiles_makeAlong h (s.base h) parts.dropLast
        rw [made] at same
        have base : s.base h' = s.base h := base_of_workDir same.workDir
        have stands' : s.Stands h' := stands.mono same.workDir same.directories
        rw [← base] at above directory
        simp only [write_below stands' proper above directory, base]
        cases writeCheck s.root parts with
        | error e => rfl
        | ok u =>
          by_cases seen : h'.seen (s.base h ++ parts) = some none
          · simp only [if_pos seen]
          · simp only [if_neg seen]

theorem eq_concat_of_writeCheck {root : String} (checked : writeCheck root parts = .ok ()) :
    ∃ front last, parts = front ++ [last] := by
  rcases List.eq_nil_or_concat parts with rfl | ⟨front, last, isLast⟩
  · unfold writeCheck at checked
    split at checked <;> cases checked
  · exact ⟨front, last, by rw [isLast, List.concat_eq_append]⟩

private theorem seen_write (directory : h.DirectoryAt (place ++ parts.dropLast))
    (checked : writeCheck s.root parts = .ok ()) (noDirectory : h.seen (place ++ parts) ≠ some none)
    (other : List String) :
    ({ h with root := Node.set (.file content) h.root (place ++ parts) } : Host).seen other =
      if other = place ++ parts then some (some content) else h.seen other := by
  split
  · rename_i here
    obtain ⟨front, last, rfl⟩ := eq_concat_of_writeCheck checked
    obtain ⟨entries, inside⟩ := directory
    rw [List.dropLast_concat] at inside
    rw [here, ← List.append_assoc, Host.seen, Node.seen, Node.find?_set_of_directory inside]
    rfl
  · rename_i elsewhere
    refine Node.seen_set_of_ne (Node.isLeaf_file content) (fun entries there => ?_) elsewhere
    exact noDirectory (Host.seen_eq_directory_iff.mpr ⟨entries, there⟩)

private theorem fileAt_put (found : s.components? path = some parts) (place : List String) :
    (s.put h path content).2.fileAt place =
      if (s.put h path content).1.isOk = true ∧ place = s.base h ++ parts then some content
      else h.fileAt place := by
  rcases put_cases s h path content with ⟨e, failed, same⟩ | ⟨parts', found', -, done, replaced⟩
  · rw [failed, same.files, if_neg nofun]
  · cases found.symm.trans found'
    rw [done]
    split
    · rename_i here
      rw [here.2, replaced.here]
    · rename_i elsewhere
      exact replaced.elsewhere place fun here => elsewhere ⟨rfl, here⟩

theorem keeps_put (s : Sandbox) (h : Host) (path : String) (content : Bytes) :
    h.Keeps (s.put h path content).2 := by
  rcases put_cases s h path content with ⟨e, -, same⟩ | ⟨parts, -, -, -, replaced⟩
  · exact same.keeps
  · exact replaced.keeps

theorem stands_put (stands : s.Stands h) (path : String) (content : Bytes) :
    s.Stands (s.put h path content).2 := by
  have keeps := keeps_put s h path content
  exact stands.mono keeps.workDir keeps.directories

/-- A put leaves the host alone, makes the directories above its file, or writes the file as
well. -/
theorem put_host_cases (content : Bytes) (stands : s.Stands h) (found : s.components? path = some parts) :
    (s.put h path content).2 = h ∨
      (s.put h path content).2 = (h.makeAlong (s.base h) parts.dropLast).2 ∨
      ∃ h', (h.makeAlong (s.base h) parts.dropLast).2 = h' ∧
        h'.DirectoryAt (s.base h ++ parts.dropLast) ∧ writeCheck s.root parts = .ok () ∧
        h'.seen (s.base h ++ parts) ≠ some none ∧
        (s.put h path content).2 =
          { h' with root := Node.set (.file content) h'.root (s.base h ++ parts) } := by
  have front : ∀ part ∈ parts.dropLast, Proper part := fun part there =>
    proper_of_components found part (List.dropLast_subset _ there)
  rw [put_eq stands found]
  cases parentCheck (below s.root (join parts)) with
  | error e => exact Or.inl rfl
  | ok u =>
    refine Or.inr ?_
    cases made : h.makeAlong (s.base h) parts.dropLast with
    | mk result h' =>
      cases result with
      | error e => exact Or.inl rfl
      | ok u =>
        cases checked : writeCheck s.root parts with
        | error e => exact Or.inl rfl
        | ok u =>
          by_cases directory : h'.seen (s.base h ++ parts) = some none
          · simp only [if_pos directory]
            exact Or.inl trivial
          · simp only [if_neg directory]
            exact Or.inr ⟨h', rfl, (directory_of_made stands front made).2, trivial, directory, rfl⟩

private theorem seen_put (stands : s.Stands h) (found : s.components? path = some parts)
    {other : List String} (off : ¬ other <+: s.base h ++ parts) :
    (s.put h path content).2.seen other = h.seen other := by
  have front : ∀ part ∈ parts.dropLast, Proper part := fun part there =>
    proper_of_components found part (List.dropLast_subset _ there)
  have above : ¬ other <+: s.base h ++ parts.dropLast := fun isPrefix =>
    off (isPrefix.trans ((List.prefix_append_right_inj _).mpr (List.dropLast_prefix parts)))
  have along := seen_makeAlong (h := h) front above
  have ne : other ≠ s.base h ++ parts := by
    rintro rfl
    exact off (List.prefix_refl _)
  rcases put_host_cases content stands found with
    same | made | ⟨h', made, directory, checked, noDirectory, wrote⟩
  · rw [same]
  · rw [made]
    exact along
  · rw [wrote, seen_write directory checked noDirectory, if_neg ne, ← made]
    exact along

theorem seen_put_outside (stands : s.Stands h) (path : String) {other : List String}
    (outside : ¬ s.base h <+: other) : (s.put h path content).2.seen other = h.seen other := by
  cases found : s.components? path with
  | none => rw [put_of_escape found]
  | some parts =>
    by_cases above : other <+: s.base h ++ parts
    · have isPrefix : other <+: s.base h :=
        (List.prefix_or_prefix_of_prefix above (List.prefix_append _ _)).resolve_right outside
      obtain ⟨rest, whole⟩ := isPrefix
      obtain ⟨entries, inside⟩ := stands.directory
      rw [← whole] at inside
      have directory : h.DirectoryAt other := Node.find?_of_append inside
      rw [Host.seen_eq_directory_iff.mpr directory]
      exact Host.seen_eq_directory_iff.mpr ((keeps_put s h path content).directories other directory)
    · exact seen_put stands found above

/-- Two hosts with the same files along a path that see the same at its end give the same result
when a file is put there, and see the same afterwards wherever they did before. -/
private theorem put_agree (content : Bytes) (here : s.Stands h) (there : s.Stands k)
    (workDir : k.workDir = h.workDir)
    (found : s.components? path = some parts)
    (files : ∀ front, front <+: parts →
      h.fileAt (s.base h ++ front) = k.fileAt (s.base h ++ front))
    (same : h.seen (s.base h ++ parts) = k.seen (s.base h ++ parts)) :
    (s.put h path content).1 = (s.put k path content).1 ∧
      ∀ other, h.seen other = k.seen other →
        (s.put h path content).2.seen other = (s.put k path content).2.seen other := by
  have front : ∀ part ∈ parts.dropLast, Proper part := fun part there =>
    proper_of_components found part (List.dropLast_subset _ there)
  have base : s.base k = s.base h := base_of_workDir workDir
  have directory := there.directory
  rw [base] at directory
  obtain ⟨result, agree⟩ := makeAlong_agree front here.directory directory fun above isAbove =>
    files above (isAbove.trans (List.dropLast_prefix parts))
  rw [put_eq here found, put_eq there found, base]
  cases parentCheck (below s.root (join parts)) with
  | error e => exact ⟨rfl, fun _ sameSeen => sameSeen⟩
  | ok u =>
    have above {after : Host} (made : h.makeAlong (s.base h) parts.dropLast = (.ok (), after)) :
        after.DirectoryAt (s.base h ++ parts.dropLast) := (directory_of_made here front made).2
    have above' {after : Host} (made : k.makeAlong (s.base h) parts.dropLast = (.ok (), after)) :
        after.DirectoryAt (s.base h ++ parts.dropLast) := by
      rw [← base] at made ⊢
      exact (directory_of_made there front made).2
    generalize h.makeAlong (s.base h) parts.dropLast = made at result agree above ⊢
    generalize k.makeAlong (s.base h) parts.dropLast = made' at result agree above' ⊢
    obtain ⟨outcome, h'⟩ := made
    obtain ⟨outcome', k'⟩ := made'
    obtain rfl : outcome = outcome' := result
    cases outcome with
    | error e => exact ⟨rfl, agree⟩
    | ok u =>
      cases u
      cases checked : writeCheck s.root parts with
      | error e => exact ⟨rfl, agree⟩
      | ok u =>
        cases u
        have atEnd : h'.seen (s.base h ++ parts) = k'.seen (s.base h ++ parts) := agree _ same
        by_cases noDirectory : h'.seen (s.base h ++ parts) = some none
        · simp only [← atEnd, if_pos noDirectory]
          exact ⟨trivial, agree⟩
        · have noDirectory' : k'.seen (s.base h ++ parts) ≠ some none := atEnd ▸ noDirectory
          simp only [if_neg noDirectory, if_neg noDirectory']
          refine ⟨trivial, fun other sameSeen => ?_⟩
          rw [seen_write (above rfl) checked noDirectory,
            seen_write (above' rfl) checked noDirectory', agree other sameSeen]

/-- The same is seen at the end of each path, and the same files are above it. -/
def Alike (base : List String) (paths : List (List String)) (h k : Host) : Prop :=
  ∀ p ∈ paths, h.seen (base ++ p) = k.seen (base ++ p) ∧
    ∀ front, front <+: p → h.fileAt (base ++ front) = k.fileAt (base ++ front)

variable {paths : List (List String)}

theorem Alike.put (content : Bytes) (alike : Alike (s.base h) paths h k) (here : s.Stands h)
    (there : s.Stands k) (workDir : k.workDir = h.workDir) (inside : ∀ p, s.components? path = some p → p ∈ paths) :
    (s.put h path content).1 = (s.put k path content).1 ∧
      Alike (s.base h) paths (s.put h path content).2 (s.put k path content).2 := by
  cases found : s.components? path with
  | none =>
    rw [put_of_escape found, put_of_escape found]
    exact ⟨rfl, alike⟩
  | some parts =>
    obtain ⟨same, files⟩ := alike parts (inside parts found)
    obtain ⟨result, agree⟩ := put_agree content here there workDir found files same
    refine ⟨result, fun p hp => ?_⟩
    obtain ⟨atEnd, above⟩ := alike p hp
    refine ⟨agree _ atEnd, fun front isFront => ?_⟩
    have base : s.base k = s.base h := base_of_workDir workDir
    rw [fileAt_put found, fileAt_put found, ← result, base, above front isFront]

theorem Alike.put_apart (alike : Alike (s.base h) paths h k) (stands : s.Stands h)
    (apart : ∀ q, s.components? path = some q → ∀ p ∈ paths, ¬ p <+: q ∧ ¬ q <+: p) :
    Alike (s.base h) paths (s.put h path content).2 k := by
  cases found : s.components? path with
  | none =>
    rw [put_of_escape found]
    exact alike
  | some q =>
    intro p hp
    obtain ⟨notAbove, notBelow⟩ := apart q found p hp
    obtain ⟨atEnd, above⟩ := alike p hp
    constructor
    · have off : ¬ s.base h ++ p <+: s.base h ++ q := fun isAbove =>
        notAbove ((List.prefix_append_right_inj _).mp isAbove)
      exact (seen_put stands found off).trans atEnd
    · intro front isFront
      have elsewhere : s.base h ++ front ≠ s.base h ++ q := fun same =>
        notBelow (List.append_cancel_left same ▸ isFront)
      rw [fileAt_put found, if_neg fun changed => elsewhere changed.2]
      exact above front isFront

end Sandbox

end ProofHost
