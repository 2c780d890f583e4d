import ProofHost.Host.Basic
import ProofHost.Proofs.Host.Tree
import ProofHost.Proofs.Text.Path

/-!
Which files and directories a host has after an operation. To make directories changes no file, and
to write or remove a file changes no other one; no directory is ever lost. The place of a file is
read off its path without a look at the host.
-/

set_option autoImplicit false

namespace ProofHost

namespace Host

variable {h h' : Host} {place other : List String} {name path : String} {content : Bytes}
  {value : Option Bytes}

def fileAt (h : Host) (place : List String) : Option Bytes := h.root.fileAt place

def DirectoryAt (h : Host) (place : List String) : Prop :=
  ∃ entries, h.node? place = some (.directory entries)

def turn (place : List String) (name : String) : List String :=
  if name = "." then place else if name = ".." then place.dropLast else place ++ [name]

def lead (place : List String) (names : List String) : List String := names.foldl turn place

def placeOf (h : Host) (path : String) : List String := lead (h.origin path) (names path)

theorem step_cases {after : List String} (step : h.step place name = .ok after) :
    after = turn place name ∧
      (h.DirectoryAt after ∨ after = place ++ [name] ∧ h.DirectoryAt place) := by
  unfold Host.step at step
  split at step
  · cases step
  · cases step
  · rename_i entries inside
    unfold turn
    split at step
    · rename_i dot
      cases step
      exact ⟨by rw [if_pos dot], Or.inl ⟨entries, inside⟩⟩
    · rename_i noDot
      split at step
      · rename_i dots
        cases step
        refine ⟨by rw [if_neg noDot, if_pos dots], Or.inl ?_⟩
        rcases List.eq_nil_or_concat place with rfl | ⟨front, last, rfl⟩
        · exact ⟨entries, inside⟩
        · rw [List.concat_eq_append, List.dropLast_concat]
          rw [List.concat_eq_append] at inside
          exact Node.find?_of_append inside
      · rename_i noDots
        split at step
        · cases step
        · cases step
          exact ⟨by rw [if_neg noDot, if_neg noDots], Or.inr ⟨rfl, entries, inside⟩⟩

theorem follow_cons (h : Host) (place : List String) (name : String) (rest : List String) :
    h.follow place (name :: rest) = (h.step place name).bind fun next => h.follow next rest := by
  rw [Host.follow]
  cases h.step place name <;> rfl

theorem follow_append (h : Host) (place front back : List String) :
    h.follow place (front ++ back) =
      (h.follow place front).bind fun middle => h.follow middle back := by
  induction front generalizing place with
  | nil => rfl
  | cons name front ih =>
    rw [List.cons_append, follow_cons, follow_cons]
    cases h.step place name with
    | error e => rfl
    | ok next => exact ih next

theorem exists_of_bind_ok {ε α β : Type} {x : Except ε α} {f : α → Except ε β} {b : β}
    (h : x >>= f = .ok b) : ∃ a, x = .ok a ∧ f a = .ok b := by
  cases x with
  | error e => cases h
  | ok a => exact ⟨a, rfl, h⟩

theorem follow_eq {after names : List String} (follow : h.follow place names = .ok after) :
    after = lead place names := by
  induction names generalizing place with
  | nil =>
    cases follow
    rfl
  | cons name rest ih =>
    rw [follow_cons] at follow
    obtain ⟨next, step, follow⟩ := exists_of_bind_ok follow
    rw [ih follow, (step_cases step).1]
    rfl

private theorem follow_cases {after names : List String}
    (follow : h.follow place names = .ok after) :
    names = [] ∨ h.DirectoryAt after ∨ ∃ front name, after = front ++ [name] := by
  rcases List.eq_nil_or_concat names with rfl | ⟨front, last, rfl⟩
  · exact Or.inl rfl
  · rw [List.concat_eq_append, follow_append] at follow
    obtain ⟨middle, -, follow⟩ := exists_of_bind_ok follow
    rw [follow_cons] at follow
    obtain ⟨next, step, follow⟩ := exists_of_bind_ok follow
    cases follow
    refine Or.inr ?_
    rcases (step_cases step).2 with directory | ⟨rfl, -⟩
    · exact Or.inl directory
    · exact Or.inr ⟨middle, last, rfl⟩

theorem step_of_directoryAt (directory : h.DirectoryAt place) (name : String) :
    h.step place name =
      if name = "." then .ok place
      else if name = ".." then .ok place.dropLast
      else if maxName < name.utf8ByteSize then .error .nameTooLong
      else .ok (place ++ [name]) := by
  obtain ⟨entries, inside⟩ := directory
  rw [Host.step, inside]

theorem directoryAt_of_step {after : List String} (step : h.step place name = .ok after) :
    h.DirectoryAt place := by
  unfold Host.step at step
  split at step
  · cases step
  · cases step
  · rename_i entries inside
    exact ⟨entries, inside⟩

private theorem step_of_directories {after : List String}
    (directories : ∀ place, h.DirectoryAt place → h'.DirectoryAt place)
    (step : h.step place name = .ok after) : h'.step place name = .ok after := by
  have here := directoryAt_of_step step
  rw [step_of_directoryAt (directories place here), ← step_of_directoryAt here, step]

theorem follow_of_directories {after names : List String}
    (directories : ∀ place, h.DirectoryAt place → h'.DirectoryAt place)
    (follow : h.follow place names = .ok after) : h'.follow place names = .ok after := by
  induction names generalizing place with
  | nil =>
    cases follow
    rfl
  | cons name rest ih =>
    rw [follow_cons] at follow ⊢
    obtain ⟨next, step, follow⟩ := exists_of_bind_ok follow
    rw [step_of_directories directories step]
    exact ih follow

theorem placeOf_of_workDir (same : h'.workDir = h.workDir) (path : String) :
    h'.placeOf path = h.placeOf path := by
  rw [placeOf, placeOf, origin, origin, same]

structure SameFiles (h h' : Host) : Prop where
  workDir : h'.workDir = h.workDir
  files : ∀ place, h'.fileAt place = h.fileAt place
  directories : ∀ place, h.DirectoryAt place → h'.DirectoryAt place

theorem SameFiles.refl (h : Host) : h.SameFiles h := ⟨rfl, fun _ => rfl, fun _ => id⟩

private theorem SameFiles.trans {h'' : Host} (first : h.SameFiles h') (second : h'.SameFiles h'') :
    h.SameFiles h'' :=
  ⟨second.workDir.trans first.workDir,
    fun place => (second.files place).trans (first.files place),
    fun place here => second.directories place (first.directories place here)⟩

private theorem directoryAt_of_seen {root : Node} (noDirectory : ¬ h.DirectoryAt place)
    (same : ∀ other ≠ place, root.seen other = h.root.seen other) {other : List String}
    (directory : h.DirectoryAt other) : ({ h with root := root } : Host).DirectoryAt other := by
  have elsewhere : other ≠ place := by
    rintro rfl
    exact noDirectory directory
  refine Node.seen_eq_directory_iff.mp ?_
  rw [same other elsewhere]
  exact Node.seen_eq_directory_iff.mpr directory

theorem find?_makeDirectory {after : List String} (step : h.step place name = .ok after)
    (none : h.node? after = none) :
    (Node.set (.directory []) h.root after).find? after = some (.directory []) := by
  rcases (step_cases step).2 with ⟨entries, directory⟩ | ⟨rfl, entries, inside⟩
  · cases none.symm.trans directory
  · exact Node.find?_set_of_directory inside

theorem sameFiles_makeDirectory {after : List String} (step : h.step place name = .ok after)
    (none : h.node? after = none) :
    h.SameFiles { h with root := Node.set (.directory []) h.root after } := by
  have noDirectory : ¬ h.DirectoryAt after := fun ⟨entries, same⟩ => nomatch none.symm.trans same
  have same : ∀ other ≠ after,
      (Node.set (.directory []) h.root after).seen other = h.root.seen other :=
    fun other ne => Node.seen_set_of_ne Node.isLeaf_empty (not_exists.mp noDirectory) ne
  refine ⟨rfl, fun other => ?_, fun other => directoryAt_of_seen noDirectory same⟩
  by_cases here : other = after
  · subst here
    have made := find?_makeDirectory step none
    have none : h.root.find? other = Option.none := none
    simp only [fileAt, Node.fileAt, made, none]
    rfl
  · exact Node.fileAt_of_seen (same other here)

theorem sameFiles_makeAlong (h : Host) (place names : List String) :
    h.SameFiles (h.makeAlong place names).2 := by
  induction names generalizing h place with
  | nil => exact .refl h
  | cons name rest ih =>
    rw [makeAlong]
    cases step : h.step place name with
    | error e => exact .refl h
    | ok after =>
      simp only
      split
      · exact ih h after
      · exact .refl h
      · rename_i none
        exact (sameFiles_makeDirectory step none).trans (ih _ after)

theorem sameFiles_makeDirs (h : Host) (path : String) : h.SameFiles (h.makeDirs path).2 := by
  unfold makeDirs
  split
  · exact .refl h
  · split
    · exact .refl h
    · split
      · unfold makeAboveDot
        split
        · exact .refl h
        · have along := sameFiles_makeAlong h (h.origin path)
            ((names path).filter (· != ".")).dropLast
          generalize h.makeAlong _ _ = r at along ⊢
          obtain ⟨e | u, h'⟩ := r <;> exact along
        · exact .refl h
      · exact sameFiles_makeAlong h _ _

theorem directory_of_makeAlong {names : List String} (directory : h.DirectoryAt place)
    (made : h.makeAlong place names = (.ok (), h')) :
    ∃ after, h'.follow place names = .ok after ∧ h'.DirectoryAt after := by
  induction names generalizing h place with
  | nil =>
    cases made
    exact ⟨place, rfl, directory⟩
  | cons name rest ih =>
    have whole := sameFiles_makeAlong h place (name :: rest)
    rw [made] at whole
    rw [makeAlong] at made
    cases step : h.step place name with
    | error e =>
      rw [step] at made
      cases made
    | ok after =>
      -- The names lead there in the end as well, since no directory is lost on the way.
      have first : h'.follow place (name :: rest) = h'.follow after rest := by
        rw [follow_cons, step_of_directories whole.directories step]
        rfl
      rw [first]
      simp only [step] at made
      split at made
      · rename_i entries inside
        exact ih ⟨entries, inside⟩ made
      · cases made
      · rename_i none
        have directory : ({ h with root := Node.set (.directory []) h.root after } :
            Host).DirectoryAt after := ⟨[], find?_makeDirectory step none⟩
        exact ih directory made

private theorem follow_of_makeAboveDot (made : h.makeAboveDot path = (.ok (), h')) :
    h' = h ∧ ∃ place, h.follow (h.origin path) (names path) = .ok place := by
  unfold makeAboveDot at made
  split at made
  · rename_i node found
    cases made
    obtain ⟨located, isLocated, -⟩ := exists_of_bind_ok found
    obtain ⟨-, -, isLocated⟩ := exists_of_bind_ok isLocated
    obtain ⟨place, follow, -⟩ := exists_of_bind_ok isLocated
    exact ⟨rfl, place, follow⟩
  · split at made
    · cases made
    · rename_i notMade
      exact absurd made (notMade () h')
  · cases made

theorem directory_of_makeDirs (start : h.DirectoryAt (h.origin path))
    (made : h.makeDirs path = (.ok (), h')) :
    ∃ place, h'.follow (h'.origin path) (names path) = .ok place ∧ h'.DirectoryAt place := by
  have same := sameFiles_makeDirs h path
  rw [made] at same
  have origin : h'.origin path = h.origin path := by rw [Host.origin, Host.origin, same.workDir]
  rw [origin]
  unfold makeDirs at made
  split at made
  · rename_i empty
    cases made
    rw [String.isEmpty_iff.mp empty]
    exact ⟨_, rfl, by rwa [String.isEmpty_iff.mp empty] at start⟩
  · split at made
    · cases made
    · split at made
      · rename_i dot
        obtain ⟨front, ends⟩ := List.getLast?_eq_some_iff.mp (eq_of_beq dot)
        obtain ⟨rfl, place, follow⟩ := follow_of_makeAboveDot made
        refine ⟨place, follow, ?_⟩
        rw [ends, follow_append] at follow
        obtain ⟨last, -, follow⟩ := exists_of_bind_ok follow
        rw [follow_cons] at follow
        obtain ⟨next, step, follow⟩ := exists_of_bind_ok follow
        have here := directoryAt_of_step step
        rw [step_of_directoryAt here, if_pos rfl] at step
        cases step
        cases follow
        exact here
      · exact directory_of_makeAlong start made

/-- A host where one place has come to have a file with the given contents, or none: no other file
has changed, and no directory is lost. -/
structure Replaced (h : Host) (place : List String) (value : Option Bytes) (h' : Host) : Prop where
  workDir : h'.workDir = h.workDir
  here : h'.fileAt place = value
  elsewhere : ∀ other ≠ place, h'.fileAt other = h.fileAt other
  directories : ∀ place, h.DirectoryAt place → h'.DirectoryAt place

theorem SameFiles.replaced {h'' : Host} (first : h.SameFiles h')
    (second : h'.Replaced place value h'') : h.Replaced place value h'' :=
  ⟨second.workDir.trans first.workDir, second.here,
    fun other ne => (second.elsewhere other ne).trans (first.files other),
    fun place here => second.directories place (first.directories place here)⟩

structure Keeps (h h' : Host) : Prop where
  workDir : h'.workDir = h.workDir
  directories : ∀ place, h.DirectoryAt place → h'.DirectoryAt place
  files : ∀ place, (h.fileAt place).isSome = true → (h'.fileAt place).isSome = true

theorem Keeps.refl (h : Host) : h.Keeps h := ⟨rfl, fun _ => id, fun _ => id⟩

theorem Keeps.trans {h'' : Host} (first : h.Keeps h') (second : h'.Keeps h'') : h.Keeps h'' :=
  ⟨second.workDir.trans first.workDir,
    fun place there => second.directories place (first.directories place there),
    fun place there => second.files place (first.files place there)⟩

theorem SameFiles.keeps (same : h.SameFiles h') : h.Keeps h' := by
  refine ⟨same.workDir, same.directories, fun place there => ?_⟩
  rw [same.files]
  exact there

theorem Replaced.keeps (replaced : h.Replaced place (some content) h') : h.Keeps h' := by
  refine ⟨replaced.workDir, replaced.directories, fun other there => ?_⟩
  by_cases here : other = place
  · rw [here, replaced.here]
    rfl
  · rw [replaced.elsewhere other here]
    exact there

private theorem replaced_of_seen {root : Node} (noDirectory : ¬ h.DirectoryAt place)
    (here : root.fileAt place = value)
    (same : ∀ other ≠ place, root.seen other = h.root.seen other) :
    h.Replaced place value { h with root := root } :=
  ⟨rfl, here, fun other ne => Node.fileAt_of_seen (same other ne),
    fun _ => directoryAt_of_seen noDirectory same⟩

theorem replaced_write (done : h.write path content = .ok h') :
    checkPath path = .ok () ∧ h.follow (h.origin path) (names path) = .ok (h.placeOf path) ∧
      wantsDirectory path = false ∧ h.Replaced (h.placeOf path) (some content) h' := by
  obtain ⟨⟨⟩, checked, done⟩ := exists_of_bind_ok done
  refine ⟨checked, ?_⟩
  obtain ⟨front, follow, done⟩ := exists_of_bind_ok done
  cases ends : (names path).getLast? with
  | none =>
    rw [ends] at done
    cases done
  | some last =>
    rw [ends] at done
    obtain ⟨target, step, done⟩ := exists_of_bind_ok done
    have reached : h.follow (h.origin path) (names path) = .ok target := by
      obtain ⟨front', whole⟩ := List.getLast?_eq_some_iff.mp ends
      rw [whole, List.dropLast_concat] at follow
      rw [whole, follow_append, follow, Except.bind, follow_cons, step]
      rfl
    have isPlace : h.placeOf path = target := (follow_eq reached).symm
    rw [isPlace]
    refine ⟨reached, ?_⟩
    simp only [bind, Except.bind] at done
    split at done
    · cases done
    · rename_i wants
      split at done
      · cases done
      · rename_i noEntries
        cases done
        have noDirectory : ¬ h.DirectoryAt target := not_exists.mpr noEntries
        refine ⟨Bool.eq_false_iff.mpr wants, replaced_of_seen noDirectory ?_ fun other ne =>
          Node.seen_set_of_ne (Node.isLeaf_file content) noEntries ne⟩
        rcases (step_cases step).2 with directory | ⟨rfl, entries, inside⟩
        · exact absurd directory noDirectory
        · have written : (Node.set (.file content) h.root (front ++ [last])).find?
              (front ++ [last]) = some (.file content) := Node.find?_set_of_directory inside
          rw [Node.fileAt, written]
          rfl

private theorem wantsDirectory_of_names (nameless : names path = []) :
    wantsDirectory path = true := by
  have empty : ∀ part ∈ Text.Path.split path, part = "" := by
    intro part hpart
    simpa using List.filter_eq_nil_iff.mp nameless part hpart
  unfold wantsDirectory
  cases ends : (Text.Path.split path).getLast? with
  | none =>
    have split_nil := List.getLast?_eq_none_iff.mp ends
    exact absurd (List.map_eq_nil_iff.mp split_nil) (Text.pieces_ne_nil _ _)
  | some last => simp [empty last (List.mem_of_getLast? ends)]

theorem locate_file {inner : Node} (found : h.locate path = .ok (place, some inner)) :
    checkPath path = .ok () ∧ h.follow (h.origin path) (names path) = .ok place ∧
      place = h.placeOf path ∧ h.node? place = some inner ∧
      (inner.isDirectory = false → wantsDirectory path = false) := by
  obtain ⟨⟨⟩, checked, found⟩ := exists_of_bind_ok found
  obtain ⟨reached, follow, found⟩ := exists_of_bind_ok found
  refine ⟨checked, ?_⟩
  cases there : h.node? reached with
  | none =>
    rw [there] at found
    cases found
  | some node =>
    cases node with
    | directory entries =>
      rw [there] at found
      cases found
      exact ⟨follow, follow_eq follow, there, nofun⟩
    | file content =>
      rw [there] at found
      cases wants : wantsDirectory path with
      | true =>
        rw [wants] at found
        cases found
      | false =>
        rw [wants] at found
        cases found
        exact ⟨follow, follow_eq follow, there, fun _ => rfl⟩

theorem stat_file_iff {path : String} :
    h.stat path = .ok (.file content) ↔
      checkPath path = .ok () ∧
        h.follow (h.origin path) (names path) = .ok (h.placeOf path) ∧
        h.node? (h.placeOf path) = some (.file content) ∧ wantsDirectory path = false := by
  constructor
  · intro found
    obtain ⟨⟨place, node⟩, located, found⟩ := exists_of_bind_ok found
    cases node with
    | none => cases found
    | some node =>
      cases found
      obtain ⟨checked, follow, rfl, there, wants⟩ := locate_file located
      exact ⟨checked, follow, there, wants rfl⟩
  · rintro ⟨checked, follow, there, wants⟩
    simp [stat, locate, checked, follow, there, wants, bind, Except.bind, pure, Except.pure]

theorem read_eq_ok_iff {path : String} :
    h.read path = .ok content ↔ h.stat path = .ok (.file content) := by
  unfold read
  cases h.stat path with
  | error e => simp [bind, Except.bind]
  | ok node => cases node <;> simp [bind, Except.bind, pure, Except.pure]

theorem stat_write (done : h.write path content = .ok h') :
    h'.stat path = .ok (.file content) := by
  obtain ⟨checked, follow, wants, replaced⟩ := replaced_write done
  have origin : h'.origin path = h.origin path := by rw [Host.origin, Host.origin, replaced.workDir]
  rw [stat_file_iff, placeOf_of_workDir replaced.workDir, origin]
  exact ⟨checked, follow_of_directories replaced.directories follow,
    Node.fileAt_eq_some_iff.mp replaced.here, wants⟩

theorem replaced_remove (done : h.remove path = .ok h') :
    h.Replaced (h.placeOf path) none h' := by
  obtain ⟨⟨place, node⟩, found, done⟩ := exists_of_bind_ok done
  cases node with
  | none => cases done
  | some node =>
    cases node with
    | directory entries => cases done
    | file content =>
      cases done
      obtain ⟨-, follow, isPlace, isFile, wants⟩ := locate_file found
      rw [← isPlace]
      have noEntries : ∀ entries, h.root.find? place ≠ some (.directory entries) :=
        fun entries same => nomatch isFile.symm.trans same
      have noDirectory : ¬ h.DirectoryAt place := not_exists.mpr noEntries
      refine replaced_of_seen noDirectory ?_ fun other ne =>
        Node.seen_erase_of_ne noEntries ne
      rcases follow_cases follow with nameless | directory | ⟨front, name, rfl⟩
      · cases (wantsDirectory_of_names nameless).symm.trans (wants rfl)
      · exact absurd directory noDirectory
      · rw [Node.fileAt, Node.find?_erase]
        rfl

theorem remove_isOk_iff :
    (∃ h', h.remove path = .ok h') ↔ ∃ content, h.stat path = .ok (.file content) := by
  unfold remove stat
  cases h.locate path with
  | error e => simp [bind, Except.bind]
  | ok found =>
    obtain ⟨place, node⟩ := found
    cases node with
    | none => simp [bind, Except.bind]
    | some node => cases node <;> simp [bind, Except.bind, pure, Except.pure]

end Host

end ProofHost
