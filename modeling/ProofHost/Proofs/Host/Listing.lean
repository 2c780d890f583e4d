import ProofHost.Proofs.Host.Files

/-!
Which files a listing of a tree gives. Where every name in a directory is there once, each file is
listed once and nothing else is. Entries that are put or erased keep the names apart.
-/

set_option autoImplicit false

namespace ProofHost

namespace Node

inductive Distinct : Node → Prop
  | file (content : Bytes) : Distinct (file content)
  | directory {entries : List (String × Node)} (once : (entries.map Prod.fst).Nodup)
    (each : ∀ entry ∈ entries, Distinct entry.2) : Distinct (directory entries)

variable {node leaf inner : Node} {name : String} {place names : List String}
  {entries : List (String × Node)} {entry : String × Node}

theorem distinct_empty : (directory []).Distinct := .directory List.nodup_nil (List.forall_mem_nil _)

private theorem mem_of_lookup (found : entries.lookup name = some node) :
    (name, node) ∈ entries := by
  obtain ⟨front, back, rfl, -⟩ := List.lookup_eq_some_iff.mp found
  simp

private theorem lookup_of_mem (once : (entries.map Prod.fst).Nodup)
    (there : (name, node) ∈ entries) :
    entries.lookup name = some node := by
  obtain ⟨front, back, rfl⟩ := List.append_of_mem there
  refine List.lookup_eq_some_iff.mpr ⟨front, back, rfl, fun other isBefore => ?_⟩
  rw [List.map_append, List.nodup_append] at once
  have ne := once.2.2 other.1 (List.mem_map_of_mem isBefore) name (by simp)
  simpa using Ne.symm ne

private theorem map_fst_setEntry (name : String) (node : Node) (entries : List (String × Node)) :
    (setEntry name node entries).map Prod.fst =
      if name ∈ entries.map Prod.fst then entries.map Prod.fst
      else entries.map Prod.fst ++ [name] := by
  induction entries with
  | nil => rfl
  | cons entry rest ih =>
    obtain ⟨first, old⟩ := entry
    rw [setEntry]
    by_cases same : name = first
    · subst same
      simp
    · rw [if_neg same, List.map_cons, ih]
      by_cases later : name ∈ rest.map Prod.fst
      · simp [later]
      · simp [later, same]

private theorem mem_setEntry (there : entry ∈ setEntry name node entries) :
    entry = (name, node) ∨ entry ∈ entries := by
  induction entries with
  | nil => exact Or.inl (List.mem_singleton.mp there)
  | cons first rest ih =>
    obtain ⟨other, old⟩ := first
    rw [setEntry] at there
    split at there
    · rcases List.mem_cons.mp there with here | later
      · exact Or.inl here
      · exact Or.inr (List.mem_cons_of_mem _ later)
    · rcases List.mem_cons.mp there with rfl | later
      · exact Or.inr List.mem_cons_self
      · exact (ih later).imp_right (List.mem_cons_of_mem _)

private theorem distinct_setEntry (whole : (directory entries).Distinct) (distinct : node.Distinct)
    (name : String) : (directory (setEntry name node entries)).Distinct := by
  cases whole with
  | directory once each =>
    refine .directory ?_ fun entry there => ?_
    · rw [map_fst_setEntry]
      split
      · exact once
      · rename_i fresh
        refine List.nodup_append.mpr ⟨once, by simp, ?_⟩
        rintro other isOther last isLast rfl
        exact fresh (List.mem_singleton.mp isLast ▸ isOther)
    · rcases mem_setEntry there with rfl | before
      · exact distinct
      · exact each entry before

private theorem distinct_of_lookup (whole : (directory entries).Distinct)
    (found : entries.lookup name = some node) : node.Distinct := by
  cases whole with
  | directory once each => exact each (name, node) (mem_of_lookup found)

private theorem distinct_set (distinct : node.Distinct) (isLeaf : leaf.Distinct)
    (place : List String) :
    (set leaf node place).Distinct := by
  induction place generalizing node with
  | nil =>
    rw [set]
    exact isLeaf
  | cons name rest ih =>
    cases node with
    | file content => exact distinct
    | directory entries =>
      cases rest with
      | nil => exact distinct_setEntry distinct isLeaf name
      | cons next rest =>
        rw [set]
        cases found : entries.lookup name with
        | none => exact distinct
        | some child => exact distinct_setEntry distinct (ih (distinct_of_lookup distinct found)) name

private theorem distinct_erase (distinct : node.Distinct) (place : List String) :
    (erase node place).Distinct := by
  induction place generalizing node with
  | nil =>
    rw [erase]
    exact distinct
  | cons name rest ih =>
    cases node with
    | file content => exact distinct
    | directory entries =>
      cases rest with
      | nil =>
        cases distinct with
        | directory once each =>
          have fewer : (eraseEntry name entries).Sublist entries := List.filter_sublist
          exact .directory ((fewer.map Prod.fst).nodup once) fun entry there =>
            each entry (fewer.subset there)
      | cons next rest =>
        rw [erase]
        cases found : entries.lookup name with
        | none => exact distinct
        | some child => exact distinct_setEntry distinct (ih (distinct_of_lookup distinct found)) name

theorem distinct_of_find? (distinct : node.Distinct) (found : node.find? place = some inner) :
    inner.Distinct := by
  induction place generalizing node with
  | nil =>
    cases found
    exact distinct
  | cons name rest ih =>
    cases node with
    | file content => cases found
    | directory entries =>
      rw [find?_directory_cons] at found
      obtain ⟨child, here, found⟩ := Option.bind_eq_some_iff.mp found
      exact ih (distinct_of_lookup distinct here) found

private theorem find?_set_below (leaf node : Node) (place : List String) (name : String)
    (rest : List String) :
    (set leaf node (place ++ name :: rest)).find? place =
      (node.find? place).map fun inner => set leaf inner (name :: rest) := by
  induction place generalizing node with
  | nil => rfl
  | cons first place ih =>
    obtain ⟨next, tail, long⟩ : ∃ next tail, place ++ name :: rest = next :: tail := by
      cases place <;> exact ⟨_, _, rfl⟩
    cases node with
    | file content => rfl
    | directory entries =>
      rw [List.cons_append, long, set, find?_directory_cons]
      cases found : entries.lookup first with
      | none => rw [find?_directory_cons, found]; rfl
      | some child =>
        rw [find?_directory_cons, lookup_setEntry, if_pos rfl, ← long]
        exact ih child

private theorem find?_erase_below (node : Node) (place : List String) (name : String)
    (rest : List String) :
    (erase node (place ++ name :: rest)).find? place =
      (node.find? place).map fun inner => erase inner (name :: rest) := by
  induction place generalizing node with
  | nil => rfl
  | cons first place ih =>
    obtain ⟨next, tail, long⟩ : ∃ next tail, place ++ name :: rest = next :: tail := by
      cases place <;> exact ⟨_, _, rfl⟩
    cases node with
    | file content => rfl
    | directory entries =>
      rw [List.cons_append, long, erase, find?_directory_cons]
      cases found : entries.lookup first with
      | none => rw [find?_directory_cons, found]; rfl
      | some child =>
        rw [find?_directory_cons, lookup_setEntry, if_pos rfl, ← long]
        exact ih child

private theorem filesOf_eq_flatMap (entries : List (String × Node)) :
    filesOf entries = entries.flatMap fun entry => entry.2.files.map (entry.1 :: ·) := by
  induction entries with
  | nil => rfl
  | cons entry rest ih => rw [filesOf, ih, List.flatMap_cons]

private theorem fileAt_directory_cons (entries : List (String × Node)) (name : String)
    (rest : List String) :
    (directory entries).fileAt (name :: rest) =
      (entries.lookup name).bind fun child => child.fileAt rest := by
  rw [fileAt, find?_directory_cons, Option.bind_assoc]
  rfl

theorem mem_files_iff (distinct : node.Distinct) :
    names ∈ node.files ↔ (node.fileAt names).isSome = true := by
  induction distinct generalizing names with
  | file content =>
    cases names with
    | nil => simp [files, fileAt, find?, content?]
    | cons name rest => simp [files, fileAt, find?]
  | @directory entries once each ih =>
    rw [files, filesOf_eq_flatMap, List.mem_flatMap]
    constructor
    · rintro ⟨⟨name, child⟩, there, listed⟩
      obtain ⟨rest, isFile, rfl⟩ := List.mem_map.mp listed
      rw [fileAt_directory_cons, lookup_of_mem once there]
      exact (ih (name, child) there).mp isFile
    · intro isFile
      cases names with
      | nil => cases isFile
      | cons name rest =>
        rw [fileAt_directory_cons] at isFile
        obtain ⟨content, found⟩ := Option.isSome_iff_exists.mp isFile
        obtain ⟨child, here, found⟩ := Option.bind_eq_some_iff.mp found
        have there := mem_of_lookup here
        refine ⟨(name, child), there, List.mem_map_of_mem ?_⟩
        exact (ih (name, child) there).mpr (by rw [found]; rfl)

theorem nodup_files (distinct : node.Distinct) : node.files.Nodup := by
  induction distinct with
  | file content => simp [files]
  | @directory entries once each ih =>
    rw [files, filesOf_eq_flatMap]
    refine List.pairwise_flatMap.mpr ⟨?_, ?_⟩
    · intro entry there
      refine List.Pairwise.map (entry.1 :: ·) ?_ (ih entry there)
      intro a b ne same
      exact ne (List.cons.inj same).2
    · refine (List.pairwise_map.mp once).imp ?_
      intro first second ne a isFirst b isSecond same
      obtain ⟨rest, -, rfl⟩ := List.mem_map.mp isFirst
      obtain ⟨rest', -, rfl⟩ := List.mem_map.mp isSecond
      exact ne (List.cons.inj same).1

end Node

namespace Host

variable {h h' : Host} {place : List String} {path : String} {leaf : Node}

/-- In the directory at a place, and below it, each name is there once. -/
def DistinctAt (h : Host) (place : List String) : Prop :=
  ∀ inner, h.node? place = some inner → inner.Distinct

theorem distinctAt_set (distinct : h.DistinctAt place) (isLeaf : leaf.Distinct) {below : List String}
    (ne : below ≠ []) :
    ({ h with root := Node.set leaf h.root (place ++ below) } : Host).DistinctAt place := by
  obtain ⟨name, rest, rfl⟩ := List.exists_cons_of_ne_nil ne
  intro inner found
  rw [node?, Node.find?_set_below] at found
  obtain ⟨before, there, rfl⟩ := Option.map_eq_some_iff.mp found
  exact Node.distinct_set (distinct before there) isLeaf _

theorem distinctAt_erase (distinct : h.DistinctAt place) {below : List String} (ne : below ≠ []) :
    ({ h with root := Node.erase h.root (place ++ below) } : Host).DistinctAt place := by
  obtain ⟨name, rest, rfl⟩ := List.exists_cons_of_ne_nil ne
  intro inner found
  rw [node?, Node.find?_erase_below] at found
  obtain ⟨before, there, rfl⟩ := Option.map_eq_some_iff.mp found
  exact Node.distinct_erase (distinct before there) _

theorem remove_eq (done : h.remove path = .ok h') :
    h' = { h with root := h.root.erase (h.placeOf path) } := by
  obtain ⟨⟨place, node⟩, found, done⟩ := exists_of_bind_ok done
  cases node with
  | none => cases done
  | some node =>
    cases node with
    | directory entries => cases done
    | file content =>
      cases done
      obtain ⟨-, -, rfl, -⟩ := locate_file found
      rfl

theorem stat_directory_cases {entries : List (String × Node)}
    (found : h.stat path = .ok (.directory entries)) :
    checkPath path = .ok () ∧ h.node? (h.placeOf path) = some (.directory entries) := by
  obtain ⟨⟨place, node⟩, located, found⟩ := exists_of_bind_ok found
  cases node with
  | none => cases found
  | some node =>
    cases found
    obtain ⟨checked, -, rfl, there, -⟩ := locate_file located
    exact ⟨checked, there⟩

theorem checkPath_of_append {rest : String} (checked : checkPath (path ++ rest) = .ok ())
    (ne : path ≠ "") : checkPath path = .ok () := by
  unfold checkPath at checked ⊢
  split at checked
  · cases checked
  · rename_i noNul
    split at checked
    · cases checked
    · split at checked
      · cases checked
      · rename_i short
        have clean : path.toList.contains '\x00' = false := by
          simpa using fun nul => noNul (by simp [nul])
        have notEmpty : path.isEmpty = false := by simpa using ne
        have fits : ¬ maxPath < path.utf8ByteSize := by
          rw [String.utf8ByteSize_append] at short
          omega
        rw [clean, notEmpty, if_neg fits]
        rfl

end Host

end ProofHost
