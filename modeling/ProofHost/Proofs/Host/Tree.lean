import ProofHost.Host.Tree

/-!
What is seen in a tree of files and directories after a node is put or erased at some place. As long
as that place is no directory, everything elsewhere looks the same.
-/

set_option autoImplicit false

namespace ProofHost

namespace Node

def content? : Node → Option Bytes
  | file content => some content
  | directory _ => none

/-- The contents of the file at the end of a list of names, if there is a file. -/
def fileAt (node : Node) (place : List String) : Option Bytes := (node.find? place).bind content?

/-- What is seen at the end of a list of names: nothing, a directory, or a file with its
contents. -/
def seen (node : Node) (place : List String) : Option (Option Bytes) :=
  (node.find? place).map content?

variable {node leaf : Node} {name : String} {place other : List String}
  {entries : List (String × Node)}

private theorem lookup_cons_of_ne {x first : String} (ne : x ≠ first) (old : Node)
    (rest : List (String × Node)) : ((first, old) :: rest).lookup x = rest.lookup x := by
  have differs : (x == first) = false := by simpa using ne
  simp [List.lookup_cons, differs]

theorem lookup_setEntry (name : String) (node : Node) (entries : List (String × Node))
    (x : String) :
    (setEntry name node entries).lookup x = if x = name then some node else entries.lookup x := by
  induction entries with
  | nil =>
    by_cases same : x = name
    · simp [setEntry, same]
    · rw [setEntry, lookup_cons_of_ne same, if_neg same]
  | cons entry rest ih =>
    obtain ⟨first, old⟩ := entry
    rw [setEntry]
    split
    · rename_i here
      subst here
      by_cases same : x = name
      · simp [same]
      · rw [lookup_cons_of_ne same, lookup_cons_of_ne same, if_neg same]
    · rename_i elsewhere
      by_cases same : x = first
      · subst same
        simp [Ne.symm elsewhere]
      · rw [lookup_cons_of_ne same, lookup_cons_of_ne same, ih]

theorem find?_directory_cons (entries : List (String × Node)) (name : String)
    (rest : List String) :
    (directory entries).find? (name :: rest) =
      (entries.lookup name).bind fun child => child.find? rest := by
  rw [find?]
  cases entries.lookup name <;> rfl

theorem find?_append (node : Node) (place rest : List String) :
    node.find? (place ++ rest) = (node.find? place).bind fun inner => inner.find? rest := by
  induction place generalizing node with
  | nil => rfl
  | cons name place ih =>
    cases node with
    | file content => rfl
    | directory entries =>
      rw [List.cons_append, find?_directory_cons, find?_directory_cons]
      cases entries.lookup name with
      | none => rfl
      | some child => exact ih child

def IsLeaf (leaf : Node) : Prop := ∀ name rest, leaf.find? (name :: rest) = none

theorem isLeaf_file (content : Bytes) : (file content).IsLeaf := fun _ _ => rfl

theorem isLeaf_empty : (directory []).IsLeaf := fun _ _ => rfl

private theorem IsLeaf.seen_cons (h : leaf.IsLeaf) (name : String) (rest : List String) :
    leaf.seen (name :: rest) = none := by
  rw [seen, h]
  rfl

theorem fileAt_eq_some_iff {content : Bytes} :
    node.fileAt place = some content ↔ node.find? place = some (.file content) := by
  rw [fileAt, Option.bind_eq_some_iff]
  constructor
  · rintro ⟨inner, found, isFile⟩
    cases inner with
    | file content =>
      cases isFile
      exact found
    | directory entries => cases isFile
  · intro found
    exact ⟨_, found, rfl⟩

theorem fileAt_of_seen {other : Node} {there : List String}
    (same : node.seen place = other.seen there) : node.fileAt place = other.fileAt there := by
  have joined (node : Node) (place : List String) :
      node.fileAt place = (node.seen place).bind id := by
    rw [fileAt, seen, Option.bind_map]
    rfl
  rw [joined, joined, same]

theorem seen_eq_directory_iff :
    node.seen place = some none ↔ ∃ entries, node.find? place = some (.directory entries) := by
  rw [seen, Option.map_eq_some_iff]
  constructor
  · rintro ⟨inner, found, isDirectory⟩
    cases inner with
    | file content => cases isDirectory
    | directory entries => exact ⟨entries, found⟩
  · rintro ⟨entries, found⟩
    exact ⟨_, found, rfl⟩

private theorem seen_directory_cons (entries : List (String × Node)) (name : String)
    (rest : List String) :
    (directory entries).seen (name :: rest) =
      (entries.lookup name).bind fun child => child.seen rest := by
  rw [seen, find?_directory_cons]
  cases entries.lookup name <;> rfl

private theorem seen_directory_congr {after : List (String × Node)} (other : List String)
    (same : ∀ x rest, other = x :: rest →
      ((after.lookup x).bind fun child => child.seen rest) =
        (entries.lookup x).bind fun child => child.seen rest) :
    (directory after).seen other = (directory entries).seen other := by
  cases other with
  | nil => rfl
  | cons x rest =>
    rw [seen_directory_cons, seen_directory_cons]
    exact same x rest rfl

private theorem seen_setEntry_of_child {child : Node} (other : List String)
    (same : ∀ rest, other = name :: rest →
      child.seen rest = (entries.lookup name).bind fun old => old.seen rest) :
    (directory (setEntry name child entries)).seen other = (directory entries).seen other := by
  refine seen_directory_congr other fun x rest whole => ?_
  rw [lookup_setEntry]
  split
  · rename_i here
    subst here
    exact same rest whole
  · rfl

private theorem seen_below_none {x : String} {rest : List String}
    (noDirectory : ∀ inner, (directory entries).find? [name] ≠ some (.directory inner)) :
    ((entries.lookup name).bind fun child => child.seen (x :: rest)) = none := by
  cases found : entries.lookup name with
  | none => rfl
  | some child =>
    cases child with
    | file content => rfl
    | directory inner => exact absurd (by simp [find?, found]) (noDirectory inner)

theorem seen_set_of_ne (isLeaf : leaf.IsLeaf)
    (noDirectory : ∀ entries, node.find? place ≠ some (.directory entries)) (ne : other ≠ place) :
    (set leaf node place).seen other = node.seen other := by
  induction place generalizing node other with
  | nil =>
    cases other with
    | nil => exact absurd rfl ne
    | cons name rest =>
      cases node with
      | file content => rw [set, isLeaf.seen_cons]; rfl
      | directory entries => exact absurd rfl (noDirectory entries)
  | cons name rest ih =>
    cases node with
    | file content => rw [set]
    | directory entries =>
      cases rest with
      | nil =>
        rw [set]
        refine seen_setEntry_of_child other fun inner same => ?_
        cases inner with
        | nil => exact absurd same ne
        | cons x inner => rw [isLeaf.seen_cons, seen_below_none noDirectory]
      | cons next rest =>
        rw [set]
        cases found : entries.lookup name with
        | none => rfl
        | some child =>
          refine seen_setEntry_of_child other fun inner same => ?_
          subst same
          rw [found]
          refine ih (fun inner same => noDirectory inner ?_) fun same => ne (by rw [same])
          rw [find?_directory_cons, found]
          exact same

private theorem lookup_eraseEntry (name : String) (entries : List (String × Node)) (x : String) :
    (eraseEntry name entries).lookup x = if x = name then none else entries.lookup x := by
  induction entries with
  | nil => simp [eraseEntry]
  | cons entry rest ih =>
    obtain ⟨first, old⟩ := entry
    rw [eraseEntry] at ih ⊢
    by_cases dropped : first = name
    · rw [List.filter_cons_of_neg (by simpa using dropped), ih]
      split
      · rfl
      · rename_i same
        rw [lookup_cons_of_ne fun here => same (here.trans dropped)]
    · rw [List.filter_cons_of_pos (by simpa using dropped)]
      by_cases same : x = first
      · subst same
        simp [dropped]
      · rw [lookup_cons_of_ne same, lookup_cons_of_ne same, ih]

theorem seen_erase_of_ne (noDirectory : ∀ entries, node.find? place ≠ some (.directory entries))
    (ne : other ≠ place) : (erase node place).seen other = node.seen other := by
  induction place generalizing node other with
  | nil => rw [erase]
  | cons name rest ih =>
    cases node with
    | file content => rw [erase]
    | directory entries =>
      cases rest with
      | nil =>
        rw [erase]
        refine seen_directory_congr other fun x inner same => ?_
        rw [lookup_eraseEntry]
        split
        · rename_i here
          subst here
          cases inner with
          | nil => exact absurd same ne
          | cons next inner => rw [seen_below_none noDirectory]; rfl
        · rfl
      | cons next rest =>
        rw [erase]
        cases found : entries.lookup name with
        | none => rfl
        | some child =>
          refine seen_setEntry_of_child other fun inner same => ?_
          subst same
          rw [found]
          refine ih (fun inner same => noDirectory inner ?_) fun same => ne (by rw [same])
          rw [find?_directory_cons, found]
          exact same

theorem find?_erase (node : Node) (front : List String) (name : String) :
    (erase node (front ++ [name])).find? (front ++ [name]) = none := by
  induction front generalizing node with
  | nil =>
    cases node with
    | file content => rfl
    | directory entries =>
      rw [List.nil_append, erase, find?_directory_cons, lookup_eraseEntry, if_pos rfl]
      rfl
  | cons first rest ih =>
    obtain ⟨next, tail, long⟩ : ∃ next tail, rest ++ [name] = next :: tail := by
      cases rest <;> exact ⟨_, _, rfl⟩
    cases node with
    | file content => rfl
    | directory entries =>
      rw [List.cons_append, long, erase]
      cases found : entries.lookup first with
      | none =>
        rw [find?_directory_cons, found]
        rfl
      | some child =>
        have inner := ih child
        rw [long] at inner
        rw [find?_directory_cons, lookup_setEntry, if_pos rfl]
        exact inner

theorem find?_set_of_directory
    (inside : node.find? place = some (.directory entries)) :
    (set leaf node (place ++ [name])).find? (place ++ [name]) = some leaf := by
  induction place generalizing node with
  | nil =>
    cases Option.some.inj inside
    rw [List.nil_append, set, find?_directory_cons, lookup_setEntry, if_pos rfl]
    rfl
  | cons first rest ih =>
    cases node with
    | file content => cases inside
    | directory outer =>
      rw [find?_directory_cons] at inside
      obtain ⟨child, found, inside⟩ := Option.bind_eq_some_iff.mp inside
      obtain ⟨next, tail, long⟩ : ∃ next tail, rest ++ [name] = next :: tail := by
        cases rest <;> exact ⟨_, _, rfl⟩
      have inner := ih inside
      rw [long] at inner
      rw [List.cons_append, long, set, found, find?_directory_cons, lookup_setEntry, if_pos rfl]
      exact inner

theorem find?_of_append {rest : List String}
    (inside : node.find? (place ++ rest) = some (.directory entries)) :
    ∃ outer, node.find? place = some (.directory outer) := by
  rw [find?_append] at inside
  obtain ⟨inner, found, inside⟩ := Option.bind_eq_some_iff.mp inside
  cases inner with
  | directory outer => exact ⟨outer, found⟩
  | file content => cases rest <;> cases inside

theorem exists_directory_of_find?_cons {rest : List String} {inner : Node}
    (found : node.find? (place ++ name :: rest) = some inner) :
    ∃ entries, node.find? place = some (.directory entries) := by
  rw [find?_append] at found
  obtain ⟨outer, here, found⟩ := Option.bind_eq_some_iff.mp found
  cases outer with
  | file content => cases found
  | directory entries => exact ⟨entries, here⟩

end Node

end ProofHost
