import ProofHost.Proofs.Sandbox.Containment

/-!
What a sandbox holds. As long as the directory of the sandbox is there, what is got at a virtual
path is the file at its place on the host; so to put or remove a file changes what is got at that
virtual path and at no other one.
-/

set_option autoImplicit false

namespace ProofHost

namespace Sandbox

open Text.Path (join below)

variable {s : Sandbox} {h h' : Host} {path : String} {parts : List String} {content : Bytes}
  {value : Option Bytes}

/-- The directory of the sandbox is there, and its path leads to it. -/
structure Stands (s : Sandbox) (h : Host) : Prop where
  follow : h.follow (h.origin s.root) (Host.names s.root) = .ok (s.base h)
  directory : h.DirectoryAt (s.base h)

theorem base_of_workDir (same : h'.workDir = h.workDir) : s.base h' = s.base h :=
  Host.placeOf_of_workDir same s.root

theorem Stands.mono (stands : s.Stands h) (workDir : h'.workDir = h.workDir)
    (directories : ∀ place, h.DirectoryAt place → h'.DirectoryAt place) : s.Stands h' := by
  have origin : h'.origin s.root = h.origin s.root := by rw [Host.origin, Host.origin, workDir]
  constructor
  · rw [origin, base_of_workDir workDir]
    exact Host.follow_of_directories directories stands.follow
  · rw [base_of_workDir workDir]
    exact directories _ stands.directory

theorem root_withLibRoot (s : Sandbox) (libRoot : String) :
    (s.withLibRoot libRoot).root = s.root := by
  unfold withLibRoot
  rfl

theorem Stands.of_root {t : Sandbox} (stands : s.Stands h) (same : t.root = s.root) :
    t.Stands h := by
  have place : t.base h = s.base h := congrArg h.placeOf same
  constructor
  · rw [same, place]
    exact stands.follow
  · rw [place]
    exact stands.directory

theorem stands_open {root : String} (start : h.DirectoryAt (h.origin root))
    (opened : Sandbox.open h root = (.ok s, h')) : s.Stands h' := by
  unfold Sandbox.open at opened
  split at opened
  · rename_i made
    cases opened
    obtain ⟨place, follow, directory⟩ := Host.directory_of_makeDirs start made
    obtain rfl := Host.follow_eq follow
    exact ⟨follow, directory⟩
  · cases opened

theorem follow_to {place : List String} {inner : Node} (directory : h.DirectoryAt place)
    (proper : ∀ part ∈ parts, Proper part)
    (short : ∀ part ∈ parts, part.utf8ByteSize ≤ Host.maxName)
    (there : h.node? (place ++ parts) = some inner) : h.follow place parts = .ok (place ++ parts) := by
  induction parts generalizing place with
  | nil => rw [List.append_nil]; rfl
  | cons part rest ih =>
    obtain ⟨first, others⟩ := List.forall_mem_cons.mp proper
    obtain ⟨firstShort, othersShort⟩ := List.forall_mem_cons.mp short
    have step : h.step place part = .ok (place ++ [part]) := by
      rw [step_proper directory first, if_neg (Nat.not_lt.mpr firstShort)]
    rw [Host.follow_cons, step]
    have long : place ++ part :: rest = place ++ [part] ++ rest := by simp
    cases rest with
    | nil => rfl
    | cons next rest =>
      rw [long] at there ⊢
      have between : h.DirectoryAt (place ++ [part]) := Node.exists_directory_of_find?_cons there
      exact ih between others othersShort there

theorem stat_below_iff (stands : s.Stands h) (proper : ∀ part ∈ parts, Proper part) :
    h.stat (below s.root (join parts)) = .ok (.file content) ↔
      s.Fits parts ∧ h.fileAt (s.base h ++ parts) = some content := by
  have isPlace : h.placeOf (below s.root (join parts)) = s.base h ++ parts :=
    placeOf_below h s.root proper
  have fileAt_iff : h.fileAt (s.base h ++ parts) = some content ↔
      h.node? (s.base h ++ parts) = some (.file content) := Node.fileAt_eq_some_iff
  rw [Host.stat_file_iff, isPlace, fileAt_iff]
  constructor
  · rintro ⟨checked, follow, there, -⟩
    exact ⟨fits_of_follow proper checked follow, there⟩
  · rintro ⟨fits, there⟩
    have ne : parts ≠ [] := by
      rintro rfl
      obtain ⟨entries, inside⟩ := stands.directory
      rw [List.append_nil, inside] at there
      cases there
    refine ⟨fits.checked, ?_, there, wantsDirectory_below s.root proper ne⟩
    rw [follow_below s h proper, stands.follow]
    exact follow_to stands.directory proper fits.short there

theorem get_eq_stat (found : s.components? path = some parts) :
    s.get h path = .ok ((h.stat (below s.root (join parts))).toOption.bind Node.content?) := by
  unfold get
  simp only [resolve_of_components found]
  cases seen : h.stat (below s.root (join parts)) with
  | error e => simp [Host.isFile, seen, Except.toOption]
  | ok node =>
    cases node with
    | directory entries =>
      simp [Host.isFile, seen, Except.toOption, Node.isDirectory, Node.content?]
    | file content =>
      simp [Host.isFile, Host.read, seen, Except.toOption, Node.isDirectory, Node.content?, bind,
        Except.bind, pure, Except.pure]

theorem get_eq_ok_iff (stands : s.Stands h) (found : s.components? path = some parts) :
    s.get h path = .ok value ↔
      ∀ content, value = some content ↔
        s.Fits parts ∧ h.fileAt (s.base h ++ parts) = some content := by
  have got (content : Bytes) :
      (h.stat (below s.root (join parts))).toOption.bind Node.content? = some content ↔
        s.Fits parts ∧ h.fileAt (s.base h ++ parts) = some content := by
    rw [← stat_below_iff stands (proper_of_components found)]
    cases h.stat (below s.root (join parts)) with
    | error e => simp [Except.toOption]
    | ok node => cases node <;> simp [Except.toOption, Node.content?]
  rw [get_eq_stat found]
  constructor
  · rintro ⟨⟩ content
    exact got content
  · intro same
    refine congrArg Except.ok (Option.ext fun content => ?_)
    rw [got content, same content]

/-- A sandbox after one virtual path has come to have a file with the given contents, or none:
nothing else is got at any other virtual path. -/
structure Stored (s : Sandbox) (h : Host) (parts : List String) (value : Option Bytes) (h' : Host) :
    Prop where
  stands : s.Stands h'
  here : ∀ path, s.components? path = some parts → s.get h' path = .ok value
  elsewhere : ∀ path other, s.components? path = some other → other ≠ parts →
    s.get h' path = s.get h path

theorem stored_of_replaced (stands : s.Stands h) (fits : value.isSome = true → s.Fits parts)
    (replaced : h.Replaced (s.base h ++ parts) value h') : s.Stored h parts value h' := by
  have base : s.base h' = s.base h := base_of_workDir replaced.workDir
  have stands' : s.Stands h' := stands.mono replaced.workDir replaced.directories
  refine ⟨stands', fun path found => ?_, fun path other found ne => ?_⟩
  · rw [get_eq_ok_iff stands' found, base, replaced.here]
    intro content
    refine ⟨fun same => ⟨fits ?_, same⟩, And.right⟩
    rw [same]
    rfl
  · have before := get_eq_stat (h := h) found
    rw [before, get_eq_ok_iff stands' found, base, replaced.elsewhere]
    · exact (get_eq_ok_iff stands found).mp before
    · exact fun same => ne (List.append_cancel_left same)

def Spelled (s : Sandbox) (path : String) : Prop :=
  ∃ parts, s.components? path = some parts ∧ renderPath parts = path

theorem spelled_of_virtualPath {v : String} (found : s.virtualPath path = .ok v) : s.Spelled v := by
  obtain ⟨parts, components, rfl⟩ := components_of_virtualPath found
  exact ⟨parts, components?_renderPath (proper_of_components components), rfl⟩

theorem Stored.get_eq (stored : s.Stored h parts value h')
    (found : s.components? (renderPath parts) = some parts) (spelled : s.Spelled path) :
    s.get h' path = if path = renderPath parts then .ok value else s.get h path := by
  obtain ⟨other, foundOther, rfl⟩ := spelled
  split
  · rename_i same
    exact stored.here _ (by rw [same, found])
  · rename_i ne
    exact stored.elsewhere _ other foundOther fun same => ne (by rw [same])

theorem stored_put (stands : s.Stands h) (found : s.components? path = some parts) {v : String}
    (done : (s.put h path content).1 = .ok v) :
    s.Stored h parts (some content) (s.put h path content).2 := by
  rcases put_cases s h path content with ⟨e, failed, -⟩ | ⟨parts', found', fits, -, replaced⟩
  · rw [failed] at done
    cases done
  · cases found.symm.trans found'
    exact stored_of_replaced stands (fun _ => fits) replaced

theorem remove_cases (h : Host) (found : s.components? path = some parts) :
    (∃ e, s.remove h path = (.error e, h)) ∨
      (h.remove (below s.root (join parts)) = .error .notFound ∧
        s.remove h path = (.ok false, h)) ∨
      ∃ h', h.remove (below s.root (join parts)) = .ok h' ∧ s.remove h path = (.ok true, h') := by
  unfold remove
  simp only [resolve_of_components found]
  cases removed : h.remove (below s.root (join parts)) with
  | ok h' => exact Or.inr (Or.inr ⟨h', rfl, rfl⟩)
  | error e =>
    by_cases missing : e = .notFound
    · subst missing
      exact Or.inr (Or.inl ⟨rfl, rfl⟩)
    · refine Or.inl ⟨.os path e, ?_⟩
      split
      · rename_i same
        cases same
      · rename_i same
        cases same
        exact absurd rfl missing
      · rename_i same
        cases same
        rfl

/-- A removal that succeeds leaves nothing at the virtual path, whether or not there was a file. -/
theorem stored_remove (stands : s.Stands h) (found : s.components? path = some parts) {was : Bool}
    (done : (s.remove h path).1 = .ok was) :
    s.Stored h parts none (s.remove h path).2 := by
  rcases remove_cases h found with ⟨e, failed⟩ | ⟨missing, nothing⟩ | ⟨h', removed, gone⟩
  · rw [failed] at done
    cases done
  · rw [nothing]
    refine ⟨stands, fun path' found' => ?_, fun _ _ _ _ => rfl⟩
    rw [get_eq_stat found']
    cases there : h.stat (below s.root (join parts)) with
    | error e => rfl
    | ok node =>
      cases node with
      | directory entries => rfl
      | file content =>
        obtain ⟨h', removed⟩ := Host.remove_isOk_iff.mpr ⟨content, there⟩
        cases removed.symm.trans missing
  · rw [gone]
    have replaced := Host.replaced_remove removed
    rw [placeOf_below h s.root (proper_of_components found)] at replaced
    exact stored_of_replaced stands nofun replaced

end Sandbox

end ProofHost
