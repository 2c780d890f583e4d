import Mathlib.Control.Monad.Basic
import ProofHost.Proofs.Package.Target
import ProofHost.Proofs.Sandbox.Calls

/-!
A sandbox that starts empty is a finite map from virtual paths to the contents of files: the map
that the answers of the calls tell gives what is got, removed and listed. One directory is left out:
the top of a sandbox whose host directory has the empty path is not listed.
-/

set_option autoImplicit false

namespace ProofHost

namespace Sandbox

open Text.Path (split join below)
open Package (Below)

variable {s t : Sandbox} {h h' : Host} {m : FileMap} {path : String} {parts names : List String}

private theorem Mirrors.get (mirrors : s.Mirrors h m) {v : String}
    (named : s.virtualPath path = .ok v) :
    s.get h path = .ok (m v) := by
  obtain ⟨parts, found, rfl⟩ := components_of_virtualPath named
  rw [get_eq_ok_iff mirrors.stands found, mirrors.files parts (proper_of_components found)]
  intro content
  refine ⟨fun there => ⟨?_, there⟩, And.right⟩
  exact (mirrors.usable parts (by rw [there]; rfl)).2

private theorem Mirrors.finite (mirrors : s.Mirrors h m) :
    ∃ keys : List String, ∀ v, (m v).isSome = true → v ∈ keys := by
  obtain ⟨entries, inside⟩ := mirrors.stands.directory
  refine ⟨(Node.directory entries).files.map renderPath, ?_⟩
  intro v isFile
  obtain ⟨parts, proper, rfl⟩ := mirrors.paths v isFile
  rw [mirrors.files parts proper, fileAt_of_directory inside] at isFile
  exact List.mem_map_of_mem ((Node.mem_files_iff (mirrors.distinct _ inside)).mpr isFile)

private theorem Mirrors.removed (mirrors : s.Mirrors h m) (path : String) :
    ((s.remove h path).1 = .ok true ↔
      ∃ v, s.virtualPath path = .ok v ∧ (m v).isSome = true) ∧
    ((s.remove h path).1 ≠ .ok true → (s.remove h path).2 = h) := by
  cases found : s.components? path with
  | none =>
    have escapes : s.virtualPath path = .error (.escape path) := by
      unfold virtualPath
      rw [found]
    rw [remove_of_escape found, escapes]
    exact ⟨⟨nofun, nofun⟩, fun _ => rfl⟩
  | some parts =>
    have named : (∃ v, s.virtualPath path = .ok v ∧ (m v).isSome = true) ↔
        ∃ h', h.remove (below s.root (join parts)) = .ok h' := by
      rw [mirrors.remove_iff found, virtualPath_of_components found]
      simp
    rw [named]
    rcases remove_cases h found with ⟨e, failed⟩ | ⟨missing, nothing⟩ | ⟨h', removed, done⟩
    · have notRemoved : ¬ ∃ h', h.remove (below s.root (join parts)) = .ok h' := by
        rintro ⟨h', removed⟩
        rw [remove_of_removed found removed] at failed
        cases failed
      rw [failed]
      exact ⟨⟨nofun, fun removed => absurd removed notRemoved⟩, fun _ => rfl⟩
    · rw [nothing, missing]
      exact ⟨⟨nofun, nofun⟩, fun _ => rfl⟩
    · rw [done, removed]
      exact ⟨⟨fun _ => ⟨h', rfl⟩, fun _ => rfl⟩, fun ne => absurd rfl ne⟩

private theorem eq_nil_of_join (proper : ∀ part ∈ parts, Proper part) (empty : join parts = "") :
    parts = [] := by
  have parted := split_join_of_proper proper
  rw [empty] at parted
  exact parted.symm

private theorem below_eq_empty_iff (dir : String) (proper : ∀ part ∈ parts, Proper part) :
    below dir (join parts) = "" ↔ dir = "" ∧ parts = [] := by
  constructor
  · intro empty
    unfold below at empty
    split at empty
    · rename_i isEmpty
      exact ⟨String.isEmpty_iff.mp isEmpty, eq_nil_of_join proper empty⟩
    · rename_i notEmpty
      refine absurd (String.isEmpty_iff.mpr ?_) notEmpty
      split at empty
      · exact (String.append_eq_empty_iff.mp empty).1
      · exact (String.append_eq_empty_iff.mp (String.append_eq_empty_iff.mp empty).1).1
  · rintro ⟨rfl, rfl⟩
    rfl

private theorem Mirrors.distinct_below {node : Node} (mirrors : s.Mirrors h m)
    (inside : h.node? (s.base h ++ parts) = some node) : node.Distinct := by
  obtain ⟨entries, top⟩ := mirrors.stands.directory
  have found : h.root.find? (s.base h) = some (.directory entries) := top
  have deep : h.root.find? (s.base h ++ parts) = some node := inside
  rw [Node.find?_append, found] at deep
  exact Node.distinct_of_find? (mirrors.distinct _ top) deep

private theorem Mirrors.mem_filesOf_iff {entries : List (String × Node)} (mirrors : s.Mirrors h m)
    (inside : h.node? (s.base h ++ parts) = some (.directory entries)) :
    names ∈ Node.filesOf entries ↔ names ≠ [] ∧
      (h.fileAt (s.base h ++ (parts ++ names))).isSome = true := by
  have isFile : names ∈ (Node.directory entries).files ↔ _ :=
    Node.mem_files_iff (mirrors.distinct_below inside)
  rw [Node.files, ← fileAt_of_directory inside, List.append_assoc] at isFile
  rw [isFile]
  refine ⟨fun there => ⟨?_, there⟩, And.right⟩
  rintro rfl
  rw [← List.append_assoc, fileAt_of_directory inside] at there
  cases there

private theorem Mirrors.stat_above (mirrors : s.Mirrors h m) (proper : ∀ part ∈ parts, Proper part)
    (notEmpty : ¬ (s.root = "" ∧ parts = [])) (ne : names ≠ [])
    (isFile : (h.fileAt (s.base h ++ (parts ++ names))).isSome = true) :
    ∃ entries, h.node? (s.base h ++ parts) = some (.directory entries) ∧
      h.stat (below s.root (join parts)) = .ok (.directory entries) := by
  obtain ⟨-, fits⟩ := mirrors.usable (parts ++ names) isFile
  have checked : Host.checkPath (below s.root (join parts)) = .ok () := by
    obtain ⟨rest, whole⟩ := Text.Path.join_append parts names
    have long := fits.checked
    rw [whole, Text.Path.below_append] at long
    exact Host.checkPath_of_append long fun empty =>
      notEmpty ((below_eq_empty_iff s.root proper).mp empty)
  obtain ⟨content, there⟩ := Option.isSome_iff_exists.mp isFile
  have deep : h.root.find? (s.base h ++ (parts ++ names)) = some (.file content) :=
    Node.fileAt_eq_some_iff.mp there
  obtain ⟨name, rest, rfl⟩ := List.exists_cons_of_ne_nil ne
  rw [← List.append_assoc] at deep
  obtain ⟨entries, inside⟩ := Node.exists_directory_of_find?_cons deep
  have short : ∀ part ∈ parts, part.utf8ByteSize ≤ Host.maxName := fun part hpart =>
    fits.short part (List.mem_append_left _ hpart)
  have follow : h.follow (h.origin (below s.root (join parts)))
      (Host.names (below s.root (join parts))) = .ok (s.base h ++ parts) := by
    rw [follow_below s h proper, mirrors.stands.follow]
    exact follow_to mirrors.stands.directory proper short inside
  exact ⟨entries, inside, stat_directory checked follow inside⟩

private theorem Mirrors.mem_filesBelow_iff (mirrors : s.Mirrors h m)
    (proper : ∀ part ∈ parts, Proper part) :
    names ∈ h.filesBelow (below s.root (join parts)) ↔
      ¬ (s.root = "" ∧ parts = []) ∧ names ≠ [] ∧
        (h.fileAt (s.base h ++ (parts ++ names))).isSome = true := by
  constructor
  · intro there
    unfold Host.filesBelow at there
    split at there
    · rename_i entries found
      obtain ⟨checked, inside⟩ := Host.stat_directory_cases found
      rw [placeOf_below h s.root proper] at inside
      refine ⟨fun empty => ?_, (mirrors.mem_filesOf_iff inside).mp there⟩
      rw [(below_eq_empty_iff s.root proper).mpr empty] at checked
      cases checked
    · cases there
  · rintro ⟨notEmpty, ne, isFile⟩
    obtain ⟨entries, inside, found⟩ := mirrors.stat_above proper notEmpty ne isFile
    unfold Host.filesBelow
    rw [found]
    exact (mirrors.mem_filesOf_iff inside).mpr ⟨ne, isFile⟩

private theorem Mirrors.nodup_filesBelow (mirrors : s.Mirrors h m)
    (proper : ∀ part ∈ parts, Proper part) :
    (h.filesBelow (below s.root (join parts))).Nodup := by
  unfold Host.filesBelow
  split
  · rename_i entries found
    obtain ⟨-, inside⟩ := Host.stat_directory_cases found
    rw [placeOf_below h s.root proper] at inside
    exact Node.nodup_files (mirrors.distinct_below inside)
  · exact List.nodup_nil

private theorem list_eq (found : s.components? path = some parts) :
    s.list h path = .ok (((h.filesBelow (below s.root (join parts))).map
      fun names => renderPath (parts ++ names)).mergeSort fun a b => decide (a ≤ b)) := by
  unfold list
  simp only [found, resolve_renderPath (proper_of_components found)]

private theorem pairwise_lt_mergeSort {texts : List String} (nodup : texts.Nodup) :
    (texts.mergeSort fun a b => decide (a ≤ b)).Pairwise (· < ·) := by
  have transitive (a b c : String) (first : decide (a ≤ b) = true) (second : decide (b ≤ c) = true) :
      decide (a ≤ c) = true :=
    decide_eq_true (String.le_trans (of_decide_eq_true first) (of_decide_eq_true second))
  have total (a b : String) : (decide (a ≤ b) || decide (b ≤ a)) = true := by
    simpa using String.le_total a b
  have sorted := List.pairwise_mergeSort transitive total texts
  have different := (List.mergeSort_perm texts fun a b => decide (a ≤ b)).nodup_iff.mpr nodup
  refine (sorted.and different).imp ?_
  intro a b both
  have le : a ≤ b := by simpa using both.1
  exact String.not_le.mp fun ge => both.2 (String.le_antisymm le ge)

theorem Mirrors.list (mirrors : s.Mirrors h m) (found : s.components? path = some parts) :
    ∃ files, s.list h path = .ok files ∧ files.Pairwise (· < ·) ∧
      ∀ w, w ∈ files ↔ ¬ (s.root = "" ∧ parts = []) ∧ (m w).isSome = true ∧
        ∃ full, s.components? w = some full ∧ Below parts full := by
  have proper := proper_of_components found
  have properAll {names : List String}
      (there : names ∈ h.filesBelow (below s.root (join parts))) :
      ∀ part ∈ parts ++ names, Proper part :=
    (mirrors.usable _ ((mirrors.mem_filesBelow_iff proper).mp there).2.2).1
  refine ⟨_, list_eq found, pairwise_lt_mergeSort ?_, ?_⟩
  · refine List.pairwise_map.mpr ((mirrors.nodup_filesBelow proper).imp_of_mem ?_)
    intro names names' there there' ne same
    exact ne (List.append_cancel_left (renderPath_inj (properAll there) (properAll there') same))
  · intro w
    rw [List.mem_mergeSort, List.mem_map]
    constructor
    · rintro ⟨names, there, rfl⟩
      obtain ⟨notEmpty, ne, isFile⟩ := (mirrors.mem_filesBelow_iff proper).mp there
      refine ⟨notEmpty, ?_, parts ++ names, components?_renderPath (properAll there), ?_⟩
      · rw [mirrors.files _ (properAll there)]
        exact isFile
      · exact ⟨List.prefix_append parts names, fun same => ne (List.append_right_eq_self.mp same)⟩
    · rintro ⟨notEmpty, isFile, full, foundFull, ⟨names, rfl⟩, longer⟩
      obtain ⟨full, properFull, rfl⟩ := mirrors.paths w isFile
      obtain rfl : full = parts ++ names := by
        rw [components?_renderPath properFull] at foundFull
        exact Option.some.inj foundFull
      rw [mirrors.files _ properFull] at isFile
      have ne : names ≠ [] := fun none => longer (by rw [none, List.append_nil])
      exact ⟨names, (mirrors.mem_filesBelow_iff proper).mpr ⟨notEmpty, ne, isFile⟩, rfl⟩

private theorem put_answer (s : Sandbox) (h : Host) (path : String) (content : Bytes) :
    (∀ v, (s.put h path content).1 = .ok v → s.virtualPath path = .ok v) ∧
      ∀ e, (s.put h path content).1 = .error e →
        ∀ place, (s.put h path content).2.fileAt place = h.fileAt place := by
  rcases put_cases s h path content with ⟨e, failed, same⟩ | ⟨parts, found, -, done, -⟩
  · rw [failed]
    exact ⟨nofun, fun _ _ => same.files⟩
  · rw [done, virtualPath_of_components found]
    exact ⟨fun _ => id, nofun⟩

/-- A sandbox that starts empty is a finite map: after any calls, the map that their answers tell
gives what is got at every spelling of a virtual path, says whether a file can be removed, and is
listed. -/
theorem served_is_finite_map {start : Host} (empty : s.Empty start) (served : Served s start h m)
    (t : Sandbox) (same : t.root = s.root) :
    (∃ keys : List String, ∀ v, (m v).isSome = true → v ∈ keys) ∧
    (∀ path v, t.virtualPath path = .ok v → t.get h path = .ok (m v)) ∧
    (∀ path content,
      (∀ v, (t.put h path content).1 = .ok v → t.virtualPath path = .ok v) ∧
      ∀ e, (t.put h path content).1 = .error e →
        ∀ place, (t.put h path content).2.fileAt place = h.fileAt place) ∧
    (∀ path,
      ((t.remove h path).1 = .ok true ↔ ∃ v, t.virtualPath path = .ok v ∧ (m v).isSome = true) ∧
      ((t.remove h path).1 ≠ .ok true → (t.remove h path).2 = h)) ∧
    ∀ dir parts, t.components? dir = some parts →
      ∃ files, t.list h dir = .ok files ∧ files.Pairwise (· < ·) ∧
        ∀ w, w ∈ files ↔ ¬ (t.root = "" ∧ parts = []) ∧ (m w).isSome = true ∧
          ∃ full, t.components? w = some full ∧ Below parts full := by
  have mirrors : t.Mirrors h m := (mirrors_of_served empty served).of_root same
  exact ⟨mirrors.finite, fun _ _ => mirrors.get, t.put_answer h, mirrors.removed,
    fun _ _ => mirrors.list⟩

def bareHost : Host := (Sandbox.open (.empty []) "/vfs").2

theorem stands_bareHost : (⟨"/vfs", "/lib"⟩ : Sandbox).Stands bareHost := by
  have opened : Sandbox.open (.empty []) "/vfs" = (.ok ⟨"/vfs", "/lib"⟩, bareHost) := rfl
  exact stands_open ⟨[], rfl⟩ opened

/-- Two files are put under one library root and one is removed under another; the one that stays is
listed. -/
theorem served_is_finite_map_bare :
    ∃ h m, Served ⟨"/vfs", "/lib"⟩ bareHost h m ∧
      (⟨"/vfs", "/lib"⟩ : Sandbox).Empty bareHost ∧
      (⟨"/vfs", "/"⟩ : Sandbox).get h "lib/./b" = .ok (some [2]) ∧
      ∃ files, (⟨"/vfs", "/"⟩ : Sandbox).list h "" = .ok files ∧ "/lib/b" ∈ files ∧
        "/lib/a" ∉ files := by
  have empty : (⟨"/vfs", "/lib"⟩ : Sandbox).Empty bareHost := ⟨stands_bareHost, rfl⟩
  have fresh : Served ⟨"/vfs", "/lib"⟩ bareHost bareHost fun _ => none := .start
  have first := fresh.call ⟨"/vfs", "/lib"⟩ rfl (.put "a" [1])
  have second := first.call ⟨"/vfs", "/lib"⟩ rfl (.put "b" [2])
  have third := second.call ⟨"/vfs", "/"⟩ rfl (.remove "lib/a")
  obtain ⟨-, get, -, -, list⟩ := served_is_finite_map empty third ⟨"/vfs", "/"⟩ rfl
  refine ⟨_, _, third, empty, ?_, ?_⟩
  · rw [get "lib/./b" "/lib/b" (by decide +kernel)]
    decide +kernel
  · obtain ⟨files, listed, -, mem⟩ := list "" [] (by decide +kernel)
    refine ⟨files, listed, (mem "/lib/b").mpr ⟨by decide, by decide +kernel, ?_⟩, fun there => ?_⟩
    · exact ⟨["lib", "b"], by decide +kernel, by decide⟩
    · exact absurd ((mem "/lib/a").mp there).2.1 (by decide +kernel)

/-- The top of a sandbox that has the empty path is not listed, though a file is got below it. -/
theorem top_of_empty_root_is_not_listed :
    let s : Sandbox := ⟨"", "/lib"⟩
    let start := Host.empty ["work"]
    s.Empty start ∧ (s.put start "a" [120]).1 = .ok "/lib/a" ∧
      s.get (s.put start "a" [120]).2 "/lib/a" = .ok (some [120]) ∧
      s.list (s.put start "a" [120]).2 "/" = .ok [] := by
  refine ⟨⟨⟨rfl, [], rfl⟩, rfl⟩, ?_, ?_, ?_⟩ <;> decide +kernel

end Sandbox

end ProofHost
