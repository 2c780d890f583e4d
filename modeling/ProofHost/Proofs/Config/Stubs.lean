import ProofHost.Config.Basic
import ProofHost.Proofs.Sandbox.Spelling

/-!
Where the libraries of a kernel are installed. Their path is the text of the image's path up to its
last slash, with a slash and the name of the library after it; that is the directory of the image if
there is a slash, and the top of the sandbox if there is none.
-/

set_option autoImplicit false

namespace ProofHost

open Text.Path (NoSlash split isAbsolute)

namespace Sandbox

variable {s : Sandbox} {name : String}

private theorem isAbsolute_directory (dir inner : String) :
    isAbsolute (dir ++ "/" ++ inner) = isAbsolute (dir ++ "/") := by
  unfold isAbsolute
  rw [String.toList_append]
  cases chars : (dir ++ "/").toList with
  | nil => simp at chars
  | cons c cs => rfl

private theorem exists_split_fullPath (s : Sandbox) (dir : String) :
    ∃ front, ∀ inner, split (s.fullPath (dir ++ "/" ++ inner)) = front ++ split inner := by
  cases absolute : isAbsolute (dir ++ "/") with
  | true =>
    refine ⟨split dir, fun inner => ?_⟩
    rw [fullPath, isAbsolute_directory, if_pos absolute, Text.Path.split_append]
  | false =>
    refine ⟨split (s.libRoot ++ "/" ++ dir), fun inner => ?_⟩
    rw [fullPath, isAbsolute_directory, absolute, if_neg Bool.false_ne_true, ← String.append_assoc,
      ← String.append_assoc, Text.Path.split_append]

private theorem components?_of_split {path dir : String} {front : List String}
    (proper : Proper name)
    (inside : split (s.fullPath path) = front ++ split name)
    (above : split (s.fullPath dir) = front ++ split "") :
    s.components? path = (s.components? dir).map (· ++ [name]) := by
  have empty : split "" = [""] := rfl
  rw [Text.Path.split_of_noSlash proper.noSlash] at inside
  rw [empty] at above
  rw [components?, components?, inside, above, walk_append, walk_append]
  cases walk [] front with
  | none => rfl
  | some kept =>
    have named := walk_of_proper (List.forall_mem_singleton.mpr proper) kept
    have blank : walk kept [""] = some kept := rfl
    simp [named, blank]

private theorem components?_directory (proper : Proper name) (dir : String) :
    s.components? (dir ++ "/" ++ name) = (s.components? (dir ++ "/")).map (· ++ [name]) := by
  obtain ⟨front, inner⟩ := s.exists_split_fullPath dir
  have above := inner ""
  rw [String.append_empty] at above
  exact components?_of_split proper (inner name) above

private theorem components?_name (proper : Proper name) :
    s.components? name = (s.components? "").map (· ++ [name]) := by
  have relative := isAbsolute_join (List.forall_mem_singleton.mpr proper)
  rw [Text.Path.join_singleton] at relative
  have inside : split (s.fullPath name) = split s.libRoot ++ split name := by
    rw [fullPath, relative, if_neg Bool.false_ne_true, Text.Path.split_append]
  have above : split (s.fullPath "") = split s.libRoot ++ split "" := by
    have empty : isAbsolute "" = false := rfl
    rw [fullPath, empty, if_neg Bool.false_ne_true, Text.Path.split_append]
  exact components?_of_split proper inside above

private theorem virtualPath_of_concat {path : String} {dir : List String}
    (found : s.components? path = some (dir ++ [name])) :
    s.virtualPath path = .ok (directory dir ++ name) := by
  rw [virtualPath_of_components found, renderPath_concat]

private theorem directory_eq_top_iff {dir : List String} : directory dir = "/" ↔ dir = [] := by
  constructor
  · intro top
    cases dir with
    | nil => rfl
    | cons part rest =>
      have lengths := congrArg String.length top
      obtain ⟨back, whole⟩ := exists_of_directory rest
      have slash : ("/" : String).length = 1 := rfl
      rw [directory, whole, String.length_append, String.length_append, String.length_append,
        slash] at lengths
      omega
  · rintro rfl
    rfl

private theorem virtualPath_top_iff {path : String} {dir : List String}
    (found : s.components? path = some dir) : s.virtualPath path = .ok "/" ↔ dir = [] := by
  have top : renderPath [] = "/" := rfl
  rw [virtualPath_of_components found, Except.ok.injEq, ← top]
  constructor
  · exact renderPath_inj (proper_of_components found) (List.forall_mem_nil _)
  · rintro rfl
    rfl

end Sandbox

namespace Config

open Sandbox (Proper directory renderPath)

variable {c : Config} {s : Sandbox} {stub image name v : String}

private theorem file_name_cases {path last : String} (ends : (split path).getLast? = some last) :
    (path = last ∧ NoSlash path ∧ Text.Path.cut path = none) ∨
      ∃ dir, path = dir ++ "/" ++ last ∧ Text.Path.cut path = some (dir, last) := by
  rcases Text.Path.cut_cases path with ⟨noSlash, none⟩ | ⟨dir, other, whole, noSlash, found⟩
  · rw [Text.Path.split_of_noSlash noSlash] at ends
    exact Or.inl ⟨Option.some.inj ends, noSlash, none⟩
  · rw [whole, Text.Path.split_append, Text.Path.split_of_noSlash noSlash,
      List.getLast?_concat] at ends
    obtain rfl := Option.some.inj ends
    exact Or.inr ⟨dir, whole, found⟩

private theorem stubPath_eq (stubEnds : (split stub).getLast? = some name) :
    c.stubPath stub = ((Text.Path.cut c.imagePath).map Prod.fst).getD "" ++ "/" ++ name := by
  unfold stubPath
  rcases file_name_cases stubEnds with ⟨rfl, -, found⟩ | ⟨dir, -, found⟩ <;> rw [found] <;> rfl

/--
A library is installed under its own file name, in the directory in which the image is, if the
configured path of the image has a slash. If it has none, the image is in the directory of the
library root, and the library at the top of the sandbox, which is the same directory only if the
library root is the top.
-/
theorem stub_beside_image_iff (imageEnds : (split c.imagePath).getLast? = some image)
    (stubEnds : (split stub).getLast? = some name) (proper : Proper image) (proper' : Proper name)
    (accepted : s.virtualPath c.imagePath = .ok v) :
    ∃ dir, (∀ part ∈ dir, Proper part) ∧ v = directory dir ++ image ∧
      (s.virtualPath (c.stubPath stub) = .ok (directory dir ++ name) ↔
        '/' ∈ c.imagePath.toList ∨ s.virtualPath "" = .ok "/") ∧
      ('/' ∉ c.imagePath.toList →
        s.virtualPath "" = .ok (renderPath dir) ∧
          s.virtualPath (c.stubPath stub) = .ok ("/" ++ name)) := by
  obtain ⟨parts, found, rfl⟩ := Sandbox.components_of_virtualPath accepted
  rw [stubPath_eq stubEnds]
  rcases file_name_cases imageEnds with ⟨whole, noSlash, cut⟩ | ⟨way, whole, cut⟩
  · rw [whole, Sandbox.components?_name proper] at found
    obtain ⟨dir, isDir, rfl⟩ := Option.map_eq_some_iff.mp found
    have top : s.virtualPath ("/" ++ name) = .ok ("/" ++ name) := by
      have alone : renderPath [name] = "/" ++ name := Sandbox.renderPath_concat [] name
      have stands := Sandbox.components?_renderPath (s := s) (List.forall_mem_singleton.mpr proper')
      rw [← alone]
      exact Sandbox.virtualPath_of_components stands
    have atTop :
        ((Text.Path.cut c.imagePath).map Prod.fst).getD "" ++ "/" ++ name = "/" ++ name := by
      rw [cut]
      exact congrArg (· ++ name) (String.empty_append)
    rw [atTop, top]
    refine ⟨dir, Sandbox.proper_of_components isDir, Sandbox.renderPath_concat dir image, ?_,
      fun _ => ⟨Sandbox.virtualPath_of_components isDir, rfl⟩⟩
    rw [Except.ok.injEq, String.append_left_inj, or_iff_right noSlash,
      Sandbox.virtualPath_top_iff isDir, eq_comm, Sandbox.directory_eq_top_iff]
  · rw [whole, Sandbox.components?_directory proper] at found
    obtain ⟨dir, isDir, rfl⟩ := Option.map_eq_some_iff.mp found
    have slash : '/' ∈ c.imagePath.toList := by simp [whole]
    have beside : s.components? (way ++ "/" ++ name) = some (dir ++ [name]) := by
      rw [Sandbox.components?_directory proper', isDir, Option.map_some]
    refine ⟨dir, Sandbox.proper_of_components isDir, Sandbox.renderPath_concat dir image, ?_,
      fun none => absurd slash none⟩
    rw [cut]
    exact iff_of_true (Sandbox.virtualPath_of_concat beside) (Or.inl slash)

theorem stub_beside_image_iff_detour :
    ∃ dir, "/lib/bin/kernel.img" = directory dir ++ "kernel.img" ∧
      Sandbox.virtualPath ⟨"/vfs", "/lib"⟩
        (stubPath { default [] with imagePath := "k/../bin//kernel.img" } "dll/zarith.so") =
          .ok (directory dir ++ "zarith.so") := by
  have proper : Proper "kernel.img" := ⟨by decide, by decide, by decide, by simp [NoSlash]⟩
  have proper' : Proper "zarith.so" := ⟨by decide, by decide, by decide, by simp [NoSlash]⟩
  have accepted :
      Sandbox.virtualPath ⟨"/vfs", "/lib"⟩ "k/../bin//kernel.img" = .ok "/lib/bin/kernel.img" := rfl
  have stubEnds : (split "dll/zarith.so").getLast? = some "zarith.so" := by decide +kernel
  obtain ⟨dir, -, isImage, beside, -⟩ :=
    stub_beside_image_iff (c := { default [] with imagePath := "k/../bin//kernel.img" })
      (by decide +kernel) stubEnds proper proper' accepted
  exact ⟨dir, isImage, beside.mpr (Or.inl (by decide))⟩

/-- The image whose path is its name is in the directory of the library root, and the library is
not. -/
theorem stub_of_bare_image_misplaced :
    Sandbox.virtualPath ⟨"/vfs", "/lib"⟩ "kernel.img" = .ok "/lib/kernel.img" ∧
      Sandbox.virtualPath ⟨"/vfs", "/lib"⟩
        (stubPath { default [] with imagePath := "kernel.img" } "x.so") = .ok "/x.so" ∧
      ¬ ∃ dir, "/lib/kernel.img" = dir ++ "kernel.img" ∧ "/x.so" = dir ++ "x.so" := by
  refine ⟨rfl, rfl, ?_⟩
  rintro ⟨dir, isImage, isStub⟩
  have image : dir = "/lib/" :=
    (String.append_left_inj "kernel.img").mp (isImage.symm.trans (by decide))
  have stub : dir = "/" := (String.append_left_inj "x.so").mp (isStub.symm.trans (by decide))
  exact absurd (image.symm.trans stub) (by decide)

end Config

end ProofHost
