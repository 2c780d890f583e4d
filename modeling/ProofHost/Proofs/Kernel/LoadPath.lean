import Mathlib.Data.List.Basic
import ProofHost.Kernel.Simulated
import ProofHost.Proofs.Sandbox.FiniteMap
import ProofHost.Proofs.Sandbox.NormalForm
import ProofHost.Proofs.Sandbox.Spelling

/-!
The modules of the load path. Files are listed by the one spelling of their paths, and the library
root is taken off from them as it is configured: the modules are those of the compiled files below
it only if the root is in its one spelling too.
-/

set_option autoImplicit false

namespace ProofHost

namespace Text

variable {part cs rest : List Char}

private theorem dropLeading?_eq_some_iff :
    dropLeading? part cs = some rest ↔ cs = part ++ rest := by
  unfold dropLeading?
  constructor
  · intro dropped
    split at dropped
    · rename_i leads
      obtain ⟨back, rfl⟩ := List.isPrefixOf_iff_prefix.mp leads
      rw [List.drop_left] at dropped
      rw [Option.some.inj dropped]
    · cases dropped
  · rintro rfl
    rw [if_pos (List.isPrefixOf_iff_prefix.mpr (List.prefix_append part rest)), List.drop_left]

private theorem dropTrailing?_eq_some_iff :
    dropTrailing? part cs = some rest ↔ cs = rest ++ part := by
  unfold dropTrailing?
  rw [Option.map_eq_some_iff]
  constructor
  · rintro ⟨front, dropped, rfl⟩
    have whole := dropLeading?_eq_some_iff.mp dropped
    rw [← List.reverse_reverse cs, whole, List.reverse_append, List.reverse_reverse]
  · rintro rfl
    exact ⟨rest.reverse, dropLeading?_eq_some_iff.mpr List.reverse_append, List.reverse_reverse _⟩

end Text

namespace Modules

open Text.Path (isAbsolute join dropStartSlashes weight)
open Sandbox (renderPath directory FileMap Proper)

variable {front path name stem inner : String} {parts names : List String}

/-- The name of a module, given the path of its file below the library root without the ending. -/
def dotted (stem : String) : String :=
  String.ofList (stem.toList.map fun c => if c = '/' then '.' else c)

/-- What stands between a text in front and the ending of compiled files. -/
def stem? (front path : String) : Option String := do
  let whole ← Text.dropTrailing? extension.toList path.toList
  let inner ← Text.dropLeading? front.toList whole
  return String.ofList inner

private theorem stem?_eq_some_iff :
    stem? front path = some stem ↔ path = front ++ stem ++ extension := by
  simp only [stem?, Option.bind_eq_bind, Option.bind_eq_some_iff, Option.pure_def,
    Text.dropTrailing?_eq_some_iff, Text.dropLeading?_eq_some_iff, Option.some.injEq]
  constructor
  · rintro ⟨whole, ends, inner, rfl, rfl⟩
    apply String.toList_inj.mp
    rw [ends]
    simp
  · rintro rfl
    exact ⟨(front ++ stem).toList, by simp, stem.toList, by simp, by simp⟩

private theorem nameOf_eq (libRoot path : String) :
    nameOf libRoot path =
      (stem? libRoot path).map fun inner => dotted (dropStartSlashes inner) := by
  simp only [nameOf, stem?, Option.bind_eq_bind, Option.map_bind, Function.comp_def,
    Option.pure_def, Option.map_some, dotted, dropStartSlashes, String.toList_ofList]

private theorem length_dotted (stem : String) : (dotted stem).length = stem.length := by
  rw [dotted, String.length_ofList, List.length_map, String.length_toList]

private theorem length_dropStartSlashes (inner : String) :
    (dropStartSlashes inner).length ≤ inner.length := by
  rw [dropStartSlashes, String.length_ofList, ← String.length_toList]
  exact (List.dropWhile_sublist _).length_le

private theorem dropStartSlashes_of_relative (relative : isAbsolute inner = false) :
    dropStartSlashes inner = inner ∧ dropStartSlashes ("/" ++ inner) = inner := by
  have stays : inner.toList.dropWhile (· == '/') = inner.toList := by
    cases chars : inner.toList with
    | nil => rfl
    | cons c cs =>
      have other : ¬ (c == '/') = true := by
        simpa [isAbsolute, chars] using relative
      exact List.dropWhile_cons_of_neg other
  constructor
  · rw [dropStartSlashes, stays, String.ofList_toList]
  · have slash : ("/" : String).toList = ['/'] := by simp
    rw [dropStartSlashes, String.toList_append, slash, List.singleton_append,
      List.dropWhile_cons_of_pos (by decide), stays, String.ofList_toList]

private theorem isAbsolute_append_false {back : String}
    (relative : isAbsolute (inner ++ back) = false) :
    isAbsolute inner = false := by
  unfold isAbsolute at relative ⊢
  rw [String.toList_append] at relative
  cases chars : inner.toList with
  | nil => rfl
  | cons c cs => simpa [chars] using relative

private theorem stem_of_stem? (found : stem? front (directory parts ++ inner) = some name) :
    ∃ stem, inner = stem ++ extension ∧
      stem? (directory parts) (directory parts ++ inner) = some stem := by
  have stands (stem : String) (ends : inner = stem ++ extension) :
      ∃ stem, inner = stem ++ extension ∧
        stem? (directory parts) (directory parts ++ inner) = some stem :=
    ⟨stem, ends, stem?_eq_some_iff.mpr (by rw [ends, String.append_assoc])⟩
  have whole := congrArg String.toList (stem?_eq_some_iff.mp found)
  simp only [String.toList_append] at whole
  rcases List.append_eq_append_iff.mp whole with ⟨mid, -, ends⟩ | ⟨mid, cut, ends⟩
  · exact stands (String.ofList mid) (String.toList_inj.mp (by simpa using ends))
  · by_cases none : mid = []
    · subst none
      exact stands "" (String.toList_inj.mp (by simpa using ends.symm))
    · -- The last character of the directory would be one of the ending.
      obtain ⟨rest, isLast⟩ := Sandbox.directory_ends parts
      have last : mid.getLast? = some '/' := by
        have same := congrArg List.getLast? cut
        rw [isLast, List.getLast?_append, List.getLast?_eq_some_getLast none] at same
        rw [List.getLast?_eq_some_getLast none]
        simpa using same.symm
      have inside : '/' ∈ extension.toList := by
        rw [ends]
        exact List.mem_append_left _ (List.mem_of_getLast? last)
      exact absurd inside (by decide)

private theorem nameOf_renderPath (relative : isAbsolute inner = false) :
    nameOf (renderPath parts) (directory parts ++ inner) =
      (stem? (directory parts) (directory parts ++ inner)).map dotted := by
  rw [nameOf_eq]
  cases found : stem? (directory parts) (directory parts ++ inner) with
  | none =>
    rw [Option.map_none, Option.map_eq_none_iff, Option.eq_none_iff_forall_ne_some]
    intro name other
    obtain ⟨stem, -, there⟩ := stem_of_stem? other
    cases found.symm.trans there
  | some stem =>
    have whole := stem?_eq_some_iff.mp found
    rw [String.append_assoc] at whole
    have isInner : inner = stem ++ extension := (String.append_right_inj _).mp whole
    have start := dropStartSlashes_of_relative (isAbsolute_append_false (isInner ▸ relative))
    have gap : stem? (renderPath parts) (directory parts ++ inner) =
        some ((if parts = [] then "" else "/") ++ stem) := by
      rw [stem?_eq_some_iff, isInner, Sandbox.directory_eq]
      simp only [String.append_assoc]
    rw [gap, Option.map_some, Option.map_some]
    by_cases top : parts = []
    · rw [if_pos top, String.empty_append, start.1]
    · rw [if_neg top, start.2]

/-- Slashes at the end of a configured library root are dropped, unless it is the top. -/
private theorem libRoot_withLibRoot (s : Sandbox) (configured : String) :
    isAbsolute (s.withLibRoot configured).libRoot = true ∧
      ∀ rest, (s.withLibRoot configured).libRoot = rest ++ "/" → rest = "" := by
  have bare : ∀ rest, Text.Path.dropEndSlashes configured ≠ rest ++ "/" := by
    intro rest same
    have chars := congrArg String.toList same
    rw [Text.Path.dropEndSlashes, String.toList_ofList, Text.dropEndWhile] at chars
    have reversed := congrArg List.reverse chars
    rw [List.reverse_reverse, String.toList_append, List.reverse_append] at reversed
    have first := List.head?_dropWhile_not (· == '/') configured.toList.reverse
    rw [reversed] at first
    simp at first
  simp only [Sandbox.withLibRoot, Sandbox.normalizeLibRoot]
  split
  · rename_i absolute
    exact ⟨absolute, fun rest same => absurd same (bare rest)⟩
  · refine ⟨by simp [isAbsolute], fun rest same => ?_⟩
    have chars := congrArg String.toList same
    cases start : rest.toList with
    | nil => exact String.toList_eq_nil_iff.mp start
    | cons c cs =>
      have slash : ("/" : String).toList = ['/'] := by simp
      rw [String.toList_append, String.toList_append, start, slash, List.singleton_append,
        List.cons_append] at chars
      refine absurd (String.toList_inj.mp ?_) (bare (String.ofList cs))
      rw [List.tail_eq_of_cons_eq chars]
      simp

variable {s : Sandbox}

private theorem components?_in_library (absolute : isAbsolute s.libRoot = true)
    (relative : isAbsolute path = false) :
    s.components? path = (s.components? s.libRoot).bind fun parts =>
      (Sandbox.walk parts.reverse (Text.Path.split path)).map List.reverse := by
  rw [Package.components?_relative relative]
  unfold Sandbox.components? Sandbox.fullPath
  rw [if_pos absolute]
  cases Sandbox.walk [] (Text.Path.split s.libRoot) with
  | none => rfl
  | some inner => simp

private theorem length_lt_of_not_spelled {root : String} (absolute : isAbsolute root = true)
    (ends : ∀ rest, root = rest ++ "/" → rest = "")
    (found : s.components? root = some parts) (ne : root ≠ renderPath parts)
    (same : root ++ inner = directory parts ++ stem) : inner.length < stem.length := by
  by_contra short
  have lengths := congrArg String.length same
  rw [String.length_append, String.length_append] at lengths
  obtain ⟨shorter, only⟩ := Sandbox.length_renderPath_le absolute found
  have longer : (renderPath parts).length ≠ root.length := fun equal => ne (only equal).symm
  rw [Sandbox.directory_eq] at same lengths
  by_cases top : parts = []
  · rw [if_pos top, String.append_empty] at lengths
    omega
  · rw [if_neg top, String.length_append] at lengths
    have slash : ("/" : String).length = 1 := rfl
    -- A root that takes off no more than the directory would end in the directory's slash.
    have isRoot : root = renderPath parts ++ "/" := by
      have chars := congrArg String.toList same
      rw [if_neg top, String.toList_append, String.toList_append] at chars
      refine String.toList_inj.mp (List.append_inj_left chars ?_)
      rw [String.length_toList, String.length_toList, String.length_append]
      omega
    have nothing := congrArg String.length (ends _ isRoot)
    rw [renderPath, String.length_append, slash, String.length_empty] at nothing
    omega

variable {h : Host} {m : FileMap} {files modules : List String}

/-- The modules below a directory: one for each compiled file, in the order of their paths. -/
def Told (m : FileMap) (dir : String) (modules : List String) : Prop :=
  ∃ stems : List String, modules = stems.map dotted ∧
    (∀ stem, stem ∈ stems ↔ (m (dir ++ stem ++ extension)).isSome = true) ∧
    stems.Pairwise fun a b => dir ++ a ++ extension < dir ++ b ++ extension

/-- The files that are listed below the library root, given that it can be listed or not. -/
structure Listed (m : FileMap) (parts : List String) (seen : Prop) (files : List String) : Prop where
  ordered : files.Pairwise (· < ·)
  below : ∀ file ∈ files, seen ∧ ∃ inner, isAbsolute inner = false ∧ file = directory parts ++ inner
  all : seen → ∀ inner, inner ≠ "" →
    (directory parts ++ inner ∈ files ↔ (m (directory parts ++ inner)).isSome = true)

private theorem listed_list (mirrors : s.Mirrors h m) (found : s.components? path = some parts) :
    ∃ files, s.list h path = .ok files ∧ Listed m parts (¬ (s.root = "" ∧ parts = [])) files := by
  obtain ⟨files, list, ordered, mem⟩ := mirrors.list found
  have proper := Sandbox.proper_of_components found
  refine ⟨files, list, ordered, ?_, ?_⟩
  · intro file there
    obtain ⟨seen, isFile, full, foundFull, ⟨names, rfl⟩, longer⟩ := (mem file).mp there
    obtain ⟨full, properFull, rfl⟩ := mirrors.paths file isFile
    obtain rfl : full = parts ++ names := by
      rw [Sandbox.components?_renderPath properFull] at foundFull
      exact Option.some.inj foundFull
    have some : names ≠ [] := by
      rintro rfl
      exact longer (List.append_nil parts)
    have properNames := (List.forall_mem_append.mp properFull).2
    exact ⟨seen, join names, Sandbox.isAbsolute_join properNames,
      Sandbox.renderPath_append parts some⟩
  · intro seen inner ne
    rw [mem]
    constructor
    · exact fun there => there.2.1
    · intro isFile
      obtain ⟨full, properFull, same⟩ := mirrors.paths _ isFile
      obtain ⟨names, some, rfl, -⟩ := Sandbox.names_of_renderPath_eq proper properFull ne same.symm
      rw [same]
      refine ⟨seen, same ▸ isFile, parts ++ names, Sandbox.components?_renderPath properFull, ?_⟩
      exact ⟨List.prefix_append parts names, fun whole => some (List.append_right_eq_self.mp whole)⟩

private theorem Listed.mem_stems {seen : Prop} (listed : Listed m parts seen files) :
    stem ∈ files.filterMap (stem? (directory parts)) ↔
      seen ∧ (m (directory parts ++ stem ++ extension)).isSome = true := by
  have ne : stem ++ extension ≠ "" := by
    intro none
    exact absurd (String.append_eq_empty_iff.mp none).2 (by decide)
  rw [List.mem_filterMap]
  constructor
  · rintro ⟨file, there, found⟩
    have seen := (listed.below file there).1
    have whole := stem?_eq_some_iff.mp found
    rw [String.append_assoc] at whole ⊢
    exact ⟨seen, (listed.all seen _ ne).mp (whole ▸ there)⟩
  · rintro ⟨seen, isFile⟩
    rw [String.append_assoc] at isFile
    exact ⟨_, (listed.all seen _ ne).mpr isFile,
      stem?_eq_some_iff.mpr String.append_assoc.symm⟩

private theorem Listed.ordered_stems {seen : Prop} (listed : Listed m parts seen files) :
    (files.filterMap (stem? (directory parts))).Pairwise fun a b =>
      directory parts ++ a ++ extension < directory parts ++ b ++ extension := by
  refine List.pairwise_filterMap.mpr (listed.ordered.imp ?_)
  intro file file' before stem found stem' found'
  rwa [← stem?_eq_some_iff.mp found, ← stem?_eq_some_iff.mp found']

private theorem nodup_of_ordered {dir : String} {stems : List String}
    (ordered : stems.Pairwise fun a b => dir ++ a ++ extension < dir ++ b ++ extension) :
    stems.Nodup := by
  refine ordered.imp ?_
  rintro a b before rfl
  exact String.lt_irrefl _ before

private theorem weight_filterMap_le {f g : String → Option String} {texts : List String}
    (shorter : ∀ text ∈ texts, ∀ short, f text = some short →
      ∃ long, g text = some long ∧ short.length < long.length) :
    weight (texts.filterMap f) + (texts.filterMap g).length ≤ weight (texts.filterMap g) := by
  induction texts with
  | nil => exact Nat.le_refl _
  | cons text texts ih =>
    obtain ⟨first, others⟩ := List.forall_mem_cons.mp shorter
    have rest := ih others
    cases short : f text with
    | none =>
      cases long : g text with
      | none => rwa [List.filterMap_cons_none short, List.filterMap_cons_none long]
      | some long' =>
        rw [List.filterMap_cons_none short, List.filterMap_cons_some long, List.length_cons,
          weight]
        omega
    | some short' =>
      obtain ⟨long', long, less⟩ := first short' short
      rw [List.filterMap_cons_some short, List.filterMap_cons_some long, List.length_cons,
        weight, weight]
      omega

private theorem weight_map_dotted (stems : List String) :
    weight (stems.map dotted) = weight stems := by
  induction stems with
  | nil => rfl
  | cons stem stems ih => rw [List.map_cons, weight, weight, length_dotted, ih]

private theorem shorter_of_not_spelled {root file : String} (absolute : isAbsolute root = true)
    (ends : ∀ rest, root = rest ++ "/" → rest = "") (found : s.components? root = some parts)
    (ne : root ≠ renderPath parts) (below : file = directory parts ++ inner)
    (named : nameOf root file = some name) :
    ∃ stem, stem? (directory parts) file = some stem ∧ name.length < stem.length := by
  rw [nameOf_eq, Option.map_eq_some_iff] at named
  obtain ⟨taken, off, rfl⟩ := named
  obtain ⟨stem, -, there⟩ := stem_of_stem? (below ▸ off)
  rw [← below] at there
  have same : root ++ taken = directory parts ++ stem := by
    have whole := (stem?_eq_some_iff.mp off).symm.trans (stem?_eq_some_iff.mp there)
    exact (String.append_left_inj extension).mp whole
  have less := length_lt_of_not_spelled absolute ends found ne same
  refine ⟨stem, there, ?_⟩
  rw [length_dotted]
  exact Nat.lt_of_le_of_lt (length_dropStartSlashes taken) less

private theorem Listed.told {seen : Prop} (listed : Listed m parts seen files) (canSee : seen) :
    Told m (directory parts) (files.filterMap (nameOf (renderPath parts))) := by
  refine ⟨files.filterMap (stem? (directory parts)), ?_, ?_, listed.ordered_stems⟩
  · rw [List.map_filterMap]
    refine List.filterMap_congr fun file there => ?_
    obtain ⟨-, inner, relative, rfl⟩ := listed.below file there
    exact nameOf_renderPath relative
  · intro stem
    rw [listed.mem_stems, and_iff_right canSee]

private theorem Listed.told_of_none {seen : Prop} (listed : Listed m parts seen files)
    (none : ∀ stem, (m (directory parts ++ stem ++ extension)).isSome = false) (root : String) :
    Told m (directory parts) (files.filterMap (nameOf root)) := by
  have noNames : files.filterMap (nameOf root) = [] := by
    refine List.filterMap_eq_nil_iff.mpr fun file there => ?_
    obtain ⟨-, inner, -, rfl⟩ := listed.below file there
    rw [nameOf_eq, Option.map_eq_none_iff, Option.eq_none_iff_forall_ne_some]
    intro taken off
    obtain ⟨stem, -, found⟩ := stem_of_stem? off
    have isFile := (listed.mem_stems.mp (List.mem_filterMap.mpr ⟨_, there, found⟩)).2
    rw [none stem] at isFile
    cases isFile
  refine ⟨[], noNames, fun stem => ?_, List.Pairwise.nil⟩
  rw [none stem]
  simp

private theorem none_of_told_nil {dir : String} (told : Told m dir []) (stem : String) :
    (m (dir ++ stem ++ extension)).isSome = false := by
  obtain ⟨stems, none, mem, -⟩ := told
  rw [Bool.eq_false_iff, ne_eq, ← mem, List.map_eq_nil_iff.mp none.symm]
  exact List.not_mem_nil

private theorem Listed.names_eq_nil {seen : Prop} {root : String}
    (listed : Listed m parts seen files)
    (canSee : seen) (absolute : isAbsolute root = true)
    (ends : ∀ rest, root = rest ++ "/" → rest = "") (found : s.components? root = some parts)
    (ne : root ≠ renderPath parts)
    (told : Told m (directory parts) (files.filterMap (nameOf root))) :
    files.filterMap (nameOf root) = [] := by
  obtain ⟨stems, names, mem, ordered⟩ := told
  have same : stems.Perm (files.filterMap (stem? (directory parts))) := by
    rw [List.perm_ext_iff_of_nodup (nodup_of_ordered ordered)
      (nodup_of_ordered listed.ordered_stems)]
    intro stem
    rw [mem, listed.mem_stems, and_iff_right canSee]
  have less : weight (files.filterMap (nameOf root)) +
      (files.filterMap (stem? (directory parts))).length ≤
        weight (files.filterMap (stem? (directory parts))) := by
    refine weight_filterMap_le fun file there name named => ?_
    obtain ⟨-, inner, -, below⟩ := listed.below file there
    exact shorter_of_not_spelled absolute ends found ne below named
  rw [names, weight_map_dotted, Text.Path.weight_perm same, ← same.length_eq] at less
  have none : stems.length = 0 := by omega
  rw [names, List.eq_nil_of_length_eq_zero none, List.map_nil]

private theorem told_scan_iff (mirrors : s.Mirrors h m) (absolute : isAbsolute s.libRoot = true)
    (ends : ∀ rest, s.libRoot = rest ++ "/" → rest = "")
    (found : s.components? s.libRoot = some parts) :
    Told m (directory parts) (scan h s) ↔
      (s.libRoot = renderPath parts ∧ ¬ (s.root = "" ∧ parts = [])) ∨
        ∀ stem, (m (directory parts ++ stem ++ extension)).isSome = false := by
  obtain ⟨files, list, listed⟩ := listed_list mirrors found
  have scanned : scan h s = files.filterMap (nameOf s.libRoot) := by
    delta scan
    rw [list]
  rw [scanned]
  constructor
  · intro told
    by_cases top : s.root = "" ∧ parts = []
    · have noFiles : files = [] := List.eq_nil_iff_forall_not_mem.mpr fun file there =>
        (listed.below file there).1 top
      rw [noFiles, List.filterMap_nil] at told
      exact Or.inr (none_of_told_nil told)
    · by_cases spelled : s.libRoot = renderPath parts
      · exact Or.inl ⟨spelled, top⟩
      · rw [listed.names_eq_nil top absolute ends found spelled told] at told
        exact Or.inr (none_of_told_nil told)
  · rintro (⟨spelled, notTop⟩ | none)
    · rw [spelled]
      exact listed.told notTop
    · exact listed.told_of_none none s.libRoot

end Modules

namespace SimulatedKernel

open Modules (Told extension)
open Sandbox (renderPath directory Proper FileMap)
open Text.Path (isAbsolute join)

variable {k : SimulatedKernel} {site : Site} {line : String} {m : FileMap}

private theorem modules_refreshed (booted : k.booted = true)
    (asked : Command.decode line = .ok .refreshLoadPath) :
    (k.post line site).2.1.modules = Modules.scan site.host site.sandbox := by
  unfold post
  rw [booted, asked]
  rfl

/--
A kernel that is asked to look for modules has, in the order of the paths, exactly one for each
compiled file below the directory where relative paths end, named by its path there with dots, if
the configured library root is in its one spelling and is not the top of a sandbox of the empty
path. With any other library root it has them only if there is no such file. Where the library root
leads above the sandbox, so does every relative path, and there is no module.
-/
theorem modules_are_compiled_files_iff (booted : k.booted = true)
    (asked : Command.decode line = .ok .refreshLoadPath) (configured : String)
    (mirrors : site.sandbox.Mirrors site.host m) :
    let s := site.sandbox.withLibRoot configured
    let modules := (k.post line { site with sandbox := s }).2.1.modules
    (s.components? s.libRoot = none →
      (∀ path, isAbsolute path = false → s.virtualPath path = .error (.escape path)) ∧
        modules = []) ∧
    ∀ parts, s.components? s.libRoot = some parts →
      (∀ names, names ≠ [] → (∀ name ∈ names, Proper name) →
        s.virtualPath (join names) = .ok (directory parts ++ join names)) ∧
      (Told m (directory parts) modules ↔
        (s.libRoot = renderPath parts ∧ ¬ (s.root = "" ∧ parts = [])) ∨
          ∀ stem, (m (directory parts ++ stem ++ extension)).isSome = false) := by
  intro s modules
  have scanned : modules = Modules.scan site.host s := modules_refreshed booted asked
  obtain ⟨absolute, ends⟩ := Modules.libRoot_withLibRoot site.sandbox configured
  have mirrors : s.Mirrors site.host m :=
    mirrors.of_root (Sandbox.root_withLibRoot site.sandbox configured)
  rw [scanned]
  constructor
  · intro above
    constructor
    · intro path relative
      have none := Modules.components?_in_library absolute relative
      rw [above, Option.bind_none] at none
      rw [Sandbox.virtualPath, none]
    · have list : s.list site.host s.libRoot = .error (.escape s.libRoot) := by
        delta Sandbox.list
        rw [above]
      delta Modules.scan
      rw [list]
  · intro parts found
    refine ⟨?_, Modules.told_scan_iff mirrors absolute ends found⟩
    intro names ne proper
    have inside : s.components? (join names) = some (parts ++ names) := by
      rw [Modules.components?_in_library absolute (Sandbox.isAbsolute_join proper), found,
        Option.bind_some, Text.Path.split_join ne fun name mem => (proper name mem).noSlash,
        Sandbox.walk_of_proper proper]
      simp
    rw [Sandbox.virtualPath_of_components inside, Sandbox.renderPath_append parts ne]

def ready : SimulatedKernel := { new (fun _ => none) 0 with booted := true }

/-- A site with a compiled file in the library. -/
def stocked : Site where
  network := .unreachable
  host := Sandbox.after ⟨"/vfs", "/coq/lib"⟩ Sandbox.bareHost (.put "A.vo" [120])
  sandbox := ⟨"/vfs", "/lib"⟩
  interrupt := .clear

def stockedFiles : FileMap :=
  Sandbox.recorded ⟨"/vfs", "/coq/lib"⟩ Sandbox.bareHost (fun _ => none) (.put "A.vo" [120])

private theorem mirrors_stocked : stocked.sandbox.Mirrors stocked.host stockedFiles := by
  have empty : (⟨"/vfs", "/lib"⟩ : Sandbox).Empty Sandbox.bareHost := ⟨Sandbox.stands_bareHost, rfl⟩
  have fresh : Sandbox.Served ⟨"/vfs", "/lib"⟩ Sandbox.bareHost Sandbox.bareHost fun _ => none :=
    .start
  have served := fresh.call ⟨"/vfs", "/coq/lib"⟩ rfl (.put "A.vo" [120])
  unfold stocked stockedFiles
  dsimp only
  exact Sandbox.mirrors_of_served empty served

/-- The modules that are found there below a configured library root. -/
def foundBelow (configured : String) : List String :=
  (ready.post "[\"RefreshLoadPath\"]"
    ⟨stocked.network, stocked.host, stocked.sandbox.withLibRoot configured,
      stocked.interrupt⟩).2.1.modules

theorem modules_are_compiled_files_iff_stocked :
    Told stockedFiles (directory ["coq", "lib"]) (foundBelow "/coq/lib/") ∧
      ¬ Told stockedFiles (directory ["coq", "lib"]) (foundBelow "/coq/./lib") := by
  have booted : ready.booted = true := rfl
  have asked : Command.decode "[\"RefreshLoadPath\"]" = .ok .refreshLoadPath := by decide +kernel
  have told_iff (configured : String)
      (parts : (stocked.sandbox.withLibRoot configured).components?
        (stocked.sandbox.withLibRoot configured).libRoot = some ["coq", "lib"]) :
      Told stockedFiles (directory ["coq", "lib"]) (foundBelow configured) ↔
        ((stocked.sandbox.withLibRoot configured).libRoot = renderPath ["coq", "lib"] ∧
          ¬ ((stocked.sandbox.withLibRoot configured).root = "" ∧ ["coq", "lib"] = [])) ∨
        ∀ stem, (stockedFiles (directory ["coq", "lib"] ++ stem ++ extension)).isSome = false := by
    unfold foundBelow
    exact ((modules_are_compiled_files_iff booted asked configured mirrors_stocked).2 _ parts).2
  constructor
  · rw [told_iff "/coq/lib/" (by decide +kernel)]
    exact Or.inl ⟨by decide +kernel, by decide⟩
  · rw [told_iff "/coq/./lib" (by decide +kernel)]
    rintro (⟨spelled, -⟩ | none)
    · exact absurd spelled (by decide +kernel)
    · exact absurd (none "A") (by decide +kernel)

/-- A library root with a dot in it hides a module that a relative path has put below it. -/
theorem module_hidden_by_dot :
    ((Sandbox.withLibRoot ⟨"/vfs", "/lib"⟩ "/coq/./lib").put Sandbox.bareHost "A.vo" [120]).1 =
        .ok "/coq/lib/A.vo" ∧
      foundBelow "/coq/lib" = ["A"] ∧ foundBelow "/coq/./lib" = [] := by
  refine ⟨?_, ?_, ?_⟩ <;> decide +kernel

end SimulatedKernel

end ProofHost
