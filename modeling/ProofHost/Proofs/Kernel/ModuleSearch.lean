import ProofHost.Kernel.Simulated
import ProofHost.Proofs.Kernel.LoadPath
import ProofHost.Proofs.Kernel.Outcome

/-!
Searches for modules below some components. The search compares texts, the components joined by dots
with the name of a module; for components without dots this is to compare the components themselves,
one by one, unless there are none: no components are joined to the same text as a single empty one.
-/

set_option autoImplicit false

namespace ProofHost

namespace Modules

variable {name : String} {path front modules : List String}

/-- The parts of a module's name between its dots. -/
def components (name : String) : List String :=
  (Text.pieces (· == '.') name.toList).map String.ofList

/-- The modules whose components begin with the given ones, in their order. -/
def beginning (path modules : List String) : List String :=
  modules.filter fun name => path.isPrefixOf (components name)

private theorem mem_beginning :
    name ∈ beginning path modules ↔ name ∈ modules ∧ path <+: components name := by
  rw [beginning, List.mem_filter, List.isPrefixOf_iff_prefix]

private theorem beginning_sublist (shorter : front <+: path) (modules : List String) :
    (beginning path modules).Sublist (beginning front modules) := by
  have fewer : beginning path modules = beginning path (beginning front modules) := by
    rw [beginning, beginning, beginning, List.filter_filter]
    refine List.filter_congr fun name _ => ?_
    cases begins : path.isPrefixOf (components name) with
    | false => rfl
    | true =>
      have all := shorter.trans (List.isPrefixOf_iff_prefix.mp begins)
      rw [List.isPrefixOf_iff_prefix.mpr all]
      rfl
  rw [fewer]
  exact List.filter_sublist

private theorem isUnder_iff (ne : path ≠ []) (noDots : ∀ part ∈ path, '.' ∉ part.toList) :
    isUnder path name = true ↔ path <+: components name := by
  have dot : ("." : String).toList = ['.'] := by simp
  have joined : (".".intercalate path).toList = ['.'].intercalate (path.map String.toList) := by
    rw [String.toList_intercalate, dot]
  have cut : path.map String.toList <+: Text.pieces (· == '.') name.toList ↔
      path <+: components name := by
    constructor
    · intro begins
      have texts := begins.map String.ofList
      rwa [List.map_map, String.ofList_comp_toList, List.map_id] at texts
    · intro begins
      have chars := begins.map String.toList
      rwa [components, List.map_map, String.toList_comp_ofList, List.map_id] at chars
  rw [isUnder, Bool.or_eq_true, beq_iff_eq, List.isPrefixOf_iff_prefix, String.toList_append, dot,
    ← String.toList_inj, joined, ← cut]
  exact (Text.prefix_pieces_iff (by simpa using ne) (List.forall_mem_map.mpr noDots)).symm

private theorem isUnder_nil (name : String) : isUnder [] name = isUnder [""] name := rfl

private theorem filter_isUnder (noDots : ∀ part ∈ path, '.' ∉ part.toList) (modules : List String) :
    modules.filter (isUnder path) = beginning (if path = [] then [""] else path) modules := by
  refine List.filter_congr fun name _ => ?_
  rw [Bool.eq_iff_iff, List.isPrefixOf_iff_prefix]
  by_cases none : path = []
  · rw [if_pos none, none, isUnder_nil]
    exact isUnder_iff (by simp) (by simp)
  · rw [if_neg none]
    exact isUnder_iff none noDots

private theorem beginning_nil (modules : List String) : beginning [] modules = modules :=
  List.filter_eq_self.mpr fun _ _ => rfl

end Modules

namespace SimulatedKernel

open Modules (beginning components)

variable {k : SimulatedKernel} {line : String} {id : StateId} {route : UInt32} {what : Search}
  {path : List String}

private theorem post_inspect (booted : k.booted = true) (live : k.document.isLive id = true)
    (asked : Command.decode line = .ok (.inspect id route what)) (site : Site) :
    k.post line site =
      (⟨(k.search id what).map fun name =>
        (Answer.feedback ⟨id, route, .info, .object [("name", .string name)]⟩).encode, none⟩,
        k, site) := by
  rw [post_command booted asked, serve, if_pos live, List.map_map]
  rfl

/--
A live state that is asked for the modules below some components shows, in the order of the modules
and on the route of the question, those whose components begin with the given ones, or with an empty
one if none are given. So the answer is right unless no components are given and some module has a
first component that is not empty; and more components find fewer modules than any of them at the
front, but for no components at all, which find only the modules with an empty first component.
-/
theorem modules_below_components_iff (booted : k.booted = true)
    (live : k.document.isLive id = true)
    (asked : Command.decode line = .ok (.inspect id route (.modulesUnder path)))
    (noDots : ∀ part ∈ path, '.' ∉ part.toList) (site : Site) :
    ∃ names, k.post line site =
        (⟨names.map fun name =>
          (Answer.feedback ⟨id, route, .info, .object [("name", .string name)]⟩).encode, none⟩,
          k, site) ∧
      names = beginning (if path = [] then [""] else path) k.modules ∧
      (names = beginning path k.modules ↔
        path ≠ [] ∨ ∀ name ∈ k.modules, [""] <+: components name) ∧
      ∀ front, front <+: path →
        (names ⊆ k.search id (.modulesUnder front) ↔
          front ≠ [] ∨ ∀ name ∈ names, [""] <+: components name) := by
  have found := Modules.filter_isUnder noDots k.modules
  refine ⟨_, post_inspect booted live asked site, found, ?_, ?_⟩
  · rw [search, found]
    by_cases none : path = []
    · rw [if_pos none, none, Modules.beginning_nil, beginning, List.filter_eq_self]
      simp [List.isPrefixOf_iff_prefix]
    · rw [if_neg none]
      simp [none]
  · intro front shorter
    have noDots' : ∀ part ∈ front, '.' ∉ part.toList := fun part there =>
      noDots part (shorter.subset there)
    rw [search, search, found, Modules.filter_isUnder noDots']
    by_cases none : front = []
    · rw [if_pos none]
      constructor
      · intro subset
        exact Or.inr fun name there => (Modules.mem_beginning.mp (subset there)).2
      · rintro (some | empty)
        · exact absurd none some
        · intro name there
          exact Modules.mem_beginning.mpr ⟨(Modules.mem_beginning.mp there).1, empty name there⟩
    · have ne : path ≠ [] := by
        rintro rfl
        exact none (List.prefix_nil.mp shorter)
      rw [if_neg none, if_neg ne]
      exact iff_of_true (Modules.beginning_sublist shorter k.modules).subset (Or.inl none)

/-- A started kernel with a root and modules that share components or only letters. -/
def librarian : SimulatedKernel :=
  { ready with document := Document.new.init.2, modules := ["A", "A.B", "Ab"] }

theorem modules_below_components_iff_nested :
    librarian.post "[\"Inspect\",1,4,[\"ModulePrefix\",[\"A\"]]]" bareSite =
      (⟨["A", "A.B"].map fun name =>
        (Answer.feedback ⟨1, 4, .info, .object [("name", .string name)]⟩).encode, none⟩,
        librarian, bareSite) := by
  have booted : librarian.booted = true := rfl
  have live : librarian.document.isLive 1 = true := rfl
  have asked : Command.decode "[\"Inspect\",1,4,[\"ModulePrefix\",[\"A\"]]]" =
      .ok (.inspect 1 4 (.modulesUnder ["A"])) := by decide +kernel
  obtain ⟨names, posted, found, -, -⟩ :=
    modules_below_components_iff booted live asked (by decide) bareSite
  have both : names = ["A", "A.B"] := found.trans (by decide +kernel)
  rw [posted, both]

/-- Asked for the modules below no components, the same kernel shows none of its modules, though the
components of each begin so; asked for more components it does show some. -/
theorem no_components_hide_modules :
    beginning [] librarian.modules = ["A", "A.B", "Ab"] ∧
      (librarian.post "[\"Inspect\",1,4,[\"ModulePrefix\",[]]]" bareSite).1 = ⟨[], none⟩ ∧
      (librarian.post "[\"Inspect\",1,4,[\"ModulePrefix\",[\"A\"]]]" bareSite).1.lines ≠ [] := by
  refine ⟨?_, ?_, ?_⟩ <;> decide +kernel

end SimulatedKernel

end ProofHost
