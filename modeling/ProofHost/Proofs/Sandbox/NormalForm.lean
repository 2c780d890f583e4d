import ProofHost.Proofs.Sandbox.Containment

/-!
The one spelling of a virtual path. A path is taken up from the left with a stack of names; what it
leaves is what remains when every `..` is struck out together with the name right before it, and it
leaves something exactly if no beginning of it has more `..` than names.
-/

set_option autoImplicit false

namespace ProofHost

namespace Sandbox

open Text.Path (split join below)

variable {s : Sandbox} {path : String} {parts rest front back kept after : List String}

/-- Does a component name something, so that a later `..` can take it back? -/
def isName (part : String) : Bool := part != "" && part != "." && part != ".."

/-- No beginning of the components has more `..` than names. -/
def NeverAbove (parts : List String) : Prop :=
  ∀ front, front <+: parts → front.count ".." ≤ front.countP isName

/-- The second list is left of the first one when components without a meaning, and pairs of a name
and the `..` right after it, are struck out. -/
inductive Cancels : List String → List String → Prop
  | done (parts : List String) : Cancels parts parts
  | skip {front back rest : List String} {part : String} (blank : part = "" ∨ part = ".")
      (cancels : Cancels (front ++ back) rest) : Cancels (front ++ part :: back) rest
  | pair {front back rest : List String} {name : String} (named : isName name = true)
      (cancels : Cancels (front ++ back) rest) : Cancels (front ++ name :: ".." :: back) rest

private theorem isName_iff {part : String} :
    isName part = true ↔ part ≠ "" ∧ part ≠ "." ∧ part ≠ ".." := by
  simp [isName, and_assoc]

private theorem walk_blank {part : String} (blank : part = "" ∨ part = ".")
    (kept back : List String) :
    walk kept (part :: back) = walk kept back := by
  have skipped : (part = "" || part = ".") = true := by simpa using blank
  simp only [walk, if_pos skipped]

private theorem walk_dots (kept back : List String) :
    walk kept (".." :: back) = match kept with
      | [] => none
      | _ :: kept' => walk kept' back := rfl

private theorem walk_name {name : String} (named : isName name = true) (kept back : List String) :
    walk kept (name :: back) = walk (name :: kept) back := by
  obtain ⟨notEmpty, notDot, notDots⟩ := isName_iff.mp named
  have kind : ¬ (name = "" || name = ".") = true := by simp [notEmpty, notDot]
  simp only [walk, if_neg kind, if_neg notDots]

private theorem component_cases (part : String) :
    (part = "" ∨ part = ".") ∨ part = ".." ∨ isName part = true := by
  by_cases blank : part = "" ∨ part = "."
  · exact Or.inl blank
  · by_cases dots : part = ".."
    · exact Or.inr (Or.inl dots)
    · obtain ⟨notEmpty, notDot⟩ := not_or.mp blank
      exact Or.inr (Or.inr (isName_iff.mpr ⟨notEmpty, notDot, dots⟩))

private theorem Cancels.walk_eq (cancels : Cancels parts rest) (kept : List String) :
    walk kept parts = walk kept rest := by
  induction cancels with
  | done parts => rfl
  | skip blank _ ih =>
    rw [← ih, walk_append, walk_append]
    congr 1
    funext inner
    exact walk_blank blank inner _
  | pair named _ ih =>
    rw [← ih, walk_append, walk_append]
    congr 1
    funext inner
    rw [walk_name named, walk_dots]

/-- The stack strikes out: the names kept so far and the components to come leave what is kept at
the end. -/
private theorem cancels_of_walk (names : ∀ name ∈ kept, isName name = true)
    (walked : walk kept parts = some after) : Cancels (kept.reverse ++ parts) after.reverse := by
  induction parts generalizing kept with
  | nil =>
    have same : kept = after := Option.some_inj.mp walked
    rw [List.append_nil, same]
    exact .done _
  | cons part parts ih =>
    rcases component_cases part with blank | dots | named
    · rw [walk_blank blank] at walked
      exact .skip blank (ih names walked)
    · subst dots
      cases kept with
      | nil => cases walked
      | cons name kept =>
        obtain ⟨named, others⟩ := List.forall_mem_cons.mp names
        have struck := ih others walked
        rw [List.reverse_cons, List.append_assoc]
        exact .pair named struck
    · rw [walk_name named] at walked
      have struck := ih (List.forall_mem_cons.mpr ⟨named, names⟩) walked
      rwa [List.reverse_cons, List.append_assoc] at struck

private theorem cancels_iff_walk (proper : ∀ part ∈ rest, Proper part) :
    Cancels parts rest ↔ walk [] parts = some rest.reverse := by
  constructor
  · intro cancels
    rw [cancels.walk_eq [], walk_of_proper proper, List.append_nil]
  · intro walked
    have struck := cancels_of_walk (List.forall_mem_nil _) walked
    rwa [List.reverse_nil, List.nil_append, List.reverse_reverse] at struck

private theorem forall_prefix_cons_iff {P : List String → Prop} {part : String} :
    (∀ front, front <+: part :: parts → P front) ↔
      P [] ∧ ∀ front, front <+: parts → P (part :: front) := by
  constructor
  · intro all
    refine ⟨all [] (List.nil_prefix), fun front begins => ?_⟩
    exact all (part :: front) ((List.prefix_cons_inj part).mpr begins)
  · rintro ⟨empty, others⟩ front begins
    rcases List.prefix_cons_iff.mp begins with rfl | ⟨later, rfl, inside⟩
    · exact empty
    · exact others later inside

private theorem walk_isSome_iff (kept parts : List String) :
    (walk kept parts).isSome = true ↔
      ∀ front, front <+: parts → front.count ".." ≤ kept.length + front.countP isName := by
  induction parts generalizing kept with
  | nil => simp [walk]
  | cons part parts ih =>
    rw [forall_prefix_cons_iff]
    have empty : ([] : List String).count ".." ≤ kept.length + ([] : List String).countP isName := by
      simp
    rw [and_iff_right empty]
    rcases component_cases part with blank | dots | named
    · have notName : isName part = false := by
        rcases blank with rfl | rfl <;> rfl
      have notDots : part ≠ ".." := by
        rcases blank with rfl | rfl <;> decide
      simp only [walk_blank blank, ih, List.count_cons_of_ne notDots,
        List.countP_cons_of_neg (by simp [notName] : ¬ isName part = true)]
    · subst dots
      have notName : ¬ isName ".." = true := by decide
      simp only [List.count_cons_self, List.countP_cons_of_neg notName]
      cases kept with
      | nil =>
        have tooMany : ¬ ∀ front : List String, front <+: parts →
            front.count ".." + 1 ≤ ([] : List String).length + front.countP isName := by
          intro all
          have atOnce := all [] List.nil_prefix
          simp at atOnce
        simp only [walk_dots, Option.isSome_none, Bool.false_eq_true, tooMany]
      | cons name kept =>
        rw [walk_dots]
        simp only [ih, List.length_cons]
        refine forall₂_congr fun front _ => ?_
        omega
    · have notDots : part ≠ ".." := (isName_iff.mp named).2.2
      simp only [walk_name named, ih, List.count_cons_of_ne notDots,
        List.countP_cons_of_pos named, List.length_cons]
      refine forall₂_congr fun front _ => ?_
      omega

private theorem filter_split_normalizeLibRoot (libRoot : String) :
    (split (normalizeLibRoot libRoot)).filter (· != "") = (split libRoot).filter (· != "") := by
  rw [← Text.Path.filter_split_dropEndSlashes libRoot]
  simp only [normalizeLibRoot]
  split
  · rfl
  · rw [Text.Path.split_slash_append]
    exact List.filter_cons_of_neg (by decide)

private theorem filter_split_fullPath_withLibRoot (s : Sandbox) (libRoot path : String) :
    (split ((s.withLibRoot libRoot).fullPath path)).filter (· != "") =
      (split (if Text.Path.isAbsolute path then path else libRoot ++ "/" ++ path)).filter
        (· != "") := by
  unfold fullPath
  by_cases absolute : Text.Path.isAbsolute path = true
  · simp only [if_pos absolute]
  · simp only [if_neg absolute, withLibRoot]
    rw [Text.Path.split_append, Text.Path.split_append, List.filter_append, List.filter_append,
      filter_split_normalizeLibRoot]

private theorem components?_withLibRoot (s : Sandbox) (libRoot path : String) :
    (s.withLibRoot libRoot).components? path = (⟨s.root, libRoot⟩ : Sandbox).components? path := by
  have same := filter_split_fullPath_withLibRoot s libRoot path
  unfold components?
  rw [← walk_filter [] (split ((s.withLibRoot libRoot).fullPath path)), same, walk_filter]
  rfl

/-- What is left of a path: proper components, by striking out, and nothing else can be left. -/
structure Leaves (s : Sandbox) (path : String) (parts : List String) : Prop where
  proper : ∀ part ∈ parts, Proper part
  cancels : Cancels (split (s.fullPath path)) parts
  unique : ∀ other, Cancels (split (s.fullPath path)) other →
    (∀ part ∈ other, Proper part) → other = parts

private theorem leaves_of_components (found : s.components? path = some parts) :
    s.Leaves path parts := by
  have proper := proper_of_components found
  obtain ⟨after, walked, rfl⟩ := Option.map_eq_some_iff.mp found
  refine ⟨proper, ?_, ?_⟩
  · apply (cancels_iff_walk proper).mpr
    rwa [List.reverse_reverse]
  · intro other cancels properOther
    have also := (cancels_iff_walk properOther).mp cancels
    have same : after = other.reverse := Option.some_inj.mp (walked.symm.trans also)
    rw [same, List.reverse_reverse]

private theorem components?_isSome_iff :
    (s.components? path).isSome = true ↔ NeverAbove (split (s.fullPath path)) := by
  have counted := walk_isSome_iff [] (split (s.fullPath path))
  simp only [List.length_nil, Nat.zero_add] at counted
  rw [components?, Option.isSome_map, counted]
  rfl

/-- A path has one spelling, or it leads above the sandbox and is refused. Its components are what
striking out leaves, the spelling spells itself, and on the host they extend the root. A relative
path goes on from the components of the library root, in whatever spelling that was configured. -/
theorem virtualPath_normal_form (s : Sandbox) (path : String) :
    (∀ configured, (split ((s.withLibRoot configured).fullPath path)).filter (· != "") =
          (split (if Text.Path.isAbsolute path then path else configured ++ "/" ++ path)).filter
            (· != "") ∧
        (s.withLibRoot configured).virtualPath path =
          (⟨s.root, configured⟩ : Sandbox).virtualPath path) ∧
      ((∃ v, s.virtualPath path = .ok v) ↔ NeverAbove (split (s.fullPath path))) ∧
      ((s.virtualPath path = .error (.escape path) ∧ s.resolve path = .error (.escape path)) ∨
        ∃ parts, s.Leaves path parts ∧
          s.virtualPath path = .ok (renderPath parts) ∧
          s.virtualPath (renderPath parts) = .ok (renderPath parts) ∧
          s.resolve path = .ok (below s.root (join parts)) ∧
          Host.names (below s.root (join parts)) = Host.names s.root ++ parts ∧
          ∀ h : Host, h.placeOf (below s.root (join parts)) = h.placeOf s.root ++ parts) := by
  have spelled (configured : String) : (s.withLibRoot configured).virtualPath path =
      (⟨s.root, configured⟩ : Sandbox).virtualPath path := by
    unfold virtualPath
    rw [components?_withLibRoot]
  refine ⟨fun configured => ⟨filter_split_fullPath_withLibRoot s configured path,
    spelled configured⟩, ?_⟩
  rw [← components?_isSome_iff]
  cases found : s.components? path with
  | none =>
    have refused : s.virtualPath path = .error (.escape path) := by
      rw [virtualPath, found]
    have unresolved : s.resolve path = .error (.escape path) := by
      rw [resolve, refused]
      rfl
    constructor
    · simp [refused]
    · exact Or.inl ⟨refused, unresolved⟩
  | some parts =>
    have leaves := leaves_of_components found
    have given := virtualPath_of_components found
    have again : s.virtualPath (renderPath parts) = .ok (renderPath parts) :=
      virtualPath_of_components (components?_renderPath leaves.proper)
    constructor
    · simp [given]
    · refine Or.inr ⟨parts, leaves, given, again, resolve_of_components found, ?_, ?_⟩
      · exact names_below s.root leaves.proper
      · intro h
        exact placeOf_below h s.root leaves.proper

end Sandbox

end ProofHost
