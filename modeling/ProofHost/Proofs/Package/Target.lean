import ProofHost.Archive.Unpack
import ProofHost.Package.Uri
import ProofHost.Proofs.Sandbox.Containment

/-!
Where the name of a package's file leads. A name is taken from the target directory, or from the top
of the sandbox; it leads strictly below the target directory exactly if it goes up only into names
that it then repeats, and names something more.
-/

set_option autoImplicit false

namespace ProofHost

open Text.Path (split isAbsolute dropStartSlashes dropEndSlashes)
open Sandbox (walk)

namespace Sandbox

variable {start parts : List String}

/-- Take up components from an unknown directory: how many levels they lead up from there, and the
ordinary ones that are kept after that, the last one first. -/
def climb : Nat → List String → List String → Nat × List String
  | up, kept, [] => (up, kept)
  | up, kept, part :: rest =>
    if part = "" || part = "." then climb up kept rest
    else if part = ".." then
      match kept with
      | [] => climb (up + 1) [] rest
      | _ :: kept' => climb up kept' rest
    else climb up (part :: kept) rest

private theorem le_climb (up : Nat) (kept parts : List String) : up ≤ (climb up kept parts).1 := by
  induction parts generalizing up kept with
  | nil => exact Nat.le_refl up
  | cons part rest ih =>
    rw [climb.eq_def]
    simp only
    split
    · exact ih up kept
    · split
      · cases kept with
        | nil => exact Nat.le_trans (Nat.le_succ up) (ih (up + 1) [])
        | cons last kept => exact ih up kept
      · exact ih up (part :: kept)

private theorem walk_eq_climb (up : Nat) (kept : List String) (enough : up ≤ start.length) :
    walk (kept ++ start.drop up) parts =
      if (climb up kept parts).1 ≤ start.length then
        some ((climb up kept parts).2 ++ start.drop (climb up kept parts).1)
      else none := by
  induction parts generalizing up kept with
  | nil => simp [walk, climb, enough]
  | cons part rest ih =>
    simp only [walk]
    rw [climb.eq_def]
    simp only
    split
    · exact ih up kept enough
    · split
      · cases kept with
        | cons last kept => exact ih up kept enough
        | nil =>
          rcases Nat.lt_or_ge up start.length with more | no
          · rw [List.nil_append, List.drop_eq_getElem_cons more]
            exact ih (up + 1) [] more
          · have past : ¬ (climb (up + 1) [] rest).1 ≤ start.length := by
              have := le_climb (up + 1) [] rest
              omega
            rw [List.nil_append, List.drop_of_length_le no, if_neg past]
      · exact ih up (part :: kept) enough

private theorem map_reverse_walk (start parts : List String) :
    (walk start.reverse parts).map List.reverse =
      if (climb 0 [] parts).1 ≤ start.length then
        some (start.take (start.length - (climb 0 [] parts).1) ++ (climb 0 [] parts).2.reverse)
      else none := by
  have walked := @walk_eq_climb start.reverse parts 0 [] (Nat.zero_le _)
  rw [List.nil_append, List.drop_zero, List.length_reverse, List.drop_reverse] at walked
  rw [walked]
  split
  · rw [Option.map_some, List.reverse_append, List.reverse_reverse]
  · rfl

end Sandbox

namespace Package

variable {s : Sandbox} {target : List String} {dir name : String}

def fromTop (dir name : String) : Bool := (dropStartSlashes dir).isEmpty && isAbsolute name

/-- The directory from which the name of a file is taken. -/
def start (target : List String) (dir name : String) : List String :=
  if fromTop dir name then [] else target

theorem components?_relative {path : String} (relative : isAbsolute path = false) :
    s.components? path =
      ((walk [] (split s.libRoot)).bind fun inner => walk inner (split path)).map List.reverse := by
  rw [Sandbox.components?, Sandbox.fullPath, relative, if_neg (by simp), Text.Path.split_append,
    Sandbox.walk_append]

private theorem isAbsolute_dropStartSlashes (path : String) :
    isAbsolute (dropStartSlashes path) = false := by
  have kept := List.head?_dropWhile_not (· == '/') path.toList
  rw [isAbsolute, dropStartSlashes, String.toList_ofList]
  cases front : (path.toList.dropWhile (· == '/')).head? with
  | none => rfl
  | some c =>
    rw [front] at kept
    simpa using kept

private theorem isAbsolute_append {front : String} (back : String) (notEmpty : front ≠ "")
    (relative : isAbsolute front = false) :
    isAbsolute (dropEndSlashes front ++ "/" ++ back) = false := by
  have chars : front.toList ≠ [] := fun none => notEmpty (String.toList_eq_nil_iff.mp none)
  obtain ⟨dropped, whole, slashes⟩ := Text.dropEndWhile_append (· == '/') front.toList
  rw [isAbsolute] at relative
  rw [isAbsolute, String.toList_append, String.toList_append, dropEndSlashes, String.toList_ofList]
  cases kept : Text.dropEndWhile (· == '/') front.toList with
  | cons c cs =>
    rw [whole, kept] at relative
    simpa using relative
  | nil =>
    rw [kept, List.nil_append] at whole
    obtain ⟨c, cs, cons⟩ := List.exists_cons_of_ne_nil chars
    have slash := slashes c (by rw [← whole, cons]; exact List.mem_cons_self)
    rw [cons] at relative
    simp [slash] at relative

private theorem components?_target (defined : s.components? (dropStartSlashes dir) = some target) :
    s.components? (Package.target dir name) =
      (walk (start target dir name).reverse (split name)).map List.reverse := by
  have relative := isAbsolute_dropStartSlashes dir
  rw [components?_relative relative] at defined
  obtain ⟨inner, walked, rfl⟩ := Option.map_eq_some_iff.mp defined
  obtain ⟨lib, libWalked, walked⟩ := Option.bind_eq_some_iff.mp walked
  unfold Package.target start fromTop
  by_cases empty : dropStartSlashes dir = ""
  · have isEmpty : (dropStartSlashes dir).isEmpty = true := String.isEmpty_iff.mpr empty
    have same : lib = inner := by
      rw [empty] at walked
      exact Option.some.inj walked
    simp only [isEmpty, if_true, Bool.true_and]
    cases absolute : isAbsolute name with
    | true =>
      rw [if_pos rfl, Sandbox.components?, Sandbox.fullPath, if_pos absolute]
      rfl
    | false =>
      rw [if_neg (by simp), components?_relative absolute, libWalked, same, List.reverse_reverse]
      rfl
  · have isEmpty : (dropStartSlashes dir).isEmpty = false := by
      simpa using empty
    have inside : walk lib (split (dropEndSlashes (dropStartSlashes dir))) = some inner := by
      rw [← Sandbox.walk_filter, Text.Path.filter_split_dropEndSlashes, Sandbox.walk_filter]
      exact walked
    simp only [isEmpty, Bool.false_and]
    rw [if_neg (by simp), if_neg (by simp), List.reverse_reverse,
      components?_relative (isAbsolute_append name empty relative), libWalked, Option.bind_some,
      Text.Path.split_append, Sandbox.walk_append, inside]
    rfl

def Below (top place : List String) : Prop := top <+: place ∧ place ≠ top

instance (top place : List String) : Decidable (Below top place) :=
  inferInstanceAs (Decidable (top <+: place ∧ place ≠ top))

theorem below_append_iff (front top place : List String) :
    Below (front ++ top) (front ++ place) ↔ Below top place := by
  simp [Below, List.prefix_append_right_inj]

/-- Does a name lead strictly below the target directory? It does if the levels that it leads up are
repeated by the names that it keeps, and more names follow. -/
def LeadsBelow (target : List String) (dir name : String) : Prop :=
  let trip := Sandbox.climb 0 [] (split name)
  let start := start target dir name
  trip.1 ≤ start.length ∧ Below (target.drop (start.length - trip.1)) trip.2.reverse

instance (target : List String) (dir name : String) : Decidable (LeadsBelow target dir name) :=
  inferInstanceAs (Decidable (_ ∧ Below _ _))

private theorem components?_target_eq_some {parts : List String}
    (defined : s.components? (dropStartSlashes dir) = some target)
    (found : s.components? (Package.target dir name) = some parts) :
    let trip := Sandbox.climb 0 [] (split name)
    let start := start target dir name
    trip.1 ≤ start.length ∧ parts = start.take (start.length - trip.1) ++ trip.2.reverse := by
  intro trip start
  rw [components?_target defined, Sandbox.map_reverse_walk] at found
  split at found
  · rename_i enough
    exact ⟨enough, (Option.some.inj found).symm⟩
  · cases found

theorem below_iff_leadsBelow {parts : List String}
    (defined : s.components? (dropStartSlashes dir) = some target)
    (found : s.components? (Package.target dir name) = some parts) :
    Below target parts ↔ LeadsBelow target dir name := by
  obtain ⟨enough, rfl⟩ := components?_target_eq_some defined found
  have shared : (start target dir name).take
      ((start target dir name).length - (Sandbox.climb 0 [] (split name)).1) =
      target.take ((start target dir name).length - (Sandbox.climb 0 [] (split name)).1) := by
    unfold start
    split <;> simp
  rw [shared, LeadsBelow, and_iff_right enough]
  generalize (start target dir name).length - (Sandbox.climb 0 [] (split name)).1 = stays
  calc Below target (target.take stays ++ (Sandbox.climb 0 [] (split name)).2.reverse)
      ↔ Below (target.take stays ++ target.drop stays)
          (target.take stays ++ (Sandbox.climb 0 [] (split name)).2.reverse) := by
        rw [List.take_append_drop]
    _ ↔ Below (target.drop stays) (Sandbox.climb 0 [] (split name)).2.reverse :=
        below_append_iff _ _ _

end Package

end ProofHost
