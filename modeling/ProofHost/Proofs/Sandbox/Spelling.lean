import ProofHost.Proofs.Sandbox.Containment

/-!
How long virtual paths are. Of all absolute paths that lead to one place the spelling of the sandbox
is the shortest, and no other one is as short; and the paths of what is below a directory are its
own path with a slash and the names in it.
-/

set_option autoImplicit false

namespace ProofHost

namespace Text.Path

variable {parts : List String} {path : String}

/-- The length of a path with the given components and a slash after each. -/
def weight : List String → Nat
  | [] => 0
  | part :: rest => part.length + 1 + weight rest

theorem weight_perm {parts' : List String} (same : parts.Perm parts') :
    weight parts = weight parts' := by
  induction same with
  | nil => rfl
  | cons part _ ih => rw [weight, weight, ih]
  | swap part part' rest => simp only [weight, Nat.add_left_comm]
  | trans _ _ ih ih' => exact ih.trans ih'

private theorem length_join (ne : parts ≠ []) : (join parts).length + 1 = weight parts := by
  induction parts with
  | nil => exact absurd rfl ne
  | cons part rest ih =>
    cases rest with
    | nil => simp [join, weight]
    | cons next rest =>
      have inner := ih (List.cons_ne_nil next rest)
      have slash : ("/" : String).length = 1 := rfl
      rw [join_cons, String.length_append, String.length_append, weight, slash]
      omega

private theorem weight_split (path : String) : weight (split path) = path.length + 1 := by
  have ne : split path ≠ [] := by
    simp [split, pieces_ne_nil]
  rw [← length_join ne, join_split]

private theorem exists_of_isAbsolute (absolute : isAbsolute path = true) :
    ∃ rest, path = "/" ++ rest := by
  unfold isAbsolute at absolute
  cases chars : path.toList with
  | nil => simp [chars] at absolute
  | cons c cs =>
    rw [chars] at absolute
    obtain rfl : c = '/' := by simpa using absolute
    refine ⟨String.ofList cs, String.toList_inj.mp ?_⟩
    simp [chars]

end Text.Path

namespace Sandbox

open Text.Path (isAbsolute split join weight)

variable {s : Sandbox} {path inner : String} {parts kept after names full : List String}

private theorem weight_walk_le (walked : walk kept parts = some after) :
    weight after ≤ weight kept + weight parts ∧
      (weight after = weight kept + weight parts → after = parts.reverse ++ kept) := by
  induction parts generalizing kept with
  | nil =>
    cases walked
    exact ⟨Nat.le_refl _, fun _ => rfl⟩
  | cons part rest ih =>
    simp only [walk] at walked
    rw [weight]
    split at walked
    · have shorter := (ih walked).1
      exact ⟨by omega, fun same => by omega⟩
    · split at walked
      · cases kept with
        | nil => cases walked
        | cons last kept =>
          have shorter := (ih walked).1
          rw [weight]
          exact ⟨by omega, fun same => by omega⟩
      · obtain ⟨shorter, whole⟩ := ih walked
        rw [weight] at shorter whole
        refine ⟨by omega, fun same => ?_⟩
        rw [whole (by omega), List.reverse_cons, List.append_assoc, List.singleton_append]

private theorem length_renderPath (ne : parts ≠ []) : (renderPath parts).length = weight parts := by
  have slash : ("/" : String).length = 1 := rfl
  rw [← Text.Path.length_join ne, renderPath, String.length_append, slash, Nat.add_comm]

theorem length_renderPath_le (absolute : isAbsolute path = true)
    (found : s.components? path = some parts) :
    (renderPath parts).length ≤ path.length ∧
      ((renderPath parts).length = path.length → renderPath parts = path) := by
  obtain ⟨rest, rfl⟩ := Text.Path.exists_of_isAbsolute absolute
  have slash : ("/" : String).length = 1 := rfl
  have long : ("/" ++ rest).length = weight (split rest) := by
    rw [Text.Path.weight_split, String.length_append, slash, Nat.add_comm]
  rw [components?, fullPath, if_pos absolute, Text.Path.split_slash_append] at found
  obtain ⟨after, walked, rfl⟩ := Option.map_eq_some_iff.mp found
  have walked : walk [] (split rest) = some after := walked
  obtain ⟨shorter, whole⟩ := weight_walk_le walked
  have heavy : weight after.reverse = weight after :=
    Text.Path.weight_perm (List.reverse_perm after)
  have nothing : weight ([] : List String) = 0 := rfl
  by_cases top : after = []
  · subst top
    have alone : renderPath [] = "/" := rfl
    rw [List.reverse_nil, alone, String.length_append]
    refine ⟨by omega, fun same => ?_⟩
    have none : rest = "" := String.length_eq_zero_iff.mp (by omega)
    rw [none, String.append_empty]
  · rw [length_renderPath (by simpa using top), long, heavy]
    refine ⟨by omega, fun same => ?_⟩
    rw [whole (by omega), List.append_nil, List.reverse_reverse, renderPath,
      Text.Path.join_split]

def directory : List String → String
  | [] => "/"
  | part :: rest => "/" ++ part ++ directory rest

theorem exists_of_directory (parts : List String) : ∃ rest, directory parts = "/" ++ rest := by
  cases parts with
  | nil => exact ⟨"", rfl⟩
  | cons part rest => exact ⟨part ++ directory rest, by rw [directory, String.append_assoc]⟩

private theorem renderPath_cons (part : String) (ne : parts ≠ []) :
    renderPath (part :: parts) = "/" ++ part ++ renderPath parts := by
  obtain ⟨next, rest, rfl⟩ := List.exists_cons_of_ne_nil ne
  rw [renderPath, renderPath, Text.Path.join_cons]
  simp only [String.append_assoc]

theorem directory_eq (parts : List String) :
    directory parts = renderPath parts ++ if parts = [] then "" else "/" := by
  induction parts with
  | nil => rfl
  | cons part rest ih =>
    rw [directory, ih, if_neg (List.cons_ne_nil part rest)]
    by_cases last : rest = []
    · subst last
      have alone : renderPath [part] = "/" ++ part := by simp [renderPath, join]
      have top : renderPath [] = "/" := rfl
      rw [alone, top, if_pos rfl, String.append_empty]
    · rw [renderPath_cons part last, if_neg last]
      simp only [String.append_assoc]

theorem directory_ends (parts : List String) : ∃ front, directory parts = front ++ "/" := by
  rw [directory_eq]
  by_cases top : parts = []
  · exact ⟨"", by rw [top]; rfl⟩
  · exact ⟨renderPath parts, by rw [if_neg top]⟩

theorem renderPath_append (parts : List String) (ne : names ≠ []) :
    renderPath (parts ++ names) = directory parts ++ join names := by
  induction parts with
  | nil => rfl
  | cons part rest ih =>
    rw [List.cons_append, renderPath_cons part (by simp [ne]), ih, directory]
    simp only [String.append_assoc]

theorem renderPath_concat (parts : List String) (name : String) :
    renderPath (parts ++ [name]) = directory parts ++ name := by
  rw [renderPath_append parts (List.cons_ne_nil name []), Text.Path.join_singleton]

private theorem split_directory (proper : ∀ part ∈ parts, Proper part) (inner : String) :
    split (directory parts ++ inner) = "" :: (parts ++ split inner) := by
  induction parts with
  | nil => exact Text.Path.split_slash_append inner
  | cons part rest ih =>
    obtain ⟨first, others⟩ := List.forall_mem_cons.mp proper
    obtain ⟨back, whole⟩ := exists_of_directory rest
    have cut : split (back ++ inner) = rest ++ split inner := by
      have after := ih others
      rw [whole, String.append_assoc, Text.Path.split_slash_append] at after
      exact List.tail_eq_of_cons_eq after
    have long : directory (part :: rest) ++ inner = "/" ++ part ++ "/" ++ (back ++ inner) := by
      rw [directory, whole]
      simp only [String.append_assoc]
    rw [long, Text.Path.split_append, cut, Text.Path.split_slash_append,
      Text.Path.split_of_noSlash first.noSlash]
    rfl

theorem names_of_renderPath_eq (proper : ∀ part ∈ parts, Proper part)
    (properFull : ∀ part ∈ full, Proper part) (ne : inner ≠ "")
    (same : renderPath full = directory parts ++ inner) :
    ∃ names, names ≠ [] ∧ full = parts ++ names ∧ inner = join names := by
  have cut := congrArg split same
  rw [split_directory proper, renderPath, Text.Path.split_slash_append] at cut
  have cut : split (join full) = parts ++ split inner := List.tail_eq_of_cons_eq cut
  have some : full ≠ [] := by
    rintro rfl
    have short := congrArg String.length same
    obtain ⟨rest, whole⟩ := exists_of_directory parts
    have top : renderPath [] = "/" := rfl
    rw [top, whole, String.length_append, String.length_append] at short
    exact ne (String.length_eq_zero_iff.mp (by omega))
  rw [Text.Path.split_join some fun part mem => (properFull part mem).noSlash] at cut
  refine ⟨split inner, ?_, cut, (Text.Path.join_split inner).symm⟩
  simp [split, Text.pieces_ne_nil]

end Sandbox

end ProofHost
