import ProofHost.Proofs.Host.Listing
import ProofHost.Proofs.Sandbox.Agreement

/-!
Calls of a sandbox that starts empty, and the map from virtual paths to contents that their answers
tell. Whatever is called, the files on the host are those of the map.
-/

set_option autoImplicit false

namespace ProofHost

namespace Sandbox

open Text.Path (split join below)

variable {s t : Sandbox} {h h' : Host} {path : String} {parts names place : List String}
  {content : Bytes}

structure Empty (s : Sandbox) (h : Host) : Prop where
  stands : s.Stands h
  nothing : h.node? (s.base h) = some (.directory [])

inductive Call where
  | put (path : String) (content : Bytes)
  | get (path : String)
  | holds (path : String)
  | remove (path : String)
  | list (dir : String)

def after (s : Sandbox) (h : Host) : Call → Host
  | .put path content => (s.put h path content).2
  | .remove path => (s.remove h path).2
  | _ => h

abbrev FileMap := String → Option Bytes

def recorded (s : Sandbox) (h : Host) (m : FileMap) : Call → FileMap
  | .put path content =>
    match (s.put h path content).1 with
    | .ok v => fun w => if w = v then some content else m w
    | .error _ => m
  | .remove path =>
    match (s.remove h path).1, s.virtualPath path with
    | .ok true, .ok v => fun w => if w = v then none else m w
    | _, _ => m
  | _ => m

/-- A host after calls of a sandbox, each with a library root of its own, and the map that their
answers tell. -/
inductive Served (s : Sandbox) (start : Host) : Host → FileMap → Prop
  | start : Served s start start fun _ => none
  | call {h : Host} {m : FileMap} (served : Served s start h m) (t : Sandbox)
    (same : t.root = s.root) (c : Call) : Served s start (t.after h c) (t.recorded h m c)

structure Mirrors (s : Sandbox) (h : Host) (m : FileMap) : Prop where
  stands : s.Stands h
  distinct : h.DistinctAt (s.base h)
  usable : ∀ parts, (h.fileAt (s.base h ++ parts)).isSome = true →
    (∀ part ∈ parts, Proper part) ∧ s.Fits parts
  files : ∀ parts, (∀ part ∈ parts, Proper part) →
    m (renderPath parts) = h.fileAt (s.base h ++ parts)
  paths : ∀ v, (m v).isSome = true → ∃ parts, (∀ part ∈ parts, Proper part) ∧ v = renderPath parts

variable {m : FileMap}

theorem Mirrors.of_root (mirrors : s.Mirrors h m) (same : t.root = s.root) : t.Mirrors h m := by
  obtain ⟨root, libRoot⟩ := s
  obtain ⟨root', libRoot'⟩ := t
  obtain rfl : root' = root := same
  exact ⟨mirrors.stands.of_root rfl, mirrors.distinct,
    fun parts isFile => ⟨(mirrors.usable parts isFile).1,
      (mirrors.usable parts isFile).2.checked, (mirrors.usable parts isFile).2.short⟩,
    mirrors.files, mirrors.paths⟩

theorem fileAt_of_directory {entries : List (String × Node)}
    (inside : h.node? place = some (.directory entries)) (names : List String) :
    h.fileAt (place ++ names) = (Node.directory entries).fileAt names := by
  have found : h.root.find? place = some (.directory entries) := inside
  rw [Host.fileAt, Node.fileAt, Node.find?_append, found]
  rfl

private theorem mirrors_of_empty (empty : s.Empty h) : s.Mirrors h fun _ => none := by
  have nothing (parts : List String) : h.fileAt (s.base h ++ parts) = none := by
    rw [fileAt_of_directory empty.nothing]
    cases parts <;> rfl
  refine ⟨empty.stands, ?_, ?_, fun parts _ => (nothing parts).symm, nofun⟩
  · intro inner found
    cases found.symm.trans empty.nothing
    exact Node.distinct_empty
  · intro parts isFile
    rw [nothing] at isFile
    cases isFile

private theorem distinctAt_makeAlong (proper : ∀ part ∈ parts, Proper part)
    (distinct : h.DistinctAt place)
    (above : List String) : (h.makeAlong (place ++ above) parts).2.DistinctAt place := by
  induction parts generalizing h above with
  | nil => exact distinct
  | cons part rest ih =>
    obtain ⟨first, others⟩ := List.forall_mem_cons.mp proper
    rw [Host.makeAlong]
    cases step : h.step (place ++ above) part with
    | error e => exact distinct
    | ok after =>
      obtain rfl : after = place ++ (above ++ [part]) := by
        rw [(Host.step_cases step).1, Host.turn, if_neg first.notDot, if_neg first.notDots,
          List.append_assoc]
      have made := Host.distinctAt_set distinct Node.distinct_empty (List.concat_ne_nil part above)
      simp only
      split
      · exact ih others distinct (above ++ [part])
      · exact distinct
      · exact ih others made (above ++ [part])

private theorem distinctAt_put (stands : s.Stands h) (found : s.components? path = some parts)
    (distinct : h.DistinctAt (s.base h)) : (s.put h path content).2.DistinctAt (s.base h) := by
  have front : ∀ part ∈ parts.dropLast, Proper part := fun part there =>
    proper_of_components found part (List.dropLast_subset _ there)
  have along := distinctAt_makeAlong front distinct []
  rw [List.append_nil] at along
  rcases put_host_cases content stands found with
    same | made | ⟨h', made, -, checked, -, wrote⟩
  · rw [same]
    exact distinct
  · rw [made]
    exact along
  · obtain ⟨front, last, isLast⟩ := eq_concat_of_writeCheck checked
    have ne : parts ≠ [] := by simp [isLast]
    rw [made] at along
    rw [wrote]
    exact Host.distinctAt_set along (.file content) ne

private theorem Mirrors.replaced {value : Option Bytes} (mirrors : s.Mirrors h m)
    (proper : ∀ part ∈ parts, Proper part) (fits : value.isSome = true → s.Fits parts)
    (replaced : h.Replaced (s.base h ++ parts) value h') (distinct : h'.DistinctAt (s.base h)) :
    s.Mirrors h' fun w => if w = renderPath parts then value else m w := by
  have base : s.base h' = s.base h := base_of_workDir replaced.workDir
  have fileAt (other : List String) : h'.fileAt (s.base h ++ other) =
      if other = parts then value else h.fileAt (s.base h ++ other) := by
    split
    · rename_i same
      rw [same, replaced.here]
    · rename_i ne
      exact replaced.elsewhere _ fun same => ne (List.append_cancel_left same)
  refine ⟨mirrors.stands.mono replaced.workDir replaced.directories, base ▸ distinct, ?_, ?_, ?_⟩
  · intro other isFile
    rw [base, fileAt] at isFile
    split at isFile
    · rename_i same
      exact same ▸ ⟨proper, fits isFile⟩
    · exact mirrors.usable other isFile
  · intro other isProper
    rw [base, fileAt]
    by_cases same : other = parts
    · rw [if_pos same, if_pos (by rw [same])]
    · rw [if_neg same, if_neg fun rendered => same (renderPath_inj isProper proper rendered)]
      exact mirrors.files other isProper
  · intro v isFile
    split at isFile
    · rename_i same
      exact ⟨parts, proper, same⟩
    · exact mirrors.paths v isFile

private theorem Mirrors.sameFiles (mirrors : s.Mirrors h m) (same : h.SameFiles h')
    (distinct : h'.DistinctAt (s.base h)) : s.Mirrors h' m := by
  have base : s.base h' = s.base h := base_of_workDir same.workDir
  refine ⟨mirrors.stands.mono same.workDir same.directories, base ▸ distinct, ?_, ?_, mirrors.paths⟩
  · intro parts isFile
    rw [base, same.files] at isFile
    exact mirrors.usable parts isFile
  · intro parts proper
    rw [base, same.files]
    exact mirrors.files parts proper

private theorem Mirrors.put (mirrors : s.Mirrors h m) (path : String) (content : Bytes) :
    s.Mirrors (s.put h path content).2 (s.recorded h m (.put path content)) := by
  have distinct : (s.put h path content).2.DistinctAt (s.base h) := by
    cases found : s.components? path with
    | none =>
      rw [put_of_escape found]
      exact mirrors.distinct
    | some parts => exact distinctAt_put mirrors.stands found mirrors.distinct
  unfold recorded
  rcases put_cases s h path content with ⟨e, failed, same⟩ | ⟨parts, found, fits, done, replaced⟩
  · simp only [failed]
    exact mirrors.sameFiles same distinct
  · simp only [done]
    exact mirrors.replaced (proper_of_components found) (fun _ => fits) replaced distinct

theorem Mirrors.remove_iff (mirrors : s.Mirrors h m) (found : s.components? path = some parts) :
    (∃ h', h.remove (below s.root (join parts)) = .ok h') ↔ (m (renderPath parts)).isSome = true := by
  have proper := proper_of_components found
  rw [Host.remove_isOk_iff, mirrors.files parts proper, Option.isSome_iff_exists]
  constructor
  · rintro ⟨content, isFile⟩
    exact ⟨content, ((stat_below_iff mirrors.stands proper).mp isFile).2⟩
  · rintro ⟨content, there⟩
    have fits := (mirrors.usable parts (by rw [there]; rfl)).2
    exact ⟨content, (stat_below_iff mirrors.stands proper).mpr ⟨fits, there⟩⟩

theorem remove_of_escape (escapes : s.components? path = none) :
    s.remove h path = (.error (.escape path), h) := by
  unfold remove resolve virtualPath
  rw [escapes]
  rfl

theorem remove_of_removed (found : s.components? path = some parts)
    (removed : h.remove (below s.root (join parts)) = .ok h') : s.remove h path = (.ok true, h') := by
  unfold remove
  simp only [resolve_of_components found, removed]

private theorem Mirrors.remove (mirrors : s.Mirrors h m) (path : String) :
    s.Mirrors (s.remove h path).2 (s.recorded h m (.remove path)) := by
  unfold recorded
  cases found : s.components? path with
  | none =>
    simp only [remove_of_escape found]
    exact mirrors
  | some parts =>
    have proper := proper_of_components found
    rcases remove_cases h found with ⟨e, failed⟩ | ⟨-, nothing⟩ | ⟨h', removed, done⟩
    · simp only [failed]
      exact mirrors
    · simp only [nothing]
      exact mirrors
    · have isPlace : h.placeOf (below s.root (join parts)) = s.base h ++ parts :=
        placeOf_below h s.root proper
      have replaced := Host.replaced_remove removed
      have ne : parts ≠ [] := by
        rintro rfl
        have isFile := (mirrors.remove_iff found).mp ⟨h', removed⟩
        obtain ⟨entries, inside⟩ := mirrors.stands.directory
        rw [mirrors.files [] proper, fileAt_of_directory inside] at isFile
        cases isFile
      have distinct : h'.DistinctAt (s.base h) := by
        rw [Host.remove_eq removed, isPlace]
        exact Host.distinctAt_erase mirrors.distinct ne
      rw [isPlace] at replaced
      simp only [done, virtualPath_of_components found]
      exact mirrors.replaced proper nofun replaced distinct

private theorem Mirrors.call (mirrors : s.Mirrors h m) (c : Call) :
    s.Mirrors (s.after h c) (s.recorded h m c) := by
  cases c with
  | put path content => exact mirrors.put path content
  | remove path => exact mirrors.remove path
  | get path => exact mirrors
  | holds path => exact mirrors
  | list dir => exact mirrors

theorem mirrors_of_served {start : Host} (empty : s.Empty start) (served : Served s start h m) :
    s.Mirrors h m := by
  induction served with
  | start => exact mirrors_of_empty empty
  | call served t same c ih => exact ((ih.of_root same).call c).of_root same.symm

end Sandbox

end ProofHost
