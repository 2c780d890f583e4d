import Mathlib.Data.List.Forall2
import ProofHost.Proofs.Sandbox.Agreement

/-!
Files that are put one after another, and put once more. A file that has been put can be put again
at any later time, since it is there with its directories; and each path ends with what is put there
last, whatever it held before.
-/

set_option autoImplicit false

namespace ProofHost

namespace Sandbox

open Text.Path (join below parent?)

variable {s : Sandbox} {h h' k : Host} {path v : String} {parts place : List String}
  {content : Bytes}

private theorem stands_of_put (done : s.put h path content = (.ok v, h')) : s.Stands h' := by
  obtain ⟨parts, made, found, -, -, written⟩ := write_of_put done
  have proper := proper_of_components found
  obtain ⟨-, follow, -, wants⟩ := Host.stat_file_iff.mp (Host.stat_write written)
  rw [follow_below s h' proper] at follow
  obtain ⟨top, toTop, onward⟩ := Host.exists_of_bind_ok follow
  obtain rfl : top = s.base h' := Host.follow_eq toTop
  cases parts with
  | nil => cases (wantsDirectory_below_nil s.root).symm.trans wants
  | cons part rest => exact ⟨toTop, Host.directoryAt_of_follow onward⟩

private theorem parentCheck_of_makeParent (made : makeParent h path = (.ok (), h')) :
    parentCheck path = .ok () := by
  unfold makeParent at made
  unfold parentCheck
  cases above : parent? path with
  | none => rfl
  | some dir =>
    rw [above] at made
    simp only at made ⊢
    split
    · rfl
    · rename_i notEmpty
      unfold Host.makeDirs at made
      rw [if_neg notEmpty] at made
      cases checked : Host.checkPath dir with
      | error e =>
        rw [checked] at made
        cases made
      | ok u => rfl

private theorem writeCheck_of_fits (fits : s.Fits parts) (ne : parts ≠ []) :
    writeCheck s.root parts = .ok () := by
  obtain ⟨front, last, isLast⟩ := List.eq_nil_or_concat parts |>.resolve_left ne
  rw [List.concat_eq_append] at isLast
  have short : last.utf8ByteSize ≤ Host.maxName := fits.short last (by simp [isLast])
  have ends : parts.getLast? = some last := by rw [isLast, List.getLast?_concat]
  unfold writeCheck
  rw [fits.checked, ends]
  exact if_neg (Nat.not_lt.mpr short)

private theorem makeAlong_above_file (stands : s.Stands h) (proper : ∀ part ∈ parts, Proper part)
    (short : ∀ part ∈ parts, part.utf8ByteSize ≤ Host.maxName)
    (there : h.fileAt (s.base h ++ parts) = some content) :
    h.makeAlong (s.base h) parts.dropLast = (.ok (), h) := by
  have way := follow_to stands.directory proper short (Node.fileAt_eq_some_iff.mp there)
  rcases List.eq_nil_or_concat parts with rfl | ⟨front, last, rfl⟩
  · rfl
  · rw [List.concat_eq_append, Host.follow_append] at way
    obtain ⟨middle, reached, onward⟩ := Host.exists_of_bind_ok way
    have made := Host.makeAlong_followed reached (Host.directoryAt_of_follow onward) []
    rw [List.append_nil] at made
    rw [List.concat_eq_append, List.dropLast_concat, made]
    rfl

private theorem put_again (done : s.put h path content = (.ok v, h')) (keeps : h'.Keeps k)
    (content' : Bytes) : (s.put k path content').1 = .ok v := by
  obtain ⟨parts, made, found, rfl, parent, written⟩ := write_of_put done
  have proper := proper_of_components found
  have stands := stands_of_put done
  have stands' := stands.mono keeps.workDir keeps.directories
  obtain ⟨fits, there⟩ := (stat_below_iff stands proper).mp (Host.stat_write written)
  obtain ⟨old, there'⟩ : ∃ old, k.fileAt (s.base k ++ parts) = some old := by
    rw [base_of_workDir keeps.workDir]
    exact Option.isSome_iff_exists.mp (keeps.files _ (by rw [there]; rfl))
  have noDirectory : k.seen (s.base k ++ parts) ≠ some none := by
    intro directory
    obtain ⟨entries, inside⟩ := Host.seen_eq_directory_iff.mp directory
    cases (Node.fileAt_eq_some_iff.mp there').symm.trans inside
  have ne : parts ≠ [] := by
    rintro rfl
    rw [List.append_nil] at noDirectory
    exact noDirectory (Host.seen_eq_directory_iff.mpr stands'.directory)
  rw [put_eq stands' found, parentCheck_of_makeParent parent,
    makeAlong_above_file stands' proper fits.short there', writeCheck_of_fits fits ne]
  simp only [if_neg noDirectory]

/-- Files that are put one after another: what is put at which paths, and at which virtual paths it
is then. -/
inductive Puts (s : Sandbox) : Host → List (String × Bytes) → List (String × Bytes) → Host → Prop
  | nil (h : Host) : Puts s h [] [] h
  | cons {h h' k : Host} {path v : String} {content : Bytes} {files writes : List (String × Bytes)}
    (first : s.put h path content = (.ok v, h')) (later : Puts s h' files writes k) :
    Puts s h ((path, content) :: files) ((v, content) :: writes) k

def lastWritten (writes : List (String × Bytes)) (path : String) : Option Bytes :=
  writes.reverse.lookup path

def placeOf? (s : Sandbox) (h : Host) (path : String) : Option (List String) :=
  (s.components? path).map (s.base h ++ ·)

variable {files writes : List (String × Bytes)}

private theorem lastWritten_cons (v : String) (content : Bytes) (writes : List (String × Bytes))
    (path : String) :
    lastWritten ((v, content) :: writes) path =
      (lastWritten writes path).or (if path = v then some content else none) := by
  rw [lastWritten, List.reverse_cons, List.lookup_append, List.lookup_cons]
  by_cases same : path = v
  · simp [same, lastWritten]
  · have differs : (path == v) = false := by simpa using same
    simp [same, differs, lastWritten]

theorem exists_lastWritten (there : path ∈ writes.map Prod.fst) :
    ∃ content, lastWritten writes path = some content := by
  induction writes with
  | nil => cases there
  | cons write writes ih =>
    obtain ⟨v, content⟩ := write
    rw [lastWritten_cons]
    rcases List.mem_cons.mp there with rfl | later
    · cases lastWritten writes path <;> simp
    · obtain ⟨last, isLast⟩ := ih later
      exact ⟨last, by rw [isLast]; rfl⟩

theorem puts_cons_iff :
    s.Puts h ((path, content) :: files) writes k ↔
      ∃ v h' rest, s.put h path content = (.ok v, h') ∧ writes = (v, content) :: rest ∧
        s.Puts h' files rest k := by
  constructor
  · rintro (_ | ⟨first, later⟩)
    exact ⟨_, _, _, first, rfl, later⟩
  · rintro ⟨v, h', rest, first, rfl, later⟩
    exact .cons first later

theorem Puts.keeps (puts : s.Puts h files writes h') : h.Keeps h' := by
  induction puts with
  | nil h => exact .refl h
  | @cons h h' k path v content files writes first later ih =>
    have kept := keeps_put s h path content
    rw [first] at kept
    exact kept.trans ih

theorem Puts.again (puts : s.Puts h files writes h') (keeps : h'.Keeps k) :
    ∃ k', s.Puts k files writes k' := by
  induction puts generalizing k with
  | nil h => exact ⟨k, .nil k⟩
  | @cons h h' h'' path v content files writes first later ih =>
    have kept := keeps_put s k path content
    have done := put_again first (later.keeps.trans keeps) content
    obtain ⟨k', rest⟩ := ih (keeps.trans kept)
    exact ⟨k', .cons (Prod.ext done rfl) rest⟩

private theorem Puts.fileAt (puts : s.Puts h files writes h')
    (proper : ∀ part ∈ parts, Proper part) :
    h'.fileAt (s.base h ++ parts) =
      (lastWritten writes (renderPath parts)).or (h.fileAt (s.base h ++ parts)) := by
  induction puts with
  | nil h => rfl
  | @cons h h' k path v content files writes first later ih =>
    rcases put_cases s h path content with ⟨e, failed, -⟩ | ⟨parts', found, -, done, replaced⟩
    · rw [first] at failed
      cases failed
    · rw [first] at done replaced
      cases done
      rw [base_of_workDir replaced.workDir] at ih
      rw [ih, lastWritten_cons, Option.or_assoc]
      congr 1
      by_cases same : parts = parts'
      · rw [same, replaced.here, if_pos rfl]
        rfl
      · have elsewhere : s.base h ++ parts ≠ s.base h ++ parts' :=
          fun both => same (List.append_cancel_left both)
        have other : renderPath parts ≠ renderPath parts' :=
          fun both => same (renderPath_inj proper (proper_of_components found) both)
        rw [replaced.elsewhere _ elsewhere, if_neg other]
        rfl

theorem Puts.written_of_changed (puts : s.Puts h files writes h')
    (changed : h'.fileAt place ≠ h.fileAt place) :
    ∃ path ∈ writes.map Prod.fst, s.placeOf? h path = some place := by
  induction puts with
  | nil h => exact absurd rfl changed
  | @cons h h' k path v content files writes first later ih =>
    rcases put_cases s h path content with ⟨e, failed, -⟩ | ⟨parts, found, -, done, replaced⟩
    · rw [first] at failed
      cases failed
    · rw [first] at done replaced
      cases done
      by_cases here : place = s.base h ++ parts
      · refine ⟨renderPath parts, List.mem_cons_self, ?_⟩
        rw [placeOf?, components?_renderPath (proper_of_components found), here]
        rfl
      · rw [← replaced.elsewhere place here] at changed
        obtain ⟨other, there, isPlace⟩ := ih changed
        rw [placeOf?, base_of_workDir replaced.workDir] at isPlace
        exact ⟨other, List.mem_cons_of_mem _ there, isPlace⟩

theorem Puts.forall₂ (puts : s.Puts h files writes h') :
    List.Forall₂ (fun file write => s.virtualPath file.1 = .ok write.1 ∧ write.2 = file.2)
      files writes := by
  induction puts with
  | nil h => exact .nil
  | @cons h h' k path v content files writes first later ih =>
    obtain ⟨parts, -, found, rfl, -⟩ := write_of_put first
    exact .cons ⟨virtualPath_of_components found, rfl⟩ ih

private theorem Puts.usable (puts : s.Puts h files writes h') (there : path ∈ writes.map Prod.fst) :
    s.Stands h' ∧ ∃ parts, s.components? path = some parts ∧ path = renderPath parts ∧
      s.Fits parts := by
  induction puts with
  | nil h => cases there
  | @cons h h' k path v content files writes first later ih =>
    rcases List.mem_cons.mp there with rfl | later'
    · obtain ⟨parts, made, found, rfl, -, written⟩ := write_of_put first
      have proper := proper_of_components found
      have stands := stands_of_put first
      obtain ⟨fits, -⟩ := (stat_below_iff stands proper).mp (Host.stat_write written)
      exact ⟨stands.mono later.keeps.workDir later.keeps.directories, parts,
        components?_renderPath proper, rfl, fits⟩
    · exact ih later'

theorem Puts.get (puts : s.Puts h files writes h') (there : path ∈ writes.map Prod.fst) :
    s.get h' path = .ok (lastWritten writes path) := by
  obtain ⟨stands, parts, found, rfl, fits⟩ := puts.usable there
  obtain ⟨content, last⟩ := exists_lastWritten there
  have file := puts.fileAt (proper_of_components found)
  rw [last, Option.some_or, ← base_of_workDir puts.keeps.workDir] at file
  rw [get_eq_ok_iff stands found, last, file]
  exact fun _ => ⟨fun same => ⟨fits, same⟩, And.right⟩

theorem Puts.fileAt_again {files' : List (String × Bytes)} (puts : s.Puts h files writes h')
    (again : s.Puts h' files' writes k) (place : List String) :
    k.fileAt place = h'.fileAt place := by
  by_contra changed
  obtain ⟨path, there, isPlace⟩ := again.written_of_changed changed
  obtain ⟨parts, found, rfl⟩ := Option.map_eq_some_iff.mp isPlace
  obtain ⟨-, parts', found', rfl, -⟩ := puts.usable there
  cases found.symm.trans found'
  obtain ⟨content, last⟩ := exists_lastWritten there
  have proper := proper_of_components found
  have before := puts.fileAt proper
  have after := again.fileAt proper
  rw [last, Option.some_or] at before after
  rw [base_of_workDir puts.keeps.workDir] at changed after
  exact changed (after.trans before.symm)

end Sandbox

end ProofHost
