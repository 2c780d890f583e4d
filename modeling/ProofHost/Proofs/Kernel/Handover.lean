import Mathlib.Control.Monad.Basic
import ProofHost.Kernel.Child
import ProofHost.Proofs.Sandbox.Contents
import ProofHost.Proofs.Sandbox.Placement

/-!
The paths that are handed to a program beside the host. The host follows them from its own directory
and the program from the directory of the sandbox, so they lead both to the same files only if the
root of the sandbox is absolute or leads from the sandbox back to it; and a list of paths that are
joined by colons is read again only if no path has a colon itself.
-/

set_option autoImplicit false

namespace ProofHost

namespace Text

private theorem length_pieces (p : Char → Bool) (cs : List Char) :
    (pieces p cs).length = cs.countP p + 1 := by
  induction cs with
  | nil => rfl
  | cons c cs ih =>
    simp only [pieces]
    by_cases cut : p c = true
    · rw [if_pos cut, List.length_cons, ih, List.countP_cons_of_pos cut]
    · rw [if_neg cut, List.countP_cons_of_neg cut]
      cases rest : pieces p cs with
      | nil => exact absurd rest (pieces_ne_nil p cs)
      | cons w ws =>
        rw [rest] at ih
        exact ih

private theorem intercalate_cons (separator text next : String) (rest : List String) :
    separator.intercalate (text :: next :: rest) =
      text ++ separator ++ separator.intercalate (next :: rest) := by
  apply String.toList_inj.mp
  simp [String.toList_intercalate]

end Text

/-- The paths that a variable holds, separated by colons; an empty text holds none. -/
def Environment.pathList (value : String) : List String :=
  if value.isEmpty then [] else (Text.pieces (· == ':') value.toList).map String.ofList

namespace Environment

variable {texts : List String}

private theorem pathList_eq_flatMap (ne : texts ≠ []) (nonempty : ∀ text ∈ texts, text ≠ "") :
    pathList (":".intercalate texts) =
      (texts.flatMap fun text => Text.pieces (· == ':') text.toList).map String.ofList := by
  have notEmpty : ¬ (":".intercalate texts).isEmpty = true := by
    intro empty
    obtain ⟨text, rest, rfl⟩ := List.exists_cons_of_ne_nil ne
    have none := String.isEmpty_iff.mp empty
    refine nonempty text List.mem_cons_self (String.toList_eq_nil_iff.mp ?_)
    have chars : (":".intercalate (text :: rest)).toList = [] := by rw [none]; rfl
    cases rest with
    | nil => simpa [String.toList_intercalate] using chars
    | cons next rest =>
      rw [Text.intercalate_cons, String.toList_append, String.toList_append] at chars
      exact (List.append_eq_nil_iff.mp (List.append_eq_nil_iff.mp chars).1).1
  have colon : (":" : String).toList = [':'] := by simp
  rw [pathList, if_neg notEmpty, String.toList_intercalate, colon,
    Text.pieces_intercalate (by simpa using ne), List.flatMap_map]

private theorem pathList_intercalate (nonempty : ∀ text ∈ texts, text ≠ "")
    (noColon : ∀ text ∈ texts, ':' ∉ text.toList) : pathList (":".intercalate texts) = texts := by
  by_cases none : texts = []
  · subst none
    rfl
  · have whole (text : String) (mem : text ∈ texts) :
        Text.pieces (· == ':') text.toList = [text.toList] := by
      apply Text.pieces_of_forall
      intro c inside
      have ne : c ≠ ':' := fun same => noColon text mem (same ▸ inside)
      simpa using ne
    rw [pathList_eq_flatMap none nonempty, List.flatMap_def, List.map_congr_left whole,
      ← List.flatMap_def, ← List.map_eq_flatMap, List.map_map]
    have same : String.ofList ∘ String.toList = id := funext fun text => String.ofList_toList
    rw [same, List.map_id]

private theorem length_pathList (ne : texts ≠ []) (nonempty : ∀ text ∈ texts, text ≠ "") :
    (pathList (":".intercalate texts)).length =
      texts.length + (texts.flatMap String.toList).countP (· == ':') := by
  have counted (texts : List String) :
      (texts.flatMap fun text => Text.pieces (· == ':') text.toList).length =
        texts.length + (texts.flatMap String.toList).countP (· == ':') := by
    induction texts with
    | nil => rfl
    | cons text texts ih =>
      rw [List.flatMap_cons, List.flatMap_cons, List.length_append, List.countP_append, ih,
        Text.length_pieces, List.length_cons]
      omega
  rw [pathList_eq_flatMap ne nonempty, List.length_map, counted]

end Environment

namespace Host

variable {h k : Host} {path : String}

private theorem follow_moved (h : Host) (dir place names : List String) :
    ({ h with workDir := dir } : Host).follow place names = h.follow place names := by
  induction names generalizing place with
  | nil => rfl
  | cons name rest ih =>
    rw [follow_cons, follow_cons]
    have same : ({ h with workDir := dir } : Host).step place name = h.step place name := rfl
    rw [same]
    exact congrArg (Except.bind (h.step place name)) (funext ih)

private theorem locate_of_follow (tree : k.root = h.root)
    (way : k.follow (k.origin path) (names path) = h.follow (h.origin path) (names path)) :
    k.locate path = h.locate path := by
  unfold locate node?
  rw [way, tree]

private theorem follow_of_locate {r : List String × Option Node} (found : h.locate path = .ok r) :
    h.follow (h.origin path) (names path) = .ok r.1 := by
  obtain ⟨⟨⟩, -, found⟩ := exists_of_bind_ok found
  obtain ⟨reached, follow, found⟩ := exists_of_bind_ok found
  have same : reached = r.1 := by
    cases there : h.node? reached with
    | none =>
      rw [there] at found
      exact congrArg Prod.fst (Except.ok.inj found)
    | some node =>
      rw [there] at found
      cases node with
      | directory entries => exact congrArg Prod.fst (Except.ok.inj found)
      | file content =>
        cases wants : wantsDirectory path with
        | true => simp [wants] at found
        | false =>
          simp only [wants] at found
          exact congrArg Prod.fst (Except.ok.inj found)
  rw [follow, same]

private theorem exists_locate_of_isFile (file : h.isFile path = true) :
    path ≠ "" ∧ ∃ r, h.locate path = .ok r := by
  unfold isFile at file
  cases found : h.stat path with
  | error e =>
    rw [found] at file
    cases file
  | ok node =>
    obtain ⟨r, located, -⟩ := exists_of_bind_ok found
    obtain ⟨⟨⟩, checked, -⟩ := exists_of_bind_ok located
    refine ⟨?_, r, located⟩
    rintro rfl
    cases checked

end Host

namespace Sandbox

open Text.Path (join below isAbsolute)

variable {s : Sandbox} {h h' : Host} {path host v : String} {parts : List String} {content : Bytes}

/-- The host as a program sees it whose directory is that of the sandbox. -/
def within (s : Sandbox) (h : Host) : Host := { h with workDir := s.base h }

def LeadsBack (s : Sandbox) (h : Host) : Prop :=
  isAbsolute s.root = true ∨ h.follow (s.base h) (Host.names s.root) = .ok (s.base h)

/-- A path of the sandbox leads a program in the sandbox to the same place exactly if the root leads
back. -/
private theorem locate_within_iff (proper : ∀ part ∈ parts, Proper part)
    {r : List String × Option Node}
    (found : h.locate (below s.root (join parts)) = .ok r) :
    (s.within h).locate (below s.root (join parts)) = h.locate (below s.root (join parts)) ↔
      s.LeadsBack h := by
  have way := Host.follow_of_locate found
  rw [follow_below s h proper] at way
  obtain ⟨top, toTop, onward⟩ := Host.exists_of_bind_ok way
  obtain rfl : top = s.base h := Host.follow_eq toTop
  have moved := follow_below s (s.within h) proper
  have followed (place names : List String) : (s.within h).follow place names = h.follow place names :=
    Host.follow_moved h (s.base h) place names
  by_cases absolute : isAbsolute s.root = true
  · refine iff_of_true (Host.locate_of_follow rfl ?_) (Or.inl absolute)
    have origin : (s.within h).origin s.root = h.origin s.root := by
      rw [Host.origin, Host.origin, if_pos absolute, if_pos absolute]
    rw [moved, follow_below s h proper, origin, followed, toTop]
    exact followed (s.base h) parts
  · have origin : (s.within h).origin s.root = s.base h := by
      rw [Host.origin, if_neg absolute]
      rfl
    constructor
    · intro same
      have way' := Host.follow_of_locate (same.trans found)
      rw [moved, origin, followed] at way'
      obtain ⟨top, toTop', onward'⟩ := Host.exists_of_bind_ok way'
      rw [followed] at onward'
      have ends := follow_proper proper onward
      have ends' := follow_proper proper onward'
      have back : s.base h = top := List.append_cancel_right (ends.symm.trans ends')
      right
      rw [toTop', ← back]
    · rintro (isAbsolute | back)
      · exact absurd isAbsolute absolute
      · refine Host.locate_of_follow rfl ?_
        rw [moved, origin, followed, back, follow_below s h proper, toTop]
        exact followed (s.base h) parts

private theorem components_of_resolve (resolved : s.resolve path = .ok host) :
    ∃ parts, s.components? path = some parts ∧ host = below s.root (join parts) := by
  cases found : s.components? path with
  | none =>
    simp [resolve, virtualPath, found, Except.map] at resolved
  | some parts =>
    rw [resolve_of_components found] at resolved
    exact ⟨parts, rfl, (Except.ok.inj resolved).symm⟩

private theorem stat_put (stands : s.Stands h) (resolved : s.resolve path = .ok host)
    (done : s.put h path content = (.ok v, h')) : h'.stat host = .ok (.file content) := by
  obtain ⟨parts, found, rfl⟩ := components_of_resolve resolved
  rcases put_cases s h path content with ⟨e, failed, -⟩ | ⟨parts', found', fits, -, replaced⟩
  · rw [done] at failed
    cases failed
  · cases found.symm.trans found'
    rw [done] at replaced
    have stands' := stands.mono replaced.workDir replaced.directories
    apply (stat_below_iff stands' (proper_of_components found)).mpr
    refine ⟨fits, ?_⟩
    rw [base_of_workDir replaced.workDir]
    exact replaced.here

end Sandbox

namespace ChildKernel

open Text.Path (join below isAbsolute)
open Sandbox (Proper)

variable {π : Type} {k : ChildKernel π} {order : BootOrder} {site : Site} {launch : Launch}
  {h : Host} {paths : List String}

/-- What the program of a kernel is started with, if nothing is missing. -/
def launch? (k : ChildKernel π) (order : BootOrder) (site : Site) : Except KernelError Launch :=
  match site.sandbox.resolve order.image with
  | .error e => .error (.sandbox e)
  | .ok image =>
    if !site.host.isFile image then .error (.missingImage order.image)
    else
      match resolveAll site.sandbox order.stubs with
      | .error e => .error (.sandbox e)
      | .ok stubs =>
        .ok ⟨image, k.arguments, settings site stubs ++ k.environment, site.sandbox.root⟩

theorem boot_eq_start [Program π] (k : ChildKernel π) (order : BootOrder) (site : Site) :
    k.boot order site =
      match k.launch? order site with
      | .error e => (.error e, k, site)
      | .ok launch =>
        match Program.start (π := π) launch site.host with
        | (.error e, h) => (.error (.io e), k, { site with host := h })
        | (.ok (program, output), h) =>
          (.ok (), { k with program := some program, unread := output },
            { site with host := h }) := by
  unfold boot launch?
  cases site.sandbox.resolve order.image with
  | error e => rfl
  | ok image =>
    by_cases missing : (!site.host.isFile image) = true
    · simp only [if_pos missing]
    · simp only [if_neg missing]
      cases resolveAll site.sandbox order.stubs <;> rfl

private theorem launch_cases (handed : k.launch? order site = .ok launch) :
    launch.directory = site.sandbox.root ∧
      ∃ paths, resolveAll site.sandbox order.stubs = .ok paths ∧
        launch.environment = settings site paths ++ k.environment := by
  unfold launch? at handed
  split at handed
  · cases handed
  · split at handed
    · cases handed
    · split at handed
      · cases handed
      · rename_i paths resolved
        cases handed
        exact ⟨rfl, paths, resolved, rfl⟩

private theorem lookup_marker {marker path : String}
    (attached : site.interrupt.marker = some marker)
    (resolved : site.sandbox.resolve marker = .ok path) (environment : Environment) :
    (settings site paths ++ environment).lookup "COQPOD_INTERRUPT" = some path := by
  have marked : site.markerPath = some path := by
    rw [Site.markerPath, attached, Option.bind_some, resolved]
    rfl
  simp [settings, marked, List.lookup_cons]

private theorem lookup_stubs (environment : Environment) :
    (settings site paths ++ environment).lookup "COQPOD_STUBS" =
      some (":".intercalate paths) := by
  simp [settings, List.lookup_cons]

private theorem below_of_mem_resolveAll {s : Sandbox} {stubs : List String}
    (resolved : resolveAll s stubs = .ok paths) :
    ∀ path ∈ paths, ∃ parts, (∀ part ∈ parts, Proper part) ∧ path = below s.root (join parts) := by
  induction stubs generalizing paths with
  | nil =>
    cases resolved
    exact List.forall_mem_nil _
  | cons stub stubs ih =>
    obtain ⟨host, first, resolved⟩ := Host.exists_of_bind_ok resolved
    obtain ⟨hosts, others, resolved⟩ := Host.exists_of_bind_ok resolved
    cases resolved
    obtain ⟨parts, found, isHost⟩ := Sandbox.components_of_resolve first
    exact List.forall_mem_cons.mpr
      ⟨⟨parts, Sandbox.proper_of_components found, isHost⟩, ih others⟩

/-- A list of paths is read as the same files exactly if there are none, or the root leads back and
no path has a colon. -/
private theorem map_locate_pathList_iff {s : Sandbox} {stubs : List String}
    (resolved : resolveAll s stubs = .ok paths) (files : ∀ path ∈ paths, h.isFile path = true) :
    (Environment.pathList (":".intercalate paths)).map (s.within h).locate =
        paths.map h.locate ↔
      paths = [] ∨ s.LeadsBack h ∧ ∀ path ∈ paths, ':' ∉ path.toList := by
  have nonempty : ∀ path ∈ paths, path ≠ "" := by
    intro path mem
    exact (Host.exists_locate_of_isFile (files path mem)).1
  have alike : ∀ path ∈ paths, (s.within h).locate path = h.locate path ↔ s.LeadsBack h := by
    intro path mem
    obtain ⟨parts, proper, rfl⟩ := below_of_mem_resolveAll resolved path mem
    obtain ⟨r, found⟩ := (Host.exists_locate_of_isFile (files _ mem)).2
    exact Sandbox.locate_within_iff proper found
  constructor
  · intro same
    by_cases none : paths = []
    · exact Or.inl none
    · right
      have lengths := congrArg List.length same
      rw [List.length_map, List.length_map, Environment.length_pathList none nonempty] at lengths
      have noColons : (paths.flatMap String.toList).countP (· == ':') = 0 := by omega
      have noColon : ∀ path ∈ paths, ':' ∉ path.toList := by
        intro path mem inside
        have somewhere : ':' ∈ paths.flatMap String.toList := List.mem_flatMap.mpr ⟨path, mem, inside⟩
        have all := List.countP_eq_zero.mp noColons ':' somewhere
        simp at all
      rw [Environment.pathList_intercalate nonempty noColon] at same
      obtain ⟨path, rest, rfl⟩ := List.exists_cons_of_ne_nil none
      have first := List.map_inj_left.mp same path List.mem_cons_self
      exact ⟨(alike path List.mem_cons_self).mp first, noColon⟩
  · rintro (rfl | ⟨back, noColon⟩)
    · rfl
    · rw [Environment.pathList_intercalate nonempty noColon]
      apply List.map_inj_left.mpr
      intro path mem
      exact (alike path mem).mpr back

/--
What a program is started with names the directory of the sandbox, the marker's host path and the
host paths of the libraries. Whenever the host writes the marker, the program finds the same file
at the marker's path exactly if the root of the sandbox leads back; and while the libraries are
there, the list of their paths leads the program to the same files exactly if it is empty, or the
root leads back and no path has a colon.
-/
theorem handed_paths_lead_alike_iff (handed : k.launch? order site = .ok launch)
    (stands : site.sandbox.Stands h) :
    launch.directory = site.sandbox.root ∧
      (∀ marker path, site.interrupt.marker = some marker →
        site.sandbox.resolve marker = .ok path →
        launch.environment.lookup "COQPOD_INTERRUPT" = some path ∧
          ∀ content v h', site.sandbox.put h marker content = (.ok v, h') →
            h'.stat path = .ok (.file content) ∧
              ((site.sandbox.within h').locate path = h'.locate path ↔
                site.sandbox.LeadsBack h')) ∧
      ∃ paths value, resolveAll site.sandbox order.stubs = .ok paths ∧
        launch.environment.lookup "COQPOD_STUBS" = some value ∧
          ((∀ path ∈ paths, h.isFile path = true) →
            ((Environment.pathList value).map (site.sandbox.within h).locate =
                paths.map h.locate ↔
              paths = [] ∨ site.sandbox.LeadsBack h ∧ ∀ path ∈ paths, ':' ∉ path.toList)) := by
  obtain ⟨directory, paths, resolved, environment⟩ := launch_cases handed
  refine ⟨directory, ?_, paths, ":".intercalate paths, resolved, ?_, ?_⟩
  · intro marker path attached isPath
    refine ⟨by rw [environment, lookup_marker attached isPath], ?_⟩
    intro content v h' done
    have there := Sandbox.stat_put stands isPath done
    have file : h'.isFile path = true := by
      rw [Host.isFile, there]
      rfl
    obtain ⟨parts, found, rfl⟩ := Sandbox.components_of_resolve isPath
    obtain ⟨r, located⟩ := (Host.exists_locate_of_isFile file).2
    exact ⟨there, Sandbox.locate_within_iff (Sandbox.proper_of_components found) located⟩
  · rw [environment, lookup_stubs]
  · exact map_locate_pathList_iff resolved

/-- A place whose sandbox, with the given path, holds a kernel and a library and has a marker. -/
def furnished (root : String) : Site :=
  ⟨.unreachable, ⟨.directory [("vfs", .directory [("k", .file []), ("x.so", .file [])])], []⟩,
    ⟨root, Sandbox.defaultLibRoot⟩, ⟨false, some "/.interrupt"⟩⟩

def idle : ChildKernel Empty := .new [] []

private theorem stands_furnished {root : String}
    (way : (furnished root).host.follow ((furnished root).host.origin root) (Host.names root) =
      .ok ["vfs"]) : (furnished root).sandbox.Stands (furnished root).host := by
  have place : (furnished root).sandbox.base (furnished root).host = ["vfs"] :=
    (Host.follow_eq way).symm
  constructor
  · rw [place]
    exact way
  · rw [place]
    exact ⟨_, rfl⟩

private theorem launch_furnished (root : String)
    (settled : ((idle.launch? ⟨"/k", ["/x.so"]⟩ (furnished root)).toOption.isSome) = true) :
    ∃ launch, idle.launch? ⟨"/k", ["/x.so"]⟩ (furnished root) = .ok launch := by
  cases handed : idle.launch? ⟨"/k", ["/x.so"]⟩ (furnished root) with
  | error e =>
    rw [handed] at settled
    cases settled
  | ok launch => exact ⟨launch, rfl⟩

theorem handed_paths_lead_alike_iff_absolute :
    let site := furnished "/vfs"
    site.sandbox.Stands site.host ∧
      ∃ launch value, idle.launch? ⟨"/k", ["/x.so"]⟩ site = .ok launch ∧
        launch.environment.lookup "COQPOD_STUBS" = some value ∧
        (Environment.pathList value).map (site.sandbox.within site.host).locate =
          ["/vfs/x.so"].map site.host.locate := by
  intro site
  have stands : site.sandbox.Stands site.host := stands_furnished (by decide +kernel)
  obtain ⟨launch, handed⟩ := launch_furnished "/vfs" (by decide +kernel)
  obtain ⟨-, -, paths, value, resolved, isValue, alike⟩ := handed_paths_lead_alike_iff handed stands
  have isPaths : resolveAll site.sandbox ["/x.so"] = .ok ["/vfs/x.so"] := by decide +kernel
  cases isPaths.symm.trans resolved
  have files : ∀ path ∈ ["/vfs/x.so"], site.host.isFile path = true :=
    List.forall_mem_singleton.mpr (by decide +kernel)
  have noColon : ∀ path ∈ ["/vfs/x.so"], ':' ∉ path.toList :=
    List.forall_mem_singleton.mpr (by decide +kernel)
  have absolute : isAbsolute site.sandbox.root = true := by decide +kernel
  exact ⟨stands, launch, value, handed, isValue, (alike files).mpr (Or.inr ⟨Or.inl absolute, noColon⟩)⟩

/-- With a relative root the paths that are handed over lead the program nowhere: it finds neither
the marker that the host writes nor the library. -/
theorem relative_root_leads_elsewhere :
    let site := furnished "vfs"
    site.sandbox.Stands site.host ∧
      (idle.launch? ⟨"/k", ["/x.so"]⟩ site).toOption.map (fun launch => launch.environment) =
        some [("COQPOD_LIB_ROOT", "/lib"), ("COQPOD_STUBS", "vfs/x.so"),
          ("COQPOD_INTERRUPT", "vfs/.interrupt")] ∧
      site.setInterrupt.host.read "vfs/.interrupt" = .ok Site.markerContent ∧
      (site.sandbox.within site.setInterrupt.host).read "vfs/.interrupt" = .error .notFound ∧
      site.host.read "vfs/x.so" = .ok [] ∧
      (site.sandbox.within site.host).read "vfs/x.so" = .error .notFound := by
  intro site
  have stands : site.sandbox.Stands site.host := stands_furnished (by decide +kernel)
  refine ⟨stands, ?_⟩
  decide +kernel

end ChildKernel

end ProofHost
