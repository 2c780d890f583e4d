import Mathlib.Data.List.DropRight
import ProofHost.Proofs.Kernel.Reachable
import ProofHost.Proofs.Kernel.Snapshot

/-!
The goals of a state in terms of the sentences on its path. Only those after the last closing
sentence count. Among them a proof is open exactly if one that begins a proof comes somewhere after
a declaration, and the goal that is shown is then the last of the declarations.
-/

set_option autoImplicit false

namespace ProofHost

namespace Goals

variable {text : List Char} {texts : List (List Char)}

/-- The sentences after the last one that ends a proof; all of them if none does. -/
def sinceCloser (texts : List (List Char)) : List (List Char) :=
  texts.rtakeWhile fun text => !isCloser text

/-- Some declaration comes before some sentence that begins a proof. -/
def Opens (texts : List (List Char)) : Prop :=
  ∃ statement proof, [statement, proof].Sublist texts ∧ isDeclaration statement = true ∧
    isOpener proof = true

private theorem prefix_of_beginsWith {word : String} (begins : beginsWith word text = true) :
    word.toList <+: text :=
  List.isPrefixOf_iff_prefix.mp begins

private theorem not_both_of_words {words words' : List String}
    (apart : ∀ word ∈ words, ∀ other ∈ words',
      ¬ word.toList <+: other.toList ∧ ¬ other.toList <+: word.toList)
    (begins : words.any (beginsWith · text) = true) : words'.any (beginsWith · text) = false := by
  obtain ⟨word, mem, begins⟩ := List.any_eq_true.mp begins
  apply List.any_eq_false.mpr
  intro other mem' begins'
  obtain ⟨notFirst, notSecond⟩ := apart word mem other mem'
  rcases List.prefix_or_prefix_of_prefix (prefix_of_beginsWith begins)
    (prefix_of_beginsWith begins') with first | second
  · exact notFirst first
  · exact notSecond second

private theorem isOpener_eq_any : isOpener text = [opener].any (beginsWith · text) := by
  simp [isOpener]

private theorem not_opener_of_declaration (declares : isDeclaration text = true) :
    isOpener text = false := by
  rw [isOpener_eq_any]
  exact not_both_of_words (by decide) declares

private theorem not_closer_of_declaration (declares : isDeclaration text = true) :
    isCloser text = false :=
  not_both_of_words (by decide) declares

private theorem not_closer_of_opener (opens : isOpener text = true) : isCloser text = false := by
  rw [isOpener_eq_any] at opens
  exact not_both_of_words (by decide) opens

private theorem sinceCloser_concat_of_closer (closes : isCloser text = true) :
    sinceCloser (texts ++ [text]) = [] :=
  List.rtakeWhile_concat_neg _ _ _ (by simp [closes])

private theorem sinceCloser_concat (goesOn : isCloser text = false) :
    sinceCloser (texts ++ [text]) = sinceCloser texts ++ [text] :=
  List.rtakeWhile_concat_pos _ _ _ (by simp [goesOn])

private theorem opens_concat : Opens (texts ++ [text]) ↔
    Opens texts ∨ isOpener text = true ∧ ∃ statement ∈ texts, isDeclaration statement = true := by
  constructor
  · rintro ⟨statement, proof, within, declares, opens⟩
    have backwards : [proof, statement].Sublist (text :: texts.reverse) := by
      simpa using within.reverse
    cases backwards with
    | cons _ before =>
      refine Or.inl ⟨statement, proof, ?_, declares, opens⟩
      simpa using before.reverse
    | cons_cons _ before =>
      have mem : statement ∈ texts := List.mem_reverse.mp (List.singleton_sublist.mp before)
      exact Or.inr ⟨opens, statement, mem, declares⟩
  · rintro (⟨statement, proof, within, declares, opens⟩ | ⟨opens, statement, mem, declares⟩)
    · exact ⟨statement, proof, within.trans (List.sublist_append_left _ _), declares, opens⟩
    · refine ⟨statement, text, ?_, declares, opens⟩
      exact (List.singleton_sublist.mpr mem).append (List.Sublist.refl [text])

private theorem Opens.exists_declaration (opens : Opens texts) :
    ∃ statement ∈ texts, isDeclaration statement = true := by
  obtain ⟨statement, proof, within, declares, -⟩ := opens
  exact ⟨statement, within.mem List.mem_cons_self, declares⟩

private theorem not_opens_nil : ¬ Opens [] := by
  intro opens
  obtain ⟨_, mem, -⟩ := opens.exists_declaration
  cases mem

/-- The last declaration among some sentences, and whether a proof is open after them. -/
structure Bracket.Tells (b : Bracket) (texts : List (List Char)) : Prop where
  statement : b.statement = (texts.filter isDeclaration).getLast?
  isOpen : b.isOpen = true ↔ Opens texts

private theorem tells_none : Bracket.none.Tells [] where
  statement := rfl
  isOpen := iff_of_false Bool.false_ne_true not_opens_nil

private theorem Bracket.Tells.isSome_statement {b : Bracket} (h : b.Tells texts) :
    b.statement.isSome = true ↔ ∃ statement ∈ texts, isDeclaration statement = true := by
  rw [h.statement, List.getLast?_isSome, ne_eq, List.filter_eq_nil_iff]
  simp

private theorem Bracket.Tells.read {b : Bracket} (h : b.Tells (sinceCloser texts))
    (text : List Char) :
    (b.read text).Tells (sinceCloser (texts ++ [text])) := by
  unfold Bracket.read
  split
  · rename_i declares
    rw [sinceCloser_concat (not_closer_of_declaration declares)]
    constructor
    · simp [declares]
    · simp [opens_concat, not_opener_of_declaration declares, h.isOpen]
  · rename_i other
    split
    · rename_i opens
      rw [sinceCloser_concat (not_closer_of_opener opens)]
      constructor
      · simp [other, h.statement]
      · rw [opens_concat, h.isSome_statement]
        simp only [opens, true_and]
        exact ⟨Or.inr, fun either => either.elim Opens.exists_declaration id⟩
    · rename_i stays
      split
      · rename_i closes
        rw [sinceCloser_concat_of_closer closes]
        exact tells_none
      · rename_i goesOn
        rw [sinceCloser_concat (by simpa using goesOn)]
        constructor
        · simp [other, h.statement]
        · simp [opens_concat, stays, h.isOpen]

private theorem tells_sinceCloser (texts : List (List Char)) :
    (texts.foldl Bracket.read .none).Tells (sinceCloser texts) := by
  induction texts using List.reverseRecOn with
  | nil => exact tells_none
  | append_singleton texts text ih =>
    rw [List.foldl_concat]
    exact ih.read text

private theorem openStatement_cases (texts : List String) :
    let recent := sinceCloser (texts.map fun text => Text.trim text.toList)
    (Opens recent ∧ ∃ statement, (recent.filter isDeclaration).getLast? = some statement ∧
        openStatement texts = some statement) ∨
      (¬ Opens recent ∧ openStatement texts = none) := by
  intro recent
  have told := tells_sinceCloser (texts.map fun text => Text.trim text.toList)
  unfold openStatement
  by_cases opens : Opens recent
  · have stated := told.isSome_statement.mpr opens.exists_declaration
    obtain ⟨last, isLast⟩ := Option.isSome_iff_exists.mp stated
    refine Or.inl ⟨opens, last, told.statement ▸ isLast, ?_⟩
    exact (if_pos (told.isOpen.mpr opens)).trans isLast
  · exact Or.inr ⟨opens, if_neg (mt told.isOpen.mp opens)⟩

end Goals

namespace SimulatedKernel

open Kernel (Act after)

variable {k : SimulatedKernel} {id : StateId}

/--
In every reachable kernel the goals of an executed live state are shown by the sentences on its
path, without the blanks around them, from the last one on that ends a proof: a snapshot is given
exactly if some declaration comes before some sentence that begins a proof, and then it is one goal,
the last declaration, with nothing assumed. There is a path unless the state is its own parent, as
only the greatest number can be when it is given out again.
-/
theorem goals_of_open_proof (reached : Reachable k) (executed : k.isExecuted id = true)
    (live : k.document.isLive id = true) {line : String}
    (asked : Command.decode line = .ok (.goals id)) (site : Site) :
    ((∃ path, k.document.path id = .ok path) ↔ k.document.parentOf id ≠ some id) ∧
    (k.document.parentOf id = some id → id = StateId.greatest) ∧
    ∀ path, k.document.path id = .ok path → ∃ goals,
      (k.post line site).1.answers = [.goalInfo id goals] ∧
      let recent := Goals.sinceCloser (path.map fun x => Text.trim (k.textOf x).toList)
      (goals.isSome = true ↔ Goals.Opens recent) ∧
      ∀ shown, goals = some shown → ∃ statement,
        (recent.filter Goals.isDeclaration).getLast? = some statement ∧
          shown = .object [
            ("given_up", .array []),
            ("goals", .array [.object [
              ("hyp", .array []), ("ty", .string (String.ofList statement))]]),
            ("shelf", .array []),
            ("stack", .array [])] := by
  obtain ⟨serving, hasRoot⟩ := reached.serving executed
  obtain ⟨root, isRoot⟩ := Option.isSome_iff_exists.mp hasRoot
  have descending := reached.edited.descending
  refine ⟨descending.exists_path_iff isRoot live, ?_, ?_⟩
  · intro own
    exact (descending id id own).resolve_left (UInt64.lt_irrefl id)
  intro path isPath
  have reply : (k.post line site).1.answers = [.ofGoals id (k.goals id)] := by
    have transparent : ∀ a ∈ [Answer.ofGoals id (k.goals id)], a.Transparent :=
      List.forall_mem_singleton.mpr (transparent_ofGoals k id)
    rw [reply_goals serving asked executed live]
    exact answers_encoded transparent
  refine ⟨_, reply, ?_⟩
  intro recent
  have cases := Goals.openStatement_cases (path.map k.textOf)
  rw [List.map_map] at cases
  unfold goals
  rw [isPath]
  rcases cases with ⟨opens, statement, isLast, found⟩ | ⟨shut, found⟩
  · simp only [found]
    refine ⟨iff_of_true rfl opens, ?_⟩
    intro shown same
    exact ⟨statement, isLast, (Option.some.inj same).symm⟩
  · simp only [found]
    exact ⟨iff_of_false Bool.false_ne_true shut, nofun⟩

/-- A proof after a finished one, with a blank before its statement and another declaration in
it. -/
def reopening : List Act :=
  opening ++ [.post (Command.encode (.add none none "Qed." false)),
    .post (Command.encode (.add none none " Lemma b.\n" false)),
    .post (Command.encode (.add none none "Proof." false)),
    .post (Command.encode (.add none none "Definition d." false)),
    .post (Command.encode (.exec 7))]

def reopened : Document :=
  ⟨[⟨1, none, "", true⟩, ⟨2, some 1, "Lemma a.", true⟩, ⟨3, some 2, "Proof.", true⟩,
    ⟨4, some 3, "Qed.", true⟩, ⟨5, some 4, " Lemma b.\n", true⟩, ⟨6, some 5, "Proof.", true⟩,
    ⟨7, some 6, "Definition d.", true⟩], some 1, some 7, 8⟩

private theorem reachable_picky : Reachable picky := by
  have started := (Reachable.new picky.reject 1).boot ⟨"/k", []⟩ bareSite
  rw [boot_bareSite] at started
  exact started

theorem goals_of_open_proof_again :
    let s := after (picky, bareSite) reopening
    Reachable s.1 ∧ s.1.isExecuted 7 = true ∧ s.1.document.isLive 7 = true ∧
      (s.1.post (Command.encode (.goals 7)) s.2).1.answers =
        [.goalInfo 7 (some (.object [
          ("given_up", .array []),
          ("goals", .array [.object [("hyp", .array []), ("ty", .string "Definition d.")]]),
          ("shelf", .array []),
          ("stack", .array [])]))] := by
  intro s
  have reached : Reachable s.1 := reachable_picky.after (s := (picky, bareSite)) reopening
  have ends : (s.1.document, s.1.executed) = (reopened, [7, 6, 5, 4, 3, 2, 1]) := by decide +kernel
  obtain ⟨document, executed⟩ := Prod.mk.inj ends
  have executed : s.1.isExecuted 7 = true := by
    rw [isExecuted, executed]
    decide
  have live : s.1.document.isLive 7 = true := by
    rw [document]
    decide
  refine ⟨reached, executed, live, ?_⟩
  have way : s.1.document.path 7 = .ok [1, 2, 3, 4, 5, 6, 7] := by
    rw [document]
    decide
  obtain ⟨goals, reply, opens, last⟩ :=
    (goals_of_open_proof reached executed live (Command.decode_encode _) s.2).2.2 _ way
  have recent : Goals.sinceCloser
      ([1, 2, 3, 4, 5, 6, 7].map fun x => Text.trim (s.1.textOf x).toList) =
        ["Lemma b.".toList, "Proof.".toList, "Definition d.".toList] := by
    simp only [textOf, document]
    decide +kernel
  simp only [recent] at opens last
  have opened := opens.mpr ⟨"Lemma b.".toList, "Proof.".toList, by decide, by decide, by decide⟩
  obtain ⟨shown, rfl⟩ := Option.isSome_iff_exists.mp opened
  obtain ⟨statement, isLast, rfl⟩ := last shown rfl
  have declared : some "Definition d.".toList = some statement := isLast
  rw [reply, ← Option.some.inj declared, String.ofList_toList]

end SimulatedKernel

end ProofHost
