import Mathlib.Data.List.TakeWhile
import ProofHost.Proofs.Json.OneLine
import ProofHost.Proofs.Kernel.Stretch
import ProofHost.Proofs.Wire.RoundTrip

/-!
Blocks of lines between a kernel that is a program and the host. A program that ends its answers to
each command with an empty line keeps in step with the host as long as all its lines are texts. A
line that is no text ends the reply to its command, but not the block: the lines after it are left
to the commands that follow.
-/

set_option autoImplicit false

namespace ProofHost.ChildKernel

open Bytes (Ended)
open Kernel (Act posts record replies after)

variable {π : Type} [Program π] {k : ChildKernel π} {p : π} {site : Site} {acts front back : List Act}
  {outputs : List Bytes} {ls : List Bytes} {blocks : List (List Bytes)} {l : Bytes} {n : Nat}

def block (ls : List Bytes) : List Bytes := ls.map (· ++ [10]) ++ [[10]]

def blockBytes (ls : List Bytes) : Bytes := (block ls).flatten

def readable (l : Bytes) : Bool := (Bytes.toText? (l ++ [10])).isSome

def lineText (l : Bytes) : String :=
  String.ofList (Text.trim ((Bytes.toText? (l ++ [10])).getD "").toList)

structure Proper (l : Bytes) : Prop where
  noLineFeed : 10 ∉ l
  notBlank : Line.ofBytes (l ++ [10]) ≠ .blank

/-- What a block is read as: its lines up to the first one that is no text. -/
def shown (ls : List Bytes) : Reply :=
  ⟨(ls.takeWhile readable).map lineText, if ls.all readable then none else some (.io .notText)⟩

def cut : List Bytes → List Bytes × List (List Bytes)
  | [] => ([[10]], [])
  | l :: ls =>
    if readable l then ((l ++ [10]) :: (cut ls).1, (cut ls).2)
    else ([l ++ [10]], (cut ls).1 :: (cut ls).2)

private theorem ofBytes_unreadable (h : readable l = false) :
    Line.ofBytes (l ++ [10]) = .unreadable := by
  have none : Bytes.toText? (l ++ [10]) = none := by simpa [readable] using h
  rw [Line.ofBytes, none]

private theorem ofBytes_readable (h : readable l = true)
    (notBlank : Line.ofBytes (l ++ [10]) ≠ .blank) :
    ∃ cs, Line.ofBytes (l ++ [10]) = .text cs ∧ lineText l = String.ofList cs := by
  obtain ⟨s, some⟩ := Option.isSome_iff_exists.mp h
  unfold Line.ofBytes at notBlank ⊢
  unfold lineText
  rw [some] at notBlank ⊢
  cases trimmed : Text.trim s.toList with
  | nil => simp [trimmed] at notBlank
  | cons c cs => exact ⟨c :: cs, by simp [trimmed], by simp [trimmed]⟩

private theorem flatten_cut (ls : List Bytes) : (cut ls).1 ++ (cut ls).2.flatten = block ls := by
  induction ls with
  | nil => rfl
  | cons l ls ih =>
    rw [cut]
    split <;> simpa [block] using ih

private theorem stretch_cut (proper : ∀ l ∈ ls, Proper l) :
    ∀ s ∈ (cut ls).1 :: (cut ls).2, Stretch s := by
  induction ls with
  | nil => exact List.forall_mem_singleton.mpr (.last ⟨[], List.not_mem_nil, rfl⟩ rfl)
  | cons l ls ih =>
    obtain ⟨first, others⟩ := List.forall_mem_cons.mp proper
    have ended : Ended (l ++ [10]) := ⟨l, first.noLineFeed, rfl⟩
    obtain ⟨next, later⟩ := List.forall_mem_cons.mp (ih others)
    rw [cut]
    split
    · rename_i text
      obtain ⟨cs, line, -⟩ := ofBytes_readable text first.notBlank
      exact List.forall_mem_cons.mpr ⟨.more ended (by rw [line]; rfl) next, later⟩
    · rename_i noText
      have line := ofBytes_unreadable (by simpa using noText)
      have last : Stretch [l ++ [10]] := .last ended (by rw [line]; rfl)
      exact List.forall_mem_cons.mpr ⟨last, List.forall_mem_cons.mpr ⟨next, later⟩⟩

private theorem cut_eq_nil_iff (ls : List Bytes) : (cut ls).2 = [] ↔ ls.all readable = true := by
  induction ls with
  | nil => exact iff_of_true rfl rfl
  | cons l ls ih =>
    rw [cut]
    split
    · rename_i text
      simpa [text] using ih
    · rename_i noText
      simp [noText]

private theorem readReply_cut (proper : ∀ l ∈ ls, Proper l) :
    (readReply (cut ls).1).1 = shown ls := by
  induction ls with
  | nil => rfl
  | cons l ls ih =>
    obtain ⟨first, others⟩ := List.forall_mem_cons.mp proper
    rw [cut]
    split
    · rename_i text
      obtain ⟨cs, line, same⟩ := ofBytes_readable text first.notBlank
      rw [readReply, line]
      simp only [ih others]
      simp [shown, text, same]
    · rename_i noText
      have line := ofBytes_unreadable (by simpa using noText)
      rw [readReply, line]
      simp [shown, noText]

def stretches (blocks : List (List Bytes)) : List (List Bytes) :=
  blocks.flatMap fun ls => (cut ls).1 :: (cut ls).2

private theorem stretches_cons (ls : List Bytes) (blocks : List (List Bytes)) :
    stretches (ls :: blocks) = (cut ls).1 :: ((cut ls).2 ++ stretches blocks) := by
  simp [stretches]

private theorem stretches_append (blocks blocks' : List (List Bytes)) :
    stretches (blocks ++ blocks') = stretches blocks ++ stretches blocks' :=
  List.flatMap_append

private theorem stretch_of_mem (proper : ∀ ls ∈ blocks, ∀ l ∈ ls, Proper l) :
    ∀ s ∈ stretches blocks, Stretch s := by
  intro s mem
  obtain ⟨ls, block, mem⟩ := List.mem_flatMap.mp mem
  exact stretch_cut (proper ls block) s mem

private theorem bytes_stretches (blocks : List (List Bytes)) :
    ((stretches blocks).map List.flatten).flatten = (blocks.map blockBytes).flatten := by
  induction blocks with
  | nil => rfl
  | cons ls blocks ih =>
    have whole := congrArg List.flatten (flatten_cut ls)
    rw [List.flatten_append, List.flatten_flatten] at whole
    simp only [stretches_cons, List.map_cons, List.map_append, List.flatten_cons,
      List.flatten_append, ih, ← List.append_assoc, whole]
    rfl

private theorem length_le_stretches (blocks : List (List Bytes)) :
    blocks.length ≤ (stretches blocks).length := by
  induction blocks with
  | nil => exact Nat.le_refl 0
  | cons ls blocks ih =>
    rw [stretches_cons, List.length_cons, List.length_cons, List.length_append]
    omega

private theorem stretches_le_length_iff (blocks : List (List Bytes)) :
    (stretches blocks).length ≤ blocks.length ↔ ∀ ls ∈ blocks, ls.all readable = true := by
  induction blocks with
  | nil => exact iff_of_true (Nat.le_refl 0) (List.forall_mem_nil _)
  | cons ls blocks ih =>
    have least := length_le_stretches blocks
    rw [List.forall_mem_cons, ← ih, ← cut_eq_nil_iff, ← List.length_eq_zero_iff, stretches_cons,
      List.length_cons, List.length_cons, List.length_append]
    omega

private theorem take_stretches (le : n ≤ blocks.length) :
    (stretches blocks).take n = (stretches (blocks.take n)).take n := by
  -- Each block has a stretch at least, so that many stretches lie within the first blocks.
  have enough : n ≤ (stretches (blocks.take n)).length := by
    have := length_le_stretches (blocks.take n)
    rwa [List.length_take_of_le le] at this
  have split : stretches blocks = stretches (blocks.take n) ++ stretches (blocks.drop n) := by
    rw [← stretches_append, List.take_append_drop]
  rw [split, List.take_append_of_le_length enough]

private theorem bytes_take_prefix (n : Nat) (ss : List (List Bytes)) :
    ((ss.take n).map List.flatten).flatten <+: (ss.map List.flatten).flatten := by
  have split : ss.map List.flatten = (ss.take n).map List.flatten ++ (ss.drop n).map List.flatten := by
    rw [← List.map_append, List.take_append_drop]
  rw [split, List.flatten_append]
  exact List.prefix_append _ _

private theorem inTime_stretches {unread : Bytes}
    (h : InTime unread outputs (blocks.map blockBytes)) :
    InTime unread outputs (((stretches blocks).take outputs.length).map List.flatten) := by
  have length : blocks.length = outputs.length := by simpa using h.length
  refine ⟨?_, fun n => ?_⟩
  · have := length_le_stretches blocks
    rw [List.length_map, List.length_take_of_le (by omega)]
  · have le : min n outputs.length ≤ blocks.length := by omega
    have same : outputs.take n = outputs.take (min n outputs.length) := by
      rw [← List.take_take, List.take_length]
    have first := bytes_take_prefix (min n outputs.length)
      (stretches (blocks.take (min n outputs.length)))
    have whole := h.prefixes (min n outputs.length)
    rw [← take_stretches le, bytes_stretches] at first
    rw [← List.map_take] at whole
    rw [← List.map_take, List.take_take, same]
    exact first.trans whole

private theorem bytes_eq_nil {ss : List (List Bytes)} (stretch : ∀ s ∈ ss, Stretch s)
    (none : (ss.map List.flatten).flatten = []) : ss = [] := by
  cases ss with
  | nil => rfl
  | cons s ss =>
    have first := stretch s List.mem_cons_self
    rw [List.map_cons, List.flatten_cons, List.append_eq_nil_iff] at none
    exact absurd none.1 first.flatten_ne_nil

private theorem take_stretches_eq_iff (proper : ∀ ls ∈ blocks, ∀ l ∈ ls, Proper l)
    (le : n ≤ blocks.length) :
    ((blocks.take n).map blockBytes).flatten =
        (((stretches blocks).take n).map List.flatten).flatten ↔
      ∀ ls ∈ blocks.take n, ls.all readable = true := by
  have length : (blocks.take n).length = n := List.length_take_of_le le
  have stretch : ∀ s ∈ (stretches (blocks.take n)).drop n, Stretch s := fun s mem =>
    stretch_of_mem (fun ls mem => proper ls (List.mem_of_mem_take mem)) s (List.mem_of_mem_drop mem)
  have split : stretches (blocks.take n) = (stretches (blocks.take n)).take n ++
      (stretches (blocks.take n)).drop n := (List.take_append_drop n _).symm
  rw [take_stretches le, ← bytes_stretches, ← stretches_le_length_iff, length]
  constructor
  · intro same
    have rest : (((stretches (blocks.take n)).drop n).map List.flatten).flatten = [] := by
      rw [split, List.map_append, List.flatten_append, ← split] at same
      exact List.append_right_eq_self.mp same
    -- No stretch is without bytes, so no stretch is left.
    exact List.drop_eq_nil_iff.mp (bytes_eq_nil stretch rest)
  · intro few
    rw [List.take_of_length_le few]

private theorem stretch_at (le : n ≤ blocks.length)
    (texts : ∀ ls ∈ blocks.take n, ls.all readable = true) :
    (stretches blocks)[n]? = (blocks[n]?).map fun ls => (cut ls).1 := by
  have length : (stretches (blocks.take n)).length = n := by
    have most := (stretches_le_length_iff _).mpr texts
    have least := length_le_stretches (blocks.take n)
    rw [List.length_take_of_le le] at most least
    exact Nat.le_antisymm most least
  have split : stretches blocks = stretches (blocks.take n) ++ stretches (blocks.drop n) := by
    rw [← stretches_append, List.take_append_drop]
  have here : blocks[n]? = (blocks.drop n)[0]? := by simp
  rw [split, List.getElem?_append_right (Nat.le_of_eq length), length, Nat.sub_self, here]
  cases blocks.drop n with
  | nil => rfl
  | cons ls rest => rfl

/--
A command finds the program's output at its own block exactly if all lines of the blocks before it
are texts; and then it is answered with the lines of its block, up to the first one that is no text.
-/
theorem next_block_iff_texts (program : k.program = some p) (emits : Emits p site acts outputs)
    (proper : ∀ ls ∈ blocks, ∀ l ∈ ls, Proper l)
    (inTime : InTime k.unread outputs (blocks.map blockBytes)) :
    ∀ front line back, acts = front ++ .post line :: back →
      let n := (posts front).length
      let now := after (k, site) front
      (((blocks.take n).map blockBytes).flatten ++ now.1.unread =
          k.unread ++ (outputs.take n).flatten ↔
        ∀ ls ∈ blocks.take n, ls.all readable = true) ∧
      ((∀ ls ∈ blocks.take n, ls.all readable = true) →
        (blocks[n]?).map shown = some (now.1.post line now.2).1) := by
  rintro front line back rfl n now
  have length : blocks.length = outputs.length := by simpa using inTime.length
  have count := emits.length
  have room : n < blocks.length := by
    simp only [posts, List.filterMap_append, List.length_append] at count
    simp [length, count, n, posts]
  have stretch : ∀ s ∈ (stretches blocks).take outputs.length, Stretch s :=
    fun s mem => stretch_of_mem proper s (List.mem_of_mem_take mem)
  have consumed := unread_of_stretches program emits stretch (inTime_stretches inTime)
  have replied := reply_of_stretches program emits stretch (inTime_stretches inTime)
  have le : n ≤ outputs.length := by omega
  rw [List.take_take, Nat.min_eq_left le] at consumed
  rw [List.getElem?_take_of_lt (by omega)] at replied
  refine ⟨?_, fun texts => ?_⟩
  · rw [← consumed, List.append_left_inj]
    exact take_stretches_eq_iff proper (by omega)
  · rw [← replied, stretch_at (by omega) texts, Option.map_map]
    refine Option.map_congr fun ls mem => ?_
    exact (readReply_cut (proper ls (List.mem_of_getElem? mem))).symm

/-- A program that gives some outputs, one for each time it is fed. -/
structure Recital where
  parts : List Bytes

instance : Program Recital where
  start _ host := (.ok (⟨[]⟩, []), host)
  feed r _ host := ((⟨r.parts.tail⟩, r.parts.headD []), host)
  hasEnded _ := false

private theorem emits_recital (a b : Bytes) (site : Site) (line line' : String) :
    Emits (⟨[a, b]⟩ : Recital) site [.post line, .post line'] [a, b] :=
  .post rfl rfl (.post rfl rfl (.nil _ _))

def reciter (parts : List Bytes) : ChildKernel Recital := ⟨[], [], some ⟨parts⟩, []⟩

def emptySite : Site := .new .unreachable ⟨.directory [], []⟩ ⟨"/", Sandbox.defaultLibRoot⟩

instance (l : Bytes) : Decidable (Proper l) :=
  decidable_of_iff (10 ∉ l ∧ Line.ofBytes (l ++ [10]) ≠ .blank)
    ⟨fun h => ⟨h.1, h.2⟩, fun h => ⟨h.noLineFeed, h.notBlank⟩⟩

theorem next_block_iff_texts_second :
    let blocks : List (List Bytes) := [[[97]], [[98], [255], [99]]]
    let k := reciter (blocks.map blockBytes)
    let now := after (k, emptySite) [.post "x"]
    (now.1.post "y" now.2).1 = ⟨["b"], some (.io .notText)⟩ := by
  intro blocks k now
  have proper : ∀ ls ∈ blocks, ∀ l ∈ ls, Proper l := by decide +kernel
  have next := (next_block_iff_texts (k := k) rfl (emits_recital _ _ emptySite "x" "y") proper
    (.self _) [.post "x"] "y" [] rfl).2 (by decide +kernel)
  have same : (blocks[1]?).map shown = some ⟨["b"], some (.io .notText)⟩ := by decide +kernel
  exact Option.some.inj (next.symm.trans same)

/--
The first of two blocks has a line that is no text and a line after it: the second command is
answered with that line and not with its own.
-/
theorem line_left_to_next_command :
    let blocks : List (List Bytes) := [[[255], [97]], [[98]]]
    let parts := blocks.map blockBytes
    let acts := [.post "x", .post "y"]
    (∀ ls ∈ blocks, ∀ l ∈ ls, Proper l) ∧ Emits (⟨parts⟩ : Recital) emptySite acts parts ∧
      InTime (reciter parts).unread parts parts ∧
      replies (record (reciter parts, emptySite) acts) =
        [⟨[], some (.io .notText)⟩, ⟨["a"], none⟩] ∧
      "a" ∈ [[255], [97]].map lineText ∧ "a" ∉ [[98]].map lineText := by
  intro blocks parts acts
  have proper : ∀ ls ∈ blocks, ∀ l ∈ ls, Proper l := by decide +kernel
  have replied : replies (record (reciter parts, emptySite) acts) =
      [⟨[], some (.io .notText)⟩, ⟨["a"], none⟩] := by
    decide +kernel
  exact ⟨proper, emits_recital _ _ emptySite "x" "y", .self _, replied, by decide +kernel,
    by decide +kernel⟩

section Answers

variable {s : String} {answers : List Answer} {commands : List Command}

private theorem ofText_lineFeed (s : String) :
    Bytes.ofText s ++ [10] = Bytes.ofText (s ++ "\n") := by
  have feed : Bytes.ofText "\n" = [10] := by decide +kernel
  rw [Bytes.ofText_append, feed]

private theorem line_of_bracketed (h : Text.Bracketed s.toList) :
    Proper (Bytes.ofText s) ∧ readable (Bytes.ofText s) = true ∧ lineText (Bytes.ofText s) = s := by
  have text : Bytes.toText? (Bytes.ofText s ++ [10]) = some (s ++ "\n") := by
    rw [ofText_lineFeed, Bytes.toText?_ofText]
  have trimmed : Text.trim (s ++ "\n").toList = s.toList := by
    rw [String.toList_append]
    exact h.trim
  have free : 10 ∉ Bytes.ofText s := fun mem => h.noLineFeed (Bytes.mem_ofText.mp mem)
  have notBlank : Line.ofBytes (Bytes.ofText s ++ [10]) ≠ .blank := by
    rw [Line.ofBytes, text]
    simp only [trimmed]
    split
    · rename_i none
      exact absurd none h.ne_nil
    · exact nofun
  refine ⟨⟨free, notBlank⟩, by rw [readable, text]; rfl, ?_⟩
  rw [lineText, text, Option.getD_some, trimmed, String.ofList_toList]

def answerLines (answers : List Answer) : List Bytes :=
  answers.map fun a => Bytes.ofText a.encode

private theorem bracketed_answer (a : Answer) : Text.Bracketed a.encode.toList :=
  Text.bracketed_tagged _

private theorem bracketed_command (c : Command) : Text.Bracketed c.encode.toList :=
  Text.bracketed_tagged _

private theorem answerLines_texts (answers : List Answer) :
    (∀ l ∈ answerLines answers, Proper l) ∧ (answerLines answers).all readable = true ∧
      shown (answerLines answers) = ⟨answers.map Answer.encode, none⟩ := by
  have line (a : Answer) := line_of_bracketed (bracketed_answer a)
  have texts : ∀ l ∈ answerLines answers, readable l = true :=
    List.forall_mem_map.mpr fun a _ => (line a).2.1
  have all : (answerLines answers).all readable = true := List.all_eq_true.mpr texts
  refine ⟨List.forall_mem_map.mpr fun a _ => (line a).1, all, ?_⟩
  rw [shown, all, if_pos rfl, List.takeWhile_eq_self_iff.mpr texts, answerLines, List.map_map]
  exact congrArg (Reply.mk · none) (List.map_congr_left fun a _ => (line a).2.2)

private theorem cut_of_texts (texts : ls.all readable = true) : (cut ls).1 = block ls := by
  have whole := flatten_cut ls
  rwa [(cut_eq_nil_iff ls).mpr texts, List.flatten_nil, List.append_nil] at whole

/-- The bytes of the answers to a command: a line for each, and an empty line. -/
def answerBlock (answers : List Answer) : Bytes := blockBytes (answerLines answers)

private theorem stretch_answers (answers : List Answer) :
    Stretch (block (answerLines answers)) ∧
      (readReply (block (answerLines answers))).1 = ⟨answers.map Answer.encode, none⟩ := by
  obtain ⟨proper, texts, shows⟩ := answerLines_texts answers
  have first := stretch_cut proper _ List.mem_cons_self
  have read := readReply_cut proper
  rw [cut_of_texts texts] at first read
  exact ⟨first, read.trans shows⟩

private theorem map_decode_encode (transparent : ∀ a ∈ answers, a.Transparent) :
    (answers.map Answer.encode).map Answer.decode = answers.map .ok := by
  rw [List.map_map]
  refine List.map_congr_left fun a mem => ?_
  rw [Function.comp_apply, Answer.decode_encode (transparent a mem)]

private theorem commands_written (commands : List Command) :
    ∃ text, Bytes.toText? ((commands.map Command.encode).flatMap commandLine) = some text ∧
      (Text.lines text.toList).map (fun line => Command.decode (String.ofList line)) =
        commands.map .ok := by
  have bracketed : ∀ line ∈ commands.map (·.encode.toList), Text.Bracketed line :=
    List.forall_mem_map.mpr fun c _ => bracketed_command c
  have written : (commands.map Command.encode).flatMap commandLine = Bytes.ofText
      (String.ofList ((commands.map (·.encode.toList)).flatMap (· ++ ['\n']))) := by
    have feed : String.utf8EncodeChar '\n' = [10] := by decide
    rw [Bytes.ofText_eq_flatMap, String.toList_ofList, List.flatMap_map, List.flatMap_map,
      List.flatMap_assoc]
    refine List.flatMap_congr fun c _ => ?_
    rw [commandLine, Bytes.ofText_eq_flatMap, List.flatMap_append, List.flatMap_singleton, feed]
  refine ⟨_, by rw [written, Bytes.toText?_ofText], ?_⟩
  rw [String.toList_ofList, Text.lines_flatMap bracketed, List.map_map]
  refine List.map_congr_left fun c _ => ?_
  rw [Function.comp_apply, String.ofList_toList, Command.decode_encode]

/--
Commands and answers keep in step, however many there are. The program is fed one line for each
command, which says all of it; and if it puts out its answers to each command as lines with an empty
line after them, then each command is answered with its own answers, and exactly those blocks are
read that belong to the commands posted so far.
-/
theorem commands_and_answers_in_step {k : ChildKernel (Overheard π)} {heard : Bytes}
    (program : k.program = some ⟨p, heard⟩) (emits : Emits p site acts outputs)
    (posted : posts acts = commands.map Command.encode) :
    (∃ q written text, (after (k, site) acts).1.program = some ⟨q, heard ++ written⟩ ∧
      Bytes.toText? written = some text ∧
      (Text.lines text.toList).map (fun line => Command.decode (String.ofList line)) =
        commands.map .ok) ∧
    ∀ answers : List (List Answer), (∀ as ∈ answers, ∀ a ∈ as, a.Transparent) →
      InTime k.unread outputs (answers.map answerBlock) →
      (replies (record (k, site) acts)).map (fun r => (r.lines.map Answer.decode, r.failure)) =
          answers.map (fun as => (as.map .ok, none)) ∧
        ∀ front back, acts = front ++ back →
          ((answers.take (posts front).length).map answerBlock).flatten ++
              (after (k, site) front).1.unread =
            k.unread ++ (outputs.take (posts front).length).flatten := by
  constructor
  · obtain ⟨q, feeds⟩ := heard_after program emits
    obtain ⟨text, isText, lines⟩ := commands_written commands
    rw [posted] at feeds
    exact ⟨q, _, text, feeds, isText, lines⟩
  · intro answers transparent inTime
    have stretch : ∀ s ∈ answers.map (block ∘ answerLines), Stretch s :=
      List.forall_mem_map.mpr fun as _ => (stretch_answers as).1
    have bytes : (answers.map (block ∘ answerLines)).map List.flatten = answers.map answerBlock := by
      rw [List.map_map]
      rfl
    rw [← bytes] at inTime
    constructor
    · rw [(replies_of_stretches program (emits.overheard heard) stretch inTime).1, List.map_map,
        List.map_map]
      refine List.map_congr_left fun as mem => ?_
      have own := transparent as mem
      simp only [Function.comp_apply, (stretch_answers as).2, map_decode_encode own]
    · rintro front back rfl
      have consumed := unread_of_stretches program (emits.overheard heard) stretch inTime
      rwa [List.map_take, bytes, ← List.map_take] at consumed

theorem commands_and_answers_in_step_twice :
    let commands : List Command := [.init, .cancel 2]
    let answers : List (List Answer) := [[.ready 1], [.backTo 1, .garbled "a\n"]]
    let parts := answers.map answerBlock
    let k : ChildKernel (Overheard Recital) := ⟨[], [], some ⟨⟨parts⟩, []⟩, []⟩
    let acts := (commands.map Command.encode).map Act.post
    (replies (record (k, emptySite) acts)).map (fun r => (r.lines.map Answer.decode, r.failure)) =
      answers.map (fun as => (as.map .ok, none)) := by
  intro commands answers parts k acts
  have shallow (a : Answer) (none : a.payloads = []) (snapshot : a.NoNullSnapshot) :
      a.Transparent := by
    refine Answer.transparent (n := 0) snapshot (fun v mem => ?_) (by decide)
    rw [none] at mem
    cases mem
  have transparent : ∀ as ∈ answers, ∀ a ∈ as, a.Transparent := by
    simp only [answers, List.forall_mem_cons]
    exact ⟨⟨shallow _ rfl nofun, List.forall_mem_nil _⟩,
      ⟨shallow _ rfl nofun, shallow _ rfl nofun, List.forall_mem_nil _⟩, List.forall_mem_nil _⟩
  have emits : Emits (⟨parts⟩ : Recital) emptySite acts parts := emits_recital _ _ emptySite _ _
  have posted : posts acts = commands.map Command.encode := rfl
  exact ((commands_and_answers_in_step (k := k) rfl emits posted).2 answers transparent
    (.self parts)).1

end Answers

end ProofHost.ChildKernel
