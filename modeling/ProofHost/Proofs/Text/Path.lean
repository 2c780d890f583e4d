import ProofHost.Text.Path

/-!
Texts that are cut at separators: lines that are put together with line feeds, and the components of
paths that are put together with slashes.
-/

set_option autoImplicit false

namespace ProofHost.Text

variable {p : Char → Bool} {c : Char}

theorem pieces_ne_nil (p : Char → Bool) (cs : List Char) : pieces p cs ≠ [] := by
  cases cs with
  | nil => simp [pieces]
  | cons c cs =>
    simp only [pieces]
    split
    · simp
    · split <;> simp

private theorem pieces_append (h : p c = true) (front back : List Char) :
    pieces p (front ++ c :: back) = pieces p front ++ pieces p back := by
  induction front with
  | nil => simp [pieces, h]
  | cons x front ih =>
    simp only [List.cons_append, pieces, ih]
    by_cases cut : p x = true
    · simp [cut]
    · cases pieces_front : pieces p front with
      | nil => exact absurd pieces_front (pieces_ne_nil p front)
      | cons w ws => simp [cut]

theorem pieces_of_forall {cs : List Char} (h : ∀ c ∈ cs, p c = false) : pieces p cs = [cs] := by
  induction cs with
  | nil => rfl
  | cons c cs ih =>
    obtain ⟨first, others⟩ := List.forall_mem_cons.mp h
    simp [pieces, first, ih others]

theorem not_of_mem_pieces {cs w : List Char} (hw : w ∈ pieces p cs) : ∀ c ∈ w, p c = false := by
  induction cs generalizing w with
  | nil =>
    rw [List.mem_singleton.mp hw]
    exact List.forall_mem_nil _
  | cons x cs ih =>
    simp only [pieces] at hw
    split at hw
    · rcases List.mem_cons.mp hw with rfl | hw
      · exact List.forall_mem_nil _
      · exact ih hw
    · rename_i keep
      split at hw
      · rename_i none
        exact absurd none (pieces_ne_nil p cs)
      · rename_i v vs some
        rcases List.mem_cons.mp hw with rfl | hw
        · refine List.forall_mem_cons.mpr ⟨by simpa using keep, ih ?_⟩
          simp [some]
        · exact ih (by simp [some, hw])

private theorem pieces_of_all {cs : List Char} (h : ∀ c ∈ cs, p c = true) :
    ∀ w ∈ pieces p cs, w = [] := by
  induction cs with
  | nil => simp [pieces]
  | cons c cs ih =>
    obtain ⟨first, others⟩ := List.forall_mem_cons.mp h
    simp only [pieces, first, if_true]
    exact List.forall_mem_cons.mpr ⟨rfl, ih others⟩

private theorem pieces_flatMap {ls : List (List Char)} (whole : ∀ l ∈ ls, '\n' ∉ l) :
    pieces (· == '\n') (ls.flatMap (· ++ ['\n'])) = ls ++ [[]] := by
  induction ls with
  | nil => rfl
  | cons l ls ih =>
    obtain ⟨first, others⟩ := List.forall_mem_cons.mp whole
    have alone : pieces (· == '\n') l = [l] := pieces_of_forall fun x mem =>
      beq_false_of_ne fun same => first (same ▸ mem)
    rw [List.flatMap_cons, List.append_assoc, List.singleton_append,
      pieces_append (p := (· == '\n')) rfl, alone, ih others, List.singleton_append,
      List.cons_append]

theorem lines_flatMap_eq_map {ls : List (List Char)} (whole : ∀ l ∈ ls, '\n' ∉ l) :
    lines (ls.flatMap (· ++ ['\n'])) = ls.map dropReturn := by
  simp [lines, pieces_flatMap whole]

theorem eq_of_flatMap_eq {ls ls' : List (List Char)} (whole : ∀ l ∈ ls, '\n' ∉ l)
    (whole' : ∀ l ∈ ls', '\n' ∉ l)
    (same : ls.flatMap (· ++ ['\n']) = ls'.flatMap (· ++ ['\n'])) : ls = ls' := by
  have cut := congrArg (pieces (· == '\n')) same
  rw [pieces_flatMap whole, pieces_flatMap whole'] at cut
  exact List.append_cancel_right cut

theorem dropEndWhile_append (p : Char → Bool) (cs : List Char) :
    ∃ dropped, cs = dropEndWhile p cs ++ dropped ∧ ∀ c ∈ dropped, p c = true := by
  refine ⟨(cs.reverse.takeWhile p).reverse, ?_, fun c hc => ?_⟩
  · rw [dropEndWhile, ← List.reverse_append, List.takeWhile_append_dropWhile, List.reverse_reverse]
  · exact List.all_eq_true.mp List.all_takeWhile c (List.mem_reverse.mp hc)

section Joined

variable {x : Char} {cs : List Char} {texts rest : List (List Char)}

private theorem intercalate_pieces (x : Char) (cs : List Char) :
    [x].intercalate (pieces (· == x) cs) = cs := by
  induction cs with
  | nil => rfl
  | cons c cs ih =>
    simp only [pieces]
    cases rest : pieces (· == x) cs with
    | nil => exact absurd rest (pieces_ne_nil _ cs)
    | cons w ws =>
      rw [rest] at ih
      by_cases cut : (c == x) = true
      · rw [if_pos cut, List.intercalate_cons_cons, ih, eq_of_beq cut]
        rfl
      · rw [if_neg cut]
        cases ws with
        | nil => simpa using ih
        | cons w' ws =>
          rw [List.intercalate_cons_cons] at ih ⊢
          rw [← ih]
          rfl

private theorem intercalate_append (ne : texts ≠ []) (ne' : rest ≠ []) :
    [x].intercalate (texts ++ rest) = [x].intercalate texts ++ x :: [x].intercalate rest := by
  induction texts with
  | nil => exact absurd rfl ne
  | cons text texts ih =>
    cases texts with
    | nil =>
      obtain ⟨next, rest, rfl⟩ := List.exists_cons_of_ne_nil ne'
      rw [List.singleton_append, List.intercalate_cons_cons]
      simp
    | cons next texts =>
      rw [List.cons_append, List.cons_append, List.intercalate_cons_cons, ← List.cons_append,
        ih (List.cons_ne_nil next texts), List.intercalate_cons_cons]
      simp only [List.append_assoc]

theorem pieces_intercalate (ne : texts ≠ []) :
    pieces (· == x) ([x].intercalate texts) = texts.flatMap (pieces (· == x)) := by
  induction texts with
  | nil => exact absurd rfl ne
  | cons text texts ih =>
    cases texts with
    | nil => simp
    | cons next texts =>
      rw [List.intercalate_cons_cons, List.append_assoc, List.singleton_append,
        pieces_append (p := (· == x)) (beq_self_eq_true x), ih (List.cons_ne_nil next texts)]
      rfl

private theorem pieces_intercalate_of_not_mem (ne : texts ≠ []) (whole : ∀ text ∈ texts, x ∉ text) :
    pieces (· == x) ([x].intercalate texts) = texts := by
  have alone (text : List Char) (mem : text ∈ texts) : pieces (· == x) text = [text] :=
    pieces_of_forall fun c inside => beq_false_of_ne fun same => whole text mem (same ▸ inside)
  rw [pieces_intercalate ne, List.flatMap_def, List.map_congr_left alone, ← List.flatMap_def,
    ← List.map_eq_flatMap, List.map_id']

theorem prefix_pieces_iff (ne : texts ≠ []) (whole : ∀ text ∈ texts, x ∉ text) :
    texts <+: pieces (· == x) cs ↔
      cs = [x].intercalate texts ∨ [x].intercalate texts ++ [x] <+: cs := by
  have joined := pieces_intercalate_of_not_mem ne whole
  constructor
  · rintro ⟨rest, cut⟩
    have text := intercalate_pieces x cs
    rw [← cut] at text
    by_cases none : rest = []
    · left
      rw [← text, none, List.append_nil]
    · right
      refine ⟨[x].intercalate rest, ?_⟩
      rw [← text, intercalate_append ne none, List.append_assoc, List.singleton_append]
  · rintro (rfl | ⟨back, rfl⟩)
    · exact joined.symm ▸ List.prefix_refl texts
    · rw [List.append_assoc, List.singleton_append,
        pieces_append (p := (· == x)) (beq_self_eq_true x), joined]
      exact List.prefix_append texts _

end Joined

namespace Path

def NoSlash (part : String) : Prop := '/' ∉ part.toList

theorem split_append (front back : String) :
    split (front ++ "/" ++ back) = split front ++ split back := by
  have slash : ("/" : String).toList = ['/'] := by simp
  simp only [split, String.toList_append, slash, List.append_assoc, List.singleton_append]
  rw [pieces_append (by decide), List.map_append]

theorem split_slash_append (path : String) : split ("/" ++ path) = "" :: split path := by
  have parted := split_append "" path
  have empty : split "" = [""] := rfl
  rw [String.empty_append, empty] at parted
  exact parted

theorem split_of_noSlash {part : String} (h : NoSlash part) : split part = [part] := by
  have whole : pieces (· == '/') part.toList = [part.toList] := by
    refine pieces_of_forall fun c hc => ?_
    have : c ≠ '/' := fun same => h (same ▸ hc)
    simpa using this
  simp [split, whole]

theorem noSlash_of_mem_split {path part : String} (h : part ∈ split path) : NoSlash part := by
  obtain ⟨w, hw, rfl⟩ := List.mem_map.mp h
  intro slash
  rw [String.toList_ofList] at slash
  have := not_of_mem_pieces hw '/' slash
  simp at this

theorem filter_split_dropEndSlashes (path : String) :
    (split (dropEndSlashes path)).filter (· != "") = (split path).filter (· != "") := by
  obtain ⟨dropped, whole, slashes⟩ := dropEndWhile_append (· == '/') path.toList
  cases dropped with
  | nil =>
    have same : dropEndSlashes path = path := by
      apply String.toList_inj.mp
      rw [dropEndSlashes, String.toList_ofList]
      simpa using whole.symm
    rw [same]
  | cons c cs =>
    obtain ⟨first, others⟩ := List.forall_mem_cons.mp slashes
    have cut : pieces (· == '/') path.toList =
        pieces (· == '/') (dropEndSlashes path).toList ++ pieces (· == '/') cs := by
      rw [dropEndSlashes, String.toList_ofList, ← pieces_append (p := (· == '/')) first, ← whole]
    have nothing : ((pieces (· == '/') cs).map String.ofList).filter (· != "") = [] := by
      refine List.filter_eq_nil_iff.mpr fun part hpart => ?_
      obtain ⟨w, hw, rfl⟩ := List.mem_map.mp hpart
      simp [pieces_of_all others w hw]
    simp only [split]
    rw [cut, List.map_append, List.filter_append, nothing, List.append_nil]

theorem join_singleton (name : String) : join [name] = name := by simp [join]

theorem join_cons (part next : String) (rest : List String) :
    join (part :: next :: rest) = part ++ "/" ++ join (next :: rest) := by
  apply String.toList_inj.mp
  simp [join, String.toList_intercalate]

theorem split_join {parts : List String} (ne : parts ≠ []) (h : ∀ part ∈ parts, NoSlash part) :
    split (join parts) = parts := by
  have slash : ("/" : String).toList = ['/'] := by simp
  have found : pieces (· == '/') (join parts).toList = parts.map String.toList := by
    rw [join, String.toList_intercalate, slash]
    exact pieces_intercalate_of_not_mem (by simpa using ne) (List.forall_mem_map.mpr h)
  rw [split, found, List.map_map, String.ofList_comp_toList, List.map_id]

structure Named (part : String) : Prop where
  notEmpty : part ≠ ""
  noSlash : NoSlash part

theorem filter_split_join {parts : List String} (h : ∀ part ∈ parts, Named part) :
    (split (join parts)).filter (· != "") = parts := by
  have nonempty : parts.filter (· != "") = parts := by
    refine List.filter_eq_self.mpr fun part hpart => ?_
    simpa using (h part hpart).notEmpty
  cases parts with
  | nil => rfl
  | cons part rest =>
    rw [split_join (by simp) fun part hpart => (h part hpart).noSlash, nonempty]

theorem isAbsolute_join {parts : List String} (h : ∀ part ∈ parts, Named part) :
    isAbsolute (join parts) = false := by
  cases parts with
  | nil => rfl
  | cons part rest =>
    obtain ⟨notEmpty, noSlash⟩ := h part List.mem_cons_self
    have begins : (join (part :: rest)).toList.head? = part.toList.head? := by
      cases rest with
      | nil => simp [join]
      | cons next rest =>
        rw [join_cons, String.toList_append, String.toList_append]
        cases chars : part.toList with
        | nil => exact absurd (String.toList_eq_nil_iff.mp chars) notEmpty
        | cons c cs => rfl
    rw [isAbsolute, begins]
    cases chars : part.toList with
    | nil => rfl
    | cons c cs =>
      have : c ≠ '/' := fun same => noSlash (by rw [chars, same]; exact List.mem_cons_self)
      simpa using this

theorem below_append (dir front back : String) : below dir (front ++ back) = below dir front ++ back := by
  unfold below
  split
  · rfl
  · split <;> simp only [String.append_assoc]

private theorem join_append_eq {parts names : List String} (ne : parts ≠ []) (ne' : names ≠ []) :
    join (parts ++ names) = join parts ++ "/" ++ join names := by
  have slash : ("/" : String).toList = ['/'] := by simp
  apply String.toList_inj.mp
  simp only [join, String.toList_append, String.toList_intercalate, slash, List.map_append]
  rw [intercalate_append (by simpa using ne) (by simpa using ne'), List.append_assoc,
    List.singleton_append]

theorem join_append (parts names : List String) : ∃ rest, join (parts ++ names) = join parts ++ rest := by
  by_cases none : parts = []
  · exact ⟨join names, by rw [none, List.nil_append]; simp [join]⟩
  · by_cases none' : names = []
    · exact ⟨"", by rw [none', List.append_nil, String.append_empty]⟩
    · exact ⟨"/" ++ join names, by rw [join_append_eq none none', String.append_assoc]⟩

theorem join_split (path : String) : join (split path) = path := by
  apply String.toList_inj.mp
  have chars : (split path).map String.toList = pieces (· == '/') path.toList := by
    simp [split, Function.comp_def]
  rw [join, String.toList_intercalate, chars]
  exact intercalate_pieces '/' path.toList

theorem cut_cases (path : String) :
    (NoSlash path ∧ cut path = none) ∨
      ∃ dir last, path = dir ++ "/" ++ last ∧ NoSlash last ∧ cut path = some (dir, last) := by
  have some : split path ≠ [] := by simp [split, pieces_ne_nil]
  obtain ⟨front, last, ends⟩ := (List.eq_nil_or_concat (split path)).resolve_left some
  rw [List.concat_eq_append] at ends
  have whole := join_split path
  have isLast : last ∈ split path := by simp [ends]
  have noSlash : NoSlash last := noSlash_of_mem_split isLast
  rw [ends] at whole
  by_cases none : front = []
  · subst none
    rw [List.nil_append] at ends whole
    refine Or.inl ⟨?_, by simp [cut, ends]⟩
    rwa [← whole, join_singleton]
  · refine Or.inr ⟨join front, last, ?_, noSlash, ?_⟩
    · rw [← whole, join_append_eq none (List.cons_ne_nil last []), join_singleton]
    · obtain ⟨others, next, isFront⟩ := (List.eq_nil_or_concat front).resolve_left none
      simp [cut, ends, isFront]

end Path

end ProofHost.Text
