import ProofHost.Proofs.Document.Drawing
import ProofHost.Proofs.Text.Path

/-!
A line of a drawing read back. It tells its margin, whether its state is the last of its siblings,
the number of the state and whether the state is the tip, whatever its sentence says: the margin is
made of strips of four characters, which do not begin as a connector does, a number has no blank in
it, and no excerpt has a line feed.
-/

set_option autoImplicit false

namespace ProofHost

namespace Document

variable {d d' : Document} {id id' : StateId} {isLast isLast' : Bool} {lasts lasts' : List Bool}

/-- What continues the margin of a state in the lines below it. -/
def strip (isLast : Bool) : List Char := (if isLast then "    " else "│   ").toList

def connector (isLast : Bool) : List Char := (if isLast then "└── " else "├── ").toList

def marginBelow (lasts : List Bool) : List Char := lasts.flatMap strip

private theorem marginBelow_cons (isLast : Bool) (lasts : List Bool) :
    marginBelow (isLast :: lasts) = strip isLast ++ marginBelow lasts :=
  List.flatMap_cons

private theorem marginBelow_concat (lasts : List Bool) (isLast : Bool) :
    marginBelow (lasts ++ [isLast]) = marginBelow lasts ++ strip isLast := by
  simp [marginBelow]

private theorem strip_ne_connector (isLast isLast' : Bool) (rest rest' : List Char) :
    strip isLast ++ rest ≠ connector isLast' ++ rest' := by
  cases isLast <;> cases isLast' <;> simp [strip, connector]

private theorem strip_inj {rest rest' : List Char}
    (same : strip isLast ++ rest = strip isLast' ++ rest') :
    isLast = isLast' ∧ rest = rest' := by
  cases isLast <;> cases isLast' <;> simp_all [strip]

private theorem connector_inj {rest rest' : List Char}
    (same : connector isLast ++ rest = connector isLast' ++ rest') :
    isLast = isLast' ∧ rest = rest' := by
  cases isLast <;> cases isLast' <;> simp_all [connector]

private theorem margin_connector_inj {rest rest' : List Char}
    (same : marginBelow lasts ++ (connector isLast ++ rest) =
      marginBelow lasts' ++ (connector isLast' ++ rest')) :
    lasts = lasts' ∧ isLast = isLast' ∧ rest = rest' := by
  induction lasts generalizing lasts' with
  | nil =>
    cases lasts' with
    | nil => exact ⟨rfl, connector_inj same⟩
    | cons first lasts' =>
      rw [marginBelow_cons, List.append_assoc] at same
      exact absurd same.symm (strip_ne_connector _ _ _ _)
  | cons first lasts ih =>
    cases lasts' with
    | nil =>
      rw [marginBelow_cons, List.append_assoc] at same
      exact absurd same (strip_ne_connector _ _ _ _)
    | cons first' lasts' =>
      rw [marginBelow_cons, marginBelow_cons, List.append_assoc, List.append_assoc] at same
      obtain ⟨rfl, later⟩ := strip_inj same
      obtain ⟨rfl, ends⟩ := ih later
      exact ⟨rfl, ends⟩

def numeral (id : StateId) : List Char := (toString id.toNat).toList

private theorem numeral_eq (id : StateId) : numeral id = Nat.toDigits 10 id.toNat := by
  rw [numeral, Nat.toString_eq_repr, Nat.repr_eq_ofList_toDigits, String.toList_ofList]

private theorem numeral_inj (same : numeral id = numeral id') : id = id' := by
  rw [numeral_eq, numeral_eq] at same
  apply UInt64.toNat_inj.mp
  have value (n : Nat) : Nat.ofDigitChars 10 (Nat.toDigits 10 n) 0 = n :=
    Nat.ofDigitChars_toDigits (by decide) (by decide)
  rw [← value id.toNat, same, value]

private theorem isDigit_of_mem_numeral {c : Char} (mem : c ∈ numeral id) : c.isDigit = true := by
  rw [numeral_eq] at mem
  exact Nat.isDigit_of_mem_toDigits (by decide) (by decide) mem

private theorem numeral_blank_inj {rest rest' : List Char}
    (same : numeral id ++ ' ' :: rest = numeral id' ++ ' ' :: rest') : id = id' := by
  have noBlank (id : StateId) : ∀ c ∈ numeral id, (c != ' ') = true := by
    intro c mem
    have digit := isDigit_of_mem_numeral mem
    apply bne_iff_ne.mpr
    rintro rfl
    revert digit
    decide
  have front := congrArg (List.takeWhile (· != ' ')) same
  rw [List.takeWhile_append_of_pos (noBlank id), List.takeWhile_append_of_pos (noBlank id')] at front
  exact numeral_inj (by simpa using front)

def Row.body (d : Document) (r : Row) : List Char :=
  r.margin ++ (connector r.isLast ++ [if d.tip = some r.state then '●' else '○', ' '] ++
    (numeral r.state ++ ' ' :: excerpt ((d.textOf r.state).getD "")))

private theorem Row.line_eq (d : Document) (r : Row) : r.line d = r.body d ++ ['\n'] := by
  simp [Row.line, Row.body, nodeLine, connector, numeral]

private theorem body_inj {r r' : Row} (isMargin : r.margin = marginBelow lasts)
    (isMargin' : r'.margin = marginBelow lasts') (same : r.body d = r'.body d') :
    r = r' ∧ (d.tip = some r.state ↔ d'.tip = some r.state) := by
  obtain ⟨margin, isLast, id⟩ := r
  obtain ⟨margin', isLast', id'⟩ := r'
  simp only at isMargin isMargin'
  subst isMargin isMargin'
  simp only [Row.body, List.append_assoc] at same
  obtain ⟨rfl, rfl, same⟩ := margin_connector_inj same
  simp only [List.cons_append, List.nil_append, List.cons.injEq, true_and] at same
  obtain ⟨mark, same⟩ := same
  obtain rfl := numeral_blank_inj same
  refine ⟨rfl, ?_⟩
  by_cases tip : d.tip = some id <;> by_cases tip' : d'.tip = some id <;> simp_all

private theorem trim_subset (cs : List Char) : Text.trim cs ⊆ cs := by
  intro c mem
  have mem : c ∈ ((cs.dropWhile Text.isBlank).reverse.dropWhile Text.isBlank).reverse := mem
  have mem := (List.dropWhile_sublist _).mem (List.mem_reverse.mp mem)
  exact (List.dropWhile_sublist _).mem (List.mem_reverse.mp mem)

private theorem dropReturn_subset (line : List Char) : Text.dropReturn line ⊆ line := by
  unfold Text.dropReturn
  split
  · rename_i rest ends
    intro c mem
    apply List.mem_reverse.mp
    rw [ends]
    exact List.mem_cons_of_mem _ (List.mem_reverse.mp mem)
  · exact fun _ mem => mem

private theorem noLineFeed_of_mem_lines {cs line : List Char} (mem : line ∈ Text.lines cs) :
    '\n' ∉ line := by
  have piece {l : List Char} (mem : l ∈ Text.pieces (· == '\n') cs) : '\n' ∉ l := by
    intro feed
    have := Text.not_of_mem_pieces mem '\n' feed
    simp at this
  unfold Text.lines at mem
  split at mem
  · cases mem
  · rename_i last ended cut
    have pieces {l : List Char} (mem : l ∈ last :: ended) : '\n' ∉ l :=
      piece (List.mem_reverse.mp (cut ▸ mem))
    rcases List.mem_append.mp mem with mem | mem
    · obtain ⟨l, mem', rfl⟩ := List.mem_map.mp (List.mem_reverse.mp mem)
      exact fun feed => pieces (List.mem_cons_of_mem _ mem') (dropReturn_subset l feed)
    · split at mem
      · cases mem
      · rw [List.mem_singleton.mp mem]
        exact pieces List.mem_cons_self

private theorem noLineFeed_excerpt (text : String) : '\n' ∉ excerpt text := by
  have first : '\n' ∉ (Text.lines text.toList).headD [] := by
    cases cut : Text.lines text.toList with
    | nil => exact List.not_mem_nil
    | cons line rest =>
      have mem : line ∈ Text.lines text.toList := by
        rw [cut]
        exact List.mem_cons_self
      exact noLineFeed_of_mem_lines mem
  have trimmed : '\n' ∉ Text.trim ((Text.lines text.toList).headD []) :=
    fun mem => first (trim_subset _ mem)
  simp only [excerpt]
  split
  · intro mem
    rcases List.mem_append.mp mem with mem | mem
    · exact trimmed (List.take_subset _ _ mem)
    · revert mem
      decide
  · exact trimmed

private theorem noLineFeed_numeral (id : StateId) : '\n' ∉ numeral id := by
  intro mem
  have digit := isDigit_of_mem_numeral mem
  revert digit
  decide

private theorem noLineFeed_marginBelow (lasts : List Bool) : '\n' ∉ marginBelow lasts := by
  intro mem
  obtain ⟨isLast, -, mem⟩ := List.mem_flatMap.mp mem
  revert mem
  cases isLast <;> decide

private theorem noLineFeed_body {r : Row} (isMargin : r.margin = marginBelow lasts) :
    '\n' ∉ r.body d := by
  have margin := noLineFeed_marginBelow lasts
  have glyphs : '\n' ∉ connector r.isLast ++ [if d.tip = some r.state then '●' else '○', ' '] := by
    cases r.isLast <;> by_cases tip : d.tip = some r.state <;> simp [connector, tip]
  simp only [Row.body, isMargin, List.mem_append, List.mem_cons, not_or] at glyphs ⊢
  exact ⟨margin, glyphs, noLineFeed_numeral r.state, by decide, noLineFeed_excerpt _⟩

variable {rows rows' : List Row} {ids : List StateId} {root root' : StateId}

theorem Draws.margins (lasts : List Bool) (h : d.Draws (marginBelow lasts) ids rows) :
    ∀ r ∈ rows, ∃ lasts', r.margin = marginBelow lasts' := by
  generalize isMargin : marginBelow lasts = margin at h
  induction h generalizing lasts with
  | done => exact List.forall_mem_nil _
  | @next margin id rest below after _ _ ih ih' =>
    subst isMargin
    have deeper := ih _ (marginBelow_concat lasts rest.isEmpty)
    exact List.forall_mem_cons.mpr ⟨⟨lasts, rfl⟩, List.forall_mem_append.mpr ⟨deeper, ih' lasts rfl⟩⟩

private theorem drawing_eq_flatMap (d : Document) (root : StateId) (rows : List Row) :
    rootLine root ++ rows.flatMap (Row.line d) =
      (numeral root :: rows.map (Row.body d)).flatMap (· ++ ['\n']) := by
  have line : Row.line d = fun r => r.body d ++ ['\n'] := funext (Row.line_eq d)
  simp [rootLine, numeral, List.flatMap_map, line]

section Drawing

variable (margins : ∀ r ∈ rows, ∃ lasts, r.margin = marginBelow lasts)

include margins

private theorem noLineFeed_drawing (d : Document) (root : StateId) :
    ∀ line ∈ numeral root :: rows.map (Row.body d), '\n' ∉ line := by
  refine List.forall_mem_cons.mpr ⟨noLineFeed_numeral root, List.forall_mem_map.mpr ?_⟩
  intro r mem
  obtain ⟨lasts, isMargin⟩ := margins r mem
  exact noLineFeed_body isMargin

theorem length_lines_drawing (d : Document) (root : StateId) :
    (Text.lines (rootLine root ++ rows.flatMap (Row.line d))).length = rows.length + 1 := by
  rw [drawing_eq_flatMap, Text.lines_flatMap_eq_map (noLineFeed_drawing margins d root)]
  simp

variable (margins' : ∀ r ∈ rows', ∃ lasts, r.margin = marginBelow lasts)

include margins'

private theorem eq_of_bodies (same : rows.map (Row.body d) = rows'.map (Row.body d')) :
    rows = rows' ∧ ∀ r ∈ rows, d.tip = some r.state ↔ d'.tip = some r.state := by
  induction rows generalizing rows' with
  | nil =>
    have none : rows' = [] := List.map_eq_nil_iff.mp same.symm
    exact ⟨none.symm, List.forall_mem_nil _⟩
  | cons r rows ih =>
    cases rows' with
    | nil => cases same
    | cons r' rows' =>
      obtain ⟨⟨lasts, isMargin⟩, margins⟩ := List.forall_mem_cons.mp margins
      obtain ⟨⟨lasts', isMargin'⟩, margins'⟩ := List.forall_mem_cons.mp margins'
      rw [List.map_cons, List.map_cons, List.cons.injEq] at same
      obtain ⟨first, others⟩ := same
      obtain ⟨rfl, tips⟩ := ih margins margins' others
      obtain ⟨rfl, tip⟩ := body_inj isMargin isMargin' first
      exact ⟨rfl, List.forall_mem_cons.mpr ⟨tip, tips⟩⟩

theorem eq_of_drawing (same : rootLine root ++ rows.flatMap (Row.line d) =
      rootLine root' ++ rows'.flatMap (Row.line d')) :
    root = root' ∧ rows = rows' ∧
      ∀ r ∈ rows, d.tip = some r.state ↔ d'.tip = some r.state := by
  rw [drawing_eq_flatMap, drawing_eq_flatMap] at same
  have lines := Text.eq_of_flatMap_eq (noLineFeed_drawing margins d root)
    (noLineFeed_drawing margins' d' root') same
  rw [List.cons.injEq] at lines
  exact ⟨numeral_inj lines.1, eq_of_bodies margins margins' lines.2⟩

end Drawing

end Document

end ProofHost
