import ProofHost.Document.Basic

/-!
What a document answers about its states after each change of its entries: which states are live,
what their parents are, and which numbers are recorded. Entries that ascend stay ascending.
-/

set_option autoImplicit false

namespace ProofHost

namespace Document

variable {d : Document} {id x p : StateId} {text : String} {dead dead' : StateId → Bool}
  {entries : List Entry}

private theorem find?_record (e : Entry) (entries : List Entry) (x : StateId) :
    (record e entries).find? (fun e => e.id == x) =
      if x = e.id then some e else entries.find? fun e => e.id == x := by
  induction entries with
  | nil =>
    by_cases h : x = e.id
    · simp [record, h]
    · simp [record, h, Ne.symm h]
  | cons other rest ih =>
    simp only [record]
    split
    · by_cases h : x = e.id
      · simp [h]
      · simp [List.find?_cons, h, Ne.symm h]
    · rename_i notLess
      split
      · rename_i same
        by_cases h : x = e.id
        · simp [h]
        · have other_ne : other.id ≠ x := fun hx => h (by rw [same, hx])
          simp [h, Ne.symm h, other_ne]
      · rename_i other_ne
        by_cases h : x = e.id
        · subst h
          have found : (record e rest).find? (fun e' => e'.id == e.id) = some e := by simpa using ih
          simp [Ne.symm other_ne, found]
        · simp only [List.find?_cons, ih, h, if_false]

theorem find?_kill (dead : StateId → Bool) (entries : List Entry) (x : StateId) :
    (kill dead entries).find? (fun e => e.id == x) =
      (entries.find? fun e => e.id == x).map fun e =>
        if dead e.id then { e with live := false } else e := by
  have keepsId : ((fun e : Entry => e.id == x) ∘ fun e : Entry =>
      if dead e.id then { e with live := false } else e) = fun e => e.id == x := by
    funext e
    by_cases h : dead e.id <;> simp [h]
  rw [kill, List.find?_map, keepsId]

private theorem mem_record {e other : Entry} {entries : List Entry} (h : other ∈ record e entries) :
    other = e ∨ other ∈ entries := by
  induction entries with
  | nil => simpa [record] using h
  | cons first rest ih =>
    simp only [record] at h
    split at h
    · simpa using h
    · split at h
      · rcases List.mem_cons.mp h with rfl | h
        · exact Or.inl rfl
        · exact Or.inr (List.mem_cons_of_mem _ h)
      · rcases List.mem_cons.mp h with rfl | h
        · exact Or.inr List.mem_cons_self
        · rcases ih h with rfl | h
          · exact Or.inl rfl
          · exact Or.inr (List.mem_cons_of_mem _ h)

private theorem exists_mem_kill {e : Entry} {entries : List Entry} (h : e ∈ kill dead entries) :
    ∃ other ∈ entries, other.id = e.id ∧ other.parent = e.parent := by
  obtain ⟨other, hmem, rfl⟩ := List.mem_map.mp h
  refine ⟨other, hmem, ?_⟩
  split <;> exact ⟨rfl, rfl⟩

theorem forall_mem_kill {P : StateId → Prop} {entries : List Entry} (h : ∀ e ∈ entries, P e.id) :
    ∀ e ∈ kill dead entries, P e.id := by
  intro e hmem
  obtain ⟨other, hother, same, -⟩ := exists_mem_kill hmem
  exact same ▸ h other hother

theorem forall_mem_record {P : StateId → Prop} {e : Entry} {entries : List Entry}
    (h : ∀ e ∈ entries, P e.id) (new : P e.id) : ∀ other ∈ record e entries, P other.id := by
  intro other hmem
  rcases mem_record hmem with rfl | hmem
  · exact new
  · exact h other hmem

def Ascending (entries : List Entry) : Prop := entries.Pairwise fun a b => a.id < b.id

theorem Ascending.record {entries : List Entry} (h : Ascending entries) (e : Entry) :
    Ascending (record e entries) := by
  induction entries with
  | nil => simp [Ascending, Document.record]
  | cons first rest ih =>
    obtain ⟨hfirst, hrest⟩ := List.pairwise_cons.mp h
    simp only [Document.record]
    split
    · rename_i less
      refine List.pairwise_cons.mpr ⟨?_, h⟩
      intro other hmem
      rcases List.mem_cons.mp hmem with rfl | hmem
      · exact less
      · exact UInt64.lt_trans less (hfirst other hmem)
    · split
      · rename_i same
        exact List.pairwise_cons.mpr ⟨fun other hmem => same ▸ hfirst other hmem, hrest⟩
      · rename_i notLess ne
        refine List.pairwise_cons.mpr ⟨?_, ih hrest⟩
        intro other hmem
        rcases mem_record hmem with rfl | hmem
        · grind
        · exact hfirst other hmem

theorem Ascending.kill {entries : List Entry} (h : Ascending entries) (dead : StateId → Bool) :
    Ascending (kill dead entries) := by
  refine List.pairwise_map.mpr (h.imp ?_)
  intro a b less
  split <;> split <;> exact less

theorem kill_kill : kill dead (kill dead' entries) = kill (fun x => dead x || dead' x) entries := by
  simp only [kill, List.map_map]
  refine List.map_congr_left fun e _ => ?_
  by_cases h' : dead' e.id <;> by_cases h : dead e.id <;> simp [h, h']

theorem kill_eq_self (h : ∀ e ∈ entries, dead e.id = true → e.live = false) :
    kill dead entries = entries := by
  rw [kill, List.map_congr_left (g := id), List.map_id]
  intro e mem
  split
  · rename_i isDead
    simp [← h e mem isDead]
  · rfl

theorem record_eq_append {e : Entry} (above : ∀ other ∈ entries, other.id < e.id) :
    record e entries = entries ++ [e] := by
  induction entries with
  | nil => rfl
  | cons other rest ih =>
    obtain ⟨first, above⟩ := List.forall_mem_cons.mp above
    have later : ¬ e.id < other.id := by grind
    have ne : e.id ≠ other.id := by grind
    rw [record, if_neg later, if_neg ne, ih above, List.cons_append]

theorem kill_append_last {e : Entry} (above : ∀ other ∈ entries, other.id < e.id) :
    kill ([e.id].contains ·) (entries ++ [e]) = entries ++ [{ e with live := false }] := by
  have others : kill ([e.id].contains ·) entries = entries := by
    refine kill_eq_self fun other mem same => ?_
    have same : other.id = e.id := by simpa using same
    exact absurd (above other mem) (same ▸ UInt64.lt_irrefl _)
  rw [kill, List.map_append, ← kill, others]
  simp

theorem isLive_iff : d.isLive x = true ↔ ∃ e, d.find? x = some e ∧ e.live = true := by
  simp [isLive, Option.any_eq_true]

theorem mem_of_find? {e : Entry} (h : d.find? x = some e) : e ∈ d.entries ∧ e.id = x :=
  ⟨List.mem_of_find?_eq_some h, by simpa using List.find?_some h⟩

theorem find?_of_mem (sorted : Ascending d.entries) {e : Entry} (h : e ∈ d.entries) :
    d.find? e.id = some e := by
  obtain ⟨before, after, split⟩ := List.append_of_mem h
  have first : ∀ other ∈ before, (other.id == e.id) = false := by
    intro other hmem
    have less : other.id < e.id := by
      rw [Ascending, split] at sorted
      exact (List.pairwise_append.mp sorted).2.2 other hmem e List.mem_cons_self
    simpa using UInt64.ne_of_lt less
  rw [find?, split, List.find?_append, List.find?_eq_none.mpr (by simpa using first)]
  simp

theorem wasIssued_of_isLive (h : d.isLive x = true) : d.wasIssued x = true := by
  obtain ⟨e, found, -⟩ := isLive_iff.mp h
  simp [wasIssued, found]

theorem exists_mem_of_wasIssued (h : d.wasIssued x = true) : ∃ e ∈ d.entries, e.id = x := by
  obtain ⟨e, found⟩ := Option.isSome_iff_exists.mp h
  exact ⟨e, mem_of_find? found⟩

theorem wasIssued_of_mem {e : Entry} (h : e ∈ d.entries) : d.wasIssued e.id = true := by
  rw [wasIssued, find?, List.find?_isSome]
  exact ⟨e, h, beq_self_eq_true e.id⟩

theorem wasIssued_of_above (above : ∀ e ∈ d.entries, e.id < id) : d.wasIssued id = false := by
  refine Bool.eq_false_iff.mpr fun issued => ?_
  obtain ⟨e, hmem, rfl⟩ := exists_mem_of_wasIssued issued
  exact UInt64.lt_irrefl _ (above e hmem)

theorem wasIssued_of_parentOf (parent : d.parentOf x = some p) : d.wasIssued x = true := by
  rw [parentOf, Option.bind_eq_some_iff] at parent
  obtain ⟨e, found, -⟩ := parent
  rw [wasIssued, found]
  rfl

theorem mem_liveIds (sorted : Ascending d.entries) : x ∈ d.liveIds ↔ d.isLive x = true := by
  simp only [liveIds, List.mem_map, List.mem_filter]
  constructor
  · rintro ⟨e, ⟨mem, live⟩, rfl⟩
    exact isLive_iff.mpr ⟨e, find?_of_mem sorted mem, live⟩
  · intro live
    obtain ⟨e, found, live⟩ := isLive_iff.mp live
    obtain ⟨mem, same⟩ := mem_of_find? found
    exact ⟨e, ⟨mem, live⟩, same⟩

theorem liveIds_ascending (sorted : Ascending d.entries) : d.liveIds.Pairwise (· < ·) :=
  List.pairwise_map.mpr (sorted.filter _)

@[simp] theorem isLive_issue : d.issue.2.isLive x = d.isLive x := rfl

@[simp] theorem parentOf_issue : d.issue.2.parentOf x = d.parentOf x := rfl

@[simp] theorem entries_issue : d.issue.2.entries = d.entries := rfl

@[simp] theorem root_issue : d.issue.2.root = d.root := rfl

@[simp] theorem tip_issue : d.issue.2.tip = d.tip := rfl

@[simp] theorem isLive_bump : (d.bump id).isLive x = d.isLive x := rfl

@[simp] theorem parentOf_bump : (d.bump id).parentOf x = d.parentOf x := rfl

@[simp] theorem entries_bump : (d.bump id).entries = d.entries := rfl

@[simp] theorem root_bump : (d.bump id).root = d.root := rfl

@[simp] theorem tip_bump : (d.bump id).tip = d.tip := rfl

theorem find?_reset : (d.reset id).find? x =
    if x = id then some ⟨id, none, "", true⟩
    else (d.find? x).map fun e => { e with live := false } := by
  simp only [reset, find?, find?_record, entries_bump, find?_kill, if_true]

theorem isLive_reset : (d.reset id).isLive x = true ↔ x = id := by
  by_cases h : x = id
  · simp [isLive, find?_reset, h]
  · rw [isLive, find?_reset, if_neg h]
    cases d.find? x <;> simp [h]

theorem parentOf_reset : (d.reset id).parentOf x = if x = id then none else d.parentOf x := by
  by_cases h : x = id
  · simp [parentOf, find?_reset, h]
  · simp only [parentOf, find?_reset, h, if_false]
    cases d.find? x <;> rfl

theorem find?_attach : (d.attach id p text).find? x =
    if x = id then some ⟨id, some p, text, true⟩ else d.find? x := by
  simp only [attach, find?, find?_record]

theorem isLive_attach :
    (d.attach id p text).isLive x = true ↔ x = id ∨ d.isLive x = true := by
  by_cases h : x = id <;> simp [isLive, find?_attach, h]

theorem parentOf_attach :
    (d.attach id p text).parentOf x = if x = id then some p else d.parentOf x := by
  by_cases h : x = id <;> simp [parentOf, find?_attach, h]

theorem wasIssued_attach (recorded : d.wasIssued x = true) :
    (d.attach id p text).wasIssued x = true := by
  rw [wasIssued, find?_attach]
  split
  · rfl
  · exact recorded

private theorem find?_killed {root tip : Option StateId} {next : UInt64} :
    (Document.mk (kill dead d.entries) root tip next).find? x =
      (d.find? x).map fun e => if dead e.id then { e with live := false } else e :=
  find?_kill dead d.entries x

theorem isLive_killed {root tip : Option StateId} {next : UInt64} :
    (Document.mk (kill dead d.entries) root tip next).isLive x = true ↔
      d.isLive x = true ∧ dead x = false := by
  rw [isLive, isLive, find?_killed]
  cases h : d.find? x with
  | none => simp
  | some e =>
    have same : e.id = x := (mem_of_find? h).2
    by_cases hdead : dead x <;> simp [same, hdead]

theorem parentOf_killed {root tip : Option StateId} {next : UInt64} :
    (Document.mk (kill dead d.entries) root tip next).parentOf x = d.parentOf x := by
  rw [parentOf, parentOf, find?_killed]
  cases d.find? x with
  | none => rfl
  | some e => by_cases hdead : dead e.id <;> simp [hdead]

theorem textOf_killed {root tip : Option StateId} {next : UInt64} :
    (Document.mk (kill dead d.entries) root tip next).textOf x = d.textOf x := by
  rw [textOf, textOf, find?_killed]
  cases d.find? x with
  | none => rfl
  | some e => by_cases hdead : dead e.id <;> simp [hdead]

theorem wasIssued_killed {root tip : Option StateId} {next : UInt64} :
    (Document.mk (kill dead d.entries) root tip next).wasIssued x = d.wasIssued x := by
  simp only [wasIssued, find?, find?_kill, Option.isSome_map]

theorem isLive_truncate :
    (d.truncate id).isLive x = true ↔ d.isLive x = true ∧ x < id := by
  rw [truncate, isLive_killed]
  simp

theorem parentOf_truncate : (d.truncate id).parentOf x = d.parentOf x := by
  rw [truncate, parentOf_killed]

theorem isLive_prune :
    (d.prune id).isLive x = true ↔ d.isLive x = true ∧ x ∉ d.subtree id := by
  simp only [prune, isLive_killed]
  simp

theorem parentOf_prune : (d.prune id).parentOf x = d.parentOf x := by
  simp only [prune, parentOf_killed]

end Document

end ProofHost
