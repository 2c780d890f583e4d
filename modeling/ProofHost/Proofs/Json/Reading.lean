import ProofHost.Proofs.Json.RoundTrip

/-!
What a reader makes of a text. However the text is spelled, the value has the fields of its objects
in order, each name once, and no more containers inside one another than the reader accepts. So a
value that was read is always one whose own text could be read again, floating-point numbers apart.
-/

set_option autoImplicit false

namespace ProofHost.Json

variable {ε ν σ : Type} {cs rest : List Char} {v : Json} {name : String}
  {fields : List (String × Json)} {field : String × Json}

private theorem mem_insertField (there : field ∈ insertField name v fields) :
    field = (name, v) ∨ field ∈ fields := by
  induction fields with
  | nil => exact Or.inl (List.mem_singleton.mp there)
  | cons first later ih =>
    obtain ⟨other, old⟩ := first
    rw [insertField] at there
    split at there
    · exact List.mem_cons.mp there
    · split at there
      · exact (List.mem_cons.mp there).imp_right (List.mem_cons_of_mem _)
      · rcases List.mem_cons.mp there with here | there
        · exact Or.inr (List.mem_cons.mpr (Or.inl here))
        · exact (ih there).imp_right (List.mem_cons_of_mem _)

private theorem ascending_insertField (ascending : fields.Pairwise fun f g => f.1 < g.1)
    (name : String)
    (v : Json) : (insertField name v fields).Pairwise fun f g => f.1 < g.1 := by
  induction fields with
  | nil => exact List.pairwise_singleton _ _
  | cons first later ih =>
    obtain ⟨other, old⟩ := first
    obtain ⟨least, inOrder⟩ := List.pairwise_cons.mp ascending
    rw [insertField]
    split
    · rename_i less
      refine List.pairwise_cons.mpr ⟨fun g there => ?_, ascending⟩
      rcases List.mem_cons.mp there with rfl | there
      · exact less
      · exact String.lt_trans less (least g there)
    · rename_i notLess
      split
      · rename_i same
        subst same
        exact List.pairwise_cons.mpr ⟨least, inOrder⟩
      · rename_i differ
        have greater : other < name := by
          refine String.not_le.mp fun le => ?_
          exact differ (String.le_antisymm le (String.not_lt.mp notLess))
        refine List.pairwise_cons.mpr ⟨fun g there => ?_, ih inOrder⟩
        rcases mem_insertField there with rfl | there
        · exact greater
        · exact least g there

private theorem readMoreItems_keeps {step : σ → Reader ε σ} {P : σ → Prop}
    (keeps : ∀ state cs state' rest, P state → step state cs = .ok (state', rest) → P state')
    {fuel : Nat} {state state' : σ} (before : P state)
    (done : readMoreItems step fuel state cs = .ok (state', rest)) : P state' := by
  induction fuel generalizing state cs with
  | zero => cases done
  | succ fuel ih =>
    rw [readMoreItems] at done
    split at done
    · cases done
      exact before
    · split at done
      · cases done
      · split at done
        · rename_i taken
          exact ih (keeps _ _ _ _ before taken) done
        · cases done
    · cases done

private theorem readItems_keeps {step : σ → Reader ε σ} {P : σ → Prop}
    (keeps : ∀ state cs state' rest, P state → step state cs = .ok (state', rest) → P state')
    {state state' : σ} (before : P state) (done : readItems step state cs = .ok (state', rest)) :
    P state' := by
  rw [readItems] at done
  split at done
  · cases done
    exact before
  · split at done
    · rename_i taken
      exact readMoreItems_keeps keeps (keeps _ _ _ _ before taken) done
    · cases done

private theorem readField_keeps {body : Reader ε ν} {step : σ → ν → Reader ε σ} {P : σ → Prop}
    (keeps : ∀ state name cs state' rest, P state → step state name cs = .ok (state', rest) →
      P state')
    {state state' : σ} (before : P state)
    (done : readField body step state cs = .ok (state', rest)) : P state' := by
  rw [readField] at done
  split at done
  · exact keeps _ _ _ _ _ before done
  · cases done

private theorem readMoreFields_keeps {body : Reader ε ν} {step : σ → ν → Reader ε σ} {P : σ → Prop}
    (keeps : ∀ state name cs state' rest, P state → step state name cs = .ok (state', rest) →
      P state')
    {fuel : Nat} {state state' : σ} (before : P state)
    (done : readMoreFields body step fuel state cs = .ok (state', rest)) : P state' := by
  induction fuel generalizing state cs with
  | zero => cases done
  | succ fuel ih =>
    rw [readMoreFields] at done
    split at done
    · cases done
      exact before
    · split at done
      · rename_i taken
        exact ih (readField_keeps keeps before taken) done
      · cases done
    · cases done

private theorem readFields_keeps {body : Reader ε ν} {step : σ → ν → Reader ε σ} {P : σ → Prop}
    (keeps : ∀ state name cs state' rest, P state → step state name cs = .ok (state', rest) →
      P state')
    {state state' : σ} (before : P state)
    (done : readFields body step state cs = .ok (state', rest)) : P state' := by
  rw [readFields] at done
  split at done
  · cases done
    exact before
  · split at done
    · rename_i taken
      exact readMoreFields_keeps keeps (readField_keeps keeps before taken) done
    · cases done

/-- A value in order with at most so many containers inside one another. -/
structure Tidy (n : Nat) (v : Json) : Prop where
  ordered : v.Ordered
  fits : v.depth ≤ n

theorem map_eq_ok {α β : Type} {r : Except ε α} {f : α → β} {b : β} (done : r.map f = .ok b) :
    ∃ a, r = .ok a ∧ f a = b := by
  cases r with
  | error e => cases done
  | ok a => exact ⟨a, rfl, Except.ok.inj done⟩

private theorem tidy_of_readScalar (n : Nat) (done : readScalar (ε := ε) cs = .ok (v, rest)) :
    v.Tidy n := by
  have scalar : v.Ordered ∧ v.depth = 0 := by
    unfold readScalar at done
    split at done
    · cases done
    · repeat' split at done
      all_goals
        obtain ⟨made, -, same⟩ := map_eq_ok done
        cases same
      · exact ⟨.null, rfl⟩
      · exact ⟨.bool true, rfl⟩
      · exact ⟨.bool false, rfl⟩
      · exact ⟨.string made.1, rfl⟩
      · exact ⟨.number made.1, rfl⟩
  exact ⟨scalar.1, Nat.le_trans (Nat.le_of_eq scalar.2) (Nat.zero_le n)⟩

theorem tidy_array {n : Nat} {items : List Json} :
    Tidy (n + 1) (.array items) ↔ ∀ v ∈ items, v.Tidy n := by
  constructor
  · rintro ⟨ordered, fits⟩ v there
    have inside := depthItems_le.mp (Nat.le_of_succ_le_succ fits)
    cases ordered with
    | array ordered => exact ⟨ordered v there, inside v there⟩
  · intro all
    have inside := depthItems_le.mpr fun v there => (all v there).fits
    exact ⟨.array fun v there => (all v there).ordered, Nat.succ_le_succ inside⟩

theorem tidy_object {n : Nat} :
    Tidy (n + 1) (.object fields) ↔
      (fields.Pairwise fun f g => f.1 < g.1) ∧ ∀ f ∈ fields, f.2.Tidy n := by
  constructor
  · rintro ⟨ordered, fits⟩
    have inside := depthFields_le.mp (Nat.le_of_succ_le_succ fits)
    cases ordered with
    | object ascending ordered =>
      exact ⟨ascending, fun f there => ⟨ordered f there, inside f there⟩⟩
  · rintro ⟨ascending, all⟩
    have inside := depthFields_le.mpr fun f there => (all f there).fits
    exact ⟨.object ascending fun f there => (all f there).ordered, Nat.succ_le_succ inside⟩

def TidyInside (ε : Type) (n : Nat) : Prop :=
  ∀ cs v rest, readValue (ε := ε) n cs = .ok (v, rest) → v.Tidy n

private theorem tidy_of_readItems {n : Nat} {items : List Json} (inside : TidyInside ε n)
    (read : readItems (ε := ε) (takeItem n) [] cs = .ok (items, rest)) :
    Tidy (n + 1) (.array items.reverse) := by
  have kept : ∀ v ∈ items, v.Tidy n := by
    refine readItems_keeps (P := fun items => ∀ v ∈ items, v.Tidy n) ?_ (List.forall_mem_nil _) read
    intro before cs now rest all taken
    obtain ⟨⟨x, after⟩, value, same⟩ := map_eq_ok taken
    cases same
    exact List.forall_mem_cons.mpr ⟨inside _ _ _ value, all⟩
  exact tidy_array.mpr fun v there => kept v (List.mem_reverse.mp there)

private theorem tidy_of_readFields {n : Nat} (inside : TidyInside ε n)
    (read : readFields (ε := ε) readString (takeField n) [] cs = .ok (fields, rest)) :
    Tidy (n + 1) (.object fields) := by
  refine readFields_keeps (P := fun fields => Tidy (n + 1) (.object fields)) ?_
    (tidy_object.mpr ⟨.nil, List.forall_mem_nil _⟩) read
  intro before name cs now rest tidy taken
  obtain ⟨ascending, all⟩ := tidy_object.mp tidy
  unfold takeField afterColon at taken
  split at taken
  · obtain ⟨⟨x, after⟩, value, same⟩ := map_eq_ok taken
    cases same
    refine tidy_object.mpr ⟨ascending_insertField ascending name x, fun f there => ?_⟩
    rcases mem_insertField there with rfl | there
    · exact inside _ _ _ value
    · exact all f there
  · cases taken

private theorem tidy_of_readValue (depth : Nat) : TidyInside ε depth := by
  induction depth with
  | zero =>
    intro cs v rest done
    unfold readValue at done
    split at done
    · cases done
    · cases done
    · exact tidy_of_readScalar 0 done
  | succ n ih =>
    intro cs v rest done
    unfold readValue at done
    split at done
    · obtain ⟨⟨items, after⟩, read, same⟩ := map_eq_ok done
      cases same
      exact tidy_of_readItems ih read
    · obtain ⟨⟨fields, after⟩, read, same⟩ := map_eq_ok done
      cases same
      exact tidy_of_readFields ih read
    · exact tidy_of_readScalar (n + 1) done

/-- However a text is spelled, its value is in order and has few containers inside one another. -/
theorem tidy_of_parse {text : String} (parsed : parse text = some v) : v.Tidy maxDepth := by
  unfold parse parseWithin readAll at parsed
  split at parsed
  · rename_i read
    split at parsed
    · cases parsed
      exact tidy_of_readValue maxDepth _ _ _ read
    · cases parsed
  · cases parsed

end ProofHost.Json
