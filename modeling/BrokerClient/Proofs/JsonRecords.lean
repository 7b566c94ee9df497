import BrokerClient.Proofs.JsonValues

/-!
# Records are read back

Shapes read back what is written for their type. A record is written as an object; the reader goes
through its members with a draft that each member fills further. `Fills` is the way of a draft
through the members that stand in a text, and whoever follows it reads the record.

The single members need not know of one another, and the lemmas about them are put together with
`Fills.append`. What is left to show for a record is that the draft, once all its members are
filled, gives the record: that is one computation for each type.
-/

namespace BrokerClient.Json

open BrokerClient.Number

variable {α σ : Type} {depth : Nat}

/-! ## Single values -/

/-- A string is read back, whatever the reader says that it expected. -/
theorem reads_stringAs (expected s : String) :
    Reads (Shape.stringAs expected) depth (stringChars s) s := by
  rw [stringChars_eq]
  refine reads_of_cons fun fuel rest hf _ => ?_
  rw [List.length_append, List.length_singleton] at hf
  have hbody := readString_body s.toList (by omega : _ < fuel + 1) rest
  rw [List.append_assoc, List.singleton_append, Shape.stringAs, skipBlanks_cons (by decide)]
  simp [hbody, bind, Except.bind, pure, Except.pure]

theorem reads_boolean : ∀ b : Bool, Reads Shape.boolean depth (boolChars b) b
  | true => reads_of_cons fun _ _ _ _ => rfl
  | false => reads_of_cons fun _ _ _ _ => rfl

/-- A number that a word holds is read back. -/
theorem reads_word {n : Nat} (h : n ≤ wordMax) : Reads Shape.word depth (natChars n) n := by
  obtain ⟨c, cs, hcs, hc⟩ := natChars_cons n
  rw [hcs]
  refine reads_of_cons fun fuel rest hf hr => ?_
  have hread := readNumber_natChars h hr false
  rw [hcs, List.cons_append] at hread
  rw [Shape.word, skipBlanks_cons (isBlank_of_isDigit hc)]
  simp only [if_neg (ne_of_isDigit hc (by rfl : '-'.isDigit = false)), if_pos hc, hread]
  rfl

/-- Members are read back where an object is expected. -/
theorem reads_object {ms : Members none} (h : ms.Exact) (hd : ms.depth ≤ depth) :
    Reads Shape.members (depth + 1) (Value.obj ms).chars ms := by
  rw [Value.chars, List.cons_append]
  refine reads_of_cons fun fuel rest hf hr => ?_
  have hread := reads_members ms h depth hd true .nil (fuel + 1) rest
  rw [Members.foldl_put, ← ms.chars_eq] at hread
  exact hread (by omega) hr

/-- A value is read back where there may be none, as long as its text does not begin like the word
for nothing. -/
theorem reads_optional {shape : Shape α} {c : Char} {cs : List Char} {a : α}
    (hb : isBlank c = false) (hn : c ≠ 'n') (h : Reads shape depth (c :: cs) a) :
    Reads (Shape.optional shape) depth (c :: cs) (some a) := by
  intro fuel rest hf hr
  have hread := h fuel rest hf hr
  rw [List.cons_append] at hread ⊢
  unfold Shape.optional
  rw [skipBlanks_cons hb]
  split
  next r hc =>
    cases hc
    exact absurd rfl hn
  next =>
    rw [hread]
    rfl

/-- The name of a variant is read as the variant. -/
theorem reads_variant {choices : List (String × α)} {name : String} {a : α}
    (h : choices.lookup name = some a) :
    Reads (Shape.variant choices) depth (stringChars name) a := by
  intro fuel rest hf hr
  have hstring : Reads (Shape.stringAs "variant identifier") depth (stringChars name) name :=
    reads_stringAs _ name
  have hread := hstring fuel rest hf hr
  simp only [Shape.variant, hread, chosen, h, bind, Except.bind]
  rfl

/-- A name that stands for a value is read as that value. -/
theorem reads_choice {choices : List (String × α)} {name : String} {a : α}
    (h : choices.lookup name = some a) :
    Reads (Shape.choice choices) depth (stringChars name) a := by
  intro fuel rest hf hr
  have hvariant : Reads (Shape.variant choices) depth (stringChars name) a := reads_variant h
  exact hvariant fuel rest hf hr

/-! ## Records -/

/-- The way of a draft through the members of a record, from `s` to the last: each member takes the
draft on if its value is read whatever follows it. Values are read with `fuel` steps. -/
inductive Fills (field : σ → String → List Char → Except Failure (σ × List Char)) (fuel : Nat) :
    σ → List (List Char) → σ → Prop
  | nil (s : σ) : Fills field fuel s [] s
  | cons {s t u : σ} {name : String} {value : List Char} {fs : List (List Char)}
      (h : 2 * value.length ≤ fuel → ∀ rest, Follows rest →
        field s name (':' :: (value ++ rest)) = .ok (t, rest))
      (hs : Fills field fuel t fs u) : Fills field fuel s (fieldChars name value :: fs) u

section Fills

variable {field : σ → String → List Char → Except Failure (σ × List Char)} {fuel : Nat}

/-- Two ways one after the other are a way. -/
theorem Fills.append {s t u : σ} {fs gs : List (List Char)} (h : Fills field fuel s fs t)
    (hg : Fills field fuel t gs u) : Fills field fuel s (fs ++ gs) u := by
  induction h with
  | nil => exact hg
  | cons h _ ih => exact .cons h (ih hg)

theorem Fills.one {s t : σ} {name : String} {value : List Char}
    (h : 2 * value.length ≤ fuel → ∀ rest, Follows rest →
      field s name (':' :: (value ++ rest)) = .ok (t, rest)) :
    Fills field fuel s [fieldChars name value] t :=
  .cons h (.nil t)

/-- The first member, or another one after its comma, takes the draft on. -/
theorem readFields_cons {s t : σ} {name : String} {value rest : List Char} {steps : Nat}
    (hn : (name.toList.flatMap escapeChar).length < steps)
    (hf : field s name (':' :: (value ++ rest)) = .ok (t, rest)) (first : Bool) :
    readFields field (steps + 1) first s
        ((if first then fieldChars name value else ',' :: fieldChars name value) ++ rest) =
      readFields field steps false t rest := by
  have hkey := readString_body name.toList hn (':' :: (value ++ rest))
  rw [fieldChars_eq]
  cases first with
  | true =>
    rw [if_pos rfl, List.cons_append, List.append_assoc, readFields, skipBlanks_cons (by decide)]
    simp [keyStart_first, hkey, hf, bind, Except.bind]
  | false =>
    rw [if_neg (by decide), List.cons_append, List.cons_append, List.append_assoc, readFields,
      skipBlanks_cons (by decide)]
    simp [keyStart_later, hkey, hf, bind, Except.bind]

/-- The members of a record are read to its closing brace. -/
theorem Fills.read {s t : σ} {fs : List (List Char)} (h : Fills field fuel s fs t) {steps : Nat}
    (first : Bool) (hsteps : 2 * (listed first fs ++ ['\x7d']).length ≤ steps) (hle : steps ≤ fuel)
    (rest : List Char) :
    readFields field steps first s (listed first fs ++ ['\x7d'] ++ rest) = .ok (t, rest) := by
  induction h generalizing steps first with
  | nil s =>
    rw [List.length_append, List.length_singleton] at hsteps
    obtain ⟨k, rfl⟩ := Nat.exists_eq_add_one.mpr (by omega : 0 < steps)
    cases first <;> rfl
  | @cons s t u name value fs h _ ih =>
    have hname := length_fieldChars name value
    have hlen := length_listed_cons first (fieldChars name value) fs
    rw [List.length_append, List.length_singleton] at hsteps
    obtain ⟨k, rfl⟩ := Nat.exists_eq_add_one.mpr (by omega : 0 < steps)
    have hhead := h (by omega) (listed false fs ++ ['\x7d'] ++ rest)
      (follows_listed fs (.inr rfl) rest)
    have htail := ih false (by rw [List.length_append, List.length_singleton]; omega)
      (by omega : k ≤ fuel)
    rw [listed_cons, List.append_assoc _ (listed false fs), List.append_assoc]
    exact (readFields_cons (by omega) hhead first).trans htail

end Fills

/-- A member that was not there before fills its part of the draft. -/
theorem onceField_none {shape : Shape α} {value : List Char} {a : α}
    (h : Reads shape depth value a) (name : String) (put : Option α → σ) {fuel : Nat}
    (hf : 2 * value.length ≤ fuel) {rest : List Char} (hr : Follows rest) :
    onceField name none shape put fuel depth (':' :: (value ++ rest)) =
      .ok (put (some a), rest) := by
  simp only [onceField, readColon_cons, h fuel rest hf hr, bind, Except.bind]
  rfl

/-- A record is read back if its members are, one after the other. -/
theorem reads_record {title : String} {byName byPosition : Shape α} {fs : List (List Char)} {a : α}
    (h : ∀ fuel rest, 2 * (listed true fs ++ ['\x7d']).length ≤ fuel →
      byName fuel depth (listed true fs ++ ['\x7d'] ++ rest) = .ok (a, rest)) :
    Reads (Shape.record title byName byPosition) (depth + 1) (recordChars fs) a := by
  rw [recordChars, flatten_intersperse, List.cons_append]
  refine reads_of_cons fun fuel rest hf _ => ?_
  exact h (fuel + 1) rest (by omega)

/-- What is read back is what a whole text is parsed as. -/
theorem parseWith_ofList {shape : Shape α} {text : List Char} {a : α}
    (h : Reads shape maxDepth text a) : parseWith shape (String.ofList text) = .ok a := by
  have hread := h (stepsFor text) [] (by unfold stepsFor; omega) follows_nil
  rw [List.append_nil] at hread
  simp only [parseWith, String.toList_ofList, hread, bind, Except.bind]
  rfl

end BrokerClient.Json
