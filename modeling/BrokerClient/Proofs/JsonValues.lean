import BrokerClient.Json.Shape
import BrokerClient.Proofs.JsonWords

/-!
# JSON values are read back

A value is read back as it was written if it has no doubles, its integers are of 64 bits, and it
opens no more brackets than may be open at once. The proof is an induction on the value: one lemma
for each kind of value says that its text is read back if the texts of its parts are.

The reader puts the members of an object in one by one. As they stand in ascending order in the
text, each goes to the end of those that are there (`Members.foldl_put`).

`Reads` is the statement for one text: with two steps for each character, and brackets enough, the
reader gives the value and hands back what follows. Both arrays and objects are texts that are
listed with commas between them (`listed`), the first one without. The readers for elements and for
members go through such a list with a flag that says whether a comma is due, so that one induction
covers the first part and the later ones.

Doubles are left out. What is written for a double is its shortest decimal, and reading it back
rounds twice; whether the same double comes back is not claimed.
-/

namespace BrokerClient.Json

open BrokerClient.Number

/-! ## Values that text keeps -/

mutual

/-- A value that its text keeps exactly. -/
def Value.Exact : Value → Prop
  | .null => True
  | .bool _ => True
  | .int n => intMin ≤ n ∧ n ≤ wordMax
  | .float _ => False
  | .str _ => True
  | .arr items => items.Exact
  | .obj members => members.Exact

/-- Elements that their text keeps exactly. -/
def Items.Exact : Items → Prop
  | .nil => True
  | .cons v vs => v.Exact ∧ vs.Exact

/-- Members that their text keeps exactly. -/
def Members.Exact {low : Option String} : Members low → Prop
  | .nil => True
  | .cons _ v ms _ => v.Exact ∧ ms.Exact

end

mutual

/-- How many arrays and objects stand within one another. -/
def Value.depth : Value → Nat
  | .arr items => items.depth + 1
  | .obj members => members.depth + 1
  | _ => 0

/-- How many arrays and objects stand within one another in the elements. -/
def Items.depth : Items → Nat
  | .nil => 0
  | .cons v vs => max v.depth vs.depth

/-- How many arrays and objects stand within one another in the members. -/
def Members.depth {low : Option String} : Members low → Nat
  | .nil => 0
  | .cons _ v ms _ => max v.depth ms.depth

end

mutual

instance Value.decidableExact : (v : Value) → Decidable v.Exact
  | .null => inferInstanceAs (Decidable True)
  | .bool _ => inferInstanceAs (Decidable True)
  | .int n => inferInstanceAs (Decidable (intMin ≤ n ∧ n ≤ wordMax))
  | .float _ => inferInstanceAs (Decidable False)
  | .str _ => inferInstanceAs (Decidable True)
  | .arr items => items.decidableExact
  | .obj members => members.decidableExact

instance Items.decidableExact : (vs : Items) → Decidable vs.Exact
  | .nil => inferInstanceAs (Decidable True)
  | .cons v vs => @instDecidableAnd _ _ v.decidableExact vs.decidableExact

instance Members.decidableExact {low : Option String} : (ms : Members low) → Decidable ms.Exact
  | .nil => inferInstanceAs (Decidable True)
  | .cons _ v ms _ => @instDecidableAnd _ _ v.decidableExact ms.decidableExact

end

/-- Members that an exact value is put to stay exact, wherever its key belongs. -/
theorem Members.exact_insert {low : Option String} : ∀ {ms : Members low} (key : String)
    {v : Value} (hkey : After low key), ms.Exact → v.Exact → (ms.insert key v hkey).Exact
  | .nil, _, _, _, _, hv => ⟨hv, trivial⟩
  | .cons k w ms _, key, v, _, h, hv => by
    rw [insert]
    split
    next => exact ⟨hv, h⟩
    next =>
      split
      next => exact ⟨hv, h.2⟩
      next => exact ⟨h.1, exact_insert key _ h.2 hv⟩

/-! ## Lists -/

/-- Texts with commas between them; `first` says whether none stands before the first. -/
def listed : (first : Bool) → List (List Char) → List Char
  | _, [] => []
  | true, t :: ts => t ++ listed false ts
  | false, t :: ts => ',' :: t ++ listed false ts

/-- Texts with commas put between them are the texts listed. -/
theorem flatten_intersperse : ∀ ts : List (List Char),
    (ts.intersperse [',']).flatten = listed true ts
  | [] => rfl
  | [t] => rfl
  | t :: u :: ts => by
    have ih := flatten_intersperse (u :: ts)
    rw [List.intersperse_cons_cons, List.flatten_cons, List.flatten_cons, ih]
    rfl

/-- Elements are written as a list of their texts. -/
theorem Items.chars_eq : ∀ vs : Items, vs.chars = listed true (vs.toList.map Value.chars)
  | .nil => by rw [Items.chars]; rfl
  | .cons v .nil => by rw [Items.chars]; exact (List.append_nil v.chars).symm
  | .cons v (.cons w vs) => by
    rw [Items.chars, Items.chars_eq (.cons w vs)]
    rfl

/-- One member of an object. -/
def memberChars (m : String × Value) : List Char := fieldChars m.1 m.2.chars

/-- Members are written as a list of their texts. -/
theorem Members.chars_eq {low : Option String} :
    ∀ ms : Members low, ms.chars = listed true (ms.toList.map memberChars)
  | .nil => by rw [Members.chars]; rfl
  | .cons k v .nil _ => by rw [Members.chars]; exact (List.append_nil _).symm
  | .cons k v (.cons l w ms h) _ => by
    rw [Members.chars, Members.chars_eq (.cons l w ms h)]
    rfl

/-- The first text of a list has no comma before it, every other one has. -/
theorem listed_cons (first : Bool) (t : List Char) (ts : List (List Char)) :
    listed first (t :: ts) = (if first then t else ',' :: t) ++ listed false ts := by
  cases first <;> rfl

/-- A list is no shorter than its parts together. -/
theorem length_listed_cons (first : Bool) (t : List Char) (ts : List (List Char)) :
    t.length + (listed false ts).length ≤ (listed first (t :: ts)).length := by
  cases first <;> simp [listed]

/-- Behind an element stands a comma or the closing bracket. -/
theorem follows_listed (ts : List (List Char)) {c : Char} (h : c = ']' ∨ c = '\x7d')
    (rest : List Char) : Follows (listed false ts ++ [c] ++ rest) := by
  cases ts with
  | nil => exact follows_cons (.inr h) rest
  | cons t ts => exact follows_cons (.inl rfl) _

/-! ## Reading -/

/-- The text is read as `a`, whatever follows it, where `depth` brackets may still be opened. -/
def Reads {α : Type} (shape : Shape α) (depth : Nat) (text : List Char) (a : α) : Prop :=
  ∀ fuel rest, 2 * text.length ≤ fuel → Follows rest →
    shape fuel depth (text ++ rest) = .ok (a, rest)

/-- A text that is not empty leaves a step for its first character. -/
theorem reads_of_cons {α : Type} {shape : Shape α} {depth : Nat} {c : Char} {cs : List Char} {a : α}
    (h : ∀ fuel rest, 2 * cs.length + 1 ≤ fuel → Follows rest →
      shape (fuel + 1) depth (c :: (cs ++ rest)) = .ok (a, rest)) :
    Reads shape depth (c :: cs) a := by
  intro fuel rest hf hr
  rw [List.length_cons] at hf
  obtain ⟨k, rfl⟩ := Nat.exists_eq_add_one.mpr (by omega : 0 < fuel)
  exact h k rest (by omega) hr

theorem skipBlanks_cons {c : Char} (h : isBlank c = false) (cs : List Char) :
    skipBlanks (c :: cs) = c :: cs := by
  simp [skipBlanks, h]

theorem ne_of_isDigit {c d : Char} (hc : c.isDigit = true) (hd : d.isDigit = false) : c ≠ d := by
  rintro rfl
  simp [hc] at hd

/-- No digit is a blank. -/
theorem isBlank_of_isDigit {c : Char} (h : c.isDigit = true) : isBlank c = false := by
  simp [isBlank, ne_of_isDigit h]

variable {depth : Nat}

theorem reads_null : Reads readValue depth Value.null.chars .null :=
  reads_of_cons fun _ _ _ _ => rfl

theorem reads_bool : ∀ b : Bool, Reads readValue depth (Value.bool b).chars (.bool b)
  | true => reads_of_cons fun _ _ _ _ => rfl
  | false => reads_of_cons fun _ _ _ _ => rfl

/-! ### Which kind of value a text begins with -/

section Dispatch

variable (fuel depth : Nat) (cs : List Char)

theorem readValue_quote : readValue (fuel + 1) depth ('"' :: cs) =
    (readString fuel cs).map fun p => (.str (String.ofList p.1), p.2) := by
  show (readString fuel cs >>= fun p => pure (Value.str (String.ofList p.1), p.2)) = _
  cases readString fuel cs <;> rfl

/-- A bracket begins an array, and one more bracket is open in it. -/
theorem readValue_bracket : readValue (fuel + 1) (depth + 1) ('[' :: cs) =
    (readItems fuel depth true cs).map fun p => (.arr p.1, p.2) := by
  show (readItems fuel depth true cs >>= fun p => pure (Value.arr p.1, p.2)) = _
  cases readItems fuel depth true cs <;> rfl

/-- A brace begins an object, and one more bracket is open in it. -/
theorem readValue_brace : readValue (fuel + 1) (depth + 1) ('\x7b' :: cs) =
    (readMembers fuel depth true .nil cs).map fun p => (.obj p.1, p.2) := by
  show (readMembers fuel depth true .nil cs >>= fun p => pure (Value.obj p.1, p.2)) = _
  cases readMembers fuel depth true .nil cs <;> rfl

theorem readValue_minus : readValue (fuel + 1) depth ('-' :: cs) =
    (readNumber true cs).map fun p => (p.1.value, p.2) := by
  show (readNumber true cs >>= fun p => pure (p.1.value, p.2)) = _
  cases readNumber true cs <;> rfl

theorem readValue_digit {c : Char} (hc : c.isDigit = true) :
    readValue (fuel + 1) depth (c :: cs) =
      (readNumber false (c :: cs)).map fun p => (p.1.value, p.2) := by
  have hne {d : Char} (hd : d.isDigit = false) : c ≠ d := ne_of_isDigit hc hd
  rw [readValue, skipBlanks_cons (isBlank_of_isDigit hc)]
  show (if c = 'n' then _ else _) = _
  rw [if_neg (hne rfl), if_neg (hne rfl), if_neg (hne rfl), if_neg (hne rfl), if_neg (hne rfl),
    if_neg (hne rfl), if_neg (hne rfl), if_pos hc]
  cases readNumber false (c :: cs) <;> rfl

end Dispatch

/-- A string is read back. -/
theorem reads_str (s : String) : Reads readValue depth (Value.str s).chars (.str s) := by
  rw [Value.chars, stringChars_eq]
  refine reads_of_cons fun fuel rest hf _ => ?_
  rw [List.length_append, List.length_singleton] at hf
  rw [List.append_assoc, List.singleton_append, readValue_quote,
    readString_body s.toList (by omega)]
  simp [Except.map]

/-- An integer of 64 bits is read back, with or without its sign. -/
theorem reads_int {n : Int} (hmin : intMin ≤ n) (hmax : n ≤ wordMax) :
    Reads readValue depth (Value.int n).chars (.int n) := by
  have hw : n.natAbs ≤ wordMax := by
    have hm : -9223372036854775808 ≤ n := hmin
    have : wordMax = 18446744073709551615 := rfl
    omega
  rw [Value.chars, intChars]
  split
  next hn =>
    refine reads_of_cons fun fuel rest hf hr => ?_
    rw [readValue_minus, readNumber_natChars hw hr, integer_neg hn hmin]
    rfl
  next hn =>
    obtain ⟨c, cs, hcs, hc⟩ := natChars_cons n.natAbs
    rw [hcs]
    refine reads_of_cons fun fuel rest hf hr => ?_
    have hread := readNumber_natChars hw hr false
    rw [hcs, List.cons_append, integer_nonneg (by omega)] at hread
    rw [readValue_digit _ _ _ hc, hread]
    rfl

/-- An array is read back if its elements are, up to the closing bracket. -/
theorem reads_arr {items : Items}
    (h : Reads (fun fuel depth => readItems fuel depth true) depth (items.chars ++ [']']) items) :
    Reads readValue (depth + 1) (Value.arr items).chars (.arr items) := by
  rw [Value.chars, List.cons_append]
  refine reads_of_cons fun fuel rest hf hr => ?_
  rw [readValue_bracket]
  exact congrArg (Except.map _) (h fuel rest (by omega) hr)

/-- An object is read back if its members are, up to the closing brace. -/
theorem reads_obj {members : Members none}
    (h : Reads (fun fuel depth => readMembers fuel depth true .nil) depth
      (members.chars ++ ['\x7d']) members) :
    Reads readValue (depth + 1) (Value.obj members).chars (.obj members) := by
  rw [Value.chars, List.cons_append]
  refine reads_of_cons fun fuel rest hf hr => ?_
  rw [readValue_brace]
  exact congrArg (Except.map _) (h fuel rest (by omega) hr)

/-! ### Elements of an array -/

/-- The text begins with a character that is no blank and does not close an array. -/
def Starts (text : List Char) : Prop := ∃ c cs, text = c :: cs ∧ isBlank c = false ∧ c ≠ ']'

theorem starts_cons {c : Char} (hb : isBlank c = false) (hc : c ≠ ']') (cs : List Char) :
    Starts (c :: cs) := ⟨c, cs, rfl, hb, hc⟩

/-- No value begins with a blank or with a closing bracket. -/
theorem starts_value : ∀ {v : Value}, v.Exact → Starts v.chars
  | .null, _ => starts_cons rfl (by decide) _
  | .bool true, _ => starts_cons rfl (by decide) _
  | .bool false, _ => starts_cons rfl (by decide) _
  | .str s, _ => starts_cons rfl (by decide) _
  | .arr _, _ => starts_cons rfl (by decide) _
  | .obj _, _ => starts_cons rfl (by decide) _
  | .int n, _ => by
    rw [Value.chars, intChars]
    split
    next => exact starts_cons rfl (by decide) _
    next =>
      obtain ⟨c, cs, hcs, hc⟩ := natChars_cons n.natAbs
      rw [hcs]
      exact starts_cons (isBlank_of_isDigit hc) (ne_of_isDigit hc rfl) cs

/-- The first element, or another one after its comma, and then the rest of the array. -/
theorem readItems_cons {v : Value} {vs : Items} {fuel : Nat} {text rest tail : List Char}
    (hs : Starts text) (hv : readValue fuel depth (text ++ rest) = .ok (v, rest))
    (hvs : readItems fuel depth false rest = .ok (vs, tail)) (first : Bool) :
    readItems (fuel + 1) depth first ((if first then text else ',' :: text) ++ rest) =
      .ok (.cons v vs, tail) := by
  obtain ⟨c, cs, rfl, hb, hc⟩ := hs
  rw [List.cons_append] at hv
  cases first with
  | true =>
    rw [if_pos rfl, List.cons_append, readItems, skipBlanks_cons hb]
    simp only [if_neg hc, hv, hvs, bind, Except.bind, if_pos]
    rfl
  | false =>
    rw [if_neg (by decide), List.cons_append, List.cons_append, readItems,
      skipBlanks_cons (by decide)]
    simp only [skipBlanks_cons hb, if_neg hc, hv, hvs, bind, Except.bind]
    rfl

/-- Where there are no more elements the closing bracket is read. -/
theorem reads_items_nil (first : Bool) :
    Reads (fun fuel depth => readItems fuel depth first) depth (listed first [] ++ [']']) .nil := by
  cases first <;> exact reads_of_cons fun _ _ _ _ => rfl

/-- Elements are read back if the first one is and the others are. -/
theorem reads_items_cons {v : Value} {vs : Items} {text : List Char} {ts : List (List Char)}
    (hs : Starts text) (hv : Reads readValue depth text v)
    (hvs : Reads (fun fuel depth => readItems fuel depth false) depth (listed false ts ++ [']']) vs)
    (first : Bool) :
    Reads (fun fuel depth => readItems fuel depth first) depth (listed first (text :: ts) ++ [']'])
      (.cons v vs) := by
  intro fuel rest hf hr
  have hpos : 0 < text.length := by
    obtain ⟨c, cs, rfl, _, _⟩ := hs
    exact Nat.zero_lt_succ _
  have hlen := length_listed_cons first text ts
  rw [List.length_append, List.length_singleton] at hf
  obtain ⟨k, rfl⟩ := Nat.exists_eq_add_one.mpr (by omega : 0 < fuel)
  have hhead := hv k (listed false ts ++ [']'] ++ rest) (by omega)
    (follows_listed ts (.inl rfl) rest)
  have htail := hvs k rest (by rw [List.length_append, List.length_singleton]; omega) hr
  rw [listed_cons, List.append_assoc _ (listed false ts), List.append_assoc]
  exact readItems_cons hs hhead htail first

/-! ### Members of an object -/

theorem fieldChars_eq (name : String) (value : List Char) :
    fieldChars name value = '"' :: (name.toList.flatMap escapeChar ++ '"' :: ':' :: value) := by
  rw [fieldChars, stringChars_eq, List.cons_append, List.append_assoc]
  rfl

theorem readColon_cons (rest : List Char) : readColon (':' :: rest) = .ok rest := rfl

theorem keyStart_first (rest : List Char) : keyStart true '"' rest = .ok rest := rfl

theorem keyStart_later (rest : List Char) : keyStart false ',' ('"' :: rest) = .ok rest := rfl

/-- The first member, or another one after its comma, goes to those that were read before it. -/
theorem readMembers_cons {key : String} {v : Value} {fuel : Nat} {text rest : List Char}
    (hk : (key.toList.flatMap escapeChar).length < fuel)
    (hv : readValue fuel depth (text ++ rest) = .ok (v, rest)) (first : Bool) (acc : Members none) :
    readMembers (fuel + 1) depth first acc
        ((if first then fieldChars key text else ',' :: fieldChars key text) ++ rest) =
      readMembers fuel depth false (acc.put key v) rest := by
  have hkey := readString_body key.toList hk (':' :: (text ++ rest))
  rw [fieldChars_eq]
  cases first with
  | true =>
    rw [if_pos rfl, List.cons_append, List.append_assoc, readMembers, skipBlanks_cons (by decide)]
    simp [keyStart_first, hkey, readColon_cons, hv, bind, Except.bind]
  | false =>
    rw [if_neg (by decide), List.cons_append, List.cons_append, List.append_assoc, readMembers,
      skipBlanks_cons (by decide)]
    simp [keyStart_later, hkey, readColon_cons, hv, bind, Except.bind]

/-- Where there are no more members the closing brace is read, and those that were read stay. -/
theorem reads_members_nil (first : Bool) (acc : Members none) :
    Reads (fun fuel depth => readMembers fuel depth first acc) depth (listed first [] ++ ['\x7d'])
      acc := by
  cases first <;> exact reads_of_cons fun _ _ _ _ => rfl

/-- A member is longer than its key and its value together. -/
theorem length_fieldChars (name : String) (value : List Char) :
    (name.toList.flatMap escapeChar).length + value.length < (fieldChars name value).length := by
  rw [fieldChars_eq, List.length_cons, List.length_append, List.length_cons, List.length_cons]
  omega

/-- Members are read back if the value of the first one is, and the others are with that one put to
those before. -/
theorem reads_members_cons {key : String} {v : Value} {text : List Char} {ts : List (List Char)}
    {acc ms : Members none} (hv : Reads readValue depth text v)
    (hms : Reads (fun fuel depth => readMembers fuel depth false (acc.put key v)) depth
      (listed false ts ++ ['\x7d']) ms) (first : Bool) :
    Reads (fun fuel depth => readMembers fuel depth first acc) depth
      (listed first (fieldChars key text :: ts) ++ ['\x7d']) ms := by
  intro fuel rest hf hr
  have hkey := length_fieldChars key text
  have hlen := length_listed_cons first (fieldChars key text) ts
  rw [List.length_append, List.length_singleton] at hf
  obtain ⟨k, rfl⟩ := Nat.exists_eq_add_one.mpr (by omega : 0 < fuel)
  have hhead := hv k (listed false ts ++ ['\x7d'] ++ rest) (by omega)
    (follows_listed ts (.inr rfl) rest)
  have htail := hms k rest (by rw [List.length_append, List.length_singleton]; omega) hr
  rw [listed_cons, List.append_assoc _ (listed false ts), List.append_assoc]
  exact (readMembers_cons (by omega) hhead first acc).trans htail

/-! ### Members in order -/

/-- Members are known from their keys and values: that they ascend is not more data. -/
theorem Members.toList_inj {low : Option String} :
    ∀ {ms ns : Members low}, ms.toList = ns.toList → ms = ns
  | .nil, .nil, _ => rfl
  | .cons k v ms _, .cons l w ns _, h => by
    rw [toList, toList, List.cons.injEq, Prod.mk.injEq] at h
    obtain ⟨⟨rfl, rfl⟩, hrest⟩ := h
    rw [toList_inj hrest]

/-- What is beyond a key that is beyond the bound is beyond the bound. -/
theorem After.trans : ∀ {low : Option String} {k l : String}, After low k → k < l → After low l
  | none, _, _, _, _ => trivial
  | some _, _, _, h, hkl => String.lt_trans h hkl

/-- All keys come after the bound that the members carry. -/
theorem Members.after_of_mem_keys {low : Option String} :
    ∀ {ms : Members low} {l : String}, l ∈ ms.keys → After low l
  | .cons k _ _ h, _, hl => by
    rcases List.mem_cons.mp hl with rfl | hl
    · exact h
    · exact h.trans (after_of_mem_keys hl)

/-- A member whose key is greater than all others is put at the end. -/
theorem Members.toList_insert_last {low : Option String} : ∀ {ms : Members low} {key : String}
    (v : Value) (hkey : After low key), (∀ l ∈ ms.keys, l < key) →
      (ms.insert key v hkey).toList = ms.toList ++ [(key, v)]
  | .nil, _, _, _, _ => rfl
  | .cons l w ms _, key, v, _, h => by
    have hl : l < key := h l List.mem_cons_self
    have hne : key ≠ l := by
      rintro rfl
      exact String.lt_irrefl key hl
    rw [insert, dif_neg (String.lt_asymm hl), dif_neg hne, toList,
      toList_insert_last v _ fun k hk => h k (List.mem_cons_of_mem _ hk)]
    rfl

/-- Members that come after those that are there are put at the end, one by one. -/
theorem Members.toList_foldl_put {low : Option String} : ∀ (ms : Members low) {acc : Members none},
    (∀ k ∈ acc.keys, ∀ l ∈ ms.keys, k < l) →
      (ms.toList.foldl (fun acc m => acc.put m.1 m.2) acc).toList = acc.toList ++ ms.toList
  | .nil, _, _ => (List.append_nil _).symm
  | .cons key v ms _, acc, hacc => by
    have hlast : (acc.put key v).toList = acc.toList ++ [(key, v)] :=
      toList_insert_last v (show After none key from trivial) fun l hl =>
        hacc l hl key List.mem_cons_self
    have hnext : ∀ k ∈ (acc.put key v).keys, ∀ l ∈ ms.keys, k < l := by
      intro k hk l hl
      rw [keys, hlast, List.map_append, List.mem_append] at hk
      rcases hk with hk | hk
      · exact hacc k hk l (List.mem_cons_of_mem _ hl)
      · rw [List.mem_singleton.mp hk]
        exact after_of_mem_keys hl
    rw [toList, List.foldl_cons, toList_foldl_put ms hnext, hlast, List.append_assoc]
    rfl

/-- Members that are put in one by one, in their order, are the same again. -/
theorem Members.foldl_put (ms : Members none) :
    ms.toList.foldl (fun acc m => acc.put m.1 m.2) .nil = ms :=
  toList_inj (toList_foldl_put ms fun _ hk => absurd hk List.not_mem_nil)

/-! ### Whole values -/

mutual

/-- A value is read back where as many brackets may be open as it opens. -/
theorem reads_value : ∀ (v : Value), v.Exact → ∀ depth, v.depth ≤ depth →
    Reads readValue depth v.chars v
  | .null, _, _, _ => reads_null
  | .bool b, _, _, _ => reads_bool b
  | .int _, h, _, _ => reads_int h.1 h.2
  | .str s, _, _, _ => reads_str s
  | .arr items, h, depth + 1, hd => by
    refine reads_arr ?_
    rw [items.chars_eq]
    exact reads_items items h depth (Nat.le_of_succ_le_succ hd) true
  | .obj members, h, depth + 1, hd => by
    refine reads_obj ?_
    have hread := reads_members members h depth (Nat.le_of_succ_le_succ hd) true .nil
    rwa [Members.foldl_put, ← members.chars_eq] at hread

/-- The elements of an array are read back, the first one without a comma before it. -/
theorem reads_items : ∀ (vs : Items), vs.Exact → ∀ depth, vs.depth ≤ depth → ∀ first,
    Reads (fun fuel depth => readItems fuel depth first) depth
      (listed first (vs.toList.map Value.chars) ++ [']']) vs
  | .nil, _, _, _, first => reads_items_nil first
  | .cons v vs, h, depth, hd, first =>
    reads_items_cons (starts_value h.1)
      (reads_value v h.1 depth (Nat.le_trans (Nat.le_max_left _ _) hd))
      (reads_items vs h.2 depth (Nat.le_trans (Nat.le_max_right _ _) hd) false) first

/-- The members of an object are read back, each put to those before it. -/
theorem reads_members {low : Option String} : ∀ (ms : Members low), ms.Exact →
    ∀ depth, ms.depth ≤ depth → ∀ first acc,
      Reads (fun fuel depth => readMembers fuel depth first acc) depth
        (listed first (ms.toList.map memberChars) ++ ['\x7d'])
        (ms.toList.foldl (fun acc m => acc.put m.1 m.2) acc)
  | .nil, _, _, _, first, acc => reads_members_nil first acc
  | .cons _ v ms _, h, depth, hd, first, _ =>
    reads_members_cons (reads_value v h.1 depth (Nat.le_trans (Nat.le_max_left _ _) hd))
      (reads_members ms h.2 depth (Nat.le_trans (Nat.le_max_right _ _) hd) false _) first

end

end BrokerClient.Json
