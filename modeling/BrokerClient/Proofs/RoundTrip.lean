import BrokerClient.Confirm.Event
import BrokerClient.Message
import BrokerClient.Options
import BrokerClient.Proofs.Base64
import BrokerClient.Proofs.JsonRecords

/-!
# What is written is read back

Messages, reports and options come back from their JSON text as they were. For a message this holds
as far as JSON text keeps its properties: without doubles, with integers of 64 bits, and with at
most 125 arrays and objects within one another, since the message and its properties open two more.

Each type has a lemma `fills` for the way of its draft and a lemma `reads` for the whole. The only
members that may be missing are the identifier and the properties of a message. Where they are not
written the draft keeps none for them, and the reader puts nothing and no properties in their place
(`fills_properties`).

The bound of 125 is sharp: `atTheLimits` is a message with properties as deep as that.
-/

namespace BrokerClient

open Json Number

/-! ## Destinations -/

namespace Destination

theorem lookup_kinds (k : Kind) : kinds.lookup k.name = some k := by cases k <;> rfl

/-- The member with the kind fills the kind. -/
theorem kindField_reads (k : Kind) {fuel depth : Nat} {rest : List Char}
    (hf : 2 * (stringChars k.name).length ≤ fuel) (hr : Follows rest) :
    kindField ⟨none, none, none⟩ fuel depth (':' :: (stringChars k.name ++ rest)) =
      .ok (⟨some k, none, none⟩, rest) := by
  have hkind : Reads (Shape.choice kinds) depth (stringChars k.name) k :=
    reads_choice (lookup_kinds k)
  simp [kindField, readColon_cons, hkind fuel rest hf hr, bind, Except.bind, pure, Except.pure]

/-- The member with the name fills the name, and leaves the kind. -/
theorem nameField_reads (k : Kind) (name : String) {fuel depth : Nat} {rest : List Char}
    (hf : 2 * (stringChars name).length ≤ fuel) (hr : Follows rest) :
    nameField ⟨some k, none, none⟩ fuel depth (':' :: (stringChars name ++ rest)) =
      .ok (⟨some k, some name, none⟩, rest) := by
  have hname : Reads Shape.string depth (stringChars name) name := reads_stringAs _ name
  simp [nameField, readColon_cons, hname fuel rest hf hr, bind, Except.bind, pure, Except.pure]

/-- The two members of a destination fill a draft. -/
theorem fills (d : Destination) (fuel depth : Nat) :
    Fills (readField fuel depth) fuel ⟨none, none, none⟩
      [fieldChars "kind" (stringChars d.kind.name), fieldChars "name" (stringChars d.name)]
      ⟨some d.kind, some d.name, none⟩ :=
  .cons (fun hf _ hr => kindField_reads d.kind hf hr)
    (.one fun hf _ hr => nameField_reads d.kind d.name hf hr)

/-- A destination is read back. -/
theorem reads (d : Destination) (depth : Nat) : Reads shape (depth + 1) d.jsonChars d := by
  refine reads_record fun fuel rest hf => ?_
  rw [byName, (fills d fuel depth).read true hf (Nat.le_refl fuel)]
  show Except.ok (ofKind d.kind d.name, rest) = _
  rw [ofKind_kind_name]

end Destination

/-! ## Messages -/

namespace Message

/-- Nothing is escaped in Base64. -/
theorem flatMap_escapeChar_encode (body : List UInt8) :
    (Text.Base64.encode body).flatMap escapeChar = Text.Base64.encode body := by
  have hsymbol : ∀ n < 64, escapeChar (Text.Base64.symbol n) = [Text.Base64.symbol n] := by decide
  have hplain : ∀ c ∈ Text.Base64.encode body, escapeChar c = [c] := by
    intro c hc
    rcases Text.Base64.mem_encode hc with rfl | ⟨n, hn, rfl⟩
    · rfl
    · exact hsymbol n hn
  rw [List.flatMap_def, List.map_congr_left hplain, ← List.flatMap_def, List.flatMap_singleton']

/-- The text of a body is decoded to the body. -/
theorem readBody_bodyChars (body : List UInt8) :
    readBody (String.ofList (bodyChars body)) = .ok body := by
  rw [readBody, bytesOf, String.toList_ofList]
  exact Text.Base64.decode_encoded body

/-- A body is read back from its text between two marks. -/
theorem reads_body (body : List UInt8) (depth : Nat) :
    Reads bodyShape depth ('"' :: bodyChars body ++ ['"']) body := by
  have htext : '"' :: bodyChars body ++ ['"'] = stringChars (String.ofList (bodyChars body)) := by
    rw [stringChars, String.toList_ofList, bodyChars, flatMap_escapeChar_encode]
  rw [htext]
  intro fuel rest hf hr
  have hstring : Reads Shape.string depth (stringChars (String.ofList (bodyChars body))) _ :=
    reads_stringAs _ _
  simp only [bodyShape, hstring fuel rest hf hr, readBody_bodyChars, bind, Except.bind]
  rfl

/-- An identifier is read back: its text begins with a mark, so it is not taken for none. -/
theorem reads_id (id : String) (depth : Nat) : Reads idShape depth (stringChars id) (some id) :=
  reads_optional rfl (by decide) (reads_stringAs _ id)

section Members

variable {fuel depth : Nat} {d : Destination} {i : Option (Option String)}
  {p : Option (Members none)}

/-- The first member of a message is its destination. -/
theorem fills_destination (d : Destination) :
    Fills (readField fuel (depth + 1)) fuel ⟨none, none, none, none⟩
      [fieldChars "destination" d.jsonChars] ⟨some d, none, none, none⟩ :=
  .one fun hf _ hr => by
    rw [readField, if_pos rfl]
    exact onceField_none (d.reads depth) _ _ hf hr

/-- Then comes the identifier, if there is one. -/
theorem fills_id : ∀ id : Option String,
    Fills (readField fuel depth) fuel ⟨some d, none, none, none⟩ (idFields id)
      ⟨some d, id.map some, none, none⟩
  | none => .nil _
  | some id => .one fun hf _ hr => by
    rw [readField, if_neg (by decide), if_pos rfl]
    exact onceField_none (reads_id id depth) _ _ hf hr

/-- No properties are written as no member, and read as none. -/
theorem fills_properties : ∀ {ms : Members none}, ms.Exact → ms.depth ≤ depth →
    ∃ q : Option (Members none), q.getD .nil = ms ∧
      Fills (readField fuel (depth + 1)) fuel ⟨some d, i, none, none⟩ (propertyFields ms)
        ⟨some d, i, q, none⟩
  | .nil, _, _ => ⟨none, rfl, .nil _⟩
  | .cons _ _ _ _, h, hd =>
    ⟨some _, rfl, .one fun hf _ hr => by
      rw [readField, if_neg (by decide), if_neg (by decide), if_pos rfl]
      exact onceField_none (reads_object h hd) _ _ hf hr⟩

/-- Last comes the body. -/
theorem fills_body (body : List UInt8) :
    Fills (readField fuel depth) fuel ⟨some d, i, p, none⟩
      [fieldChars "body" ('"' :: bodyChars body ++ ['"'])] ⟨some d, i, p, some body⟩ :=
  .one fun hf _ hr => by
    rw [readField, if_neg (by decide), if_neg (by decide), if_neg (by decide), if_pos rfl]
    exact onceField_none (reads_body body depth) _ _ hf hr

end Members

/-- A message is read back where its properties are, two brackets further in. -/
theorem reads {m : Message} {depth : Nat} (h : m.properties.Exact)
    (hd : m.properties.depth ≤ depth) : Reads shape (depth + 2) m.jsonChars m := by
  refine reads_record fun fuel rest hf => ?_
  obtain ⟨q, hq, hproperties⟩ :=
    @fills_properties fuel depth m.destination (m.id.map some) m.properties h hd
  have hfills := (((fills_destination m.destination).append (fills_id m.id)).append
    hproperties).append (fills_body m.body)
  rw [byName, hfills.read true hf (Nat.le_refl fuel)]
  show Except.ok ((⟨m.destination, (m.id.map some).getD none, q.getD .nil, m.body⟩ : Message), rest)
    = _
  rw [hq, show (m.id.map some).getD none = m.id by cases m.id <;> rfl]

end Message

/-! ## Reports -/

namespace ConfirmEvent

/-- The three members of a report fill a draft. -/
theorem fills {e : ConfirmEvent} (h : e.tag ≤ wordMax) (fuel depth : Nat) :
    Fills (readField fuel depth) fuel ⟨none, none, none⟩
      [fieldChars "delivery_tag" (natChars e.tag), fieldChars "multiple" (boolChars e.multiple),
        fieldChars "ack" (boolChars e.ack)] ⟨some e.tag, some e.multiple, some e.ack⟩ := by
  refine .cons (t := ⟨some e.tag, none, none⟩) (fun hf rest hr => ?_)
    (.cons (t := ⟨some e.tag, some e.multiple, none⟩) (fun hf rest hr => ?_)
      (.one fun hf rest hr => ?_))
  · rw [readField, if_pos rfl]
    exact onceField_none (reads_word h) _ _ hf hr
  · rw [readField, if_neg (by decide), if_pos rfl]
    exact onceField_none (reads_boolean e.multiple) _ _ hf hr
  · rw [readField, if_neg (by decide), if_neg (by decide), if_pos rfl]
    exact onceField_none (reads_boolean e.ack) _ _ hf hr

/-- A report is read back if a word holds its tag. -/
theorem reads {e : ConfirmEvent} (h : e.tag ≤ wordMax) (depth : Nat) :
    Reads shape (depth + 1) e.jsonChars e := by
  refine reads_record fun fuel rest hf => ?_
  rw [byName, (fills h fuel depth).read true hf (Nat.le_refl fuel)]
  rfl

end ConfirmEvent

/-! ## Options -/

namespace Options

/-- The one member of the options fills a draft. -/
theorem fills {o : Options} (h : o.terminationMillis ≤ wordMax) (fuel depth : Nat) :
    Fills (readField fuel depth) fuel none
      [fieldChars "termination_timeout_ms" (natChars o.terminationMillis)]
      (some o.terminationMillis) :=
  .one fun hf _ hr => by
    rw [readField, if_pos rfl]
    exact onceField_none (reads_word h) _ id hf hr

/-- The options are read back if a word holds the milliseconds. -/
theorem reads {o : Options} (h : o.terminationMillis ≤ wordMax) (depth : Nat) :
    Reads shape (depth + 1) o.jsonChars o := by
  refine reads_record fun fuel rest hf => ?_
  rw [byName, (fills h fuel depth).read true hf (Nat.le_refl fuel)]
  rfl

end Options

/-! ## Whole texts -/

/-- Every message, report and set of options is read back from its text as it was. -/
theorem written_is_read :
    (∀ m : Message, m.properties.Exact → m.properties.depth ≤ 125 →
      Message.parse m.jsonText = .ok m) ∧
    (∀ e : ConfirmEvent, e.tag ≤ wordMax → ConfirmEvent.parse e.jsonText = .ok e) ∧
    ∀ o : Options, o.terminationMillis ≤ wordMax → Options.parse o.jsonText = .ok o :=
  ⟨fun _ h hd => parseWith_ofList (Message.reads h hd),
    fun _ h => parseWith_ofList (ConfirmEvent.reads h 126),
    fun _ h => parseWith_ofList (Options.reads h 126)⟩

/-- An integer within arrays. -/
def nested (n : Int) : (levels : Nat) → Value
  | 0 => .int n
  | levels + 1 => .arr (.cons (nested n levels) .nil)

/-- A message at the limits: names that are empty or have to be escaped, both ends of the integers,
the deepest arrays, properties that do not come in order, and a body that ends in a padded group. -/
def atTheLimits : Message :=
  let bare : Message := ⟨.topic "", some "\"\\/\x01\n\x1f\x7fé😀", .nil, [0, 255, 61, 10]⟩
  let members := Value.obj (.cons "" .null (.cons "\t" (.str "") .nil (by decide)) trivial)
  ((bare.withProperty "é" members).withProperty "\"\\" (nested intMin 125)).withProperty ""
    (.int wordMax)

theorem atTheLimits_is_read :
    (atTheLimits.properties.Exact ∧ atTheLimits.properties.depth = 125 ∧
      Message.parse atTheLimits.jsonText = .ok atTheLimits) ∧
    ConfirmEvent.parse (ConfirmEvent.jsonText ⟨wordMax, true, false⟩) = .ok ⟨wordMax, true, false⟩ ∧
    Options.parse (Options.jsonText ⟨wordMax⟩) = .ok ⟨wordMax⟩ := by
  have hexact : atTheLimits.properties.Exact :=
    Members.exact_insert _ _ (Members.exact_insert _ _ (Members.exact_insert _ _ trivial
      (by decide)) (by decide +kernel)) (by decide)
  have hdepth : atTheLimits.properties.depth = 125 := by decide +kernel
  exact ⟨⟨hexact, hdepth, written_is_read.1 atTheLimits hexact (Nat.le_of_eq hdepth)⟩,
    written_is_read.2.1 ⟨wordMax, true, false⟩ (Nat.le_refl wordMax),
    written_is_read.2.2 ⟨wordMax⟩ (Nat.le_refl wordMax)⟩

end BrokerClient
