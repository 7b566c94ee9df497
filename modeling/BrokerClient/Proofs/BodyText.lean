import Mathlib.Algebra.Group.Nat.Defs
import BrokerClient.Proofs.RoundTrip

/-!
# Each body has one text

`Base64` shows that what is encoded is decoded. Here is the other half: what is decoded had been
encoded, so that no body has a second spelling. The decoder gives each symbol back as its six bits
(`eq_byte_of_value?`), a last group is symbols and then padding (`eq_of_lastGroup`), and the bytes
that a group stands for have the group as their text, since no bit of it is left over.

What an encoded text looks like is said apart from both (`Spelled`): symbols in groups of four, the
last one filled with at most two signs of padding, and zero in the bits that padding leaves unused.
-/

namespace BrokerClient.Text.Base64

/-! ## From bytes back to symbols -/

/-- Only the byte of a symbol stands for six bits. -/
theorem eq_byte_of_value? {b : UInt8} {n : Nat} (h : value? b = some n) : n < 64 ∧ b = byte n := by
  have hall : ∀ k < 256, (value? (UInt8.ofNat k)).all
      (fun n => decide (n < 64 ∧ UInt8.ofNat k = byte n)) = true := by decide +kernel
  have hb := hall b.toNat b.toNat_lt
  rw [UInt8.ofNat_toNat, h] at hb
  exact of_decide_eq_true hb

theorem eq_byte_of_valueAt {offset : Nat} {b : UInt8} {n : Nat} (h : valueAt offset b = .ok n) :
    n < 64 ∧ b = byte n := by
  unfold valueAt at h
  split at h
  · next v hv =>
    obtain rfl : v = n := Except.ok.inj h
    exact eq_byte_of_value? hv
  · cases h

/-- Four numbers of six bits come back from the three bytes that they make. -/
theorem sixes_ofNat {v w x y : Nat} (hv : v < 64) (hw : w < 64) (hx : x < 64) (hy : y < 64) :
    (UInt8.ofNat (v * 4 + w / 16)).toNat / 4 = v ∧
      (UInt8.ofNat (v * 4 + w / 16)).toNat % 4 * 16 +
        (UInt8.ofNat (w % 16 * 16 + x / 4)).toNat / 16 = w ∧
      (UInt8.ofNat (w % 16 * 16 + x / 4)).toNat % 16 * 4 +
        (UInt8.ofNat (x % 4 * 64 + y)).toNat / 64 = x ∧
      (UInt8.ofNat (x % 4 * 64 + y)).toNat % 64 = y := by
  rw [UInt8.toNat_ofNat', UInt8.toNat_ofNat', UInt8.toNat_ofNat']
  omega

/-! ## Texts as symbols and padding -/

/-- The text of some symbols, given by their six bits, with padding after them. -/
def spell (sixes : List Nat) (padding : Nat) : List Char :=
  sixes.map symbol ++ List.replicate padding '='

/-- How the symbols and the padding of a text fit together: the padding fills the last group, and
each sign of it leaves two more bits of the last symbol unused, which are zero. -/
structure Fit (sixes : List Nat) (padding : Nat) : Prop where
  atMostTwo : padding ≤ 2
  fills : (sixes.length + padding) % 4 = 0
  unused : sixes.getLastD 0 % 4 ^ padding = 0

/-- The form of every encoded text, and of no other. -/
def Spelled (cs : List Char) : Prop :=
  ∃ sixes : List Nat, ∃ padding, (∀ v ∈ sixes, v < 64) ∧ Fit sixes padding ∧
    cs = spell sixes padding

/-- The number of symbols says how much padding there is. -/
theorem Fit.padding_eq {sixes : List Nat} {padding : Nat} (h : Fit sixes padding) :
    padding = (4 - sixes.length % 4) % 4 := by
  have hmost := h.atMostTwo
  have hfills := h.fills
  omega

/-- A group of four symbols in front changes nothing. -/
theorem fit_group {v w x y : Nat} {sixes : List Nat} {padding : Nat} :
    Fit (v :: w :: x :: y :: sixes) padding ↔ Fit sixes padding := by
  have hlen : ((v :: w :: x :: y :: sixes).length + padding) % 4 =
      (sixes.length + padding) % 4 := by
    simp only [List.length_cons]
    omega
  constructor
  · intro h
    refine ⟨h.atMostTwo, hlen ▸ h.fills, ?_⟩
    match sixes, h with
    | [], _ => exact Nat.zero_mod _
    | _ :: _, h => exact h.unused
  · intro h
    refine ⟨h.atMostTwo, hlen ▸ h.fills, ?_⟩
    match sixes, h with
    | [], h => rw [show padding = 0 from h.padding_eq, Nat.pow_zero, Nat.mod_one]
    | _ :: _, h => exact h.unused

/-- Encoded bytes are spelled. -/
theorem spelled_encode (bytes : List UInt8) : Spelled (encode bytes) := by
  induction bytes using encode.induct with
  | case1 a b c rest ih =>
    obtain ⟨h1, h2, h3, h4⟩ := sixes_lt a b c
    obtain ⟨sixes, padding, hsixes, hfit, heq⟩ := ih
    refine ⟨_ :: _ :: _ :: _ :: sixes, padding, ?_, fit_group.2 hfit, by rw [encode, heq]; rfl⟩
    simpa only [List.forall_mem_cons] using ⟨h1, h2, h3, h4, hsixes⟩
  | case2 a b =>
    obtain ⟨h1, h2, _, _⟩ := sixes_lt a b 0
    have h3 : b.toNat % 16 * 4 < 64 := by omega
    exact ⟨[a.toNat / 4, a.toNat % 4 * 16 + b.toNat / 16, b.toNat % 16 * 4], 1,
      by simp [h1, h2, h3], ⟨by omega, by simp, by simp⟩, rfl⟩
  | case3 a =>
    obtain ⟨h1, _, _, _⟩ := sixes_lt a 0 0
    have h2 : a.toNat % 4 * 16 < 64 := by omega
    exact ⟨[a.toNat / 4, a.toNat % 4 * 16], 2, by simp [h1, h2], ⟨by omega, by simp, by simp⟩, rfl⟩
  | case4 => exact ⟨[], 0, by simp, ⟨by omega, rfl, rfl⟩, rfl⟩

/-- Symbols and padding that fit are the text of some bytes, found group by group. -/
theorem exists_encode_of_fit : ∀ (sixes : List Nat) (padding : Nat), (∀ v ∈ sixes, v < 64) →
    Fit sixes padding → ∃ bytes, encode bytes = spell sixes padding
  | [], padding, _, hfit => ⟨[], by rw [show padding = 0 from hfit.padding_eq]; rfl⟩
  | [_], padding, _, hfit => by
    -- One sign alone would ask for three signs of padding, and there are at most two.
    have hthree : padding = 3 := hfit.padding_eq
    have hmost := hfit.atMostTwo
    omega
  | [v, w], padding, hsixes, hfit => by
    obtain rfl : padding = 2 := hfit.padding_eq
    -- The bits that no byte takes are zero, so encoding writes the last sign as it was.
    have hzero : w % 16 = 0 := hfit.unused
    obtain ⟨e1, e2, _, _⟩ := sixes_ofNat (hsixes v (by simp)) (hsixes w (by simp))
      (Nat.zero_lt_succ 63) (Nat.zero_lt_succ 63)
    refine ⟨[UInt8.ofNat (v * 4 + w / 16)], ?_⟩
    rw [hzero] at e2
    rw [encode, e1, show (UInt8.ofNat (v * 4 + w / 16)).toNat % 4 * 16 = w by simpa using e2]
    rfl
  | [v, w, x], padding, hsixes, hfit => by
    obtain rfl : padding = 1 := hfit.padding_eq
    have hzero : x % 4 = 0 := hfit.unused
    obtain ⟨e1, e2, e3, _⟩ := sixes_ofNat (hsixes v (by simp)) (hsixes w (by simp))
      (hsixes x (by simp)) (Nat.zero_lt_succ 63)
    refine ⟨[UInt8.ofNat (v * 4 + w / 16), UInt8.ofNat (w % 16 * 16 + x / 4)], ?_⟩
    rw [hzero] at e3
    rw [encode, e1, e2,
      show (UInt8.ofNat (w % 16 * 16 + x / 4)).toNat % 16 * 4 = x by simpa using e3]
    rfl
  | v :: w :: x :: y :: sixes, padding, hsixes, hfit => by
    obtain ⟨bytes, hbytes⟩ := exists_encode_of_fit sixes padding
      (fun u hu => hsixes u (by simp [hu])) (fit_group.1 hfit)
    obtain ⟨e1, e2, e3, e4⟩ := sixes_ofNat (hsixes v (by simp)) (hsixes w (by simp))
      (hsixes x (by simp)) (hsixes y (by simp))
    refine ⟨UInt8.ofNat (v * 4 + w / 16) :: UInt8.ofNat (w % 16 * 16 + x / 4) ::
      UInt8.ofNat (x % 4 * 64 + y) :: bytes, ?_⟩
    rw [encode, e1, e2, e3, e4, hbytes]
    rfl

/-- A text is that of some bytes just if it is spelled. -/
theorem exists_encode_iff {cs : List Char} : (∃ bytes, cs = encode bytes) ↔ Spelled cs := by
  constructor
  · rintro ⟨bytes, rfl⟩
    exact spelled_encode bytes
  · rintro ⟨sixes, padding, hsixes, hfit, rfl⟩
    obtain ⟨bytes, hbytes⟩ := exists_encode_of_fit sixes padding hsixes hfit
    exact ⟨bytes, hbytes.symm⟩

/-! ## What the decoder accepts -/

/-- What gives a result has given one in each of its parts. -/
theorem exists_of_bind_eq_ok {α β : Type} {x : Except Flaw α} {f : α → Except Flaw β} {r : β}
    (h : (x >>= f) = .ok r) : ∃ a, x = .ok a ∧ f a = .ok r := by
  cases x with
  | error e => cases h
  | ok a => exact ⟨a, rfl, h⟩

/-- A last group that is read is symbols and then padding. -/
theorem eq_of_lastGroup {start k : Nat} {text : List UInt8} {vs : List Nat}
    (h : lastGroup start k text = .ok vs) :
    (∀ v ∈ vs, v < 64) ∧ ∃ n, text = vs.map byte ++ List.replicate n pad := by
  induction text generalizing k vs with
  | nil =>
    obtain rfl : [] = vs := Except.ok.inj h
    exact ⟨by simp, 0, rfl⟩
  | cons b rest ih =>
    rw [lastGroup] at h
    split at h
    · next hpad =>
      split at h
      · cases h
      -- After the first `=` nothing but `=` may follow; this is checked by looking at all the rest.
      split at h
      · next hrest =>
        obtain rfl : [] = vs := Except.ok.inj h
        have hrep : rest = List.replicate rest.length pad :=
          List.eq_replicate_iff.2 ⟨rfl, by simpa using hrest⟩
        refine ⟨by simp, rest.length + 1, ?_⟩
        rw [List.map_nil, List.nil_append, List.replicate_succ, ← hrep, hpad]
      · cases h
    · obtain ⟨v, hv, h⟩ := exists_of_bind_eq_ok h
      obtain ⟨us, hvs, h⟩ := exists_of_bind_eq_ok h
      obtain rfl : v :: us = vs := Except.ok.inj h
      obtain ⟨hlt, rfl⟩ := eq_byte_of_valueAt hv
      obtain ⟨hus, n, rfl⟩ := ih hvs
      exact ⟨by simpa [hlt] using hus, n, rfl⟩

/-- The bytes of a last group have the group as their text. -/
theorem encoded_of_decodeLast {start : Nat} {text bytes : List UInt8} (hlen : text.length ≤ 4)
    (h : decodeLast start text = .ok bytes) : encoded bytes = text := by
  unfold decodeLast at h
  obtain ⟨vs, hvs, h⟩ := exists_of_bind_eq_ok h
  obtain ⟨hlt, n, htext⟩ := eq_of_lastGroup hvs
  have hn : vs.length + n = text.length := by rw [htext]; simp
  split at h
  · obtain rfl : [] = bytes := Except.ok.inj h
    rfl
  · cases h
  · cases h
  · next v w _ =>
    split at h
    · cases h
    split at h
    · cases h
    next hfour hzero =>
    obtain rfl : [_] = bytes := Except.ok.inj h
    obtain ⟨e1, e2, _, _⟩ := sixes_ofNat (hlt v (by simp)) (hlt w (by simp))
      (Nat.zero_lt_succ 63) (Nat.zero_lt_succ 63)
    obtain rfl : n = 2 := by simp only [List.length_cons, List.length_nil] at hn; omega
    rw [not_not.1 hzero] at e2
    rw [encoded_one, e1, htext,
      show (UInt8.ofNat (v * 4 + w / 16)).toNat % 4 * 16 = w by simpa using e2]
    rfl
  · next v w x _ =>
    split at h
    · cases h
    split at h
    · cases h
    next hfour hzero =>
    obtain rfl : [_, _] = bytes := Except.ok.inj h
    obtain ⟨e1, e2, e3, _⟩ := sixes_ofNat (hlt v (by simp)) (hlt w (by simp)) (hlt x (by simp))
      (Nat.zero_lt_succ 63)
    obtain rfl : n = 1 := by simp only [List.length_cons, List.length_nil] at hn; omega
    rw [not_not.1 hzero] at e3
    rw [encoded_two, e1, e2, htext,
      show (UInt8.ofNat (w % 16 * 16 + x / 4)).toNat % 16 * 4 = x by simpa using e3]
    rfl
  · next v w x y more _ =>
    obtain rfl : [_, _, _] = bytes := Except.ok.inj h
    obtain ⟨e1, e2, e3, e4⟩ := sixes_ofNat (hlt v (by simp)) (hlt w (by simp)) (hlt x (by simp))
      (hlt y (by simp))
    simp only [List.length_cons] at hn
    obtain rfl : more = [] := List.eq_nil_of_length_eq_zero (by omega)
    obtain rfl : n = 0 := by omega
    rw [encoded_group, encoded_nil, e1, e2, e3, e4, htext]
    rfl

/-- A text from which no group can be taken, with something left, is no longer than a group. -/
theorem length_le_four : ∀ {text : List UInt8},
    (∀ a b c d e rest, text = a :: b :: c :: d :: e :: rest → False) → text.length ≤ 4
  | [], _ | [_], _ | [_, _], _ | [_, _, _], _ | [_, _, _, _], _ => by simp
  | a :: b :: c :: d :: e :: rest, hshort => (hshort a b c d e rest rfl).elim

/-- Whatever is decoded to some bytes is their text. The induction follows the decoder, group by
group. -/
theorem encoded_of_decodeFrom {start : Nat} {text bytes : List UInt8}
    (h : decodeFrom start text = .ok bytes) : encoded bytes = text := by
  induction start, text using decodeFrom.induct generalizing bytes with
  | case1 start a b c d e rest ih =>
    rw [decodeFrom] at h
    obtain ⟨v, ha, h⟩ := exists_of_bind_eq_ok h
    obtain ⟨w, hb, h⟩ := exists_of_bind_eq_ok h
    obtain ⟨x, hc, h⟩ := exists_of_bind_eq_ok h
    obtain ⟨y, hd, h⟩ := exists_of_bind_eq_ok h
    obtain ⟨tail, ht, h⟩ := exists_of_bind_eq_ok h
    obtain rfl : _ :: _ :: _ :: tail = bytes := Except.ok.inj h
    obtain ⟨hv, rfl⟩ := eq_byte_of_valueAt ha
    obtain ⟨hw, rfl⟩ := eq_byte_of_valueAt hb
    obtain ⟨hx, rfl⟩ := eq_byte_of_valueAt hc
    obtain ⟨hy, rfl⟩ := eq_byte_of_valueAt hd
    obtain ⟨e1, e2, e3, e4⟩ := sixes_ofNat hv hw hx hy
    rw [encoded_group, e1, e2, e3, e4, ih ht]
  | case2 start text hshort =>
    have hlen := length_le_four hshort
    rw [decodeFrom_last start hlen] at h
    exact encoded_of_decodeLast hlen h

/-- The decoder accepts what the encoder writes and nothing else. -/
theorem decode_eq_ok_iff {text bytes : List UInt8} :
    decode text = .ok bytes ↔ text = encoded bytes := by
  constructor
  · intro h
    unfold decode at h
    split at h
    · cases h
    · exact (encoded_of_decodeFrom h).symm
  · rintro rfl
    exact decode_encoded bytes

/-! ## One division of a text -/

/-- No two values of six bits have one symbol. -/
theorem symbol_injective {v w : Nat} (hv : v < 64) (hw : w < 64) (h : symbol v = symbol w) :
    v = w := by
  have hbyte : byte v = byte w := by rw [byte, h, byte]
  have hsome : some v = some w := by rw [← value?_byte v hv, ← value?_byte w hw, hbyte]
  exact Option.some.inj hsome

/-- The padding is no symbol. -/
theorem symbol_ne_pad : ∀ n < 64, symbol n ≠ '=' := by
  decide

/-- Padding is no symbol, so a text tells where its symbols end. -/
theorem spell_injective {us vs : List Nat} {m n : Nat} (hus : ∀ v ∈ us, v < 64)
    (hvs : ∀ v ∈ vs, v < 64) (h : spell us m = spell vs n) : us = vs ∧ m = n := by
  induction us generalizing vs with
  | nil =>
    match vs with
    | [] => exact ⟨rfl, by simpa [spell] using congrArg List.length h⟩
    | w :: _ =>
      match m with
      | 0 => cases h
      | m + 1 =>
        have hhead : '=' = symbol w := (List.cons.inj h).1
        exact absurd hhead.symm (symbol_ne_pad w (hvs w (by simp)))
  | cons v us ih =>
    match vs with
    | [] =>
      match n with
      | 0 => cases h
      | n + 1 =>
        have hhead : symbol v = '=' := (List.cons.inj h).1
        exact absurd hhead (symbol_ne_pad v (hus v (by simp)))
    | w :: vs =>
      obtain ⟨hhead, htail⟩ := List.cons.inj h
      obtain ⟨rfl, rfl⟩ := ih (fun u hu => hus u (by simp [hu])) (fun u hu => hvs u (by simp [hu]))
        htail
      exact ⟨by rw [symbol_injective (hus v (by simp)) (hvs w (by simp)) hhead], rfl⟩

/-- Of the texts that some symbols and some padding make, those are accepted where both fit. -/
theorem spelled_spell {sixes : List Nat} {padding : Nat} (h : ∀ v ∈ sixes, v < 64) :
    Spelled (spell sixes padding) ↔ Fit sixes padding := by
  constructor
  · rintro ⟨vs, n, hvs, hfit, heq⟩
    obtain ⟨rfl, rfl⟩ := spell_injective h hvs heq
    exact hfit
  · exact fun hfit => ⟨sixes, padding, h, hfit, rfl⟩

end BrokerClient.Text.Base64

namespace BrokerClient.Message

open Text.Base64

/-! ## Bodies -/

theorem bytesOf_injective {s t : String} (h : bytesOf s = bytesOf t) : s = t := by
  have hbytes : s.toList.utf8Encode = t.toList.utf8Encode := congrArg List.toByteArray h
  rw [String.utf8Encode_toList, String.utf8Encode_toList] at hbytes
  exact String.toByteArray_inj.1 hbytes

theorem bytesOf_bodyChars (body : List UInt8) :
    bytesOf (String.ofList (bodyChars body)) = encoded body := by
  rw [bytesOf, String.toList_ofList]
  rfl

/-- A string is read as a body just if it is the text of that body. -/
theorem readBody_eq_ok_iff {s : String} {body : List UInt8} :
    readBody s = .ok body ↔ s = String.ofList (bodyChars body) := by
  rw [readBody, decode_eq_ok_iff, ← bytesOf_bodyChars]
  exact ⟨bytesOf_injective, fun h => by rw [h]⟩

/-- A string is read as some body just if it is spelled. -/
theorem readBody_accepts_iff {s : String} :
    (∃ body, readBody s = .ok body) ↔ Spelled s.toList := by
  rw [← exists_encode_iff]
  refine exists_congr fun body => ?_
  rw [readBody_eq_ok_iff, bodyChars]
  exact ⟨fun h => by rw [h, String.toList_ofList], fun h => by rw [← h, String.ofList_toList]⟩

/-- A string is refused just if it is not spelled. -/
theorem readBody_fails_iff {s : String} :
    (∃ flaw, readBody s = .error flaw) ↔ ¬Spelled s.toList := by
  rw [← readBody_accepts_iff]
  cases readBody s <;> simp

/-- The reader of bodies accepts a string of JSON just if it is the text of the body, and reads no
further. -/
theorem bodyShape_eq_ok_iff {fuel depth : Nat} {cs rest : List Char} {body : List UInt8} :
    bodyShape fuel depth cs = .ok (body, rest) ↔
      Json.Shape.string fuel depth cs = .ok (String.ofList (bodyChars body), rest) := by
  unfold bodyShape
  cases hs : Json.Shape.string fuel depth cs with
  | error e => simp [bind, Except.bind]
  | ok p =>
    obtain ⟨s, more⟩ := p
    simp only [bind, Except.bind, Except.ok.injEq, Prod.mk.injEq, ← readBody_eq_ok_iff]
    cases readBody s <;> simp [pure, Except.pure]

/-- A body is read from one text only, the one that it is written as. -/
theorem body_text_unique :
    (∀ s body, readBody s = .ok body ↔ s = String.ofList (bodyChars body)) ∧
    (∀ s t body, readBody s = .ok body → readBody t = .ok body → s = t) ∧
    -- What is refused: padding that is missing or too long, a length that no text has, bits set
    -- that no byte uses, and every character but symbols and the padding after them.
    (∀ s, (∃ flaw, readBody s = .error flaw) ↔ ¬Spelled s.toList) ∧
    (∀ sixes padding, (∀ v ∈ sixes, v < 64) →
      ((∃ body, readBody (String.ofList (spell sixes padding)) = .ok body) ↔ Fit sixes padding)) ∧
    (∀ s c, c ∈ s.toList → c ≠ '=' → (∀ v < 64, c ≠ symbol v) → ∃ flaw, readBody s = .error flaw) ∧
    -- The same within a JSON text.
    ∀ fuel depth cs rest body, bodyShape fuel depth cs = .ok (body, rest) ↔
      Json.Shape.string fuel depth cs = .ok (String.ofList (bodyChars body), rest) := by
  refine ⟨fun _ _ => readBody_eq_ok_iff, fun s t body hs ht => ?_, fun _ => readBody_fails_iff,
    fun sixes padding h => ?_, fun s c hc hpad hsymbol => ?_, fun _ _ _ _ _ => bodyShape_eq_ok_iff⟩
  · rw [readBody_eq_ok_iff.1 hs, readBody_eq_ok_iff.1 ht]
  · rw [readBody_accepts_iff, String.toList_ofList, spelled_spell h]
  · refine readBody_fails_iff.2 ?_
    rintro ⟨sixes, padding, hsixes, -, heq⟩
    rw [heq, spell, List.mem_append, List.mem_map, List.mem_replicate] at hc
    rcases hc with ⟨v, hv, rfl⟩ | ⟨-, rfl⟩
    · exact hsymbol v (hsixes v hv) rfl
    · exact hpad rfl

/-- Two bytes, with one sign of padding; the same with an unused bit set, and with a character that
is no symbol. -/
theorem hi_has_one_text :
    readBody "aGk=" = .ok [104, 105] ∧
    (∀ t, readBody t = .ok [104, 105] → "aGk=" = t) ∧
    ((∀ v ∈ [26, 6, 37], v < 64) ∧ ¬∃ body, readBody "aGl=" = .ok body) ∧
    ('*' ∈ "a*k=".toList ∧ ∃ flaw, readBody "a*k=" = .error flaw) := by
  have hread : readBody "aGk=" = .ok [104, 105] := (body_text_unique.1 _ _).2 (by decide)
  have hsixes : ∀ v ∈ [26, 6, 37], v < 64 := by decide
  have hunused : ¬Fit [26, 6, 37] 1 := fun h => absurd h.unused (by decide)
  refine ⟨hread, fun t ht => body_text_unique.2.1 _ t _ hread ht, ⟨hsixes, ?_⟩, by decide, ?_⟩
  · exact (body_text_unique.2.2.2.1 [26, 6, 37] 1 hsixes).not.2 hunused
  · exact body_text_unique.2.2.2.2.1 "a*k=" '*' (by decide) (by decide) (by decide)

end BrokerClient.Message
