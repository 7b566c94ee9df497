import BrokerClient.Text.Base64

/-!
# Base64 text is read back

Decoding the bytes of an encoded text gives the bytes that were encoded. The decoder treats the last
group of a text apart from the groups before it, the encoder the last one or two bytes: a last group
without padding is one of the three cases where they divide the text differently.

The proof goes from symbols to groups to texts. That a symbol is one byte and that its byte is read
as its six bits is decided for all 64. Three bytes make four numbers of six bits, and the numbers
give the bytes back (`ofNat_sixes`), which is arithmetic. The text then follows by the recursion of
the encoder (`decodeFrom_encoded`), where the group that comes last is decoded by itself
(`decodeLast_encoded`).
-/

namespace BrokerClient.Text.Base64

/-! ## Symbols -/

/-- The byte of the symbol for six bits. -/
def byte (n : Nat) : UInt8 := UInt8.ofNat (symbol n).toNat

/-- A symbol is one byte in UTF-8. -/
theorem utf8EncodeChar_symbol : ∀ n < 64, String.utf8EncodeChar (symbol n) = [byte n] := by
  decide

/-- The byte of a symbol stands for its six bits. -/
theorem value?_byte : ∀ n < 64, value? (byte n) = some n := by
  decide

theorem byte_ne_pad : ∀ n < 64, byte n ≠ pad := by
  decide

theorem valueAt_byte {n : Nat} (h : n < 64) (offset : Nat) : valueAt offset (byte n) = .ok n := by
  rw [valueAt, value?_byte n h]

/-! ## Texts -/

/-- The bytes of an encoded text. -/
def encoded (bytes : List UInt8) : List UInt8 := (encode bytes).flatMap String.utf8EncodeChar

/-- The four numbers of six bits that three bytes make. -/
theorem sixes_lt (a b c : UInt8) :
    a.toNat / 4 < 64 ∧ a.toNat % 4 * 16 + b.toNat / 16 < 64 ∧
      b.toNat % 16 * 4 + c.toNat / 64 < 64 ∧ c.toNat % 64 < 64 := by
  have ha := a.toNat_lt
  have hb := b.toNat_lt
  have hc := c.toNat_lt
  omega

/-- A text holds nothing but symbols and padding. -/
theorem mem_encode {bytes : List UInt8} {c : Char} (h : c ∈ encode bytes) :
    c = '=' ∨ ∃ n < 64, c = symbol n := by
  induction bytes using encode.induct with
  | case1 x y z rest ih =>
    obtain ⟨h1, h2, h3, h4⟩ := sixes_lt x y z
    rw [encode, List.mem_cons, List.mem_cons, List.mem_cons, List.mem_cons] at h
    rcases h with rfl | rfl | rfl | rfl | h
    · exact .inr ⟨_, h1, rfl⟩
    · exact .inr ⟨_, h2, rfl⟩
    · exact .inr ⟨_, h3, rfl⟩
    · exact .inr ⟨_, h4, rfl⟩
    · exact ih h
  | case2 x y =>
    -- Bytes that are missing count as zero, in a sign that is not all theirs.
    obtain ⟨h1, h2, _, _⟩ := sixes_lt x y 0
    simp only [encode, List.mem_cons, List.not_mem_nil, or_false] at h
    rcases h with rfl | rfl | rfl | rfl
    · exact .inr ⟨_, h1, rfl⟩
    · exact .inr ⟨_, h2, rfl⟩
    · exact .inr ⟨_, by omega, rfl⟩
    · exact .inl rfl
  | case3 x =>
    obtain ⟨h1, _, _, _⟩ := sixes_lt x 0 0
    simp only [encode, List.mem_cons, List.not_mem_nil, or_false] at h
    rcases h with rfl | rfl | rfl | rfl
    · exact .inr ⟨_, h1, rfl⟩
    · exact .inr ⟨_, by omega, rfl⟩
    · exact .inl rfl
    · exact .inl rfl
  | case4 => cases h

theorem encoded_nil : encoded [] = [] := rfl

/-- One byte makes two symbols, the second of which has four bits to spare. -/
theorem encoded_one (a : UInt8) :
    encoded [a] = [byte (a.toNat / 4), byte (a.toNat % 4 * 16), pad, pad] := by
  obtain ⟨h1, h2, _, _⟩ := sixes_lt a 0 0
  simp only [encoded, encode, List.flatMap_cons, List.flatMap_nil,
    utf8EncodeChar_symbol _ h1, utf8EncodeChar_symbol _ (by simpa using h2 : a.toNat % 4 * 16 < 64)]
  rfl

/-- Two bytes make three symbols, the last of which has two bits to spare. -/
theorem encoded_two (a b : UInt8) :
    encoded [a, b] = [byte (a.toNat / 4), byte (a.toNat % 4 * 16 + b.toNat / 16),
      byte (b.toNat % 16 * 4), pad] := by
  obtain ⟨h1, h2, h3, _⟩ := sixes_lt a b 0
  simp only [encoded, encode, List.flatMap_cons, List.flatMap_nil, utf8EncodeChar_symbol _ h1,
    utf8EncodeChar_symbol _ h2, utf8EncodeChar_symbol _ (by simpa using h3 : b.toNat % 16 * 4 < 64)]
  rfl

/-- Three bytes make a group of four symbols, and the rest follows. -/
theorem encoded_group (a b c : UInt8) (rest : List UInt8) :
    encoded (a :: b :: c :: rest) = byte (a.toNat / 4) :: byte (a.toNat % 4 * 16 + b.toNat / 16) ::
      byte (b.toNat % 16 * 4 + c.toNat / 64) :: byte (c.toNat % 64) :: encoded rest := by
  obtain ⟨h1, h2, h3, h4⟩ := sixes_lt a b c
  simp only [encoded, encode, List.flatMap_cons, utf8EncodeChar_symbol _ h1,
    utf8EncodeChar_symbol _ h2, utf8EncodeChar_symbol _ h3, utf8EncodeChar_symbol _ h4]
  rfl

/-! ## Decoding -/

/-- The three bytes come back from the four numbers. -/
theorem ofNat_sixes (a b c : UInt8) :
    UInt8.ofNat (a.toNat / 4 * 4 + (a.toNat % 4 * 16 + b.toNat / 16) / 16) = a ∧
      UInt8.ofNat ((a.toNat % 4 * 16 + b.toNat / 16) % 16 * 16 +
        (b.toNat % 16 * 4 + c.toNat / 64) / 4) = b ∧
      UInt8.ofNat ((b.toNat % 16 * 4 + c.toNat / 64) % 4 * 64 + c.toNat % 64) = c := by
  have hb := b.toNat_lt
  have hc := c.toNat_lt
  refine ⟨?_, ?_, ?_⟩
  · rw [show a.toNat / 4 * 4 + (a.toNat % 4 * 16 + b.toNat / 16) / 16 = a.toNat by omega,
      UInt8.ofNat_toNat]
  · rw [show (a.toNat % 4 * 16 + b.toNat / 16) % 16 * 16 +
      (b.toNat % 16 * 4 + c.toNat / 64) / 4 = b.toNat by omega, UInt8.ofNat_toNat]
  · rw [show (b.toNat % 16 * 4 + c.toNat / 64) % 4 * 64 + c.toNat % 64 = c.toNat by omega,
      UInt8.ofNat_toNat]

/-- A symbol of the last group adds its six bits to what is read. -/
theorem lastGroup_byte {n : Nat} (h : n < 64) (start k : Nat) (rest : List UInt8) :
    lastGroup start k (byte n :: rest) =
      (lastGroup start (k + 1) rest).map (n :: ·) := by
  rw [lastGroup, if_neg (byte_ne_pad n h), valueAt_byte h]
  cases lastGroup start (k + 1) rest <;> rfl

/-- Padding ends the last group, if two symbols stand before it and nothing but padding behind. -/
theorem lastGroup_pad (start : Nat) {k : Nat} (h : 2 ≤ k) {rest : List UInt8}
    (hr : rest.all (· = pad) = true) : lastGroup start k (pad :: rest) = .ok [] := by
  rw [lastGroup, if_pos rfl, if_neg (by omega), if_pos hr]

/-- Bytes that end a text, in a group of their own. -/
theorem decodeLast_encoded (start : Nat) :
    ∀ bytes : List UInt8, bytes.length ≤ 3 → decodeLast start (encoded bytes) = .ok bytes
  | [], _ => rfl
  | [a], _ => by
    obtain ⟨h1, h2, _, _⟩ := sixes_lt a 0 0
    obtain ⟨ea, _, _⟩ := ofNat_sixes a 0 0
    have hz : a.toNat % 4 * 16 % 16 = 0 := by omega
    simp only [UInt8.toNat_zero, Nat.zero_div, Nat.add_zero] at h2 ea
    rw [encoded_one, decodeLast, lastGroup_byte h1, lastGroup_byte h2,
      lastGroup_pad start (Nat.le_refl 2) rfl]
    simp only [Except.map, bind, Except.bind, List.length_cons, List.length_nil, hz, ea]
    rfl
  | [a, b], _ => by
    obtain ⟨h1, h2, h3, _⟩ := sixes_lt a b 0
    obtain ⟨ea, eb, _⟩ := ofNat_sixes a b 0
    have hz : b.toNat % 16 * 4 % 4 = 0 := by omega
    simp only [UInt8.toNat_zero, Nat.zero_div, Nat.add_zero] at h3 eb
    rw [encoded_two, decodeLast, lastGroup_byte h1, lastGroup_byte h2, lastGroup_byte h3,
      lastGroup_pad start (by omega) rfl]
    simp only [Except.map, bind, Except.bind, List.length_cons, List.length_nil, hz, ea, eb]
    rfl
  | [a, b, c], _ => by
    obtain ⟨h1, h2, h3, h4⟩ := sixes_lt a b c
    obtain ⟨ea, eb, ec⟩ := ofNat_sixes a b c
    rw [encoded_group, encoded_nil, decodeLast, lastGroup_byte h1, lastGroup_byte h2,
      lastGroup_byte h3, lastGroup_byte h4]
    simp only [lastGroup, Except.map, bind, Except.bind]
    rw [ea, eb, ec]
    rfl

theorem encoded_ne_nil {bytes : List UInt8} (h : bytes ≠ []) : encoded bytes ≠ [] := by
  match bytes, h with
  | [a], _ => simp [encoded_one]
  | [a, b], _ => simp [encoded_two]
  | a :: b :: c :: rest, _ => simp [encoded_group]

/-- A group is decoded by itself as long as another one follows. -/
theorem decodeFrom_group {v w x y : Nat} (hv : v < 64) (hw : w < 64) (hx : x < 64) (hy : y < 64)
    (start : Nat) {rest : List UInt8} (h : rest ≠ []) :
    decodeFrom start (byte v :: byte w :: byte x :: byte y :: rest) =
      (decodeFrom (start + 4) rest).map fun tail =>
        UInt8.ofNat (v * 4 + w / 16) :: UInt8.ofNat (w % 16 * 16 + x / 4) ::
          UInt8.ofNat (x % 4 * 64 + y) :: tail := by
  obtain ⟨e, rest, rfl⟩ := List.exists_cons_of_ne_nil h
  rw [decodeFrom, valueAt_byte hv, valueAt_byte hw, valueAt_byte hx, valueAt_byte hy]
  cases decodeFrom (start + 4) (e :: rest) <;> rfl

/-- Up to four characters are a last group. -/
theorem decodeFrom_last (start : Nat) {text : List UInt8} (h : text.length ≤ 4) :
    decodeFrom start text = decodeLast start text := by
  match text, h with
  | [], _ | [_], _ | [_, _], _ | [_, _, _], _ | [_, _, _, _], _ => rfl

/-- Group by group the bytes come back. The induction follows the encoder, so that a group of three
that is the last one is decoded as a last group. -/
theorem decodeFrom_encoded (bytes : List UInt8) (start : Nat) :
    decodeFrom start (encoded bytes) = .ok bytes := by
  induction bytes using encode.induct generalizing start with
  | case1 a b c rest ih =>
    by_cases hr : rest = []
    · subst hr
      rw [decodeFrom_last start (by simp [encoded_group, encoded_nil])]
      exact decodeLast_encoded start [a, b, c] (Nat.le_refl 3)
    · obtain ⟨h1, h2, h3, h4⟩ := sixes_lt a b c
      obtain ⟨ea, eb, ec⟩ := ofNat_sixes a b c
      rw [encoded_group, decodeFrom_group h1 h2 h3 h4 start (encoded_ne_nil hr), ih, ea, eb, ec]
      rfl
  | case2 a b =>
    rw [decodeFrom_last start (by simp [encoded_two])]
    exact decodeLast_encoded start [a, b] (by simp)
  | case3 a =>
    rw [decodeFrom_last start (by simp [encoded_one])]
    exact decodeLast_encoded start [a] (by simp)
  | case4 => rfl

/-- A text consists of whole groups. -/
theorem length_encoded (bytes : List UInt8) : (encoded bytes).length % 4 = 0 := by
  induction bytes using encode.induct with
  | case1 a b c rest ih => simp only [encoded_group, List.length_cons]; omega
  | case2 a b => simp [encoded_two]
  | case3 a => simp [encoded_one]
  | case4 => rfl

/-- What is encoded is decoded to the same bytes. -/
theorem decode_encoded (bytes : List UInt8) : decode (encoded bytes) = .ok bytes := by
  have hs : stray? (encoded bytes) = none := by
    have hl := length_encoded bytes
    unfold stray?
    split
    · rfl
    · rw [if_neg (by omega)]
  rw [decode, hs]
  exact decodeFrom_encoded bytes 0

end BrokerClient.Text.Base64
