import TruthTable.Text.Utf8

/-!
# Bytes and text

Which bytes decode, and to what. The decoder takes the bytes in blocks and
carries the start of a character over to the next block; the encoding of a text
knows nothing of blocks. The two meet in `Cut`: what is carried over is the
start of the first character that is not yet decoded, and not all of it.

Main results:

* `exists_readsAs`         — the bytes of a character are read as this
  character, and as a cut-off one when some are missing at the end.
* `encodeChar_of_utf8Head` — what is read as a character is its bytes.
* `decodeBlock_encode`, `decodeBlocks_encode` — one block, and all blocks, of an
  encoded text.
* `decode_eq_ok_iff`       — bytes decode to a text exactly when they are its
  encoding.
-/

namespace TruthTable.Text

/-- The bytes of a text. -/
def encode (cs : List Char) : List UInt8 :=
  cs.flatMap String.utf8EncodeChar

theorem encode_cons (c : Char) (cs : List Char) :
    encode (c :: cs) = String.utf8EncodeChar c ++ encode cs :=
  List.flatMap_cons

theorem encode_append (cs ds : List Char) : encode (cs ++ ds) = encode cs ++ encode ds :=
  List.flatMap_append

-- ---------------------------------------------------------------------------
-- One character
-- ---------------------------------------------------------------------------

theorem toNat_ofNat_of_lt {n : Nat} (h : n < 256) : (UInt8.ofNat n).toNat = n :=
  UInt8.toNat_ofNat_of_lt' h

/-- The code points of characters leave out the surrogates. -/
theorem toNat_char (c : Char) : c.toNat < 0xD800 ∨ 0xDFFF < c.toNat ∧ c.toNat < 0x110000 :=
  c.valid

/-- Code points below 0x80 take one byte. -/
theorem encodeChar_one {c : Char} (h : c.toNat < 0x80) :
    String.utf8EncodeChar c = [UInt8.ofNat c.toNat] := by
  simp only [String.utf8EncodeChar, show c.val.toNat = c.toNat from rfl]
  rw [if_pos (by omega)]

theorem encodeChar_two {c : Char} (hLow : 0x80 ≤ c.toNat) (hHigh : c.toNat < 0x800) :
    String.utf8EncodeChar c =
      [UInt8.ofNat (c.toNat / 64 % 32 + 192), UInt8.ofNat (c.toNat % 64 + 128)] := by
  simp only [String.utf8EncodeChar, show c.val.toNat = c.toNat from rfl]
  rw [if_neg (by omega), if_pos (by omega)]

theorem encodeChar_three {c : Char} (hLow : 0x800 ≤ c.toNat) (hHigh : c.toNat < 0x10000) :
    String.utf8EncodeChar c =
      [UInt8.ofNat (c.toNat / 4096 % 16 + 224), UInt8.ofNat (c.toNat / 64 % 64 + 128),
        UInt8.ofNat (c.toNat % 64 + 128)] := by
  simp only [String.utf8EncodeChar, show c.val.toNat = c.toNat from rfl]
  rw [if_neg (by omega), if_neg (by omega), if_pos (by omega)]

/-- The other code points take four bytes. -/
theorem encodeChar_four {c : Char} (hLow : 0x10000 ≤ c.toNat) :
    String.utf8EncodeChar c =
      [UInt8.ofNat (c.toNat / 262144 % 8 + 240), UInt8.ofNat (c.toNat / 4096 % 64 + 128),
        UInt8.ofNat (c.toNat / 64 % 64 + 128), UInt8.ofNat (c.toNat % 64 + 128)] := by
  simp only [String.utf8EncodeChar, show c.val.toNat = c.toNat from rfl]
  rw [if_neg (by omega), if_neg (by omega), if_neg (by omega)]

/-- A byte that is not the first one holds six bits. -/
theorem toNat_tail (n : Nat) : (UInt8.ofNat (n % 64 + 128)).toNat = n % 64 + 128 :=
  toNat_ofNat_of_lt (by omega)

theorem isTail_tail (n : Nat) : isTail (UInt8.ofNat (n % 64 + 128)) = true := by
  simp only [isTail, between, toNat_tail, Bool.and_eq_true, decide_eq_true_eq]
  omega

/-- A byte that is not the first one adds its six bits at the end. -/
theorem addTail_tail (m n : Nat) : addTail m (UInt8.ofNat (n % 64 + 128)) = m * 64 + n % 64 := by
  rw [addTail, toNat_tail]
  omega

/-- A first byte of two. -/
theorem utf8Head_two {first : UInt8} (hLow : 0xC2 ≤ first.toNat) (hHigh : first.toNat < 0xE0)
    (rest : List UInt8) : utf8Head first rest = twoBytes first rest := by
  simp only [utf8Head]
  rw [if_neg (by omega), if_neg (by omega), if_pos hHigh]

/-- A first byte of three; after 0xE0 and 0xED the second byte is limited. -/
theorem utf8Head_three {first : UInt8} (hLow : 0xE0 ≤ first.toNat) (hHigh : first.toNat < 0xF0)
    (rest : List UInt8) : utf8Head first rest =
      threeBytes (if first.toNat = 0xE0 then 0xA0 else 0x80)
        (if first.toNat = 0xED then 0x9F else 0xBF) first rest := by
  simp only [utf8Head]
  rw [if_neg (by omega), if_neg (by omega), if_neg (by omega), if_pos hHigh]

/-- A first byte of four; after 0xF0 and 0xF4 the second byte is limited. -/
theorem utf8Head_four {first : UInt8} (hLow : 0xF0 ≤ first.toNat) (hHigh : first.toNat < 0xF5)
    (rest : List UInt8) : utf8Head first rest =
      fourBytes (if first.toNat = 0xF0 then 0x90 else 0x80)
        (if first.toNat = 0xF4 then 0x8F else 0xBF) first rest := by
  simp only [utf8Head]
  rw [if_neg (by omega), if_neg (by omega), if_neg (by omega), if_neg (by omega), if_pos hHigh]

/-- The bytes are read as a character, whatever follows them, and as a cut-off
character when some are missing at the end. -/
structure ReadsAs (c : Char) (first : UInt8) (tail : List UInt8) : Prop where
  whole : ∀ rest, utf8Head first (tail ++ rest) = .char c tail.length
  cut : ∀ k < tail.length, utf8Head first (tail.take k) = .cut

theorem ofNat_eq {c : Char} {n : Nat} (h : n = c.toNat) : Char.ofNat n = c := by
  rw [h, Char.ofNat_toNat]

/-- One byte is read as its character. -/
theorem readsAs_one {c : Char} (h : c.toNat < 0x80) : ReadsAs c (UInt8.ofNat c.toNat) [] where
  whole rest := by
    have hFirst := toNat_ofNat_of_lt (n := c.toNat) (by omega)
    simp only [utf8Head, hFirst, if_pos h, Char.ofNat_toNat, List.length_nil]
  cut := nofun

/-- Two bytes are read as their character. -/
theorem readsAs_two {c : Char} (hLow : 0x80 ≤ c.toNat) (hHigh : c.toNat < 0x800) :
    ReadsAs c (UInt8.ofNat (c.toNat / 64 % 32 + 192)) [UInt8.ofNat (c.toNat % 64 + 128)] := by
  have hFirst := toNat_ofNat_of_lt (n := c.toNat / 64 % 32 + 192) (by omega)
  refine ⟨fun rest => ?_, fun k hk => ?_⟩
  · rw [utf8Head_two (by omega) (by omega)]
    simp only [List.cons_append, twoBytes, isTail_tail, if_true, addTail_tail]
    rw [hFirst, ofNat_eq (c := c) (by omega)]
    rfl
  · obtain rfl : k = 0 := by simpa using hk
    rw [utf8Head_two (by omega) (by omega)]
    rfl

/-- Three bytes are read as their character. What the limits of the second byte
leave out are surrogates and code points that take fewer bytes. -/
theorem readsAs_three {c : Char} (hLow : 0x800 ≤ c.toNat) (hHigh : c.toNat < 0x10000) :
    ReadsAs c (UInt8.ofNat (c.toNat / 4096 % 16 + 224))
      [UInt8.ofNat (c.toNat / 64 % 64 + 128), UInt8.ofNat (c.toNat % 64 + 128)] := by
  have hValid := toNat_char c
  have hFirst := toNat_ofNat_of_lt (n := c.toNat / 4096 % 16 + 224) (by omega)
  -- a second byte below the range would be an overlong form, one above it a surrogate
  have hSecond : between
      (if (UInt8.ofNat (c.toNat / 4096 % 16 + 224)).toNat = 0xE0 then 0xA0 else 0x80)
      (if (UInt8.ofNat (c.toNat / 4096 % 16 + 224)).toNat = 0xED then 0x9F else 0xBF)
      (UInt8.ofNat (c.toNat / 64 % 64 + 128)) = true := by
    simp only [between, hFirst, toNat_tail, Bool.and_eq_true, decide_eq_true_eq]
    constructor <;> split <;> omega
  refine ⟨fun rest => ?_, fun k hk => ?_⟩
  · rw [utf8Head_three (by omega) (by omega)]
    simp only [List.cons_append, threeBytes, hSecond, isTail_tail, if_true, addTail_tail]
    rw [hFirst, ofNat_eq (c := c) (by omega)]
    rfl
  · rw [utf8Head_three (by omega) (by omega)]
    have hk : k < 2 := hk
    obtain rfl | rfl : k = 0 ∨ k = 1 := by omega
    · rfl
    · simp only [List.take_succ_cons, List.take_zero, threeBytes, hSecond, if_true]

/-- Four bytes are read as their character. -/
theorem readsAs_four {c : Char} (hLow : 0x10000 ≤ c.toNat) :
    ReadsAs c (UInt8.ofNat (c.toNat / 262144 % 8 + 240))
      [UInt8.ofNat (c.toNat / 4096 % 64 + 128), UInt8.ofNat (c.toNat / 64 % 64 + 128),
        UInt8.ofNat (c.toNat % 64 + 128)] := by
  have hValid := toNat_char c
  have hFirst := toNat_ofNat_of_lt (n := c.toNat / 262144 % 8 + 240) (by omega)
  -- a second byte above the range would lead beyond the last code point
  have hSecond : between
      (if (UInt8.ofNat (c.toNat / 262144 % 8 + 240)).toNat = 0xF0 then 0x90 else 0x80)
      (if (UInt8.ofNat (c.toNat / 262144 % 8 + 240)).toNat = 0xF4 then 0x8F else 0xBF)
      (UInt8.ofNat (c.toNat / 4096 % 64 + 128)) = true := by
    simp only [between, hFirst, toNat_tail, Bool.and_eq_true, decide_eq_true_eq]
    constructor <;> split <;> omega
  refine ⟨fun rest => ?_, fun k hk => ?_⟩
  · rw [utf8Head_four (by omega) (by omega)]
    simp only [List.cons_append, fourBytes, hSecond, isTail_tail, if_true, addTail_tail]
    rw [hFirst, ofNat_eq (c := c) (by omega)]
    rfl
  · rw [utf8Head_four (by omega) (by omega)]
    have hk : k < 3 := hk
    obtain rfl | rfl | rfl : k = 0 ∨ k = 1 ∨ k = 2 := by omega
    · rfl
    · simp only [List.take_succ_cons, List.take_zero, fourBytes, hSecond, if_true]
    · simp only [List.take_succ_cons, List.take_zero, fourBytes, hSecond, isTail_tail, if_true]

/-- The bytes of a character are read as this character. -/
theorem exists_readsAs (c : Char) :
    ∃ first tail, String.utf8EncodeChar c = first :: tail ∧ ReadsAs c first tail := by
  by_cases hOne : c.toNat < 0x80
  · exact ⟨_, _, encodeChar_one hOne, readsAs_one hOne⟩
  by_cases hTwo : c.toNat < 0x800
  · exact ⟨_, _, encodeChar_two (by omega) hTwo, readsAs_two (by omega) hTwo⟩
  by_cases hThree : c.toNat < 0x10000
  · exact ⟨_, _, encodeChar_three (by omega) hThree, readsAs_three (by omega) hThree⟩
  · exact ⟨_, _, encodeChar_four (by omega), readsAs_four (by omega)⟩

-- ---------------------------------------------------------------------------
-- The bytes of a character that was read
-- ---------------------------------------------------------------------------

/-- A number that is no surrogate and in range is the code point of a character. -/
theorem toNat_ofNat_of_valid {n : Nat} (h : n < 0xD800 ∨ 0xDFFF < n ∧ n < 0x110000) :
    (Char.ofNat n).toNat = n := by
  have hValid : n.isValidChar := h
  rw [Char.ofNat, dif_pos hValid]
  rfl

theorem byte_eq {n : Nat} {b : UInt8} (h : n = b.toNat) : UInt8.ofNat n = b := by
  rw [h, UInt8.ofNat_toNat]

theorem between_iff {low high : Nat} {b : UInt8} :
    between low high b = true ↔ low ≤ b.toNat ∧ b.toNat ≤ high := by
  simp only [between, Bool.and_eq_true, decide_eq_true_eq]

theorem isTail_iff {b : UInt8} : isTail b = true ↔ 0x80 ≤ b.toNat ∧ b.toNat ≤ 0xBF :=
  between_iff

/-- What two bytes were read as. -/
theorem twoBytes_eq_char {first : UInt8} {rest : List UInt8} {c : Char} {more : Nat}
    (h : twoBytes first rest = .char c more) : ∃ b later, rest = b :: later ∧
      (0x80 ≤ b.toNat ∧ b.toNat ≤ 0xBF) ∧
      c = Char.ofNat (addTail (first.toNat % 32) b) ∧ more = 1 := by
  unfold twoBytes at h
  split at h
  · cases h
  · split at h
    · rename_i b later hb
      obtain ⟨hc, hMore⟩ := Utf8Head.char.inj h
      exact ⟨b, later, rfl, isTail_iff.mp hb, hc.symm, hMore.symm⟩
    · cases h

/-- What three bytes were read as. -/
theorem threeBytes_eq_char {low high : Nat} {first : UInt8} {rest : List UInt8} {c : Char}
    {more : Nat} (h : threeBytes low high first rest = .char c more) :
    ∃ b d later, rest = b :: d :: later ∧ (low ≤ b.toNat ∧ b.toNat ≤ high) ∧
      (0x80 ≤ d.toNat ∧ d.toNat ≤ 0xBF) ∧
      c = Char.ofNat (addTail (addTail (first.toNat % 16) b) d) ∧ more = 2 := by
  unfold threeBytes at h
  split at h
  · cases h
  · split at h
    · rename_i b rest hb
      split at h
      · cases h
      · split at h
        · rename_i d later hd
          obtain ⟨hc, hMore⟩ := Utf8Head.char.inj h
          exact ⟨b, d, later, rfl, between_iff.mp hb, isTail_iff.mp hd, hc.symm, hMore.symm⟩
        · cases h
    · cases h

/-- What four bytes were read as. -/
theorem fourBytes_eq_char {low high : Nat} {first : UInt8} {rest : List UInt8} {c : Char}
    {more : Nat} (h : fourBytes low high first rest = .char c more) :
    ∃ b d e later, rest = b :: d :: e :: later ∧ (low ≤ b.toNat ∧ b.toNat ≤ high) ∧
      (0x80 ≤ d.toNat ∧ d.toNat ≤ 0xBF) ∧ (0x80 ≤ e.toNat ∧ e.toNat ≤ 0xBF) ∧
      c = Char.ofNat (addTail (addTail (addTail (first.toNat % 8) b) d) e) ∧ more = 3 := by
  unfold fourBytes at h
  split at h
  · cases h
  · split at h
    · rename_i b rest hb
      split at h
      · cases h
      · split at h
        · rename_i d rest hd
          split at h
          · cases h
          · split at h
            · rename_i e later he
              obtain ⟨hc, hMore⟩ := Utf8Head.char.inj h
              exact ⟨b, d, e, later, rfl, between_iff.mp hb, isTail_iff.mp hd, isTail_iff.mp he,
                hc.symm, hMore.symm⟩
            · cases h
        · cases h
    · cases h

/-- The bytes that are read as a character are the bytes of this character. -/
theorem encodeChar_of_utf8Head {first : UInt8} {rest : List UInt8} {c : Char} {more : Nat}
    (h : utf8Head first rest = .char c more) :
    String.utf8EncodeChar c = first :: rest.take more := by
  simp only [utf8Head] at h
  split at h
  · rename_i hOne
    obtain ⟨rfl, rfl⟩ := Utf8Head.char.inj h
    have hChar := toNat_ofNat_of_valid (n := first.toNat) (by omega)
    rw [encodeChar_one (by omega), hChar, byte_eq (b := first) rfl]
    rfl
  split at h
  · cases h
  split at h
  · obtain ⟨b, later, rfl, hb, hc, rfl⟩ := twoBytes_eq_char h
    have hChar : c.toNat = addTail (first.toNat % 32) b := by
      rw [hc, toNat_ofNat_of_valid (by unfold addTail; omega)]
    unfold addTail at hChar
    rw [encodeChar_two (by omega) (by omega), byte_eq (b := first) (by omega),
      byte_eq (b := b) (by omega)]
    rfl
  split at h
  · obtain ⟨b, d, later, rfl, hb, hd, hc, rfl⟩ := threeBytes_eq_char h
    have hRange : (first.toNat = 0xE0 → 0xA0 ≤ b.toNat) ∧ (first.toNat = 0xED → b.toNat ≤ 0x9F) ∧
        0x80 ≤ b.toNat ∧ b.toNat ≤ 0xBF := by
      split at hb <;> split at hb <;> omega
    have hChar : c.toNat = addTail (addTail (first.toNat % 16) b) d := by
      rw [hc, toNat_ofNat_of_valid (by unfold addTail; omega)]
    unfold addTail at hChar
    rw [encodeChar_three (by omega) (by omega), byte_eq (b := first) (by omega),
      byte_eq (b := b) (by omega), byte_eq (b := d) (by omega)]
    rfl
  split at h
  · obtain ⟨b, d, e, later, rfl, hb, hd, he, hc, rfl⟩ := fourBytes_eq_char h
    have hRange : (first.toNat = 0xF0 → 0x90 ≤ b.toNat) ∧ (first.toNat = 0xF4 → b.toNat ≤ 0x8F) ∧
        0x80 ≤ b.toNat ∧ b.toNat ≤ 0xBF := by
      split at hb <;> split at hb <;> omega
    have hChar : c.toNat = addTail (addTail (addTail (first.toNat % 8) b) d) e := by
      rw [hc, toNat_ofNat_of_valid (by unfold addTail; omega)]
    unfold addTail at hChar
    rw [encodeChar_four (by omega), byte_eq (b := first) (by omega), byte_eq (b := b) (by omega),
      byte_eq (b := d) (by omega), byte_eq (b := e) (by omega)]
    rfl
  · cases h

-- ---------------------------------------------------------------------------
-- Blocks
-- ---------------------------------------------------------------------------

/-- The bytes are the start of the first character of a text, and not all of
it. -/
def Cut (carried : List UInt8) : List Char → Prop
  | [] => carried = []
  | c :: _ => carried <+: String.utf8EncodeChar c ∧ carried ≠ String.utf8EncodeChar c

/-- A whole character at the front of a block is read. -/
theorem decodeBlock_char {first : UInt8} {rest : List UInt8} {c : Char} {more : Nat}
    (h : utf8Head first rest = .char c more) (position : Nat) (decoded : List Char) :
    decodeBlock position decoded (first :: rest) =
      decodeBlock (position + 1 + more) (c :: decoded) (rest.drop more) := by
  rw [decodeBlock, h]

/-- A character that is cut off by the end of a block is carried over. -/
theorem decodeBlock_cut {first : UInt8} {rest : List UInt8} (h : utf8Head first rest = .cut)
    (position : Nat) (decoded : List Char) :
    decodeBlock position decoded (first :: rest) = .ok (decoded, first :: rest) := by
  rw [decodeBlock, h]

/-- **One block.** From the front of an encoded text all characters are read
that are there whole, and the rest is carried over. -/
theorem decodeBlock_encode {cs : List Char} {taken left : List UInt8}
    (h : encode cs = taken ++ left) (position : Nat) (decoded : List Char) :
    ∃ read unread carried, cs = read ++ unread ∧ taken = encode read ++ carried ∧
      Cut carried unread ∧
      decodeBlock position decoded taken = .ok (read.reverse ++ decoded, carried) := by
  induction cs generalizing taken position decoded with
  | nil =>
    obtain ⟨rfl, rfl⟩ := List.nil_eq_append_iff.mp h
    exact ⟨[], [], [], rfl, rfl, rfl, by rw [decodeBlock]; rfl⟩
  | cons c cs ih =>
    obtain ⟨first, tail, hBytes, hReads⟩ := exists_readsAs c
    rw [encode_cons] at h
    by_cases hWhole : String.utf8EncodeChar c <+: taken
    · -- the first character is there whole
      obtain ⟨later, rfl⟩ := hWhole
      rw [List.append_assoc] at h
      obtain ⟨read, unread, carried, rfl, rfl, hCut, hRest⟩ :=
        ih (List.append_cancel_left h) (position + 1 + tail.length) (c :: decoded)
      refine ⟨c :: read, unread, carried, rfl, ?_, hCut, ?_⟩
      · rw [encode_cons, List.append_assoc]
      · rw [hBytes, List.cons_append, decodeBlock_char (hReads.whole _), List.drop_left, hRest]
        simp
    · -- the block ends within it
      have hStart : taken <+: String.utf8EncodeChar c :=
        (List.prefix_or_prefix_of_prefix (List.prefix_append taken left)
          (h ▸ List.prefix_append _ _)).resolve_right hWhole
      refine ⟨[], c :: cs, taken, rfl, rfl, ⟨hStart, ?_⟩, ?_⟩
      · rintro rfl
        exact hWhole (List.prefix_refl _)
      · cases taken with
        | nil => rw [decodeBlock]; rfl
        | cons b taken =>
          rw [hBytes] at hStart hWhole
          obtain ⟨rfl, hTail⟩ := List.cons_prefix_cons.mp hStart
          have hLength : taken.length < tail.length := by
            refine Nat.lt_of_le_of_ne hTail.length_le fun hEq => ?_
            exact hWhole (hTail.eq_of_length hEq ▸ List.prefix_refl _)
          have hCut := hReads.cut taken.length hLength
          rw [← List.prefix_iff_eq_take.mp hTail] at hCut
          rw [decodeBlock_cut hCut]
          rfl

/-- A text of which nothing is left but the start of a character has ended. -/
theorem Cut.eq_nil {carried : List UInt8} {cs : List Char} (hCut : Cut carried cs)
    (h : encode cs = carried) : carried = [] ∧ cs = [] := by
  cases cs with
  | nil => exact ⟨hCut, rfl⟩
  | cons c cs =>
    have hWhole : String.utf8EncodeChar c <+: carried := h ▸ List.prefix_append _ _
    exact absurd (hCut.1.eq_of_length_le hWhole.length_le) hCut.2

/-- **All blocks.** What was carried over and the bytes that follow are the
encoding of what is still to be read. -/
theorem decodeBlocks_encode {cs : List Char} {carried bytes : List UInt8}
    (h : encode cs = carried ++ bytes) (hCut : Cut carried cs) (decoded : List Char) :
    decodeBlocks decoded carried bytes = .ok (decoded.reverse ++ cs) := by
  match bytes with
  | [] =>
    obtain ⟨rfl, rfl⟩ := hCut.eq_nil (h.trans (List.append_nil _))
    rw [decodeBlocks, List.append_nil]
  | first :: rest =>
    have hBlock : encode cs =
        (carried ++ first :: rest.take (blockSize - 1)) ++ rest.drop (blockSize - 1) := by
      rw [h, List.append_assoc, List.cons_append, List.take_append_drop]
    obtain ⟨read, unread, carried', rfl, hTaken, hCut', hDecode⟩ :=
      decodeBlock_encode hBlock 0 decoded
    have hRest : encode unread = carried' ++ rest.drop (blockSize - 1) := by
      rw [hTaken, encode_append, List.append_assoc] at hBlock
      exact List.append_cancel_left hBlock
    rw [decodeBlocks, hDecode]
    simp only [decodeBlocks_encode hRest hCut', List.reverse_append, List.reverse_reverse,
      List.append_assoc]
termination_by bytes.length
decreasing_by simp only [List.length_drop, List.length_cons]; omega

/-- A block that is read holds the encoding of what was read and the bytes
carried over. -/
theorem decodeBlock_eq_ok {position : Nat} {decoded decoded' : List Char}
    {bytes carried : List UInt8}
    (h : decodeBlock position decoded bytes = .ok (decoded', carried)) :
    ∃ read, decoded' = read.reverse ++ decoded ∧ bytes = encode read ++ carried := by
  fun_induction decodeBlock position decoded bytes with
  | case1 =>
    obtain ⟨rfl, rfl⟩ := Prod.mk.inj (Except.ok.inj h)
    exact ⟨[], rfl, rfl⟩
  | case2 position decoded first rest c more hHead ih =>
    obtain ⟨read, rfl, hRest⟩ := ih h
    refine ⟨c :: read, by simp, ?_⟩
    rw [encode_cons, encodeChar_of_utf8Head hHead, List.append_assoc, ← hRest, List.cons_append,
      List.take_append_drop]
  | case3 =>
    obtain ⟨rfl, rfl⟩ := Prod.mk.inj (Except.ok.inj h)
    exact ⟨[], rfl, rfl⟩
  | case4 =>
    obtain ⟨rfl, rfl⟩ := Prod.mk.inj (Except.ok.inj h)
    exact ⟨[], rfl, rfl⟩
  | case5 => cases h

/-- The bytes carried over and the blocks are the encoding of what was read. -/
theorem decodeBlocks_eq_ok {decoded cs : List Char} {carried bytes : List UInt8}
    (h : decodeBlocks decoded carried bytes = .ok cs) :
    ∃ read, cs = decoded.reverse ++ read ∧ carried ++ bytes = encode read := by
  fun_induction decodeBlocks decoded carried bytes with
  | case1 =>
    exact ⟨[], by simpa using (Except.ok.inj h).symm, rfl⟩
  | case2 => cases h
  | case3 => cases h
  | case4 => cases h
  | case5 decoded carried first rest decoded' carried' hBlock ih =>
    obtain ⟨read, rfl, hTaken⟩ := decodeBlock_eq_ok hBlock
    obtain ⟨later, rfl, hRest⟩ := ih h
    refine ⟨read ++ later, by simp, ?_⟩
    rw [encode_append, ← hRest, ← List.append_assoc, ← hTaken, List.append_assoc, List.cons_append,
      List.take_append_drop]

/-- **Bytes decode to a text exactly when they are its encoding,** however the
blocks fall. -/
theorem decode_eq_ok_iff {bytes : List UInt8} {cs : List Char} :
    decode bytes = .ok cs ↔ bytes = encode cs := by
  constructor
  · intro h
    obtain ⟨read, rfl, hBytes⟩ := decodeBlocks_eq_ok h
    exact hBytes
  · rintro rfl
    have hCut : Cut [] cs := by
      cases cs with
      | nil => rfl
      | cons c cs =>
        obtain ⟨first, tail, hBytes, -⟩ := exists_readsAs c
        exact ⟨List.nil_prefix, by simp [hBytes]⟩
    exact decodeBlocks_encode rfl hCut []

end TruthTable.Text
