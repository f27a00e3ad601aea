import SheetLint.Text.Utf8

/-!
# Well-formed sequences and maximal subparts

The decoder reads one byte at a time.  This module says what it finds without following
it: which byte sequences spell a character, which stretches of other bytes stand for one
replacement character, and that bytes fall into such stretches in one way.

Main results:

- Relation `Spells` lists the well-formed sequences with the characters that they spell;
  `spells_iff` says that they are the encodings of the characters.
- Relation `Partial.Begun` describes the bytes of a sequence under way, and
  `Decoder.lead_cases` and `Partial.Begun.advance` say what one byte does.
- Theorem `decode_append_spells` says that a well-formed sequence is decoded wherever it
  stands, apart from what stands around it.
- Relation `Reads` cuts bytes into well-formed sequences and maximal subparts, and
  `reads_iff` says that decoding does exactly this.
-/

namespace SheetLint.Utf8

/-! ## Well-formed sequences -/

/-- The least second byte behind a lead byte of a sequence of three or four. -/
def secondLow (first : Nat) : Nat :=
  if first = 0xE0 then 0xA0 else if first = 0xF0 then 0x90 else 0x80

/-- The greatest second byte behind a lead byte of a sequence of three or four. -/
def secondHigh (first : Nat) : Nat :=
  if first = 0xED then 0x9F else if first = 0xF4 then 0x8F else 0xBF

/-- The second byte lies in its range. -/
def IsSecond (first second : UInt8) : Prop :=
  secondLow first.toNat ≤ second.toNat ∧ second.toNat ≤ secondHigh first.toNat

/-- A later byte of a sequence. -/
def IsTail (byte : UInt8) : Prop :=
  0x80 ≤ byte.toNat ∧ byte.toNat ≤ 0xBF

/-- The well-formed sequences with the characters that they spell. -/
inductive Spells : List UInt8 → Char → Prop where
  | one {a : UInt8} (ha : a.toNat < 0x80) : Spells [a] (Char.ofNat a.toNat)
  | two {a b : UInt8} (ha : 0xC2 ≤ a.toNat ∧ a.toNat ≤ 0xDF) (hb : IsTail b) :
    Spells [a, b] (Char.ofNat ((a.toNat - 0xC0) * 64 + (b.toNat - 0x80)))
  | three {a b c : UInt8} (ha : 0xE0 ≤ a.toNat ∧ a.toNat ≤ 0xEF) (hb : IsSecond a b)
      (hc : IsTail c) :
    Spells [a, b, c]
      (Char.ofNat (((a.toNat - 0xE0) * 64 + (b.toNat - 0x80)) * 64 + (c.toNat - 0x80)))
  | four {a b c d : UInt8} (ha : 0xF0 ≤ a.toNat ∧ a.toNat ≤ 0xF4) (hb : IsSecond a b)
      (hc : IsTail c) (hd : IsTail d) :
    Spells [a, b, c, d]
      (Char.ofNat ((((a.toNat - 0xF0) * 64 + (b.toNat - 0x80)) * 64 + (c.toNat - 0x80)) * 64 +
        (d.toNat - 0x80)))

/-- A second byte is a later byte, of fewer values behind four of the lead bytes. -/
theorem isSecond_iff (first second : UInt8) :
    IsSecond first second ↔
      IsTail second ∧ (first.toNat = 0xE0 → 0xA0 ≤ second.toNat) ∧
        (first.toNat = 0xED → second.toNat ≤ 0x9F) ∧ (first.toNat = 0xF0 → 0x90 ≤ second.toNat) ∧
        (first.toNat = 0xF4 → second.toNat ≤ 0x8F) := by
  unfold IsSecond IsTail secondLow secondHigh
  repeat' split
  all_goals omega

theorem exists_toNat {n : Nat} (h : n < 256) : ∃ byte : UInt8, byte.toNat = n :=
  ⟨UInt8.ofNat n, UInt8.toNat_ofNat_of_lt' h⟩

theorem exists_isSecond (first : UInt8) : ∃ second, IsSecond first second := by
  have hbounds : secondLow first.toNat ≤ secondHigh first.toNat ∧ secondHigh first.toNat < 256 := by
    unfold secondLow secondHigh
    repeat' split
    all_goals omega
  rcases exists_toNat (n := secondLow first.toNat) (by omega) with ⟨second, hsecond⟩
  exact ⟨second, Nat.le_of_eq hsecond.symm, hsecond ▸ hbounds.1⟩

theorem toNat_ofNat_of_isValidChar {n : Nat} (h : n.isValidChar) : (Char.ofNat n).toNat = n := by
  rw [Char.ofNat, dif_pos h]
  rfl

/-- A well-formed sequence is the encoding of the character that it spells. -/
theorem Spells.eq_utf8EncodeChar {bytes : List UInt8} {c : Char} (h : Spells bytes c) :
    String.utf8EncodeChar c = bytes := by
  have hval (n : Nat) (hn : n.isValidChar) : (Char.ofNat n).val.toNat = n :=
    toNat_ofNat_of_isValidChar hn
  cases h with
  | @one a ha =>
    rw [String.utf8EncodeChar, hval _ (Or.inl (by omega)), if_pos (by omega), UInt8.ofNat_toNat]
  | @two a b ha hb =>
    unfold IsTail at hb
    generalize hn : (a.toNat - 0xC0) * 64 + (b.toNat - 0x80) = n
    have h1 : n / 64 % 0x20 + 0xC0 = a.toNat := by omega
    have h2 : n % 0x40 + 0x80 = b.toNat := by omega
    rw [String.utf8EncodeChar, hval n (Or.inl (by omega)), if_neg (by omega), if_pos (by omega),
      h1, h2, UInt8.ofNat_toNat, UInt8.ofNat_toNat]
  | @three a b c ha hb hc =>
    rw [isSecond_iff] at hb
    unfold IsTail at hb hc
    generalize hn : ((a.toNat - 0xE0) * 64 + (b.toNat - 0x80)) * 64 + (c.toNat - 0x80) = n
    have hvalid : n.isValidChar := by
      unfold Nat.isValidChar
      omega
    have h1 : n / 4096 % 0x10 + 0xE0 = a.toNat := by omega
    have h2 : n / 64 % 0x40 + 0x80 = b.toNat := by omega
    have h3 : n % 0x40 + 0x80 = c.toNat := by omega
    rw [String.utf8EncodeChar, hval n hvalid, if_neg (by omega), if_neg (by omega),
      if_pos (by omega), h1, h2, h3, UInt8.ofNat_toNat, UInt8.ofNat_toNat, UInt8.ofNat_toNat]
  | @four a b c d ha hb hc hd =>
    rw [isSecond_iff] at hb
    unfold IsTail at hb hc hd
    generalize hn : (((a.toNat - 0xF0) * 64 + (b.toNat - 0x80)) * 64 + (c.toNat - 0x80)) * 64 +
      (d.toNat - 0x80) = n
    have hvalid : n.isValidChar := by
      unfold Nat.isValidChar
      omega
    have h1 : n / 262144 % 0x08 + 0xF0 = a.toNat := by omega
    have h2 : n / 4096 % 0x40 + 0x80 = b.toNat := by omega
    have h3 : n / 64 % 0x40 + 0x80 = c.toNat := by omega
    have h4 : n % 0x40 + 0x80 = d.toNat := by omega
    rw [String.utf8EncodeChar, hval n hvalid, if_neg (by omega), if_neg (by omega),
      if_neg (by omega), h1, h2, h3, h4, UInt8.ofNat_toNat, UInt8.ofNat_toNat, UInt8.ofNat_toNat,
      UInt8.ofNat_toNat]

/-- Every character is spelled by a sequence. -/
theorem exists_spells (c : Char) : ∃ bytes, Spells bytes c := by
  have hvalid : c.toNat < 0xD800 ∨ 0xDFFF < c.toNat ∧ c.toNat < 0x110000 := c.valid
  rw [← Char.ofNat_toNat c]
  generalize c.toNat = n at hvalid
  rcases Nat.lt_or_ge n 0x80 with h1 | h1
  · rcases exists_toNat (n := n) (by omega) with ⟨a, rfl⟩
    exact ⟨_, .one h1⟩
  rcases Nat.lt_or_ge n 0x800 with h2 | h2
  · rcases exists_toNat (n := 0xC0 + n / 64) (by omega) with ⟨a, ha⟩
    rcases exists_toNat (n := 0x80 + n % 64) (by omega) with ⟨b, hb⟩
    have hn : n = (a.toNat - 0xC0) * 64 + (b.toNat - 0x80) := by omega
    rw [hn]
    exact ⟨_, .two (by omega) (by unfold IsTail; omega)⟩
  rcases Nat.lt_or_ge n 0x10000 with h3 | h3
  · rcases exists_toNat (n := 0xE0 + n / 4096) (by omega) with ⟨a, ha⟩
    rcases exists_toNat (n := 0x80 + n / 64 % 64) (by omega) with ⟨b, hb⟩
    rcases exists_toNat (n := 0x80 + n % 64) (by omega) with ⟨c, hc⟩
    have hn : n = ((a.toNat - 0xE0) * 64 + (b.toNat - 0x80)) * 64 + (c.toNat - 0x80) := by omega
    have hsecond : IsSecond a b := by
      rw [isSecond_iff]
      unfold IsTail
      omega
    rw [hn]
    exact ⟨_, .three (by omega) hsecond (by unfold IsTail; omega)⟩
  · rcases exists_toNat (n := 0xF0 + n / 262144) (by omega) with ⟨a, ha⟩
    rcases exists_toNat (n := 0x80 + n / 4096 % 64) (by omega) with ⟨b, hb⟩
    rcases exists_toNat (n := 0x80 + n / 64 % 64) (by omega) with ⟨c, hc⟩
    rcases exists_toNat (n := 0x80 + n % 64) (by omega) with ⟨d, hd⟩
    have hn : n = (((a.toNat - 0xF0) * 64 + (b.toNat - 0x80)) * 64 + (c.toNat - 0x80)) * 64 +
        (d.toNat - 0x80) := by omega
    have hsecond : IsSecond a b := by
      rw [isSecond_iff]
      unfold IsTail
      omega
    rw [hn]
    exact ⟨_, .four (by omega) hsecond (by unfold IsTail; omega) (by unfold IsTail; omega)⟩

theorem spells_iff {bytes : List UInt8} {c : Char} :
    Spells bytes c ↔ bytes = String.utf8EncodeChar c := by
  constructor
  · intro h
    exact h.eq_utf8EncodeChar.symm
  · rintro rfl
    rcases exists_spells c with ⟨bytes, h⟩
    rwa [h.eq_utf8EncodeChar]

/-- No well-formed sequence goes on behind another one. -/
theorem Spells.eq_of_prefix {short long : List UInt8} {c d : Char} (hshort : Spells short c)
    (hlong : Spells long d) (hbegins : short <+: long) : short = long := by
  cases hshort <;> cases hlong <;> simp_all <;> omega

/-- A well-formed sequence does not begin with a later byte. -/
theorem Spells.exists_lead {bytes : List UInt8} {c : Char} (h : Spells bytes c) :
    ∃ first rest, bytes = first :: rest ∧ ¬ IsTail first := by
  unfold IsTail
  cases h <;> exact ⟨_, _, rfl, by omega⟩

/-- A well-formed sequence is an ASCII byte alone or has other bytes only, and so is its
character. -/
theorem Spells.ascii_or {bytes : List UInt8} {c : Char} (h : Spells bytes c) :
    (∃ a : UInt8, a.toNat < 0x80 ∧ bytes = [a] ∧ c = Char.ofNat a.toNat) ∨
      (∀ byte ∈ bytes, 0x80 ≤ byte.toNat) ∧ 0x80 ≤ c.toNat := by
  cases h with
  | one ha => exact Or.inl ⟨_, ha, rfl, rfl⟩
  | two ha hb =>
    right
    unfold IsTail at hb
    rw [toNat_ofNat_of_isValidChar (Or.inl (by omega))]
    simp only [List.mem_cons, List.not_mem_nil, or_false, forall_eq_or_imp, forall_eq]
    omega
  | three ha hb hc =>
    right
    rw [isSecond_iff] at hb
    unfold IsTail at hb hc
    rw [toNat_ofNat_of_isValidChar (by unfold Nat.isValidChar; omega)]
    simp only [List.mem_cons, List.not_mem_nil, or_false, forall_eq_or_imp, forall_eq]
    omega
  | four ha hb hc hd =>
    right
    rw [isSecond_iff] at hb
    unfold IsTail at hb hc hd
    rw [toNat_ofNat_of_isValidChar (by unfold Nat.isValidChar; omega)]
    simp only [List.mem_cons, List.not_mem_nil, or_false, forall_eq_or_imp, forall_eq]
    omega

/-! ## Beginnings of sequences -/

/-- A byte that the decoder takes as the next one of the sequence under way. -/
def Partial.Accepts (p : Partial) (byte : UInt8) : Prop :=
  p.low ≤ byte.toNat ∧ byte.toNat ≤ p.high

/-- The bytes read so far of a sequence under way, beside what the decoder keeps of them. -/
inductive Partial.Begun : Partial → List UInt8 → Prop where
  | two {a : UInt8} (ha : 0xC2 ≤ a.toNat ∧ a.toNat ≤ 0xDF) :
    Begun ⟨0, 0x80, 0xBF, a.toNat - 0xC0⟩ [a]
  | three {a : UInt8} (ha : 0xE0 ≤ a.toNat ∧ a.toNat ≤ 0xEF) :
    Begun ⟨1, secondLow a.toNat, secondHigh a.toNat, a.toNat - 0xE0⟩ [a]
  | threeSecond {a b : UInt8} (ha : 0xE0 ≤ a.toNat ∧ a.toNat ≤ 0xEF) (hb : IsSecond a b) :
    Begun ⟨0, 0x80, 0xBF, (a.toNat - 0xE0) * 64 + (b.toNat - 0x80)⟩ [a, b]
  | four {a : UInt8} (ha : 0xF0 ≤ a.toNat ∧ a.toNat ≤ 0xF4) :
    Begun ⟨2, secondLow a.toNat, secondHigh a.toNat, a.toNat - 0xF0⟩ [a]
  | fourSecond {a b : UInt8} (ha : 0xF0 ≤ a.toNat ∧ a.toNat ≤ 0xF4) (hb : IsSecond a b) :
    Begun ⟨1, 0x80, 0xBF, (a.toNat - 0xF0) * 64 + (b.toNat - 0x80)⟩ [a, b]
  | fourThird {a b c : UInt8} (ha : 0xF0 ≤ a.toNat ∧ a.toNat ≤ 0xF4) (hb : IsSecond a b)
      (hc : IsTail c) :
    Begun ⟨0, 0x80, 0xBF, ((a.toNat - 0xF0) * 64 + (b.toNat - 0x80)) * 64 + (c.toNat - 0x80)⟩
      [a, b, c]

namespace Partial.Begun

variable {p : Partial} {read : List UInt8}

theorem ne_nil (h : p.Begun read) : read ≠ [] := by
  cases h <;> exact List.cons_ne_nil _ _

theorem isTail_of_accepts (h : p.Begun read) {byte : UInt8} (hbyte : p.Accepts byte) :
    IsTail byte := by
  cases h with
  | two | threeSecond | fourThird | fourSecond => exact hbyte
  | three ha | four ha => exact ((isSecond_iff _ _).mp hbyte).1

/-- An accepted byte completes the sequence or leaves a longer beginning. -/
theorem advance (h : p.Begun read) {byte : UInt8} (hbyte : p.Accepts byte) (pieces : List Piece) :
    (∃ c, Spells (read ++ [byte]) c ∧
      Decoder.advance pieces (p.code * 64 + (byte.toNat - 0x80)) p.missing =
        ⟨none, .scalar c :: pieces⟩) ∨
    ∃ next : Partial, next.Begun (read ++ [byte]) ∧
      Decoder.advance pieces (p.code * 64 + (byte.toNat - 0x80)) p.missing =
        ⟨some next, pieces⟩ := by
  cases h with
  | two ha => exact Or.inl ⟨_, .two ha hbyte, rfl⟩
  | three ha => exact Or.inr ⟨_, .threeSecond ha hbyte, rfl⟩
  | threeSecond ha hb => exact Or.inl ⟨_, .three ha hb hbyte, rfl⟩
  | four ha => exact Or.inr ⟨_, .fourSecond ha hbyte, rfl⟩
  | fourSecond ha hb => exact Or.inr ⟨_, .fourThird ha hb hbyte, rfl⟩
  | fourThird ha hb hc => exact Or.inl ⟨_, .four ha hb hc hbyte, rfl⟩

/-- A beginning can be completed. -/
theorem exists_spells (h : p.Begun read) : ∃ more c, Spells (read ++ more) c := by
  have h80 : IsTail 0x80 := ⟨by decide, by decide⟩
  cases h with
  | two ha => exact ⟨[0x80], _, .two ha h80⟩
  | @three a ha =>
    rcases exists_isSecond a with ⟨b, hb⟩
    exact ⟨[b, 0x80], _, .three ha hb h80⟩
  | threeSecond ha hb => exact ⟨[0x80], _, .three ha hb h80⟩
  | @four a ha =>
    rcases exists_isSecond a with ⟨b, hb⟩
    exact ⟨[b, 0x80, 0x80], _, .four ha hb h80 h80⟩
  | fourSecond ha hb => exact ⟨[0x80, 0x80], _, .four ha hb h80 h80⟩
  | fourThird ha hb hc => exact ⟨[0x80], _, .four ha hb hc h80⟩

/-- A beginning is not a whole sequence. -/
theorem not_spells (h : p.Begun read) (c : Char) : ¬ Spells read c := by
  intro hspells
  cases h <;> cases hspells <;> omega

/-- A byte behind a beginning of a sequence is one that the decoder accepts. -/
theorem accepts_of_spells (h : p.Begun read) {byte : UInt8} {more : List UInt8} {c : Char}
    (hspells : Spells (read ++ byte :: more) c) : p.Accepts byte := by
  -- The lead byte rules out every length of the sequence but one.
  generalize hbytes : read ++ byte :: more = bytes at hspells
  cases h <;> cases hspells <;>
    simp only [List.cons_append, List.nil_append, List.cons.injEq, reduceCtorEq, and_false]
      at hbytes
  all_goals obtain ⟨rfl, hrest⟩ := hbytes
  all_goals try omega
  all_goals simp_all [Accepts, IsTail, IsSecond]

end Partial.Begun

/-! ## One byte of the decoder -/

namespace Decoder

variable (pieces : List Piece)

theorem lead_one {byte : Nat} (h : byte < 0x80) :
    lead pieces byte = ⟨none, .scalar (Char.ofNat byte) :: pieces⟩ :=
  if_pos h

theorem lead_two {byte : Nat} (h : 0xC2 ≤ byte ∧ byte ≤ 0xDF) :
    lead pieces byte = ⟨some ⟨0, 0x80, 0xBF, byte - 0xC0⟩, pieces⟩ := by
  rw [lead, if_neg (by omega), if_pos h]

theorem lead_three {byte : Nat} (h : 0xE0 ≤ byte ∧ byte ≤ 0xEF) :
    lead pieces byte = ⟨some ⟨1, secondLow byte, secondHigh byte, byte - 0xE0⟩, pieces⟩ := by
  rw [lead, if_neg (by omega), if_neg (by omega)]
  by_cases hE0 : byte = 0xE0
  · subst hE0
    rfl
  by_cases hED : byte = 0xED
  · subst hED
    rfl
  rw [if_neg hE0, if_neg hED, if_pos (by omega), secondLow, secondHigh, if_neg hE0, if_neg hED,
    if_neg (by omega), if_neg (by omega)]

theorem lead_four {byte : Nat} (h : 0xF0 ≤ byte ∧ byte ≤ 0xF4) :
    lead pieces byte = ⟨some ⟨2, secondLow byte, secondHigh byte, byte - 0xF0⟩, pieces⟩ := by
  rw [lead, if_neg (by omega), if_neg (by omega), if_neg (by omega), if_neg (by omega),
    if_neg (by omega)]
  by_cases hF0 : byte = 0xF0
  · subst hF0
    rfl
  by_cases hF4 : byte = 0xF4
  · subst hF4
    rfl
  rw [if_neg hF0, if_pos (by omega), secondLow, secondHigh, if_neg (by omega), if_neg hF0,
    if_neg (by omega), if_neg hF4]

theorem lead_invalid {byte : Nat} (h : 0x80 ≤ byte ∧ byte ≤ 0xC1 ∨ 0xF5 ≤ byte) :
    lead pieces byte = ⟨none, .illFormed :: pieces⟩ := by
  unfold lead
  repeat rw [if_neg (by omega)]

theorem feed_accepted {missing low high code : Nat} {byte : UInt8}
    (h : low ≤ byte.toNat ∧ byte.toNat ≤ high) :
    feed ⟨some ⟨missing, low, high, code⟩, pieces⟩ byte =
      advance pieces (code * 64 + (byte.toNat - 0x80)) missing :=
  if_pos h

end Decoder

/-- A well-formed sequence is read as its character. -/
theorem Spells.foldl_feed {bytes : List UInt8} {c : Char} (h : Spells bytes c)
    (pieces : List Piece) :
    bytes.foldl Decoder.feed ⟨none, pieces⟩ = ⟨none, .scalar c :: pieces⟩ := by
  have hlead (byte : UInt8) :
      Decoder.feed ⟨none, pieces⟩ byte = Decoder.lead pieces byte.toNat := rfl
  cases h with
  | one ha => exact Decoder.lead_one pieces ha
  | two ha hb =>
    simp only [List.foldl_cons, List.foldl_nil]
    rw [hlead, Decoder.lead_two pieces ha, Decoder.feed_accepted pieces hb]
    rfl
  | three ha hb hc =>
    simp only [List.foldl_cons, List.foldl_nil]
    rw [hlead, Decoder.lead_three pieces ha, Decoder.feed_accepted pieces hb, Decoder.advance,
      Decoder.feed_accepted pieces hc]
    rfl
  | four ha hb hc hd =>
    simp only [List.foldl_cons, List.foldl_nil]
    rw [hlead, Decoder.lead_four pieces ha, Decoder.feed_accepted pieces hb, Decoder.advance,
      Decoder.feed_accepted pieces hc, Decoder.advance, Decoder.feed_accepted pieces hd]
    rfl



/-- Where a sequence has to begin, a byte is a character, begins a longer sequence, or belongs
to no sequence. -/
theorem Decoder.lead_cases (pieces : List Piece) (byte : UInt8) :
    (∃ c, Spells [byte] c ∧ lead pieces byte.toNat = ⟨none, .scalar c :: pieces⟩) ∨
    (∃ p : Partial, p.Begun [byte] ∧ lead pieces byte.toNat = ⟨some p, pieces⟩) ∨
    (∀ more c, ¬ Spells (byte :: more) c) ∧
      lead pieces byte.toNat = ⟨none, .illFormed :: pieces⟩ := by
  by_cases hone : byte.toNat < 0x80
  · exact Or.inl ⟨_, .one hone, lead_one pieces hone⟩
  by_cases htwo : 0xC2 ≤ byte.toNat ∧ byte.toNat ≤ 0xDF
  · exact Or.inr (Or.inl ⟨_, .two htwo, lead_two pieces htwo⟩)
  by_cases hthree : 0xE0 ≤ byte.toNat ∧ byte.toNat ≤ 0xEF
  · exact Or.inr (Or.inl ⟨_, .three hthree, lead_three pieces hthree⟩)
  by_cases hfour : 0xF0 ≤ byte.toNat ∧ byte.toNat ≤ 0xF4
  · exact Or.inr (Or.inl ⟨_, .four hfour, lead_four pieces hfour⟩)
  refine Or.inr (Or.inr ⟨fun more c hspells => ?_, lead_invalid pieces (by omega)⟩)
  cases hspells with
  | one ha => exact hone ha
  | two ha => exact htwo ha
  | three ha => exact hthree ha
  | four ha => exact hfour ha

/-- A byte that is not accepted is read afresh. -/
theorem feed_refused (pieces : List Piece) {p : Partial} {byte : UInt8} (h : ¬ p.Accepts byte) :
    Decoder.feed ⟨some p, pieces⟩ byte = Decoder.feed ⟨none, .illFormed :: pieces⟩ byte :=
  if_neg h

/-! ## Reading starts afresh -/

/-- What is pending in a decoder was begun by some bytes. -/
def Decoder.Reached (d : Decoder) : Prop :=
  ∀ p ∈ d.pending, ∃ read, p.Begun read

theorem Decoder.Reached.lead (pieces : List Piece) (byte : UInt8) :
    (Decoder.lead pieces byte.toNat).Reached := by
  rcases Decoder.lead_cases pieces byte with ⟨c, -, hlead⟩ | ⟨p, hp, hlead⟩ | ⟨-, hlead⟩
  · simp [Reached, hlead]
  · simpa [Reached, hlead] using ⟨[byte], hp⟩
  · simp [Reached, hlead]

theorem Decoder.Reached.feed {d : Decoder} (h : d.Reached) (byte : UInt8) :
    (d.feed byte).Reached := by
  rcases d with ⟨pending, pieces⟩
  cases pending with
  | none => exact Reached.lead pieces byte
  | some p =>
    by_cases hbyte : p.Accepts byte
    · rcases h p rfl with ⟨read, hread⟩
      have hfeed : Decoder.feed ⟨some p, pieces⟩ byte =
          Decoder.advance pieces (p.code * 64 + (byte.toNat - 0x80)) p.missing :=
        Decoder.feed_accepted pieces hbyte
      rcases hread.advance hbyte pieces with ⟨c, -, hadvance⟩ | ⟨next, hnext, hadvance⟩
      · simp [Reached, hfeed, hadvance]
      · simpa [Reached, hfeed, hadvance] using ⟨_, hnext⟩
    · rw [feed_refused pieces hbyte]
      exact Reached.lead _ byte

theorem Decoder.Reached.foldl (bytes : List UInt8) {d : Decoder} (h : d.Reached) :
    (bytes.foldl Decoder.feed d).Reached := by
  induction bytes generalizing d with
  | nil => exact h
  | cons byte rest ih => exact ih (h.feed byte)

/-- The first byte of a well-formed sequence ends whatever was under way. -/
theorem Spells.foldl_feed_of_reached {bytes : List UInt8} {c : Char} (h : Spells bytes c)
    {d : Decoder} (hd : d.Reached) :
    bytes.foldl Decoder.feed d = ⟨none, .scalar c :: d.finish.reverse⟩ := by
  rcases d with ⟨pending, pieces⟩
  cases pending with
  | none => simpa [Decoder.finish] using h.foldl_feed pieces
  | some p =>
    rcases hd p rfl with ⟨read, hread⟩
    have hfresh : bytes.foldl Decoder.feed ⟨some p, pieces⟩ =
        bytes.foldl Decoder.feed ⟨none, .illFormed :: pieces⟩ := by
      rcases h.exists_lead with ⟨first, rest, rfl, hfirst⟩
      have hrefused : ¬ p.Accepts first := fun haccepts => hfirst (hread.isTail_of_accepts haccepts)
      rw [List.foldl_cons, List.foldl_cons, feed_refused pieces hrefused]
    rw [hfresh, h.foldl_feed]
    simp [Decoder.finish]

/-- A well-formed sequence is decoded as its character wherever it stands, and what stands in
front of it and behind it is decoded by itself. -/
theorem decode_append_spells {bytes : List UInt8} {c : Char} (h : Spells bytes c)
    (before behind : List UInt8) :
    decode (before ++ bytes ++ behind) = decode before ++ .scalar c :: decode behind := by
  have hreached : (before.foldl Decoder.feed Decoder.initial).Reached :=
    Decoder.Reached.foldl before (fun p hp => by cases hp)
  have hstate : (before ++ bytes).foldl Decoder.feed Decoder.initial =
      ⟨none, .scalar c :: (decode before).reverse⟩ := by
    rw [List.foldl_append, h.foldl_feed_of_reached hreached]
    rfl
  have hcomplete : ((before ++ bytes).foldl Decoder.feed Decoder.initial).pending = none := by
    rw [hstate]
  have hfront : decode (before ++ bytes) = decode before ++ [.scalar c] := by
    rw [decode, hstate]
    simp [Decoder.finish]
  rw [decode_append_of_complete hcomplete, hfront]
  simp

/-! ## Maximal subparts -/

/-- The bytes in front are what one replacement character stands for when others follow: no
sequence begins here, and they are one byte or the beginning of a sequence, which is the
longest that begins any. -/
structure IsMaximalSubpart (front behind : List UInt8) : Prop where
  no_sequence : ∀ bytes c, Spells bytes c → ¬ bytes <+: front ++ behind
  subpart : front.length = 1 ∨ front ≠ [] ∧ ∃ more c, Spells (front ++ more) c
  longest : ∀ longer, longer <+: front ++ behind → front.length < longer.length →
    ∀ more c, ¬ Spells (longer ++ more) c

/-- Bytes cut into well-formed sequences and maximal subparts, with the piece for each. -/
inductive Reads : List UInt8 → List Piece → Prop where
  | nil : Reads [] []
  | scalar {front behind : List UInt8} {c : Char} {pieces : List Piece} (hfront : Spells front c)
      (hbehind : Reads behind pieces) : Reads (front ++ behind) (.scalar c :: pieces)
  | illFormed {front behind : List UInt8} {pieces : List Piece}
      (hfront : IsMaximalSubpart front behind) (hbehind : Reads behind pieces) :
      Reads (front ++ behind) (.illFormed :: pieces)

/-- Behind a prefix of some bytes, a longer prefix goes on with the next byte. -/
theorem exists_append_cons_of_prefix {front behind longer : List UInt8}
    (hbegins : longer <+: front ++ behind) (hlength : front.length < longer.length) :
    ∃ byte more, byte ∈ behind.head? ∧ longer = front ++ byte :: more := by
  rcases List.prefix_of_prefix_length_le (List.prefix_append front behind) hbegins
    (Nat.le_of_lt hlength) with ⟨tail, rfl⟩
  rw [List.prefix_append_right_inj] at hbegins
  cases tail with
  | nil => simp at hlength
  | cons byte more =>
    rcases hbegins with ⟨rest, rfl⟩
    exact ⟨byte, more, rfl, rfl⟩

/-- A beginning that the next byte does not go on with is a maximal subpart. -/
theorem Partial.Begun.isMaximalSubpart {p : Partial} {front behind : List UInt8}
    (h : p.Begun front) (hstuck : ∀ byte ∈ behind.head?, ¬ p.Accepts byte) :
    IsMaximalSubpart front behind where
  no_sequence bytes c hbytes hbegins := by
    rcases Nat.lt_or_ge front.length bytes.length with hlt | hge
    · rcases exists_append_cons_of_prefix hbegins hlt with ⟨byte, more, hbyte, rfl⟩
      exact hstuck byte hbyte (h.accepts_of_spells hbytes)
    · rcases h.exists_spells with ⟨more, d, hmore⟩
      have hfront : bytes <+: front :=
        List.prefix_of_prefix_length_le hbegins (List.prefix_append front behind) hge
      have hwhole : bytes = front ++ more :=
        hbytes.eq_of_prefix hmore (hfront.trans (List.prefix_append front more))
      have hmore_nil : more = [] := by
        rw [hwhole, List.length_append] at hge
        exact List.eq_nil_of_length_eq_zero (by omega)
      rw [hwhole, hmore_nil, List.append_nil] at hbytes
      exact h.not_spells c hbytes
  subpart := Or.inr ⟨h.ne_nil, h.exists_spells⟩
  longest longer hbegins hlength more c hspells := by
    rcases exists_append_cons_of_prefix hbegins hlength with ⟨byte, tail, hbyte, rfl⟩
    rw [List.append_assoc] at hspells
    exact hstuck byte hbyte (h.accepts_of_spells hspells)

/-- A byte that belongs to no sequence is a maximal subpart. -/
theorem isMaximalSubpart_of_not_spells {byte : UInt8} (h : ∀ more c, ¬ Spells (byte :: more) c)
    (behind : List UInt8) : IsMaximalSubpart [byte] behind where
  no_sequence bytes c hbytes hbegins := by
    rcases hbytes.exists_lead with ⟨first, rest, rfl, -⟩
    have hfirst : first = byte := (List.cons_prefix_cons.mp hbegins).1
    exact h rest c (hfirst ▸ hbytes)
  subpart := Or.inl rfl
  longest longer hbegins hlength more c hspells := by
    rcases exists_append_cons_of_prefix hbegins hlength with ⟨next, tail, -, rfl⟩
    exact h _ c hspells

theorem IsMaximalSubpart.ne_nil {front behind : List UInt8} (h : IsMaximalSubpart front behind) :
    front ≠ [] := by
  rcases h.subpart with hone | ⟨hne, -⟩
  · exact List.ne_nil_of_length_eq_add_one hone
  · exact hne

/-- Of two maximal subparts of the same bytes neither is longer. -/
theorem IsMaximalSubpart.length_le {front behind front' behind' : List UInt8}
    (h : IsMaximalSubpart front behind) (h' : IsMaximalSubpart front' behind')
    (hbytes : front ++ behind = front' ++ behind') : front'.length ≤ front.length := by
  rcases h'.subpart with hone | ⟨-, more, c, hspells⟩
  · rw [hone]
    exact List.length_pos_iff.mpr h.ne_nil
  · refine Nat.le_of_not_lt fun hlt => ?_
    exact h.longest front' (hbytes ▸ List.prefix_append front' behind') hlt more c hspells

/-! ## What is decoded -/

theorem finish_foldl (pending : Option Partial) (piece : Piece) (bytes : List UInt8) :
    (bytes.foldl Decoder.feed ⟨pending, [piece]⟩).finish =
      piece :: (bytes.foldl Decoder.feed ⟨pending, []⟩).finish := by
  have hpieces := foldl_feed_pieces [piece] bytes ⟨pending, []⟩
  rw [List.nil_append] at hpieces
  rw [hpieces]
  cases hpending : (bytes.foldl Decoder.feed ⟨pending, []⟩).pending <;>
    simp [Decoder.finish, hpending]

/-- Decoding cuts the bytes into sequences and maximal subparts, also when a sequence is under
way; `read` are its bytes. -/
theorem reads_foldl (bytes : List UInt8) :
    Reads bytes (decode bytes) ∧
    ∀ (p : Partial) (read : List UInt8), p.Begun read →
      Reads (read ++ bytes) (bytes.foldl Decoder.feed ⟨some p, []⟩).finish := by
  induction bytes with
  | nil =>
    refine ⟨.nil, fun p read hread => ?_⟩
    exact .illFormed (hread.isMaximalSubpart (by simp)) .nil
  | cons byte rest ih =>
    have hfresh : Reads (byte :: rest) (decode (byte :: rest)) := by
      have hdecode : decode (byte :: rest) =
          (rest.foldl Decoder.feed (Decoder.lead [] byte.toNat)).finish := rfl
      rcases Decoder.lead_cases [] byte with ⟨c, hc, hlead⟩ | ⟨p, hp, hlead⟩ | ⟨hnone, hlead⟩
      · rw [hdecode, hlead, finish_foldl]
        exact .scalar hc ih.1
      · rw [hdecode, hlead]
        exact ih.2 p [byte] hp
      · rw [hdecode, hlead, finish_foldl]
        exact .illFormed (isMaximalSubpart_of_not_spells hnone rest) ih.1
    refine ⟨hfresh, fun p read hread => ?_⟩
    by_cases hbyte : p.Accepts byte
    · have hfeed : Decoder.feed ⟨some p, []⟩ byte =
          Decoder.advance [] (p.code * 64 + (byte.toNat - 0x80)) p.missing :=
        Decoder.feed_accepted [] hbyte
      rw [List.foldl_cons, hfeed, List.append_cons]
      rcases hread.advance hbyte [] with ⟨c, hc, hadvance⟩ | ⟨next, hnext, hadvance⟩
      · rw [hadvance, finish_foldl]
        exact .scalar hc ih.1
      · rw [hadvance]
        exact ih.2 next _ hnext
    · have hstuck : ∀ next ∈ (byte :: rest).head?, ¬ p.Accepts next := by
        rintro next ⟨⟩
        exact hbyte
      rw [List.foldl_cons, feed_refused [] hbyte, ← List.foldl_cons, finish_foldl]
      exact .illFormed (hread.isMaximalSubpart hstuck) hfresh

theorem Spells.unique {bytes : List UInt8} {c d : Char} (hc : Spells bytes c)
    (hd : Spells bytes d) : c = d := by
  have h := (hc.foldl_feed []).symm.trans (hd.foldl_feed [])
  simpa using h

/-- Bytes are cut in one way. -/
theorem Reads.unique {bytes : List UInt8} {first second : List Piece} (hfirst : Reads bytes first)
    (hsecond : Reads bytes second) : first = second := by
  induction hfirst generalizing second with
  | nil =>
    generalize hbytes : ([] : List UInt8) = bytes at hsecond
    cases hsecond with
    | nil => rfl
    | scalar hfront =>
      rcases hfront.exists_lead with ⟨_, _, rfl, -⟩
      cases hbytes
    | illFormed hfront => exact absurd (List.append_eq_nil_iff.mp hbytes.symm).1 hfront.ne_nil
  | @scalar front behind c pieces hfront hbehind ih =>
    generalize hbytes : front ++ behind = bytes at hsecond
    cases hsecond with
    | nil =>
      rcases hfront.exists_lead with ⟨_, _, rfl, -⟩
      cases hbytes
    | @scalar front' behind' d pieces' hfront' hbehind' =>
      have hbegins : front <+: front' ++ behind' := hbytes ▸ List.prefix_append front behind
      have heq : front = front' := by
        rcases List.prefix_or_prefix_of_prefix hbegins (List.prefix_append front' behind')
          with hshort | hlong
        · exact hfront.eq_of_prefix hfront' hshort
        · exact (hfront'.eq_of_prefix hfront hlong).symm
      subst heq
      rw [List.append_cancel_left_eq] at hbytes
      subst hbytes
      rw [hfront.unique hfront', ih hbehind']
    | illFormed hfront' =>
      exact absurd (hbytes ▸ List.prefix_append front behind) (hfront'.no_sequence front c hfront)
  | @illFormed front behind pieces hfront hbehind ih =>
    generalize hbytes : front ++ behind = bytes at hsecond
    cases hsecond with
    | nil => exact absurd (List.append_eq_nil_iff.mp hbytes).1 hfront.ne_nil
    | @scalar front' behind' d pieces' hfront' hbehind' =>
      exact absurd (hbytes ▸ List.prefix_append front' behind')
        (hfront.no_sequence front' d hfront')
    | @illFormed front' behind' pieces' hfront' hbehind' =>
      have hlength : front.length = front'.length :=
        Nat.le_antisymm (hfront'.length_le hfront hbytes.symm) (hfront.length_le hfront' hbytes)
      rcases List.append_inj hbytes hlength with ⟨rfl, rfl⟩
      rw [ih hbehind']

/-- The pieces that bytes decode to are those of the one way to cut them into well-formed
sequences and maximal subparts. -/
theorem reads_iff (bytes : List UInt8) (pieces : List Piece) :
    Reads bytes pieces ↔ pieces = decode bytes := by
  constructor
  · intro h
    exact h.unique (reads_foldl bytes).1
  · rintro rfl
    exact (reads_foldl bytes).1

/-- Bytes whose first piece is a character begin with its encoding. -/
theorem exists_of_decode_eq_scalar {bytes : List UInt8} {c : Char} {pieces : List Piece}
    (h : decode bytes = .scalar c :: pieces) :
    ∃ behind, bytes = String.utf8EncodeChar c ++ behind ∧ pieces = decode behind := by
  have hreads := (reads_foldl bytes).1
  rw [h] at hreads
  cases hreads with
  | @scalar front behind _ _ hfront hbehind =>
    exact ⟨behind, by rw [hfront.eq_utf8EncodeChar], (reads_iff behind pieces).mp hbehind⟩

namespace Recovered

theorem text_eq (bytes : List UInt8) : (ofBytes bytes).text = (decode bytes).map Piece.char :=
  rfl

theorem text_eq_nil_iff (bytes : List UInt8) : (ofBytes bytes).text = [] ↔ bytes = [] := by
  rw [text_eq, List.map_eq_nil_iff]
  constructor
  · intro h
    have hreads := (reads_foldl bytes).1
    rw [h] at hreads
    cases hreads
    rfl
  · rintro rfl
    rfl

end Recovered

end SheetLint.Utf8
