import PageScript.Text.Utf8

/-! Bytes of texts. Each character is read back from its own bytes whatever
follows them, so a text shows as itself. -/
namespace PageScript.Utf8

/-- The bytes of two texts joined are the bytes of both, one after the
other. -/
theorem encode_append (s t : String) : encode (s ++ t) = encode s ++ encode t := by
  simp [encode]

theorem encode_ofList (cs : List Char) :
    encode (String.ofList cs) = cs.flatMap String.utf8EncodeChar := by
  simp [encode]

/-- The bytes of texts joined are the bytes of each, one after the other. -/
theorem encode_join (texts : List String) :
    encode (String.join texts) = (texts.map encode).flatten := by
  induction texts with
  | nil => rfl
  | cons text rest ih => simp [encode_append, ih]

theorem toNat_ofNat_of_lt {n : Nat} (h : n < 256) : (UInt8.ofNat n).toNat = n := by
  rw [UInt8.toNat_ofNat']
  exact Nat.mod_eq_of_lt h

/-- Six bits with the mark of a continuation are one. -/
theorem isContinuation_ofNat {n : Nat} (h : n < 64) :
    isContinuation (UInt8.ofNat (n + 128)) = true := by
  rw [isContinuation, toNat_ofNat_of_lt (by omega)]
  simp only [Bool.and_eq_true, decide_eq_true_eq]
  omega

theorem low_ofNat {n : Nat} (h : n < 64) : low (UInt8.ofNat (n + 128)) = n := by
  rw [low, toNat_ofNat_of_lt (by omega)]
  omega

/-- A continuation can follow a first byte, if it makes neither an overlong
form nor a surrogate nor a number out of range. -/
theorem canFollow_ofNat {lead : UInt8} {n : Nat} (h : n < 64)
    (hE0 : lead.toNat = 0xe0 → 0x20 ≤ n) (hEd : lead.toNat = 0xed → n < 0x20)
    (hF0 : lead.toNat = 0xf0 → 0x10 ≤ n) (hF4 : lead.toNat = 0xf4 → n < 0x10) :
    canFollow lead (UInt8.ofNat (n + 128)) = true := by
  rw [canFollow, isContinuation_ofNat h, toNat_ofNat_of_lt (by omega), Bool.true_and]
  split
  · rename_i hLead
    have := hE0 (by rw [hLead]; rfl)
    simp only [decide_eq_true_eq]
    omega
  split
  · rename_i hLead
    have := hEd (by rw [hLead]; rfl)
    simp only [decide_eq_true_eq]
    omega
  split
  · rename_i hLead
    have := hF0 (by rw [hLead]; rfl)
    simp only [decide_eq_true_eq]
    omega
  split
  · rename_i hLead
    have := hF4 (by rw [hLead]; rfl)
    simp only [decide_eq_true_eq]
    omega
  · rfl

/-! ### Reading characters of each width -/

variable {lead b c d : UInt8}

theorem read_one (h : lead.toNat < 0x80) (rest : Bytes) :
    read lead rest = .char (Char.ofNat lead.toNat) 1 := by
  unfold read
  dsimp only
  rw [if_pos h]

/-- Two bytes are read as the character that their bits make. -/
theorem read_two (h : 0xc2 ≤ lead.toNat) (hLead : lead.toNat < 0xe0)
    (hb : isContinuation b = true) (rest : Bytes) :
    read lead (b :: rest) = .char (Char.ofNat (lead.toNat % 32 * 64 + low b)) 2 := by
  unfold read
  dsimp only
  rw [if_neg (by omega), if_neg (by omega), if_pos hLead, if_pos hb]

/-- Three bytes are read as the character that their bits make. -/
theorem read_three (h : 0xe0 ≤ lead.toNat) (hLead : lead.toNat < 0xf0)
    (hb : canFollow lead b = true) (hc : isContinuation c = true) (rest : Bytes) :
    read lead (b :: c :: rest) = .char (Char.ofNat ((lead.toNat % 16 * 64 + low b) * 64 + low c))
      3 := by
  unfold read
  dsimp only
  rw [if_neg (by omega), if_neg (by omega), if_neg (by omega), if_pos hLead,
    if_neg (by simp [hb]), if_pos hc]

/-- Four bytes are read as the character that their bits make. -/
theorem read_four (h : 0xf0 ≤ lead.toNat) (hLead : lead.toNat < 0xf5)
    (hb : canFollow lead b = true) (hc : isContinuation c = true) (hd : isContinuation d = true)
    (rest : Bytes) :
    read lead (b :: c :: d :: rest) =
      .char (Char.ofNat (((lead.toNat % 8 * 64 + low b) * 64 + low c) * 64 + low d)) 4 := by
  unfold read
  dsimp only
  rw [if_neg (by omega), if_neg (by omega), if_neg (by omega), if_neg (by omega), if_pos hLead,
    if_neg (by simp [hb]), if_neg (by simp [hc]), if_pos hd]

/-- A character is read from its bytes, and no more bytes than these are taken.
The cases are the four widths. -/
theorem read_utf8EncodeChar (c : Char) (rest : Bytes) :
    ∃ lead more, String.utf8EncodeChar c = lead :: more ∧
      read lead (more ++ rest) = .char c (more.length + 1) := by
  have hValid : c.val.toNat < 0xd800 ∨ 0xdfff < c.val.toNat ∧ c.val.toNat < 0x110000 := c.valid
  have hChar : Char.ofNat c.val.toNat = c := Char.ofNat_toNat c
  have hMod : ∀ n : Nat, n % 64 < 64 := fun n => Nat.mod_lt n (by decide)
  unfold String.utf8EncodeChar
  generalize c.val.toNat = v at hValid hChar
  dsimp only
  split
  · have hLead := toNat_ofNat_of_lt (show v < 256 by omega)
    refine ⟨_, _, rfl, ?_⟩
    rw [read_one (by omega), hLead, hChar]
    rfl
  split
  · have hLead := toNat_ofNat_of_lt (show v / 64 % 32 + 192 < 256 by omega)
    have hSum : (v / 64 % 32 + 192) % 32 * 64 + v % 64 = v := by omega
    refine ⟨_, _, rfl, ?_⟩
    rw [List.cons_append, read_two (by omega) (by omega) (isContinuation_ofNat (hMod v)), hLead,
      low_ofNat (hMod v), hSum, hChar]
    rfl
  split
  · have hLead := toNat_ofNat_of_lt (show v / 4096 % 16 + 224 < 256 by omega)
    have hSum : ((v / 4096 % 16 + 224) % 16 * 64 + v / 64 % 64) * 64 + v % 64 = v := by omega
    have hSecond : canFollow (UInt8.ofNat (v / 4096 % 16 + 224)) (UInt8.ofNat (v / 64 % 64 + 128)) =
        true :=
      canFollow_ofNat (hMod _) (by omega) (by omega) (by omega) (by omega)
    refine ⟨_, _, rfl, ?_⟩
    rw [List.cons_append, List.cons_append,
      read_three (by omega) (by omega) hSecond (isContinuation_ofNat (hMod v)), hLead,
      low_ofNat (hMod _), low_ofNat (hMod v), hSum, hChar]
    rfl
  · have hLead := toNat_ofNat_of_lt (show v / 262144 % 8 + 240 < 256 by omega)
    have hSum : (((v / 262144 % 8 + 240) % 8 * 64 + v / 4096 % 64) * 64 + v / 64 % 64) * 64 + v %
        64 = v := by omega
    have hSecond : canFollow (UInt8.ofNat (v / 262144 % 8 + 240))
        (UInt8.ofNat (v / 4096 % 64 + 128)) = true :=
      canFollow_ofNat (hMod _) (by omega) (by omega) (by omega) (by omega)
    refine ⟨_, _, rfl, ?_⟩
    rw [List.cons_append, List.cons_append, List.cons_append,
      read_four (by omega) (by omega) hSecond
      (isContinuation_ofNat (hMod _)) (isContinuation_ofNat (hMod v)), hLead, low_ofNat (hMod _),
      low_ofNat (hMod _), low_ofNat (hMod v), hSum, hChar]
    rfl

/-- The bytes of characters are shown as these characters. The induction is on
the characters, each of which is read from its own bytes. -/
theorem displayChars_flatMap (cs : List Char) :
    displayChars (cs.flatMap String.utf8EncodeChar) = cs := by
  induction cs with
  | nil => rw [List.flatMap_nil, displayChars]
  | cons c rest ih =>
      obtain ⟨lead, more, hBytes, hRead⟩ :=
        read_utf8EncodeChar c (rest.flatMap String.utf8EncodeChar)
      rw [List.flatMap_cons, hBytes, List.cons_append, displayChars, hRead]
      simp [ih]

/-- A text is shown as itself. -/
theorem display_encode (s : String) : display (encode s) = s := by
  rw [display, encode, displayChars_flatMap, String.ofList_toList]

theorem encode_injective {s t : String} (h : encode s = encode t) : s = t := by
  rw [← display_encode s, h, display_encode]

/-! ### Single bytes -/

/-- A character of a single byte. -/
theorem utf8EncodeChar_of_lt {c : Char} (h : c.toNat < 0x80) :
    String.utf8EncodeChar c = [UInt8.ofNat c.toNat] := by
  rw [String.utf8EncodeChar, if_pos (show c.val.toNat ≤ 127 from Nat.le_of_lt_succ h)]
  rfl

/-- Only the first byte of a character can be one that stands for itself, and
then it is the character. With more than one byte, the first one is not below
the continuation bytes. -/
theorem utf8EncodeChar_cases (c : Char) : ∃ lead more, String.utf8EncodeChar c = lead :: more ∧
    (lead.toNat < 0x80 → lead.toNat = c.toNat) ∧ ∀ b ∈ more, 0x80 ≤ b.toNat := by
  have hLater : ∀ n, 0x80 ≤ (UInt8.ofNat (n % 64 + 128)).toNat := by
    intro n
    rw [toNat_ofNat_of_lt (by omega)]
    omega
  unfold String.utf8EncodeChar Char.toNat
  generalize c.val.toNat = v
  dsimp only
  split
  · exact ⟨_, _, rfl, fun _ => toNat_ofNat_of_lt (by omega), by simp⟩
  split
  · refine ⟨_, _, rfl, fun h => ?_, by simpa only [List.forall_mem_singleton] using hLater v⟩
    rw [toNat_ofNat_of_lt (by omega)] at h
    omega
  split
  · refine ⟨_, _, rfl, fun h => ?_,
      List.forall_mem_cons.mpr ⟨hLater _,
        by simpa only [List.forall_mem_singleton] using hLater v⟩⟩
    rw [toNat_ofNat_of_lt (by omega)] at h
    omega
  · refine ⟨_, _, rfl, fun h => ?_,
      List.forall_mem_cons.mpr ⟨hLater _, List.forall_mem_cons.mpr ⟨hLater _,
        by simpa only [List.forall_mem_singleton] using hLater v⟩⟩⟩
    rw [toNat_ofNat_of_lt (by omega)] at h
    omega

end PageScript.Utf8
