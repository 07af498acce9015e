import Impersonation.Bytes

namespace Impersonation.Bytes

theorem ofString_eq (s : String) : ofString s = s.toList.flatMap String.utf8EncodeChar := by
  have bytes : s.toList.utf8Encode = s.toByteArray := String.utf8Encode_toList
  rw [ofString, String.toUTF8, ← bytes, List.utf8Encode, List.toList_data_toByteArray]

variable {lead a b d : UInt8} {ranges : List (UInt8 × UInt8)} {tail : Bytes}

theorem chars_cons (follow : following lead = some ranges)
    (fits : ∀ rest, fitting ranges (tail ++ rest) = ranges.length)
    (length : tail.length = ranges.length) (rest : Bytes) :
    chars (lead :: tail ++ rest) = some (char lead tail) :: chars rest := by
  rw [List.cons_append, chars, follow]
  simp only [fits, if_true, ← length, List.take_left, List.drop_left]

theorem following_one (h : lead.toNat < 0x80) : following lead = some [] := by
  have low : lead < 0x80 := UInt8.lt_iff_toNat_lt.mpr h
  rw [following, if_pos low]

theorem following_two (low : 0xC2 ≤ lead.toNat) (high : lead.toNat < 0xE0) :
    following lead = some [(0x80, 0xBF)] := by
  simp only [following, UInt8.lt_iff_toNat_lt, UInt8.reduceToNat]
  rw [if_neg (by omega), if_neg (by omega), if_pos high]

theorem following_three (low : 0xE0 ≤ lead.toNat) (high : lead.toNat < 0xF0) :
    ∃ lo hi, following lead = some [(lo, hi), (0x80, 0xBF)] ∧
      lo.toNat = (if lead.toNat = 0xE0 then 0xA0 else 0x80) ∧
      hi.toNat = if lead.toNat = 0xED then 0x9F else 0xBF := by
  simp only [following, UInt8.lt_iff_toNat_lt, ← UInt8.toNat_inj, UInt8.reduceToNat]
  rw [if_neg (by omega), if_neg (by omega), if_neg (by omega)]
  split
  next first =>
    rw [if_neg (by omega)]
    exact ⟨_, _, rfl, rfl, rfl⟩
  next =>
    split <;> exact ⟨_, _, rfl, rfl, rfl⟩

theorem following_four (low : 0xF0 ≤ lead.toNat) (high : lead.toNat ≤ 0xF4) :
    ∃ lo hi, following lead = some [(lo, hi), (0x80, 0xBF), (0x80, 0xBF)] ∧
      lo.toNat = (if lead.toNat = 0xF0 then 0x90 else 0x80) ∧
      hi.toNat = if lead.toNat = 0xF4 then 0x8F else 0xBF := by
  simp only [following, UInt8.lt_iff_toNat_lt, ← UInt8.toNat_inj, UInt8.reduceToNat]
  rw [if_neg (by omega), if_neg (by omega), if_neg (by omega), if_neg (by omega),
    if_neg (by omega), if_neg (by omega)]
  split
  next first =>
    rw [if_neg (by omega)]
    exact ⟨_, _, rfl, rfl, rfl⟩
  next =>
    split
    next middle =>
      rw [if_neg (by omega)]
      exact ⟨_, _, rfl, rfl, rfl⟩
    next top =>
      have last : lead.toNat = 0xF4 := by omega
      rw [if_pos last, if_pos last]
      exact ⟨_, _, rfl, rfl, rfl⟩

theorem fitting_cons {lo hi : UInt8} (low : lo.toNat ≤ a.toNat) (high : a.toNat ≤ hi.toNat)
    (rest : Bytes) : fitting ((lo, hi) :: ranges) (a :: rest) = fitting ranges rest + 1 := by
  rw [fitting, if_pos ⟨UInt8.le_iff_toNat_le.mpr low, UInt8.le_iff_toNat_le.mpr high⟩]

theorem fitting_tail (low : 0x80 ≤ a.toNat) (high : a.toNat ≤ 0xBF) (rest : Bytes) :
    fitting ((0x80, 0xBF) :: ranges) (a :: rest) = fitting ranges rest + 1 :=
  @fitting_cons a ranges 0x80 0xBF low high rest

theorem chars_one (h : lead.toNat < 0x80) (rest : Bytes) :
    chars (lead :: rest) = some (Char.ofNat lead.toNat) :: chars rest :=
  @chars_cons _ _ [] (following_one h) (fun _ => rfl) rfl rest

theorem chars_two (low : 0xC2 ≤ lead.toNat) (high : lead.toNat < 0xE0) (ha : 0x80 ≤ a.toNat)
    (ha' : a.toNat ≤ 0xBF) (rest : Bytes) :
    chars (lead :: a :: rest) =
      some (Char.ofNat (lead.toNat % 32 * 64 + a.toNat % 64)) :: chars rest :=
  @chars_cons _ _ [a] (following_two low high)
    (fun _ => by rw [List.singleton_append, fitting_tail ha ha']; rfl) rfl rest

theorem chars_three (low : 0xE0 ≤ lead.toNat) (high : lead.toNat < 0xF0)
    (ha : (if lead.toNat = 0xE0 then 0xA0 else 0x80) ≤ a.toNat)
    (ha' : a.toNat ≤ if lead.toNat = 0xED then 0x9F else 0xBF)
    (hb : 0x80 ≤ b.toNat) (hb' : b.toNat ≤ 0xBF) (rest : Bytes) :
    chars (lead :: a :: b :: rest) =
      some (Char.ofNat ((lead.toNat % 16 * 64 + a.toNat % 64) * 64 + b.toNat % 64)) ::
        chars rest := by
  obtain ⟨lo, hi, follow, least, most⟩ := following_three low high
  rw [← least] at ha
  rw [← most] at ha'
  refine @chars_cons _ _ [a, b] follow (fun rest => ?_) rfl rest
  rw [List.cons_append, fitting_cons ha ha', List.singleton_append, fitting_tail hb hb']
  rfl

theorem chars_four (low : 0xF0 ≤ lead.toNat) (high : lead.toNat ≤ 0xF4)
    (ha : (if lead.toNat = 0xF0 then 0x90 else 0x80) ≤ a.toNat)
    (ha' : a.toNat ≤ if lead.toNat = 0xF4 then 0x8F else 0xBF)
    (hb : 0x80 ≤ b.toNat) (hb' : b.toNat ≤ 0xBF) (hd : 0x80 ≤ d.toNat)
    (hd' : d.toNat ≤ 0xBF) (rest : Bytes) :
    chars (lead :: a :: b :: d :: rest) =
      some (Char.ofNat (((lead.toNat % 8 * 64 + a.toNat % 64) * 64 + b.toNat % 64) * 64 +
        d.toNat % 64)) :: chars rest := by
  obtain ⟨lo, hi, follow, least, most⟩ := following_four low high
  rw [← least] at ha
  rw [← most] at ha'
  refine @chars_cons _ _ [a, b, d] follow (fun rest => ?_) rfl rest
  rw [List.cons_append, fitting_cons ha ha', List.cons_append, fitting_tail hb hb',
    List.singleton_append, fitting_tail hd hd']
  rfl

theorem toNat_ofNat {n : Nat} (h : n < 256) : (UInt8.ofNat n).toNat = n := by
  rw [UInt8.toNat_ofNat']
  omega

theorem chars_utf8EncodeChar (c : Char) (rest : Bytes) :
    chars (String.utf8EncodeChar c ++ rest) = some c :: chars rest := by
  have valid : c.val.toNat < 0xD800 ∨ 0xDFFF < c.val.toNat ∧ c.val.toNat < 0x110000 := c.valid
  have back : Char.ofNat c.val.toNat = c := Char.ofNat_toNat c
  unfold String.utf8EncodeChar
  generalize c.val.toNat = v at valid back
  dsimp only
  split
  next one =>
    have lead := toNat_ofNat (n := v) (by omega)
    rw [List.singleton_append, chars_one (by omega), lead, back]
  next =>
  have last := toNat_ofNat (n := v % 64 + 128) (by omega)
  split
  next two =>
    have lead := toNat_ofNat (n := v / 64 % 32 + 192) (by omega)
    have code : (v / 64 % 32 + 192) % 32 * 64 + (v % 64 + 128) % 64 = v := by omega
    rw [List.cons_append, List.singleton_append, chars_two (by omega) (by omega) (by omega)
      (by omega), lead, last, code, back]
  next =>
  have middle := toNat_ofNat (n := v / 64 % 64 + 128) (by omega)
  split
  next three =>
    have lead := toNat_ofNat (n := v / 4096 % 16 + 224) (by omega)
    have code : ((v / 4096 % 16 + 224) % 16 * 64 + (v / 64 % 64 + 128) % 64) * 64 +
        (v % 64 + 128) % 64 = v := by omega
    rw [List.cons_append, List.cons_append, List.singleton_append,
      chars_three (by omega) (by omega) (by rw [lead, middle]; split <;> omega)
        (by rw [lead, middle]; split <;> omega) (by omega) (by omega), lead, middle, last, code,
      back]
  next four =>
    have lead := toNat_ofNat (n := v / 262144 % 8 + 240) (by omega)
    have second := toNat_ofNat (n := v / 4096 % 64 + 128) (by omega)
    have code : (((v / 262144 % 8 + 240) % 8 * 64 + (v / 4096 % 64 + 128) % 64) * 64 +
        (v / 64 % 64 + 128) % 64) * 64 + (v % 64 + 128) % 64 = v := by omega
    rw [List.cons_append, List.cons_append, List.cons_append, List.singleton_append,
      chars_four (by omega) (by omega) (by rw [lead, second]; split <;> omega)
        (by rw [lead, second]; split <;> omega) (by omega) (by omega) (by omega) (by omega), lead,
      second, middle, last, code, back]

theorem chars_ofString (s : String) : (ofString s).chars = s.toList.map some := by
  rw [ofString_eq]
  induction s.toList with
  | nil => rw [List.flatMap_nil, chars, List.map_nil]
  | cons c cs ih => rw [List.flatMap_cons, chars_utf8EncodeChar, ih, List.map_cons]

theorem mapM_id_eq_some {l : List (Option Char)} {cs : List Char} :
    l.mapM id = some cs ↔ l = cs.map some := by
  induction l generalizing cs with
  | nil =>
    constructor
    · rintro ⟨⟩
      rfl
    · intro h
      rw [List.map_eq_nil_iff.mp h.symm]
      rfl
  | cons o l ih =>
    rw [List.mapM_cons, id, Option.bind_eq_bind, Option.bind_eq_some_iff]
    constructor
    · rintro ⟨c, rfl, h⟩
      obtain ⟨cs, more, rest⟩ := Option.bind_eq_some_iff.mp h
      cases rest
      rw [ih.mp more, List.map_cons]
    · intro h
      obtain ⟨c, cs, rfl, rfl, more⟩ := List.map_eq_cons_iff.mp h.symm
      exact ⟨c, rfl, Option.bind_eq_some_iff.mpr ⟨cs, ih.mpr more.symm, rfl⟩⟩

theorem text?_ofString (s : String) : (ofString s).text? = some s := by
  have texts := mapM_id_eq_some.mpr (chars_ofString s)
  rw [text?, texts, Option.map_some, String.ofList_toList]

theorem ofString_injective : Function.Injective ofString := by
  intro s t h
  have same : (ofString s).text? = (ofString t).text? := congrArg text? h
  rw [text?_ofString, text?_ofString] at same
  exact Option.some.inj same

/-- How many bytes lead to a character, by what may follow the first of them. -/
theorem following_cases (h : following lead = some ranges) :
    (lead.toNat < 0x80 ∧ ranges = []) ∨
    (0xC2 ≤ lead.toNat ∧ lead.toNat < 0xE0 ∧ ranges = [(0x80, 0xBF)]) ∨
    (0xE0 ≤ lead.toNat ∧ lead.toNat < 0xF0 ∧ ∃ lo hi, ranges = [(lo, hi), (0x80, 0xBF)] ∧
      lo.toNat = (if lead.toNat = 0xE0 then 0xA0 else 0x80) ∧
      hi.toNat = if lead.toNat = 0xED then 0x9F else 0xBF) ∨
    (0xF0 ≤ lead.toNat ∧ lead.toNat ≤ 0xF4 ∧ ∃ lo hi,
      ranges = [(lo, hi), (0x80, 0xBF), (0x80, 0xBF)] ∧
      lo.toNat = (if lead.toNat = 0xF0 then 0x90 else 0x80) ∧
      hi.toNat = if lead.toNat = 0xF4 then 0x8F else 0xBF) := by
  rcases Nat.lt_or_ge lead.toNat 0x80 with one | more
  · rw [following_one one] at h
    exact .inl ⟨one, (Option.some.inj h).symm⟩
  rcases Nat.lt_or_ge lead.toNat 0xC2 with none | more
  · simp only [following, UInt8.lt_iff_toNat_lt, UInt8.reduceToNat] at h
    rw [if_neg (by omega), if_pos none] at h
    cases h
  rcases Nat.lt_or_ge lead.toNat 0xE0 with two | more'
  · rw [following_two more two] at h
    exact .inr (.inl ⟨more, two, (Option.some.inj h).symm⟩)
  rcases Nat.lt_or_ge lead.toNat 0xF0 with three | more
  · obtain ⟨lo, hi, known, bounds⟩ := following_three more' three
    rw [known] at h
    exact .inr (.inr (.inl ⟨more', three, lo, hi, (Option.some.inj h).symm, bounds⟩))
  rcases Nat.lt_or_ge 0xF4 lead.toNat with none | four
  · simp only [following, UInt8.lt_iff_toNat_lt, ← UInt8.toNat_inj, UInt8.reduceToNat] at h
    repeat rw [if_neg (by omega)] at h
    cases h
  · obtain ⟨lo, hi, known, bounds⟩ := following_four more four
    rw [known] at h
    exact .inr (.inr (.inr ⟨more, four, lo, hi, (Option.some.inj h).symm, bounds⟩))

theorem fitting_full {lo hi : UInt8} {bs : Bytes}
    (h : fitting ((lo, hi) :: ranges) bs = ranges.length + 1) :
    ∃ a rest, bs = a :: rest ∧ (lo.toNat ≤ a.toNat ∧ a.toNat ≤ hi.toNat) ∧
      fitting ranges rest = ranges.length := by
  cases bs with
  | nil => simp [fitting] at h
  | cons a rest =>
    rw [fitting] at h
    split at h
    next within =>
      rw [UInt8.le_iff_toNat_le, UInt8.le_iff_toNat_le] at within
      exact ⟨a, rest, rfl, within, Nat.succ.inj h⟩
    next => cases h

theorem val_ofNat {v : Nat} (valid : v.isValidChar) : (Char.ofNat v).val.toNat = v := by
  rw [Char.ofNat, dif_pos valid]
  rfl

theorem ofNat_eq {n : Nat} (byte : UInt8) (h : n = byte.toNat) : UInt8.ofNat n = byte := by
  rw [h, UInt8.ofNat_toNat]

theorem utf8EncodeChar_char {rest : Bytes} (follow : following lead = some ranges)
    (fits : fitting ranges rest = ranges.length) :
    String.utf8EncodeChar (char lead (rest.take ranges.length)) =
      lead :: rest.take ranges.length := by
  rcases following_cases follow with ⟨one, rfl⟩ | ⟨low, high, rfl⟩ |
    ⟨low, high, lo, hi, rfl, least, most⟩ | ⟨low, high, lo, hi, rfl, least, most⟩
  · have code : char lead [] = Char.ofNat lead.toNat := rfl
    have value := val_ofNat (v := lead.toNat) (.inl (by omega))
    rw [List.length_nil, List.take_zero, code, String.utf8EncodeChar, value, if_pos (by omega),
      ofNat_eq lead rfl]
  · obtain ⟨a, rest, rfl, bounds, -⟩ := fitting_full fits
    simp only [UInt8.reduceToNat] at bounds
    have code : char lead [a] = Char.ofNat (lead.toNat % 32 * 64 + a.toNat % 64) := rfl
    have value := val_ofNat (v := lead.toNat % 32 * 64 + a.toNat % 64) (.inl (by omega))
    change String.utf8EncodeChar (char lead [a]) = [lead, a]
    rw [code, String.utf8EncodeChar, value, if_neg (by omega), if_pos (by omega),
      ofNat_eq lead (by omega), ofNat_eq a (by omega)]
  · obtain ⟨a, rest, rfl, bounds, fits⟩ := fitting_full fits
    obtain ⟨b, rest, rfl, bounds', -⟩ := fitting_full fits
    simp only [least, most, UInt8.reduceToNat] at bounds bounds'
    have above : 0x80 ≤ a.toNat ∧ (lead.toNat = 0xE0 → 0xA0 ≤ a.toNat) := by
      have lower := bounds.1
      split at lower <;> omega
    have below : a.toNat ≤ 0xBF ∧ (lead.toNat = 0xED → a.toNat ≤ 0x9F) := by
      have upper := bounds.2
      split at upper <;> omega
    have code : char lead [a, b] =
        Char.ofNat ((lead.toNat % 16 * 64 + a.toNat % 64) * 64 + b.toNat % 64) := rfl
    have value := val_ofNat
      (v := (lead.toNat % 16 * 64 + a.toNat % 64) * 64 + b.toNat % 64) (by omega)
    change String.utf8EncodeChar (char lead [a, b]) = [lead, a, b]
    rw [code, String.utf8EncodeChar, value, if_neg (by omega), if_neg (by omega),
      if_pos (by omega), ofNat_eq lead (by omega), ofNat_eq a (by omega), ofNat_eq b (by omega)]
  · obtain ⟨a, rest, rfl, bounds, fits⟩ := fitting_full fits
    obtain ⟨b, rest, rfl, bounds', fits⟩ := fitting_full fits
    obtain ⟨d, rest, rfl, bounds'', -⟩ := fitting_full fits
    simp only [least, most, UInt8.reduceToNat] at bounds bounds' bounds''
    have above : 0x80 ≤ a.toNat ∧ (lead.toNat = 0xF0 → 0x90 ≤ a.toNat) := by
      have lower := bounds.1
      split at lower <;> omega
    have below : a.toNat ≤ 0xBF ∧ (lead.toNat = 0xF4 → a.toNat ≤ 0x8F) := by
      have upper := bounds.2
      split at upper <;> omega
    have code : char lead [a, b, d] = Char.ofNat
        (((lead.toNat % 8 * 64 + a.toNat % 64) * 64 + b.toNat % 64) * 64 + d.toNat % 64) := rfl
    have value := val_ofNat
      (v := ((lead.toNat % 8 * 64 + a.toNat % 64) * 64 + b.toNat % 64) * 64 + d.toNat % 64)
      (by omega)
    change String.utf8EncodeChar (char lead [a, b, d]) = [lead, a, b, d]
    rw [code, String.utf8EncodeChar, value, if_neg (by omega), if_neg (by omega),
      if_neg (by omega), ofNat_eq lead (by omega), ofNat_eq a (by omega), ofNat_eq b (by omega),
      ofNat_eq d (by omega)]

theorem eq_of_chars {bs : Bytes} {cs : List Char} (h : bs.chars = cs.map some) :
    bs = cs.flatMap String.utf8EncodeChar := by
  induction bs using chars.induct generalizing cs with
  | case1 =>
    rw [chars] at h
    rw [List.map_eq_nil_iff.mp h.symm, List.flatMap_nil]
  | case2 lead rest stray ih =>
    rw [chars, stray] at h
    obtain ⟨c, cs, rfl, bad, -⟩ := List.map_eq_cons_iff.mp h.symm
    cases bad
  | @case3 lead rest ranges follow n ih =>
    rw [chars, follow] at h
    obtain ⟨c, cs, rfl, first, more⟩ := List.map_eq_cons_iff.mp h.symm
    split at first
    next fits =>
      have encoded := utf8EncodeChar_char follow fits
      rw [← fits, ← Option.some.inj first] at encoded
      rw [List.flatMap_cons, encoded, ← ih more.symm, List.cons_append, List.take_append_drop]
    next => cases first

/-- Bytes are a text exactly when they are what the text is written as. -/
theorem text?_eq_some_iff {bs : Bytes} {s : String} : bs.text? = some s ↔ bs = ofString s := by
  constructor
  · intro h
    obtain ⟨cs, read, rfl⟩ := Option.map_eq_some_iff.mp h
    rw [ofString_eq, String.toList_ofList]
    exact eq_of_chars (mapM_id_eq_some.mp read)
  · rintro rfl
    exact text?_ofString s

end Impersonation.Bytes
