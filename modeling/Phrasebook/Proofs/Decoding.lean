import Phrasebook.Text.Utf8
/-!
# Octets that are a text

Reading octets as a text is strict: what is read as a text are the octets of that text and nothing
else, no overlong form for example. So octets are those of at most one text, and a text that is read
and written again leaves the octets as they were.

## Main results

* `Utf8.decode?_eq_some_iff`: octets are read as a text exactly if they are its octets.
* `Utf8.decode?_eq_none_iff`: octets are refused exactly if they are those of no text.
-/

namespace Phrasebook

namespace Utf8

private theorem width_eq (a : UInt8) :
    width a =
      if a.toNat < 0x80 then 1 else if a.toNat < 0xC2 then 0 else if a.toNat < 0xE0 then 2
      else if a.toNat < 0xF0 then 3 else if a.toNat < 0xF5 then 4 else 0 := by
  simp [width, UInt8.lt_iff_toNat_lt]

private theorem toNat_of_isContinuation {b : UInt8} (h : isContinuation b = true) :
    0x80 ≤ b.toNat ∧ b.toNat < 0xC0 := by
  simpa [isContinuation, UInt8.le_iff_toNat_le, UInt8.lt_iff_toNat_lt] using h

/-- What may follow the first octet of a form. -/
private theorem toNat_of_admits {a b : UInt8} (h : admits a b = true) :
    (0x80 ≤ b.toNat ∧ b.toNat < 0xC0) ∧ (a.toNat = 0xE0 → 0xA0 ≤ b.toNat) ∧
      (a.toNat = 0xED → b.toNat < 0xA0) ∧ (a.toNat = 0xF0 → 0x90 ≤ b.toNat) ∧
        (a.toNat = 0xF4 → b.toNat < 0x90) := by
  rw [admits, Bool.and_eq_true] at h
  obtain ⟨hcontinuation, hspecial⟩ := h
  simp only [← UInt8.toNat_inj, UInt8.le_iff_toNat_le, UInt8.lt_iff_toNat_lt,
    UInt8.toNat_ofNat] at hspecial
  refine ⟨toNat_of_isContinuation hcontinuation, ?_, ?_, ?_, ?_⟩ <;> intro ha <;>
    simpa [ha] using hspecial

/-- The octets of the character with a given number. -/
private theorem utf8EncodeChar_ofNat {v : Nat} (h : v.isValidChar) :
    String.utf8EncodeChar (Char.ofNat v) =
      if v ≤ 0x7F then [UInt8.ofNat v]
      else if v ≤ 0x7FF then [UInt8.ofNat (v / 64 % 32 + 192), UInt8.ofNat (v % 64 + 128)]
      else if v ≤ 0xFFFF then
        [UInt8.ofNat (v / 4096 % 16 + 224), UInt8.ofNat (v / 64 % 64 + 128),
          UInt8.ofNat (v % 64 + 128)]
      else
        [UInt8.ofNat (v / 262144 % 8 + 240), UInt8.ofNat (v / 4096 % 64 + 128),
          UInt8.ofNat (v / 64 % 64 + 128), UInt8.ofNat (v % 64 + 128)] := by
  have hv : (Char.ofNat v).val.toNat = v := by
    rw [Char.ofNat, dif_pos h]
    rfl
  simp only [String.utf8EncodeChar, hv]

private theorem ofNat_eq {n : Nat} {a : UInt8} (h : n = a.toNat) : UInt8.ofNat n = a := by
  rw [h, UInt8.ofNat_toNat]

theorem utf8EncodeChar_of_width_one {a : UInt8} (hw : width a = 1) :
    String.utf8EncodeChar (Char.ofNat a.toNat) = [a] := by
  rw [width_eq] at hw
  have ha : a.toNat < 0x80 := by grind
  rw [utf8EncodeChar_ofNat (.inl (by omega)), if_pos (by omega), ofNat_eq rfl]

theorem utf8EncodeChar_of_width_two {a b : UInt8} (hw : width a = 2) (hb : admits a b = true) :
    String.utf8EncodeChar (Char.ofNat (extend (a.toNat % 32) b)) = [a, b] := by
  rw [width_eq] at hw
  have ha : 0xC2 ≤ a.toNat ∧ a.toNat < 0xE0 := by grind
  have hb := (toNat_of_admits hb).1
  rw [extend]
  rw [utf8EncodeChar_ofNat (.inl (by omega)), if_neg (by omega), if_pos (by omega),
    ofNat_eq (show _ = a.toNat by omega), ofNat_eq (show _ = b.toNat by omega)]

theorem utf8EncodeChar_of_width_three {a b c : UInt8} (hw : width a = 3)
    (hb : admits a b = true) (hc : isContinuation c = true) :
    String.utf8EncodeChar (Char.ofNat (extend (extend (a.toNat % 16) b) c)) = [a, b, c] := by
  rw [width_eq] at hw
  have ha : 0xE0 ≤ a.toNat ∧ a.toNat < 0xF0 := by grind
  obtain ⟨hb, hoverlong, hsurrogate, -, -⟩ := toNat_of_admits hb
  have hc := toNat_of_isContinuation hc
  rw [extend, extend]
  rw [utf8EncodeChar_ofNat (by rw [Nat.isValidChar]; omega), if_neg (by omega), if_neg (by omega),
    if_pos (by omega), ofNat_eq (show _ = a.toNat by omega), ofNat_eq (show _ = b.toNat by omega),
    ofNat_eq (show _ = c.toNat by omega)]

theorem utf8EncodeChar_of_width_four {a b c d : UInt8} (hw : width a = 4)
    (hb : admits a b = true) (hc : isContinuation c = true) (hd : isContinuation d = true) :
    String.utf8EncodeChar (Char.ofNat (extend (extend (extend (a.toNat % 8) b) c) d)) =
      [a, b, c, d] := by
  rw [width_eq] at hw
  have ha : 0xF0 ≤ a.toNat ∧ a.toNat < 0xF5 := by grind
  obtain ⟨hb, -, -, hoverlong, hlast⟩ := toNat_of_admits hb
  have hc := toNat_of_isContinuation hc
  have hd := toNat_of_isContinuation hd
  rw [extend, extend, extend]
  rw [utf8EncodeChar_ofNat (by rw [Nat.isValidChar]; omega), if_neg (by omega), if_neg (by omega),
    if_neg (by omega), ofNat_eq (show _ = a.toNat by omega), ofNat_eq (show _ = b.toNat by omega),
    ofNat_eq (show _ = c.toNat by omega), ofNat_eq (show _ = d.toNat by omega)]

private theorem encode_of_map_eq_ok {c : Char} {form rest : List UInt8} {text : Text}
    {decoded : Except Malformed Text} (h : decoded.map (c :: ·) = .ok text)
    (hform : String.utf8EncodeChar c = form)
    (ih : ∀ tail, decoded = .ok tail → encode tail = rest) : encode text = form ++ rest := by
  cases decoded with
  | error malformed => cases h
  | ok tail =>
    cases h
    rw [← hform, ← ih tail rfl]
    exact List.flatMap_cons

/-- Only the octets of a text are read as that text. -/
theorem encode_of_decodeFrom {index : Nat} {octets : List UInt8} {text : Text}
    (h : decodeFrom index octets = .ok text) : encode text = octets := by
  fun_induction decodeFrom index octets generalizing text with
  | case1 =>
    cases h
    rfl
  | case2 index a rest hw ih =>
    exact encode_of_map_eq_ok h (utf8EncodeChar_of_width_one hw) fun _ => ih
  | case5 index a hw b rest hb ih =>
    simp only [Bool.not_eq_true', Bool.not_eq_false] at hb
    exact encode_of_map_eq_ok h (utf8EncodeChar_of_width_two hw hb) fun _ => ih
  | case10 index a hw b c rest hb hc ih =>
    simp only [Bool.not_eq_true', Bool.not_eq_false] at hb hc
    exact encode_of_map_eq_ok h (utf8EncodeChar_of_width_three hw hb hc) fun _ => ih
  | case17 index a hw b c d rest hb hc hd ih =>
    simp only [Bool.not_eq_true', Bool.not_eq_false] at hb hc hd
    exact encode_of_map_eq_ok h (utf8EncodeChar_of_width_four hw hb hc hd) fun _ => ih
  | _ => cases h

/-- **Octets are read as a text exactly if they are its octets.** -/
theorem decode?_eq_some_iff {octets : List UInt8} {text : Text} :
    decode? octets = some text ↔ octets = encode text := by
  constructor
  · intro h
    cases hdecode : decode octets with
    | error malformed =>
      rw [decode?, hdecode] at h
      cases h
    | ok read =>
      rw [decode?, hdecode] at h
      cases h
      exact (encode_of_decodeFrom hdecode).symm
  · rintro rfl
    rw [decode?, decode_encode]
    rfl

/-- Octets are refused exactly if they are those of no text. -/
theorem decode?_eq_none_iff {octets : List UInt8} :
    decode? octets = none ↔ ∀ text, octets ≠ encode text := by
  rw [Option.eq_none_iff_forall_ne_some]
  exact forall_congr' fun text => not_congr decode?_eq_some_iff

-- an overlong form of NUL, and a surrogate
example : decode? [0xC0, 0x80] = none ∧ decode? [0xED, 0xA0, 0x80] = none := by decide

end Utf8

end Phrasebook
