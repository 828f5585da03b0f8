/-!
# Texts and their octets

A text is the list of its Unicode scalar values, and a file holds the octets of its UTF-8 form.
This module goes from one to the other. The way back is strict: no surrogate, no overlong form and
nothing above U+10FFFF is read, and a refusal says where the first offending form begins.

## Main definitions

* `Text`: a list of characters.
* `Utf8.encode`: the octets of a text.
* `Utf8.decode`: the text that a list of octets encodes, or the place where it fails.
* `Utf8.Malformed`: why and where octets are no text.

## Main results

* `Utf8.decode_encode`: every text is read back from its octets.

## Implementation notes

The second octet of a long form carries the strictness: what may follow `E0` and `F0` rules out the
overlong forms, what may follow `ED` the surrogates, and what may follow `F4` everything above the
last code point (`Utf8.admits`). Further octets are any continuation octets.
-/

namespace Phrasebook

/-- A text, as the list of its Unicode scalar values. -/
abbrev Text := List Char

namespace Utf8

/-- The octets of a text. -/
def encode (text : Text) : List UInt8 :=
  text.flatMap String.utf8EncodeChar

/-- How many octets the UTF-8 form of a text has. -/
def size (text : Text) : Nat :=
  text.foldr (fun c octets => c.utf8Size + octets) 0

/-- Why a list of octets is not the encoding of a text. -/
inductive Malformed where
  /-- The `length` octets from `index` on begin a form that the next octet cannot continue. -/
  | invalid (index length : Nat)
  /-- The octets from `index` on begin a form, and the input ends inside it. -/
  | incomplete (index : Nat)
  deriving DecidableEq, Repr

/-- How many octets a form has whose first octet is `a`; none begins with an `a` of width 0. -/
def width (a : UInt8) : Nat :=
  if a < 0x80 then 1
  else if a < 0xC2 then 0
  else if a < 0xE0 then 2
  else if a < 0xF0 then 3
  else if a < 0xF5 then 4
  else 0

/-- The octet can stand anywhere in a form but at its beginning. -/
def isContinuation (b : UInt8) : Bool :=
  0x80 ≤ b && b < 0xC0

/-- The octet `b` can follow the first octet `a` of a form. -/
def admits (a b : UInt8) : Bool :=
  isContinuation b &&
    if a = 0xE0 then 0xA0 ≤ b
    else if a = 0xED then b < 0xA0
    else if a = 0xF0 then 0x90 ≤ b
    else if a = 0xF4 then b < 0x90
    else true

/-- The six payload bits of a continuation octet, put after the bits read so far. -/
def extend (bits : Nat) (b : UInt8) : Nat :=
  bits * 64 + b.toNat % 64

/-- Read the octets that stand at position `index` of the input and after it. -/
def decodeFrom (index : Nat) : List UInt8 → Except Malformed Text
  | [] => .ok []
  | a :: rest =>
    match width a with
    | 1 => (decodeFrom (index + 1) rest).map (Char.ofNat a.toNat :: ·)
    | 2 =>
      match rest with
      | [] => .error (.incomplete index)
      | b :: rest =>
        if !admits a b then .error (.invalid index 1)
        else (decodeFrom (index + 2) rest).map (Char.ofNat (extend (a.toNat % 32) b) :: ·)
    | 3 =>
      match rest with
      | [] => .error (.incomplete index)
      | [b] => .error (if admits a b then .incomplete index else .invalid index 1)
      | b :: c :: rest =>
        if !admits a b then .error (.invalid index 1)
        else if !isContinuation c then .error (.invalid index 2)
        else
          (decodeFrom (index + 3) rest).map
            (Char.ofNat (extend (extend (a.toNat % 16) b) c) :: ·)
    | 4 =>
      match rest with
      | [] => .error (.incomplete index)
      | [b] => .error (if admits a b then .incomplete index else .invalid index 1)
      | [b, c] =>
        .error (if !admits a b then .invalid index 1
          else if isContinuation c then .incomplete index else .invalid index 2)
      | b :: c :: d :: rest =>
        if !admits a b then .error (.invalid index 1)
        else if !isContinuation c then .error (.invalid index 2)
        else if !isContinuation d then .error (.invalid index 3)
        else
          (decodeFrom (index + 4) rest).map
            (Char.ofNat (extend (extend (extend (a.toNat % 8) b) c) d) :: ·)
    | _ => .error (.invalid index 1)

/-- The text whose encoding the octets are. -/
def decode (octets : List UInt8) : Except Malformed Text :=
  decodeFrom 0 octets

/-- The text whose encoding the octets are, if there is one. -/
def decode? (octets : List UInt8) : Option Text :=
  (decode octets).toOption

/-- The sentence that reports octets which are no text. -/
def Malformed.message : Malformed → Text
  | .invalid index length =>
    s!"invalid utf-8 sequence of {length} bytes from index {index}".toList
  | .incomplete index => s!"incomplete utf-8 byte sequence from index {index}".toList

/-! ### Reading back what was written -/

private theorem width_ofNat {n : Nat} (h : n < 256) :
    width (UInt8.ofNat n) =
      if n < 0x80 then 1 else if n < 0xC2 then 0 else if n < 0xE0 then 2 else if n < 0xF0 then 3
      else if n < 0xF5 then 4 else 0 := by
  simp [width, UInt8.lt_iff_toNat_lt, Nat.mod_eq_of_lt h]

private theorem isContinuation_ofNat (n : Nat) :
    isContinuation (UInt8.ofNat (n % 64 + 128)) = true := by
  simp only [isContinuation, UInt8.le_iff_toNat_le, UInt8.lt_iff_toNat_lt, UInt8.toNat_ofNat',
    UInt8.toNat_ofNat, Bool.and_eq_true, decide_eq_true_eq]
  omega

private theorem extend_ofNat (bits n : Nat) :
    extend bits (UInt8.ofNat (n % 64 + 128)) = bits * 64 + n % 64 := by
  simp only [extend, UInt8.toNat_ofNat']
  omega

private theorem ofNat_eq_iff {n m : Nat} (hn : n < 256) (hm : m < 256) :
    UInt8.ofNat n = UInt8.ofNat m ↔ n = m := by
  rw [← UInt8.toNat_inj, UInt8.toNat_ofNat', UInt8.toNat_ofNat', Nat.mod_eq_of_lt hn,
    Nat.mod_eq_of_lt hm]

/-- A continuation octet may follow `a` unless the form would then be overlong, a surrogate, or
above the last code point. -/
private theorem admits_ofNat {a b : Nat} (ha : a < 256) (h0 : a = 0xE0 → 0x20 ≤ b % 64)
    (h1 : a = 0xED → b % 64 < 0x20) (h2 : a = 0xF0 → 0x10 ≤ b % 64)
    (h3 : a = 0xF4 → b % 64 < 0x10) :
    admits (UInt8.ofNat a) (UInt8.ofNat (b % 64 + 128)) = true := by
  have e0 : (UInt8.ofNat a = 0xE0) = (a = 0xE0) := propext (ofNat_eq_iff ha (by decide))
  have e1 : (UInt8.ofNat a = 0xED) = (a = 0xED) := propext (ofNat_eq_iff ha (by decide))
  have e2 : (UInt8.ofNat a = 0xF0) = (a = 0xF0) := propext (ofNat_eq_iff ha (by decide))
  have e3 : (UInt8.ofNat a = 0xF4) = (a = 0xF4) := propext (ofNat_eq_iff ha (by decide))
  have hb : b % 64 < 64 := Nat.mod_lt _ (by decide)
  simp only [admits, isContinuation_ofNat, Bool.true_and, e0, e1, e2, e3,
    UInt8.le_iff_toNat_le, UInt8.lt_iff_toNat_lt, UInt8.toNat_ofNat', UInt8.toNat_ofNat]
  split
  · have := h0 ‹_›
    simp only [decide_eq_true_eq]
    omega
  · split
    · have := h1 ‹_›
      simp only [decide_eq_true_eq]
      omega
    · split
      · have := h2 ‹_›
        simp only [decide_eq_true_eq]
        omega
      · split
        · have := h3 ‹_›
          simp only [decide_eq_true_eq]
          omega
        · rfl

/-- The size of a character is the number of octets that its number asks for. -/
private theorem utf8Size_eq (c : Char) :
    c.utf8Size =
      if c.toNat ≤ 0x7F then 1 else if c.toNat ≤ 0x7FF then 2 else if c.toNat ≤ 0xFFFF then 3
      else 4 := by
  simp only [Char.utf8Size, UInt32.le_iff_toNat_le]
  rfl

/-- One character is read back, whatever follows it. -/
theorem decodeFrom_encodeChar (index : Nat) (c : Char) (rest : List UInt8) :
    decodeFrom index (String.utf8EncodeChar c ++ rest) =
      (decodeFrom (index + c.utf8Size) rest).map (c :: ·) := by
  have hc : Char.ofNat c.toNat = c := Char.ofNat_toNat c
  have hv : c.toNat < 0xD800 ∨ 0xDFFF < c.toNat ∧ c.toNat < 0x110000 := c.valid
  have hs := utf8Size_eq c
  have hn : c.val.toNat = c.toNat := rfl
  generalize c.toNat = v at hc hv hs hn
  simp only [String.utf8EncodeChar, hn, hs]
  by_cases h1 : v ≤ 127
  · have hw : width (UInt8.ofNat v) = 1 := by
      rw [width_ofNat (by omega)]
      repeat' split
      all_goals omega
    have hx : (UInt8.ofNat v).toNat = v := by
      rw [UInt8.toNat_ofNat']
      omega
    rw [if_pos h1, if_pos h1, List.cons_append, List.nil_append, decodeFrom.eq_def]
    simp only [hw, hx, hc]
  by_cases h2 : v ≤ 2047
  · have hw : width (UInt8.ofNat (v / 64 % 32 + 192)) = 2 := by
      rw [width_ofNat (by omega)]
      repeat' split
      all_goals omega
    have ha : admits (UInt8.ofNat (v / 64 % 32 + 192)) (UInt8.ofNat (v % 64 + 128)) = true :=
      admits_ofNat (by omega) (by omega) (by omega) (by omega) (by omega)
    have hx : extend ((UInt8.ofNat (v / 64 % 32 + 192)).toNat % 32)
        (UInt8.ofNat (v % 64 + 128)) = v := by
      rw [extend_ofNat, UInt8.toNat_ofNat']
      omega
    simp only [h1, h2, if_true, if_false, List.cons_append, List.nil_append, decodeFrom, hw, ha,
      hx, hc, Bool.not_true, Bool.false_eq_true]
  by_cases h3 : v ≤ 65535
  · have hw : width (UInt8.ofNat (v / 4096 % 16 + 224)) = 3 := by
      rw [width_ofNat (by omega)]
      repeat' split
      all_goals omega
    have ha : admits (UInt8.ofNat (v / 4096 % 16 + 224)) (UInt8.ofNat (v / 64 % 64 + 128)) = true :=
      admits_ofNat (by omega) (by omega) (by omega) (by omega) (by omega)
    have hx : extend (extend ((UInt8.ofNat (v / 4096 % 16 + 224)).toNat % 16)
        (UInt8.ofNat (v / 64 % 64 + 128))) (UInt8.ofNat (v % 64 + 128)) = v := by
      rw [extend_ofNat, extend_ofNat, UInt8.toNat_ofNat']
      omega
    simp only [h1, h2, h3, if_true, if_false, List.cons_append, List.nil_append, decodeFrom, hw,
      ha, hx, hc, isContinuation_ofNat, Bool.not_true, Bool.false_eq_true]
  · have hw : width (UInt8.ofNat (v / 262144 % 8 + 240)) = 4 := by
      rw [width_ofNat (by omega)]
      repeat' split
      all_goals omega
    have ha : admits (UInt8.ofNat (v / 262144 % 8 + 240))
        (UInt8.ofNat (v / 4096 % 64 + 128)) = true :=
      admits_ofNat (by omega) (by omega) (by omega) (by omega) (by omega)
    have hx : extend (extend (extend ((UInt8.ofNat (v / 262144 % 8 + 240)).toNat % 8)
        (UInt8.ofNat (v / 4096 % 64 + 128))) (UInt8.ofNat (v / 64 % 64 + 128)))
        (UInt8.ofNat (v % 64 + 128)) = v := by
      rw [extend_ofNat, extend_ofNat, extend_ofNat, UInt8.toNat_ofNat']
      omega
    simp only [h1, h2, h3, if_false, List.cons_append, List.nil_append, decodeFrom, hw, ha, hx,
      hc, isContinuation_ofNat, Bool.not_true, Bool.false_eq_true]

/-- Every text is read back from its octets. -/
theorem decode_encode (text : Text) : decode (encode text) = .ok text := by
  have h (index : Nat) : decodeFrom index (encode text) = .ok text := by
    induction text generalizing index with
    | nil => rfl
    | cons c text ih =>
      rw [encode, List.flatMap_cons, decodeFrom_encodeChar]
      change Except.map _ (decodeFrom _ (encode text)) = _
      rw [ih]
      rfl
  exact h 0

end Utf8

end Phrasebook
