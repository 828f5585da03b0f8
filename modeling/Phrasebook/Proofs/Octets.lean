import Phrasebook.Proofs.Pass
/-!
# A pass over octets

Phrases and texts are stored as octets, and a search for a phrase is a search for its octets. That
is the same as a search for its characters: the first octet of a character cannot stand anywhere
else in one, so that the octets of a word are found where the word is and nowhere else.

## Main definitions

* `Segment.map`: a piece with its texts taken to another alphabet.

## Main results

* `Utf8.encode_prefix_iff`: the octets of a word begin those of a text exactly if the word begins
  the text.
* `segments_encode`: a pass over the octets cuts where a pass over the characters does.
* `translate_encode`: the rendition of the octets is that of the characters.
-/

namespace Phrasebook

namespace Utf8

theorem encode_cons (c : Char) (text : Text) :
    encode (c :: text) = String.utf8EncodeChar c ++ encode text :=
  List.flatMap_cons

theorem encode_append (front back : Text) : encode (front ++ back) = encode front ++ encode back :=
  List.flatMap_append

theorem encode_injective : Function.Injective encode := by
  intro text other h
  have hdecode : decode (encode text) = .ok other := by rw [h, decode_encode]
  rw [decode_encode] at hdecode
  exact Except.ok.inj hdecode

theorem encode_eq_nil_iff {text : Text} : encode text = [] ↔ text = [] :=
  ⟨fun h => encode_injective h, fun h => by rw [h]; rfl⟩

/-- Only the first octet of a character can begin one. -/
theorem exists_encodeChar_eq (c : Char) :
    ∃ first others, String.utf8EncodeChar c = first :: others ∧ first.IsUTF8FirstByte ∧
      ∀ b ∈ others, ¬ b.IsUTF8FirstByte := by
  obtain ⟨first, others, h⟩ := List.exists_cons_of_ne_nil (@String.utf8EncodeChar_ne_nil c)
  refine ⟨first, others, h, ?_, ?_⟩
  · have hlt : 0 < (String.utf8EncodeChar c).length := by
      rw [h]
      exact Nat.succ_pos _
    have hfirst : ((String.utf8EncodeChar c)[0]).IsUTF8FirstByte :=
      UInt8.isUTF8FirstByte_getElem_utf8EncodeChar.2 rfl
    simpa [h] using hfirst
  · intro b hb
    obtain ⟨i, hi, rfl⟩ := List.mem_iff_getElem.1 hb
    have hlt : i + 1 < (String.utf8EncodeChar c).length := by
      rw [h]
      exact Nat.succ_lt_succ hi
    have hother : ¬ ((String.utf8EncodeChar c)[i + 1]).IsUTF8FirstByte := by
      rw [UInt8.isUTF8FirstByte_getElem_utf8EncodeChar]
      exact Nat.succ_ne_zero i
    simpa [h] using hother

/-- What begins with the octets of a word is read as that word and the rest. -/
theorem decodeFrom_encode_append (index : Nat) (word : Text) (octets : List UInt8) :
    ∃ later, decodeFrom index (encode word ++ octets) =
      (decodeFrom later octets).map (word ++ ·) := by
  induction word generalizing index with
  | nil =>
    refine ⟨index, ?_⟩
    cases h : decodeFrom index octets <;> simp [encode, h, Except.map]
  | cons c word ih =>
    obtain ⟨later, hlater⟩ := ih (index + c.utf8Size)
    refine ⟨later, ?_⟩
    rw [encode_cons, List.append_assoc, decodeFrom_encodeChar, hlater]
    cases decodeFrom later octets <;> rfl

/-- **The octets of a word begin those of a text exactly if the word begins the text.** -/
theorem encode_prefix_iff {word text : Text} : encode word <+: encode text ↔ word <+: text := by
  constructor
  · rintro ⟨octets, h⟩
    obtain ⟨later, hword⟩ := decodeFrom_encode_append 0 word octets
    have htext : decodeFrom 0 (encode text) = .ok text := decode_encode text
    rw [← h, hword] at htext
    cases hrest : decodeFrom later octets with
    | error fault =>
      rw [hrest] at htext
      cases htext
    | ok rest =>
      rw [hrest] at htext
      exact ⟨rest, Except.ok.inj htext⟩
  · rintro ⟨rest, rfl⟩
    exact ⟨encode rest, (encode_append word rest).symm⟩

end Utf8

namespace Phrase

variable {α β : Type} {f : List α → List β}

theorem map_injective (hf : Function.Injective f) : Function.Injective (map f) := by
  rintro ⟨source, target⟩ ⟨source', target'⟩ h
  obtain ⟨hsource, htarget⟩ := Phrase.mk.inj h
  exact congr (congrArg Phrase.mk (hf hsource)) (hf htarget)

theorem isIdentity_map_iff (hf : Function.Injective f) {p : Phrase α} :
    (p.map f).IsIdentity ↔ p.IsIdentity :=
  hf.eq_iff

end Phrase

namespace Segment

variable {α : Type}

/-- The piece with its texts taken to another alphabet. -/
def map {β : Type} (f : List α → List β) : Segment α → Segment β
  | untouched text => untouched (f text)
  | replaced phrase => replaced (phrase.map f)

theorem foldr_push_untouched (front text : List α) (rest : List (Segment α)) :
    front.foldr push (untouched text :: rest) = untouched (front ++ text) :: rest := by
  induction front with
  | nil => rfl
  | cons a front ih => rw [List.foldr_cons, ih]; rfl

/-- Where `push` begins a new piece, more symbols go into that piece. -/
theorem foldr_push_of_push {pieces : List (Segment α)}
    (h : ∀ a, push a pieces = untouched [a] :: pieces) {front : List α} (hne : front ≠ []) :
    front.foldr push pieces = untouched front :: pieces := by
  rw [← List.dropLast_append_getLast hne, List.foldr_append, List.foldr_cons, List.foldr_nil, h,
    foldr_push_untouched]

/-- A character is put in front as its octets are. -/
theorem map_push (c : Char) (pieces : List (Segment Char)) :
    (push c pieces).map (map Utf8.encode) =
      (String.utf8EncodeChar c).foldr push (pieces.map (map Utf8.encode)) := by
  have hne : String.utf8EncodeChar c ≠ [] := String.utf8EncodeChar_ne_nil
  have hone : Utf8.encode [c] = String.utf8EncodeChar c := List.flatMap_singleton _ _
  cases pieces with
  | nil => rw [List.map_nil, foldr_push_of_push (fun _ => rfl) hne, ← hone]; rfl
  | cons piece rest =>
    cases piece with
    | untouched text => exact (foldr_push_untouched _ (Utf8.encode text) _).symm
    | replaced phrase =>
      rw [List.map_cons, map, foldr_push_of_push (fun _ => rfl) hne, ← hone]
      rfl

theorem map_injective {β : Type} {f : List α → List β} (hf : Function.Injective f) :
    Function.Injective (map f) := by
  intro piece other h
  cases piece <;> cases other
  · rw [hf (untouched.inj h)]
  · cases h
  · cases h
  · rw [Phrase.map_injective hf (replaced.inj h)]

end Segment

open Segment

section

variable {α : Type} [DecidableEq α] {phrase : Phrase α}

theorem cut_cons_of_not {a : α} {rest : List α} (h : ¬ phrase.source <+: a :: rest) :
    cut phrase (a :: rest) = push a (cut phrase rest) := by
  rw [cut, if_neg]
  rintro ⟨-, hpre⟩
  exact h (List.isPrefixOf_iff_prefix.1 hpre)

theorem cut_append (hne : phrase.source ≠ []) (rest : List α) :
    cut phrase (phrase.source ++ rest) = replaced phrase :: cut phrase rest := by
  obtain ⟨a, tail, hs⟩ := List.exists_cons_of_ne_nil hne
  rw [hs, List.cons_append, cut, if_pos]
  · rw [hs, List.length_cons, Nat.add_sub_cancel, List.drop_left]
  · refine ⟨hne, ?_⟩
    rw [hs]
    exact List.isPrefixOf_iff_prefix.2 (List.prefix_append (a :: tail) rest)

end

variable {phrase : Phrase Char}

/-- No phrase occurs at an octet that begins no character. -/
theorem cut_encode_others (hne : phrase.source ≠ []) {others after : List UInt8}
    (h : ∀ b ∈ others, ¬ b.IsUTF8FirstByte) :
    cut (phrase.map Utf8.encode) (others ++ after) =
      others.foldr push (cut (phrase.map Utf8.encode) after) := by
  induction others with
  | nil => rfl
  | cons b others ih =>
    rw [List.cons_append, cut_cons_of_not, ih fun b hb => h b (List.mem_cons_of_mem _ hb)]
    · rfl
    · obtain ⟨c, tail, hs⟩ := List.exists_cons_of_ne_nil hne
      obtain ⟨first, rest, hc, hfirst, -⟩ := Utf8.exists_encodeChar_eq c
      rw [Phrase.map, hs, Utf8.encode_cons, hc, List.cons_append, List.cons_prefix_cons]
      rintro ⟨rfl, -⟩
      exact h first List.mem_cons_self hfirst

/-- The octets of a text are cut where its characters are. -/
theorem cut_encode (hne : phrase.source ≠ []) (text : Text) :
    cut (phrase.map Utf8.encode) (Utf8.encode text) = (cut phrase text).map (map Utf8.encode) := by
  have hne' : (phrase.map Utf8.encode).source ≠ [] := fun h => hne (Utf8.encode_eq_nil_iff.1 h)
  fun_induction cut phrase text with
  | case1 => rw [Utf8.encode, List.flatMap_nil, cut]; rfl
  | case2 c rest h ih =>
    obtain ⟨after, hafter⟩ := List.isPrefixOf_iff_prefix.1 h.2
    have hdrop : rest.drop (phrase.source.length - 1) = after := by
      rw [drop_length_sub_one hne c rest, ← hafter, List.drop_left]
    rw [hdrop] at ih ⊢
    rw [← hafter, Utf8.encode_append, List.map_cons, ← ih]
    exact cut_append hne' (Utf8.encode after)
  | case3 c rest h ih =>
    obtain ⟨first, others, hc, -, hothers⟩ := Utf8.exists_encodeChar_eq c
    have hpre : ¬ Utf8.encode phrase.source <+: Utf8.encode (c :: rest) := by
      rw [Utf8.encode_prefix_iff]
      exact fun hpre => h ⟨hne, List.isPrefixOf_iff_prefix.2 hpre⟩
    rw [map_push, ← ih]
    rw [Utf8.encode_cons, hc, List.cons_append] at hpre ⊢
    rw [cut_cons_of_not hpre, cut_encode_others hne hothers]
    rfl

theorem refine_encode (hne : phrase.source ≠ []) (pieces : List (Segment Char)) :
    refine (pieces.map (map Utf8.encode)) (phrase.map Utf8.encode) =
      (refine pieces phrase).map (map Utf8.encode) := by
  rw [refine, refine, List.flatMap_map, List.map_flatMap]
  congr 1
  funext piece
  cases piece with
  | untouched text => exact cut_encode hne text
  | replaced done => rfl

/-- **A pass over the octets cuts where a pass over the characters does.** -/
theorem segments_encode {phrases : List (Phrase Char)} (h : ∀ p ∈ phrases, p.source ≠ [])
    (text : Text) :
    segments (phrases.map (Phrase.map Utf8.encode)) (Utf8.encode text) =
      (segments phrases text).map (map Utf8.encode) := by
  have hfold (pieces : List (Segment Char)) :
      (phrases.map (Phrase.map Utf8.encode)).foldl refine (pieces.map (map Utf8.encode)) =
        (phrases.foldl refine pieces).map (map Utf8.encode) := by
    induction phrases generalizing pieces with
    | nil => rfl
    | cons phrase phrases ih =>
      rw [List.map_cons, List.foldl_cons, List.foldl_cons,
        refine_encode (h phrase List.mem_cons_self), ih]
      exact fun p hp => h p (List.mem_cons_of_mem _ hp)
  exact hfold [untouched text]

/-- **The rendition of the octets is that of the characters.** -/
theorem translate_encode {phrases : List (Phrase Char)} (h : ∀ p ∈ phrases, p.source ≠ [])
    (text : Text) :
    translate (phrases.map (Phrase.map Utf8.encode)) (Utf8.encode text) =
      { text := Utf8.encode (translate phrases text).text
        substitutions := (translate phrases text).substitutions
        phrasesFound := (translate phrases text).phrasesFound } := by
  have hpieces := segments_encode h text
  rw [translate, Rendition.mk.injEq]
  rw [hpieces]
  refine ⟨?_, ?_, ?_⟩
  · rw [translate, Utf8.encode, List.flatMap_assoc, List.flatMap_map]
    congr 1
    funext piece
    cases piece <;> rfl
  · rw [translate, List.countP_map]
    congr 1
    funext piece
    cases piece with
    | untouched text => rfl
    | replaced phrase =>
      simp only [Function.comp_apply, map, Phrase.isIdentity_map_iff Utf8.encode_injective]
  · rw [translate, List.countP_map]
    congr 1
    funext phrase
    have hmem : map Utf8.encode (replaced phrase) ∈ (segments phrases text).map (map Utf8.encode) ↔
        replaced phrase ∈ segments phrases text :=
      List.mem_map_of_injective (map_injective Utf8.encode_injective)
    rw [map] at hmem
    simp only [Function.comp_apply, hmem]

end Phrasebook
