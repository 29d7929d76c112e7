import Horn.Proofs.Scanning

/-!
# Sources of bytes

A text that is given by its UTF-8 bytes is cut into the same lines as the text itself.
-/

namespace Horn

open List String

namespace Text.Source

lemma encode_ne_lineFeed {c : Char} (h : c ≠ '\n') {b : UInt8} (hb : b ∈ utf8EncodeChar c) :
    b ≠ lineFeed := by
  have other : c.val.toNat ≠ 10 := fun e => h (Char.toNat_inj.1 e)
  rintro rfl
  have byte (n : Nat) (e : lineFeed = UInt8.ofNat n) : 10 = n % 256 := by
    simpa [lineFeed] using congrArg UInt8.toNat e
  unfold utf8EncodeChar at hb
  dsimp only at hb
  split at hb
  · simp only [mem_singleton] at hb
    have := byte _ hb
    omega
  · split at hb
    · simp only [mem_cons, not_mem_nil, or_false] at hb
      rcases hb with hb | hb <;> have := byte _ hb <;> omega
    · split at hb
      · simp only [mem_cons, not_mem_nil, or_false] at hb
        rcases hb with hb | hb | hb <;> have := byte _ hb <;> omega
      · simp only [mem_cons, not_mem_nil, or_false] at hb
        rcases hb with hb | hb | hb | hb <;> have := byte _ hb <;> omega

lemma cutAfter_append {α : Type} {p : α → Bool} {xs : List α} (ne : xs ≠ [])
    (no : ∀ x ∈ xs, p x = false) (items : List α) :
    cutAfter p (xs ++ items) = match cutAfter p items with
      | [] => [xs]
      | line :: rest => (xs ++ line) :: rest := by
  induction xs with
  | nil => exact absurd rfl ne
  | cons x xs ih =>
    rw [cons_append, cutAfter_cons, no x mem_cons_self]
    by_cases empty : xs = []
    · subst empty
      rfl
    · rw [ih empty fun y hy => no y (mem_cons_of_mem _ hy)]
      cases cutAfter p items <;> rfl

lemma cutAfter_encode (cs : List Char) :
    cutAfter (· = lineFeed) (cs.flatMap utf8EncodeChar) =
      (cutAfter (· = '\n') cs).map (·.flatMap utf8EncodeChar) := by
  induction cs with
  | nil => rfl
  | cons c cs ih =>
    rw [flatMap_cons, cutAfter_cons]
    by_cases newline : c = '\n'
    · subst newline
      have encoded : utf8EncodeChar '\n' = [lineFeed] := by decide
      rw [encoded, singleton_append, cutAfter_cons, ih]
      simp [encoded]
    · have inside : ∀ b ∈ utf8EncodeChar c, decide (b = lineFeed) = false := fun b hb =>
        decide_eq_false (encode_ne_lineFeed newline hb)
      rw [cutAfter_append String.utf8EncodeChar_ne_nil inside, ih, decide_eq_false newline]
      cases cutAfter (fun x => decide (x = '\n')) cs <;> simp

lemma byteLine_encode (line : List Char) :
    byteLine? (line.flatMap utf8EncodeChar) = textLine? line := by
  cases h : line.flatMap utf8EncodeChar with
  | nil =>
    cases line with
    | nil => rfl
    | cons c line =>
      rw [flatMap_cons, append_eq_nil_iff] at h
      exact absurd h.1 String.utf8EncodeChar_ne_nil
  | cons b rest =>
    have bytes : ⟨(b :: rest).toArray⟩ = line.utf8Encode := by
      rw [← h]
      exact (ByteArray.ext (data_toByteArray)).symm
    have decoded : fromUTF8? ⟨(b :: rest).toArray⟩ = some (ofList line) := by
      rw [bytes, fromUTF8?, dif_pos ⟨line, rfl⟩]
      rfl
    rw [byteLine?, decoded]
    simp

lemma ofBytes_encode (cs : List Char) :
    ofBytes (cs.flatMap utf8EncodeChar) = ofChars cs := by
  rw [ofBytes, ofChars, cutAfter_encode, filterMap_map]
  congr 2
  funext line
  exact byteLine_encode line

lemma ofBytes_toUTF8 (text : String) : ofBytes text.toUTF8.data.toList = ofText text := by
  have bytes : text.toUTF8.data.toList = text.toList.flatMap utf8EncodeChar := by
    obtain ⟨cs, rfl⟩ : ∃ cs, text = ofList cs := ⟨text.toList, (ofList_toList).symm⟩
    rw [toList_ofList]
    change (cs.flatMap utf8EncodeChar).toByteArray.data.toList = _
    rw [data_toByteArray]
  rw [bytes, ofBytes_encode, ofText]
end Text.Source

end Horn
