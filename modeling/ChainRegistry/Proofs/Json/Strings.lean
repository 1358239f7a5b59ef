import ChainRegistry.Document.Json.Quoted

/-!
# Strings of JSON read back

What is written for one character is read as one piece, whatever follows it, and the pieces of a
text join to that text.  Characters with an escape by code become code units, none of which is half
of a surrogate pair.
-/

namespace ChainRegistry.Json

/-- The piece that one character is read back as. -/
def pieceOf (c : Char) : Piece :=
  if c = '\n' ∨ c = '\r' ∨ c = '\t' ∨ c = '\x08' ∨ c = '\x0c' ∨ 0x20 ≤ c.toNat then .char c
  else .unit c.toNat

theorem pieces?_plain {c : Char} (hquote : c ≠ '"') (hbackslash : c ≠ '\\')
    (hplain : ¬c.toNat < 0x20) (text : List Char) :
    pieces? (c :: text) = (pieces? text).map fun (pieces, rest) => (.char c :: pieces, rest) := by
  rw [pieces?]
  · rw [if_neg hplain]
  · exact hquote
  · intros
    contradiction
  · intros
    contradiction

theorem pieces?_code {code : Nat} (hcode : code < 65536) (text : List Char) :
    pieces? ('\\' :: 'u' :: Hex.fourDigits code ++ text) =
      (pieces? text).map fun (pieces, rest) => (.unit code :: pieces, rest) := by
  have hnumber := Hex.number?_fourDigits hcode
  simp only [Hex.fourDigits] at hnumber
  simp only [Hex.fourDigits, List.cons_append, List.nil_append, pieces?, hnumber]
  cases pieces? text with
  | none => rfl
  | some read => rfl

theorem pieces?_letter {letter c : Char} (hu : letter ≠ 'u') (hletter : unescape? letter = some c)
    (text : List Char) :
    pieces? ('\\' :: letter :: text) =
      (pieces? text).map fun (pieces, rest) => (.char c :: pieces, rest) := by
  rw [pieces?]
  · rw [hletter]
    cases pieces? text with
    | none => rfl
    | some read => rfl
  · intros
    contradiction

theorem pieces?_escape (c : Char) (text : List Char) :
    pieces? (escape c ++ text) =
      (pieces? text).map fun (pieces, rest) => (pieceOf c :: pieces, rest) := by
  by_cases hletter : c ∈ ['"', '\\', '\n', '\r', '\t', '\x08', '\x0c']
  · simp only [List.mem_cons, List.not_mem_nil, or_false] at hletter
    rcases hletter with rfl | rfl | rfl | rfl | rfl | rfl | rfl
    all_goals exact pieces?_letter (by decide) rfl text
  · simp only [List.mem_cons, List.not_mem_nil, or_false, not_or] at hletter
    obtain ⟨hquote, hbackslash, hn, hr, ht, hb, hf⟩ := hletter
    by_cases hcontrol : c.toNat < 0x20
    · have hescape : escape c = '\\' :: 'u' :: Hex.fourDigits c.toNat := by
        simp [escape, hquote, hbackslash, hn, hr, ht, hb, hf, hcontrol]
      have hpiece : pieceOf c = .unit c.toNat := by
        simp [pieceOf, hn, hr, ht, hb, hf, Nat.not_le.mpr hcontrol]
      rw [hescape, hpiece]
      exact pieces?_code (by omega) text
    · have hescape : escape c = [c] := by
        simp [escape, hquote, hbackslash, hn, hr, ht, hb, hf, hcontrol]
      have hpiece : pieceOf c = .char c := by
        simp [pieceOf, Nat.le_of_not_lt hcontrol]
      rw [hescape, hpiece]
      exact pieces?_plain hquote hbackslash hcontrol text

theorem pieces?_flatMap_escape (text rest : List Char) :
    pieces? (text.flatMap escape ++ '"' :: rest) = some (text.map pieceOf, rest) := by
  induction text with
  | nil => simp [pieces?]
  | cons c text ih => simp [List.append_assoc, pieces?_escape, ih]

theorem joinAfter?_pieceOf (c : Char) (pieces : List Piece) :
    joinAfter? none (pieceOf c :: pieces) = (joinAfter? none pieces).map (c :: ·) := by
  unfold pieceOf
  split
  next => simp [joinAfter?]
  next hcontrol =>
    have hcode : c.toNat < 0x20 := by omega
    have hhigh : isHighSurrogate c.toNat = false := by
      simp [isHighSurrogate]
      omega
    have hlow : isLowSurrogate c.toNat = false := by
      simp [isLowSurrogate]
      omega
    simp [joinAfter?, hhigh, hlow, Char.ofNat_toNat]

theorem join?_map_pieceOf (text : String) :
    join? (text.toList.map pieceOf) = some text := by
  have hjoin (chars : List Char) : joinAfter? none (chars.map pieceOf) = some chars := by
    induction chars with
    | nil => rfl
    | cons c chars ih => rw [List.map_cons, joinAfter?_pieceOf, ih, Option.map_some]
  simp [join?, hjoin]

theorem pieces?_quote (text : String) (rest : List Char) :
    ∃ body, quote text = '"' :: body ∧
      pieces? (body ++ rest) = some (text.toList.map pieceOf, rest) := by
  refine ⟨text.toList.flatMap escape ++ ['"'], rfl, ?_⟩
  rw [List.append_assoc]
  exact pieces?_flatMap_escape text.toList rest

end ChainRegistry.Json
