import ChainRegistry.Document.Toml.Quoted

/-!
# Strings of TOML read back

A text is read back from each of its four written forms, whatever follows the closing quotes, as
long as that is no further quote.  In the long forms a run of quotes is looked at as a whole: the
reader takes up to two quotes in front of a closing triple for text, and the writer leaves no more
than two together.
-/

namespace ChainRegistry.Toml

/-! ## Escapes -/

theorem scalar?_fourDigits {c : Char} (hc : c.toNat < 65536) :
    scalar? ((Hex.fourDigits c.toNat).map Char.toUpper) = some c := by
  have hupper : ∀ d < 16, Hex.value? (Nat.digitChar d).toUpper = some d := by decide
  have hdigit (m : Nat) : Hex.value? (Nat.digitChar (m % 16)).toUpper = some (m % 16) :=
    hupper _ (Nat.mod_lt _ (by decide))
  have hnumber : Hex.number? ((Hex.fourDigits c.toNat).map Char.toUpper) = some c.toNat := by
    have hsum : 16 * (16 * (16 * (16 * 0 + c.toNat / 4096 % 16) + c.toNat / 256 % 16) +
        c.toNat / 16 % 16) + c.toNat % 16 = c.toNat := by
      omega
    simp only [Hex.number?, Hex.fourDigits, List.map_cons, List.map_nil, List.foldlM_cons,
      List.foldlM_nil, hdigit, Option.map_some]
    simpa using hsum
  have hvalid : c.toNat.isValidChar := c.valid
  simp [scalar?, hnumber, hvalid, Char.ofNat_toNat]

/-- A character is written as itself, behind a backslash as a letter, or by its code. -/
theorem escape_cases (c : Char) :
    (escape c = [c] ∧ isPlain c = true ∧ c ≠ '"' ∧ c ≠ '\\') ∨
      (∃ letter, escape c = ['\\', letter] ∧ unescape? letter = some c ∧
        letter ∈ ['"', '\\', 'b', 't', 'n', 'f', 'r']) ∨
      (escape c = '\\' :: 'u' :: (Hex.fourDigits c.toNat).map Char.toUpper ∧ c.toNat < 65536) := by
  by_cases hletter : c ∈ ['"', '\\', '\x08', '\t', '\n', '\x0c', '\r']
  · simp only [List.mem_cons, List.not_mem_nil, or_false] at hletter
    refine .inr (.inl ?_)
    rcases hletter with rfl | rfl | rfl | rfl | rfl | rfl | rfl
    · exact ⟨'"', rfl, rfl, by decide⟩
    · exact ⟨'\\', rfl, rfl, by decide⟩
    · exact ⟨'b', rfl, rfl, by decide⟩
    · exact ⟨'t', rfl, rfl, by decide⟩
    · exact ⟨'n', rfl, rfl, by decide⟩
    · exact ⟨'f', rfl, rfl, by decide⟩
    · exact ⟨'r', rfl, rfl, by decide⟩
  · simp only [List.mem_cons, List.not_mem_nil, or_false, not_or] at hletter
    obtain ⟨hquote, hbackslash, hb, ht, hn, hf, hr⟩ := hletter
    cases hplain : isPlain c with
    | true =>
        exact .inl ⟨by simp [escape, hquote, hbackslash, hb, ht, hn, hf, hr, hplain], rfl, hquote,
          hbackslash⟩
    | false =>
        refine .inr (.inr ⟨?_, ?_⟩)
        · simp [escape, hquote, hbackslash, hb, ht, hn, hf, hr, hplain]
        · simp only [isPlain, Bool.or_eq_false_iff, Bool.and_eq_false_iff, decide_eq_false_iff_not,
            bne_eq_false_iff_eq] at hplain
          rcases hplain.2 with hcontrol | rfl
          · omega
          · decide

/-! ## Basic strings -/

theorem basic?_escape (c : Char) (text : List Char) :
    basic? (escape c ++ text) = consIfSome (some c) (basic? text) := by
  rcases escape_cases c with ⟨hescape, hplain, hquote, hbackslash⟩ |
    ⟨letter, hescape, hletter, hmem⟩ | ⟨hescape, hcode⟩
  · rw [hescape, List.singleton_append, basic?, if_pos hplain]
    · exact hquote
    all_goals
      intros
      contradiction
  · rw [hescape, List.cons_append, List.singleton_append, basic?, hletter]
    all_goals
      intros
      subst_vars
      contradiction
  · have hscalar := scalar?_fourDigits hcode
    simp only [Hex.fourDigits, List.map_cons, List.map_nil] at hescape hscalar
    rw [hescape]
    simp only [List.cons_append, List.nil_append, basic?, hscalar]

theorem basic?_flatMap_escape (text rest : List Char) :
    basic? (text.flatMap escape ++ '"' :: rest) = some (text, rest) := by
  induction text with
  | nil => simp [basic?]
  | cons c text ih =>
      rw [List.flatMap_cons, List.append_assoc, basic?_escape, ih]
      rfl

/-! ## Literal strings -/

theorem literal?_verbatim {text : List Char} (hplain : ∀ c ∈ text, isPlain c = true ∧ c ≠ '\x27')
    (rest : List Char) : literal? (text ++ '\x27' :: rest) = some (text, rest) := by
  induction text with
  | nil => simp [literal?]
  | cons c text ih =>
      obtain ⟨⟨hc, hquote⟩, htext⟩ := List.forall_mem_cons.mp hplain
      rw [List.cons_append, literal?, if_pos hc, ih htext]
      · rfl
      · exact hquote

/-! ## Long strings -/

/-- The next character is no quote of the given kind. -/
def NoQuote (quote : Char) (rest : List Char) : Prop :=
  ∀ c ∈ rest.head?, c ≠ quote

/-- Text that was read, put in front of what is read behind it. -/
def prepend (text : List Char) (read? : Option (List Char × List Char)) :
    Option (List Char × List Char) :=
  read?.map fun (more, rest) => (text ++ more, rest)

theorem consIfSome_eq_prepend (c : Char) (read? : Option (List Char × List Char)) :
    consIfSome (some c) read? = prepend [c] read? := by
  cases read? <;> rfl

theorem prepend_nil (read? : Option (List Char × List Char)) : prepend [] read? = read? := by
  cases read? <;> rfl

theorem prepend_prepend (text more : List Char) (read? : Option (List Char × List Char)) :
    prepend text (prepend more read?) = prepend (text ++ more) read? := by
  cases read? <;> simp [prepend]

/-- How the inside of a long string deals with a run of at most two quotes: it belongs to the text,
be it in front of the closing triple or of another character. -/
structure LongReader (quote : Char) (read? : List Char → Option (List Char × List Char)) :
    Prop where
  close : ∀ run ≤ 2, ∀ rest, NoQuote quote rest →
    read? (List.replicate run quote ++ quote :: quote :: quote :: rest) =
      some (List.replicate run quote, rest)
  flush : ∀ run ≤ 2, ∀ c rest, c ≠ quote →
    read? (List.replicate run quote ++ c :: rest) =
      prepend (List.replicate run quote) (read? (c :: rest))

theorem forall_le_two {P : Nat → Prop} (h : P 0 ∧ P 1 ∧ P 2) : ∀ run ≤ 2, P run := by
  intro run hrun
  obtain ⟨hzero, hone, htwo⟩ := h
  rcases (by omega : run = 0 ∨ run = 1 ∨ run = 2) with rfl | rfl | rfl
  · exact hzero
  · exact hone
  · exact htwo

/-- A quote that begins no triple belongs to the text. -/
theorem longLiteralBody?_quote {rest : List Char}
    (hrest : ∀ more, rest ≠ '\x27' :: '\x27' :: more) :
    longLiteralBody? ('\x27' :: rest) = prepend ['\x27'] (longLiteralBody? rest) := by
  rw [longLiteralBody?, if_pos (by decide), consIfSome_eq_prepend]
  · exact fun more _ => hrest _
  · exact fun more _ => hrest _
  · exact fun more _ => hrest _
  · simp

theorem longLiteral_reader : LongReader '\x27' longLiteralBody? := by
  constructor
  · refine forall_le_two ⟨?_, ?_, ?_⟩
    · intro rest hrest
      rw [List.replicate_zero, List.nil_append, longLiteralBody?]
      all_goals
        intros
        subst_vars
        exact hrest '\x27' rfl rfl
    · intro rest hrest
      simp only [List.replicate_succ, List.replicate_zero, List.cons_append, List.nil_append]
      rw [longLiteralBody?]
      intros
      subst_vars
      exact hrest '\x27' rfl rfl
    · intro rest _
      simp [List.replicate_succ, longLiteralBody?]
  · refine forall_le_two ⟨?_, ?_, ?_⟩
    · intro c rest _
      exact (prepend_nil _).symm
    · intro c rest hc
      exact longLiteralBody?_quote (by simp [hc])
    · intro c rest hc
      simp only [List.replicate_succ, List.replicate_zero, List.cons_append, List.nil_append]
      rw [longLiteralBody?_quote (by simp [hc]), longLiteralBody?_quote (by simp [hc]),
        prepend_prepend]
      rfl

/-- The inside of a long basic string, with its lines joined. -/
def longBasicText? (text : List Char) : Option (List Char × List Char) :=
  (longBasicPieces? text).bind fun (pieces, rest) =>
    (joinLines? none pieces).map fun joined => (joined, rest)

theorem longBasic?_eq (text : List Char) : longBasic? text = longBasicText? (dropLineEnd text) := by
  cases hpieces : longBasicPieces? (dropLineEnd text) with
  | none => simp [longBasic?, longBasicText?, hpieces]
  | some read =>
      cases hjoined : joinLines? none read.1 <;>
        simp [longBasic?, longBasicText?, hpieces, hjoined]

theorem longBasicText?_of_pieces {text behind : List Char} {c : Char} {piece : Piece}
    (hpiece : piece = .raw c ∨ piece = .escaped c)
    (htext : longBasicPieces? text = consPiece (some piece) (longBasicPieces? behind)) :
    longBasicText? text = prepend [c] (longBasicText? behind) := by
  rw [longBasicText?, longBasicText?, htext]
  cases longBasicPieces? behind with
  | none => rfl
  | some read =>
      obtain ⟨pieces, rest⟩ := read
      rcases hpiece with rfl | rfl
      all_goals
        simp only [consPiece, Option.bind_some, joinLines?]
        cases joinLines? none pieces <;> rfl

theorem longBasicPieces?_quote {rest : List Char} (hrest : ∀ more, rest ≠ '"' :: '"' :: more) :
    longBasicPieces? ('"' :: rest) = consPiece (some (.raw '"')) (longBasicPieces? rest) := by
  rw [longBasicPieces?, if_pos (by decide)]
  · exact fun more _ => hrest _
  · exact fun more _ => hrest _
  · exact fun more _ => hrest _
  all_goals simp

theorem longBasicText?_quote {rest : List Char} (hrest : ∀ more, rest ≠ '"' :: '"' :: more) :
    longBasicText? ('"' :: rest) = prepend ['"'] (longBasicText? rest) :=
  longBasicText?_of_pieces (.inl rfl) (longBasicPieces?_quote hrest)

theorem longBasic_reader : LongReader '"' longBasicText? := by
  constructor
  · refine forall_le_two ⟨?_, ?_, ?_⟩
    · intro rest hrest
      rw [List.replicate_zero, List.nil_append, longBasicText?, longBasicPieces?]
      · rfl
      all_goals
        intros
        subst_vars
        exact hrest '"' rfl rfl
    · intro rest hrest
      simp only [List.replicate_succ, List.replicate_zero, List.cons_append, List.nil_append]
      rw [longBasicText?, longBasicPieces?]
      · rfl
      intros
      subst_vars
      exact hrest '"' rfl rfl
    · intro rest _
      simp [List.replicate_succ, longBasicText?, longBasicPieces?, joinLines?]
  · refine forall_le_two ⟨?_, ?_, ?_⟩
    · intro c rest _
      exact (prepend_nil _).symm
    · intro c rest hc
      exact longBasicText?_quote (by simp [hc])
    · intro c rest hc
      simp only [List.replicate_succ, List.replicate_zero, List.cons_append, List.nil_append]
      rw [longBasicText?_quote (by simp [hc]), longBasicText?_quote (by simp [hc]),
        prepend_prepend]
      rfl

/-- A character other than the quote is read back from its escape, and a line end from itself. -/
theorem longBasicText?_escape {c : Char} (text : List Char) :
    longBasicText? (escape c ++ text) = prepend [c] (longBasicText? text) := by
  rcases escape_cases c with ⟨hescape, hplain, hquote, hbackslash⟩ |
    ⟨letter, hescape, hletter, hmem⟩ | ⟨hescape, hcode⟩
  · refine longBasicText?_of_pieces (.inl rfl) ?_
    rw [hescape, List.singleton_append, longBasicPieces?, if_pos (by simp [hplain])]
    all_goals
      intros
      first
      | contradiction
      | (subst_vars; contradiction)
  · refine longBasicText?_of_pieces (.inr rfl) ?_
    have hblank : ¬(letter = ' ' ∨ letter = '\t' ∨ letter = '\n') := by
      rintro (rfl | rfl | rfl) <;> simp at hmem
    rw [hescape, List.cons_append, List.singleton_append, longBasicPieces?, if_neg hblank, hletter,
      Option.map_some]
    all_goals
      intros
      subst_vars
      simp at hmem
  · refine longBasicText?_of_pieces (.inr rfl) ?_
    have hscalar := scalar?_fourDigits hcode
    simp only [Hex.fourDigits, List.map_cons, List.map_nil] at hescape hscalar
    rw [hescape]
    simp only [List.cons_append, List.nil_append, longBasicPieces?, hscalar, Option.map_some]

theorem longBasicText?_lineEnd (text : List Char) :
    longBasicText? ('\n' :: text) = prepend ['\n'] (longBasicText? text) := by
  refine longBasicText?_of_pieces (.inl rfl) ?_
  simp [longBasicPieces?]

theorem isPlain_ne {c : Char} (hc : isPlain c = true) : c ≠ '\n' ∧ c ≠ '\r' := by
  constructor
  · rintro rfl
    contradiction
  · rintro rfl
    contradiction

theorem escape_eq_cons (c : Char) :
    ∃ d rest, escape c = d :: rest ∧ d ≠ '"' ∧ d ≠ '\n' ∧ d ≠ '\r' := by
  rcases escape_cases c with ⟨hescape, hplain, hquote, -⟩ | ⟨letter, hescape, -⟩ | ⟨hescape, -⟩
  · exact ⟨c, [], hescape, hquote, isPlain_ne hplain⟩
  · exact ⟨'\\', _, hescape, by decide⟩
  · exact ⟨'\\', _, hescape, by decide⟩

/-! ## Insides of long strings -/

theorem le_longestRun (quote : Char) (run : Nat) (text : List Char) :
    run ≤ longestRun quote run text := by
  induction text generalizing run with
  | nil => exact Nat.le_refl run
  | cons c text ih =>
      unfold longestRun
      split
      · exact Nat.le_trans (Nat.le_succ run) (ih (run + 1))
      · exact Nat.le_max_left _ _

theorem replicate_append_cons (run : Nat) (quote : Char) (rest : List Char) :
    List.replicate run quote ++ quote :: rest = List.replicate (run + 1) quote ++ rest := by
  rw [List.replicate_succ', List.append_assoc]
  rfl

/-- The induction carries a run of quotes that has been passed but not yet been read. -/
theorem longLiteralBody?_verbatim {rest : List Char} (hrest : NoQuote '\x27' rest) {run : Nat}
    {text : List Char} (hplain : ∀ c ∈ text, (isPlain c || c == '\n') = true)
    (hrun : longestRun '\x27' run text ≤ 2) :
    longLiteralBody?
        (List.replicate run '\x27' ++ (text ++ '\x27' :: '\x27' :: '\x27' :: rest)) =
      some (List.replicate run '\x27' ++ text, rest) := by
  induction text generalizing run with
  | nil =>
      rw [List.append_nil]
      exact longLiteral_reader.close run hrun rest hrest
  | cons c text ih =>
      obtain ⟨hc, htext⟩ := List.forall_mem_cons.mp hplain
      have hle := Nat.le_trans (le_longestRun '\x27' run (c :: text)) hrun
      unfold longestRun at hrun
      split at hrun
      next hquote =>
        subst hquote
        rw [List.cons_append, replicate_append_cons, replicate_append_cons]
        exact ih htext hrun
      next hquote =>
        have hread := ih htext (Nat.le_trans (Nat.le_max_right _ _) hrun)
        have hnext : longLiteralBody? (c :: (text ++ '\x27' :: '\x27' :: '\x27' :: rest)) =
            some (c :: text, rest) := by
          simp only [List.replicate_zero, List.nil_append] at hread
          rw [longLiteralBody?, if_pos hc, hread]
          · rfl
          all_goals
            intros
            subst_vars
            contradiction
        rw [List.cons_append, longLiteral_reader.flush run hle c _ hquote, hnext]
        rfl

theorem longBasicText?_longBasicBody {rest : List Char} (hrest : NoQuote '"' rest) {run : Nat}
    (hrun : run ≤ 2) (text : List Char) :
    longBasicText?
        (List.replicate run '"' ++ (longBasicBody run text ++ '"' :: '"' :: '"' :: rest)) =
      some (List.replicate run '"' ++ text, rest) := by
  induction text generalizing run with
  | nil =>
      rw [List.append_nil]
      exact longBasic_reader.close run hrun rest hrest
  | cons c text ih =>
      have hread := ih (Nat.zero_le 2)
      simp only [List.replicate_zero, List.nil_append] at hread
      unfold longBasicBody
      split
      next hquote =>
        subst hquote
        split
        next hmore =>
          rw [List.cons_append, replicate_append_cons, replicate_append_cons]
          exact ih (by omega)
        next hfull =>
          have hescaped := longBasicText?_escape (c := '"') (longBasicBody 0 text ++
            '"' :: '"' :: '"' :: rest)
          rw [hread] at hescaped
          rw [List.append_assoc]
          exact (longBasic_reader.flush run hrun '\\' _ (by decide)).trans
            (congrArg (prepend (List.replicate run '"')) hescaped)
      next hquote =>
        split
        next hline =>
          subst hline
          rw [List.cons_append, longBasic_reader.flush run hrun '\n' _ (by decide),
            longBasicText?_lineEnd, hread]
          rfl
        next =>
          obtain ⟨d, more, hescape, hd, -⟩ := escape_eq_cons c
          have hescaped := longBasicText?_escape (c := c) (longBasicBody 0 text ++
            '"' :: '"' :: '"' :: rest)
          rw [hread, hescape] at hescaped
          rw [List.append_assoc, hescape, List.cons_append,
            longBasic_reader.flush run hrun d _ hd]
          exact congrArg (prepend (List.replicate run '"')) hescaped

/-! ## All forms -/

namespace QuoteStyle

/-- A style without escapes is only taken for a text that needs none. -/
theorem isVerbatim_of_ofText {style : QuoteStyle} {text : List Char}
    (hstyle : style = literal ∨ style = longLiteral) (htext : ofText text = style) :
    style.isVerbatim text = true := by
  unfold ofText at htext
  cases hfind : [basic, literal, longBasic, longLiteral].find? fun style =>
      style.isVerbatim text with
  | none =>
      rw [hfind, Option.getD_none] at htext
      rcases hstyle with rfl | rfl
      all_goals split at htext <;> cases htext
  | some found =>
      rw [hfind, Option.getD_some] at htext
      subst htext
      simpa using List.find?_some hfind

theorem ofText_nil : ofText [] = basic := rfl

end QuoteStyle

theorem dropLineEnd_of_head {c : Char} (hfeed : c ≠ '\n') (hreturn : c ≠ '\r') (rest : List Char) :
    dropLineEnd (c :: rest) = c :: rest := by
  rw [dropLineEnd]
  · simp [hfeed]
  · simp [hreturn]

theorem string?_basic {rest : List Char} (hrest : NoQuote '"' rest) (text : List Char) :
    string? ('"' :: (text.flatMap escape ++ '"' :: rest)) = some (text, rest) := by
  rw [string?, basic?_flatMap_escape]
  intro more heq
  cases text with
  | nil =>
      obtain ⟨-, rfl⟩ := List.cons.inj heq
      exact hrest '"' rfl rfl
  | cons c text =>
      obtain ⟨d, tail, hescape, hd, -⟩ := escape_eq_cons c
      rw [List.flatMap_cons, hescape] at heq
      exact hd (List.cons.inj heq).1

theorem string?_literal {text : List Char} (hne : text ≠ [])
    (hverbatim : QuoteStyle.literal.isVerbatim text = true) (rest : List Char) :
    string? ('\x27' :: (text ++ '\x27' :: rest)) = some (text, rest) := by
  have hplain : ∀ c ∈ text, isPlain c = true ∧ c ≠ '\x27' := by
    simp [QuoteStyle.isVerbatim] at hverbatim
    obtain ⟨hplain, hquote, hline⟩ := hverbatim
    intro c hc
    refine ⟨(hplain c hc).resolve_right ?_, ?_⟩
    · rintro rfl
      exact hline hc
    · rintro rfl
      exact hquote hc
  rw [string?, literal?_verbatim hplain]
  intro more heq
  cases text with
  | nil => contradiction
  | cons c text => exact (hplain c List.mem_cons_self).2 (List.cons.inj heq).1

/-- The line end behind the opening quotes is the one that the writer put there. -/
theorem dropLineEnd_leadIn {text behind : List Char}
    (hbehind : text.contains '\n' = false → dropLineEnd behind = behind) :
    dropLineEnd (leadIn text ++ behind) = behind := by
  unfold leadIn
  split
  next => rfl
  next hline => exact hbehind (by simpa using hline)

theorem string?_longBasic {rest : List Char} (hrest : NoQuote '"' rest) (text : List Char) :
    string? ('"' :: '"' :: '"' :: (leadIn text ++ (longBasicBody 0 text ++
      '"' :: '"' :: '"' :: rest))) = some (text, rest) := by
  have hlead : dropLineEnd (leadIn text ++ (longBasicBody 0 text ++ '"' :: '"' :: '"' :: rest)) =
      longBasicBody 0 text ++ '"' :: '"' :: '"' :: rest := by
    apply dropLineEnd_leadIn
    intro hline
    cases text with
    | nil => exact dropLineEnd_of_head (by decide) (by decide) _
    | cons c text =>
        have hc : c ≠ '\n' := by
          rintro rfl
          simp at hline
        by_cases hquote : c = '"'
        · subst hquote
          exact dropLineEnd_of_head (by decide) (by decide) _
        · obtain ⟨d, tail, hescape, -, hfeed, hreturn⟩ := escape_eq_cons c
          rw [longBasicBody, if_neg hquote, if_neg hc, hescape]
          exact dropLineEnd_of_head hfeed hreturn _
  rw [string?, longBasic?_eq, hlead]
  exact longBasicText?_longBasicBody hrest (Nat.zero_le 2) text

theorem string?_longLiteral {rest : List Char} (hrest : NoQuote '\x27' rest) {text : List Char}
    (hverbatim : QuoteStyle.longLiteral.isVerbatim text = true) :
    string? ('\x27' :: '\x27' :: '\x27' :: (leadIn text ++ (text ++
      '\x27' :: '\x27' :: '\x27' :: rest))) = some (text, rest) := by
  simp only [QuoteStyle.isVerbatim, Bool.and_eq_true, List.all_eq_true, decide_eq_true_eq]
    at hverbatim
  obtain ⟨hplain, hrun⟩ := hverbatim
  have hlead : dropLineEnd (leadIn text ++ (text ++ '\x27' :: '\x27' :: '\x27' :: rest)) =
      text ++ '\x27' :: '\x27' :: '\x27' :: rest := by
    apply dropLineEnd_leadIn
    intro hline
    cases text with
    | nil => exact dropLineEnd_of_head (by decide) (by decide) _
    | cons c text =>
        have hc : c ≠ '\n' := by
          rintro rfl
          simp at hline
        have hplain := hplain c List.mem_cons_self
        simp only [Bool.or_eq_true, beq_iff_eq, hc, or_false] at hplain
        exact dropLineEnd_of_head hc (isPlain_ne hplain).2 _
  rw [string?, longLiteral?, hlead]
  exact longLiteralBody?_verbatim hrest hplain hrun

theorem string?_quote (text : String) {rest : List Char} (hbasic : NoQuote '"' rest)
    (hliteral : NoQuote '\x27' rest) : string? (quote text ++ rest) = some (text.toList, rest) := by
  simp only [quote]
  generalize text.toList = chars
  cases hstyle : QuoteStyle.ofText chars with
  | basic => simpa using string?_basic hbasic chars
  | literal =>
      have hverbatim := QuoteStyle.isVerbatim_of_ofText (.inl rfl) hstyle
      have hne : chars ≠ [] := by
        rintro rfl
        rw [QuoteStyle.ofText_nil] at hstyle
        cases hstyle
      simpa using string?_literal hne hverbatim rest
  | longBasic => simpa using string?_longBasic hbasic chars
  | longLiteral =>
      have hverbatim := QuoteStyle.isVerbatim_of_ofText (.inr rfl) hstyle
      simpa using string?_longLiteral hliteral hverbatim

end ChainRegistry.Toml
