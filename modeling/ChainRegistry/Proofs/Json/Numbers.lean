import ChainRegistry.Document.Json.Reader
import ChainRegistry.Document.Json.Writer
import ChainRegistry.Proofs.Numerals

/-!
# Numbers of JSON read back

A number is read as far as it can be continued.  A written number therefore gives the same node in
front of everything that does not continue it, be that the end of the text, a comma, a line end or a
closing bracket.
-/

namespace ChainRegistry.Json

open Numeral

/-- No character follows that would continue a number. -/
def EndsNumber (rest : List Char) : Prop :=
  ∀ c ∈ rest.head?, c.isDigit = false ∧ c ≠ '.' ∧ c ≠ 'e' ∧ c ≠ 'E'

theorem EndsNumber.noDigit {rest : List Char} (hrest : EndsNumber rest) : NoDigit rest :=
  fun c hc => (hrest c hc).1

theorem endsNumber_nil : EndsNumber [] :=
  fun _ hc => nomatch hc

theorem endsNumber_cons {c : Char}
    (hc : c.isDigit = false ∧ c ≠ '.' ∧ c ≠ 'e' ∧ c ≠ 'E') (rest : List Char) :
    EndsNumber (c :: rest) := by
  intro d hd
  obtain rfl : c = d := by simpa using hd
  exact hc

/-! ## Parts of a number -/

theorem fraction?_of_noPoint {rest : List Char} (hrest : rest.head? ≠ some '.') :
    fraction? rest = some (none, rest) := by
  rw [fraction?]
  intro tail heq
  simp [heq] at hrest

theorem fraction?_point {fraction rest : List Char} (hne : fraction ≠ [])
    (hdigits : ∀ c ∈ fraction, c.isDigit = true) (hrest : NoDigit rest) :
    fraction? ('.' :: fraction ++ rest) = some (some fraction, rest) := by
  simp only [List.cons_append, fraction?, takeWhile_digits hdigits hrest,
    dropWhile_digits hdigits hrest, if_neg hne]

theorem exponent?_of_ends {rest : List Char} (hrest : EndsNumber rest) :
    exponent? rest = some (none, rest) := by
  cases rest with
  | nil => rfl
  | cons c rest =>
      obtain ⟨-, -, he, hE⟩ := hrest c (by simp)
      simp [exponent?, he, hE]

theorem signedExponent?_ofNat (negative : Bool) (n : Nat) {rest : List Char}
    (hrest : NoDigit rest) :
    signedExponent? negative (ofNat n ++ rest) =
      some (some (if negative then -(n : Int) else n), rest) := by
  have hdigits := (ofNat_isWhole n).digits
  simp only [signedExponent?, takeWhile_digits hdigits hrest, dropWhile_digits hdigits hrest,
    ofDigitChars_ofNat, if_neg (ofNat_ne_nil n)]

theorem exponent?_signedText (power : Int) {rest : List Char} (hrest : NoDigit rest) :
    exponent? ('e' :: FloatForm.signedText power ++ rest) = some (some power, rest) := by
  by_cases hnegative : power < 0
  · have hpower : -(power.natAbs : Int) = power := by omega
    have hread := signedExponent?_ofNat true power.natAbs hrest
    rw [if_pos rfl, hpower] at hread
    simp [exponent?, FloatForm.signedText, ofInt, hnegative, hread]
  · have hpower : (power.natAbs : Int) = power := by omega
    have hread := signedExponent?_ofNat false power.natAbs hrest
    rw [if_neg Bool.false_ne_true, hpower] at hread
    simp [exponent?, FloatForm.signedText, ofInt, hnegative, hread]

/-! ## Numbers after their sign -/

/-- The node of a number from its parts. -/
def numberNode (negative : Bool) (whole : List Char) : Option (List Char) → Option Int → Node
  | none, none => integerNode negative whole
  | fraction, power =>
    floatNode negative (leadingDecimal whole (fraction.getD []) (power.getD 0))

theorem number?_of_parts {whole rest behind rest' : List Char} (negative : Bool)
    (hwhole : IsWhole whole) (hrest : NoDigit rest) {fraction : Option (List Char)}
    (hfraction : fraction? rest = some (fraction, behind)) {power : Option Int}
    (hpower : exponent? behind = some (power, rest')) :
    number? negative (whole ++ rest) = some (numberNode negative whole fraction power, rest') := by
  have hplain : ¬(whole = [] ∨ (whole.head? = some '0' ∧ whole ≠ ['0'])) := by
    rintro (hnil | ⟨hzero, hmore⟩)
    · exact hwhole.ne_nil hnil
    · exact hmore (hwhole.plain hzero)
  simp only [number?, takeWhile_digits hwhole.digits hrest, dropWhile_digits hwhole.digits hrest,
    hfraction, hpower, if_neg hplain, Option.bind_eq_bind, Option.bind_some]
  cases fraction <;> cases power <;> rfl

/-! ## Written numbers -/

/-- A text stands for a node in front of everything that does not continue a number. -/
def Spells (text : List Char) (node : Node) : Prop :=
  ∀ rest, EndsNumber rest → ∀ allowance, value? (allowance + 1) (text ++ rest) = some (node, rest)

theorem value?_digit {c : Char} (hc : c.isDigit = true) (allowance : Nat) (text : List Char) :
    value? (allowance + 1) (c :: text) = number? false (c :: text) := by
  have hblank : isBlank c = false := by
    apply Bool.eq_false_iff.mpr
    intro hblank
    simp only [isBlank, Bool.or_eq_true, beq_iff_eq] at hblank
    rcases hblank with ((rfl | rfl) | rfl) | rfl <;> contradiction
  have hskip : skipBlanks (c :: text) = c :: text := by simp [skipBlanks, hblank]
  rw [value?, hskip]
  split
  all_goals
    first
    | rfl
    | (injection ‹_› with hhead; subst hhead; contradiction)

theorem value?_minus (allowance : Nat) (text : List Char) :
    value? (allowance + 1) ('-' :: text) = number? true text := by
  simp [value?, skipBlanks, isBlank]

theorem spells_null : Spells "null".toList .null := by
  intro rest _ allowance
  simp [value?, skipBlanks, isBlank]

/-- A text without a sign stands for a node, given the sign in front of it. -/
structure SpellsAfterSign (negative : Bool) (text : List Char) (node : Node) : Prop where
  head : ∃ c ∈ text.head?, c.isDigit = true
  read : ∀ rest, EndsNumber rest → number? negative (text ++ rest) = some (node, rest)

theorem SpellsAfterSign.spells {negative : Bool} {text : List Char} {node : Node}
    (htext : SpellsAfterSign negative text node) :
    Spells (if negative then '-' :: text else text) node := by
  intro rest hrest allowance
  have hread := htext.read rest hrest
  cases negative with
  | true =>
      rw [if_pos rfl, List.cons_append, value?_minus]
      exact hread
  | false =>
      obtain ⟨c, hc, hdigit⟩ := htext.head
      cases text with
      | nil => cases hc
      | cons d text =>
          obtain rfl : d = c := by simpa using hc
          rw [if_neg (by decide), List.cons_append, value?_digit hdigit]
          exact hread

/-- The node that a written integer is read back as. -/
def integerBack (i : Int) : Node :=
  integerNode (decide (i < 0)) (ofNat i.natAbs)

theorem spells_ofInt (i : Int) : Spells (ofInt i) (integerBack i) := by
  have hwhole := ofNat_isWhole i.natAbs
  have htext : ofInt i = if decide (i < 0) then '-' :: ofNat i.natAbs else ofNat i.natAbs := by
    simp [ofInt]
  rw [htext]
  refine SpellsAfterSign.spells ⟨by simpa using hwhole.head [], ?_⟩
  intro rest hrest
  have hpoint : rest.head? ≠ some '.' := fun hhead => (hrest '.' hhead).2.1 rfl
  exact number?_of_parts _ hwhole hrest.noDigit (fraction?_of_noPoint hpoint)
    (exponent?_of_ends hrest)

theorem integerBack_eq {i : Int} (hlow : -(signedSize : Int) ≤ i) (hhigh : i < UInt64.size) :
    integerBack i = .int i := by
  unfold integerBack integerNode
  simp only [ofDigitChars_ofNat]
  by_cases hnegative : i < 0
  · have hsize : 0 < i.natAbs ∧ i.natAbs ≤ signedSize := by omega
    have hvalue : -(i.natAbs : Int) = i := by omega
    simp only [hnegative, decide_true, if_true, if_pos hsize, hvalue]
  · have hsize : i.natAbs < UInt64.size := by omega
    have hvalue : (i.natAbs : Int) = i := by omega
    simp only [hnegative, decide_false, if_pos hsize, hvalue]
    rfl

theorem spells_positionalText (negative : Bool) {d : Decimal}
    (hplain : d.digits = 0 → d.exponent = 0) :
    ∃ node,
      SpellsAfterSign negative (floatForm.positionalText (ofNat d.digits) d.exponent) node := by
  obtain ⟨whole, fraction, htext, hwhole, hne, hdigits, -⟩ :=
    FloatForm.positionalText_spelled floatForm rfl hplain
  refine ⟨numberNode negative whole (some fraction) none, ?_, ?_⟩
  · rw [htext]
    exact hwhole.head _
  · intro rest hrest
    rw [htext, List.append_assoc]
    exact number?_of_parts negative hwhole (noDigit_cons (by decide) _)
      (fraction?_point hne hdigits hrest.noDigit) (exponent?_of_ends hrest)

theorem spells_exponentText (negative : Bool) (n : Nat) (exponent : Int) :
    ∃ node, SpellsAfterSign negative (FloatForm.exponentText (ofNat n) exponent) node := by
  have hdigits := (ofNat_isWhole n).digits
  generalize hpower : ((ofNat n).length : Int) + exponent - 1 = power
  have hread (rest : List Char) (hrest : EndsNumber rest) :
      exponent? ('e' :: FloatForm.signedText power ++ rest) = some (some power, rest) :=
    exponent?_signedText power hrest.noDigit
  cases htext : ofNat n with
  | nil => exact absurd htext (ofNat_ne_nil n)
  | cons c fraction =>
      rw [htext] at hdigits hpower
      have hwhole : IsWhole [c] := isWhole_singleton (hdigits c List.mem_cons_self)
      cases fraction with
      | nil =>
          have hform : FloatForm.exponentText [c] exponent =
              [c] ++ 'e' :: FloatForm.signedText power := by
            simp [FloatForm.exponentText, ← hpower]
          refine ⟨numberNode negative [c] none (some power), ?_, ?_⟩
          · rw [hform]
            exact hwhole.head _
          · intro rest hrest
            rw [hform, List.append_assoc]
            exact number?_of_parts negative hwhole (noDigit_cons (by decide) _)
              (fraction?_of_noPoint (by simp)) (hread rest hrest)
      | cons e fraction =>
          have hfraction : ∀ c ∈ e :: fraction, c.isDigit = true :=
            fun c hc => hdigits c (List.mem_cons_of_mem _ hc)
          have hform : FloatForm.exponentText (c :: e :: fraction) exponent =
              [c] ++ ('.' :: (e :: fraction) ++ 'e' :: FloatForm.signedText power) := by
            simp [FloatForm.exponentText, ← hpower]
          refine ⟨numberNode negative [c] (some (e :: fraction)) (some power), ?_, ?_⟩
          · rw [hform]
            exact hwhole.head _
          · intro rest hrest
            rw [hform, List.append_assoc, List.append_assoc]
            exact number?_of_parts negative hwhole (noDigit_cons (by decide) _)
              (fraction?_point (List.cons_ne_nil _ _) hfraction (noDigit_cons (by decide) _))
              (hread rest hrest)

theorem spells_writeDecimal (negative : Bool) {d : Decimal}
    (hplain : d.digits = 0 → d.exponent = 0) :
    ∃ node, SpellsAfterSign negative (floatForm.writeDecimal d) node := by
  simp only [FloatForm.writeDecimal]
  split
  next => exact spells_positionalText negative hplain
  next => exact spells_exponentText negative d.digits d.exponent

theorem spells_write (x : Binary64) : ∃ node, Spells (floatForm.write x) node := by
  cases x with
  | nan => exact ⟨.null, spells_null⟩
  | signed negative m =>
      simp only [FloatForm.write]
      split
      next => exact ⟨.null, spells_null⟩
      next hfinite =>
        have hlt : m.val < infinityPattern := by omega
        obtain ⟨node, hnode⟩ :=
          spells_writeDecimal negative (FloatForm.exponent_shortest floatForm.tie hlt)
        exact ⟨node, hnode.spells⟩

/-- The node that a written float is read back as. -/
def floatBack (x : Binary64) : Node :=
  (parse? (String.ofList (floatForm.write x))).getD .illegible

theorem Spells.parse? {text : List Char} {node : Node} (htext : Spells text node) :
    parse? (String.ofList text) = some node := by
  have hread := htext [] endsNumber_nil (2 * text.length + 1)
  have hblank : skipBlanks [] = [] := rfl
  rw [List.append_nil] at hread
  simp only [Json.parse?, String.toList_ofList, Option.bind_eq_bind, hread, Option.bind_some,
    hblank, if_true]

theorem spells_floatBack (x : Binary64) : Spells (floatForm.write x) (floatBack x) := by
  obtain ⟨node, hnode⟩ := spells_write x
  rw [floatBack, hnode.parse?]
  exact hnode

end ChainRegistry.Json
