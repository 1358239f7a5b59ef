import ChainRegistry.Document.Toml.Numbers
import ChainRegistry.Document.Toml.Writer
import ChainRegistry.Proofs.Numerals

/-!
# Numbers of TOML read back

A written number is followed by a line end, a comma or a closing bracket.  It is no date to the
reader, and it is read back as it was: an integer if it fits its sixty-four bits, a float without
exception, since the shortest decimal of a double is nearest to no other double.
-/

namespace ChainRegistry.Toml

open Numeral

/-- What follows a value in a written document. -/
def EndsValue (rest : List Char) : Prop :=
  ∃ c behind, rest = c :: behind ∧ c ∈ ['\n', ',', ']']

theorem endsValue_cons {c : Char} (hc : c ∈ ['\n', ',', ']']) (rest : List Char) :
    EndsValue (c :: rest) :=
  ⟨c, rest, rfl, hc⟩

theorem EndsValue.noDigit {rest : List Char} (hrest : EndsValue rest) : NoDigit rest := by
  obtain ⟨c, behind, rfl, hc⟩ := hrest
  have hends : ∀ c ∈ ['\n', ',', ']'], c.isDigit = false := by simp
  exact noDigit_cons (hends c hc) behind

/-! ## Dates -/

theorem date?_of_not_digit {c : Char} (hc : c.isDigit = false) (text : List Char) :
    date? (c :: text) = none := by
  unfold date?
  split
  next heq =>
    obtain ⟨rfl, -⟩ := List.cons.inj heq
    simp [hc]
  next heq =>
    obtain ⟨rfl, -⟩ := List.cons.inj heq
    simp [hc]
  next => rfl

/-- Digits are only taken for the beginning of a date in front of a hyphen or a colon. -/
theorem date?_of_digits {digits : List Char} (hdigits : ∀ c ∈ digits, c.isDigit = true) {c : Char}
    (hdigit : c.isDigit = false) (hhyphen : c ≠ '-') (hcolon : c ≠ ':') (rest : List Char) :
    date? (digits ++ c :: rest) = none := by
  unfold date?
  split
  next a b d e tail heq =>
    apply if_neg
    intro hall
    rcases digits with _ | ⟨a', _ | ⟨b', _ | ⟨d', _ | ⟨e', _ | ⟨f', digits⟩⟩⟩⟩⟩
    all_goals simp_all
  next a b tail _ heq =>
    apply if_neg
    intro hall
    rcases digits with _ | ⟨a', _ | ⟨b', _ | ⟨d', digits⟩⟩⟩
    all_goals simp_all
  next => rfl

/-! ## Digits -/

theorem isDigit_ne_underscore {c : Char} (hc : c.isDigit = true) : c ≠ '_' := by
  rintro rfl
  contradiction

theorem moreDigits?_digits {digits rest : List Char} (hdigits : ∀ c ∈ digits, c.isDigit = true)
    (hrest : NoDigit rest) (hunderscore : rest.head? ≠ some '_') :
    moreDigits? Char.isDigit (digits ++ rest) = some (digits, rest) := by
  induction digits with
  | nil =>
      cases rest with
      | nil => rfl
      | cons c rest =>
          have hc : c ≠ '_' := by simpa using hunderscore
          rw [List.nil_append, moreDigits?, if_neg (by simp [hrest c rfl]), if_neg hc]
          intro d tail heq
          exact absurd heq hc
  | cons c digits ih =>
      obtain ⟨hc, hdigits⟩ := List.forall_mem_cons.mp hdigits
      rw [List.cons_append, moreDigits?, if_pos hc, ih hdigits]
      · rfl
      · intro d tail heq
        exact absurd heq (isDigit_ne_underscore hc)

theorem digits?_digits {digits rest : List Char} (hne : digits ≠ [])
    (hdigits : ∀ c ∈ digits, c.isDigit = true) (hrest : NoDigit rest)
    (hunderscore : rest.head? ≠ some '_') :
    digits? Char.isDigit (digits ++ rest) = some (digits, rest) := by
  cases digits with
  | nil => contradiction
  | cons c digits =>
      obtain ⟨hc, hdigits⟩ := List.forall_mem_cons.mp hdigits
      simp [digits?, hc, moreDigits?_digits hdigits hrest hunderscore]

/-! ## Numbers after their sign -/

/-- A character that may follow the whole part of a written number. -/
def EndsWhole (rest : List Char) : Prop :=
  ∃ c behind, rest = c :: behind ∧ c ∈ ['\n', ',', ']', '.']

theorem EndsValue.endsWhole {rest : List Char} (hrest : EndsValue rest) : EndsWhole rest := by
  obtain ⟨c, behind, rfl, hc⟩ := hrest
  have hmem : ∀ c ∈ ['\n', ',', ']'], c ∈ ['\n', ',', ']', '.'] := by simp
  exact ⟨c, behind, rfl, hmem c hc⟩

theorem endsWhole_point (rest : List Char) : EndsWhole ('.' :: rest) :=
  ⟨'.', rest, rfl, by decide⟩

theorem EndsWhole.noDigit {rest : List Char} (hrest : EndsWhole rest) : NoDigit rest := by
  obtain ⟨c, behind, rfl, hc⟩ := hrest
  have hends : ∀ c ∈ ['\n', ',', ']', '.'], c.isDigit = false := by simp
  exact noDigit_cons (hends c hc) behind

theorem EndsWhole.head?_ne {rest : List Char} (hrest : EndsWhole rest) {c : Char}
    (hc : c ∉ ['\n', ',', ']', '.']) : rest.head? ≠ some c := by
  obtain ⟨d, behind, rfl, hd⟩ := hrest
  intro heq
  obtain rfl : d = c := by simpa using heq
  exact hc hd

theorem decimal?_whole (negative : Bool) {whole rest : List Char} (hwhole : IsWhole whole)
    (hrest : EndsWhole rest) :
    decimal? negative (whole ++ rest) = afterWhole? negative whole rest := by
  have hunderscore := hrest.head?_ne (c := '_') (by decide)
  cases whole with
  | nil => exact absurd rfl hwhole.ne_nil
  | cons c more =>
      have hdigit := hwhole.digits c List.mem_cons_self
      by_cases hzero : c = '0'
      · subst hzero
        obtain rfl : more = [] := by simpa using hwhole.plain rfl
        rfl
      · have hread := digits?_digits hwhole.ne_nil hwhole.digits hrest.noDigit hunderscore
        rw [decimal?, hread]
        · rfl
        all_goals
          intros
          simp_all

theorem afterWhole?_ends (negative : Bool) (whole : List Char) {rest : List Char}
    (hrest : EndsValue rest) :
    afterWhole? negative whole rest =
      (integerNode? negative (Nat.ofDigitChars 10 whole 0)).map fun node => (node, rest) := by
  obtain ⟨c, behind, rfl, hc⟩ := hrest
  simp only [List.mem_cons, List.not_mem_nil, or_false] at hc
  rcases hc with rfl | rfl | rfl <;> rfl

theorem afterWhole?_fraction (negative : Bool) (whole : List Char) {fraction rest : List Char}
    (hne : fraction ≠ []) (hdigits : ∀ c ∈ fraction, c.isDigit = true) (hrest : EndsValue rest) :
    afterWhole? negative whole ('.' :: (fraction ++ rest)) =
      (floatNode? negative (Decimal.ofParts whole fraction 0)).map fun node => (node, rest) := by
  have hunderscore := hrest.endsWhole.head?_ne (c := '_') (by decide)
  have hread := digits?_digits hne hdigits hrest.noDigit hunderscore
  obtain ⟨c, behind, rfl, hc⟩ := hrest
  simp only [List.mem_cons, List.not_mem_nil, or_false] at hc
  rcases hc with rfl | rfl | rfl
  all_goals simp [afterWhole?, hread, afterFraction?]

theorem number?_minus (text : List Char) : number? ('-' :: text) = decimal? true text := by
  simp [number?, date?_of_not_digit]

theorem number?_whole {whole rest : List Char} (hwhole : IsWhole whole) (hrest : EndsWhole rest) :
    number? (whole ++ rest) = decimal? false (whole ++ rest) := by
  have hdate : date? (whole ++ rest) = none := by
    obtain ⟨c, behind, rfl, hc⟩ := hrest
    have hends : ∀ c ∈ ['\n', ',', ']', '.'], c.isDigit = false ∧ c ≠ '-' ∧ c ≠ ':' := by simp
    obtain ⟨hdigit, hhyphen, hcolon⟩ := hends c hc
    exact date?_of_digits hwhole.digits hdigit hhyphen hcolon behind
  unfold number?
  rw [hdate]
  cases whole with
  | nil => exact absurd rfl hwhole.ne_nil
  | cons c more =>
      have hdigit := hwhole.digits c List.mem_cons_self
      by_cases hzero : c = '0'
      · subst hzero
        obtain rfl : more = [] := by simpa using hwhole.plain rfl
        obtain ⟨d, behind, rfl, hd⟩ := hrest
        simp only [List.mem_cons, List.not_mem_nil, or_false] at hd
        rcases hd with rfl | rfl | rfl | rfl <;> rfl
      · simp only [List.cons_append]
        split
        all_goals simp_all

/-! ## Written numbers -/

/-- A text stands for a node in front of everything that follows a value. -/
def SpellsNumber (text : List Char) (node : Node) : Prop :=
  ∀ rest, EndsValue rest → number? (text ++ rest) = some (node, rest)

theorem spellsNumber_signed {whole behind : List Char} {node : Node} (negative : Bool)
    (hwhole : IsWhole whole) (hbehind : ∀ rest, EndsValue rest → EndsWhole (behind ++ rest))
    (hread : ∀ rest, EndsValue rest →
      afterWhole? negative whole (behind ++ rest) = some (node, rest)) :
    SpellsNumber (if negative then '-' :: (whole ++ behind) else whole ++ behind) node := by
  intro rest hrest
  have hends := hbehind rest hrest
  cases negative with
  | true =>
      rw [if_pos rfl, List.cons_append, number?_minus, List.append_assoc,
        decimal?_whole true hwhole hends]
      exact hread rest hrest
  | false =>
      rw [if_neg (by decide), List.append_assoc, number?_whole hwhole hends,
        decimal?_whole false hwhole hends]
      exact hread rest hrest

theorem spellsNumber_ofInt {i : Int} (hfits : isSigned64 i = true) :
    SpellsNumber (ofInt i) (.int i) := by
  have htext : ofInt i =
      if decide (i < 0) then '-' :: (ofNat i.natAbs ++ []) else ofNat i.natAbs ++ [] := by
    simp [ofInt]
  have hvalue : (if decide (i < 0) then -(i.natAbs : Int) else i.natAbs) = i := by
    simp only [decide_eq_true_eq]
    split <;> omega
  rw [htext]
  refine spellsNumber_signed _ (ofNat_isWhole i.natAbs) (fun rest hrest => hrest.endsWhole) ?_
  intro rest hrest
  rw [List.nil_append, afterWhole?_ends _ _ hrest, ofDigitChars_ofNat]
  simp only [integerNode?, hvalue, hfits, if_true, Option.map_some]

theorem floatNode?_eq {negative : Bool} {m : Fin (infinityPattern + 1)}
    (hfinite : m.val < infinityPattern) {d : Decimal} (hd : d.pattern = m.val) :
    floatNode? negative d = some (.float (.signed negative m)) := by
  have hvalue : Binary64.ofDecimal negative d = .signed negative m := by
    rw [Binary64.ofDecimal]
    congr 1
    exact Fin.ext hd
  have hne : Binary64.signed negative m ≠ .infinity false := by
    intro heq
    simp only [Binary64.infinity, Binary64.signed.injEq] at heq
    rw [heq.2] at hfinite
    exact Nat.lt_irrefl _ hfinite
  simp [floatNode?, hvalue, hne]

theorem spellsNumber_write (x : Binary64) : SpellsNumber (floatForm.write x) (.float x) := by
  cases x with
  | nan =>
      intro rest _
      simp [FloatForm.write, floatForm, number?, date?_of_not_digit, decimal?]
  | signed negative m =>
      simp only [FloatForm.write]
      split
      next hinfinite =>
        obtain rfl : m = Fin.last infinityPattern := Fin.ext hinfinite
        intro rest _
        cases negative <;>
          simp [floatForm, number?, date?_of_not_digit, decimal?, Binary64.infinity]
      next hne =>
        have hfinite : m.val < infinityPattern := by omega
        have hpattern := Binary64.pattern_shortest floatForm.tie hfinite
        obtain ⟨whole, fraction, htext, hwhole, hfraction, hdigits, hvalue⟩ :=
          FloatForm.positionalText_spelled floatForm rfl
            (FloatForm.exponent_shortest floatForm.tie hfinite)
        have hform : floatForm.writeDecimal (Binary64.shortest floatForm.tie m.val) =
            whole ++ '.' :: fraction := htext
        simp only [hform]
        refine spellsNumber_signed negative hwhole (fun rest _ => endsWhole_point _) ?_
        intro rest hrest
        rw [List.cons_append, afterWhole?_fraction negative whole hfraction hdigits hrest,
          floatNode?_eq hfinite ((hvalue (by omega)).trans hpattern), Option.map_some]

end ChainRegistry.Toml
