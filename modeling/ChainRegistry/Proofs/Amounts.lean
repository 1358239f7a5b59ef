import ChainRegistry.Proofs.Numerals
import ChainRegistry.Proofs.RecordTexts
import ChainRegistry.Proofs.TomlRoundTrip
import Mathlib.Data.Nat.Digits.Defs

/-!
# Amounts as numerals

An amount is given by a text and by nothing else.  The text has decimal digits, at least one of
them, and perhaps one plus sign in front; zeros may lead, and the digits may be as many as they like
as long as their number fits sixty-four bits.  Bounds on amounts are read from all four of their
amounts, each under its name or at its place, and from no other document.  What is written for them
is read as the same bounds, in JSON and in TOML.
-/

namespace ChainRegistry

/-! ## Digits and their number -/

namespace Numeral

def digitValue (c : Char) : Nat :=
  c.toNat - '0'.toNat

/-- Decimal digits and the number that they stand for, in which each digit counts by its place. -/
structure IsDigitsOf (digits : List Char) (n : Nat) : Prop where
  ne_nil : digits ≠ []
  ascii : ∀ c ∈ digits, '0' ≤ c ∧ c ≤ '9'
  value : Nat.ofDigits 10 (digits.reverse.map digitValue) = n

/-- A text that gives a natural number: digits, behind one plus sign at most. -/
def Gives (text : List Char) (n : Nat) : Prop :=
  ∃ digits, IsDigitsOf digits n ∧ (text = digits ∨ text = '+' :: digits)

theorem isDigit_iff (c : Char) : c.isDigit = true ↔ '0' ≤ c ∧ c ≤ '9' := by
  simp [Char.isDigit, Char.le_def]

/-- Reading from the left, ten times what is there and one digit more, comes to the places. -/
theorem ofDigitChars_eq_ofDigits (digits : List Char) :
    Nat.ofDigitChars 10 digits 0 = Nat.ofDigits 10 (digits.reverse.map digitValue) := by
  induction digits with
  | nil => rfl
  | cons c digits ih =>
      rw [Nat.ofDigitChars_cons, Nat.ofDigitChars_eq_ofDigitChars_zero, ih, List.reverse_cons,
        List.map_append, Nat.ofDigits_append, List.length_map, List.length_reverse]
      simp [digitValue, Nat.add_comm]

theorem natOfDigits?_eq_some_iff_isDigitsOf {digits : List Char} {n : Nat} :
    natOfDigits? digits = some n ↔ IsDigitsOf digits n := by
  rw [natOfDigits?_eq_some_iff, ofDigitChars_eq_ofDigits]
  simp only [isDigit_iff]
  constructor
  · rintro ⟨⟨hne, hascii⟩, hvalue⟩
    exact ⟨hne, hascii, hvalue⟩
  · intro h
    exact ⟨⟨h.ne_nil, h.ascii⟩, h.value⟩

theorem not_isDigitsOf_plus (digits : List Char) (n : Nat) : ¬ IsDigitsOf ('+' :: digits) n := by
  intro h
  exact absurd (h.ascii '+' List.mem_cons_self) (by decide)

theorem natOfText?_eq_some_iff {text : List Char} {n : Nat} :
    natOfText? text = some n ↔ Gives text n := by
  unfold natOfText?
  split
  next digits =>
    rw [natOfDigits?_eq_some_iff_isDigitsOf]
    constructor
    · exact fun h => ⟨digits, h, .inr rfl⟩
    · rintro ⟨_, h, rfl | hsame⟩
      · exact absurd h (not_isDigitsOf_plus digits n)
      · exact (List.cons.inj hsame).2 ▸ h
  next hplus =>
    rw [natOfDigits?_eq_some_iff_isDigitsOf]
    constructor
    · exact fun h => ⟨text, h, .inl rfl⟩
    · rintro ⟨digits, h, rfl | rfl⟩
      · exact h
      · exact absurd rfl (hplus digits)

theorem gives_ofNat (n : Nat) : Gives (ofNat n) n :=
  ⟨ofNat n, natOfDigits?_eq_some_iff_isDigitsOf.mp (natOfDigits?_ofNat n), .inl rfl⟩

end Numeral

/-! ## One amount -/

/-- A node that gives an amount. -/
def Node.IsAmount (node : Node) (amount : UInt64) : Prop :=
  ∃ text, node = .text text ∧ Numeral.Gives text.toList amount.toNat

theorem Scalar.amount?_eq_some_iff {node : Node} {amount : UInt64} :
    amount? node = some amount ↔ node.IsAmount amount := by
  cases node with
  | text s =>
      simp only [amount?, Option.map_eq_some_iff, Option.filter_eq_some_iff, decide_eq_true_eq,
        Numeral.natOfText?_eq_some_iff, Node.IsAmount, Node.text.injEq, exists_eq_left']
      constructor
      · rintro ⟨n, ⟨hgives, hlt⟩, rfl⟩
        rwa [UInt64.toNat_ofNat_of_lt' hlt]
      · exact fun hgives => ⟨amount.toNat, ⟨hgives, amount.toNat_lt_size⟩, UInt64.ofNat_toNat⟩
  | _ => simp [amount?, Node.IsAmount]

theorem Node.isAmount_write (amount : UInt64) : (Codec.amount.write amount).IsAmount amount :=
  ⟨_, rfl, by simpa using Numeral.gives_ofNat amount.toNat⟩

/-- A text is an amount exactly if its number is at most the largest word. -/
theorem Scalar.isSome_amount?_text (s : String) :
    (amount? (.text s)).isSome ↔ ∃ n ≤ 18446744073709551615, Numeral.Gives s.toList n := by
  simp only [Option.isSome_iff_exists, amount?_eq_some_iff, Node.IsAmount, Node.text.injEq,
    exists_eq_left']
  constructor
  · rintro ⟨amount, hgives⟩
    exact ⟨amount.toNat, Nat.le_of_lt_succ amount.toNat_lt_size, hgives⟩
  · rintro ⟨n, hle, hgives⟩
    refine ⟨.ofNat n, ?_⟩
    rwa [UInt64.toNat_ofNat_of_lt' (Nat.lt_succ_of_le hle)]

namespace AmountBounds

variable {bounds : AmountBounds} {origin : Origin}

/-- The amounts by name, in the order of their places. -/
def amounts (bounds : AmountBounds) : List (String × UInt64) :=
  [("max_uint64", bounds.representable), ("min_amount", bounds.least),
    ("max_transfer_amount", bounds.transfer), ("max_delegation", bounds.delegation)]

/-- A document that gives each of the four amounts, by name once or by place. -/
def GivenBy (bounds : AmountBounds) (origin : Origin) : Node → Prop
  | .table entries => ∀ amount ∈ bounds.amounts, ∃ node,
      Record.under amount.1 entries = [(amount.1, node)] ∧ node.IsAmount amount.2
  | .list items => ∃ nodes surplus, items = nodes ++ surplus ∧
      (origin = .json → surplus = []) ∧
        List.Forall₂ (fun node amount => node.IsAmount amount.2) nodes bounds.amounts
  | _ => False

section Entries

variable {entries : List (String × Node)} {name : String}

theorem exists_amount_of_given? {amount? : Option UInt64}
    (hgiven : Record.given? .amount origin name entries = some amount?)
    (hmentioned : Record.under name entries ≠ []) :
    ∃ amount, amount? = some amount ∧
      ∃ node, Record.under name entries = [(name, node)] ∧ node.IsAmount amount := by
  obtain ⟨amount, rfl, node, hunder, hread⟩ := Record.exists_of_given? hgiven hmentioned
  exact ⟨amount, rfl, node, hunder, Scalar.amount?_eq_some_iff.mp hread⟩

theorem given?_of_isAmount {node : Node} {amount : UInt64}
    (hunder : Record.under name entries = [(name, node)]) (hamount : node.IsAmount amount) :
    Record.given? .amount origin name entries = some (some amount) :=
  Record.given?_eq_some_iff.mpr ⟨node, hunder, Scalar.amount?_eq_some_iff.mpr hamount⟩

theorem read?_table_iff :
    codec.read? origin (.table entries) = some bounds ↔ bounds.GivenBy origin (.table entries) := by
  change Record.readWhole? fields reference origin (.table entries) = some bounds ↔ _
  rw [Record.readWhole?, Option.ite_none_right_eq_some, Record.mentionsAll_table]
  simp only [GivenBy, amounts, fields, Record.readOver?, Record.readEntries?_of,
    Record.readEntries?_done, List.forall_mem_cons, List.not_mem_nil, false_implies, implies_true,
    and_true, Option.bind_eq_some_iff]
  constructor
  · -- Every amount is mentioned, so what is given for it is a value.
    rintro ⟨⟨hnameA, hnameB, hnameC, hnameD⟩, _, ha, _, hb, _, hc, _, hd, hsame⟩
    obtain ⟨representable, rfl, hrepresentable⟩ := exists_amount_of_given? ha hnameA
    obtain ⟨least, rfl, hleast⟩ := exists_amount_of_given? hb hnameB
    obtain ⟨transfer, rfl, htransfer⟩ := exists_amount_of_given? hc hnameC
    obtain ⟨delegation, rfl, hdelegation⟩ := exists_amount_of_given? hd hnameD
    obtain rfl := Option.some.inj hsame
    exact ⟨hrepresentable, hleast, htransfer, hdelegation⟩
  · rintro ⟨⟨_, hunderA, ha⟩, ⟨_, hunderB, hb⟩, ⟨_, hunderC, hc⟩, _, hunderD, hd⟩
    refine ⟨⟨?_, ?_, ?_, ?_⟩, _, given?_of_isAmount hunderA ha, _, given?_of_isAmount hunderB hb,
      _, given?_of_isAmount hunderC hc, _, given?_of_isAmount hunderD hd, rfl⟩
    all_goals simp [Field.of, hunderA, hunderB, hunderC, hunderD]

end Entries

theorem read?_list_iff {items : List Node} :
    codec.read? origin (.list items) = some bounds ↔ bounds.GivenBy origin (.list items) := by
  change Record.readWhole? fields reference origin (.list items) = some bounds ↔ _
  rw [Record.readWhole?, Option.ite_none_right_eq_some]
  constructor
  · rintro ⟨hlength, hread⟩
    match items, hlength, hread with
    | a :: b :: c :: d :: surplus, _, hread =>
      simp only [Record.readOver?, fields, Record.readItems?, Field.of, Codec.amount,
        Option.bind_eq_some_iff, Option.map_eq_some_iff, Scalar.amount?_eq_some_iff] at hread
      obtain ⟨_, ⟨_, ha, rfl⟩, _, ⟨_, hb, rfl⟩, _, ⟨_, hc, rfl⟩, _, ⟨_, hd, rfl⟩, hread⟩ := hread
      obtain ⟨hsurplus, rfl⟩ := Record.readItems?_done_iff.mp hread
      exact ⟨[a, b, c, d], surplus, rfl, hsurplus, .cons ha (.cons hb (.cons hc (.cons hd .nil)))⟩
  · rintro ⟨_, surplus, rfl, hsurplus, hnodes⟩
    rcases hnodes with _ | ⟨ha, _ | ⟨hb, _ | ⟨hc, _ | ⟨hd, ⟨⟩⟩⟩⟩⟩
    refine ⟨by simp [Record.mentionsAll, fields], ?_⟩
    simp only [List.cons_append, List.nil_append, Record.readOver?, fields, Record.readItems?,
      Field.of, Codec.amount, Scalar.amount?_eq_some_iff.mpr ha, Scalar.amount?_eq_some_iff.mpr hb,
      Scalar.amount?_eq_some_iff.mpr hc, Scalar.amount?_eq_some_iff.mpr hd, Option.map_some,
      Option.bind_some]
    exact Record.readItems?_done_iff.mpr ⟨hsurplus, rfl⟩

theorem read?_eq_some_iff {node : Node} :
    codec.read? origin node = some bounds ↔ bounds.GivenBy origin node := by
  cases node with
  | table entries => exact read?_table_iff
  | list items => exact read?_list_iff
  | _ => simp [codec, Codec.whole, Record.readWhole?, Record.mentionsAll, GivenBy]

/-! ## What is written -/

theorem write_eq (bounds : AmountBounds) :
    codec.write bounds =
      .table (bounds.amounts.map fun amount => (amount.1, Codec.amount.write amount.2)) :=
  rfl

theorem givenBy_write (bounds : AmountBounds) (origin : Origin) :
    bounds.GivenBy origin (codec.write bounds) := by
  rw [write_eq]
  have hunder : ∀ amount ∈ bounds.amounts,
      Record.under amount.1
          (bounds.amounts.map fun amount => (amount.1, Codec.amount.write amount.2)) =
        [(amount.1, Codec.amount.write amount.2)] := by
    simp [amounts, Record.under]
  intro amount hamount
  exact ⟨_, hunder amount hamount, Node.isAmount_write amount.2⟩

theorem read?_write (bounds : AmountBounds) (origin : Origin) :
    codec.read? origin (codec.write bounds) = some bounds :=
  read?_eq_some_iff.mpr (givenBy_write bounds origin)

theorem readBack_write (bounds : AmountBounds) :
    Json.readBack (codec.write bounds) = codec.write bounds := by
  simp [write_eq, Codec.amount, Json.readBack, Json.readBackEntries_eq_map, Function.comp_def]

theorem parse?_print?_toml (bounds : AmountBounds) :
    ∃ text, Toml.print? (codec.write bounds) = some text ∧
      Toml.parse? text = some (codec.write bounds) := by
  let r : Registry := { Registry.reference with amounts := bounds }
  have hscalar : ∀ field ∈ fields, (field.write bounds).isScalar = true :=
    (Registry.sealed_scalars r).2
  have htext : ∀ field ∈ fields, (Toml.valueText? (field.write bounds)).isSome :=
    (Registry.sealed_texts r).2
  obtain ⟨hdepth, hvalues⟩ := Registry.flat_write hscalar htext
  have htidy : (codec.write bounds).IsTidy :=
    Record.write_tidy (by decide) (by decide) fun field hfield =>
      .of_isScalar (hscalar field hfield)
  obtain ⟨text, hprint⟩ := Option.isSome_iff_exists.mp ((Toml.isSome_print? _).mpr hvalues)
  refine ⟨text, hprint, ?_⟩
  have hflat : Toml.arrange (codec.write bounds) = codec.write bounds := by
    rw [write_eq]
    exact Toml.arrange_of_flat (List.forall_mem_map.mpr fun _ _ => rfl)
  rw [Toml.parse?_print? htidy (Nat.le_trans hdepth (by decide)) hprint, hflat]

theorem parse?_print? (bounds : AmountBounds) (layout : Json.Layout) (format : Format) :
    (codec.print? layout format bounds).bind (codec.parse? format) = some bounds := by
  cases format with
  | json =>
      rw [Codec.parse?_print?_json layout (readBack_write bounds)]
      exact read?_write bounds .json
  | toml =>
      obtain ⟨text, hprint, hparse⟩ := parse?_print?_toml bounds
      simp only [Codec.print?, Codec.parse?, hprint, hparse, Option.bind_some]
      exact read?_write bounds .toml

/-- An amount is read from a text whose digits, behind one plus sign at most, give it, and from
nothing else, and every number that fits sixty-four bits is an amount.  Bounds are read from
documents that give their four amounts, and any bounds come back from what is written for them. -/
theorem amounts_as_numerals (format : Format) :
    (∀ node amount, Codec.amount.read? format.origin node = some amount ↔ node.IsAmount amount) ∧
      (∀ text, (Codec.amount.read? format.origin (.text text)).isSome ↔
        ∃ n ≤ 18446744073709551615, Numeral.Gives text.toList n) ∧
      (∀ node bounds, codec.read? format.origin node = some bounds ↔
        bounds.GivenBy format.origin node) ∧
      ∀ bounds, codec.read? format.origin (codec.write bounds) = some bounds ∧
        ∀ layout, (codec.print? layout format bounds).bind (codec.parse? format) = some bounds := by
  refine ⟨?_, ?_, ?_, fun bounds => ⟨?_, fun layout => ?_⟩⟩
  · exact fun node amount => Scalar.amount?_eq_some_iff
  · exact Scalar.isSome_amount?_text
  · exact fun node bounds => read?_eq_some_iff
  · exact read?_write bounds format.origin
  · exact parse?_print? bounds layout format

end AmountBounds

end ChainRegistry
