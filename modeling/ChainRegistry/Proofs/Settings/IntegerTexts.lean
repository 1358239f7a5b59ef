import ChainRegistry.Proofs.Binary64.Words
import ChainRegistry.Proofs.Numerals
import ChainRegistry.Proofs.RegistryPositions
import ChainRegistry.Proofs.Settings.PolicyTexts
import ChainRegistry.Proofs.Validity

/-!
# Whole numbers from the environment

The digits of a variable are taken for a signed number of sixty-four bits if they fit, and for a
double otherwise, before anything knows that the field is a word.  A word is then made of the double
again.  Whatever number the text names, the field has the number that survives this: the number
itself below `2 ^ 63`, and the nearest multiple of 2048 from there on, held at the largest word.
-/

namespace ChainRegistry

open Binary64 (heldWord heldWord_lt)

/-! ## Digits -/

namespace Numeral

theorem ne_cons_of_natOfDigits? {digits : List Char} {n : Nat} (h : natOfDigits? digits = some n)
    {c : Char} (hc : c.isDigit = false) (rest : List Char) : digits ≠ c :: rest := by
  rintro rfl
  have hdigit := (natOfDigits?_eq_some_iff.mp h).1.2 c List.mem_cons_self
  rw [hc] at hdigit
  contradiction

/-- A text for an integer is made of digits, perhaps with a sign in front of them. -/
theorem digits_of_intOfText? {text : List Char} {i : Int} (h : intOfText? text = some i) :
    ∃ digits n, natOfDigits? digits = some n ∧
      (text = '-' :: digits ∧ i = -n ∨ (text = '+' :: digits ∨ text = digits) ∧ i = n) := by
  unfold intOfText? at h
  split at h
  all_goals obtain ⟨value, hvalue, rfl⟩ := Option.map_eq_some_iff.mp h
  · obtain ⟨n, hdigits, hsame⟩ := Option.bind_eq_some_iff.mp hvalue
    obtain rfl : (n : Int) = value := Option.some.inj hsame
    exact ⟨_, n, hdigits, .inl ⟨rfl, rfl⟩⟩
  · exact ⟨_, value, hvalue, .inr ⟨.inl rfl, rfl⟩⟩
  · exact ⟨_, value, hvalue, .inr ⟨.inr rfl, rfl⟩⟩

end Numeral

/-- Digits have no case. -/
theorem map_toLower_digits {digits : List Char} (hdigits : ∀ c ∈ digits, c.isDigit = true) :
    digits.map Char.toLower = digits := by
  refine (List.map_congr_left fun c hc => ?_).trans (List.map_id digits)
  have hbounds := hdigits c hc
  simp only [Char.isDigit, Bool.and_eq_true, decide_eq_true_eq] at hbounds
  have hupper : ¬ (c.val ≥ 'A'.val ∧ c.val ≤ 'Z'.val) := by
    rintro ⟨hlow, -⟩
    have hlow : 65 ≤ c.val.toNat := hlow
    have hdigit : c.val.toNat ≤ 57 := hbounds.2
    omega
  rw [Char.toLower, dif_neg hupper, id]

namespace Binary64

open Numeral (intOfText? natOfDigits? ne_cons_of_natOfDigits?)

theorem decimalOfText?_digits {digits : List Char} {n : Nat}
    (h : natOfDigits? digits = some n) : decimalOfText? digits = some ⟨n, 0⟩ := by
  obtain ⟨⟨hne, hdigits⟩, hvalue⟩ := Numeral.natOfDigits?_eq_some_iff.mp h
  have hwhole : digits.takeWhile Char.isDigit = digits := List.takeWhile_eq_self_iff.mpr hdigits
  have hrest : digits.dropWhile Char.isDigit = [] := List.dropWhile_eq_nil_iff.mpr hdigits
  simp [decimalOfText?, hwhole, hrest, hne, exponentOfText?, Decimal.ofParts, hvalue]

/-- Digits stand for the double nearest to their number. -/
theorem unsignedOfText?_digits {digits : List Char} {n : Nat}
    (h : natOfDigits? digits = some n) :
    unsignedOfText? false digits = some (ofDecimal false ⟨n, 0⟩) := by
  have hword : ∀ c rest, c.isDigit = false → String.ofList digits ≠ String.ofList (c :: rest) :=
    fun c rest hc heq => ne_cons_of_natOfDigits? h hc rest (String.ofList_injective heq)
  have hnan : String.ofList digits ≠ "nan" := hword 'n' ['a', 'n'] rfl
  have hinf : String.ofList digits ≠ "inf" := hword 'i' ['n', 'f'] rfl
  have hinfinity : String.ofList digits ≠ "infinity" :=
    hword 'i' ['n', 'f', 'i', 'n', 'i', 't', 'y'] rfl
  rw [unsignedOfText?, map_toLower_digits (Numeral.natOfDigits?_eq_some_iff.mp h).1.2]
  simp only [hnan, hinf, hinfinity, or_self, if_false, decimalOfText?_digits h, Option.map_some]

theorem ofText?_of_intOfText? {text : List Char} {n : Nat} (h : intOfText? text = some (n : Int))
    (hn : n ≠ 0) : ofText? text = some (ofNat n) := by
  have hdouble : ofDecimal false ⟨n, 0⟩ = ofNat n := by
    have hpattern : (Decimal.mk n 0).pattern = nearestPattern n 1 := by
      have hone : n * Nat.pow 10 0 = n := Nat.mul_one n
      exact (pattern_ofNat hn (Nat.zero_le 400)).trans (by rw [hone])
    simp only [ofDecimal, ofNat, ofQuotient, hpattern]
  obtain ⟨digits, m, hdigits, ⟨-, hvalue⟩ | ⟨htext, hvalue⟩⟩ := Numeral.digits_of_intOfText? h
  · omega
  · obtain rfl : n = m := Int.ofNat.inj hvalue
    rcases htext with rfl | rfl
    · rw [ofText?, unsignedOfText?_digits hdigits, hdouble]
    · unfold ofText?
      split
      next => exact absurd rfl (ne_cons_of_natOfDigits? hdigits (by decide) _)
      next => exact absurd rfl (ne_cons_of_natOfDigits? hdigits (by decide) _)
      next => rw [unsignedOfText?_digits hdigits, hdouble]

end Binary64

/-! ## Retention -/

namespace Registry

/-- Only one finding looks at the retention. -/
theorem mem_findings_of_retention {r : Registry} {retention : UInt64}
    {finding : Option Violation}
    (hfinding : finding ∈ ({ r with auditRetentionMs := retention } : Registry).findings) :
    finding ∈ r.findings ∨ finding = positive retention.toNat "audit_retention_ms" := by
  have hfractions : fractionFindings { r with auditRetentionMs := retention } =
      r.fractionFindings := rfl
  have hthroughput : throughputFinding { r with auditRetentionMs := retention } =
      r.throughputFinding := rfl
  simp only [findings, hfractions, hthroughput, List.mem_append, List.mem_cons,
    List.not_mem_nil, or_false] at hfinding ⊢
  tauto

theorem violation?_of_retention {r : Registry} (hvalid : r.violation? = none)
    {retention : UInt64} (hretention : retention ≠ 0) :
    ({ r with auditRetentionMs := retention } : Registry).violation? = none := by
  rw [violation?_eq_none_iff] at hvalid ⊢
  intro finding hfinding
  rcases mem_findings_of_retention hfinding with hmem | rfl
  · exact hvalid finding hmem
  · exact positive_word64_iff.mpr hretention

end Registry

/-! ## The number that a field is given -/

namespace Settings

open Registry (leaves reference)

variable {readers : Readers}

/-- A text for an integer is no word for yes or no. -/
theorem fold_ne_of_intOfText? {text : String} {i : Int}
    (h : Numeral.intOfText? text.toList = some i) {word : List Char}
    (hword : ∀ c ∈ word, c.isDigit = false) : Text.fold text ≠ String.ofList word := by
  obtain ⟨digits, n, hdigits, htext⟩ := Numeral.digits_of_intOfText? h
  obtain ⟨hne, hdigits⟩ := (Numeral.natOfDigits?_eq_some_iff.mp hdigits).1
  obtain ⟨c, hc⟩ := List.exists_mem_of_ne_nil digits hne
  have hmem : c ∈ text.toList := by
    rcases htext with ⟨htext, -⟩ | ⟨htext | htext, -⟩ <;> rw [htext]
    · exact List.mem_cons_of_mem _ hc
    · exact List.mem_cons_of_mem _ hc
    · exact hc
  have hplain : isPlainChar c = true := by simp [isPlainChar, hdigits c hc]
  intro hsame
  have hchars : text.toList.map Text.foldChar = word := String.ofList_injective hsame
  have hfold : c ∈ word :=
    hchars ▸ List.mem_map.mpr ⟨c, hmem, foldChar_of_isPlainChar hplain⟩
  have hdigit := hword c hfold
  rw [hdigits c hc] at hdigit
  contradiction

/-- The node of a natural number is an integer as long as it fits, and else a double. -/
theorem valueOfText_of_intOfText? {text : String} {n : Nat}
    (h : Numeral.intOfText? text.toList = some (n : Int)) :
    valueOfText text = if n < 2 ^ 63 then .int n else .float (.ofNat n) := by
  have htrue : Text.fold text ≠ "true" :=
    @fold_ne_of_intOfText? text _ h ['t', 'r', 'u', 'e'] (by simp)
  have hfalse : Text.fold text ≠ "false" :=
    @fold_ne_of_intOfText? text _ h ['f', 'a', 'l', 's', 'e'] (by simp)
  have hsigned : Numeral.isSigned64 (n : Int) = decide (n < 2 ^ 63) := by
    have hsize : (Numeral.signedSize : Int) = 2 ^ 63 := rfl
    simp only [Numeral.isSigned64, hsize, ← Bool.decide_and]
    exact decide_eq_decide.mpr (by omega)
  rw [valueOfText]
  simp only [htrue, hfalse, if_false, h, Option.filter, hsigned,
    decide_eq_true_eq]
  by_cases hsmall : n < 2 ^ 63
  · simp only [if_pos hsmall]
  · have hn : n ≠ 0 := by omega
    simp only [if_neg hsmall, Binary64.ofText?_of_intOfText? h hn]

theorem natural?_valueOfText {text : String} {n : Nat}
    (h : Numeral.intOfText? text.toList = some (n : Int)) :
    Scalar.natural? .settings UInt64.size (valueOfText text) = some (heldWord n) := by
  have hread : Scalar.naturalInSettings? (valueOfText text) = some (heldWord n) := by
    rw [valueOfText_of_intOfText? h]
    split_ifs with hsmall
    · rw [heldWord, if_pos hsmall, Scalar.naturalInSettings?, if_pos (Int.natCast_nonneg n),
        Int.toNat_natCast]
    · exact congrArg some (Binary64.toNatSaturating_ofNat (Nat.le_of_not_lt hsmall))
  simp [Scalar.natural?, hread, Option.filter, heldWord_lt]

/-- Wherever the number stands in the settings that a registry was read from, the leaf there has
what it is held as. -/
theorem get_of_intOfText? {tree : Node} {r : Registry} {leaf : Leaf Registry} {text : String}
    {n : Nat} (hread : Registry.codec.read? .settings tree = some r) (hleaf : leaf ∈ leaves)
    (hkind : leaf.kind = .number UInt64.size) (hat : tree.at? leaf.path = some (valueOfText text))
    (hn : Numeral.intOfText? text.toList = some (n : Int)) : leaf.get r = .number (heldWord n) := by
  have hgiven : leaf.given? tree = some (valueOfText text) :=
    Leaf.given?_of_not_null hat (isScalar_valueOfText text).2
  have hvalue := Registry.codec_heeds .settings tree r hread leaf hleaf _ hgiven
  rw [hkind, LeafKind.read?, natural?_valueOfText hn, Option.map_some] at hvalue
  exact (Option.some.inj hvalue).symm

/-! ## Loads -/

/-- The joined settings have a text in the place of a leaf, as they are or once every record in them
is written by name. -/
inductive IsSetTo (sources : Sources readers) (path? : Option String) (leaf : Leaf Registry)
    (text : String) : Prop where
  | asGiven {joined : Node} (hsettings : settings sources path? = .ok joined)
    (hat : joined.at? leaf.path = some (valueOfText text)) : IsSetTo sources path? leaf text
  | byName {joined : Node} (hsettings : settings sources path? = .ok joined)
    (hat : (Registry.shape.named .settings joined).at? leaf.path = some (valueOfText text)) :
    IsSetTo sources path? leaf text

theorem isSetTo_of_assigned? {sources : Sources readers} {path? : Option String}
    {entries : List (String × Node)} (hfile : fileEntries? sources path? = some entries)
    (hkeys : ∀ key ∈ (Node.table entries).keys, isPlain key = true)
    (hsections : HasSections (normal (.table entries)))
    (hnames : NamesFields sources.environment) {leaf : Leaf Registry} (hleaf : leaf ∈ leaves)
    {text : String} (hassigned : assigned? sources.environment leaf.path = some text) :
    IsSetTo sources path? leaf text := by
  have hlayer : IsLayer (normal (.table entries)) := ⟨isSettled_normal hkeys, hsections⟩
  have hat := (putEnvironment_spec hnames hlayer).2 leaf.path (Registry.path_mem_fieldPaths hleaf)
  rw [hassigned] at hat
  exact .asGiven (settings_of_layers hfile hlayer hnames) hat

theorem get_of_isSetTo {sources : Sources readers} {path? : Option String} {r : Registry}
    (hload : (load sources path?).result = .ok r) {leaf : Leaf Registry} (hleaf : leaf ∈ leaves)
    (hkind : leaf.kind = .number UInt64.size) {text : String} {n : Nat}
    (hset : IsSetTo sources path? leaf text) (hn : Numeral.intOfText? text.toList = some (n : Int)) :
    leaf.get r = .number (heldWord n) := by
  obtain ⟨joined, hjoined, hregistry⟩ := load_result_eq_ok_iff.mp hload
  have hread : Registry.codec.read? .settings joined = some r :=
    (registryOf_eq_ok_iff.mp hregistry).1
  cases hset with
  | asGiven hsettings hat =>
      obtain rfl := Except.ok.inj (hjoined.symm.trans hsettings)
      exact get_of_intOfText? hread hleaf hkind hat hn
  | byName hsettings hat =>
      obtain rfl := Except.ok.inj (hjoined.symm.trans hsettings)
      have hnamed : Registry.codec.read? .settings (Registry.shape.named .settings joined) =
          some r :=
        (Registry.positional.codec_readsNamed .settings joined).trans hread
      exact get_of_intOfText? hnamed hleaf hkind hat hn

theorem load_of_retention {sources : Sources readers} {name text : String} {n : Nat}
    (hname : Text.fold name = Text.fold "ALN__AUDIT_RETENTION_MS")
    (honly : overrides sources.environment = [(name, text)])
    (hn : Numeral.intOfText? text.toList = some (n : Int)) (hpos : n ≠ 0) :
    (load sources none).result =
      .ok { reference with auditRetentionMs := .ofNat (heldWord n) } := by
  have hpath : ["audit_retention_ms"] ∈ Registry.fieldPaths := by decide +kernel
  have hplace : pathOfName? name = some ["audit_retention_ms"] := by
    apply pathOfName?_eq_some hpath
    rw [hname]
    decide +kernel
  have hread : Registry.codec.read? .settings
      (setAt (valueOfText text) ["audit_retention_ms"] (.table [])) =
        some { reference with auditRetentionMs := .ofNat (heldWord n) } := by
    simp [Registry.codec, Record.readOver?, setAt, alter, entriesOf, Registry.openSections,
      Record.readEntries?, Registry.auditField, Registry.blocksField, Registry.votingField,
      Registry.passingField, Registry.chatField, Registry.jurisdictionsField,
      Registry.throughputField, Registry.policiesField, Registry.endpointsField,
      Registry.quotasField, Field.of, Codec.word64, natural?_valueOfText hn]
  have hheld : UInt64.ofNat (heldWord n) ≠ 0 := by
    intro hzero
    have hvalue := congrArg UInt64.toNat hzero
    rw [UInt64.toNat_ofNat_of_lt' (heldWord_lt n)] at hvalue
    exact Binary64.heldWord_ne_zero hpos hvalue
  rw [load_result_of_settings (settings_of_variable hpath hplace honly), registryOf_eq_ok_iff]
  exact ⟨hread, Registry.violation?_of_retention (by decide +kernel) hheld⟩

/-- A variable whose text names a natural number.  A load for the retention alone succeeds, and
whatever load succeeds with the variable set to a word has it as the number that is held, which is
the number itself below `2 ^ 63` and above that only at the multiples of 2048 and the largest
word. -/
theorem whole_number_of_variable {text : String} {n : Nat}
    (hn : Numeral.intOfText? text.toList = some (n : Int)) :
    (∀ {readers : Readers} (sources : Sources readers) name,
      Text.fold name = Text.fold "ALN__AUDIT_RETENTION_MS" →
      overrides sources.environment = [(name, text)] → n ≠ 0 →
        ∃ r, (load sources none).result = .ok r ∧
          r = { reference with auditRetentionMs := r.auditRetentionMs } ∧
          r.auditRetentionMs.toNat = heldWord n) ∧
    (∀ {readers : Readers} (sources : Sources readers) path? r,
      (load sources path?).result = .ok r → ∀ leaf ∈ leaves,
      leaf.kind = .number UInt64.size → IsSetTo sources path? leaf text →
        leaf.get r = .number (heldWord n)) ∧
    (∀ {readers : Readers} (sources : Sources readers) path? entries,
      fileEntries? sources path? = some entries →
      (∀ key ∈ (Node.table entries).keys, isPlain key = true) →
      HasSections (normal (.table entries)) → NamesFields sources.environment →
        ∀ leaf ∈ leaves, assigned? sources.environment leaf.path = some text →
          IsSetTo sources path? leaf text) ∧
    (heldWord n = n ↔ n < 2 ^ 63 ∨ n < 2 ^ 64 ∧ 2048 ∣ n ∨ n = 2 ^ 64 - 1) := by
  refine ⟨?_, ?_, ?_, Binary64.heldWord_eq_self_iff n⟩
  · intro readers sources name hname honly hpos
    refine ⟨_, load_of_retention hname honly hn hpos, rfl, ?_⟩
    exact UInt64.toNat_ofNat_of_lt' (heldWord_lt n)
  · intro readers sources path? r hload leaf hleaf hkind hset
    exact get_of_isSetTo hload hleaf hkind hset hn
  · intro readers sources path? entries hfile hkeys hsections hnames leaf hleaf hassigned
    exact isSetTo_of_assigned? hfile hkeys hsections hnames hleaf hassigned

/-- One variable for the retention, beside one that changes nothing. -/
def retentionSources (text : String) : Sources where
  read? _ := none
  environment := [("HOME", "/root"), ("ALN__AUDIT_RETENTION_MS", text)]

/-- The first number beyond the signed ones that a double cannot hold loses its last digit. -/
theorem odd_retention_is_rounded :
    overrides (retentionSources "9223372036854775809").environment =
        [("ALN__AUDIT_RETENTION_MS", "9223372036854775809")] ∧
      Numeral.intOfText? "9223372036854775809".toList = some 9223372036854775809 ∧
      ∃ r, (load (retentionSources "9223372036854775809") none).result = .ok r ∧
        r.auditRetentionMs.toNat = 9223372036854775808 := by
  let r : Registry := { reference with auditRetentionMs := 9223372036854775808 }
  have hload : (load (retentionSources "9223372036854775809") none).result = .ok r :=
    eq_ok_of_toOption (by decide +kernel)
  exact ⟨by decide +kernel, by decide +kernel, r, hload, rfl⟩

/-- A variable for the highest gas price. -/
def priceSources : Sources where
  read? _ := none
  environment := [("aln__network__gas_price__maximum", "18446744073709551615")]

/-- A multiple of 2048 and the largest word are held as they are. -/
theorem even_retention_and_largest_price :
    (∃ r, (load (retentionSources "9223372036854777856") none).result = .ok r ∧
      r.auditRetentionMs.toNat = 9223372036854777856) ∧
    ∃ r, (load priceSources none).result = .ok r ∧
      r.blocks.gasPrice.highest.toNat = 18446744073709551615 := by
  constructor
  · have hn : Numeral.intOfText? "9223372036854777856".toList =
        some (9223372036854777856 : Nat) := by
      decide +kernel
    obtain ⟨hretention, -, -, hexact⟩ := whole_number_of_variable hn
    obtain ⟨r, hload, -, hvalue⟩ := hretention (retentionSources "9223372036854777856")
      "ALN__AUDIT_RETENTION_MS" rfl (by decide +kernel) (by decide)
    exact ⟨r, hload, hvalue.trans (hexact.mpr (by decide))⟩
  · have hn : Numeral.intOfText? "18446744073709551615".toList =
        some (18446744073709551615 : Nat) := by
      decide +kernel
    obtain ⟨-, hget, hset, hexact⟩ := whole_number_of_variable hn
    have hnames : NamesFields priceSources.environment := ⟨by decide +kernel, by decide +kernel⟩
    let leaf : Leaf Registry := Registry.leaves[8]
    have hleaf : leaf ∈ leaves := List.getElem_mem _
    have hset : IsSetTo priceSources none leaf "18446744073709551615" :=
      hset priceSources none [] rfl (by decide) (by decide +kernel) hnames leaf hleaf
        (by decide +kernel)
    let r : Registry := { reference with
      blocks := { BlockRules.reference with
        gasPrice := { GasTariff.reference with highest := 18446744073709551615 } } }
    have hload : (load priceSources none).result = .ok r :=
      eq_ok_of_toOption (by decide +kernel)
    have hvalue := hget priceSources none r hload leaf hleaf rfl hset
    exact ⟨r, hload, (LeafValue.number.inj hvalue).trans (hexact.mpr (by decide))⟩

end Settings

end ChainRegistry
