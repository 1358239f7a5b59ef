import ChainRegistry.Document.Toml.Reader
import ChainRegistry.Proofs.Toml.Numbers
import ChainRegistry.Proofs.Toml.Strings

/-!
# Values of TOML read back

A value is a scalar or a list of scalars.  What a reader accepts begins with none of the characters
that stand between the items of a list, so the layout of a list is passed over as it was written.
-/

namespace ChainRegistry.Toml

/-! ## Scalars -/

theorem value?_of_number {text : List Char} {read : Node × List Char}
    (hread : number? text = some read) (allowance levels : Nat) :
    value? (allowance + 1) levels text = some read := by
  unfold value?
  split
  all_goals
    first
    | exact hread
    | (simp [number?, date?_of_not_digit, decimal?, digits?] at hread)

theorem value?_of_string {text chars rest : List Char} (hread : string? text = some (chars, rest))
    (allowance levels : Nat) :
    value? (allowance + 1) levels text = some (.text (String.ofList chars), rest) := by
  unfold value?
  split
  next => rw [hread, Option.map_some]
  next => rw [hread, Option.map_some]
  next => simp [string?] at hread
  next => simp [string?] at hread
  next => simp [string?] at hread
  next => simp [string?] at hread
  next =>
    unfold string? at hread
    split at hread
    all_goals simp_all

theorem EndsValue.noQuote {rest : List Char} (hrest : EndsValue rest) :
    NoQuote '"' rest ∧ NoQuote '\x27' rest := by
  obtain ⟨c, behind, rfl, hc⟩ := hrest
  have hends : ∀ c ∈ ['\n', ',', ']'], c ≠ '"' ∧ c ≠ '\x27' := by simp
  obtain ⟨hbasic, hliteral⟩ := hends c hc
  constructor
  · intro d hd
    obtain rfl : c = d := by simpa using hd
    exact hbasic
  · intro d hd
    obtain rfl : c = d := by simpa using hd
    exact hliteral

theorem value?_scalarText {node : Node} {text : List Char} (htext : scalarText? node = some text)
    {rest : List Char} (hrest : EndsValue rest) (allowance levels : Nat) :
    value? (allowance + 1) levels (text ++ rest) = some (node, rest) := by
  cases node with
  | bool b =>
      obtain rfl := Option.some.inj htext
      cases b <;> simp [value?]
  | int i =>
      simp only [scalarText?] at htext
      split at htext
      next hfits =>
        obtain rfl := Option.some.inj htext
        exact value?_of_number (spellsNumber_ofInt hfits rest hrest) allowance levels
      next => cases htext
  | float x =>
      obtain rfl := Option.some.inj htext
      exact value?_of_number (spellsNumber_write x rest hrest) allowance levels
  | text s =>
      obtain rfl := Option.some.inj htext
      have hread := string?_quote s hrest.noQuote.1 hrest.noQuote.2
      rw [value?_of_string hread, String.ofList_toList]
  | _ => cases htext

/-! ## Lists -/

/-- A value begins with no blank, line end or comment, and with no bracket that closes a list. -/
theorem value?_eq_none {c : Char} (hc : c ∈ [' ', '\t', '\n', '\r', '#', ']'])
    (allowance levels : Nat) (text : List Char) : value? allowance levels (c :: text) = none := by
  cases allowance with
  | zero => rfl
  | succ allowance =>
      simp only [List.mem_cons, List.not_mem_nil, or_false] at hc
      rcases hc with rfl | rfl | rfl | rfl | rfl | rfl
      all_goals simp [value?, number?, date?_of_not_digit, decimal?, digits?]

theorem skipLayout_of_value? {allowance levels : Nat} {text : List Char} {read : Node × List Char}
    (hread : value? allowance levels text = some read) : skipLayout false text = text := by
  cases text with
  | nil => rfl
  | cons c text =>
      have hc : c ∉ [' ', '\t', '\n', '\r', '#', ']'] := by
        intro hc
        rw [value?_eq_none hc] at hread
        cases hread
      simp only [List.mem_cons, List.not_mem_nil, or_false, not_or] at hc
      obtain ⟨hspace, htab, hfeed, hreturn, hcomment, -⟩ := hc
      have hblank : isBlank c = false := by simp [isBlank, hspace, htab]
      rw [skipLayout, hblank, if_neg (by decide), if_neg hcomment]
      · simp [hfeed]
      · simp [hreturn]

theorem ne_closing_of_value? {allowance levels : Nat} {text : List Char} {read : Node × List Char}
    (hread : value? allowance levels text = some read) (more : List Char) : text ≠ ']' :: more := by
  rintro rfl
  rw [value?_eq_none (by decide)] at hread
  cases hread

section Items

variable {allowance levels : Nat} {text behind more rest : List Char} {item : Node}

theorem items?_last (hitem : value? allowance levels text = some (item, behind))
    (hclose : skipLayout false behind = ']' :: rest) :
    items? (allowance + 1) levels text = some ([item], rest) := by
  simp [items?, hitem, hclose]

theorem items?_lastComma (hitem : value? allowance levels text = some (item, behind))
    (hcomma : skipLayout false behind = ',' :: more)
    (hclose : skipLayout false more = ']' :: rest) :
    items? (allowance + 1) levels text = some ([item], rest) := by
  simp [items?, hitem, hcomma, hclose]

theorem items?_more {next : List Char} {items : List Node}
    (hitem : value? allowance levels text = some (item, behind))
    (hcomma : skipLayout false behind = ',' :: more) (hnext : skipLayout false more = next)
    (hopen : ∀ tail, next ≠ ']' :: tail)
    (hitems : items? allowance levels next = some (items, rest)) :
    items? (allowance + 1) levels text = some (item :: items, rest) := by
  simp only [items?, hitem, Option.bind_eq_bind, Option.bind_some, hcomma, hnext, hitems]

theorem value?_list {items : List Node} (hopen : skipLayout false text = more)
    (hnext : ∀ tail, more ≠ ']' :: tail)
    (hitems : items? allowance levels more = some (items, rest)) :
    value? (allowance + 1) (levels + 1) ('[' :: text) = some (.list items, rest) := by
  simp only [value?, hopen, hitems, Option.map_some]

end Items

theorem skipLayout_indent {allowance levels : Nat} {text : List Char} {read : Node × List Char}
    (hread : value? allowance levels text = some read) :
    skipLayout false ("\n    ".toList ++ text) = text := by
  have hskip := skipLayout_of_value? hread
  simpa [skipLayout, isBlank] using hskip

theorem skipLayout_comma (rest : List Char) : skipLayout false (',' :: rest) = ',' :: rest := by
  simp [skipLayout, isBlank]

theorem skipLayout_closing (rest : List Char) : skipLayout false (']' :: rest) = ']' :: rest := by
  simp [skipLayout, isBlank]

theorem skipLayout_lineEnd (rest : List Char) :
    skipLayout false ('\n' :: rest) = skipLayout false rest := by
  rw [skipLayout]

/-- An item on a line of its own. -/
def itemLine (text : List Char) : List Char :=
  "\n    ".toList ++ text ++ [',']

theorem items?_lines {levels : Nat} {rest : List Char} {items : List Node}
    {texts : List (List Char)} (htexts : items.mapM scalarText? = some texts) {item : Node}
    {text : List Char} (htext : scalarText? item = some text) {allowance : Nat}
    (hallowance : texts.length + 2 ≤ allowance) :
    items? allowance levels (text ++ ',' :: (texts.flatMap itemLine ++ '\n' :: ']' :: rest)) =
      some (item :: items, rest) := by
  induction items generalizing texts item text allowance with
  | nil =>
      obtain rfl : texts = [] := by simpa using htexts.symm
      obtain ⟨less, rfl⟩ : ∃ less, allowance = less + 2 := ⟨allowance - 2, by omega⟩
      have hclose : skipLayout false ([].flatMap itemLine ++ '\n' :: ']' :: rest) = ']' :: rest :=
        (skipLayout_lineEnd _).trans (skipLayout_closing rest)
      exact items?_lastComma (value?_scalarText htext (endsValue_cons (by decide) _) less levels)
        (skipLayout_comma _) hclose
  | cons next items ih =>
      rw [List.mapM_cons] at htexts
      simp only [Option.bind_eq_bind, Option.bind_eq_some_iff, Option.pure_def,
        Option.some.injEq] at htexts
      obtain ⟨nextText, hnext, texts, htexts, rfl⟩ := htexts
      rw [List.length_cons] at hallowance
      obtain ⟨less, rfl⟩ : ∃ less, allowance = less + 2 := ⟨allowance - 2, by omega⟩
      have hmore := ih htexts hnext (show texts.length + 2 ≤ less + 1 by omega)
      have hread := value?_scalarText hnext (endsValue_cons (c := ',') (by decide)
        (texts.flatMap itemLine ++ '\n' :: ']' :: rest)) less levels
      have hline : (nextText :: texts).flatMap itemLine ++ '\n' :: ']' :: rest =
          "\n    ".toList ++
            (nextText ++ ',' :: (texts.flatMap itemLine ++ '\n' :: ']' :: rest)) := by
        simp [itemLine]
      rw [hline]
      exact items?_more (value?_scalarText htext (endsValue_cons (by decide) _) less levels)
        (skipLayout_comma _) (skipLayout_indent hread) (ne_closing_of_value? hread) hmore

theorem length_le_flatMap_itemLine (texts : List (List Char)) :
    texts.length ≤ (texts.flatMap itemLine).length := by
  induction texts with
  | nil => exact Nat.le_refl 0
  | cons text texts ih =>
      simp only [List.flatMap_cons, List.length_append, List.length_cons, itemLine]
      omega

theorem value?_listText {levels : Nat} {rest : List Char} {item : Node} {items : List Node}
    {text : List Char} {texts : List (List Char)} (htext : scalarText? item = some text)
    (htexts : items.mapM scalarText? = some texts) {allowance : Nat}
    (hallowance : (listText (text :: texts)).length + 1 ≤ allowance) :
    value? (allowance + 1) (levels + 1) (listText (text :: texts) ++ rest) =
      some (.list (item :: items), rest) := by
  cases texts with
  | nil =>
      obtain rfl : items = [] := by
        cases items with
        | nil => rfl
        | cons next items => simp [List.mapM_cons, Option.bind_eq_some_iff] at htexts
      simp only [listText, List.length_append, List.length_cons, List.length_nil] at hallowance
      obtain ⟨less, rfl⟩ : ∃ less, allowance = less + 2 := ⟨allowance - 2, by omega⟩
      have hread := value?_scalarText htext (endsValue_cons (c := ']') (by decide) rest) less levels
      simp only [listText, List.cons_append, List.append_assoc, List.nil_append]
      exact value?_list (skipLayout_of_value? hread) (ne_closing_of_value? hread)
        (items?_last hread (skipLayout_closing rest))
  | cons next texts =>
      have hform : listText (text :: next :: texts) =
          '[' :: (itemLine text ++ ((next :: texts).flatMap itemLine ++ ['\n', ']'])) := by
        have hlines : listText (text :: next :: texts) =
            '[' :: (text :: next :: texts).flatMap itemLine ++ ['\n', ']'] := rfl
        rw [hlines, List.flatMap_cons, List.cons_append, List.append_assoc]
      have hlength : (next :: texts).length + 2 ≤ allowance := by
        have hlines := length_le_flatMap_itemLine (next :: texts)
        rw [hform] at hallowance
        simp only [List.length_append, List.length_cons] at hallowance hlines ⊢
        omega
      have hread := value?_scalarText htext (endsValue_cons (c := ',') (by decide)
        ((next :: texts).flatMap itemLine ++ '\n' :: ']' :: rest)) (allowance - 1) levels
      rw [hform]
      simp only [itemLine, List.cons_append, List.append_assoc, List.nil_append]
      exact value?_list (skipLayout_indent hread) (ne_closing_of_value? hread)
        (items?_lines htexts htext hlength)

theorem value?_valueText {node : Node} {text : List Char} (htext : valueText? node = some text)
    {rest : List Char} (hrest : EndsValue rest) {allowance : Nat}
    (hallowance : text.length + 2 ≤ allowance) (levels : Nat) :
    value? allowance (levels + 1) (text ++ rest) = some (node, rest) := by
  obtain ⟨less, rfl⟩ : ∃ less, allowance = less + 1 := ⟨allowance - 1, by omega⟩
  cases node with
  | list items =>
      obtain ⟨texts, htexts, rfl⟩ := Option.map_eq_some_iff.mp htext
      cases items with
      | nil =>
          obtain rfl : texts = [] := by simpa using htexts.symm
          simp [listText, value?, skipLayout_closing]
      | cons item items =>
          rw [List.mapM_cons] at htexts
          simp only [Option.bind_eq_bind, Option.bind_eq_some_iff, Option.pure_def,
            Option.some.injEq] at htexts
          obtain ⟨itemText, hitem, texts, htexts, rfl⟩ := htexts
          exact value?_listText hitem htexts (by omega)
  | _ =>
      refine value?_scalarText ?_ hrest _ _
      simpa only [valueText?] using htext

end ChainRegistry.Toml
