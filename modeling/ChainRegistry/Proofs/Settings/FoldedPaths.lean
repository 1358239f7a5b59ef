import ChainRegistry.Proofs.Settings.Places

/-!
# Paths in lower case

A key that can be read as a path can be read as one in lower case too, and the path is the same with
its names in lower case.  The fold changes nothing but letters, so points, brackets, gaps and digits
stay where they are.  A key that is no path may yet become one, because the Kelvin sign stands in no
name but its lower-case form does.
-/

namespace ChainRegistry.Settings

/-! ## Characters -/

/-- A test that looks at no letters gives the same in lower case. -/
theorem test_foldChar {test : Char → Bool}
    (hfixed : ∀ c, test c = true → Text.foldChar c = c)
    (hlower : ∀ c, c.isLower = true → test c = false) (c : Char) :
    test (Text.foldChar c) = test c := by
  rcases foldChar_eq_self_or_isLower c with hself | hletter
  · rw [hself]
  · cases hc : test c with
    | true => rw [hfixed c hc, hc]
    | false => exact hlower _ hletter

theorem isDigit_foldChar (c : Char) : (Text.foldChar c).isDigit = c.isDigit := by
  refine test_foldChar (fun c hc => ?_) (fun c hc => ?_) c
  · exact foldChar_of_isPlainChar (by simp [isPlainChar, hc])
  · simp only [Char.isLower, Bool.and_eq_true, decide_eq_true_eq] at hc
    have hletter : 97 ≤ c.val.toNat := hc.1
    simp only [Char.isDigit, Bool.and_eq_false_iff, decide_eq_false_iff_not]
    right
    intro hdigit
    have hdigit : c.val.toNat ≤ 57 := hdigit
    omega

theorem isGap_foldChar (c : Char) : isGap (Text.foldChar c) = isGap c := by
  refine test_foldChar (fun c hc => ?_) (fun c hc => ?_) c
  · rcases (by simpa [isGap] using hc : c = ' ' ∨ c = '\t') with rfl | rfl <;> decide
  · cases hgap : isGap c with
    | false => rfl
    | true =>
        rcases (by simpa [isGap] using hgap : c = ' ' ∨ c = '\t') with rfl | rfl <;>
          revert hc <;> decide

theorem foldChar_eq_hyphen_iff (c : Char) : Text.foldChar c = '-' ↔ c = '-' := by
  have hsame : ((Text.foldChar c == '-') : Bool) = (c == '-') := by
    refine @test_foldChar (· == '-') (fun c hc => ?_) (fun c hc => ?_) c
    · rw [eq_of_beq hc]
      decide
    · rw [beq_eq_false_iff_ne]
      rintro rfl
      revert hc
      decide
  rw [← beq_iff_eq, hsame, beq_iff_eq]

theorem isNameChar_foldChar {c : Char} (hname : isNameChar c = true) :
    isNameChar (Text.foldChar c) = true := by
  rcases foldChar_eq_self_or_isPlainChar c with hself | hplain
  · rwa [hself]
  · exact isNameChar_of_isPlainChar hplain

theorem isNameChar_of_mem_folded {text : List Char} (hname : ∀ c ∈ text, isNameChar c = true) :
    ∀ c ∈ text.map Text.foldChar, isNameChar c = true :=
  List.forall_mem_map.mpr fun c hc => isNameChar_foldChar (hname c hc)

/-! ## Steps -/

def Step.fold : Step → Step
  | .name key => .name (Text.fold key)
  | .index i => .index i

theorem dropWhile_foldChar {test : Char → Bool}
    (htest : ∀ c, test (Text.foldChar c) = test c) (text : List Char) :
    (text.map Text.foldChar).dropWhile test = (text.dropWhile test).map Text.foldChar := by
  rw [List.dropWhile_map]
  congr 2
  exact funext htest

theorem takeWhile_isDigit_foldChar (text : List Char) :
    (text.map Text.foldChar).takeWhile Char.isDigit = text.takeWhile Char.isDigit := by
  rw [List.takeWhile_map]
  have htest : Char.isDigit ∘ Text.foldChar = Char.isDigit := funext isDigit_foldChar
  rw [htest]
  refine (List.map_congr_left fun c hc => ?_).trans (List.map_id _)
  exact foldChar_of_isPlainChar (by simp [isPlainChar, List.mem_takeWhile_imp hc])

/-- Whether a minus sign comes first, and what stands behind it. -/
def signed : List Char → Bool × List Char
  | '-' :: rest => (true, rest)
  | rest => (false, rest)

/-- An index between brackets, behind its sign. -/
def unsigned? (negative : Bool) (text : List Char) : Option (Int × List Char) :=
  match Numeral.natOfDigits? (text.takeWhile Char.isDigit),
    (text.dropWhile Char.isDigit).dropWhile isGap with
  | some n, ']' :: rest =>
    let i : Int := if negative then -(n : Int) else n
    if Numeral.isSigned64 i then some (i, rest) else none
  | _, _ => none

theorem index?_eq (text : List Char) :
    index? text =
      unsigned? (signed (text.dropWhile isGap)).1 (signed (text.dropWhile isGap)).2 :=
  rfl

theorem signed_foldChar (text : List Char) :
    signed (text.map Text.foldChar) = ((signed text).1, (signed text).2.map Text.foldChar) := by
  rcases text with - | ⟨c, text⟩
  · rfl
  · by_cases hsign : c = '-'
    · have hhyphen : Text.foldChar '-' = '-' := by decide
      rw [hsign, List.map_cons, hhyphen]
      rfl
    · simp [signed, hsign, foldChar_eq_hyphen_iff]

theorem unsigned?_foldChar {negative : Bool} {text rest : List Char} {i : Int}
    (h : unsigned? negative text = some (i, rest)) :
    unsigned? negative (text.map Text.foldChar) = some (i, rest.map Text.foldChar) := by
  unfold unsigned? at h ⊢
  rw [takeWhile_isDigit_foldChar, dropWhile_foldChar isDigit_foldChar,
    dropWhile_foldChar isGap_foldChar]
  split at h
  next n behind hdigits hbehind =>
    have hbracket : Text.foldChar ']' = ']' := by decide
    simp only [hdigits, hbehind, List.map_cons, hbracket]
    dsimp only at h
    generalize (if negative = true then -(n : Int) else n) = value at h ⊢
    split at h
    next hsigned =>
      obtain ⟨rfl, rfl⟩ := Prod.mk.inj (Option.some.inj h)
      rw [if_pos hsigned]
    next => contradiction
  next => contradiction

theorem index?_foldChar {text rest : List Char} {i : Int} (h : index? text = some (i, rest)) :
    index? (text.map Text.foldChar) = some (i, rest.map Text.foldChar) := by
  rw [index?_eq] at h ⊢
  rw [dropWhile_foldChar isGap_foldChar, signed_foldChar]
  exact unsigned?_foldChar h

theorem steps?_eq_none {rounds : Nat} {c : Char} {text : List Char} (hpoint : c ≠ '.')
    (hbracket : c ≠ '[') : steps? rounds (c :: text) = none := by
  cases rounds with
  | zero => rfl
  | succ rounds => simp [steps?, hpoint, hbracket]

/-- What can stand behind a name in a path. -/
def IsRest (text : List Char) : Prop :=
  text = [] ∨ (∃ rest, text = '.' :: rest) ∨ ∃ rest, text = '[' :: rest

theorem isRest_of_steps? {rounds : Nat} {text : List Char} {steps : List Step}
    (hsteps : steps? rounds text = some steps) : IsRest text := by
  cases text with
  | nil => exact .inl rfl
  | cons c rest =>
      by_cases hpoint : c = '.'
      · exact .inr (.inl ⟨rest, by rw [hpoint]⟩)
      · by_cases hbracket : c = '['
        · exact .inr (.inr ⟨rest, by rw [hbracket]⟩)
        · rw [steps?_eq_none hpoint hbracket] at hsteps
          contradiction

/-- A path begins with a name, and a point or a bracket follows if anything does. -/
theorem exists_of_parse? {key : String} {path : KeyPath} (hparse : KeyPath.parse? key = some path) :
    ∃ name rest, key.toList = name ++ rest ∧ (∀ c ∈ name, isNameChar c = true) ∧
      IsRest rest ∧ path.first = .name (String.ofList name) := by
  unfold KeyPath.parse? at hparse
  extract_lets name rest at hparse
  split at hparse
  next => contradiction
  next =>
    obtain ⟨steps, hsteps, rfl⟩ := Option.map_eq_some_iff.mp hparse
    exact ⟨name, rest, List.takeWhile_append_dropWhile.symm, fun c hc => List.mem_takeWhile_imp hc,
      isRest_of_steps? hsteps, rfl⟩

theorem span_foldChar {text : List Char} (hrest : IsRest (text.dropWhile isNameChar)) :
    (text.map Text.foldChar).takeWhile isNameChar =
        (text.takeWhile isNameChar).map Text.foldChar ∧
      (text.map Text.foldChar).dropWhile isNameChar =
        (text.dropWhile isNameChar).map Text.foldChar := by
  have hname : ∀ c ∈ (text.takeWhile isNameChar).map Text.foldChar, isNameChar c = true :=
    isNameChar_of_mem_folded fun c hc => List.mem_takeWhile_imp hc
  have hend : ((text.dropWhile isNameChar).map Text.foldChar).takeWhile isNameChar = [] ∧
      ((text.dropWhile isNameChar).map Text.foldChar).dropWhile isNameChar =
        (text.dropWhile isNameChar).map Text.foldChar := by
    rcases hrest with h | ⟨rest, h⟩ | ⟨rest, h⟩ <;> rw [h] <;> exact ⟨rfl, rfl⟩
  have hsplit : text.map Text.foldChar = (text.takeWhile isNameChar).map Text.foldChar ++
      (text.dropWhile isNameChar).map Text.foldChar := by
    rw [← List.map_append, List.takeWhile_append_dropWhile]
  constructor
  · rw [hsplit, List.takeWhile_append_of_pos hname, hend.1, List.append_nil]
  · rw [hsplit, List.dropWhile_append_of_pos hname, hend.2]

theorem steps?_foldChar {rounds : Nat} {text : List Char} {steps : List Step}
    (h : steps? rounds text = some steps) :
    steps? rounds (text.map Text.foldChar) = some (steps.map Step.fold) := by
  induction rounds generalizing text steps with
  | zero =>
      cases text with
      | nil =>
          obtain rfl := Option.some.inj h
          rfl
      | cons c text => contradiction
  | succ rounds ih =>
      rcases isRest_of_steps? h with rfl | ⟨rest, rfl⟩ | ⟨rest, rfl⟩
      · obtain rfl := Option.some.inj h
        rfl
      · have hpoint : Text.foldChar '.' = '.' := by decide
        rw [List.map_cons, hpoint]
        simp only [steps?] at h ⊢
        split at h
        next => contradiction
        next hname =>
          obtain ⟨behind, hbehind, rfl⟩ := Option.map_eq_some_iff.mp h
          obtain ⟨htake, hdrop⟩ := span_foldChar (isRest_of_steps? hbehind)
          rw [htake, hdrop, if_neg (by simpa using hname), ih hbehind]
          simp [Step.fold, Text.fold]
      · have hbracket : Text.foldChar '[' = '[' := by decide
        rw [List.map_cons, hbracket]
        simp only [steps?, bind, Option.bind_eq_some_iff] at h ⊢
        obtain ⟨⟨i, behind⟩, hindex, later, hbehind, hsteps⟩ := h
        obtain rfl := Option.some.inj hsteps
        exact ⟨_, index?_foldChar hindex, _, ih hbehind, rfl⟩

/-- A path in lower case is the path of the key in lower case. -/
theorem parse?_fold {key : String} {path : KeyPath} (h : KeyPath.parse? key = some path) :
    KeyPath.parse? (Text.fold key) = some ⟨path.first.fold, path.rest.map Step.fold⟩ := by
  unfold KeyPath.parse? at h ⊢
  extract_lets name rest at h
  split at h
  next => contradiction
  next hname =>
    obtain ⟨steps, hsteps, rfl⟩ := Option.map_eq_some_iff.mp h
    obtain ⟨htake, hdrop⟩ := span_foldChar (isRest_of_steps? hsteps)
    extract_lets name' rest'
    have hname' : name' = name.map Text.foldChar := by simp only [name', toList_fold, htake, name]
    have hrest' : rest' = rest.map Text.foldChar := by simp only [rest', toList_fold, hdrop, rest]
    rw [hname', hrest', if_neg (by simpa using hname), List.length_map, steps?_foldChar hsteps]
    simp [Step.fold, Text.fold]

end ChainRegistry.Settings
