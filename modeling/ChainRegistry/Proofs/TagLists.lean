import ChainRegistry.Jurisdictions
import Mathlib.Data.List.DropRight

/-!
# Lists of tags

A text that lists tags is cut at its commas, and each piece is one tag between blanks or holds
blanks alone.  Cutting and trimming are looked at one piece at a time: a text behind a comma is read
as if it stood by itself, blanks around a piece make no difference, and what is left of a piece is
empty or a tag.  So a text is read as a list of tags exactly if it joins, with commas, pieces that
hold these tags in this order.
-/

namespace ChainRegistry

namespace Text

/-! ## Pieces -/

section Pieces

variable {separator : Char}

theorem pieces_append (text rest : List Char) :
    pieces separator (text ++ separator :: rest) =
      pieces separator text ++ pieces separator rest := by
  induction text with
  | nil => simp [pieces]
  | cons c text ih =>
      by_cases hc : c = separator
      · simp [pieces, hc, ih]
      · obtain ⟨piece, others, hpieces⟩ := List.exists_cons_of_ne_nil (pieces_ne_nil separator text)
        simp [pieces, hc, ih, hpieces]

theorem pieces_of_not_mem {text : List Char} (hfree : separator ∉ text) :
    pieces separator text = [text] := by
  induction text with
  | nil => rfl
  | cons c text ih =>
      rw [List.mem_cons, not_or] at hfree
      rw [pieces, if_neg (Ne.symm hfree.1), ih hfree.2]

theorem not_mem_of_mem_pieces {text piece : List Char} (hpiece : piece ∈ pieces separator text) :
    separator ∉ piece := by
  induction text generalizing piece with
  | nil =>
      obtain rfl := List.mem_singleton.mp hpiece
      exact List.not_mem_nil
  | cons c text ih =>
      by_cases hc : c = separator
      · rw [pieces, if_pos hc] at hpiece
        rcases List.mem_cons.mp hpiece with rfl | hlater
        · exact List.not_mem_nil
        · exact ih hlater
      · obtain ⟨first, others, hpieces⟩ := List.exists_cons_of_ne_nil (pieces_ne_nil separator text)
        rw [hpieces, List.forall_mem_cons] at ih
        simp only [pieces, if_neg hc, hpieces] at hpiece
        rcases List.mem_cons.mp hpiece with rfl | hlater
        · exact List.not_mem_cons_of_ne_of_not_mem (Ne.symm hc) ih.1
        · exact ih.2 piece hlater

end Pieces

/-! ## Trimming -/

/-- No blank stands at either end. -/
def IsTrimmed (text : List Char) : Prop :=
  (∀ c ∈ text.head?, isBlank c = false) ∧ ∀ c ∈ text.getLast?, isBlank c = false

instance (text : List Char) : Decidable (IsTrimmed text) :=
  @instDecidableAnd _ _ (Option.decidableForallMem _) (Option.decidableForallMem _)

theorem dropWhile_padded {before text : List Char} (hbefore : ∀ c ∈ before, isBlank c = true)
    (hfirst : ∀ c ∈ text.head?, isBlank c = false) :
    (before ++ text).dropWhile isBlank = text := by
  rw [List.dropWhile_append_of_pos hbefore]
  cases text with
  | nil => rfl
  | cons c text => exact List.dropWhile_cons_of_neg (by simp [hfirst c rfl])

theorem trim_eq_nil_iff {text : List Char} :
    trim text = [] ↔ ∀ c ∈ text, isBlank c = true := by
  constructor
  · intro hempty
    have hleft : ∀ c ∈ text.dropWhile isBlank, isBlank c = true :=
      List.rdropWhile_eq_nil_iff.mp hempty
    intro c hc
    rw [← List.takeWhile_append_dropWhile (p := isBlank) (l := text)] at hc
    exact (List.mem_append.mp hc).elim List.mem_takeWhile_imp (hleft c)
  · intro hblank
    have hleft : text.dropWhile isBlank = [] := List.dropWhile_eq_nil_iff.mpr hblank
    rw [trim, trimLeft, hleft]
    rfl

theorem trim_padded {before text after : List Char} (hbefore : ∀ c ∈ before, isBlank c = true)
    (hafter : ∀ c ∈ after, isBlank c = true) (htrimmed : IsTrimmed text) (hne : text ≠ []) :
    trim (before ++ text ++ after) = text := by
  have hfirst : ∀ c ∈ (text ++ after).head?, isBlank c = false := by
    rw [List.head?_append_of_ne_nil _ hne]
    exact htrimmed.1
  have hlast : ∀ c ∈ text.reverse.head?, isBlank c = false := by
    rw [List.head?_reverse]
    exact htrimmed.2
  have hafter : ∀ c ∈ after.reverse, isBlank c = true :=
    fun c hc => hafter c (List.mem_reverse.mp hc)
  rw [trim, trimLeft, List.append_assoc, dropWhile_padded hbefore hfirst, trimRight,
    List.reverse_append, dropWhile_padded hafter hlast, List.reverse_reverse]

/-- Trimming takes blanks from both ends, and none is left there. -/
theorem exists_trim (text : List Char) :
    IsTrimmed (trim text) ∧ ∃ before after, (∀ c ∈ before, isBlank c = true) ∧
      (∀ c ∈ after, isBlank c = true) ∧ text = before ++ trim text ++ after := by
  have hleft : text = text.takeWhile isBlank ++ trimLeft text :=
    List.takeWhile_append_dropWhile.symm
  have hright : trimLeft text = trim text ++ (trimLeft text).rtakeWhile isBlank :=
    List.rdropWhile_append_rtakeWhile.symm
  refine ⟨⟨fun c hc => ?_, fun c hc => ?_⟩, text.takeWhile isBlank,
    (trimLeft text).rtakeWhile isBlank, fun c => List.mem_takeWhile_imp,
    fun c => List.mem_rtakeWhile_imp, ?_⟩
  -- The first character that is left was the first one behind the blanks.
  · have hfirst : (trimLeft text).head? = some c := by
      rw [hright, List.head?_append, hc]
      rfl
    have hnot := List.head?_dropWhile_not isBlank text
    rw [trimLeft] at hfirst
    rwa [hfirst] at hnot
  · have hne : trim text ≠ [] := by
      rintro hempty
      rw [hempty] at hc
      contradiction
    have hnot := List.rdropWhile_last_not isBlank (trimLeft text) hne
    rw [List.getLast?_eq_getLast_of_ne_nil hne] at hc
    obtain rfl := Option.some.inj hc
    exact Bool.eq_false_iff.mpr hnot
  · rw [List.append_assoc, ← hright]
    exact hleft

end Text

namespace Jurisdictions

open Text (isBlank trim)

/-! ## Tags -/

/-- A tag that can stand in a list: not empty, without a comma and without blanks at its ends. -/
structure IsTag (tag : String) : Prop where
  nonempty : tag ≠ ""
  free : ',' ∉ tag.toList
  trimmed : Text.IsTrimmed tag.toList

/-- A piece of blanks only. -/
def IsBlankPiece (piece : String) : Prop :=
  ∀ c ∈ piece.toList, isBlank c = true

instance (piece : String) : Decidable (IsBlankPiece piece) :=
  List.decidableBAll _ piece.toList

/-- Pieces that hold these tags in this order, one tag between blanks in a piece, and beside them
any number of blank pieces. -/
inductive Holds : List String → List String → Prop where
  | nil : Holds [] []
  | blank {piece : String} {pieces tags : List String} (hblank : IsBlankPiece piece)
    (hrest : Holds pieces tags) : Holds (piece :: pieces) tags
  | tag {before tag after : String} {pieces tags : List String} (hbefore : IsBlankPiece before)
    (htag : IsTag tag) (hafter : IsBlankPiece after) (hrest : Holds pieces tags) :
    Holds ((before ++ tag ++ after) :: pieces) (tag :: tags)

/-- The tag that a piece holds, if it is not blank. -/
def tagsOfPiece (piece : List Char) : List String :=
  if trim piece = [] then [] else [String.ofList (trim piece)]

theorem tagsOfText_eq (input : String) :
    tagsOfText input = (Text.pieces ',' input.toList).flatMap tagsOfPiece := by
  rw [tagsOfText]
  induction Text.pieces ',' input.toList with
  | nil => rfl
  | cons piece pieces ih =>
      rw [List.flatMap_cons, ← ih, tagsOfPiece]
      by_cases hblank : trim piece = [] <;> simp [hblank]

theorem tagsOfText_append (a b : String) :
    tagsOfText (a ++ "," ++ b) = tagsOfText a ++ tagsOfText b := by
  have hchars : (a ++ "," ++ b).toList = a.toList ++ ',' :: b.toList := by
    simp
  rw [tagsOfText_eq, hchars, Text.pieces_append, List.flatMap_append, ← tagsOfText_eq,
    ← tagsOfText_eq]

theorem tagsOfText_intercalate (pieces : List String) :
    tagsOfText (String.intercalate "," pieces) = pieces.flatMap tagsOfText := by
  induction pieces with
  | nil => rfl
  | cons piece pieces ih =>
      cases pieces with
      | nil => simp
      | cons next pieces =>
          rw [String.intercalate_cons_cons, tagsOfText_append, ih]
          rfl

theorem tagsOfText_of_free {piece : String} (hfree : ',' ∉ piece.toList) :
    tagsOfText piece = tagsOfPiece piece.toList := by
  rw [tagsOfText_eq, Text.pieces_of_not_mem hfree, List.flatMap_singleton]

theorem not_mem_of_isBlankPiece {piece : String} (hblank : IsBlankPiece piece) :
    ',' ∉ piece.toList := by
  intro hcomma
  exact absurd (hblank ',' hcomma) (by decide)

theorem tagsOfText_blank {piece : String} (hblank : IsBlankPiece piece) :
    tagsOfText piece = [] := by
  rw [tagsOfText_of_free (not_mem_of_isBlankPiece hblank), tagsOfPiece,
    if_pos (Text.trim_eq_nil_iff.mpr hblank)]

theorem tagsOfText_padded {before tag after : String} (hbefore : IsBlankPiece before)
    (htag : IsTag tag) (hafter : IsBlankPiece after) :
    tagsOfText (before ++ tag ++ after) = [tag] := by
  have hne : tag.toList ≠ [] := by
    simpa using htag.nonempty
  have hfree : ',' ∉ (before ++ tag ++ after).toList := by
    simp [not_mem_of_isBlankPiece hbefore, htag.free, not_mem_of_isBlankPiece hafter]
  have htrim : trim (before ++ tag ++ after).toList = tag.toList := by
    rw [String.toList_append, String.toList_append]
    exact Text.trim_padded hbefore hafter htag.trimmed hne
  rw [tagsOfText_of_free hfree, tagsOfPiece, htrim, if_neg hne, String.ofList_toList]

/-! ## Reading lists -/

theorem Holds.tagsOfText {pieces tags : List String} (h : Holds pieces tags) :
    tagsOfText (String.intercalate "," pieces) = tags := by
  rw [tagsOfText_intercalate]
  induction h with
  | nil => rfl
  | blank hblank _ ih => rw [List.flatMap_cons, tagsOfText_blank hblank, ih, List.nil_append]
  | tag hbefore htag hafter _ ih =>
      rw [List.flatMap_cons, tagsOfText_padded hbefore htag hafter, ih, List.singleton_append]

theorem Holds.isTag {pieces tags : List String} (h : Holds pieces tags) :
    ∀ tag ∈ tags, IsTag tag := by
  induction h with
  | nil => simp
  | blank _ _ ih => exact ih
  | tag _ htag _ _ ih => exact List.forall_mem_cons.mpr ⟨htag, ih⟩

/-- Pieces without commas hold the tags that trimming leaves of them. -/
theorem holds_of_free {pieces : List (List Char)} (hfree : ∀ piece ∈ pieces, ',' ∉ piece) :
    Holds (pieces.map String.ofList) (pieces.flatMap tagsOfPiece) := by
  induction pieces with
  | nil => exact .nil
  | cons piece pieces ih =>
      rw [List.forall_mem_cons] at hfree
      rw [List.map_cons, List.flatMap_cons, tagsOfPiece]
      by_cases hempty : trim piece = []
      · rw [if_pos hempty, List.nil_append]
        refine .blank ?_ (ih hfree.2)
        simpa [IsBlankPiece] using Text.trim_eq_nil_iff.mp hempty
      · obtain ⟨htrimmed, before, after, hbefore, hafter, hpiece⟩ := Text.exists_trim piece
        have hcomma : ',' ∉ trim piece := by
          intro hmem
          refine hfree.1 ?_
          rw [hpiece]
          simp [hmem]
        have htag : IsTag (String.ofList (trim piece)) := by
          refine ⟨by simpa using hempty, ?_, ?_⟩
          · rwa [String.toList_ofList]
          · rwa [String.toList_ofList]
        have hpadded : String.ofList piece =
            String.ofList before ++ String.ofList (trim piece) ++ String.ofList after := by
          rw [← String.ofList_append, ← String.ofList_append, ← hpiece]
        rw [if_neg hempty, List.singleton_append, hpadded]
        refine .tag ?_ htag ?_ (ih hfree.2)
        · rwa [IsBlankPiece, String.toList_ofList]
        · rwa [IsBlankPiece, String.toList_ofList]

/-- Every text joins pieces that hold the tags which are read from it. -/
theorem exists_holds (input : String) :
    ∃ pieces, Holds pieces (tagsOfText input) ∧ String.intercalate "," pieces = input := by
  refine ⟨(Text.pieces ',' input.toList).map String.ofList, ?_, ?_⟩
  · rw [tagsOfText_eq]
    exact holds_of_free fun piece => Text.not_mem_of_mem_pieces
  · rw [String.ext_iff, String.toList_intercalate, List.map_map]
    have hself : String.toList ∘ String.ofList = id := by
      funext text
      exact String.toList_ofList
    rw [hself, List.map_id]
    exact Text.intercalate_pieces ',' input.toList

/-- Lists of tags are read one after the other, with a comma between them.  All that is read are
tags, and a text is read as given tags exactly if it joins pieces that hold them in their order,
whatever blanks stand around them and however many blank pieces stand between them. -/
theorem tagsOfText_reads_lists :
    (∀ a b, tagsOfText (a ++ "," ++ b) = tagsOfText a ++ tagsOfText b) ∧
      (∀ input, ∀ tag ∈ tagsOfText input, IsTag tag) ∧
      ∀ input tags, tagsOfText input = tags ↔
        ∃ pieces, Holds pieces tags ∧ String.intercalate "," pieces = input := by
  refine ⟨tagsOfText_append, fun input => ?_, fun input tags => ⟨?_, ?_⟩⟩
  · obtain ⟨pieces, hholds, -⟩ := exists_holds input
    exact hholds.isTag
  · rintro rfl
    exact exists_holds input
  · rintro ⟨pieces, hholds, rfl⟩
    exact hholds.tagsOfText

/-- A repeated tag, a tag with a blank inside, blanks beyond ASCII around them, and pieces that hold
nothing. -/
theorem tagsOfText_reads_scattered_list :
    (∀ tag ∈ tagsOfText "\u3000EU\u00a0,,US federal ,\t,EU", IsTag tag) ∧
      tagsOfText "\u3000EU\u00a0,,US federal ,\t,EU" = ["EU", "US federal", "EU"] ∧
      tagsOfText ("\u3000EU\u00a0,,US federal ,\t,EU" ++ "," ++ " EU,") =
        ["EU", "US federal", "EU", "EU"] := by
  obtain ⟨happend, htags, hreads⟩ := tagsOfText_reads_lists
  have hEU : IsTag "EU" := ⟨by decide, by decide, by decide⟩
  have hfederal : IsTag "US federal" := ⟨by decide, by decide, by decide⟩
  have hfirst : tagsOfText "\u3000EU\u00a0,,US federal ,\t,EU" = ["EU", "US federal", "EU"] := by
    refine (hreads _ _).mpr ⟨["\u3000" ++ "EU" ++ "\u00a0", "", "" ++ "US federal" ++ " ", "\t",
      "" ++ "EU" ++ ""], ?_, by decide⟩
    refine .tag ?_ hEU ?_ (.blank ?_ (.tag ?_ hfederal ?_ (.blank ?_ (.tag ?_ hEU ?_ .nil))))
    all_goals decide
  have hsecond : tagsOfText " EU," = ["EU"] := by
    refine (hreads _ _).mpr ⟨[" " ++ "EU" ++ "", ""], .tag ?_ hEU ?_ (.blank ?_ .nil), ?_⟩
    all_goals decide
  refine ⟨htags _, hfirst, ?_⟩
  rw [happend, hfirst, hsecond]
  rfl

end Jurisdictions

end ChainRegistry
