/-!
# Splitting at a separator

A text with `n` separators has `n + 1` pieces, which may be empty.  Joining the pieces with the
separator gives the text back.
-/

namespace ChainRegistry.Text

def pieces (separator : Char) : List Char → List (List Char)
  | [] => [[]]
  | c :: rest =>
    if c = separator then [] :: pieces separator rest
    else
      match pieces separator rest with
      | [] => [[c]]
      | piece :: others => (c :: piece) :: others

theorem pieces_ne_nil (separator : Char) (text : List Char) : pieces separator text ≠ [] := by
  cases text with
  | nil => simp [pieces]
  | cons c rest =>
    unfold pieces
    split
    · simp
    · split <;> simp

theorem intercalate_pieces (separator : Char) (text : List Char) :
    List.intercalate [separator] (pieces separator text) = text := by
  induction text with
  | nil => rfl
  | cons c rest ih =>
    unfold pieces
    have hnil := pieces_ne_nil separator rest
    split
    · rename_i hc
      subst hc
      cases hpieces : pieces c rest with
      | nil => contradiction
      | cons piece others =>
        rw [hpieces] at ih
        simpa [List.intercalate_cons_cons] using ih
    · split
      · contradiction
      · rename_i piece others hpieces
        rw [hpieces] at ih
        cases others with
        | nil => simpa using ih
        | cons next others => simpa [List.intercalate_cons_cons] using ih

end ChainRegistry.Text
