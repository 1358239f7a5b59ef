import ChainRegistry.Proofs.Json.Numbers
import ChainRegistry.Proofs.Json.Strings
import ChainRegistry.Proofs.Trees

/-!
# JSON documents read back

Every tree is read back from its text, in either layout, as the same tree with other numbers at
most: a float gives whatever its text is read as, an integer likewise, and a node without a JSON
form is null.  Keys, their order and the shape of the tree stay.
-/

namespace ChainRegistry.Json

mutual

/-- The tree that is read back from the text of a tree. -/
def readBack : Node → Node
  | .null => .null
  | .bool b => .bool b
  | .int i => integerBack i
  | .float x => floatBack x
  | .text s => .text s
  | .date s => .text s
  | .list items => .list (readBackItems items)
  | .table entries => .table (readBackEntries entries)
  | .illegible => .null

def readBackItems : List Node → List Node
  | [] => []
  | item :: items => readBack item :: readBackItems items

def readBackEntries : List (String × Node) → List (String × Node)
  | [] => []
  | (key, node) :: entries => (key, readBack node) :: readBackEntries entries

end

theorem readBackItems_eq_map (items : List Node) : readBackItems items = items.map readBack := by
  induction items with
  | nil => rfl
  | cons item items ih => simp [readBackItems, ih]

theorem readBackEntries_eq_map (entries : List (String × Node)) :
    readBackEntries entries = entries.map fun entry => (entry.1, readBack entry.2) := by
  induction entries with
  | nil => rfl
  | cons entry entries ih => simp [readBackEntries, ih]

/-! ## Blanks -/

theorem skipBlanks_append {blanks : List Char} (hblanks : ∀ c ∈ blanks, isBlank c = true)
    (text : List Char) : skipBlanks (blanks ++ text) = skipBlanks text :=
  List.dropWhile_append_of_pos hblanks

theorem skipBlanks_cons {c : Char} (hc : isBlank c = false) (text : List Char) :
    skipBlanks (c :: text) = c :: text :=
  List.dropWhile_cons_of_neg (by simp [hc])

theorem skipBlanks_skipBlanks (text : List Char) :
    skipBlanks (skipBlanks text) = skipBlanks text := by
  induction text with
  | nil => rfl
  | cons c text ih =>
      cases hblank : isBlank c with
      | true => simpa [skipBlanks, hblank] using ih
      | false => simp [skipBlanks, hblank]

theorem value?_congr {text text' : List Char} (htext : skipBlanks text = skipBlanks text')
    (allowance : Nat) : value? allowance text = value? allowance text' := by
  cases allowance with
  | zero => rfl
  | succ allowance => simp only [value?, htext]

theorem items?_congr {text text' : List Char} (htext : skipBlanks text = skipBlanks text')
    (allowance : Nat) : items? allowance text = items? allowance text' := by
  cases allowance with
  | zero => rfl
  | succ allowance => simp only [items?, value?_congr htext]

theorem entries?_congr {text text' : List Char} (htext : skipBlanks text = skipBlanks text')
    (allowance : Nat) : entries? allowance text = entries? allowance text' := by
  cases allowance with
  | zero => rfl
  | succ allowance => simp only [entries?, htext]

theorem isBlank_lineBreak (layout : Layout) (depth : Nat) :
    ∀ c ∈ layout.lineBreak depth, isBlank c = true := by
  cases layout with
  | compact => simp [Layout.lineBreak]
  | spread =>
      simp only [Layout.lineBreak, List.forall_mem_cons]
      refine ⟨rfl, ?_⟩
      intro c hc
      rw [List.eq_of_mem_replicate hc]
      rfl

theorem endsNumber_lineBreak (layout : Layout) (depth : Nat) {c : Char}
    (hc : c.isDigit = false ∧ c ≠ '.' ∧ c ≠ 'e' ∧ c ≠ 'E') (rest : List Char) :
    EndsNumber (layout.lineBreak depth ++ c :: rest) := by
  cases layout with
  | compact => exact endsNumber_cons hc rest
  | spread => exact endsNumber_cons (by decide) _

/-! ## Lists and tables -/

section Brackets

variable {allowance : Nat} {text behind more rest : List Char}

theorem value?_closing (allowance : Nat) (text : List Char) :
    value? allowance (']' :: text) = none := by
  cases allowance with
  | zero => rfl
  | succ allowance => simp [value?, skipBlanks, isBlank, number?]

theorem items?_last {item : Node} (hitem : value? allowance text = some (item, behind))
    (hclose : skipBlanks behind = ']' :: rest) :
    items? (allowance + 1) text = some ([item], rest) := by
  simp [items?, hitem, hclose]

theorem items?_more {item : Node} {items : List Node}
    (hitem : value? allowance text = some (item, behind))
    (hcomma : skipBlanks behind = ',' :: more)
    (hitems : items? allowance more = some (items, rest)) :
    items? (allowance + 1) text = some (item :: items, rest) := by
  simp [items?, hitem, hcomma, hitems]

theorem value?_list {items : List Node} (hitems : items? allowance text = some (items, rest)) :
    value? (allowance + 1) ('[' :: text) = some (.list items, rest) := by
  have hopen := skipBlanks_cons (c := '[') rfl text
  rw [value?, hopen]
  simp only
  split
  next closed hclosed =>
    have hbracket : skipBlanks text = skipBlanks (']' :: closed) :=
      hclosed.trans (skipBlanks_cons rfl closed).symm
    rw [items?_congr hbracket] at hitems
    cases allowance with
    | zero => cases hitems
    | succ allowance => simp [items?, value?_closing] at hitems
  next =>
    rw [items?_congr (skipBlanks_skipBlanks text), hitems]
    rfl

theorem entries?_last {key : List Piece} {node : Node} {afterKey afterColon : List Char}
    (hkey : pieces? text = some (key, afterKey)) (hcolon : skipBlanks afterKey = ':' :: afterColon)
    (hnode : value? allowance afterColon = some (node, behind))
    (hclose : skipBlanks behind = '}' :: rest) :
    entries? (allowance + 1) ('"' :: text) = some ([(join? key, node)], rest) := by
  have hopen := skipBlanks_cons (c := '"') rfl text
  simp [entries?, hopen, hkey, hcolon, hnode, hclose]

theorem entries?_more {key : List Piece} {node : Node} {afterKey afterColon : List Char}
    {entries : List (Option String × Node)}
    (hkey : pieces? text = some (key, afterKey)) (hcolon : skipBlanks afterKey = ':' :: afterColon)
    (hnode : value? allowance afterColon = some (node, behind))
    (hcomma : skipBlanks behind = ',' :: more)
    (hentries : entries? allowance more = some (entries, rest)) :
    entries? (allowance + 1) ('"' :: text) = some ((join? key, node) :: entries, rest) := by
  have hopen := skipBlanks_cons (c := '"') rfl text
  simp [entries?, hopen, hkey, hcolon, hnode, hcomma, hentries]

theorem value?_table {entries : List (Option String × Node)}
    (hentries : entries? allowance text = some (entries, rest)) :
    value? (allowance + 1) ('\x7b' :: text) = some (tableNode entries, rest) := by
  have hopen := skipBlanks_cons (c := '\x7b') rfl text
  rw [value?, hopen]
  simp only
  split
  next closed hclosed =>
    cases allowance with
    | zero => cases hentries
    | succ allowance => simp [entries?, hclosed] at hentries
  next =>
    rw [entries?_congr (skipBlanks_skipBlanks text), hentries]
    rfl

end Brackets

/-! ## Documents -/

section Writing

variable {layout : Layout}

/-- A tree is read back from its text, given an allowance of twice the length of the text. -/
def IsReadBack (layout : Layout) (node : Node) : Prop :=
  ∀ depth allowance rest, EndsNumber rest →
    2 * (write layout depth node).length ≤ allowance →
    value? allowance (write layout depth node ++ rest) = some (readBack node, rest)

theorem Spells.ne_nil {text : List Char} {node : Node} (htext : Spells text node) : text ≠ [] := by
  rintro rfl
  have hread := htext [] endsNumber_nil 0
  simp [value?, skipBlanks, number?] at hread

theorem isReadBack_of_spells {node : Node}
    (hspells : ∀ depth, Spells (write layout depth node) (readBack node)) :
    IsReadBack layout node := by
  intro depth allowance rest hrest hallowance
  have hpos := List.length_pos_iff.mpr (hspells depth).ne_nil
  obtain ⟨less, rfl⟩ : ∃ less, allowance = less + 1 := ⟨allowance - 1, by omega⟩
  exact hspells depth rest hrest less

theorem spells_quote (s : String) : Spells (quote s) (.text s) := by
  intro rest _ allowance
  obtain ⟨body, hquote, hbody⟩ := pieces?_quote s rest
  have hopen := skipBlanks_cons (c := '"') rfl (body ++ rest)
  simp [hquote, value?, hopen, hbody, join?_map_pieceOf]

theorem spells_bool (b : Bool) :
    Spells (if b then "true".toList else "false".toList) (.bool b) := by
  intro rest _ allowance
  cases b <;> simp [value?, skipBlanks, isBlank]

theorem isReadBack_scalar {node : Node} (hscalar : node.isScalar = true) :
    IsReadBack layout node := by
  apply isReadBack_of_spells
  intro depth
  cases node with
  | null => simpa only [write, readBack] using spells_null
  | bool b => simpa only [write, readBack] using spells_bool b
  | int i => simpa only [write, readBack] using spells_ofInt i
  | float x => simpa only [write, readBack] using spells_floatBack x
  | text s => simpa only [write, readBack] using spells_quote s
  | date s => simpa only [write, readBack] using spells_quote s
  | list items => cases hscalar
  | table entries => cases hscalar
  | illegible => simpa only [write, readBack] using spells_null

theorem items?_write {depth : Nat} {closing rest : List Char} (hends : EndsNumber closing)
    (hclosing : skipBlanks closing = ']' :: rest) {items : List Node}
    (hitems : ∀ item ∈ items, IsReadBack layout item) {item : Node}
    (hitem : IsReadBack layout item) {allowance : Nat}
    (hallowance : 2 * (write layout depth item ++ writeItems layout depth items).length <
      allowance) :
    items? allowance (write layout depth item ++ (writeItems layout depth items ++ closing)) =
      some (readBack item :: readBackItems items, rest) := by
  obtain ⟨less, rfl⟩ : ∃ less, allowance = less + 1 := ⟨allowance - 1, by omega⟩
  rw [List.length_append] at hallowance
  induction items generalizing item less with
  | nil => exact items?_last (hitem depth less closing hends (by omega)) hclosing
  | cons next items ih =>
      obtain ⟨hnext, hitems⟩ := List.forall_mem_cons.mp hitems
      simp only [writeItems, List.length_append, List.length_cons, List.cons_append,
        List.append_assoc] at hallowance ⊢
      obtain ⟨least, rfl⟩ : ∃ least, less = least + 1 := ⟨less - 1, by omega⟩
      have hmore := ih hitems hnext least (by omega)
      rw [← items?_congr (skipBlanks_append (isBlank_lineBreak layout depth) _)] at hmore
      exact items?_more (hitem depth _ _ (endsNumber_cons (by decide) _) (by omega))
        (skipBlanks_cons rfl _) hmore

theorem colon_eq (layout : Layout) :
    ∃ blanks, layout.colon = ':' :: blanks ∧ ∀ c ∈ blanks, isBlank c = true := by
  cases layout with
  | compact => exact ⟨[], rfl, by simp⟩
  | spread => exact ⟨[' '], rfl, by simp [isBlank]⟩

section Entries

variable {depth less : Nat} {key : String} {node : Node} {behind rest : List Char}

theorem entries?_write_last (hnode : IsReadBack layout node)
    (hless : 2 * (write layout depth node).length ≤ less) (hends : EndsNumber behind)
    (hclosing : skipBlanks behind = '\x7d' :: rest) :
    entries? (less + 1) (quote key ++ (layout.colon ++ (write layout depth node ++ behind))) =
      some ([(some key, readBack node)], rest) := by
  obtain ⟨blanks, hcolon, hblanks⟩ := colon_eq layout
  obtain ⟨body, hquote, hkey⟩ :=
    pieces?_quote key (layout.colon ++ (write layout depth node ++ behind))
  have hread := hnode depth less behind hends hless
  rw [← value?_congr (skipBlanks_append hblanks _)] at hread
  rw [hcolon, List.cons_append] at hkey ⊢
  rw [hquote, List.cons_append, ← join?_map_pieceOf key]
  exact entries?_last hkey (skipBlanks_cons rfl _) hread hclosing

theorem entries?_write_more {more : List Char} {entries : List (Option String × Node)}
    (hnode : IsReadBack layout node) (hless : 2 * (write layout depth node).length ≤ less)
    (hends : EndsNumber behind) (hcomma : skipBlanks behind = ',' :: more)
    (hentries : entries? less more = some (entries, rest)) :
    entries? (less + 1) (quote key ++ (layout.colon ++ (write layout depth node ++ behind))) =
      some ((some key, readBack node) :: entries, rest) := by
  obtain ⟨blanks, hcolon, hblanks⟩ := colon_eq layout
  obtain ⟨body, hquote, hkey⟩ :=
    pieces?_quote key (layout.colon ++ (write layout depth node ++ behind))
  have hread := hnode depth less behind hends hless
  rw [← value?_congr (skipBlanks_append hblanks _)] at hread
  rw [hcolon, List.cons_append] at hkey ⊢
  rw [hquote, List.cons_append, ← join?_map_pieceOf key]
  exact entries?_more hkey (skipBlanks_cons rfl _) hread hcomma hentries

end Entries

theorem entries?_write {depth : Nat} {closing rest : List Char} (hends : EndsNumber closing)
    (hclosing : skipBlanks closing = '\x7d' :: rest) {entries : List (String × Node)}
    (hentries : ∀ entry ∈ entries, IsReadBack layout entry.2) (key : String) {node : Node}
    (hnode : IsReadBack layout node) {allowance : Nat}
    (hallowance : 2 * (write layout depth node ++ writeEntries layout depth entries).length <
      allowance) :
    entries? allowance (quote key ++ (layout.colon ++ (write layout depth node ++
      (writeEntries layout depth entries ++ closing)))) =
      some ((some key, readBack node) ::
        (readBackEntries entries).map (fun entry => (some entry.1, entry.2)), rest) := by
  obtain ⟨less, rfl⟩ : ∃ less, allowance = less + 1 := ⟨allowance - 1, by omega⟩
  rw [List.length_append] at hallowance
  induction entries generalizing key node less with
  | nil => exact entries?_write_last hnode (by omega) hends hclosing
  | cons entry entries ih =>
      obtain ⟨name, next⟩ := entry
      obtain ⟨hnext, hentries⟩ := List.forall_mem_cons.mp hentries
      simp only [writeEntries, List.length_append, List.length_cons, List.cons_append,
        List.append_assoc] at hallowance ⊢
      obtain ⟨least, rfl⟩ : ∃ least, less = least + 1 := ⟨less - 1, by omega⟩
      have hmore := ih hentries name hnext least (by simp only; omega)
      rw [← entries?_congr (skipBlanks_append (isBlank_lineBreak layout depth) _)] at hmore
      exact entries?_write_more hnode (by omega) (endsNumber_cons (by decide) _)
        (skipBlanks_cons rfl _) hmore

theorem tableNode_of_keys (entries : List (String × Node)) :
    tableNode (entries.map fun entry => (some entry.1, entry.2)) = .table entries := by
  have hkeys : (entries.map fun entry => (some entry.1, entry.2)).mapM
      (fun entry => entry.1.map fun key => (key, entry.2)) = some entries := by
    induction entries with
    | nil => rfl
    | cons entry entries ih => simp [ih]
  simp [tableNode, hkeys]

theorem isReadBack_list {items : List Node} (hitems : ∀ item ∈ items, IsReadBack layout item) :
    IsReadBack layout (.list items) := by
  intro depth allowance rest _ hallowance
  cases items with
  | nil =>
      simp only [write, List.length_cons, List.length_nil] at hallowance
      obtain ⟨less, rfl⟩ : ∃ less, allowance = less + 1 := ⟨allowance - 1, by omega⟩
      simp [write, value?, readBack, readBackItems, skipBlanks, isBlank]
  | cons item items =>
      obtain ⟨hitem, hitems⟩ := List.forall_mem_cons.mp hitems
      simp only [write, readBack, readBackItems, List.length_append, List.length_cons,
        List.cons_append, List.append_assoc, List.nil_append] at hallowance ⊢
      obtain ⟨less, rfl⟩ : ∃ less, allowance = less + 1 := ⟨allowance - 1, by omega⟩
      have hends : EndsNumber (layout.lineBreak depth ++ ']' :: rest) :=
        endsNumber_lineBreak layout depth (by decide) rest
      have hclosing : skipBlanks (layout.lineBreak depth ++ ']' :: rest) = ']' :: rest :=
        (skipBlanks_append (isBlank_lineBreak layout depth) _).trans (skipBlanks_cons rfl rest)
      have hlength : 2 * (write layout (depth + 1) item ++
          writeItems layout (depth + 1) items).length < less := by
        rw [List.length_append]
        omega
      have hread := items?_write hends hclosing hitems hitem hlength
      rw [← items?_congr (skipBlanks_append (isBlank_lineBreak layout (depth + 1)) _)] at hread
      exact value?_list hread

theorem isReadBack_table {entries : List (String × Node)}
    (hentries : ∀ entry ∈ entries, IsReadBack layout entry.2) :
    IsReadBack layout (.table entries) := by
  intro depth allowance rest _ hallowance
  cases entries with
  | nil =>
      simp only [write, List.length_cons, List.length_nil] at hallowance
      obtain ⟨less, rfl⟩ : ∃ less, allowance = less + 1 := ⟨allowance - 1, by omega⟩
      simp [write, value?, readBack, readBackEntries, skipBlanks, isBlank]
  | cons entry entries =>
      obtain ⟨key, node⟩ := entry
      obtain ⟨hnode, hentries⟩ := List.forall_mem_cons.mp hentries
      simp only [write, readBack, readBackEntries, List.length_append, List.length_cons,
        List.cons_append, List.append_assoc, List.nil_append] at hallowance ⊢
      obtain ⟨less, rfl⟩ : ∃ less, allowance = less + 1 := ⟨allowance - 1, by omega⟩
      have hends : EndsNumber (layout.lineBreak depth ++ '\x7d' :: rest) :=
        endsNumber_lineBreak layout depth (by decide) rest
      have hclosing : skipBlanks (layout.lineBreak depth ++ '\x7d' :: rest) = '\x7d' :: rest :=
        (skipBlanks_append (isBlank_lineBreak layout depth) _).trans (skipBlanks_cons rfl rest)
      have hlength : 2 * (write layout (depth + 1) node ++
          writeEntries layout (depth + 1) entries).length < less := by
        rw [List.length_append]
        omega
      have hread := entries?_write hends hclosing hentries key hnode hlength
      rw [← entries?_congr (skipBlanks_append (isBlank_lineBreak layout (depth + 1)) _)] at hread
      rw [← tableNode_of_keys ((key, readBack node) :: readBackEntries entries)]
      exact value?_table hread

theorem isReadBack (layout : Layout) (node : Node) : IsReadBack layout node := by
  induction node using Node.induct with
  | scalar node hscalar => exact isReadBack_scalar hscalar
  | list items ih => exact isReadBack_list ih
  | table entries ih => exact isReadBack_table ih

/-- A written tree is read back whole. -/
theorem parse?_print (layout : Layout) (node : Node) :
    parse? (print layout node) = some (readBack node) := by
  have hread := isReadBack layout node 0 (2 * (write layout 0 node).length + 2) [] endsNumber_nil
    (by omega)
  have hblank : skipBlanks [] = [] := rfl
  rw [List.append_nil] at hread
  simp only [parse?, print, String.toList_ofList, Option.bind_eq_bind, hread, Option.bind_some,
    hblank, if_true]

end Writing

end ChainRegistry.Json
