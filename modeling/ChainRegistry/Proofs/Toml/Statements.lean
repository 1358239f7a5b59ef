import ChainRegistry.Proofs.Toml.Lines

/-!
# Statements of a written tree

A tree is written as a header for every table that has values or nothing in it, the pairs of that
table, and then the same for the tables below.  Whenever a tidy tree has a text, reading the text
gives these statements.  It has a text exactly if every value in it has one.
-/

namespace ChainRegistry.Toml

open Node

/-! ## Statements -/

/-- The entries that are written as pairs. -/
def pairsOf (entries : List (String × Node)) : List (String × Node) :=
  entries.filter fun entry => !isTable entry.2

def hasHeader (path : List String) (entries : List (String × Node)) : Bool :=
  !path.isEmpty && (!(pairsOf entries).isEmpty || entries.isEmpty)

theorem hasHeader_iff (path : List String) (entries : List (String × Node)) :
    hasHeader path entries = true ↔ ¬(path = [] ∨ (pairsOf entries = [] ∧ entries ≠ [])) := by
  simp only [hasHeader, Bool.and_eq_true, Bool.or_eq_true, Bool.not_eq_true',
    List.isEmpty_eq_false_iff, List.isEmpty_iff]
  grind

/-- The header of a table, if it has one, and its pairs. -/
def ownStatements (path : List String) (entries : List (String × Node)) : List Statement :=
  (if hasHeader path entries then [.table (.ofPath path)] else []) ++
    (pairsOf entries).map fun entry => .pair ⟨[], entry.1⟩ entry.2

mutual

def statementsOf (path : List String) : Node → List Statement
  | .table entries => ownStatements path entries ++ statementsBelow path entries
  | _ => []

def statementsBelow (path : List String) : List (String × Node) → List Statement
  | [] => []
  | (key, node) :: entries => statementsOf (path ++ [key]) node ++ statementsBelow path entries

end

/-! ## Texts -/

/-- Blocks are read one after the other. -/
inductive ReadsAll : List (List Char) → List Statement → Prop where
  | nil : ReadsAll [] []
  | cons {block : List Char} {blocks : List (List Char)} {found rest : List Statement}
    (hblock : Reads block found) (hblocks : ReadsAll blocks rest) :
    ReadsAll (block :: blocks) (found ++ rest)

theorem ReadsAll.append {blocks blocks' : List (List Char)} {found found' : List Statement}
    (hblocks : ReadsAll blocks found) (hblocks' : ReadsAll blocks' found') :
    ReadsAll (blocks ++ blocks') (found ++ found') := by
  induction hblocks with
  | nil => exact hblocks'
  | cons hblock _ ih =>
      rw [List.cons_append, List.append_assoc]
      exact .cons hblock ih

theorem ReadsAll.intercalate {blocks : List (List Char)} {found : List Statement}
    (hblocks : ReadsAll blocks found) : Reads (List.intercalate ['\n'] blocks) found := by
  induction hblocks with
  | nil => exact reads_nil
  | @cons block blocks found rest hblock hblocks ih =>
      cases blocks with
      | nil =>
          cases hblocks
          rw [List.intercalate_singleton, List.append_nil]
          exact hblock
      | cons next blocks =>
          rw [List.intercalate_cons_cons]
          simpa using (hblock.append reads_emptyLine).append ih

theorem reads_pairs {pairs : List (String × Node)}
    (hnames : ∀ entry ∈ pairs, isName entry.1 = true) {lines : List (List Char)}
    (hlines : pairs.mapM (fun entry => (valueText? entry.2).map fun text =>
      entry.1.toList ++ " = ".toList ++ text ++ ['\n']) = some lines) :
    Reads lines.flatten (pairs.map fun entry => .pair ⟨[], entry.1⟩ entry.2) := by
  induction pairs generalizing lines with
  | nil =>
      obtain rfl : lines = [] := by simpa using hlines.symm
      exact reads_nil
  | cons entry pairs ih =>
      obtain ⟨hname, hnames⟩ := List.forall_mem_cons.mp hnames
      rw [List.mapM_cons] at hlines
      simp only [Option.bind_eq_bind, Option.bind_eq_some_iff, Option.map_eq_some_iff,
        Option.pure_def, Option.some.injEq] at hlines
      obtain ⟨line, ⟨text, htext, rfl⟩, lines, hrest, rfl⟩ := hlines
      exact (reads_pair hname htext).append (ih hnames hrest)

theorem length_of_mapM {α β : Type} {f : α → Option β} {as : List α} {bs : List β}
    (h : as.mapM f = some bs) : bs.length = as.length := by
  induction as generalizing bs with
  | nil =>
      obtain rfl : bs = [] := by simpa using h.symm
      rfl
  | cons a as ih =>
      rw [List.mapM_cons] at h
      simp only [Option.bind_eq_bind, Option.bind_eq_some_iff, Option.pure_def,
        Option.some.injEq] at h
      obtain ⟨b, -, bs, hbs, rfl⟩ := h
      simp [ih hbs]

theorem reads_block {path : List String} (hpath : ∀ key ∈ path, isName key = true)
    (hlength : path.length < deepest) {entries : List (String × Node)}
    (hnames : ∀ entry ∈ entries, isName entry.1 = true) {lines : List (List Char)}
    (hlines : block? path entries = some lines) :
    Reads lines.flatten (ownStatements path entries) := by
  obtain ⟨pairs, hpairs, rfl⟩ := Option.map_eq_some_iff.mp hlines
  have hread := reads_pairs
    (fun entry hentry => hnames entry (List.mem_filter.mp hentry).1) hpairs
  have hempty : pairs = [] ↔ pairsOf entries = [] := by
    rw [← List.length_eq_zero_iff, length_of_mapM hpairs, List.length_eq_zero_iff]
    rfl
  simp only [hempty, List.flatten_append]
  refine Reads.append ?_ hread
  split
  next hnone =>
    rw [if_neg (mt (hasHeader_iff path entries).mp (not_not_intro hnone))]
    exact reads_nil
  next hheader =>
    have hne : path ≠ [] := fun hnil => hheader (.inl hnil)
    rw [if_pos ((hasHeader_iff path entries).mpr hheader), List.flatten_cons, List.flatten_nil,
      List.append_nil]
    exact reads_header hne hpath hlength

theorem reads_entryBlocks {path : List String} {entries : List (String × Node)}
    (hentries : ∀ entry ∈ entries, ∀ blocks, blocks? (path ++ [entry.1]) entry.2 = some blocks →
      ReadsAll blocks (statementsOf (path ++ [entry.1]) entry.2)) {blocks : List (List Char)}
    (hblocks : entryBlocks? path entries = some blocks) :
    ReadsAll blocks (statementsBelow path entries) := by
  induction entries generalizing blocks with
  | nil =>
      obtain rfl : [] = blocks := by simpa [entryBlocks?] using hblocks
      exact .nil
  | cons entry entries ih =>
      obtain ⟨key, node⟩ := entry
      obtain ⟨hentry, hentries⟩ := List.forall_mem_cons.mp hentries
      simp only [entryBlocks?, Option.bind_eq_bind, Option.bind_eq_some_iff,
        Option.some.injEq] at hblocks
      obtain ⟨own, hown, below, hbelow, rfl⟩ := hblocks
      exact (hentry own hown).append (ih hentries hbelow)

/-- Whenever a tidy tree has blocks, they are read as its statements. -/
theorem reads_blocks {node : Node} (htidy : node.IsTidy) {path : List String}
    (hpath : ∀ key ∈ path, isName key = true) (hdepth : path.length + node.depth ≤ deepest)
    {blocks : List (List Char)} (hblocks : blocks? path node = some blocks) :
    ReadsAll blocks (statementsOf path node) := by
  induction htidy generalizing path blocks with
  | @value node hvalue =>
      cases node with
      | table entries => exact absurd rfl (hvalue entries)
      | _ =>
          obtain rfl : [] = blocks := by simpa [blocks?] using hblocks
          exact .nil
  | @table entries hnodup hnames htidy ih =>
      simp only [blocks?, Option.bind_eq_bind, Option.bind_eq_some_iff, Option.some.injEq]
        at hblocks
      obtain ⟨lines, hlines, below, hbelow, rfl⟩ := hblocks
      simp only [Node.depth] at hdepth
      have hown := reads_block hpath (by omega) hnames hlines
      have hrest : ReadsAll below (statementsBelow path entries) := by
        refine reads_entryBlocks ?_ hbelow
        intro entry hentry own hblocks
        have hinner := entryDepth_le.mp (Nat.le_refl (entryDepth entries)) entry hentry
        refine ih entry hentry ?_ ?_ hblocks
        · intro key hkey
          rcases List.mem_append.mp hkey with hkey | hkey
          · exact hpath key hkey
          · obtain rfl := List.mem_singleton.mp hkey
            exact hnames entry hentry
        · rw [List.length_append, List.length_singleton]
          omega
      split
      next hempty =>
        rw [hempty, List.flatten_nil] at hown
        rw [statementsOf, hown.eq_nil]
        exact hrest
      next => exact .cons hown hrest

/-! ## Success -/

theorem isSome_mapM {α β : Type} {f : α → Option β} {as : List α} :
    (as.mapM f).isSome ↔ ∀ a ∈ as, (f a).isSome := by
  induction as with
  | nil => simp
  | cons a as ih =>
      rw [List.mapM_cons, List.forall_mem_cons, ← ih]
      cases f a <;> cases as.mapM f <;> simp

theorem isSome_block? {path : List String} {entries : List (String × Node)} :
    (block? path entries).isSome ↔
      ∀ entry ∈ entries, isTable entry.2 = false → (valueText? entry.2).isSome := by
  rw [block?, Option.isSome_map, pairLines?, isSome_mapM]
  simp only [Option.isSome_map, List.mem_filter, Bool.not_eq_true', and_imp]

theorem isSome_entryBlocks? {path : List String} {entries : List (String × Node)} :
    (entryBlocks? path entries).isSome ↔
      ∀ entry ∈ entries, (blocks? (path ++ [entry.1]) entry.2).isSome := by
  induction entries with
  | nil => simp [entryBlocks?]
  | cons entry entries ih =>
      obtain ⟨key, node⟩ := entry
      rw [List.forall_mem_cons, ← ih, entryBlocks?]
      cases blocks? (path ++ [key]) node <;> cases entryBlocks? path entries <;> simp

/-- A table has blocks exactly if every value in it has a text. -/
theorem isSome_blocks? {node : Node} (htable : isTable node = true) (path : List String) :
    (blocks? path node).isSome ↔ ∀ value ∈ node.values, (valueText? value).isSome := by
  induction node using Node.induct generalizing path with
  | scalar node hscalar => cases node <;> contradiction
  | list items => contradiction
  | table entries ih =>
      have hparts : (blocks? path (.table entries)).isSome ↔
          (block? path entries).isSome ∧ (entryBlocks? path entries).isSome := by
        rw [blocks?]
        cases block? path entries <;> cases entryBlocks? path entries <;> simp
      rw [hparts, isSome_block?, isSome_entryBlocks?, Node.values]
      constructor
      · rintro ⟨hpairs, hbelow⟩ value hvalue
        obtain ⟨⟨key, node⟩, hentry, hvalue⟩ := mem_entryValues.mp hvalue
        cases hinner : isTable node with
        | true => exact (ih _ hentry hinner _).mp (hbelow _ hentry) value hvalue
        | false =>
            have hpair := hpairs _ hentry hinner
            cases node with
            | table entries => contradiction
            | _ =>
                obtain rfl := List.mem_singleton.mp hvalue
                exact hpair
      · intro hvalues
        have hentries : ∀ entry ∈ entries, ∀ value ∈ entry.2.values,
            (valueText? value).isSome :=
          fun entry hentry value hvalue =>
            hvalues value (mem_entryValues.mpr ⟨entry, hentry, hvalue⟩)
        constructor
        · rintro ⟨key, node⟩ hentry hinner
          apply hentries _ hentry node
          cases node with
          | table entries => contradiction
          | _ => exact List.mem_singleton_self _
        · rintro ⟨key, node⟩ hentry
          cases hinner : isTable node with
          | true => exact (ih _ hentry hinner _).mpr (hentries _ hentry)
          | false => cases node <;> first | contradiction | rfl

theorem isSome_print? (entries : List (String × Node)) :
    (print? (.table entries)).isSome ↔
      ∀ value ∈ entryValues entries, (valueText? value).isSome := by
  have htable : isTable (.table entries) = true := rfl
  rw [print?, if_pos htable, Option.isSome_map, isSome_blocks? htable, Node.values]

/-! ## The whole text -/

theorem dropMark_eq {text : List Char} {found : List Statement} {lines : Nat}
    (hread : statements? lines text = some found) : dropMark text = text := by
  unfold dropMark
  split
  next rest =>
    cases lines with
    | zero => cases hread
    | succ lines =>
        have hskip : skipBlanks ('\ufeff' :: rest) = '\ufeff' :: rest :=
          List.dropWhile_cons_of_neg (by decide)
        have hbare : isBareKeyChar '\ufeff' = false := by decide
        have hkey : simpleKey? ('\ufeff' :: rest) = none := by simp [simpleKey?, hbare]
        simp [statements?, hskip, pair?, key?, keyParts?, hkey] at hread
  next => rfl

/-- The text of a tidy table, with nothing but empty lines behind it, is read as the statements of
the table. -/
theorem parse?_statements {node : Node} (htidy : node.IsTidy) (hdepth : node.depth ≤ deepest)
    {text : String} (hprint : print? node = some text) {behind : List Char}
    (hbehind : Reads behind []) :
    parse? (text ++ String.ofList behind) = tableOfStatements? (statementsOf [] node) := by
  unfold print? at hprint
  split at hprint
  next =>
    obtain ⟨blocks, hblocks, rfl⟩ := Option.map_eq_some_iff.mp hprint
    have hreads := ((reads_blocks htidy (List.forall_mem_nil _) (by simpa using hdepth)
      hblocks).intercalate).append hbehind
    rw [List.append_nil] at hreads
    obtain ⟨lines, hlines, hread⟩ := hreads
    have hread := hread
      ((List.intercalate ['\n'] blocks ++ behind).length - lines + 1) []
    have hcount : (List.intercalate ['\n'] blocks ++ behind).length - lines + 1 + lines =
        (List.intercalate ['\n'] blocks ++ behind).length + 1 := by
      omega
    rw [hcount, List.append_nil, statements?_nil, Option.map_some, List.append_nil] at hread
    simp only [parse?, ← String.ofList_append, String.toList_ofList, dropMark_eq hread, hread,
      Option.bind_eq_bind, Option.bind_some]
  next => cases hprint

end ChainRegistry.Toml
