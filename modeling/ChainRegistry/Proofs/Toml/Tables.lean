import ChainRegistry.Document.Toml.Tables
import ChainRegistry.Proofs.Toml.Statements

/-!
# Tables of a written tree

The statements of a tidy tree build its tables one after the other.  The way to the open table leads
through the last table of each level, so a header or a pair only adds something behind what is
there.  A table without a header comes to be on the way to the first table in it.  In the end every
table has its values in front of its tables, and nothing else has changed.
-/

namespace ChainRegistry.Toml

open Node Item

/-! ## The way to the open table -/

/-- A table that is being built behind its siblings. -/
structure Frame where
  earlier : List (String × Item)
  key : String
  kind : TableKind
  fresh : key ∉ earlier.map Prod.fst

def plug : List Frame → List (String × Item) → List (String × Item)
  | [], entries => entries
  | frame :: frames, entries =>
    frame.earlier ++ [(frame.key, .table frame.kind (plug frames entries))]

theorem plug_concat (frames : List Frame) (frame : Frame) (entries : List (String × Item)) :
    plug (frames ++ [frame]) entries =
      plug frames (frame.earlier ++ [(frame.key, .table frame.kind entries)]) := by
  induction frames with
  | nil => rfl
  | cons first frames ih => simp only [List.cons_append, plug, ih]

theorem alter?_of_fresh {key : String} {earlier : List (String × Item)}
    (hfresh : key ∉ earlier.map Prod.fst) (change? : Option Item → Option Item)
    (entries : List (String × Item)) :
    alter? key change? (earlier ++ entries) = (alter? key change? entries).map (earlier ++ ·) := by
  induction earlier with
  | nil => simp
  | cons entry earlier ih =>
      simp only [List.map_cons, List.mem_cons, not_or] at hfresh
      obtain ⟨hkey, hfresh⟩ := hfresh
      rw [List.cons_append, alter?, if_neg (Ne.symm hkey), ih hfresh, Option.map_map]
      rfl

/-- Going down the way changes what stands at its end. -/
theorem descend?_plug (frames : List Frame) (path : List String)
    (change? : List (String × Item) → Option (List (String × Item)))
    (entries : List (String × Item)) :
    descend? false (frames.map Frame.key ++ path) change? (plug frames entries) =
      (descend? false path change? entries).map (plug frames) := by
  induction frames with
  | nil =>
      simp [plug]
  | cons frame frames ih =>
      simp only [List.map_cons, List.cons_append, descend?, plug, alter?_of_fresh frame.fresh,
        alter?, if_pos, enter?, Bool.false_and, Bool.false_eq_true, if_false, ih, Option.map_map]
      rfl

/-- On the way to something below it a table is found as it would be made. -/
theorem descend?_implied (frames : List Frame) {entries : List (String × Item)} {key : String}
    (hfresh : key ∉ entries.map Prod.fst) (path : List String)
    (change? : List (String × Item) → Option (List (String × Item))) :
    descend? false (frames.map Frame.key ++ key :: path) change? (plug frames entries) =
      descend? false (frames.map Frame.key ++ key :: path) change?
        (plug frames (entries ++ [(key, .table .implied [])])) := by
  have habsent := alter?_of_fresh hfresh (enter? false (descend? false path change?)) []
  rw [List.append_nil] at habsent
  rw [descend?_plug, descend?_plug]
  simp only [descend?, habsent, alter?_of_fresh hfresh, alter?, enter?, if_pos, Bool.false_and,
    Bool.false_eq_true, if_false]

/-! ## One statement -/

theorem openTable?_of_fresh {entries : List (String × Item)} {key : String}
    (hfresh : key ∉ entries.map Prod.fst) :
    openTable? key entries = some (entries ++ [(key, .table .explicit [])]) := by
  have hlookup : entries.lookup key = none := by
    rw [List.lookup_eq_none_iff]
    rintro entry hentry
    simp only [bne_iff_ne, ne_eq]
    rintro rfl
    exact hfresh (List.mem_map_of_mem hentry)
  rw [openTable?, hlookup]

theorem step?_table (frames : List Frame) {entries : List (String × Item)} {key : String}
    (hfresh : key ∉ entries.map Prod.fst) (current : List String) :
    Draft.step? ⟨plug frames entries, current⟩
        (.table (.ofPath (frames.map Frame.key ++ [key]))) =
      some ⟨plug frames (entries ++ [(key, .table .explicit [])]),
        frames.map Frame.key ++ [key]⟩ := by
  have hdown := descend?_plug frames [] (openTable? key) entries
  rw [List.append_nil] at hdown
  simp only [Draft.step?, DottedKey.ofPath_append, hdown, descend?, openTable?_of_fresh hfresh,
    Option.map_some]

theorem step?_pair (frames : List Frame) {entries : List (String × Item)} {key : String}
    (hfresh : key ∉ entries.map Prod.fst) (node : Node) :
    Draft.step? ⟨plug frames entries, frames.map Frame.key⟩ (.pair ⟨[], key⟩ node) =
      some ⟨plug frames (entries ++ [(key, .value node)]), frames.map Frame.key⟩ := by
  have hdown := descend?_plug frames [] (addPair? ⟨[], key⟩ node) entries
  have hinsert := alter?_of_fresh hfresh (insert? node) []
  rw [List.append_nil] at hdown hinsert
  simp only [Draft.step?, hdown, descend?, addPair?, List.getLast?_nil, hinsert, alter?, insert?,
    Option.map_some]

/-- A table without a header may stand there before the first header below it. -/
theorem step?_implied (frames : List Frame) {entries : List (String × Item)} {key : String}
    (hfresh : key ∉ entries.map Prod.fst) {below : List String} (hbelow : below ≠ [])
    (current : List String) :
    Draft.step? ⟨plug frames entries, current⟩
        (.table (.ofPath (frames.map Frame.key ++ key :: below))) =
      Draft.step? ⟨plug frames (entries ++ [(key, .table .implied [])]), current⟩
        (.table (.ofPath (frames.map Frame.key ++ key :: below))) := by
  obtain ⟨parents, name, rfl⟩ : ∃ parents name, below = parents ++ [name] :=
    ⟨below.dropLast, below.getLast hbelow, (List.dropLast_concat_getLast hbelow).symm⟩
  have hpath : frames.map Frame.key ++ key :: (parents ++ [name]) =
      (frames.map Frame.key ++ key :: parents) ++ [name] := by
    simp
  simp only [Draft.step?, hpath, DottedKey.ofPath_append,
    descend?_implied frames hfresh parents (openTable? name)]

/-! ## All statements of a tree -/

/-- A table that holds nothing but tables gets no header. -/
def kindOf (entries : List (String × Node)) : TableKind :=
  if (pairsOf entries).isEmpty && !entries.isEmpty then .implied else .explicit

def valueItems (entries : List (String × Node)) : List (String × Item) :=
  (pairsOf entries).map fun entry => (entry.1, .value entry.2)

mutual

/-- What is built for a tree below the root. -/
def itemOf : Node → Item
  | .table entries => .table (kindOf entries) (valueItems entries ++ tableItems entries)
  | node => .value node

def tableItems : List (String × Node) → List (String × Item)
  | [] => []
  | (key, node) :: entries =>
    if isTable node then (key, itemOf node) :: tableItems entries else tableItems entries

end

theorem fresh_concat {entries : List (String × Item)} {later : List String} {key added : String}
    {item : Item} (hfresh : key ∉ entries.map Prod.fst) (hlater : key ∈ later)
    (hadded : added ∉ later) : key ∉ (entries ++ [(added, item)]).map Prod.fst := by
  intro hmem
  rw [List.map_append, List.mem_append] at hmem
  rcases hmem with hmem | hmem
  · exact hfresh hmem
  · obtain rfl : key = added := by simpa using hmem
    exact hadded hlater

theorem foldlM_pairs (frames : List Frame) {entries : List (String × Item)}
    {pairs : List (String × Node)} (hnodup : (pairs.map Prod.fst).Nodup)
    (hfresh : ∀ entry ∈ pairs, entry.1 ∉ entries.map Prod.fst) :
    (pairs.map fun entry => Statement.pair ⟨[], entry.1⟩ entry.2).foldlM Draft.step?
        ⟨plug frames entries, frames.map Frame.key⟩ =
      some ⟨plug frames (entries ++ pairs.map fun entry => (entry.1, .value entry.2)),
        frames.map Frame.key⟩ := by
  induction pairs generalizing entries with
  | nil => simp
  | cons pair pairs ih =>
      obtain ⟨hkey, hfresh⟩ := List.forall_mem_cons.mp hfresh
      rw [List.map_cons, List.nodup_cons] at hnodup
      have hfresh' : ∀ entry ∈ pairs,
          entry.1 ∉ (entries ++ [(pair.1, Item.value pair.2)]).map Prod.fst :=
        fun entry hentry => fresh_concat (hfresh entry hentry) (List.mem_map_of_mem hentry) hnodup.1
      rw [List.map_cons, List.foldlM_cons, step?_pair frames hkey, Option.bind_eq_bind,
        Option.bind_some, ih hnodup.2 hfresh']
      simp

theorem kindOf_ne_dotted (entries : List (String × Node)) : kindOf entries ≠ .dotted := by
  unfold kindOf
  split <;> simp

theorem kindOf_eq_implied {entries : List (String × Node)} (hkind : kindOf entries = .implied) :
    pairsOf entries = [] ∧ entries ≠ [] := by
  simpa [kindOf] using hkind

theorem ownStatements_of_implied {entries : List (String × Node)}
    (hkind : kindOf entries = .implied) (path : List String) : ownStatements path entries = [] := by
  obtain ⟨hpairs, hne⟩ := kindOf_eq_implied hkind
  simp [ownStatements, hasHeader, hpairs, hne]

theorem ownStatements_of_explicit {entries : List (String × Node)}
    (hkind : kindOf entries = .explicit) (path : List String) (key : String) :
    ownStatements (path ++ [key]) entries =
      .table (.ofPath (path ++ [key])) ::
        (pairsOf entries).map fun entry => .pair ⟨[], entry.1⟩ entry.2 := by
  have hheader : hasHeader (path ++ [key]) entries = true := by
    rw [hasHeader_iff]
    simpa [kindOf] using hkind
  rw [ownStatements, if_pos hheader, List.singleton_append]

theorem isTable_of_implied {entries : List (String × Node)} (hkind : kindOf entries = .implied) :
    ∀ entry ∈ entries, isTable entry.2 = true := by
  obtain ⟨hpairs, -⟩ := kindOf_eq_implied hkind
  simpa [pairsOf, List.filter_eq_nil_iff] using hpairs

theorem statementsBelow_eq_cons {entries : List (String × Node)}
    (hkind : kindOf entries = .implied)
    (hfirst : ∀ entry ∈ entries, isTable entry.2 = true → ∀ path key, ∃ below rest,
      statementsOf (path ++ [key]) entry.2 = .table (.ofPath (path ++ key :: below)) :: rest)
    (path : List String) :
    ∃ key below rest, statementsBelow path entries =
      .table (.ofPath (path ++ key :: below)) :: rest := by
  obtain ⟨-, hne⟩ := kindOf_eq_implied hkind
  obtain ⟨⟨key, node⟩, entries, rfl⟩ := List.exists_cons_of_ne_nil hne
  have htable := isTable_of_implied hkind _ List.mem_cons_self
  obtain ⟨below, rest, hfirst⟩ := hfirst _ List.mem_cons_self htable path key
  exact ⟨key, below, rest ++ statementsBelow path entries, by rw [statementsBelow, hfirst]; rfl⟩

theorem statementsOf_eq_cons {node : Node} (htable : isTable node = true) (path : List String)
    (key : String) :
    ∃ below rest, statementsOf (path ++ [key]) node =
      .table (.ofPath (path ++ key :: below)) :: rest := by
  induction node using Node.induct generalizing path key with
  | scalar node hscalar => cases node <;> contradiction
  | list items => contradiction
  | table entries ih =>
      cases hkind : kindOf entries with
      | implied =>
          obtain ⟨inner, below, rest, hfirst⟩ :=
            statementsBelow_eq_cons hkind ih (path ++ [key])
          refine ⟨inner :: below, rest, ?_⟩
          rw [statementsOf, ownStatements_of_implied hkind, List.nil_append, hfirst,
            List.append_assoc, List.singleton_append]
      | explicit =>
          exact ⟨[], _, by rw [statementsOf, ownStatements_of_explicit hkind]; rfl⟩
      | dotted => exact absurd hkind (kindOf_ne_dotted entries)

/-- The statements of a tree that is no value add its table behind what stands there. -/
def Builds (node : Node) : Prop :=
  ∀ (frames : List Frame) (entries : List (String × Item)) (key : String) (current : List String),
    key ∉ entries.map Prod.fst → ∃ current',
      (statementsOf (frames.map Frame.key ++ [key]) node).foldlM Draft.step?
          ⟨plug frames entries, current⟩ =
        some ⟨plug frames (entries ++ [(key, itemOf node)]), current'⟩

theorem foldlM_below {nodes : List (String × Node)}
    (hbuilds : ∀ entry ∈ nodes, isTable entry.2 = true → Builds entry.2)
    (hnodup : (nodes.map Prod.fst).Nodup) (frames : List Frame) {entries : List (String × Item)}
    (hfresh : ∀ entry ∈ nodes, isTable entry.2 = true → entry.1 ∉ entries.map Prod.fst)
    (current : List String) :
    ∃ current', (statementsBelow (frames.map Frame.key) nodes).foldlM Draft.step?
        ⟨plug frames entries, current⟩ =
      some ⟨plug frames (entries ++ tableItems nodes), current'⟩ := by
  induction nodes generalizing entries current with
  | nil => exact ⟨current, by simp [statementsBelow, tableItems]⟩
  | cons entry nodes ih =>
      obtain ⟨key, node⟩ := entry
      obtain ⟨hbuild, hbuilds⟩ := List.forall_mem_cons.mp hbuilds
      obtain ⟨hkey, hfresh⟩ := List.forall_mem_cons.mp hfresh
      rw [List.map_cons, List.nodup_cons] at hnodup
      cases htable : isTable node with
      | false =>
          have hnone : statementsOf (frames.map Frame.key ++ [key]) node = [] := by
            cases node <;> first | contradiction | rfl
          rw [statementsBelow, hnone, List.nil_append, tableItems, if_neg (by simp [htable])]
          exact ih hbuilds hnodup.2 hfresh current
      | true =>
          have hfresh' : ∀ entry ∈ nodes, isTable entry.2 = true →
              entry.1 ∉ (entries ++ [(key, itemOf node)]).map Prod.fst :=
            fun entry hentry hinner =>
              fresh_concat (hfresh entry hentry hinner) (List.mem_map_of_mem hentry) hnodup.1
          obtain ⟨inside, hown⟩ := hbuild htable frames entries key current (hkey htable)
          obtain ⟨current', hrest⟩ := ih hbuilds hnodup.2 hfresh' inside
          refine ⟨current', ?_⟩
          rw [statementsBelow, List.foldlM_append, hown, Option.bind_eq_bind, Option.bind_some,
            hrest, tableItems, if_pos htable, List.append_assoc, List.singleton_append]

theorem nodup_pairsOf {entries : List (String × Node)} (hnodup : (entries.map Prod.fst).Nodup) :
    ((pairsOf entries).map Prod.fst).Nodup :=
  hnodup.sublist (List.filter_sublist.map Prod.fst)

theorem fresh_valueItems {entries : List (String × Node)}
    (hnodup : (entries.map Prod.fst).Nodup) :
    ∀ entry ∈ entries, isTable entry.2 = true →
      entry.1 ∉ (valueItems entries).map Prod.fst := by
  rintro ⟨key, node⟩ hentry htable hmem
  simp only [valueItems, List.map_map, List.mem_map, Function.comp_apply] at hmem
  obtain ⟨⟨key', value⟩, hpair, rfl⟩ := hmem
  obtain ⟨hvalue, hnone⟩ := List.mem_filter.mp hpair
  obtain rfl : node = value :=
    Option.some.inj (((find?_eq_some_iff hnodup).mpr hentry).symm.trans
      ((find?_eq_some_iff hnodup).mpr hvalue))
  simp [htable] at hnone

theorem builds {node : Node} (htidy : node.IsTidy) (htable : isTable node = true) :
    Builds node := by
  induction htidy with
  | @value node hvalue =>
      cases node with
      | table entries => exact absurd rfl (hvalue entries)
      | _ => contradiction
  | @table nodes hnodup hnames htidy ih =>
      intro frames entries key current hfresh
      have hempty : ∀ entry ∈ pairsOf nodes, entry.1 ∉ ([] : List (String × Item)).map Prod.fst :=
        fun _ _ => List.not_mem_nil
      have hpairs (kind : TableKind) := foldlM_pairs (frames ++ [⟨entries, key, kind, hfresh⟩])
        (nodup_pairsOf hnodup) hempty
      have hbelow (kind : TableKind) := foldlM_below (fun entry hentry => ih entry hentry) hnodup
        (frames ++ [⟨entries, key, kind, hfresh⟩]) (fresh_valueItems hnodup)
      simp only [List.map_append, List.map_cons, List.map_nil, plug_concat, List.nil_append]
        at hpairs hbelow
      rw [statementsOf, itemOf]
      cases hkind : kindOf nodes with
      | implied =>
          -- The table is not there yet, and the first header below it makes it.
          have hvalues : valueItems nodes = [] := by
            simp [valueItems, kindOf_eq_implied hkind]
          obtain ⟨inner, below, rest, hfirst⟩ := statementsBelow_eq_cons hkind
            (fun _ _ htable => statementsOf_eq_cons htable) (frames.map Frame.key ++ [key])
          obtain ⟨current', hrun⟩ := hbelow .implied current
          refine ⟨current', ?_⟩
          rw [← hrun, ownStatements_of_implied hkind, List.nil_append, hvalues, hfirst,
            List.append_assoc, List.singleton_append, List.foldlM_cons, List.foldlM_cons,
            step?_implied frames hfresh (List.cons_ne_nil inner below)]
      | explicit =>
          obtain ⟨current', hrun⟩ := hbelow .explicit (frames.map Frame.key ++ [key])
          refine ⟨current', ?_⟩
          rw [ownStatements_of_explicit hkind, List.cons_append, List.foldlM_cons,
            step?_table frames hfresh, Option.bind_eq_bind, Option.bind_some, List.foldlM_append,
            hpairs, Option.bind_eq_bind, Option.bind_some]
          exact hrun
      | dotted => exact absurd hkind (kindOf_ne_dotted nodes)

/-! ## The tree that is read -/

/-- The tree with the values of every table in front of its tables. -/
def arrange (node : Node) : Node :=
  (itemOf node).toNode

def arrangedEntries (entries : List (String × Node)) : List (String × Node) :=
  ((pairsOf entries) ++ entries.filter fun entry => isTable entry.2).map fun entry =>
    (entry.1, arrange entry.2)

theorem toEntries_eq_map (items : List (String × Item)) :
    toEntries items = items.map fun item => (item.1, item.2.toNode) := by
  induction items with
  | nil => rfl
  | cons item items ih => simp [toEntries, ih]

theorem tableItems_eq_map (entries : List (String × Node)) :
    tableItems entries =
      (entries.filter fun entry => isTable entry.2).map fun entry => (entry.1, itemOf entry.2) := by
  induction entries with
  | nil => rfl
  | cons entry entries ih =>
      obtain ⟨key, node⟩ := entry
      rw [tableItems, ih, List.filter_cons]
      split <;> rfl

theorem arrange_of_not_table {node : Node} (hnode : isTable node = false) :
    arrange node = node := by
  cases node <;> first | contradiction | rfl

theorem toEntries_items (entries : List (String × Node)) :
    toEntries (valueItems entries ++ tableItems entries) = arrangedEntries entries := by
  have hvalues : ∀ entry ∈ pairsOf entries, (entry.1, entry.2) = (entry.1, arrange entry.2) := by
    intro entry hentry
    have hnone := (List.mem_filter.mp hentry).2
    rw [arrange_of_not_table (by simpa using hnone)]
  rw [toEntries_eq_map, List.map_append, arrangedEntries, List.map_append, valueItems,
    tableItems_eq_map, List.map_map, List.map_map]
  congr 1
  exact List.map_congr_left hvalues

theorem arrange_table (entries : List (String × Node)) :
    arrange (.table entries) = .table (arrangedEntries entries) := by
  rw [arrange, itemOf, toNode, toEntries_items]

/-- Without tables in it, a table keeps its order. -/
theorem arrange_of_flat {entries : List (String × Node)}
    (hflat : ∀ entry ∈ entries, isTable entry.2 = false) :
    arrange (.table entries) = .table entries := by
  have hpairs : pairsOf entries = entries := by
    rw [pairsOf, List.filter_eq_self]
    simpa using hflat
  have htables : entries.filter (fun entry => isTable entry.2) = [] := by
    rw [List.filter_eq_nil_iff]
    simpa using hflat
  have hsame : entries.map (fun entry => (entry.1, arrange entry.2)) = entries.map id :=
    List.map_congr_left fun entry hentry => by
      rw [arrange_of_not_table (hflat entry hentry), id]
  rw [arrange_table, arrangedEntries, hpairs, htables, List.append_nil, hsame, List.map_id]

/-- The statements of a tidy table build it again, with its values in front. -/
theorem tableOfStatements?_statementsOf {entries : List (String × Node)}
    (htidy : (Node.table entries).IsTidy) :
    tableOfStatements? (statementsOf [] (.table entries)) = some (arrange (.table entries)) := by
  cases htidy with
  | value hvalue => exact absurd rfl (hvalue entries)
  | table hnodup hnames htidy =>
      have hroot : ownStatements [] entries =
          (pairsOf entries).map fun entry => .pair ⟨[], entry.1⟩ entry.2 := rfl
      have hempty : ∀ entry ∈ pairsOf entries, entry.1 ∉ ([] : List (String × Item)).map Prod.fst :=
        fun _ _ => List.not_mem_nil
      have hpairs := foldlM_pairs [] (nodup_pairsOf hnodup) hempty
      obtain ⟨current', hbelow⟩ := foldlM_below
        (fun entry hentry => builds (htidy entry hentry)) hnodup [] (fresh_valueItems hnodup) []
      simp only [plug, List.map_nil, List.nil_append] at hpairs hbelow
      rw [tableOfStatements?, statementsOf, hroot, List.foldlM_append, hpairs, Option.bind_eq_bind,
        Option.bind_some, ← valueItems, hbelow, Option.map_some, toEntries_items, arrange_table]

/-- The text of a tidy tree of bounded depth, and empty lines behind it, are read as the arranged
tree. -/
theorem parse?_print?_append {node : Node} (htidy : node.IsTidy) (hdepth : node.depth ≤ deepest)
    {text : String} (hprint : print? node = some text) {behind : List Char}
    (hbehind : Reads behind []) :
    parse? (text ++ String.ofList behind) = some (arrange node) := by
  rw [parse?_statements htidy hdepth hprint hbehind]
  cases node with
  | table entries => exact tableOfStatements?_statementsOf htidy
  | _ => cases hprint

theorem parse?_print? {node : Node} (htidy : node.IsTidy) (hdepth : node.depth ≤ deepest)
    {text : String} (hprint : print? node = some text) : parse? text = some (arrange node) := by
  simpa using parse?_print?_append htidy hdepth hprint reads_nil

theorem arrangedEntries_perm (entries : List (String × Node)) :
    (arrangedEntries entries).Perm (entries.map fun entry => (entry.1, arrange entry.2)) := by
  apply List.Perm.map _
  have hsplit := List.filter_append_perm (fun entry => isTable entry.2) entries
  exact List.perm_append_comm.trans hsplit

theorem nodup_arrangedEntries {entries : List (String × Node)}
    (hnodup : (entries.map Prod.fst).Nodup) : ((arrangedEntries entries).map Prod.fst).Nodup := by
  rw [((arrangedEntries_perm entries).map Prod.fst).nodup_iff, List.map_map]
  exact hnodup

theorem isTidy_arrange {node : Node} (htidy : node.IsTidy) : (arrange node).IsTidy := by
  induction htidy with
  | @value node hvalue =>
      rw [arrange_of_not_table (by cases node <;> first | rfl | exact absurd rfl (hvalue _))]
      exact .value hvalue
  | @table entries hnodup hnames _ ih =>
      rw [arrange_table]
      refine .table (nodup_arrangedEntries hnodup) ?_ ?_
      all_goals
        intro entry hentry
        rw [(arrangedEntries_perm entries).mem_iff] at hentry
        obtain ⟨before, hbefore, rfl⟩ := List.mem_map.mp hentry
      · exact hnames before hbefore
      · exact ih before hbefore

/-- Arranging changes neither the values of a tree nor its keys. -/
theorem forall_mem_arrange {node : Node} {p : Node → Prop} {q : String → Prop}
    (hvalues : ∀ value ∈ node.values, p value) (hkeys : ∀ key ∈ node.keys, q key) :
    (∀ value ∈ (arrange node).values, p value) ∧ ∀ key ∈ (arrange node).keys, q key := by
  induction node using Node.induct with
  | scalar node hscalar =>
      rw [arrange_of_not_table (by cases node <;> first | rfl | contradiction)]
      exact ⟨hvalues, hkeys⟩
  | list items => exact ⟨hvalues, hkeys⟩
  | table entries ih =>
      rw [arrange_table]
      have hentries : ∀ entry ∈ arrangedEntries entries, ∃ before ∈ entries,
          entry = (before.1, Toml.arrange before.2) := by
        intro entry hentry
        rw [(arrangedEntries_perm entries).mem_iff] at hentry
        obtain ⟨before, hbefore, rfl⟩ := List.mem_map.mp hentry
        exact ⟨before, hbefore, rfl⟩
      rw [Node.keys, forall_mem_entryKeys] at hkeys
      simp only [Node.values, mem_entryValues] at hvalues
      have hinner (before : String × Node) (hbefore : before ∈ entries) :=
        ih before hbefore (fun value hvalue => hvalues value ⟨before, hbefore, hvalue⟩)
          (hkeys before hbefore).2
      constructor
      · intro value hvalue
        obtain ⟨entry, hentry, hvalue⟩ := mem_entryValues.mp hvalue
        obtain ⟨before, hbefore, rfl⟩ := hentries entry hentry
        exact (hinner before hbefore).1 value hvalue
      · rw [Node.keys, forall_mem_entryKeys]
        intro entry hentry
        obtain ⟨before, hbefore, rfl⟩ := hentries entry hentry
        exact ⟨(hkeys before hbefore).1, (hinner before hbefore).2⟩

theorem isObject_arrange {node : Node} (hnode : node.IsObject) : (arrange node).IsObject := by
  cases node with
  | table entries =>
      rw [arrange_table]
      exact nodup_arrangedEntries hnode
  | _ => exact hnode.elim

/-- Arranging moves nothing to another path. -/
theorem at?_arrange {tree : Node} (htidy : tree.IsTidy) {path : List String} {node : Node}
    (hat : tree.at? path = some node) : (arrange tree).at? path = some (arrange node) := by
  induction path generalizing tree with
  | nil =>
      obtain rfl := Option.some.inj hat
      rfl
  | cons key path ih =>
      cases htidy with
      | value hvalue =>
          cases tree with
          | table entries => exact absurd rfl (hvalue entries)
          | _ => cases hat
      | @table entries hnodup hnames htidy =>
          obtain ⟨inner, hfind, hinner⟩ := Option.bind_eq_some_iff.mp hat
          have hentry := (find?_eq_some_iff hnodup).mp hfind
          have hmoved : find? key (arrangedEntries entries) = some (arrange inner) := by
            rw [find?_eq_some_iff (nodup_arrangedEntries hnodup),
              (arrangedEntries_perm entries).mem_iff]
            exact List.mem_map.mpr ⟨_, hentry, rfl⟩
          rw [arrange_table, Node.at?, hmoved, Option.bind_some]
          exact ih (htidy _ hentry) hinner

end ChainRegistry.Toml
