import ChainRegistry.Proofs.Alike
import ChainRegistry.Proofs.Toml.Tables

/-!
# What TOML can say

Whatever document is read, the tree that comes of it holds no null and nothing illegible, its
integers are signed numbers of sixty-four bits, and no key stands twice in one of its tables.
Numbers are checked where they are read.  Keys are checked where tables are built: every change to
a table either enters an entry that is there or adds one under a fresh key.
-/

namespace ChainRegistry.Toml

/-- What may stand in a document, as far as the node itself is concerned. -/
def isProper : Node → Bool
  | .null => false
  | .int i => Numeral.isSigned64 i
  | .table entries => decide (entries.map Prod.fst).Nodup
  | .illegible => false
  | _ => true

def Proper (tree : Node) : Prop :=
  tree.everywhere isProper = true

/-! ## Tables -/

namespace Item

def IsProper (item : Item) : Prop :=
  Proper item.toNode

def AreProper (entries : List (String × Item)) : Prop :=
  Proper (.table (toEntries entries))

theorem areProper_iff {entries : List (String × Item)} :
    AreProper entries ↔
      (entries.map Prod.fst).Nodup ∧ ∀ entry ∈ entries, entry.2.IsProper := by
  rw [AreProper, Proper, Node.everywhere_table, toEntries_eq_map, isProper, decide_eq_true_iff,
    List.map_map, List.forall_mem_map]
  rfl

theorem areProper_nil : AreProper [] :=
  areProper_iff.mpr ⟨List.nodup_nil, by simp⟩

theorem isProper_elements {earlier : List Node} {last : List (String × Item)} :
    (elements earlier last).IsProper ↔
      (∀ node ∈ earlier, Proper node) ∧ AreProper last := by
  rw [IsProper, Proper, toNode, Node.everywhere_list, List.forall_mem_append,
    List.forall_mem_singleton]
  exact and_iff_right rfl

/-- The change leads from proper entries to proper ones. -/
def KeepsProper (change? : List (String × Item) → Option (List (String × Item))) : Prop :=
  ∀ entries entries', AreProper entries → change? entries = some entries' → AreProper entries'

/-- The change gives a proper item, whether in place of a proper one or of none. -/
def GivesProper (change? : Option Item → Option Item) : Prop :=
  ∀ old item, (∀ there ∈ old, there.IsProper) → change? old = some item → item.IsProper

theorem keys_alter? {key : String} {change? : Option Item → Option Item}
    {entries entries' : List (String × Item)}
    (halter : alter? key change? entries = some entries') :
    entries'.map Prod.fst = if key ∈ entries.map Prod.fst then entries.map Prod.fst
      else entries.map Prod.fst ++ [key] := by
  induction entries generalizing entries' with
  | nil =>
      obtain ⟨item, -, rfl⟩ := Option.map_eq_some_iff.mp halter
      rfl
  | cons entry entries ih =>
      obtain ⟨k, there⟩ := entry
      by_cases hkey : k = key
      · rw [alter?, if_pos hkey] at halter
        obtain ⟨item, -, rfl⟩ := Option.map_eq_some_iff.mp halter
        simp [hkey]
      · rw [alter?, if_neg hkey] at halter
        obtain ⟨rest, hrest, rfl⟩ := Option.map_eq_some_iff.mp halter
        simp only [List.map_cons, ih hrest, List.mem_cons, Ne.symm hkey, false_or]
        split <;> rfl

theorem isProper_of_mem_alter? {key : String} {change? : Option Item → Option Item}
    (hchange : GivesProper change?) {entries entries' : List (String × Item)}
    (hentries : ∀ entry ∈ entries, entry.2.IsProper)
    (halter : alter? key change? entries = some entries') :
    ∀ entry ∈ entries', entry.2.IsProper := by
  induction entries generalizing entries' with
  | nil =>
      obtain ⟨item, hitem, rfl⟩ := Option.map_eq_some_iff.mp halter
      rw [List.forall_mem_singleton]
      exact hchange none item (by simp) hitem
  | cons entry entries ih =>
      obtain ⟨k, there⟩ := entry
      rw [List.forall_mem_cons] at hentries
      by_cases hkey : k = key
      · rw [alter?, if_pos hkey] at halter
        obtain ⟨item, hitem, rfl⟩ := Option.map_eq_some_iff.mp halter
        exact List.forall_mem_cons.mpr
          ⟨hchange (some there) item (by simpa using hentries.1) hitem, hentries.2⟩
      · rw [alter?, if_neg hkey] at halter
        obtain ⟨rest, hrest, rfl⟩ := Option.map_eq_some_iff.mp halter
        exact List.forall_mem_cons.mpr ⟨hentries.1, ih hentries.2 hrest⟩

theorem nodup_fresh {keys : List String} {key : String} (hnodup : keys.Nodup)
    (hfresh : key ∉ keys) : (keys ++ [key]).Nodup := by
  refine List.nodup_append.mpr ⟨hnodup, List.nodup_cons.mpr ⟨List.not_mem_nil, List.nodup_nil⟩, ?_⟩
  rintro k hk _ hkey rfl
  exact hfresh (List.mem_singleton.mp hkey ▸ hk)

theorem keepsProper_alter? {change? : Option Item → Option Item} (hchange : GivesProper change?)
    (key : String) : KeepsProper (alter? key change?) := by
  intro entries entries' hentries halter
  obtain ⟨hnodup, hitems⟩ := areProper_iff.mp hentries
  refine areProper_iff.mpr ⟨?_, isProper_of_mem_alter? hchange hitems halter⟩
  rw [keys_alter? halter]
  split
  next => exact hnodup
  next hfresh => exact nodup_fresh hnodup hfresh

theorem givesProper_enter? {change? : List (String × Item) → Option (List (String × Item))}
    (hchange : KeepsProper change?) (dotted : Bool) : GivesProper (enter? dotted change?) := by
  intro old item hold henter
  match old with
  | none =>
      obtain ⟨entries, hentries, rfl⟩ := Option.map_eq_some_iff.mp henter
      exact hchange [] entries areProper_nil hentries
  | some (.table kind inner) =>
      rw [enter?, Option.ite_none_left_eq_some] at henter
      obtain ⟨entries, hentries, rfl⟩ := Option.map_eq_some_iff.mp henter.2
      exact hchange inner entries (hold _ rfl) hentries
  | some (.elements earlier last) =>
      obtain ⟨entries, hentries, rfl⟩ := Option.map_eq_some_iff.mp henter
      obtain ⟨hearlier, hlast⟩ := isProper_elements.mp (hold _ rfl)
      exact isProper_elements.mpr ⟨hearlier, hchange last entries hlast hentries⟩
  | some (.value node) => contradiction

theorem givesProper_enterDotted? {change? : List (String × Item) → Option (List (String × Item))}
    (hchange : KeepsProper change?) : GivesProper (enterDotted? change?) := by
  intro old item hold henter
  unfold enterDotted? at henter
  split at henter
  next =>
    obtain ⟨entries, hentries, rfl⟩ := Option.map_eq_some_iff.mp henter
    exact hchange [] entries areProper_nil hentries
  next inner =>
    obtain ⟨entries, hentries, rfl⟩ := Option.map_eq_some_iff.mp henter
    exact hchange inner entries (hold _ rfl) hentries
  next => contradiction

theorem keepsProper_descend? {change? : List (String × Item) → Option (List (String × Item))}
    (hchange : KeepsProper change?) (dotted : Bool) (path : List String) :
    KeepsProper (descend? dotted path change?) := by
  induction path with
  | nil => exact hchange
  | cons key path ih => exact keepsProper_alter? (givesProper_enter? ih dotted) key

theorem givesProper_insert? {node : Node} (hnode : Proper node) :
    GivesProper (insert? node) := by
  intro old item _ hinsert
  cases old with
  | none =>
      obtain rfl := Option.some.inj hinsert
      exact hnode
  | some there => contradiction

theorem keepsProper_addPair? {node : Node} (hnode : Proper node)
    (key : DottedKey) : KeepsProper (addPair? key node) := by
  intro entries entries' hentries hadd
  have hinsert : KeepsProper (alter? key.name (insert? node)) :=
    keepsProper_alter? (givesProper_insert? hnode) key.name
  unfold addPair? at hadd
  split at hadd
  next => exact hinsert entries entries' hentries hadd
  next parent _ =>
    have hparent := keepsProper_alter? (givesProper_enterDotted? hinsert) parent
    exact keepsProper_descend? hparent true _ entries entries' hentries hadd

theorem givesProper_openElement? : GivesProper openElement? := by
  intro old item hold hopen
  unfold openElement? at hopen
  split at hopen
  next =>
    obtain rfl := Option.some.inj hopen
    exact isProper_elements.mpr ⟨by simp, areProper_nil⟩
  next earlier last =>
    obtain rfl := Option.some.inj hopen
    obtain ⟨hearlier, hlast⟩ := isProper_elements.mp (hold _ rfl)
    refine isProper_elements.mpr ⟨?_, areProper_nil⟩
    exact List.forall_mem_append.mpr ⟨hearlier, List.forall_mem_singleton.mpr hlast⟩
  next => contradiction

/-- A header opens a table at the end, under a key that does not stand before it. -/
theorem areProper_opened {key : String} {entries inner : List (String × Item)}
    (hentries : AreProper entries) (hfresh : key ∉ entries.map Prod.fst)
    (hinner : AreProper inner) :
    AreProper (entries ++ [(key, .table .explicit inner)]) := by
  obtain ⟨hnodup, hitems⟩ := areProper_iff.mp hentries
  refine areProper_iff.mpr ⟨?_, List.forall_mem_append.mpr ⟨hitems, ?_⟩⟩
  · rw [List.map_append]
    exact nodup_fresh hnodup hfresh
  · exact List.forall_mem_singleton.mpr hinner

theorem keepsProper_openTable? (key : String) : KeepsProper (openTable? key) := by
  intro entries entries' hentries hopen
  obtain ⟨hnodup, hitems⟩ := areProper_iff.mp hentries
  unfold openTable? at hopen
  split at hopen
  next hnone =>
    obtain rfl := Option.some.inj hopen
    refine areProper_opened hentries ?_ areProper_nil
    intro hmem
    obtain ⟨entry, hentry, rfl⟩ := List.mem_map.mp hmem
    exact absurd (List.lookup_eq_none_iff.mp hnone entry hentry) (by simp)
  next inner hfound =>
    obtain rfl := Option.some.inj hopen
    obtain ⟨before, after, rfl, -⟩ := List.lookup_eq_some_iff.mp hfound
    refine areProper_opened (areProper_iff.mpr ⟨?_, fun entry hentry => ?_⟩) ?_ ?_
    · exact hnodup.sublist (List.filter_sublist.map _)
    · exact hitems entry ((List.mem_filter.mp hentry).1)
    · simp
    · exact hitems (key, .table .implied inner) (by simp)
  next => contradiction

end Item

theorem keepsProper_step? {draft draft' : Draft} {statement : Statement}
    (hdraft : Item.AreProper draft.entries)
    (hvalue : ∀ key node, statement = .pair key node → Proper node)
    (hstep : draft.step? statement = some draft') : Item.AreProper draft'.entries := by
  cases statement with
  | table key =>
      obtain ⟨entries, hentries, rfl⟩ := Option.map_eq_some_iff.mp hstep
      exact Item.keepsProper_descend? (Item.keepsProper_openTable? key.name) false _ _ _ hdraft
        hentries
  | element key =>
      obtain ⟨entries, hentries, rfl⟩ := Option.map_eq_some_iff.mp hstep
      have hopen := Item.keepsProper_alter? Item.givesProper_openElement? key.name
      exact Item.keepsProper_descend? hopen false _ _ _ hdraft hentries
  | pair key node =>
      obtain ⟨entries, hentries, rfl⟩ := Option.map_eq_some_iff.mp hstep
      have hadd := Item.keepsProper_addPair? (hvalue key node rfl) key
      exact Item.keepsProper_descend? hadd false _ _ _ hdraft hentries

/-- What every step of a fold that may fail keeps holds at its end. -/
theorem foldlM_keeps {σ α : Type} {step? : σ → α → Option σ} (keeps : σ → Prop) {steps : List α}
    (hstep : ∀ a ∈ steps, ∀ s s', keeps s → step? s a = some s' → keeps s') {s s' : σ}
    (hs : keeps s) (hfold : steps.foldlM step? s = some s') : keeps s' := by
  induction steps generalizing s with
  | nil =>
      obtain rfl : s = s' := Option.some.inj hfold
      exact hs
  | cons a steps ih =>
      rw [List.foldlM_cons] at hfold
      obtain ⟨next, hnext, hrest⟩ := Option.bind_eq_some_iff.mp hfold
      rw [List.forall_mem_cons] at hstep
      exact ih hstep.2 (hstep.1 s next hs hnext) hrest

theorem isProper_tableOfStatements? {statements : List Statement} {tree : Node}
    (hvalues : ∀ key node, .pair key node ∈ statements → Proper node)
    (htree : tableOfStatements? statements = some tree) : Proper tree := by
  obtain ⟨draft, hdraft, rfl⟩ := Option.map_eq_some_iff.mp htree
  exact foldlM_keeps (fun draft => Item.AreProper draft.entries)
    (fun statement hmem draft draft' hdraft hstep => keepsProper_step? hdraft
      (fun key node heq => hvalues key node (heq ▸ hmem)) hstep) Item.areProper_nil hdraft

theorem isProper_tableOfPairs? {pairs : List (DottedKey × Node)} {tree : Node}
    (hvalues : ∀ pair ∈ pairs, Proper pair.2)
    (htree : tableOfPairs? pairs = some tree) : Proper tree := by
  obtain ⟨entries, hentries, rfl⟩ := Option.map_eq_some_iff.mp htree
  exact foldlM_keeps Item.AreProper
    (fun pair hmem => Item.keepsProper_addPair? (hvalues pair hmem) pair.1)
    Item.areProper_nil hentries

/-! ## Values -/

theorem isProper_integerNode? {negative : Bool} {n : Nat} {node : Node}
    (hnode : integerNode? negative n = some node) : Proper node := by
  simp only [integerNode?, Option.ite_none_right_eq_some, Option.some.injEq] at hnode
  obtain ⟨hsigned, rfl⟩ := hnode
  exact hsigned

theorem isProper_floatNode? {negative : Bool} {d : Decimal} {node : Node}
    (hnode : floatNode? negative d = some node) : Proper node := by
  simp only [floatNode?, Option.ite_none_left_eq_some, Option.some.injEq] at hnode
  obtain ⟨-, rfl⟩ := hnode
  rfl

/-- If anything is read, it is as told. -/
def Yields {α : Type} (told : α → Prop) (read? : Option (α × List Char)) : Prop :=
  ∀ read, read? = some read → told read.1

section Yields

variable {α β : Type} {told : α → Prop}

theorem yields_none : Yields told none :=
  fun _ hread => nomatch hread

theorem yields_some {a : α} {rest : List Char} (ha : told a) : Yields told (some (a, rest)) := by
  intro read hread
  obtain rfl := Option.some.inj hread
  exact ha

theorem yields_map {b? : Option β} {f : β → α × List Char} (hf : ∀ b, b? = some b → told (f b).1) :
    Yields told (b?.map f) := by
  intro read hread
  obtain ⟨b, hb, rfl⟩ := Option.map_eq_some_iff.mp hread
  exact hf b hb

theorem yields_bind {b? : Option β} {next? : β → Option (α × List Char)}
    (hnext : ∀ b, b? = some b → Yields told (next? b)) : Yields told (b?.bind next?) := by
  intro read hread
  obtain ⟨b, hb, hread⟩ := Option.bind_eq_some_iff.mp hread
  exact hnext b hb read hread

end Yields

theorem yields_inBase? (base : Nat) (isDigit : Char → Bool) (text : List Char) :
    Yields Proper (inBase? base isDigit text) :=
  yields_bind fun _ _ => yields_bind fun _ hnode => yields_some (isProper_integerNode? hnode)

theorem yields_afterFraction? (negative : Bool) (whole fraction text : List Char) :
    Yields Proper (afterFraction? negative whole fraction text) := by
  unfold afterFraction?
  split
  next =>
    split
    next =>
      exact yields_bind fun _ _ => yields_bind fun _ hnode =>
        yields_some (isProper_floatNode? hnode)
    next => exact yields_map fun _ => isProper_floatNode?
  next => exact yields_map fun _ => isProper_floatNode?

theorem yields_afterWhole? (negative : Bool) (whole text : List Char) :
    Yields Proper (afterWhole? negative whole text) := by
  unfold afterWhole?
  split
  next => exact yields_bind fun _ _ => yields_afterFraction? negative whole _ _
  next =>
    split
    next => exact yields_afterFraction? negative whole [] _
    next => exact yields_map fun _ => isProper_integerNode?
  next => exact yields_map fun _ => isProper_integerNode?

theorem yields_decimal? (negative : Bool) (text : List Char) :
    Yields Proper (decimal? negative text) := by
  unfold decimal?
  split
  next => exact yields_some rfl
  next => exact yields_some rfl
  next => exact yields_afterWhole? negative _ _
  next => exact yields_bind fun _ _ => yields_afterWhole? negative _ _

theorem yields_number? (text : List Char) : Yields Proper (number? text) := by
  unfold number?
  split
  next => exact yields_map fun _ _ => rfl
  next =>
    split
    next => exact yields_inBase? 16 _ _
    next => exact yields_inBase? 8 _ _
    next => exact yields_inBase? 2 _ _
    next => exact yields_decimal? true _
    next => exact yields_decimal? false _
    next => exact yields_decimal? false _

section Values

variable {allowance : Nat}
  (hvalue : ∀ levels text, Yields Proper (value? allowance levels text))
  (hitems : ∀ levels text, Yields (fun items => ∀ item ∈ items, Proper item)
    (items? allowance levels text))
  (hpairs : ∀ levels text, Yields (fun pairs => ∀ pair ∈ pairs, Proper pair.2)
    (pairs? allowance levels text))

include hitems hpairs in
theorem yields_value? (levels : Nat) (text : List Char) :
    Yields Proper (value? (allowance + 1) levels text) := by
  unfold value?
  split
  next => exact yields_map fun _ _ => rfl
  next => exact yields_map fun _ _ => rfl
  next => exact yields_some rfl
  next => exact yields_some rfl
  next =>
    split
    next => exact yields_none
    next =>
      split
      next => exact yields_some rfl
      next =>
        exact yields_map fun read hread => Node.everywhere_list.mpr ⟨rfl, hitems _ _ read hread⟩
  next =>
    split
    next => exact yields_none
    next =>
      split
      next => exact yields_some rfl
      next =>
        exact yields_bind fun read hread => yields_bind fun _ hnode =>
          yields_some (isProper_tableOfPairs? (hpairs _ _ read hread) hnode)
  next => exact yields_number? _

include hvalue hitems in
theorem yields_items? (levels : Nat) (text : List Char) :
    Yields (fun items => ∀ item ∈ items, Proper item) (items? (allowance + 1) levels text) := by
  unfold items?
  refine yields_bind fun first hfirst => ?_
  have hitem : Proper first.1 := hvalue _ _ first hfirst
  dsimp only
  split
  next => exact yields_some (List.forall_mem_singleton.mpr hitem)
  next =>
    split
    next => exact yields_some (List.forall_mem_singleton.mpr hitem)
    next =>
      exact yields_bind fun read hread =>
        yields_some (List.forall_mem_cons.mpr ⟨hitem, hitems _ _ read hread⟩)
  next => exact yields_none

include hvalue hpairs in
theorem yields_pairs? (levels : Nat) (text : List Char) :
    Yields (fun pairs => ∀ pair ∈ pairs, Proper pair.2) (pairs? (allowance + 1) levels text) := by
  unfold pairs?
  refine yields_bind fun key _ => ?_
  dsimp only
  split
  next =>
    refine yields_bind fun value hread => ?_
    have hnode : Proper value.1 := hvalue _ _ value hread
    split
    next => exact yields_some (List.forall_mem_singleton.mpr hnode)
    next =>
      exact yields_bind fun read hread =>
        yields_some (List.forall_mem_cons.mpr ⟨hnode, hpairs _ _ read hread⟩)
    next => exact yields_none
  next => exact yields_none

end Values

/-- What is read at an allowance is made of what is read at a smaller one. -/
theorem yields_values (allowance : Nat) :
    (∀ levels text, Yields Proper (value? allowance levels text)) ∧
    (∀ levels text, Yields (fun items => ∀ item ∈ items, Proper item)
      (items? allowance levels text)) ∧
    (∀ levels text, Yields (fun pairs => ∀ pair ∈ pairs, Proper pair.2)
      (pairs? allowance levels text)) := by
  induction allowance with
  | zero => exact ⟨fun _ _ => yields_none, fun _ _ => yields_none, fun _ _ => yields_none⟩
  | succ allowance ih =>
      obtain ⟨hvalue, hitems, hpairs⟩ := ih
      exact ⟨yields_value? hitems hpairs, yields_items? hvalue hitems,
        yields_pairs? hvalue hpairs⟩

/-! ## Documents -/

def IsProperStatement (statement : Statement) : Prop :=
  ∀ key node, statement = .pair key node → Proper node

theorem yields_pair? (text : List Char) : Yields IsProperStatement (pair? text) := by
  unfold pair?
  refine yields_bind fun key _ => ?_
  dsimp only
  split
  next =>
    refine yields_bind fun value hread => yields_bind fun _ _ => yields_some ?_
    intro key' node heq
    obtain ⟨-, rfl⟩ := Statement.pair.inj heq
    exact (yields_values _).1 _ _ value hread
  next => exact yields_none

theorem yields_header? (text : List Char) : Yields IsProperStatement (header? text) := by
  unfold header?
  split
  next =>
    refine yields_bind fun key _ => ?_
    dsimp only
    split
    next => exact yields_bind fun _ _ => yields_some (fun _ _ heq => nomatch heq)
    next => exact yields_none
  next =>
    refine yields_bind fun key _ => ?_
    dsimp only
    split
    next => exact yields_bind fun _ _ => yields_some (fun _ _ heq => nomatch heq)
    next => exact yields_none

theorem isProper_statements? {lines : Nat} {text : List Char} {found : List Statement}
    (hread : statements? lines text = some found) :
    ∀ statement ∈ found, IsProperStatement statement := by
  induction lines generalizing text found with
  | zero => cases hread
  | succ lines ih =>
      unfold statements? at hread
      split at hread
      next =>
        obtain rfl := Option.some.inj hread
        simp
      next => exact ih hread
      next => exact ih hread
      next =>
        obtain ⟨rest, -, hrest⟩ := Option.bind_eq_some_iff.mp hread
        exact ih hrest
      next =>
        obtain ⟨header, hheader, hread⟩ := Option.bind_eq_some_iff.mp hread
        obtain ⟨behind, hbehind, hread⟩ := Option.bind_eq_some_iff.mp hread
        obtain rfl := Option.some.inj hread
        exact List.forall_mem_cons.mpr ⟨yields_header? _ header hheader, ih hbehind⟩
      next =>
        obtain ⟨pair, hpair, hread⟩ := Option.bind_eq_some_iff.mp hread
        obtain ⟨behind, hbehind, hread⟩ := Option.bind_eq_some_iff.mp hread
        obtain rfl := Option.some.inj hread
        exact List.forall_mem_cons.mpr ⟨yields_pair? _ pair hpair, ih hbehind⟩

/-- Every document is read as a tree of proper nodes. -/
theorem parse?_proper {text : String} {tree : Node} (hparse : parse? text = some tree) :
    Proper tree := by
  obtain ⟨statements, hread, htree⟩ := Option.bind_eq_some_iff.mp hparse
  exact isProper_tableOfStatements?
    (fun key node hmem => isProper_statements? hread _ hmem key node rfl) htree

end ChainRegistry.Toml
