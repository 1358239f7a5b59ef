import ChainRegistry.Proofs.JsonRoundTrip
import ChainRegistry.Proofs.RegistryForms
import ChainRegistry.Proofs.Toml.Tables

/-!
# One tree in JSON and in TOML

What both formats can say is read alike from both: the registry, its sections and the records in
them come out the same, or are refused by both, in whatever order the keys of a table stand.  Only a
list that is longer than its record is told apart.

The texts are another matter.  The reader of JSON may miss a fraction by the last place, and the
reader of TOML refuses values that nest deeply, even under a key that means nothing.  Where neither
happens, the outcome is the same for the texts.
-/

namespace ChainRegistry

namespace Node

/-- What both formats can say, as far as the node itself is concerned. -/
def isDatum : Node → Bool
  | .null => false
  | .int i => Numeral.isSigned64 i
  | .float x => x.isFinite
  | .date _ => false
  | .table entries => decide (entries.map Prod.fst).Nodup
  | .illegible => false
  | _ => true

def IsData (tree : Node) : Prop :=
  tree.everywhere isDatum = true

instance (tree : Node) : Decidable tree.IsData :=
  inferInstanceAs (Decidable (_ = true))

/-- The same data, with the entries of tables in any order. -/
def SameData (tree other : Node) : Prop :=
  tree.Alike (fun node other => other = node) other

theorem SameData.symm {tree other : Node} (hsame : tree.SameData other) : other.SameData tree :=
  Alike.symm (fun _ _ => Eq.symm) hsame

theorem SameData.sameOrText {tree other : Node} (hsame : tree.SameData other) :
    tree.Alike SameOrText other :=
  hsame.mono fun _ _ => Or.inl

theorem sameData_self {tree : Node} (hdata : tree.IsData) : tree.SameData tree := by
  refine alike_self hdata (fun node hnode => ?_) fun _ _ => rfl
  cases node with
  | table entries => exact hnode
  | _ => rfl

theorem SameData.isData {tree other : Node} (hsame : tree.SameData other) (hdata : tree.IsData) :
    other.IsData := by
  induction hsame with
  | scalar _ _ hsame => exact hsame ▸ hdata
  | @list items others hlength _ ih =>
      refine everywhere_list.mpr ⟨rfl, fun other hother => ?_⟩
      obtain ⟨i, hi⟩ := List.mem_iff_getElem?.mp hother
      obtain ⟨hlt, -⟩ := List.getElem?_eq_some_iff.mp hi
      have hitem : items[i]? = some items[i] := List.getElem?_eq_getElem (hlength ▸ hlt)
      exact ih i _ other hitem hi ((everywhere_list.mp hdata).2 _ (List.mem_of_getElem? hitem))
  | @table entries others _ hnodup' hkeys _ ih =>
      refine everywhere_table.mpr ⟨decide_eq_true hnodup', fun other hother => ?_⟩
      have hfound : find? other.1 others = some other.2 := (find?_eq_some_iff hnodup').mpr hother
      obtain ⟨node, hnode⟩ : ∃ node, find? other.1 entries = some node := by
        rw [← Option.isSome_iff_exists, hkeys, hfound, Option.isSome_some]
      exact ih other.1 node other.2 hnode hfound
        ((everywhere_table.mp hdata).2 _ (mem_of_find? hnode))

theorem IsData.field {node inner : Node} (hdata : node.IsData) {name : String}
    (hinner : field? name node = some inner) : inner.IsData := by
  cases node with
  | list items => exact (everywhere_list.mp hdata).2 inner (List.mem_of_head? hinner)
  | table entries => exact (everywhere_table.mp hdata).2 _ (mem_of_find? hinner)
  | _ => cases hinner

theorem IsData.further {node : Node} (hdata : node.IsData) : node.further.IsData := by
  cases node with
  | list items =>
      exact everywhere_list.mpr ⟨rfl, fun item hitem =>
        (everywhere_list.mp hdata).2 item (List.mem_of_mem_tail hitem)⟩
  | _ => exact hdata

/-- The keys of a table are names and stand there once. -/
def hasNames : Node → Bool
  | .table entries =>
    decide (entries.map Prod.fst).Nodup && entries.all fun entry => isName entry.1
  | _ => true

theorem isTidy_of_everywhere {tree : Node} (hnames : tree.everywhere hasNames = true) :
    tree.IsTidy := by
  induction tree using induct with
  | scalar node hscalar => exact .of_isScalar hscalar
  | list items => exact .value (by simp)
  | table entries ih =>
      obtain ⟨htable, hentries⟩ := everywhere_table.mp hnames
      rw [hasNames, Bool.and_eq_true, List.all_eq_true] at htable
      exact .table (of_decide_eq_true htable.1) htable.2
        fun entry hentry => ih entry hentry (hentries entry hentry)

end Node

namespace Shape

mutual

theorem isDateless_of_isData (shape : Shape) {node : Node} (hdata : node.IsData) :
    shape.all (fun _ node => !node.isDate) node = true := by
  cases shape with
  | leaf => rfl
  | record members =>
      rw [all, Bool.and_eq_true]
      refine ⟨?_, allFields_of_isData members hdata⟩
      cases node with
      | date => cases hdata
      | _ => rfl

theorem allFields_of_isData (members : List (String × Shape)) {node : Node}
    (hdata : node.IsData) : allFields (fun _ node => !node.isDate) members node = true := by
  cases members with
  | nil => rfl
  | cons member members =>
      obtain ⟨name, shape⟩ := member
      rw [allFields, Bool.and_eq_true]
      refine ⟨?_, allFields_of_isData members hdata.further⟩
      cases hinner : Node.field? name node with
      | none => rfl
      | some inner => exact isDateless_of_isData shape (hdata.field hinner)

end

end Shape

/-! ## Texts -/

namespace Json

/-- The reader meets the node if it is a float. -/
def isMet : Node → Bool
  | .float x => decide (Meets x)
  | _ => true

/-- Data come back from JSON if the reader meets all floats in them. -/
theorem readBack_of_isData {tree : Node} (hdata : tree.IsData)
    (hmet : tree.everywhere isMet = true) : readBack tree = tree := by
  induction tree using Node.induct with
  | scalar node hscalar =>
      rw [Node.IsData, Node.everywhere_of_isScalar hscalar] at hdata
      rw [Node.everywhere_of_isScalar hscalar] at hmet
      cases node with
      | int i =>
          have hsigned : Numeral.isSigned64 i = true := hdata
          simp only [Numeral.isSigned64, Bool.and_eq_true, decide_eq_true_eq] at hsigned
          have hhigh : i < UInt64.size := Int.lt_trans hsigned.2 (by decide)
          rw [readBack, integerBack_eq hsigned.1 hhigh]
      | float x => rw [readBack, floatBack_of_meets (of_decide_eq_true hmet)]
      | bool | text => rfl
      | list | table => contradiction
      | _ => cases hdata
  | list items ih =>
      have hitems : items.map readBack = items.map id := List.map_congr_left fun item hitem =>
        ih item hitem ((Node.everywhere_list.mp hdata).2 item hitem)
          ((Node.everywhere_list.mp hmet).2 item hitem)
      rw [readBack, readBackItems_eq_map, hitems, List.map_id]
  | table entries ih =>
      have hentries : entries.map (fun entry => (entry.1, readBack entry.2)) = entries.map id :=
        List.map_congr_left fun entry hentry => by
          rw [ih entry hentry ((Node.everywhere_table.mp hdata).2 entry hentry)
            ((Node.everywhere_table.mp hmet).2 entry hentry), id]
      rw [readBack, readBackEntries_eq_map, hentries, List.map_id]

end Json

namespace Toml

theorem find?_arrangedEntries {entries : List (String × Node)}
    (hnodup : (entries.map Prod.fst).Nodup) (key : String) :
    Node.find? key (arrangedEntries entries) = (Node.find? key entries).map arrange := by
  have hmapped : ((entries.map fun entry => (entry.1, arrange entry.2)).map Prod.fst).Nodup := by
    rw [List.map_map]
    exact hnodup
  rw [← Node.find?_map]
  apply Option.ext
  intro node
  rw [Node.find?_eq_some_iff (nodup_arrangedEntries hnodup), Node.find?_eq_some_iff hmapped,
    (arrangedEntries_perm entries).mem_iff]

/-- The TOML text of data has the same data in another order. -/
theorem sameData_arrange {tree : Node} (htidy : tree.IsTidy) (hdata : tree.IsData) :
    tree.SameData (arrange tree) := by
  induction htidy with
  | @value node hvalue =>
      rw [arrange_of_not_table (by cases node <;> first | rfl | exact absurd rfl (hvalue _))]
      exact Node.sameData_self hdata
  | @table entries hnodup _ _ ih =>
      rw [arrange_table]
      refine .table hnodup (nodup_arrangedEntries hnodup) (fun key => ?_)
        fun key node other hnode hother => ?_
      · rw [find?_arrangedEntries hnodup, Option.isSome_map]
      · rw [find?_arrangedEntries hnodup, hnode] at hother
        obtain rfl := Option.some.inj hother
        have hmem := Node.mem_of_find? hnode
        exact ih _ hmem ((Node.everywhere_table.mp hdata).2 _ hmem)

end Toml

/-! ## Reading -/

theorem Form.read?_json_eq_toml (form : Form) {tree other : Node} (hdata : tree.IsData)
    (hsame : tree.SameData other) (hfits : form.shape.fits tree = true) :
    form.codec.read? .json tree = form.codec.read? .toml other := by
  apply Option.ext
  intro v
  constructor
  · exact form.carries
      { strict := by decide
        alike := hsame.sameOrText
        dateless := by simp
        fits := by simp } v
  · exact form.carries
      { strict := by decide
        alike := hsame.symm.sameOrText
        dateless := fun _ => form.shape.isDateless_of_isData (hsame.isData hdata)
        fits := fun _ => hfits } v

/-- The registry, its sections and the records in them are read alike from the same data in JSON and
in TOML, if no list is longer than its record: from the trees, from texts that were taken in as
these trees, and from the texts that are written for one tree if JSON meets its floats. -/
theorem json_and_toml_agree {tree other : Node} (hdata : tree.IsData)
    (hsame : tree.SameData other) :
    ∀ form ∈ Registry.forms, form.shape.fits tree = true →
      form.codec.read? .json tree = form.codec.read? .toml other ∧
      (∀ jsonText tomlText, Json.parse? jsonText = some tree → Toml.parse? tomlText = some other →
        (Json.parse? jsonText).bind (form.codec.read? .json) =
          (Toml.parse? tomlText).bind (form.codec.read? .toml)) ∧
      ∀ layout tomlText, tree.IsTidy → tree.depth ≤ Toml.deepest →
        tree.everywhere Json.isMet = true → Toml.print? tree = some tomlText →
          (Json.parse? (Json.print layout tree)).bind (form.codec.read? .json) =
            (Toml.parse? tomlText).bind (form.codec.read? .toml) := by
  intro form _ hfits
  refine ⟨form.read?_json_eq_toml hdata hsame hfits, ?_, ?_⟩
  · intro jsonText tomlText hjson htoml
    rw [hjson, htoml]
    exact form.read?_json_eq_toml hdata hsame hfits
  · intro layout tomlText htidy hdepth hmet hprint
    rw [Json.parse?_print, Json.readBack_of_isData hdata hmet,
      Toml.parse?_print? htidy hdepth hprint]
    exact form.read?_json_eq_toml hdata (Toml.sameData_arrange htidy hdata) hfits

/-! ## Texts that are told apart -/

/-- A rule with fractions that the reader of JSON misses. -/
def missedRule : Node :=
  .table [("quorum", .float (.ofDecimal false ⟨9046959845122367, -16⟩)),
    ("threshold", .float (.ofDecimal false ⟨9898060149215813, -16⟩))]

/-- A list of lists, so many levels deep. -/
def nestedLists : Nat → Node
  | 0 => .list []
  | levels + 1 => .list [nestedLists levels]

/-- Lists that nest too deeply for the reader of TOML, under a key that means nothing. -/
def nestedTree : Node :=
  .table [("x", nestedLists 79)]

def nestedText : String :=
  "x = " ++ String.ofList (List.replicate 80 '[' ++ List.replicate 80 ']') ++ "\n"

theorem texts_are_told_apart :
    (missedRule.IsData ∧ PassingRule.shape.fits missedRule = true ∧
      Toml.print? missedRule =
        some "quorum = 0.9046959845122367\nthreshold = 0.9898060149215813\n" ∧
      (Json.parse? (Json.print .spread missedRule)).bind (PassingRule.codec.read? .json) =
        some ⟨.ofDecimal false ⟨9046959845122368, -16⟩,
          .ofDecimal false ⟨9898060149215812, -16⟩⟩ ∧
      (Toml.parse? "quorum = 0.9046959845122367\nthreshold = 0.9898060149215813\n").bind
          (PassingRule.codec.read? .toml) =
        some ⟨.ofDecimal false ⟨9046959845122367, -16⟩,
          .ofDecimal false ⟨9898060149215813, -16⟩⟩ ∧
      Binary64.ofDecimal false ⟨9046959845122368, -16⟩ ≠
        .ofDecimal false ⟨9046959845122367, -16⟩) ∧
    nestedTree.IsData ∧ Registry.shape.fits nestedTree = true ∧
      (Json.parse? (Json.print .spread nestedTree)).bind (Registry.codec.read? .json) =
        some .reference ∧
      (Toml.parse? nestedText).bind (Registry.codec.read? .toml) = none := by
  have hnested : nestedTree.IsData := by decide +kernel
  have hjson : Json.parse? (Json.print .spread nestedTree) = some nestedTree := by
    rw [Json.parse?_print, Json.readBack_of_isData hnested (by decide +kernel)]
  rw [hjson]
  decide +kernel

/-- A document whose tables stand between its values, with an unknown key in one of them. -/
def scatteredTree : Node :=
  .table [("ports", .table [("metrics", .int 9191), ("extra", .bool true)]),
    ("jurisdictions", .list [.text "EU", .text "UK"]),
    ("proposals", .table [("treasury_spend",
      .table [("quorum", .float (.ofDecimal false ⟨25, -2⟩)), ("threshold", .int 1)])])]

theorem scatteredTree_agrees :
    ∃ r : Registry, r.endpoints.metrics = 9191 ∧ r.jurisdictions.tags = ["EU", "UK"] ∧
      (Json.parse? (Json.print .spread scatteredTree)).bind (Registry.codec.read? .json) = some r ∧
      ∃ text, Toml.print? scatteredTree = some text ∧
        (Toml.parse? text).bind (Registry.codec.read? .toml) = some r := by
  have hdata : scatteredTree.IsData := by decide +kernel
  have htidy : scatteredTree.IsTidy := Node.isTidy_of_everywhere (by decide +kernel)
  let r : Registry := { Registry.reference with
    endpoints := { Endpoints.reference with metrics := 9191 }
    jurisdictions := ⟨["EU", "UK"]⟩
    passing := { PassingRules.reference with
      treasurySpend := ⟨.ofDecimal false ⟨25, -2⟩, .ofNat 1⟩ } }
  obtain ⟨text, htext⟩ : ∃ text, Toml.print? scatteredTree = some text :=
    Option.isSome_iff_exists.mp (by decide +kernel)
  have hjson : (Json.parse? (Json.print .spread scatteredTree)).bind
      (Registry.codec.read? .json) = some r := by
    decide +kernel
  obtain ⟨-, -, hwritten⟩ := json_and_toml_agree hdata (Node.sameData_self hdata)
    ⟨Registry.codec, Registry.shape, Registry.codec_carries⟩ List.mem_cons_self (by decide +kernel)
  refine ⟨r, rfl, rfl, hjson, text, htext, ?_⟩
  rw [← hjson]
  exact (hwritten .spread text htidy (by decide +kernel) (by decide +kernel) htext).symm

end ChainRegistry
