import ChainRegistry.Proofs.RegistryLeaves
import ChainRegistry.Proofs.Settings.Reports

/-!
# The list of jurisdictions that comes of a load

Sources may lead to one name of the outermost table by the name itself, in whatever case, or by a
path that goes on behind it.  What stands there once all layers are joined comes of these entries
alone.  A list that is put at the name takes the place of what was there, so the list of a file
replaces the reference list and nothing of the two is merged; a variable can still reach into it by
an index.  If nothing leads to the name, nothing stands there, and the reference list is kept.
-/

namespace ChainRegistry

/-! ## Reading the list -/

namespace Registry

/-- The name under which the list of jurisdictions stands. -/
def listName : String := jurisdictionsField.name

theorem openSections_keep_jurisdictions :
    ∀ field ∈ openSections, field.name ≠ listName → field.Keeps jurisdictions := by
  simp only [openSections, List.forall_mem_cons, List.not_mem_nil, false_implies, implies_true,
    and_true]
  and_intros
  -- The field of the list itself is the one that has its name.
  all_goals first | exact fun _ => Field.of_keeps fun _ _ => rfl | exact fun hne => absurd rfl hne

/-- The tags that a table lists, and the reference ones if it has no list. -/
def tagsIn? (origin : Origin) (entries : List (String × Node)) : Option (List String) :=
  match Node.find? listName entries with
  | some node => Scalar.texts? origin node
  | none => some Jurisdictions.reference.tags

theorem tags_of_read? {origin : Origin} {entries : List (String × Node)} {r : Registry}
    (hread : codec.read? origin (.table entries) = some r) :
    tagsIn? origin entries = some r.jurisdictions.tags := by
  rw [tagsIn?]
  cases hfind : Node.find? listName entries with
  | some node =>
      let leaf : Leaf Registry := ⟨[listName], .texts, false, fun r => .texts r.jurisdictions.tags⟩
      have hleaf : leaf ∈ leaves := by
        have hgroup : Jurisdictions.leaves.map (.under listName jurisdictions) ∈ leafGroups := by
          simp only [leafGroups, List.mem_cons, listName, jurisdictionsField, Field.of, true_or,
            or_true]
        exact List.mem_flatten.mpr ⟨_, hgroup, List.mem_singleton_self leaf⟩
      have hgiven : leaf.given? (.table entries) = some node := by
        simp [leaf, Leaf.given?, Node.at?, hfind]
      simpa [leaf, LeafKind.read?] using
        codec_heeds origin (.table entries) r hread leaf hleaf node hgiven
  | none =>
      have habsent : ∀ entry ∈ entries, entry.1 ≠ listName := by
        intro entry hentry hname
        rw [Node.find?, List.lookup_eq_none_iff] at hfind
        exact absurd (hname ▸ hfind entry hentry) (by simp)
      have hkeeps : ∀ field ∈ openSections, (∃ entry ∈ entries, entry.1 = field.name) →
          field.Keeps jurisdictions := by
        rintro field hfield ⟨entry, hentry, hname⟩
        exact openSections_keep_jurisdictions field hfield (hname ▸ habsent entry hentry)
      have hkept := Record.readEntries?_keeps_of_given hkeeps hread
      rw [hkept]
      rfl

end Registry

namespace Settings

open Registry (listName)

variable {readers : Readers}

/-! ## What leads to a name -/

/-- Whether a key is a name of the outermost table or goes on behind it, in whatever case. -/
def leadsTo (name key : String) : Bool :=
  (stepsInto? name key).isSome

/-- What is said at a name or behind it. -/
def saidAt (name : String) (said : List (String × Node)) : List (String × Node) :=
  said.filter fun entry => leadsTo name entry.1

/-- Nothing is said behind a name, and the last that is said at the name is a list. -/
structure EndsWithList (name : String) (said : List (String × Node)) (items : List Node) :
    Prop where
  here : ∀ entry ∈ saidAt name said, Text.fold entry.1 = name
  last : (saidAt name said).getLast?.map Prod.snd = some (.list items)

section Names

variable {name : String} (hname : stepsInto? name name = some [])

include hname

theorem leadsTo_self : leadsTo name name = true := by
  rw [leadsTo, hname, Option.isSome_some]

theorem leadsTo_fold_first {key first : String}
    (hfirst : (KeyPath.ofText key).first = .name first) :
    leadsTo name (Text.fold first) = leadsTo name key := by
  refine Bool.eq_iff_iff.mpr ⟨fun hsome => (stepsInto?_of_ofText hfirst hsome).1, fun hleads => ?_⟩
  rw [KeyPath.ofText] at hfirst
  cases hparse : KeyPath.parse? key with
  | none =>
      rw [hparse, Option.getD_none] at hfirst
      obtain rfl := Step.name.inj hfirst
      rwa [leadsTo, stepsInto?_fold]
  | some path =>
      rw [hparse, Option.getD_some] at hfirst
      rw [leadsTo, stepsInto?_of_parse? hparse hfirst, Option.isSome_ite] at hleads
      rw [hleads, leadsTo_self hname]

theorem leadsTo_tellsByFirst : TellsByFirst (leadsTo name) := by
  intro key
  obtain ⟨first, hfirst⟩ := exists_first key
  exact ⟨first, hfirst, leadsTo_fold_first hname hfirst⟩

theorem find?_saidAt (entries : List (String × Node)) :
    Node.find? name (saidAt name entries) = Node.find? name entries := by
  have hfilter : (saidAt name entries).filter (fun entry => entry.1 == name) =
      entries.filter fun entry => entry.1 == name := by
    rw [saidAt, List.filter_filter]
    refine List.filter_congr fun entry _ => ?_
    by_cases hkey : entry.1 = name
    · simp [hkey, leadsTo_self hname]
    · simp [hkey]
  rw [Record.find?_eq_head?, Record.find?_eq_head?, hfilter]

/-- What stands under a name in the joined layers comes of what leads to the name. -/
theorem find?_joined {environment : Environment} {entries said : List (String × Node)}
    (hsaid : saidAt name (saidEntries environment entries) = saidAt name said) :
    Node.find? name (entriesOf (joined environment entries)) =
      Node.find? name
        (entriesOf (putEntries (entriesOf (putEntries said (.table []))) (.table []))) := by
  have htells := leadsTo_tellsByFirst hname
  have hlaid : saidAt name (laidEntries environment entries) =
      saidAt name (entriesOf (putEntries said (.table []))) :=
    htells.filter_putEntries hsaid rfl
  have hjoined : saidAt name (entriesOf (joined environment entries)) =
      saidAt name
        (entriesOf (putEntries (entriesOf (putEntries said (.table []))) (.table []))) := by
    rw [joined_eq]
    exact htells.filter_putEntries hlaid rfl
  rw [← find?_saidAt hname, hjoined, find?_saidAt hname]

/-- A name in whatever case leads to the name itself. -/
theorem putAt_of_fold {key : String} (hkey : Text.fold key = name) (value node : Node) :
    putAt (KeyPath.ofText key) value node =
      .table (alter name (fun old => overlay old value) (entriesOf node)) := by
  have hsteps : stepsInto? name key = some [] := by
    rw [← stepsInto?_fold, hkey, hname]
  obtain ⟨first, hfirst⟩ := exists_first key
  have hpath : Text.fold first = name ∧ (KeyPath.ofText key).rest = [] := by
    rw [KeyPath.ofText] at hfirst ⊢
    cases hparse : KeyPath.parse? key with
    | none =>
        rw [hparse] at hfirst
        exact ⟨Step.name.inj hfirst ▸ hkey, rfl⟩
    | some path =>
        rw [hparse, Option.getD_some] at hfirst
        rw [stepsInto?_of_parse? hparse hfirst] at hsteps
        simpa using hsteps
  rw [putAt_of_first hfirst, hpath.1, hpath.2]
  rfl

theorem find?_joined_of_silent {environment : Environment} {entries : List (String × Node)}
    (hsilent : saidAt name (saidEntries environment entries) = []) :
    Node.find? name (entriesOf (joined environment entries)) = none := by
  have hsaid : saidAt name (saidEntries environment entries) = saidAt name [] := hsilent
  rw [find?_joined hname hsaid]
  rfl

/-- Values put at the name itself leave it alone in the table. -/
theorem putEntries_of_fold {said : List (String × Node)}
    (hhere : ∀ entry ∈ said, Text.fold entry.1 = name) {node : Node}
    (hnode : ∀ entry ∈ entriesOf node, entry.1 = name) :
    ∀ entry ∈ entriesOf (putEntries said node), entry.1 = name := by
  induction said generalizing node with
  | nil => exact hnode
  | cons entry said ih =>
      rw [List.forall_mem_cons] at hhere
      rw [putEntries, List.foldl_cons, putAt_of_fold hname hhere.1]
      refine ih hhere.2 fun later hlater => ?_
      rcases mem_alter hlater with hold | rfl
      · exact hnode later hold
      · rfl

/-- If all is put at the name itself and a list comes last, there is nothing but this list. -/
theorem entriesOf_putEntries_of_list {said : List (String × Node)} {items : List Node}
    (hhere : ∀ entry ∈ said, Text.fold entry.1 = name)
    (hlast : said.getLast?.map Prod.snd = some (.list items)) :
    entriesOf (putEntries said (.table [])) = [(name, .list items)] := by
  let laid := entriesOf (putEntries said (.table []))
  have hfind : Node.find? name laid = some (.list items) := by
    obtain ⟨⟨key, node⟩, hlast, rfl⟩ := Option.map_eq_some_iff.mp hlast
    have hkey : Text.fold key = name := hhere _ (List.mem_of_getLast? hlast)
    obtain ⟨before, rfl⟩ := List.getLast?_eq_some_iff.mp hlast
    simp only [laid, putEntries, List.foldl_append, List.foldl_cons, List.foldl_nil]
    rw [putAt_of_fold hname hkey, entriesOf, find?_alter_self]
    rfl
  have hkeys : ∀ entry ∈ laid, (entry.1 == name) = true := fun entry hentry =>
    beq_iff_eq.mpr (putEntries_of_fold hname hhere (by simp [entriesOf]) entry hentry)
  have hnodup : (laid.map Prod.fst).Nodup := nodup_putEntries List.nodup_nil
  change laid = _
  rw [← List.filter_eq_self.mpr hkeys, Record.filter_eq_of_find? hnodup, hfind]

/-- A list that is the last to be said at a name stands there in the end. -/
theorem find?_joined_of_list {environment : Environment} {entries : List (String × Node)}
    {items : List Node} (hlist : EndsWithList name (saidEntries environment entries) items) :
    Node.find? name (entriesOf (joined environment entries)) = some (.list items) := by
  have hagain : saidAt name (saidEntries environment entries) =
      saidAt name (saidAt name (saidEntries environment entries)) := by
    simp [saidAt, List.filter_filter]
  have hfold : Text.fold name = name := by
    obtain ⟨entry, hlast, -⟩ := Option.map_eq_some_iff.mp hlist.last
    rw [← hlist.here entry (List.mem_of_getLast? hlast), fold_fold]
  rw [find?_joined hname hagain, entriesOf_putEntries_of_list hname hlist.here hlist.last,
    entriesOf_putEntries_of_list hname (by simpa using hfold) rfl, Node.find?,
    List.lookup_cons_self]

end Names

/-! ## The list of a load -/

theorem stepsInto?_listName : stepsInto? listName listName = some [] := by
  decide

/-- The tags that are listed once all layers are joined. -/
def listedTags? (environment : Environment) (entries : List (String × Node)) :
    Option (List String) :=
  Registry.tagsIn? .settings (entriesOf (joined environment entries))

theorem listedTags?_of_silent {environment : Environment} {entries : List (String × Node)}
    (hsilent : saidAt listName (saidEntries environment entries) = []) :
    listedTags? environment entries = some Jurisdictions.reference.tags := by
  rw [listedTags?, Registry.tagsIn?, find?_joined_of_silent stepsInto?_listName hsilent]

theorem listedTags?_of_list {environment : Environment} {entries : List (String × Node)}
    {items : List Node} (hlist : EndsWithList listName (saidEntries environment entries) items) :
    listedTags? environment entries = items.mapM (Scalar.text? .settings) := by
  rw [listedTags?, Registry.tagsIn?, find?_joined_of_list stepsInto?_listName hlist]
  rfl

theorem tags_of_load {sources : Sources readers} {path? : Option String} {r : Registry}
    (hload : (load sources path?).result = .ok r) :
    ∃ entries, fileEntries? sources path? = some entries ∧
      listedTags? sources.environment entries = some r.jurisdictions.tags := by
  obtain ⟨node, hsettings, hregistry⟩ := load_result_eq_ok_iff.mp hload
  have hjoined := settings_toOption sources path?
  rw [hsettings] at hjoined
  obtain ⟨entries, hfile, hsame⟩ := Option.map_eq_some_iff.mp hjoined.symm
  obtain ⟨all, hall⟩ := exists_table_of_putEntries (laidEntries sources.environment entries) []
  refine ⟨entries, hfile, ?_⟩
  rw [← hsame, joined_eq, hall] at hregistry
  rw [listedTags?, joined_eq, hall, entriesOf]
  exact Registry.tags_of_read? (registryOf_eq_ok_iff.mp hregistry).1

end Settings

end ChainRegistry
