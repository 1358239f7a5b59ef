import ChainRegistry.Proofs.Leaves

/-!
# Values of nodes in documents

Outside settings a node is read as the value that it denotes, or not at all.  The node that is
written for a value denotes that value and no other one.
-/

namespace ChainRegistry

namespace Scalar

variable {origin : Origin}

theorem natural?_eq_some_iff (horigin : origin ≠ .settings) {size n : Nat} {node : Node} :
    natural? origin size node = some n ↔ n < size ∧ node = .int n := by
  unfold natural?
  rw [Option.filter_eq_some_iff]
  constructor
  · rintro ⟨hvalue, hlt⟩
    refine ⟨of_decide_eq_true hlt, ?_⟩
    split at hvalue
    next => contradiction
    next i _ =>
      split at hvalue
      next hsign =>
        obtain rfl := Option.some.inj hvalue
        rw [Int.toNat_of_nonneg hsign]
      next => contradiction
    next => contradiction
  · rintro ⟨hlt, rfl⟩
    cases origin with
    | settings => contradiction
    | _ => simp [hlt]

theorem fraction?_eq_some_iff (horigin : origin ≠ .settings) {x : Binary64} {node : Node} :
    fraction? origin node = some x ↔ node = .float x ∨ ∃ i, node = .int i ∧ x = .ofInt i := by
  cases origin with
  | settings => contradiction
  | _ => cases node <;> simp [fraction?, eq_comm]

theorem text?_eq_some_iff (horigin : origin ≠ .settings) {s : String} {node : Node} :
    text? origin node = some s ↔ node = .text s := by
  cases origin with
  | settings => contradiction
  | _ => cases node <;> simp [text?]

theorem mapM_text?_eq_some_iff (horigin : origin ≠ .settings) {ss : List String}
    {items : List Node} : items.mapM (text? origin) = some ss ↔ items = ss.map .text := by
  induction items generalizing ss with
  | nil => cases ss <;> simp
  | cons item items ih =>
      cases ss with
      | nil => simp [List.mapM_cons, Option.bind_eq_some_iff]
      | cons s ss =>
          simp [List.mapM_cons, Option.bind_eq_some_iff, text?_eq_some_iff horigin, ih]

theorem texts?_eq_some_iff (horigin : origin ≠ .settings) {ss : List String} {node : Node} :
    texts? origin node = some ss ↔ node = .list (ss.map .text) := by
  cases node with
  | list items => simp [texts?, mapM_text?_eq_some_iff horigin]
  | _ => simp [texts?]

/-! In every origin, settings included, a value is read from its own node. -/

theorem natural?_ofNat (origin : Origin) {size n : Nat} (hlt : n < size) :
    natural? origin size (.int n) = some n := by
  cases origin <;> simp [natural?, naturalInSettings?, hlt]

theorem texts?_texts (origin : Origin) (ss : List String) :
    texts? origin (.list (ss.map .text)) = some ss := by
  have htext : ∀ s, text? origin (.text s) = some s := by cases origin <;> intro <;> rfl
  rw [texts?]
  induction ss with
  | nil => rfl
  | cons s ss ih => simp [List.mapM_cons, htext, ih]

end Scalar

/-- A document is read as what its nodes denote. -/
theorem LeafKind.read?_eq_some_iff {origin : Origin} (horigin : origin ≠ .settings)
    {kind : LeafKind} {node : Node} {value : LeafValue} :
    kind.read? origin node = some value ↔ kind.Denotes node value := by
  constructor
  · intro hread
    cases kind with
    | number size =>
        obtain ⟨n, hn, rfl⟩ := Option.map_eq_some_iff.mp hread
        obtain ⟨hlt, rfl⟩ := (Scalar.natural?_eq_some_iff horigin).mp hn
        exact .number hlt
    | fraction =>
        obtain ⟨x, hx, rfl⟩ := Option.map_eq_some_iff.mp hread
        rcases (Scalar.fraction?_eq_some_iff horigin).mp hx with rfl | ⟨i, rfl, rfl⟩
        · exact .fraction x
        · exact .whole i
    | text =>
        obtain ⟨s, hs, rfl⟩ := Option.map_eq_some_iff.mp hread
        obtain rfl := (Scalar.text?_eq_some_iff horigin).mp hs
        exact .text s
    | texts =>
        obtain ⟨ss, hss, rfl⟩ := Option.map_eq_some_iff.mp hread
        obtain rfl := (Scalar.texts?_eq_some_iff horigin).mp hss
        exact .texts ss
  · intro hdenotes
    cases hdenotes with
    | number hlt => simp [read?, (Scalar.natural?_eq_some_iff horigin).mpr ⟨hlt, rfl⟩]
    | fraction x => simp [read?, (Scalar.fraction?_eq_some_iff horigin).mpr (.inl rfl)]
    | whole i => simp [read?, (Scalar.fraction?_eq_some_iff horigin).mpr (.inr ⟨i, rfl, rfl⟩)]
    | text s => simp [read?, (Scalar.text?_eq_some_iff horigin).mpr rfl]
    | texts ss => simp [read?, (Scalar.texts?_eq_some_iff horigin).mpr rfl]

theorem LeafKind.not_denotes_null {kind : LeafKind} {value : LeafValue} :
    ¬ kind.Denotes .null value := by
  intro h
  cases h

theorem LeafKind.eq_fraction {kind : LeafKind} {node : Node} {x : Binary64}
    (h : kind.Denotes node (.fraction x)) : kind = .fraction := by
  cases h <;> rfl

theorem LeafValue.isNull_node (value : LeafValue) : value.node.isNull = false := by
  cases value <;> rfl

end ChainRegistry
