import SchemaClient.Proofs.DocumentChange
import SchemaClient.Proofs.SchemaRoundTrip

/-!
# Schema documents of later versions

A later version of the schema may add keys to any of its records, write the keys of an object in
another order and add kinds of definitions. An item, an index or an inventory reads the same from
such a document, and a definition of an unknown kind is read as unknown, whatever else it says.
-/

namespace SchemaClient.Schema.Decode
open SchemaClient.Json SchemaClient.Json.Decode Outline

/-- Changes of a field of a struct. -/
def fieldChange : Change :=
  RecordChange [("name", Eq), ("doc", Eq), ("field_type", Eq), ("flattened", Eq),
    ("nullable", Eq), ("ommitable", Eq)]

/-- Changes of a struct. -/
def structChange : Change :=
  RecordChange [("fields", ListChange fieldChange)]

/-- Changes of a variant of a known kind. -/
def variantChangeOf : VariantKind → Change
  | .unit => RecordChange [("name", Eq), ("doc", Eq)]
  | .tuple => RecordChange [("name", Eq), ("doc", Eq), ("field_type", Eq)]
  | .struct => RecordChange [("name", Eq), ("doc", Eq), ("fields", ListChange fieldChange)]

/-- Changes of a variant. -/
def variantChange : Change :=
  TaggedChange kindKey variantKind variantChangeOf

/-- Changes of an enum. -/
def enumChange : Change :=
  RecordChange [("tag", Eq), ("untagged", Eq), ("content", Eq), ("rename_all", Eq),
    ("variants", ListChange variantChange)]

/-- Changes of a parameter of a route. -/
def routeParamChange : Change :=
  RecordChange [("name", Eq), ("param_type", Eq)]

/-- Changes of a route. -/
def routeChange : Change :=
  RecordChange [("method", Eq), ("route", Eq), ("path_params", ListChange routeParamChange),
    ("query_params", ListChange routeParamChange), ("body_type", Eq), ("return_type", Eq),
    ("guards", Eq)]

/-- Changes of a definition of a kind. -/
def definitionChangeOf (kind : String) : Change :=
  match kind with
  | "struct" => structChange
  | "enum" => enumChange
  | "route" => routeChange
  | _ => OpaqueChange

/-- Changes of a definition at a depth of nesting. Its numbers stay in range, and its arrays and
objects are nested no deeper than a document may. -/
def definitionChange (depth : Nat) : Change :=
  fun u v => TaggedChange kindKey string definitionChangeOf u v ∧ v.problem? depth = none

/-- Changes of an item at a depth of nesting. -/
def itemChange (depth : Nat) : Change :=
  RecordChange [("name", Eq), ("doc", Eq), ("category", Eq), ("hidden", Eq), ("package", Eq),
    ("item", definitionChange (depth + 1))]

/-- Changes of an index. -/
def indexChange : Change :=
  RecordChange [("version", Eq), ("items", Eq)]

/-- Changes of an inventory. -/
def inventoryChange : Change :=
  RecordChange [("version", Eq), ("items", ListChange (itemChange 2))]

variable {valid : Outline → Prop}

lemma respects_field (hvalid : Hereditary valid) : Respects valid fieldChange field := by
  refine respects_record ?_ ?_ hvalid _ _
  · simp [fits_required, fits_defaulted, respects_eq]
  · simp [required, defaulted, commutes_of_map]

lemma respects_struct (hvalid : Hereditary valid) : Respects valid structChange struct := by
  have hfields := respects_list (respects_field hvalid) hvalid
  refine respects_record ?_ ?_ hvalid _ _
  · simp [fits_defaulted, hfields]
  · simp

lemma respects_variantOf (hvalid : Hereditary valid) (kind : VariantKind) :
    Respects valid (variantChangeOf kind) (variantOf kind) := by
  cases kind with
  | unit =>
    refine respects_record ?_ ?_ hvalid _ _
    · simp [variantSlots, fits_required, fits_defaulted, respects_eq]
    · simp [variantSlots, required, defaulted, commutes_of_map]
  | tuple =>
    refine respects_record ?_ ?_ hvalid _ _
    · simp [variantSlots, fits_required, fits_defaulted, respects_eq]
    · simp [variantSlots, required, defaulted, commutes_of_map]
  | struct =>
    have hfields := respects_list (respects_field hvalid) hvalid
    refine respects_record ?_ ?_ hvalid _ _
    · simp [variantSlots, fits_required, fits_defaulted, respects_eq, hfields]
    · simp [variantSlots, required, defaulted, commutes_of_map]

lemma respects_variant : Respects (·.problem? 0 = none) variantChange variant :=
  respects_tagged (respects_variantOf hereditary_problem?)

lemma respects_enumeration : Respects (·.problem? 0 = none) enumChange enumeration := by
  have hvariants := respects_list respects_variant hereditary_problem?
  refine respects_record ?_ ?_ hereditary_problem? _ _
  · simp [fits_defaulted, respects_eq, hvariants]
  · simp [defaulted, commutes_of_map]

lemma respects_routeParam (hvalid : Hereditary valid) :
    Respects valid routeParamChange routeParam := by
  refine respects_record ?_ ?_ hvalid _ _
  · simp [fits_required, respects_eq]
  · simp [required, commutes_of_map]

lemma respects_route (hvalid : Hereditary valid) : Respects valid routeChange route := by
  have hparams := respects_list (respects_routeParam hvalid) hvalid
  refine respects_record ?_ ?_ hvalid _ _
  · simp [fits_required, fits_defaulted, respects_eq, hparams]
  · simp [required, defaulted, commutes_of_map]

lemma respects_map {α β : Type} {change : Change} {decode : Decoder α} (f : α → β)
    (h : Respects valid change decode) : Respects valid change fun v => (decode v).map f := by
  constructor
  · intro v b hv
    obtain ⟨a, ha, -⟩ := map_eq_ok_iff.mp hv
    exact h.self v a ha
  · intro u v b hv hchange hu
    obtain ⟨a, ha, hf⟩ := map_eq_ok_iff.mp hu
    exact map_eq_ok_iff.mpr ⟨a, h.same u v a hv hchange ha, hf⟩

lemma respects_unknownDefinition : Respects valid OpaqueChange unknownDefinition := by
  refine ⟨fun v _ _ => .self v, ?_⟩
  intro u v d _ hchange hu
  cases hchange <;> exact hu

lemma definitionOf_of_ne {kind : String} (hstruct : kind ≠ "struct") (henum : kind ≠ "enum")
    (hroute : kind ≠ "route") : definitionOf kind = unknownDefinition := by
  funext v
  unfold definitionOf
  split
  · exact absurd rfl hstruct
  · exact absurd rfl henum
  · exact absurd rfl hroute
  · rfl

lemma respects_definitionOf (kind : String) :
    Respects (·.problem? 0 = none) (definitionChangeOf kind) (definitionOf kind) := by
  unfold definitionChangeOf
  split
  · exact respects_map _ (respects_struct hereditary_problem?)
  · exact respects_map _ respects_enumeration
  · exact respects_map _ (respects_route hereditary_problem?)
  · next hstruct henum hroute =>
    rw [definitionOf_of_ne hstruct henum hroute]
    exact respects_unknownDefinition

lemma respects_definition {depth : Nat} (hroom : depth < maxDepth) :
    Respects valid (definitionChange depth) (definition depth) := by
  have htagged : Respects (·.problem? depth = none) (TaggedChange kindKey string definitionChangeOf)
      (definition depth) := respects_tagged respects_definitionOf
  constructor
  · intro v d hv
    have hproblem := problem?_of_tagged (fun t kind ht => problem?_of_string ht _) hroom hv
    exact ⟨htagged.self v d hv, hproblem⟩
  · rintro u v d - ⟨hchange, hv⟩ hu
    exact htagged.same u v d hv hchange hu

lemma respects_item (hvalid : Hereditary valid) {depth : Nat} (hroom : depth + 1 < maxDepth) :
    Respects valid (itemChange depth) (item depth) := by
  have hdefinition : Respects valid _ _ := respects_definition hroom
  refine respects_record ?_ ?_ hvalid _ _
  · simp [fits_required, fits_defaulted, respects_eq, hdefinition]
  · simp [required, defaulted, commutes_of_map]

lemma respects_index (hvalid : Hereditary valid) : Respects valid indexChange index := by
  refine respects_record ?_ ?_ hvalid _ _
  · simp [fits_required, respects_eq]
  · simp [required, commutes_of_map]

lemma respects_inventory (hvalid : Hereditary valid) :
    Respects valid inventoryChange inventory := by
  have hitems := respects_list (respects_item hvalid (show 2 + 1 < maxDepth by decide)) hvalid
  refine respects_record ?_ ?_ hvalid _ _
  · simp [fits_required, respects_eq, hitems]
  · simp [required, commutes_of_map]

/-- A definition of a kind that this version does not know. -/
inductive IsUnknown : Outline → Prop
  | object {kind : String} {pre post : List Entry} (hkind : kind ∉ ["struct", "enum", "route"])
      (hkeys : ∀ e ∈ pre ++ post, e.1 ≠ some kindKey) :
      IsUnknown (.object (pre ++ (some kindKey, .string (some kind)) :: post) none)

lemma definition_of_isUnknown {v : Outline} (h : IsUnknown v) {depth : Nat}
    (hv : v.problem? depth = none) : definition depth v = .ok .unknown := by
  obtain @⟨kind, pre, post, hkind, hkeys⟩ := h
  simp only [List.mem_cons, List.not_mem_nil, or_false, not_or] at hkind
  obtain ⟨hstruct, henum, hroute⟩ := hkind
  obtain ⟨-, hentries, -⟩ := problem?_object_eq_none_iff.mp hv
  refine (tagged_object_eq_ok_iff hkeys).mpr ⟨problemInEntries?_erase hentries, kind, rfl, ?_⟩
  rw [definitionOf_of_ne hstruct henum hroute]
  rfl

/-- Another definition under the key of an item is the definition of the item. -/
lemma item_replace {depth : Nat} {pre post : List Entry} {u v : Outline} {i : Item} {d : Definition}
    (hv : definition (depth + 1) v = .ok d)
    (h : item depth (.object (pre ++ (some "item", u) :: post) none) = .ok i) :
    item depth (.object (pre ++ (some "item", v) :: post) none) =
      .ok { i with definition := d } := by
  refine record_replace .malformed (fun d i => { i with definition := d }) (fun _ _ _ => rfl) ?_
    rfl hv h
  simp [required, defaulted, commutes_of_map]

end SchemaClient.Schema.Decode

namespace SchemaClient.Schema
open SchemaClient.Json SchemaClient.Json.Decode SchemaClient.Text Outline

/-- Documents say the same when the keys of their objects are put in another order, the kinds of
definitions and variants wherever, and when keys are added that no record knows. A definition of an
unknown kind is read as unknown, whatever else it says. -/
theorem stableUnder_ofGlyphs? :
    StableUnder (Decode.itemChange 0) Item.ofGlyphs? ∧
    StableUnder Decode.indexChange Index.ofGlyphs? ∧
    StableUnder Decode.inventoryChange Inventory.ofGlyphs? ∧
    (∀ depth v, Decode.IsUnknown v → v.problem? depth = none →
      Decode.definition depth v = .ok .unknown) ∧
    ∀ gs gs' pre post u v i, Decode.IsUnknown v → v.problem? 1 = none →
      ofTokens (Token.ofGlyphs gs) = (.object (pre ++ (some "item", u) :: post) none, []) →
      ofTokens (Token.ofGlyphs gs') = (.object (pre ++ (some "item", v) :: post) none, []) →
      Item.ofGlyphs? gs = .ok i → Item.ofGlyphs? gs' = .ok { i with definition := .unknown } := by
  refine ⟨?_, ?_, ?_, ?_, ?_⟩
  · exact stableUnder_text (Decode.respects_item hereditary_skipProblem? (by decide))
  · exact stableUnder_text (Decode.respects_index hereditary_skipProblem?)
  · exact stableUnder_text (Decode.respects_inventory hereditary_skipProblem?)
  · exact fun depth v hunknown hv => Decode.definition_of_isUnknown hunknown hv
  · intro gs gs' pre post u v i hunknown hv hgs hgs' h
    have hdefinition := Decode.definition_of_isUnknown hunknown hv
    simp only [Item.ofGlyphs?, text, hgs, hgs', List.isEmpty_nil, if_true] at h ⊢
    obtain ⟨i', hi', hi⟩ := bind_eq_ok_iff.mp h
    obtain rfl := Except.ok.inj hi
    rw [Decode.item_replace hdefinition hi']
    rfl

/-- The fields of a struct. -/
def earlierFields : Json :=
  .array [.object [("name", .string "raw"), ("field_type", .string "u64")]]

/-- The same fields as a later version may write them. -/
def laterFields : Json :=
  .array [.object [("field_type", .string "u64"), ("name", .string "raw"), ("since", .string "2")]]

/-- An item that defines a struct. -/
def earlierItem : Json :=
  .object [("name", .string "Id"),
    ("item", .object [("type", .string "struct"), ("fields", earlierFields)])]

/-- The same item as a later version may write it. -/
def laterItem : Json :=
  .object [("item", .object [("fields", laterFields), ("note", .null), ("type", .string "struct")]),
    ("name", .string "Id"), ("labels", .array [.bool true])]

/-- An item of the same name that defines what only a later version knows. -/
def futureItem : Json :=
  .object [("name", .string "Id"), ("item", .object [("fields", .null), ("type", .string "queue")])]

lemma isExtra_singleton {fields : FieldChanges} {k : String} {v : Outline}
    (h : fields.lookup k = none) : ∀ e ∈ [(some k, v)], IsExtra fields e := by
  rw [List.forall_mem_singleton]
  exact ⟨k, v, rfl, h⟩

lemma itemChange_laterItem : Decode.itemChange 0 (ofJson earlierItem) (ofJson laterItem) := by
  have hfields : ListChange Decode.fieldChange (ofJson earlierFields) (ofJson laterFields) := by
    refine .array (.cons ?_ .nil)
    exact .object (.cons (.known rfl rfl) (.cons (.known rfl rfl) .nil)) (isExtra_singleton rfl)
      (.swap _ _ _)
  have hdefinition : TaggedChange Decode.kindKey string Decode.definitionChangeOf
      (ofJson (.object [("type", .string "struct"), ("fields", earlierFields)]))
      (ofJson (.object
        [("fields", laterFields), ("note", .null), ("type", .string "struct")])) := by
    refine @TaggedChange.object _ _ _ _ _ [] (ofEntries [("fields", earlierFields)])
      (ofEntries [("fields", laterFields), ("note", .null)]) [] ?_ ?_ ?_
    · simp [ofEntries, Decode.kindKey]
    · simp [ofEntries, Decode.kindKey]
    · rintro kind ⟨⟩
      exact .object (.cons (.known rfl hfields) .nil) (isExtra_singleton rfl) (.refl _)
  exact .object (.cons (.known rfl rfl) (.cons (.known rfl ⟨hdefinition, rfl⟩) .nil))
    (isExtra_singleton rfl) (.swap _ _ _)

lemma isPlain_earlierItem : IsPlain 4 earlierItem := by
  simp [earlierItem, earlierFields, isPlain_object_iff, isPlain_array_iff, IsPlain.string]

lemma isPlain_laterItem : IsPlain 4 laterItem := by
  simp [laterItem, laterFields, isPlain_object_iff, isPlain_array_iff, IsPlain.string,
    IsPlain.bool, IsPlain.null]

lemma isPlain_futureItem : IsPlain 2 futureItem := by
  simp [futureItem, isPlain_object_iff, IsPlain.string, IsPlain.null]

/-- An item of a later version, and one that only a later version knows. -/
theorem stableUnder_laterItem :
    Item.ofGlyphs? (Glyph.ofString laterItem.compact) =
      .ok ⟨"Id", "", "", false, "", .struct ⟨[⟨"raw", none, "u64", false, false, false⟩]⟩⟩ ∧
    Item.ofGlyphs? (Glyph.ofString futureItem.compact) =
      .ok ⟨"Id", "", "", false, "", .unknown⟩ := by
  obtain ⟨hitem, -, -, -, hunknown⟩ := stableUnder_ofGlyphs?
  have hearlier := isPlain_earlierItem.ofTokens_compact
  have hlater := isPlain_laterItem.ofTokens_compact
  have hfuture := isPlain_futureItem.ofTokens_compact
  have hdecode : Item.ofGlyphs? (Glyph.ofString earlierItem.compact) =
      .ok ⟨"Id", "", "", false, "", .struct ⟨[⟨"raw", none, "u64", false, false, false⟩]⟩⟩ :=
    text_compact isPlain_earlierItem rfl
  constructor
  · refine hitem.same _ _ _ _ ?_ ⟨hlater, rfl⟩ hdecode
    rw [hearlier]
    exact itemChange_laterItem
  · have hkind : Decode.IsUnknown
        (ofJson (.object [("fields", .null), ("type", .string "queue")])) :=
      @Decode.IsUnknown.object "queue" (ofEntries [("fields", .null)]) [] (by decide)
        (by simp [ofEntries, Decode.kindKey])
    exact hunknown _ _ (ofEntries [("name", .string "Id")]) [] _ _ _ hkind rfl hearlier hfuture
      hdecode

end SchemaClient.Schema
