import Mathlib.Data.List.Basic
import Mathlib.Tactic.Lemma
import SchemaClient.Proofs.Decoder
import SchemaClient.Schema.Decode
import SchemaClient.Schema.Encode

/-!
# Schema documents are read back

Decoding the compact text of an item, an index or an inventory gives back what was encoded, unless
a rename rule without a spelling of its own bears the spelling of one that has it. Decoding never
gives such a rule.
-/

namespace SchemaClient.Schema
open Json Json.Decode Outline Text

/-- A rule is canonical unless it is kept as written and bears the spelling of a known rule. -/
def RenameRule.Canonical (r : RenameRule) : Prop :=
  ∀ s, r = .other s → ∀ k ∈ known, k.spelling ≠ s

/-- A definition is canonical if the rename rule of an enum is, where it has one. -/
def Definition.Canonical : Definition → Prop
  | .enum e => ∀ r, e.renameAll = some r → r.Canonical
  | _ => True

/-- An item is canonical if what it defines is. -/
def Item.Canonical (i : Item) : Prop :=
  i.definition.Canonical

/-- An inventory is canonical if its items are. -/
def Inventory.Canonical (inv : Inventory) : Prop :=
  ∀ i ∈ inv.items, i.Canonical

namespace RenameRule

lemma ofSpelling_canonical (s : String) : (ofSpelling s).Canonical := by
  intro s' hrule k hk hspelling
  rw [ofSpelling] at hrule
  cases hfind : known.find? (·.spelling == s) with
  | none =>
    obtain rfl : s = s' := by simpa [hfind] using hrule
    exact List.find?_eq_none.mp hfind k hk (by simpa using hspelling)
  | some r =>
    obtain rfl : r = other s' := by simpa [hfind] using hrule
    exact absurd (List.mem_of_find?_eq_some hfind) (by simp [known])

theorem ofSpelling_spelling {r : RenameRule} (h : r.Canonical) : ofSpelling r.spelling = r := by
  cases r with
  | other s =>
    have hfind : known.find? (·.spelling == s) = none := by
      rw [List.find?_eq_none]
      intro k hk heq
      exact h s rfl k hk (by simpa using heq)
    rw [spelling, ofSpelling, hfind, Option.getD_none]
  | _ => decide

end RenameRule

lemma isPlain_array_map {α : Type} {n : Nat} {encode : α → Json} (h : ∀ a, IsPlain n (encode a))
    (as : List α) : IsPlain (n + 1) (.array (as.map encode)) := by
  apply IsPlain.array
  rw [List.forall_mem_map]
  exact fun a _ => h a

lemma Field.isPlain_toJson (n : Nat) (f : Field) : IsPlain (n + 1) f.toJson := by
  apply IsPlain.object
  simp only [List.forall_mem_cons]
  exact ⟨.string n _, .optional n _, .string n _, .bool n _, .bool n _, .bool n _, nofun⟩

lemma Payload.isPlain_of_mem_entries (n : Nat) (p : Payload) :
    ∀ e ∈ p.entries, IsPlain (n + 2) e.2 := by
  cases p with
  | unit => exact nofun
  | tuple type =>
    rw [entries, List.forall_mem_singleton]
    exact .string _ type
  | struct fields =>
    rw [entries, List.forall_mem_singleton]
    exact isPlain_array_map (Field.isPlain_toJson n) fields

lemma Variant.isPlain_toJson (n : Nat) (v : Variant) : IsPlain (n + 3) v.toJson := by
  apply IsPlain.object
  simp only [List.forall_mem_cons]
  exact ⟨.string _ _, .string _ _, .optional _ _, v.payload.isPlain_of_mem_entries n⟩

lemma RouteParam.isPlain_toJson (n : Nat) (p : RouteParam) : IsPlain (n + 1) p.toJson := by
  apply IsPlain.object
  simp only [List.forall_mem_cons]
  exact ⟨.string n _, .string n _, nofun⟩

lemma Definition.isPlain_of_mem_entries (n : Nat) (d : Definition) :
    ∀ e ∈ d.entries, IsPlain (n + 4) e.2 := by
  cases d with
  | struct s =>
    rw [entries, List.forall_mem_singleton]
    exact isPlain_array_map (Field.isPlain_toJson _) s.fields
  | enum e =>
    simp only [entries, List.forall_mem_cons]
    exact ⟨.optional _ _, .bool _ _, .optional _ _, .optional _ _,
      isPlain_array_map (Variant.isPlain_toJson n) e.variants, nofun⟩
  | route r =>
    simp only [entries, List.forall_mem_cons]
    exact ⟨.string _ _, .string _ _, isPlain_array_map (RouteParam.isPlain_toJson _) r.pathParams,
      isPlain_array_map (RouteParam.isPlain_toJson _) r.queryParams, .optional _ _, .optional _ _,
      isPlain_array_map (IsPlain.string _) r.guards, nofun⟩
  | unknown => exact nofun

lemma Definition.isPlain_toJson (n : Nat) (d : Definition) : IsPlain (n + 5) d.toJson := by
  apply IsPlain.object
  rw [List.forall_mem_cons]
  exact ⟨.string _ _, d.isPlain_of_mem_entries n⟩

lemma Item.isPlain_toJson (n : Nat) (i : Item) : IsPlain (n + 6) i.toJson := by
  apply IsPlain.object
  simp only [List.forall_mem_cons]
  exact ⟨.string _ _, .string _ _, .string _ _, .bool _ _, .string _ _,
    i.definition.isPlain_toJson n, nofun⟩

lemma Index.isPlain_toJson (x : Index) : IsPlain 2 x.toJson := by
  apply IsPlain.object
  simp only [List.forall_mem_cons]
  exact ⟨.string _ _, isPlain_array_map (IsPlain.string _) x.items, nofun⟩

lemma Inventory.isPlain_toJson (inv : Inventory) : IsPlain 8 inv.toJson := by
  apply IsPlain.object
  simp only [List.forall_mem_cons]
  exact ⟨.string _ _, isPlain_array_map (Item.isPlain_toJson 0) inv.items, nofun⟩

namespace Decode

lemma field_toJson (f : Field) : field (ofJson f.toJson) = .ok f := by
  refine record_of_stores .mismatch ?_ (by decide)
  apply Stores.required (string_ofJson f.name)
  apply Stores.defaulted (optional_string_ofJson f.doc)
  apply Stores.required (string_ofJson f.type)
  apply Stores.defaulted (bool_ofJson f.flattened)
  apply Stores.defaulted (bool_ofJson f.nullable)
  apply Stores.defaulted (bool_ofJson f.omittable)
  exact .nil f

lemma struct_entries (fs : List Field) :
    struct (ofJson (.object (Definition.struct ⟨fs⟩).entries)) = .ok ⟨fs⟩ := by
  refine record_of_stores .mismatch ?_ (by decide)
  apply Stores.defaulted (list_ofJson fun f _ => field_toJson f)
  exact .nil _

lemma renameRule_spelling {r : RenameRule} (h : r.Canonical) :
    renameRule (.string (some r.spelling)) = .ok r := by
  calc renameRule (.string (some r.spelling))
      = .ok (RenameRule.ofSpelling r.spelling) := rfl
    _ = .ok r := by rw [RenameRule.ofSpelling_spelling h]

lemma optional_renameRule {rule : Option RenameRule} (h : ∀ r, rule = some r → r.Canonical) :
    Decode.optional renameRule (ofJson (.optional (rule.map RenameRule.spelling))) = .ok rule := by
  cases rule with
  | none => rfl
  | some r => exact optional_of_string (renameRule_spelling (h r rfl))

lemma variantKind_name (k : VariantKind) : variantKind (ofJson (.string k.name)) = .ok k := by
  cases k <;> rfl

lemma variantOf_entries (v : Variant) :
    variantOf v.payload.kind (ofJson (.object
      (("name", .string v.name) :: ("doc", .optional v.doc) :: v.payload.entries))) = .ok v := by
  obtain ⟨name, doc, payload⟩ := v
  cases payload with
  | unit =>
    refine record_of_stores .mismatch ?_ (by decide)
    apply Stores.required (string_ofJson name)
    apply Stores.defaulted (optional_string_ofJson doc)
    exact .nil _
  | tuple type =>
    refine record_of_stores .mismatch ?_ (by decide)
    apply Stores.required (string_ofJson name)
    apply Stores.defaulted (optional_string_ofJson doc)
    apply Stores.required (string_ofJson type)
    exact .nil _
  | struct fields =>
    refine record_of_stores .mismatch ?_ (by decide)
    apply Stores.required (string_ofJson name)
    apply Stores.defaulted (optional_string_ofJson doc)
    apply Stores.defaulted (list_ofJson fun f _ => field_toJson f)
    exact .nil _

lemma variant_toJson (v : Variant) : variant (ofJson v.toJson) = .ok v := by
  have hkey : ∀ e ∈ ("name", Json.string v.name) :: ("doc", .optional v.doc) :: v.payload.entries,
      e.1 ≠ kindKey := by
    cases v.payload <;> simp [Payload.entries, kindKey]
  have hplain : ∀ e ∈ ("name", Json.string v.name) :: ("doc", .optional v.doc) ::
      v.payload.entries, IsPlain 2 e.2 := by
    simp only [List.forall_mem_cons]
    exact ⟨.string _ _, .optional _ _, v.payload.isPlain_of_mem_entries 0⟩
  calc variant (ofJson v.toJson)
      = variantOf v.payload.kind (ofJson (.object
          (("name", .string v.name) :: ("doc", .optional v.doc) :: v.payload.entries))) :=
        tagged_ofJson (variantKind_name v.payload.kind) hkey hplain (by decide)
    _ = .ok v := variantOf_entries v

lemma enumeration_entries {e : Enumeration} (h : (Definition.enum e).Canonical) :
    enumeration (ofJson (.object (Definition.enum e).entries)) = .ok e := by
  refine record_of_stores .mismatch ?_ (by decide)
  apply Stores.defaulted (optional_string_ofJson e.tag)
  apply Stores.defaulted (bool_ofJson e.untagged)
  apply Stores.defaulted (optional_string_ofJson e.content)
  apply Stores.defaulted (optional_renameRule h)
  apply Stores.defaulted (list_ofJson fun v _ => variant_toJson v)
  exact .nil e

lemma routeParam_toJson (p : RouteParam) : routeParam (ofJson p.toJson) = .ok p := by
  refine record_of_stores .mismatch ?_ (by decide)
  apply Stores.required (string_ofJson p.name)
  apply Stores.required (string_ofJson p.type)
  exact .nil p

lemma route_entries (r : Route) :
    route (ofJson (.object (Definition.route r).entries)) = .ok r := by
  refine record_of_stores .mismatch ?_ (by decide)
  apply Stores.required (string_ofJson r.method)
  apply Stores.required (string_ofJson r.path)
  apply Stores.defaulted (list_ofJson fun p _ => routeParam_toJson p)
  apply Stores.defaulted (list_ofJson fun p _ => routeParam_toJson p)
  apply Stores.defaulted (optional_string_ofJson r.bodyType)
  apply Stores.defaulted (optional_string_ofJson r.returnType)
  apply Stores.defaulted (list_ofJson fun s _ => string_ofJson s)
  exact .nil r

lemma definitionOf_entries {d : Definition} (h : d.Canonical) :
    definitionOf d.kind (ofJson (.object d.entries)) = .ok d := by
  cases d with
  | struct s => exact map_eq_ok_iff.mpr ⟨s, struct_entries s.fields, rfl⟩
  | enum e => exact map_eq_ok_iff.mpr ⟨e, enumeration_entries h, rfl⟩
  | route r => exact map_eq_ok_iff.mpr ⟨r, route_entries r, rfl⟩
  | unknown => rfl

lemma definition_toJson {depth : Nat} (hroom : depth + 1 + 4 ≤ maxDepth) {d : Definition}
    (h : d.Canonical) : definition depth (ofJson d.toJson) = .ok d := by
  have hkey : ∀ e ∈ d.entries, e.1 ≠ kindKey := by
    cases d <;> simp [Definition.entries, kindKey]
  calc definition depth (ofJson d.toJson)
      = definitionOf d.kind (ofJson (.object d.entries)) :=
        tagged_ofJson (string_ofJson d.kind) hkey (d.isPlain_of_mem_entries 0) hroom
    _ = .ok d := definitionOf_entries h

lemma item_toJson {depth : Nat} (hroom : depth + 1 + 1 + 4 ≤ maxDepth) {i : Item}
    (h : i.Canonical) : item depth (ofJson i.toJson) = .ok i := by
  refine record_of_stores .malformed ?_ (by simp [required, defaulted])
  apply Stores.required (string_ofJson i.name)
  apply Stores.defaulted (string_ofJson i.doc)
  apply Stores.defaulted (string_ofJson i.category)
  apply Stores.defaulted (bool_ofJson i.hidden)
  apply Stores.defaulted (string_ofJson i.package)
  apply Stores.required (definition_toJson hroom h)
  exact .nil i

lemma index_toJson (x : Index) : index (ofJson x.toJson) = .ok x := by
  refine record_of_stores .malformed ?_ (by decide)
  apply Stores.required (string_ofJson x.version)
  apply Stores.required (list_ofJson fun s _ => string_ofJson s)
  exact .nil x

lemma inventory_toJson {inv : Inventory} (h : inv.Canonical) :
    inventory (ofJson inv.toJson) = .ok inv := by
  refine record_of_stores .malformed ?_ (by decide)
  apply Stores.required (string_ofJson inv.version)
  apply Stores.required (list_ofJson fun i hi => item_toJson (by decide) (h i hi))
  exact .nil inv

lemma renameRule_canonical {v : Outline} {r : RenameRule} (h : renameRule v = .ok r) :
    r.Canonical := by
  obtain ⟨s, -, rfl⟩ := map_eq_ok_iff.mp h
  exact RenameRule.ofSpelling_canonical s

lemma enumeration_canonical {v : Outline} {e : Enumeration} (h : enumeration v = .ok e) :
    (Definition.enum e).Canonical := by
  refine record_keeps (P := fun e => (Definition.enum e).Canonical) ?slots ?initial h
  case initial =>
    intro r hr
    cases hr
  case slots =>
    have hrule : (defaulted "rename_all" (Decode.optional renameRule) fun rule (e : Enumeration) =>
        { e with renameAll := rule }).Keeps fun e => (Definition.enum e).Canonical := by
      apply keeps_defaulted
      intro v rule e hrule _ r hr
      obtain rfl : rule = some r := hr
      exact renameRule_canonical (of_optional hrule)
    simp only [List.forall_mem_cons]
    exact ⟨keeps_defaulted fun _ _ _ _ h => h, keeps_defaulted fun _ _ _ _ h => h,
      keeps_defaulted fun _ _ _ _ h => h, hrule, keeps_defaulted fun _ _ _ _ h => h, nofun⟩

lemma definition_canonical {depth : Nat} {v : Outline} {d : Definition}
    (h : definition depth v = .ok d) : d.Canonical := by
  obtain ⟨kind, u, h⟩ := exists_payload_of_tagged h
  unfold definitionOf at h
  split at h
  · obtain ⟨s, -, rfl⟩ := map_eq_ok_iff.mp h
    exact trivial
  · obtain ⟨e, he, rfl⟩ := map_eq_ok_iff.mp h
    exact enumeration_canonical he
  · obtain ⟨r, -, rfl⟩ := map_eq_ok_iff.mp h
    exact trivial
  · unfold unknownDefinition at h
    split at h
    · cases h
    · obtain rfl := Except.ok.inj h
      exact trivial

lemma item_canonical {depth : Nat} {v : Outline} {i : Item} (h : item depth v = .ok i) :
    i.Canonical := by
  refine record_keeps (P := Item.Canonical) ?slots ?initial h
  case initial => exact trivial
  case slots =>
    simp only [List.forall_mem_cons]
    exact ⟨keeps_required fun _ _ _ _ h => h, keeps_defaulted fun _ _ _ _ h => h,
      keeps_defaulted fun _ _ _ _ h => h, keeps_defaulted fun _ _ _ _ h => h,
      keeps_defaulted fun _ _ _ _ h => h,
      keeps_required fun _ _ _ hd _ => definition_canonical hd, nofun⟩

lemma inventory_canonical {v : Outline} {inv : Inventory} (h : inventory v = .ok inv) :
    inv.Canonical := by
  refine record_keeps (P := Inventory.Canonical) ?slots ?initial h
  case initial =>
    intro i hi
    cases hi
  case slots =>
    have hitems : (required "items" (list (item 2)) fun is (inv : Inventory) =>
        { inv with items := is }).Keeps Inventory.Canonical := by
      apply keeps_required
      intro v is inv his _ i hi
      obtain ⟨u, hu⟩ := mem_of_list his hi
      exact item_canonical hu
    simp only [List.forall_mem_cons]
    exact ⟨keeps_required fun _ _ _ _ h => h, hitems, nofun⟩

end Decode

lemma Item.ofGlyphs?_compact {i : Item} (h : i.Canonical) :
    Item.ofGlyphs? (Glyph.ofString i.toJson.compact) = .ok i :=
  text_compact (i.isPlain_toJson 0) (Decode.item_toJson (by decide) h)

lemma Item.canonical_of_ofGlyphs? {gs : List Glyph} {i : Item} (h : Item.ofGlyphs? gs = .ok i) :
    i.Canonical := by
  obtain ⟨v, hv⟩ := exists_of_text h
  exact Decode.item_canonical hv

lemma Inventory.ofGlyphs?_compact {inv : Inventory} (h : inv.Canonical) :
    Inventory.ofGlyphs? (Glyph.ofString inv.toJson.compact) = .ok inv :=
  text_compact inv.isPlain_toJson (Decode.inventory_toJson h)

lemma Inventory.canonical_of_ofGlyphs? {gs : List Glyph} {inv : Inventory}
    (h : Inventory.ofGlyphs? gs = .ok inv) : inv.Canonical := by
  obtain ⟨v, hv⟩ := exists_of_text h
  exact Decode.inventory_canonical hv

/-- Decoding undoes encoding on canonical items, on indexes and on canonical inventories, and all
that decoding gives is canonical. -/
theorem decode_encode :
    (∀ i : Item, i.Canonical → Item.ofGlyphs? (Glyph.ofString i.toJson.compact) = .ok i) ∧
    (∀ x : Index, Index.ofGlyphs? (Glyph.ofString x.toJson.compact) = .ok x) ∧
    (∀ inv : Inventory, inv.Canonical →
      Inventory.ofGlyphs? (Glyph.ofString inv.toJson.compact) = .ok inv) ∧
    (∀ gs i, Item.ofGlyphs? gs = .ok i →
      i.Canonical ∧ Item.ofGlyphs? (Glyph.ofString i.toJson.compact) = .ok i) ∧
    (∀ gs inv, Inventory.ofGlyphs? gs = .ok inv →
      inv.Canonical ∧ Inventory.ofGlyphs? (Glyph.ofString inv.toJson.compact) = .ok inv) := by
  refine ⟨?item, ?index, ?inventory, ?itemImage, ?inventoryImage⟩
  case item => exact fun i h => Item.ofGlyphs?_compact h
  case index => exact fun x => text_compact x.isPlain_toJson (Decode.index_toJson x)
  case inventory => exact fun inv h => Inventory.ofGlyphs?_compact h
  case itemImage =>
    intro gs i h
    have hcanonical : i.Canonical := Item.canonical_of_ofGlyphs? h
    exact ⟨hcanonical, Item.ofGlyphs?_compact hcanonical⟩
  case inventoryImage =>
    intro gs inv h
    have hcanonical : inv.Canonical := Inventory.canonical_of_ofGlyphs? h
    exact ⟨hcanonical, Inventory.ofGlyphs?_compact hcanonical⟩

/-- An enum with a rule of its own and a documentation full of escapes. -/
def sampleSignal : Item where
  name := "Signal"
  doc := "a \"quoted\" \\ line\n\x07 naïve → 😀"
  category := ""
  hidden := true
  package := "core"
  definition := .enum
    { tag := some "kind"
      untagged := false
      content := none
      renameAll := some (.other "Train-Case")
      variants :=
        [⟨"Stop", none, .unit⟩, ⟨"Wait", some "", .tuple "Option<u8>"⟩,
          ⟨"Go", none, .struct [⟨"speed", some "in m/s", "u8", false, true, true⟩]⟩] }

lemma canonical_sampleSignal : sampleSignal.Canonical := by
  intro r hr s hs k hk
  obtain rfl : r = .other "Train-Case" := (Option.some.inj hr).symm
  obtain rfl := RenameRule.other.inj hs
  revert k
  decide

theorem decode_encode_sampleSignal :
    sampleSignal.Canonical ∧
    Item.ofGlyphs? (Glyph.ofString sampleSignal.toJson.compact) = .ok sampleSignal ∧
    Inventory.ofGlyphs? (Glyph.ofString (Inventory.mk "0.4.0" [sampleSignal]).toJson.compact) =
      .ok ⟨"0.4.0", [sampleSignal]⟩ := by
  obtain ⟨hitem, -, hinventory, -, -⟩ := decode_encode
  have hcanonical := canonical_sampleSignal
  refine ⟨hcanonical, hitem _ hcanonical, hinventory _ ?_⟩
  simpa [Inventory.Canonical] using hcanonical

end SchemaClient.Schema
