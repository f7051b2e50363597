import SchemaClient.Proofs.OnePass

/-!
# Camel case

The camel case of a name is made of the segments between its underscores. It tells names in snake
case apart, because every later word of them shows as a capital: the functions of routes with
distinct names in snake case have distinct names.
-/

namespace SchemaClient.Text

/-- The segment with its first character raised to an ASCII capital. -/
def capitalize : List Char → List Char
  | [] => []
  | c :: cs => c.toUpper :: cs

/-- The first segment as it is and the later ones capitalized, without anything between them. -/
def camelOfSegments : List (List Char) → List Char
  | [] => []
  | first :: later => first ++ later.flatMap capitalize

lemma joinWords_eq (cs : List Char) :
    joinWords false cs = camelOfSegments (cs.splitOn '_') ∧
      joinWords true cs = (cs.splitOn '_').flatMap capitalize := by
  induction cs with
  | nil => exact ⟨rfl, rfl⟩
  | cons c cs ih =>
    obtain ⟨hkeep, hraise⟩ := ih
    rw [joinWords, joinWords, List.splitOn_cons_eq_if_modifyHead]
    by_cases hc : c = '_'
    · simp [hc, hraise, camelOfSegments, capitalize]
    · obtain ⟨first, later, hsplit⟩ := List.exists_cons_of_ne_nil (List.splitOn_ne_nil '_' cs)
      rw [hsplit] at hkeep ⊢
      simp [hc, hkeep, camelOfSegments, capitalize]

lemma toUpper_ne_underscore {c : Char} (hc : c ≠ '_') : c.toUpper ≠ '_' := by
  by_cases hlower : c.isLower = true
  · intro h
    have hupper : c.toUpper.isUpper = true := by simp [Char.isAlpha, hlower]
    rw [h] at hupper
    exact absurd hupper (by decide)
  · rwa [Char.toUpper_eq_of_not_isLower hlower]

lemma underscore_not_mem_joinWords (raise : Bool) (cs : List Char) :
    '_' ∉ joinWords raise cs := by
  induction cs generalizing raise with
  | nil => exact List.not_mem_nil
  | cons c cs ih =>
    rw [joinWords]
    split
    · exact ih true
    · next hc =>
      refine List.mem_cons.not.mpr (not_or.mpr ⟨?_, ih false⟩)
      cases raise with
      | false => exact Ne.symm hc
      | true => exact (toUpper_ne_underscore hc).symm

lemma joinWords_of_not_mem {cs : List Char} (h : '_' ∉ cs) : joinWords false cs = cs := by
  rw [(joinWords_eq cs).1, List.splitOn_eq_singleton h, camelOfSegments, List.flatMap_nil,
    List.append_nil]

/-! ### Names in snake case -/

/-- A small ASCII letter or a digit. -/
def isSmall (c : Char) : Bool :=
  c.isLower || c.isDigit

/-- The words between the underscores of a name consist of small letters and digits, and no word
but the first begins with a digit. -/
def IsSnakeCase (name : String) : Prop :=
  (∀ w ∈ name.toList.splitOn '_', w ≠ [] ∧ w.all isSmall = true) ∧
    ∀ w ∈ (name.toList.splitOn '_').tail, w.head?.any Char.isLower = true

instance (name : String) : Decidable (IsSnakeCase name) :=
  inferInstanceAs (Decidable (_ ∧ _))

/-- The text with each capital as a small letter behind an underscore. -/
def splitAtCapitals (cs : List Char) : List Char :=
  cs.flatMap fun c => if c.isUpper then ['_', c.toLower] else [c]

lemma isUpper_of_isSmall {c : Char} (h : isSmall c = true) : c.isUpper = false := by
  rw [Bool.eq_false_iff]
  intro hupper
  rw [isSmall, Bool.or_eq_true] at h
  rcases h with hlower | hdigit
  · exact Char.not_isLower_of_isUpper hupper hlower
  · simp only [Char.isUpper, Char.isDigit, Bool.and_eq_true, decide_eq_true_eq, ge_iff_le,
      UInt32.le_iff_toNat_le] at hupper hdigit
    exact absurd (hupper.1.trans hdigit.2) (by decide)

lemma splitAtCapitals_word {w : List Char} (hw : w.all isSmall = true) :
    splitAtCapitals w = w := by
  induction w with
  | nil => rfl
  | cons c w ih =>
    rw [List.all_cons, Bool.and_eq_true] at hw
    obtain ⟨hc, hw⟩ := hw
    have hrest := ih hw
    rw [splitAtCapitals] at hrest ⊢
    rw [List.flatMap_cons, isUpper_of_isSmall hc, hrest]
    rfl

/-- A word that begins with a letter is found again behind its capital. -/
lemma splitAtCapitals_capitalize {w : List Char} (hw : w.all isSmall = true)
    (hletter : w.head?.any Char.isLower = true) : splitAtCapitals (capitalize w) = '_' :: w := by
  cases w with
  | nil => cases hletter
  | cons c w =>
    rw [List.all_cons, Bool.and_eq_true] at hw
    have hc : c.isLower = true := hletter
    have hupper : c.toUpper.isUpper = true := by simp [Char.isAlpha, hc]
    have hlower : c.toUpper.toLower = c := by
      rw [Char.toLower_toUpper_eq_toLower,
        Char.toLower_eq_of_not_isUpper (Char.not_isUpper_of_isLower hc)]
    have hword := splitAtCapitals_word hw.2
    rw [splitAtCapitals] at hword ⊢
    rw [capitalize, List.flatMap_cons, if_pos hupper, hlower, hword]
    rfl

lemma splitAtCapitals_flatMap_capitalize {ws : List (List Char)}
    (hws : ∀ w ∈ ws, w.all isSmall = true)
    (hletters : ∀ w ∈ ws, w.head?.any Char.isLower = true) :
    splitAtCapitals (ws.flatMap capitalize) = ws.flatMap ('_' :: ·) := by
  induction ws with
  | nil => rfl
  | cons w ws ih =>
    obtain ⟨hw, hws⟩ := List.forall_mem_cons.mp hws
    obtain ⟨hletter, hletters⟩ := List.forall_mem_cons.mp hletters
    have hfirst := splitAtCapitals_capitalize hw hletter
    have hrest := ih hws hletters
    rw [splitAtCapitals] at hfirst hrest ⊢
    rw [List.flatMap_cons, List.flatMap_append, hfirst, hrest, List.flatMap_cons]

lemma intercalate_singleton_cons (c : Char) (w : List Char) (ws : List (List Char)) :
    [c].intercalate (w :: ws) = w ++ ws.flatMap (c :: ·) := by
  induction ws generalizing w with
  | nil => simp
  | cons v ws ih => simp [List.intercalate_cons_cons, ih]

/-- Nothing of a name in snake case gets lost in its camel case. -/
lemma splitAtCapitals_camelCase {name : String} (h : IsSnakeCase name) :
    splitAtCapitals (camelCase name).toList = name.toList := by
  obtain ⟨hwords, hletters⟩ := h
  obtain ⟨first, later, hsplit⟩ :=
    List.exists_cons_of_ne_nil (List.splitOn_ne_nil '_' name.toList)
  rw [hsplit] at hwords hletters
  obtain ⟨⟨-, hfirst⟩, hlater⟩ := List.forall_mem_cons.mp hwords
  have hword := splitAtCapitals_word hfirst
  have hrest := splitAtCapitals_flatMap_capitalize (fun w hw => (hlater w hw).2) hletters
  rw [splitAtCapitals] at hword hrest ⊢
  calc
    (camelCase name).toList.flatMap _ = (first ++ later.flatMap capitalize).flatMap _ := by
      rw [camelCase, String.toList_ofList, (joinWords_eq _).1, hsplit, camelOfSegments]
    _ = first ++ later.flatMap ('_' :: ·) := by rw [List.flatMap_append, hword, hrest]
    _ = ['_'].intercalate (name.toList.splitOn '_') := by
      rw [hsplit, intercalate_singleton_cons]
    _ = name.toList := List.intercalate_splitOn '_'

lemma camelCase_injective {a b : String} (ha : IsSnakeCase a) (hb : IsSnakeCase b)
    (h : camelCase a = camelCase b) : a = b := by
  rw [← String.toList_inj, ← splitAtCapitals_camelCase ha, h, splitAtCapitals_camelCase hb]

lemma nodup_map_camelCase {names : List String} (hsnake : ∀ n ∈ names, IsSnakeCase n)
    (hnodup : names.Nodup) : (names.map camelCase).Nodup :=
  hnodup.map_on fun _ ha _ hb => camelCase_injective (hsnake _ ha) (hsnake _ hb)

end SchemaClient.Text

namespace SchemaClient.Client
open SchemaClient.Schema SchemaClient.Code SchemaClient.Text

/-- The names of the route functions that are written for an inventory. -/
def functionNames (inv : Inventory) : List String :=
  (Sections.ofInventory inv).routes.map (·.name)

/-- The names that the registry of an inventory lists. -/
def registeredNames (inv : Inventory) : List String :=
  (Sections.ofInventory inv).registry.entries.map (·.name)

lemma functionNames_eq (inv : Inventory) :
    functionNames inv = (inv.routes.map (·.1.name)).map camelCase := by
  rw [functionNames, ofInventory_eq_selection, Selection.ofInventory, List.map_map]
  exact List.map_map

lemma registeredNames_eq (inv : Inventory) : registeredNames inv = functionNames inv := by
  rw [registeredNames, Sections.registry, Registry.ofFunctions, List.map_map]
  rfl

/-- Camel case joins the segments of any name and leaves no underscore to be joined at again. It
keeps names in snake case apart, and so a module does not declare or register two routes under one
name. -/
theorem camelCase_keeps_apart :
    (∀ name, (camelCase name).toList = camelOfSegments (name.toList.splitOn '_') ∧
      '_' ∉ (camelCase name).toList ∧ camelCase (camelCase name) = camelCase name) ∧
    (∀ a b, IsSnakeCase a → IsSnakeCase b → camelCase a = camelCase b → a = b) ∧
    ∀ inv : Inventory, (∀ p ∈ inv.routes, IsSnakeCase p.1.name) →
      (inv.routes.map (·.1.name)).Nodup →
        (functionNames inv).Nodup ∧ (registeredNames inv).Nodup := by
  refine ⟨fun name => ?_, fun a b => camelCase_injective, fun inv hsnake hnodup => ?_⟩
  · have hmem : '_' ∉ (camelCase name).toList := by
      rw [camelCase, String.toList_ofList]
      exact underscore_not_mem_joinWords false _
    refine ⟨?_, hmem, ?_⟩
    · rw [camelCase, String.toList_ofList, (joinWords_eq _).1]
    · conv_lhs => rw [camelCase, joinWords_of_not_mem hmem, String.ofList_toList]
  · have hnames : (functionNames inv).Nodup := by
      rw [functionNames_eq]
      exact nodup_map_camelCase (List.forall_mem_map.mpr hsnake) hnodup
    exact ⟨hnames, registeredNames_eq inv ▸ hnames⟩

/-- An inventory whose routes differ in where the words of their names begin. -/
def crowdedInventory : Inventory where
  version := "1.0.0"
  items := ["get_user2", "get_us_er2", "getuser2", "2get_user"].map fun name =>
    { name := name, doc := "", category := "", hidden := false, package := ""
      definition := .route ⟨"GET", "/", [], [], none, none, []⟩ }

theorem camelCase_keeps_apart_crowdedInventory :
    (IsSnakeCase "get_user2" ∧ IsSnakeCase "get_us_er2" ∧
      camelCase "get_user2" ≠ camelCase "get_us_er2") ∧
    (∀ p ∈ crowdedInventory.routes, IsSnakeCase p.1.name) ∧
    (crowdedInventory.routes.map (·.1.name)).Nodup ∧
    functionNames crowdedInventory = ["getUser2", "getUsEr2", "getuser2", "2getUser"] ∧
    (functionNames crowdedInventory).Nodup ∧ (registeredNames crowdedInventory).Nodup := by
  obtain ⟨-, hinjective, hroutes⟩ := camelCase_keeps_apart
  have hfirst : IsSnakeCase "get_user2" := by decide
  have hsecond : IsSnakeCase "get_us_er2" := by decide
  have hsnake : ∀ p ∈ crowdedInventory.routes, IsSnakeCase p.1.name := by decide
  have hnodup : (crowdedInventory.routes.map (·.1.name)).Nodup := by decide
  refine ⟨⟨hfirst, hsecond, fun h => ?_⟩, hsnake, hnodup, by decide, hroutes _ hsnake hnodup⟩
  exact absurd (hinjective _ _ hfirst hsecond h) (by decide)

end SchemaClient.Client
