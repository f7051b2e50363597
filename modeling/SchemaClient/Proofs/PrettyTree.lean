import Mathlib
import SchemaClient.Proofs.JsonParts
import SchemaClient.Report.Pretty

/-!
# The tree behind the layout for people

A value is a tree of entries and items. The layout for people goes through it from top to bottom and
tells of each entry and item how deep it stands, its key if it has one, and its text if it holds
nothing. These rows tell the tree.
-/

namespace SchemaClient.Report
open SchemaClient.Text

/-! ### Branches -/

/-- An entry of an object with its key, or an item of an array, which has none. -/
abbrev Branch := Option String × Json

/-- The entries or items of a value. -/
def branches : Json → List Branch
  | .object es => es.map fun e => (some e.1, e.2)
  | .array vs => vs.map fun v => (none, v)
  | _ => []

lemma isNested_iff {v : Json} : isNested v = true ↔ branches v ≠ [] := by
  cases v <;> simp [isNested, branches]

/-- What a value takes over from its entries or items holds of every value. -/
@[elab_as_elim]
lemma induction_branches {motive : Json → Prop}
    (step : ∀ v, (∀ b ∈ branches v, motive b.2) → motive v) (v : Json) : motive v := by
  induction v using Json.induction_parts with
  | array vs ih => exact step _ (List.forall_mem_map.mpr ih)
  | object es ih => exact step _ (List.forall_mem_map.mpr ih)
  | _ => exact step _ (List.forall_mem_nil _)

lemma every_of_mem_branches {key string : String → Prop} {number : Json.Number → Prop} {v : Json}
    (h : v.Every key string number) {b : Branch} (hb : b ∈ branches v) :
    (∀ k, b.1 = some k → key k) ∧ b.2.Every key string number := by
  cases h with
  | object keys values =>
    obtain ⟨e, he, rfl⟩ := List.mem_map.mp hb
    exact ⟨fun k hk => Option.some.inj hk ▸ keys e he, values e he⟩
  | array items =>
    obtain ⟨v, hv, rfl⟩ := List.mem_map.mp hb
    exact ⟨nofun, items v hv⟩
  | _ => cases hb

/-- What stands at the beginning of the line of an entry or item. -/
def mark (colours : Bool) : Option String → String
  | some k => paint colours .key k ++ ":"
  | none => "-"

/-- The lines of an entry or item and of what it holds. -/
def branchLines (colours : Bool) (level : Nat) (b : Branch) : String :=
  indent level ++ mark colours b.1 ++
    if isNested b.2 then "\n" ++ block colours (level + 1) b.2
    else " " ++ leaf colours b.2 ++ "\n"

section Lines

variable (colours : Bool) (level : Nat)

lemma entryLines_eq_join (es : List (String × Json)) : entryLines colours level es =
    String.join (es.map fun e => branchLines colours level (some e.1, e.2)) := by
  induction es with
  | nil => rfl
  | cons e es ih =>
    rw [entryLines, ih, List.map_cons, String.join_cons, branchLines, mark]
    simp only [String.append_assoc]

lemma itemLines_eq_join (vs : List Json) : itemLines colours level vs =
    String.join (vs.map fun v => branchLines colours level (none, v)) := by
  induction vs with
  | nil => rfl
  | cons v vs ih =>
    rw [itemLines, ih, List.map_cons, String.join_cons, branchLines, mark]

lemma block_of_isNested {v : Json} (h : isNested v = true) : block colours level v =
    String.join ((branches v).map (branchLines colours level)) := by
  cases v with
  | object es => rw [block, entryLines_eq_join, branches, List.map_map]; rfl
  | array vs => rw [block, itemLines_eq_join, branches, List.map_map]; rfl
  | _ => cases h

end Lines

/-! ### Trees -/

/-- How objects and arrays are nested, with their keys and the texts of the values that hold
nothing. -/
inductive Tree where
  | leaf (text : String)
  | array (items : List Tree)
  | object (entries : List (String × Tree))

mutual

/-- The tree of a value. -/
def tree : Json → Tree
  | .array (v :: vs) => .array (tree v :: itemTrees vs)
  | .object ((k, v) :: es) => .object ((k, tree v) :: entryTrees es)
  | v => .leaf (leaf false v)

/-- The trees of items. -/
def itemTrees : List Json → List Tree
  | [] => []
  | v :: vs => tree v :: itemTrees vs

/-- The trees of entries with their keys. -/
def entryTrees : List (String × Json) → List (String × Tree)
  | [] => []
  | (k, v) :: es => (k, tree v) :: entryTrees es

end

lemma itemTrees_eq_map (vs : List Json) : itemTrees vs = vs.map tree := by
  induction vs with
  | nil => rfl
  | cons v vs ih => rw [itemTrees, ih, List.map_cons]

lemma entryTrees_eq_map (es : List (String × Json)) :
    entryTrees es = es.map fun e => (e.1, tree e.2) := by
  induction es with
  | nil => rfl
  | cons e es ih => rw [entryTrees, ih, List.map_cons]

lemma tree_of_isNested {v : Json} (h : isNested v = true) :
    (∃ es, v = .object es ∧ tree v = .object (es.map fun e => (e.1, tree e.2))) ∨
      ∃ vs, v = .array vs ∧ tree v = .array (vs.map tree) := by
  cases v with
  | object es =>
    cases es with
    | nil => cases h
    | cons e es => exact .inl ⟨e :: es, rfl, by rw [tree, entryTrees_eq_map, List.map_cons]⟩
  | array vs =>
    cases vs with
    | nil => cases h
    | cons v vs => exact .inr ⟨v :: vs, rfl, by rw [tree, itemTrees_eq_map, List.map_cons]⟩
  | _ => cases h

lemma tree_of_not_isNested {v : Json} (h : isNested v = false) : tree v = .leaf (leaf false v) := by
  cases v with
  | object es =>
    cases es with
    | nil => rfl
    | cons e es => cases h
  | array vs =>
    cases vs with
    | nil => rfl
    | cons v vs => cases h
  | _ => rfl

/-- An entry or item as it is told in a tree. -/
def Branch.tree (b : Branch) : Option String × Tree :=
  (b.1, Report.tree b.2)

/-- The tree of a value is told by the trees of its entries or items. -/
lemma tree_eq_of_branches {v w : Json} (hv : isNested v = true) (hw : isNested w = true)
    (h : (branches v).map Branch.tree = (branches w).map Branch.tree) : tree v = tree w := by
  have hne := isNested_iff.mp hv
  obtain ⟨es, rfl, hes⟩ | ⟨vs, rfl, hvs⟩ := tree_of_isNested hv <;>
    obtain ⟨fs, rfl, hfs⟩ | ⟨ws, rfl, hws⟩ := tree_of_isNested hw <;>
    simp only [branches, List.map_map] at h
  · rw [hes, hfs]
    have hentries := congrArg (List.map fun b : Option String × Tree => (b.1.getD "", b.2)) h
    rw [List.map_map, List.map_map] at hentries
    exact congrArg Tree.object hentries
  · obtain ⟨e, es, rfl⟩ := List.exists_cons_of_ne_nil (List.map_eq_nil_iff.not.mp hne)
    cases ws <;> simp [Branch.tree] at h
  · obtain ⟨v, vs, rfl⟩ := List.exists_cons_of_ne_nil (List.map_eq_nil_iff.not.mp hne)
    cases fs <;> simp [Branch.tree] at h
  · rw [hvs, hws]
    have hitems := congrArg (List.map Prod.snd) h
    rw [List.map_map, List.map_map] at hitems
    exact congrArg Tree.array hitems

/-! ### Rows -/

/-- What one line tells: how deep an entry or item stands, its key if it is an entry, and its text
if it holds nothing. -/
structure Row where
  depth : Nat
  label : Option String
  text : Option String
deriving DecidableEq, Repr

attribute [ext] Row

/-- The text of a value that holds nothing. -/
def leafText? (v : Json) : Option String :=
  if isNested v then none else some (leaf false v)

mutual

/-- One row for each entry and item of a value at all depths, in the order of the value. -/
def rows (depth : Nat) : Json → List Row
  | .object es => entryRows depth es
  | .array vs => itemRows depth vs
  | _ => []

/-- The rows of entries and of what they hold. -/
def entryRows (depth : Nat) : List (String × Json) → List Row
  | [] => []
  | (k, v) :: es => ⟨depth, some k, leafText? v⟩ :: rows (depth + 1) v ++ entryRows depth es

/-- The rows of items and of what they hold. -/
def itemRows (depth : Nat) : List Json → List Row
  | [] => []
  | v :: vs => ⟨depth, none, leafText? v⟩ :: rows (depth + 1) v ++ itemRows depth vs

end

/-- The rows of an entry or item and of what it holds. -/
def branchRows (depth : Nat) (b : Branch) : List Row :=
  ⟨depth, b.1, leafText? b.2⟩ :: rows (depth + 1) b.2

lemma rows_eq_flatMap (depth : Nat) (v : Json) :
    rows depth v = (branches v).flatMap (branchRows depth) := by
  have hentries (es : List (String × Json)) : entryRows depth es =
      (es.map fun e => (some e.1, e.2)).flatMap (branchRows depth) := by
    induction es with
    | nil => rfl
    | cons e es ih => rw [entryRows, ih, List.map_cons, List.flatMap_cons, branchRows]
  have hitems (vs : List Json) : itemRows depth vs =
      (vs.map fun v => (none, v)).flatMap (branchRows depth) := by
    induction vs with
    | nil => rfl
    | cons v vs ih => rw [itemRows, ih, List.map_cons, List.flatMap_cons, branchRows]
  cases v with
  | object es => exact hentries es
  | array vs => exact hitems vs
  | _ => rfl

lemma rows_of_not_isNested {v : Json} (h : isNested v = false) (depth : Nat) :
    rows depth v = [] := by
  have hnil : branches v = [] := by
    by_contra hne
    exact Bool.false_ne_true (h.symm.trans (isNested_iff.mpr hne))
  rw [rows_eq_flatMap, hnil, List.flatMap_nil]

/-- A list of rows that does not begin with one at the depth or below it. -/
def Ends (depth : Nat) (rs : List Row) : Prop :=
  ∀ r ∈ rs.head?, r.depth < depth

lemma ends_flatMap {depth : Nat} {rest : List Row} (h : Ends depth rest) (bs : List Branch) :
    Ends (depth + 1) (bs.flatMap (branchRows depth) ++ rest) := by
  cases bs with
  | nil => exact fun r hr => Nat.lt_succ_of_lt (h r hr)
  | cons b bs =>
    intro r hr
    obtain rfl : ⟨depth, b.1, leafText? b.2⟩ = r := by simpa [branchRows] using hr
    exact Nat.lt_succ_self depth

/-- The rows of a value end where its tree ends, and tell its tree. -/
def TellsTree (v : Json) : Prop :=
  ∀ (w : Json) (depth : Nat) (rest rest' : List Row), isNested v = true → isNested w = true →
    Ends depth rest → Ends depth rest' → rows depth v ++ rest = rows depth w ++ rest' →
    tree v = tree w ∧ rest = rest'

lemma branchRows_inj {b c : Branch} (hb : TellsTree b.2) {depth : Nat} {rest rest' : List Row}
    (hrest : Ends (depth + 1) rest) (hrest' : Ends (depth + 1) rest')
    (h : branchRows depth b ++ rest = branchRows depth c ++ rest') :
    b.tree = c.tree ∧ rest = rest' := by
  obtain ⟨k, v⟩ := b
  obtain ⟨l, w⟩ := c
  obtain ⟨hrow, hrows⟩ := List.cons.inj h
  obtain ⟨-, rfl, htext⟩ := Row.mk.inj hrow
  cases hv : isNested v <;> cases hw : isNested w <;> simp [leafText?, hv, hw] at htext
  · rw [rows_of_not_isNested hv, rows_of_not_isNested hw] at hrows
    refine ⟨?_, hrows⟩
    rw [Branch.tree, Branch.tree, tree_of_not_isNested hv, tree_of_not_isNested hw, htext]
  · obtain ⟨htree, heq⟩ := hb w (depth + 1) rest rest' hv hw hrest hrest' hrows
    exact ⟨congrArg (Prod.mk k) htree, heq⟩

lemma flatMap_branchRows_inj {bs cs : List Branch} (hbs : ∀ b ∈ bs, TellsTree b.2) {depth : Nat}
    {rest rest' : List Row} (hrest : Ends depth rest) (hrest' : Ends depth rest')
    (h : bs.flatMap (branchRows depth) ++ rest = cs.flatMap (branchRows depth) ++ rest') :
    bs.map Branch.tree = cs.map Branch.tree ∧ rest = rest' := by
  -- A branch begins with a row at the depth and a rest does not, so both lists end at once.
  have hends {b : Branch} {rs ts : List Row} (ht : Ends depth ts) :
      branchRows depth b ++ rs ≠ ts := by
    rintro rfl
    exact Nat.lt_irrefl depth (ht ⟨depth, b.1, leafText? b.2⟩ rfl)
  induction bs generalizing cs with
  | nil =>
    cases cs with
    | nil => exact ⟨rfl, h⟩
    | cons c cs =>
      rw [List.flatMap_nil, List.flatMap_cons, List.append_assoc] at h
      exact absurd h.symm (hends hrest)
  | cons b bs ih =>
    obtain ⟨hb, hbs⟩ := List.forall_mem_cons.mp hbs
    cases cs with
    | nil =>
      rw [List.flatMap_nil, List.flatMap_cons, List.append_assoc] at h
      exact absurd h (hends hrest')
    | cons c cs =>
      rw [List.flatMap_cons, List.flatMap_cons, List.append_assoc, List.append_assoc] at h
      obtain ⟨hfirst, hlater⟩ :=
        branchRows_inj hb (ends_flatMap hrest bs) (ends_flatMap hrest' cs) h
      obtain ⟨htrees, heq⟩ := ih hbs hlater
      exact ⟨by rw [List.map_cons, List.map_cons, hfirst, htrees], heq⟩

lemma tellsTree (v : Json) : TellsTree v := by
  induction v using induction_branches with
  | step v ih =>
    intro w depth rest rest' hv hw hrest hrest' h
    rw [rows_eq_flatMap, rows_eq_flatMap] at h
    obtain ⟨htrees, heq⟩ := flatMap_branchRows_inj ih hrest hrest' h
    exact ⟨tree_eq_of_branches hv hw htrees, heq⟩

end SchemaClient.Report
