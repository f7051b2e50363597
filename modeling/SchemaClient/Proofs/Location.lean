import Mathlib.Data.List.TakeWhile
import SchemaClient.Load.Source
import SchemaClient.Proofs.FileFrame

/-!
# Where documents stand

The documents of an inventory stand below its root. An entry of the index names the same place below
an address in the web and below a directory, unless it begins with a slash: such an entry is taken
from the address, but a directory is left for the root of the file tree. Every other entry leads to
the document that it names from the directory itself.
-/

namespace SchemaClient.Store

namespace Path

variable {p q : String}

lemma parts_slash (p q : String) : parts (p ++ "/" ++ q) = parts p ++ parts q := by
  have hslash : "/".toList = ['/'] := rfl
  rw [parts, String.toList_append, String.toList_append, hslash, List.append_assoc,
    List.singleton_append, List.splitOn_eq_splitOnP, List.splitOnP_append_cons _ _ (by decide),
    List.filter_append, List.map_append, ← List.splitOn_eq_splitOnP, ← List.splitOn_eq_splitOnP,
    parts, parts]

lemma parts_ne_nil (hq : q ≠ "") (hrelative : isAbsolute q = false) : parts q ≠ [] := by
  cases hchars : q.toList with
  | nil => exact absurd (String.toList_eq_nil_iff.mp hchars) hq
  | cons c cs =>
    have hc : (c == '/') = false := by
      rw [isAbsolute, hchars] at hrelative
      simpa using hrelative
    have hpieces := List.splitOn_ne_nil '/' cs
    rw [parts, hchars, List.splitOn_cons_eq_if_modifyHead, hc]
    cases hsplit : cs.splitOn '/' with
    | nil => exact absurd hsplit hpieces
    | cons piece pieces => simp

lemma join_of_relative (hp : p ≠ "") (hslash : endsWithSlash p = false)
    (hq : isAbsolute q = false) : join p q = p ++ "/" ++ q := by
  have hempty : p.isEmpty = false := by simpa using hp
  rw [endsWithSlash] at hslash
  rw [join, hq, hempty, hslash]
  rfl

lemma isAbsolute_append (hp : p ≠ "") (q : String) :
    isAbsolute (p ++ q) = isAbsolute p := by
  have hp' : p.toList ≠ [] := fun h => hp (String.toList_eq_nil_iff.mp h)
  rw [isAbsolute, isAbsolute, String.toList_append, List.head?_append_of_ne_nil _ hp']

lemma endsWithSlash_append (hq : q ≠ "") (p : String) :
    endsWithSlash (p ++ q) = endsWithSlash q := by
  have hq' : q.toList ≠ [] := fun h => hq (String.toList_eq_nil_iff.mp h)
  rw [endsWithSlash, endsWithSlash, String.toList_append, List.getLast?_append_of_ne_nil _ hq']

end Path

namespace Tree

variable {t : Tree} {path : String} {c : Content}

lemma read_eq_ok_iff : t.read path = .ok c ↔ ∃ g, t.target path = .ok g ∧
    g.mustBeDirectory = false ∧ t.node? g.place = some (.file c) := by
  constructor
  · intro h
    obtain ⟨n, hfind, h⟩ := bind_eq_ok_iff.mp h
    obtain ⟨g, htarget, hnode⟩ := bind_eq_ok_iff.mp hfind
    refine ⟨g, htarget, ?_⟩
    split at hnode
    · cases hnode
    · cases hnode
      cases h
    · next content hfile =>
      by_cases hdirectory : g.mustBeDirectory = true
      · rw [if_pos hdirectory] at hnode
        cases hnode
      · rw [if_neg hdirectory] at hnode
        cases hnode
        cases h
        exact ⟨Bool.eq_false_iff.mpr hdirectory, hfile⟩
  · rintro ⟨g, htarget, hfile, hnode⟩
    rw [read, find_of_target htarget hfile hnode]
    rfl

/-- A file is read if the parts of its path lead to the directory that it stands in. -/
lemma read_eq_ok_iff_walk : t.read path = .ok c ↔ IsUsable path ∧
    Path.endsWithSlash path = false ∧ ∃ parts last r, Path.parts path = parts ++ [last] ∧
      t.walk (t.origin path) parts = .ok r ∧ ¬(last = "." ∨ last = "..") ∧
        last.utf8ByteSize ≤ maxName ∧ t.node? (r ++ [last]) = some (.file c) := by
  rw [read_eq_ok_iff]
  constructor
  · rintro ⟨g, htarget, hfile, hnode⟩
    obtain ⟨husable, hleads⟩ := target_eq_ok_iff.mp htarget
    cases hleads with
    | origin => cases hfile
    | directory => cases hfile
    | named hparts hwalk hlast hsize =>
      exact ⟨husable, hfile, _, _, _, hparts, hwalk, hlast, hsize, hnode⟩
  · rintro ⟨husable, hfile, parts, last, r, hparts, hwalk, hlast, hsize, hnode⟩
    exact ⟨_, target_eq_ok_iff.mpr ⟨husable, .named hparts hwalk hlast hsize⟩, hfile, hnode⟩

lemma walk_append {p q : Place} {parts : List String} (h : t.walk p parts = .ok q)
    (more : List String) : t.walk p (parts ++ more) = t.walk q more := by
  induction parts generalizing p with
  | nil =>
    cases h
    rfl
  | cons part parts ih =>
    obtain ⟨r, henter, hrest⟩ := walk_cons_eq_ok_iff.mp h
    rw [List.cons_append, walk, henter]
    exact ih hrest

lemma walk_from (t : Tree) (here p : Place) (parts : List String) :
    ({ t with here } : Tree).walk p parts = t.walk p parts := by
  induction parts generalizing p with
  | nil => rfl
  | cons part parts ih =>
    rw [walk, walk]
    exact congrArg (t.enter p part >>= ·) (funext ih)

/-- A relative path behind a path to a directory names the file that it names from there. -/
lemma read_slash {root : String} {d : Place} (hroot : root ≠ "")
    (hwalk : t.walk (t.origin root) (Path.parts root) = .ok d)
    (hrelative : Path.isAbsolute path = false) (husable : IsUsable (root ++ "/" ++ path)) :
    t.read (root ++ "/" ++ path) = .ok c ↔ ({ t with here := d } : Tree).read path = .ok c := by
  have horigin : t.origin (root ++ "/" ++ path) = t.origin root := by
    rw [origin, origin, String.append_assoc, Path.isAbsolute_append hroot]
  have horigin' : ({ t with here := d } : Tree).origin path = d := by
    rw [origin, hrelative]
    rfl
  rw [read_eq_ok_iff_walk, read_eq_ok_iff_walk, Path.parts_slash, horigin, horigin']
  by_cases hempty : path = ""
  · -- the path of the directory itself with a slash behind it names no file
    subst hempty
    have hslash : Path.endsWithSlash (root ++ "/" ++ "") = true := by
      rw [String.append_empty, Path.endsWithSlash_append (by decide)]
      rfl
    constructor
    · rintro ⟨-, hfile, -⟩
      rw [hslash] at hfile
      cases hfile
    · rintro ⟨⟨hnonempty, -⟩, -⟩
      cases hnonempty
  · have hsub : IsUsable path := by
      obtain ⟨-, hzero, hsize⟩ := husable
      refine ⟨by simpa using hempty, ?_, ?_⟩
      · simp only [String.toList_append, List.contains_append, Bool.or_eq_false_iff] at hzero
        exact hzero.2
      · rw [String.utf8ByteSize_append] at hsize
        omega
    have hslash : Path.endsWithSlash (root ++ "/" ++ path) = Path.endsWithSlash path :=
      Path.endsWithSlash_append hempty _
    obtain ⟨parts, last, hparts⟩ :=
      (List.eq_nil_or_concat' (Path.parts path)).resolve_left (Path.parts_ne_nil hempty hrelative)
    have hjoined : Path.parts root ++ Path.parts path = (Path.parts root ++ parts) ++ [last] := by
      rw [hparts, List.append_assoc]
    rw [hslash, hjoined, hparts]
    constructor
    · rintro ⟨-, hfile, parts', last', r, heq, hr, hlast, hsize, hnode⟩
      obtain ⟨rfl, hlasts⟩ := List.append_inj' heq rfl
      cases hlasts
      rw [walk_append hwalk] at hr
      exact ⟨hsub, hfile, parts, last, r, rfl, (walk_from t d d parts).trans hr, hlast, hsize,
        hnode⟩
    · rintro ⟨-, hfile, parts', last', r, heq, hr, hlast, hsize, hnode⟩
      obtain ⟨rfl, hlasts⟩ := List.append_inj' heq rfl
      cases hlasts
      rw [walk_from] at hr
      exact ⟨husable, hfile, _, last, r, rfl, (walk_append hwalk parts).trans hr, hlast, hsize,
        hnode⟩

end Tree
end SchemaClient.Store

namespace SchemaClient.Load
open SchemaClient.Store SchemaClient.Text

/-- Whether a root is an address in the web. -/
def IsAddress (root : String) : Prop :=
  ∃ scheme ∈ Root.schemes, scheme.toList <+: root.toList

/-- The place of a path below a root: behind the root and one slash, without slashes in front. -/
def below (root path : String) : String :=
  root ++ "/" ++ String.ofList (path.toList.dropWhile (· == '/'))

variable {root path : String}

lemma below_of_relative (h : Path.isAbsolute path = false) (root : String) :
    below root path = root ++ "/" ++ path := by
  have hdrop : path.toList.dropWhile (· == '/') = path.toList := by
    rw [Path.isAbsolute] at h
    cases hchars : path.toList with
    | nil => rfl
    | cons c cs =>
      rw [hchars] at h
      exact List.dropWhile_cons_of_neg (by simpa using h)
  rw [below, hdrop, String.ofList_toList]

/-- Only a root of slashes would put a path that begins with a slash back where it stands. -/
lemma below_ne_self (hroot : root ≠ "") (hslash : Path.endsWithSlash root = false) (path : String) :
    below root path ≠ path := by
  intro h
  have hchars := congrArg String.toList h
  have hsplit := List.takeWhile_append_dropWhile (p := (· == '/')) (l := path.toList)
  simp only [below, String.toList_append, String.toList_ofList] at hchars
  have hfront := List.append_cancel_right (hchars.trans hsplit.symm)
  obtain ⟨c, hc⟩ := Option.ne_none_iff_exists'.mp fun hnone =>
    hroot (String.toList_eq_nil_iff.mp (List.getLast?_eq_none_iff.mp hnone))
  have hmem : c ∈ path.toList.takeWhile (· == '/') := by
    rw [← hfront]
    exact List.mem_append_left _ (List.mem_of_getLast? hc)
  have hc' : c = '/' := by simpa using List.mem_takeWhile_imp hmem
  rw [Path.endsWithSlash, hc, hc'] at hslash
  cases hslash

lemma isAddress_iff : IsAddress root ↔
    (Root.schemes.any fun p => p.toList.isPrefixOf root.toList) = true := by
  simp only [IsAddress, List.any_eq_true, List.isPrefixOf_iff_prefix]

lemma ofArgument_of_isAddress (h : IsAddress root) (hslash : Path.endsWithSlash root = false) :
    Root.ofArgument root = .web root := by
  have htrim : dropEndWhile (· == '/') root.toList = root.toList := by
    rw [Path.endsWithSlash, ← List.head?_reverse] at hslash
    rw [dropEndWhile]
    cases hchars : root.toList.reverse with
    | nil => simpa using hchars.symm
    | cons c cs =>
      rw [hchars] at hslash
      rw [List.dropWhile_cons_of_neg (by simpa using hslash), ← hchars, List.reverse_reverse]
  rw [Root.ofArgument, if_pos (isAddress_iff.mp h), Root.ofAddress, htrim, String.ofList_toList]

lemma ofArgument_of_not_isAddress (h : ¬IsAddress root) :
    Root.ofArgument root = .directory root := by
  rw [Root.ofArgument, if_neg (isAddress_iff.not.mp h)]

/-- A path stands below a root, whether this is an address or a directory, unless it begins with a
slash and the root is a directory; then the directory is left. The document that is read from an
address is the one below it, and from a directory the one that the path names from there. -/
theorem location_eq_below_iff [Web (StateM Tree)] (agent : Agent) (hroot : root ≠ "")
    (hslash : Path.endsWithSlash root = false) (path : String) :
    let source : Source (StateM Tree) := .ofRoot (.ofArgument root) agent
    (source.location path = below root path ↔ IsAddress root ∨ Path.isAbsolute path = false) ∧
    (IsAddress root → ∀ (t : Tree) (c : Content), ((source.read path).run t).1 = .ok c ↔
      ((Web.read agent (below root path) : StateM Tree _).run t).1 = .ok c) ∧
    (¬IsAddress root → Path.isAbsolute path = true → source.location path = path) ∧
    (¬IsAddress root → Path.isAbsolute path = false → ∀ (t : Tree) (d : Place),
      t.walk (t.origin root) (Path.parts root) = .ok d → Tree.IsUsable (below root path) →
      ∀ c, ((source.read path).run t).1 = .ok c ↔
        ({ t with here := d } : Tree).read path = .ok c) := by
  by_cases haddress : IsAddress root
  · have hweb := ofArgument_of_isAddress haddress hslash
    rw [hweb]
    refine ⟨⟨fun _ => .inl haddress, fun _ => rfl⟩, ?_, fun h => absurd haddress h,
      fun h => absurd haddress h⟩
    intro _ t c
    have hread : (((.ofRoot (.web root) agent : Source (StateM Tree)).read path).run t).1 =
      ((Web.read agent (below root path) : StateM Tree _).run t).1.mapError
        (.fetchFailed (below root path)) := rfl
    rw [hread, mapError_eq_ok_iff]
  have hdirectory := ofArgument_of_not_isAddress haddress
  rw [hdirectory]
  have hlocation : ((.ofRoot (.directory root) agent : Source (StateM Tree))).location path =
      Path.join root path := rfl
  refine ⟨?_, fun h => absurd h haddress, ?_, ?_⟩
  · rw [hlocation]
    by_cases habsolute : Path.isAbsolute path = true
    · have hjoin : Path.join root path = path := by rw [Path.join, if_pos habsolute]
      rw [hjoin]
      simp [haddress, habsolute, (below_ne_self hroot hslash path).symm]
    · have hrelative := Bool.eq_false_iff.mpr habsolute
      rw [Path.join_of_relative hroot hslash hrelative, below_of_relative hrelative]
      simp [hrelative]
  · intro _ habsolute
    rw [hlocation, Path.join, if_pos habsolute]
  · intro _ hrelative t d hwalk husable c
    have hread : (((.ofRoot (.directory root) agent : Source (StateM Tree)).read path).run t).1 =
        (t.read (root ++ "/" ++ path)).mapError fun e =>
          .fetchFailed (root ++ "/" ++ path) e.message := by
      rw [← Path.join_of_relative hroot hslash hrelative]
      rfl
    rw [below_of_relative hrelative] at husable
    rw [hread, ← Tree.read_slash hroot hwalk hrelative husable, mapError_eq_ok_iff]

/-- A working directory with an inventory, and a file at the root of the tree. -/
def sharedTree : Tree where
  here := ["home"]
  nodes :=
    [(["home"], .directory), (["home", "inv"], .directory),
     (["home", "inv", "item.json"], .file (Glyph.ofString "inside")),
     (["item.json"], .file (Glyph.ofString "outside"))]

theorem location_eq_below_iff_sharedTree :
    "inv" ≠ "" ∧ Path.endsWithSlash "inv" = false ∧ ¬IsAddress "inv" ∧
    Path.isAbsolute "item.json" = false ∧
    sharedTree.walk (sharedTree.origin "inv") (Path.parts "inv") = .ok ["home", "inv"] ∧
    Tree.IsUsable (below "inv" "item.json") ∧
    (Source.ofRoot (.ofArgument "inv") : Source (StateM Tree)).location "item.json" =
      below "inv" "item.json" ∧
    (((Source.ofRoot (.ofArgument "inv") : Source (StateM Tree)).read "item.json").run
      sharedTree).1 = .ok (Glyph.ofString "inside") := by
  have haddress : ¬IsAddress "inv" := by
    rw [isAddress_iff]
    decide
  have hwalk : sharedTree.walk (sharedTree.origin "inv") (Path.parts "inv") =
      .ok ["home", "inv"] := rfl
  have husable : Tree.IsUsable (below "inv" "item.json") := by
    refine ⟨?_, ?_, ?_⟩ <;> decide
  obtain ⟨hlocation, -, -, hread⟩ :=
    location_eq_below_iff {} (by decide : "inv" ≠ "") rfl "item.json"
  exact ⟨by decide, rfl, haddress, rfl, hwalk, husable, hlocation.mpr (.inr rfl),
    (hread haddress rfl sharedTree _ hwalk husable _).mpr rfl⟩

/-- An entry that begins with a slash is read from outside of a directory. -/
theorem read_outside_sharedTree :
    "inv" ≠ "" ∧ Path.endsWithSlash "inv" = false ∧
    (Source.ofRoot (.ofArgument "inv") : Source (StateM Tree)).location "/item.json" ≠
      below "inv" "/item.json" ∧
    (((Source.ofRoot (.ofArgument "inv") : Source (StateM Tree)).read "/item.json").run
      sharedTree).1 = .ok (Glyph.ofString "outside") ∧
    sharedTree.read (below "inv" "/item.json") = .ok (Glyph.ofString "inside") := by
  refine ⟨by decide, rfl, ?_, rfl, rfl⟩
  have hlocation : (Source.ofRoot (.ofArgument "inv") : Source (StateM Tree)).location
      "/item.json" = "/item.json" := rfl
  have hbelow : below "inv" "/item.json" = "inv/item.json" := rfl
  rw [hlocation, hbelow]
  decide

end SchemaClient.Load
