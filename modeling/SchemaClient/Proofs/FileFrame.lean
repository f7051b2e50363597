import Mathlib.Data.List.Infix
import Mathlib.Tactic.Lemma
import SchemaClient.Store.Tree

/-!
# What operations on a tree leave alone

Creating directories changes no file, and writing to a path changes the file of that path alone. A
path may lead to a file only after directories have been created: if it goes up from a directory
that was missing. Any other path leads to the same file before and after.
-/

namespace SchemaClient.Store

section Results

variable {α ε ε' : Type}

lemma mapError_eq_ok_iff {x : Except ε α} {f : ε → ε'} {a : α} :
    x.mapError f = .ok a ↔ x = .ok a := by
  cases x <;> simp [Except.mapError]

lemma toOption_mapError (x : Except ε α) (f : ε → ε') : (x.mapError f).toOption = x.toOption := by
  cases x <;> rfl

lemma exists_of_mapError {x : Except ε α} {f : ε → ε'} {e' : ε'} (h : x.mapError f = .error e') :
    ∃ e, f e = e' := by
  cases x with
  | error e => exact ⟨e, Except.error.inj h⟩
  | ok a => cases h

end Results

namespace Tree

/-- Everything stands in a directory, and relative paths are followed from one. -/
structure IsProper (t : Tree) : Prop where
  here : t.node? t.here = some .directory
  parent : ∀ q name n, t.node? (q ++ [name]) = some n → t.node? q = some .directory

/-- The second tree has the files of the first one, and its directories and maybe others. -/
structure AddsDirectories (t t' : Tree) : Prop where
  here : t'.here = t.here
  file_iff : ∀ q c, t'.node? q = some (.file c) ↔ t.node? q = some (.file c)
  directory : ∀ q, t.node? q = some .directory → t'.node? q = some .directory

/-- The second tree has a file of that content under a path, and agrees with the first one on all
other files. -/
structure Puts (t t' : Tree) (path : String) (c : Content) : Prop where
  read : t'.read path = .ok c
  others : ∃ g, t'.target path = .ok g ∧
    ∀ q, q ≠ g.place → ∀ d, t'.node? q = some (.file d) ↔ t.node? q = some (.file d)
  directory : ∀ q, t.node? q = some .directory → t'.node? q = some .directory

/-- All files of the first tree are unchanged in the second one. -/
def KeepsFiles (t t' : Tree) : Prop :=
  ∀ q c, t.node? q = some (.file c) → t'.node? q = some (.file c)

/-- Where the first part of a path is looked for. -/
def origin (t : Tree) (path : String) : Place :=
  if Path.isAbsolute path then [] else t.here

/-- Each part `..` of a path goes up from a directory that is there. -/
def GoesUpFromDirectories (t : Tree) (path : String) : Prop :=
  ∀ parts, parts ++ [".."] <+: Path.parts path → ∃ q, t.walk (t.origin path) parts = .ok q

lemma isProper_of_nodes {t : Tree} (here : t.node? t.here = some .directory)
    (h : ∀ e ∈ t.nodes, t.node? e.1.dropLast = some .directory) : t.IsProper := by
  refine ⟨here, ?_⟩
  intro q name n hn
  rw [node?, if_neg (by simp)] at hn
  obtain ⟨before, after, hnodes, -⟩ := List.lookup_eq_some_iff.mp hn
  have hmem : (q ++ [name], n) ∈ t.nodes := by simp [hnodes]
  simpa using h _ hmem

lemma goesUpFromDirectories_of_not_mem (t : Tree) {path : String} (h : ".." ∉ Path.parts path) :
    t.GoesUpFromDirectories path := by
  intro parts hparts
  exact absurd (hparts.subset (List.mem_append_right parts (List.mem_singleton.mpr rfl))) h

lemma AddsDirectories.refl (t : Tree) : t.AddsDirectories t :=
  ⟨rfl, fun _ _ => Iff.rfl, fun _ h => h⟩

lemma AddsDirectories.trans {t t₁ t₂ : Tree} (h : t.AddsDirectories t₁)
    (h' : t₁.AddsDirectories t₂) : t.AddsDirectories t₂ where
  here := h'.here.trans h.here
  file_iff q c := (h'.file_iff q c).trans (h.file_iff q c)
  directory q hq := h'.directory q (h.directory q hq)

lemma bind_eq_ok_iff {α β : Type} {x : Except Problem α} {f : α → Except Problem β} {b : β} :
    x >>= f = .ok b ↔ ∃ a, x = .ok a ∧ f a = .ok b := by
  cases x with
  | error e => simp [bind, Except.bind]
  | ok a => simp [bind, Except.bind]

variable {t t' : Tree} {p q : Place} {path : String}

lemma enter_eq_ok_iff {part : String} : t.enter p part = .ok q ↔
    part = "." ∧ q = p ∨ part = ".." ∧ q = p.dropLast ∨
      (part ≠ "." ∧ part ≠ "..") ∧ part.utf8ByteSize ≤ maxName ∧
        t.node? (p ++ [part]) = some .directory ∧ q = p ++ [part] := by
  unfold enter
  by_cases hdot : part = "."
  · simp [hdot, eq_comm]
  by_cases hup : part = ".."
  · simp [hup, eq_comm]
  by_cases hsize : maxName < part.utf8ByteSize
  · simp [hdot, hup, hsize, Nat.not_le.mpr hsize]
  · rw [if_neg hdot, if_neg hup, if_neg hsize]
    cases hnode : t.node? (p ++ [part]) with
    | none => simp [hdot, hup]
    | some n => cases n <;> simp [hdot, hup, Nat.le_of_not_lt hsize, eq_comm]

lemma walk_cons_eq_ok_iff {part : String} {parts : List String} :
    t.walk p (part :: parts) = .ok q ↔ ∃ r, t.enter p part = .ok r ∧ t.walk r parts = .ok q := by
  rw [walk, bind_eq_ok_iff]

/-- Whether the text of a path can name anything. -/
def IsUsable (path : String) : Prop :=
  path.isEmpty = false ∧ path.toList.contains '\x00' = false ∧ path.utf8ByteSize ≤ maxPath

/-- Where the parts of a path lead. -/
inductive Leads (t : Tree) (path : String) : Target → Prop
  | origin (hparts : Path.parts path = []) : Leads t path ⟨t.origin path, true, true⟩
  | directory {parts : List String} {last : String} {r r' : Place}
      (hparts : Path.parts path = parts ++ [last]) (hwalk : t.walk (t.origin path) parts = .ok r)
      (hlast : last = "." ∨ last = "..") (henter : t.enter r last = .ok r') :
      Leads t path ⟨r', true, true⟩
  | named {parts : List String} {last : String} {r : Place}
      (hparts : Path.parts path = parts ++ [last]) (hwalk : t.walk (t.origin path) parts = .ok r)
      (hlast : ¬(last = "." ∨ last = "..")) (hsize : last.utf8ByteSize ≤ maxName) :
      Leads t path ⟨r ++ [last], Path.endsWithSlash path, false⟩

lemma isUsable_of_target {g : Target} (h : t.target path = .ok g) : IsUsable path := by
  unfold target at h
  by_cases hempty : path.isEmpty = true
  · rw [if_pos hempty] at h
    cases h
  by_cases hzero : path.toList.contains '\x00' = true
  · rw [if_neg hempty, if_pos hzero] at h
    cases h
  by_cases hsize : maxPath < path.utf8ByteSize
  · rw [if_neg hempty, if_neg hzero, if_pos hsize] at h
    cases h
  · exact ⟨Bool.eq_false_iff.mpr hempty, Bool.eq_false_iff.mpr hzero, Nat.le_of_not_lt hsize⟩

lemma target_of_parts_nil (h : IsUsable path) (hparts : Path.parts path = []) :
    t.target path = .ok ⟨t.origin path, true, true⟩ := by
  obtain ⟨hempty, hzero, hsize⟩ := h
  rw [target, if_neg (by simp [hempty]), if_neg (by simpa using hzero),
    if_neg (Nat.not_lt.mpr hsize), hparts]
  rfl

lemma target_of_parts {parts : List String} {last : String} (h : IsUsable path)
    (hparts : Path.parts path = parts ++ [last]) :
    t.target path = t.walk (t.origin path) parts >>= fun r =>
      if last = "." ∨ last = ".." then t.enter r last >>= fun r' => .ok ⟨r', true, true⟩
      else if maxName < last.utf8ByteSize then .error .nameTooLong
      else .ok ⟨r ++ [last], Path.endsWithSlash path, false⟩ := by
  obtain ⟨hempty, hzero, hsize⟩ := h
  rw [target, if_neg (by simp [hempty]), if_neg (by simpa using hzero),
    if_neg (Nat.not_lt.mpr hsize), hparts]
  simp only [List.getLast?_append_cons, List.getLast?_singleton, List.dropLast_concat]
  refine congrArg (t.walk (t.origin path) parts >>= ·) (funext fun r => ?_)
  split
  · rfl
  · split <;> rfl

lemma target_eq_ok_iff {g : Target} :
    t.target path = .ok g ↔ IsUsable path ∧ t.Leads path g := by
  constructor
  · intro h
    have husable := isUsable_of_target h
    refine ⟨husable, ?_⟩
    rcases List.eq_nil_or_concat' (Path.parts path) with hparts | ⟨parts, last, hparts⟩
    · rw [target_of_parts_nil husable hparts] at h
      cases h
      exact .origin hparts
    · rw [target_of_parts husable hparts] at h
      obtain ⟨r, hwalk, h⟩ := bind_eq_ok_iff.mp h
      by_cases hlast : last = "." ∨ last = ".."
      · rw [if_pos hlast] at h
        obtain ⟨r', henter, h⟩ := bind_eq_ok_iff.mp h
        cases h
        exact .directory hparts hwalk hlast henter
      · by_cases hsize : maxName < last.utf8ByteSize
        · rw [if_neg hlast, if_pos hsize] at h
          cases h
        · rw [if_neg hlast, if_neg hsize] at h
          cases h
          exact .named hparts hwalk hlast (Nat.le_of_not_lt hsize)
  · rintro ⟨husable, hleads⟩
    cases hleads with
    | origin hparts => exact target_of_parts_nil husable hparts
    | @directory parts last r r' hparts hwalk hlast henter =>
      rw [target_of_parts husable hparts, bind_eq_ok_iff]
      refine ⟨r, hwalk, ?_⟩
      rw [if_pos hlast, henter]
      rfl
    | @named parts last r hparts hwalk hlast hsize =>
      rw [target_of_parts husable hparts, bind_eq_ok_iff]
      exact ⟨r, hwalk, by rw [if_neg hlast, if_neg (Nat.not_lt.mpr hsize)]⟩

section Directories

variable (h : ∀ q, t.node? q = some .directory → t'.node? q = some .directory)
include h

lemma enter_of_directory {part : String} (henter : t.enter p part = .ok q) :
    t'.enter p part = .ok q := by
  refine enter_eq_ok_iff.mpr ?_
  rcases enter_eq_ok_iff.mp henter with hdot | hup | ⟨hname, hsize, hnode, hq⟩
  · exact .inl hdot
  · exact .inr (.inl hup)
  · exact .inr (.inr ⟨hname, hsize, h _ hnode, hq⟩)

lemma walk_of_directory {parts : List String} (hwalk : t.walk p parts = .ok q) :
    t'.walk p parts = .ok q := by
  induction parts generalizing p with
  | nil => exact hwalk
  | cons part parts ih =>
    obtain ⟨r, henter, hrest⟩ := walk_cons_eq_ok_iff.mp hwalk
    exact walk_cons_eq_ok_iff.mpr ⟨r, enter_of_directory h henter, ih hrest⟩

/-- A path leads to the same place as long as no directory is removed. -/
lemma target_of_directory {g : Target} (hhere : t'.here = t.here)
    (htarget : t.target path = .ok g) : t'.target path = .ok g := by
  obtain ⟨husable, hleads⟩ := target_eq_ok_iff.mp htarget
  have horigin : t'.origin path = t.origin path := by rw [origin, origin, hhere]
  refine target_eq_ok_iff.mpr ⟨husable, ?_⟩
  cases hleads with
  | origin hparts => exact horigin ▸ .origin hparts
  | directory hparts hwalk hlast henter =>
    exact .directory hparts (horigin ▸ walk_of_directory h hwalk) hlast
      (enter_of_directory h henter)
  | named hparts hwalk hlast hsize =>
    exact .named hparts (horigin ▸ walk_of_directory h hwalk) hlast hsize

end Directories

lemma IsProper.directory_of_append (ht : t.IsProper) {n : Node} (names : List String)
    (hnames : names ≠ []) (h : t.node? (p ++ names) = some n) : t.node? p = some .directory := by
  induction names using List.reverseRecOn generalizing n with
  | nil => exact absurd rfl hnames
  | append_singleton names name ih =>
    rw [← List.append_assoc] at h
    have hparent := ht.parent _ _ _ h
    by_cases hnil : names = []
    · rwa [hnil, List.append_nil] at hparent
    · exact ih hnil hparent

lemma IsProper.directory_of_prefix (ht : t.IsProper) (hq : t.node? q = some .directory)
    (hp : p <+: q) : t.node? p = some .directory := by
  obtain ⟨names, rfl⟩ := hp
  by_cases hnil : names = []
  · rwa [hnil, List.append_nil] at hq
  · exact ht.directory_of_append names hnil hq

/-- Going along parts without `..` never goes up. -/
lemma prefix_of_walk {parts : List String} (hup : ".." ∉ parts) (h : t.walk p parts = .ok q) :
    p <+: q := by
  induction parts generalizing p with
  | nil => exact Except.ok.inj h ▸ List.prefix_rfl
  | cons part parts ih =>
    obtain ⟨hpart, hparts⟩ := not_or.mp (List.mem_cons.not.mp hup)
    obtain ⟨r, henter, hrest⟩ := walk_cons_eq_ok_iff.mp h
    have hr := ih hparts hrest
    rcases enter_eq_ok_iff.mp henter with ⟨-, rfl⟩ | ⟨rfl, -⟩ | ⟨-, -, -, rfl⟩
    · exact hr
    · exact absurd rfl hpart
    · exact List.IsPrefix.trans (List.prefix_append _ [part]) hr

/-- Parts that lead to a directory of a tree in another tree lead there in the tree itself, if they
go up only from directories. -/
lemma IsProper.walk_eq (ht : t.IsProper) {parts : List String}
    (hup : ∀ pre, pre ++ [".."] <+: parts → ∃ r, t.walk p pre = .ok r)
    (hwalk : t'.walk p parts = .ok q) (hq : t.node? q = some .directory) :
    t.walk p parts = .ok q := by
  induction parts generalizing p with
  | nil => exact hwalk
  | cons part parts ih =>
    obtain ⟨r, henter, hrest⟩ := walk_cons_eq_ok_iff.mp hwalk
    have henter' : t.enter p part = .ok r := by
      rcases enter_eq_ok_iff.mp henter with hdot | hdots | ⟨hname, hsize, -, rfl⟩
      · exact enter_eq_ok_iff.mpr (.inl hdot)
      · exact enter_eq_ok_iff.mpr (.inr (.inl hdots))
      · refine enter_eq_ok_iff.mpr (.inr (.inr ⟨hname, hsize, ?_, rfl⟩))
        by_cases hlater : ".." ∈ parts
        · -- the way to the next `..` leads through this directory
          obtain ⟨pre, post, rfl⟩ := List.append_of_mem hlater
          obtain ⟨r', hr'⟩ := hup (part :: pre) ⟨post, by simp⟩
          obtain ⟨r₁, henter₁, -⟩ := walk_cons_eq_ok_iff.mp hr'
          rcases enter_eq_ok_iff.mp henter₁ with ⟨hdot, -⟩ | ⟨hdots, -⟩ | ⟨-, -, hnode, -⟩
          · exact absurd hdot hname.1
          · exact absurd hdots hname.2
          · exact hnode
        · exact ht.directory_of_prefix hq (prefix_of_walk hlater hrest)
    refine walk_cons_eq_ok_iff.mpr ⟨r, henter', ih ?_ hrest⟩
    intro pre hpre
    obtain ⟨r', hr'⟩ := hup (part :: pre) (List.cons_prefix_cons.mpr ⟨rfl, hpre⟩)
    obtain ⟨r₁, henter₁, hpre₁⟩ := walk_cons_eq_ok_iff.mp hr'
    cases henter'.symm.trans henter₁
    exact ⟨r', hpre₁⟩

lemma IsProper.walk_directory (ht : t.IsProper) {parts : List String}
    (hp : t.node? p = some .directory) (hwalk : t.walk p parts = .ok q) :
    t.node? q = some .directory := by
  induction parts generalizing p with
  | nil => exact Except.ok.inj hwalk ▸ hp
  | cons part parts ih =>
    obtain ⟨r, henter, hrest⟩ := walk_cons_eq_ok_iff.mp hwalk
    refine ih ?_ hrest
    rcases enter_eq_ok_iff.mp henter with ⟨-, rfl⟩ | ⟨-, rfl⟩ | ⟨-, -, hnode, rfl⟩
    · exact hp
    · exact ht.directory_of_prefix hp (List.dropLast_prefix p)
    · exact hnode

lemma IsProper.origin_directory (ht : t.IsProper) (path : String) :
    t.node? (t.origin path) = some .directory := by
  unfold origin
  split
  · rfl
  · exact ht.here

/-- A named place stands in a directory. -/
lemma IsProper.exists_parent (ht : t.IsProper) {g : Target} (htarget : t.target path = .ok g)
    (hnamed : g.unnamed = false) :
    ∃ q name, g.place = q ++ [name] ∧ t.node? q = some .directory := by
  cases (target_eq_ok_iff.mp htarget).2 with
  | origin => cases hnamed
  | directory => cases hnamed
  | named hparts hwalk hlast hsize =>
    exact ⟨_, _, rfl, ht.walk_directory (ht.origin_directory path) hwalk⟩

/-- What creating a directory under a path does. -/
lemma exists_target_of_createDirectory (h : t.createDirectory path = .ok t') : ∃ g,
    t.target path = .ok g ∧ g.unnamed = false ∧ t.node? g.place = none ∧
      t' = t.put g.place .directory := by
  obtain ⟨g, htarget, h⟩ := bind_eq_ok_iff.mp h
  by_cases hthere : (g.unnamed || (t.node? g.place).isSome) = true
  · rw [if_pos hthere] at h
    cases h
  · rw [if_neg hthere] at h
    cases h
    obtain ⟨hnamed, hnode⟩ := not_or.mp (mt Bool.or_eq_true_iff.mpr hthere)
    exact ⟨g, htarget, Bool.eq_false_iff.mpr hnamed, Option.not_isSome_iff_eq_none.mp hnode, rfl⟩

/-- What writing to a path does. -/
lemma exists_target_of_write {c : Content} (h : t.write path c = .ok t') : ∃ g,
    t.target path = .ok g ∧ g.mustBeDirectory = false ∧ t.node? g.place ≠ some .directory ∧
      t' = t.put g.place (.file c) := by
  obtain ⟨g, htarget, h⟩ := bind_eq_ok_iff.mp h
  refine ⟨g, htarget, ?_⟩
  by_cases hdirectory : g.mustBeDirectory = true
  · rw [hdirectory] at h
    split at h <;> cases h
  · have hfalse : g.mustBeDirectory = false := Bool.eq_false_iff.mpr hdirectory
    rw [hfalse] at h
    refine ⟨hfalse, ?_⟩
    split at h
    · cases h
    · next hnode =>
      cases h
      exact ⟨by simp [hnode], rfl⟩
    · next hnode =>
      cases h
      exact ⟨by simp [hnode], rfl⟩

section Put

variable {n : Node} (hp : t.node? p ≠ some .directory)
include hp

lemma ne_nil_of_node? : p ≠ [] := by
  rintro rfl
  exact hp rfl

lemma directory_put (q : Place) (hq : t.node? q = some .directory) :
    (t.put p n).node? q = some .directory := by
  have hne : q ≠ p := by
    rintro rfl
    exact hp hq
  rwa [node?_put_of_ne t n hne]

lemma IsProper.put {name : String} (ht : t.IsProper) (hq : t.node? q = some .directory)
    (hplace : p = q ++ [name]) : (t.put p n).IsProper where
  here := directory_put hp t.here ht.here
  parent := by
    intro r name' n' hn'
    by_cases hr : r ++ [name'] = p
    · obtain ⟨rfl, -⟩ := List.append_inj' (hr.trans hplace) rfl
      exact directory_put hp r hq
    · rw [node?_put_of_ne t n hr] at hn'
      exact directory_put hp r (ht.parent r name' n' hn')

end Put

lemma addsDirectories_of_createDirectory (h : t.createDirectory path = .ok t') :
    t.AddsDirectories t' := by
  obtain ⟨g, -, -, hnode, rfl⟩ := exists_target_of_createDirectory h
  have hplace : t.node? g.place ≠ some .directory := by simp [hnode]
  refine ⟨rfl, ?_, directory_put hplace⟩
  intro q c
  by_cases hq : q = g.place
  · rw [hq, node?_put_self t _ (ne_nil_of_node? hplace), hnode]
    simp
  · rw [node?_put_of_ne t _ hq]

lemma IsProper.createDirectory (ht : t.IsProper) (h : t.createDirectory path = .ok t') :
    t'.IsProper := by
  obtain ⟨g, htarget, hnamed, hnode, rfl⟩ := exists_target_of_createDirectory h
  obtain ⟨q, name, hplace, hq⟩ := ht.exists_parent htarget hnamed
  exact ht.put (by simp [hnode]) hq hplace

lemma unnamed_eq_false {g : Target} (htarget : t.target path = .ok g)
    (h : g.mustBeDirectory = false) : g.unnamed = false := by
  cases (target_eq_ok_iff.mp htarget).2 with
  | origin => cases h
  | directory => cases h
  | named => rfl

lemma IsProper.write {c : Content} (ht : t.IsProper) (h : t.write path c = .ok t') :
    t'.IsProper := by
  obtain ⟨g, htarget, hfile, hnode, rfl⟩ := exists_target_of_write h
  obtain ⟨q, name, hplace, hq⟩ := ht.exists_parent htarget (unnamed_eq_false htarget hfile)
  exact ht.put hnode hq hplace

lemma find_of_target {g : Target} {c : Content} (htarget : t.target path = .ok g)
    (hfile : g.mustBeDirectory = false) (hnode : t.node? g.place = some (.file c)) :
    t.find path = .ok (.file c) := by
  rw [find, htarget]
  simp [bind, Except.bind, hnode, hfile, pure, Except.pure]

lemma puts_of_write {c : Content} (h : t.write path c = .ok t') : t.Puts t' path c := by
  obtain ⟨g, htarget, hfile, hnode, rfl⟩ := exists_target_of_write h
  have htarget' : (t.put g.place (.file c)).target path = .ok g :=
    target_of_directory (directory_put hnode) rfl htarget
  have hfind := find_of_target htarget' hfile (node?_put_self t _ (ne_nil_of_node? hnode))
  refine ⟨?_, ⟨g, htarget', ?_⟩, directory_put hnode⟩
  · rw [read, hfind]
    rfl
  · intro q hq d
    rw [node?_put_of_ne t _ hq]

lemma AddsDirectories.puts {t₁ : Tree} {c : Content} (h : t.AddsDirectories t₁)
    (hputs : t₁.Puts t' path c) : t.Puts t' path c := by
  obtain ⟨g, htarget, hothers⟩ := hputs.others
  refine ⟨hputs.read, ⟨g, htarget, ?_⟩, fun q hq => hputs.directory q (h.directory q hq)⟩
  intro q hq d
  exact (hothers q hq d).trans (h.file_iff q d)

/-- A path under which no file was found leads to none after directories have been created, unless
it goes up from a directory that was missing. -/
lemma keepsFiles_of_write {t₁ : Tree} {c : Content} (ht : t.IsProper)
    (hpath : t.GoesUpFromDirectories path) (hadds : t.AddsDirectories t₁)
    (hnew : (t.find path).toOption.isSome = false) (h : t₁.write path c = .ok t') :
    t.KeepsFiles t' := by
  obtain ⟨g, htarget, hfile, hnode, rfl⟩ := exists_target_of_write h
  intro q d hq
  have hne : q ≠ g.place := by
    rintro rfl
    have htarget' : t.target path = .ok g := by
      obtain ⟨husable, hleads⟩ := target_eq_ok_iff.mp htarget
      refine target_eq_ok_iff.mpr ⟨husable, ?_⟩
      have horigin : t₁.origin path = t.origin path := by rw [origin, origin, hadds.here]
      cases hleads with
      | origin => cases hfile
      | directory => cases hfile
      | @named parts last r hparts hwalk hlast hsize =>
        have hparent : t.node? r = some .directory := ht.parent r last _ hq
        refine .named hparts (ht.walk_eq ?_ (horigin ▸ hwalk) hparent) hlast hsize
        intro pre hpre
        exact hpath pre (hparts ▸ hpre.trans (List.prefix_append parts [last]))
    rw [find_of_target htarget' hfile hq] at hnew
    cases hnew
  rw [node?_put_of_ne t₁ _ hne]
  exact (hadds.file_iff q d).mpr hq

end Tree
end SchemaClient.Store
