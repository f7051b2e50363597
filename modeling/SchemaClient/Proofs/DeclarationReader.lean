import SchemaClient.Proofs.Lexeme

/-!
# Reading declarations back

A reader of the printed language: interfaces with their bases, aliases, members, keywords, names,
string literals, object types, parentheses and arrays. It goes through the lexemes once with a
stack of the constructs that are still open, and gives back every well-formed declaration from
its text at any level. Two declarations are therefore never printed alike.
-/

namespace SchemaClient.Code
open SchemaClient.Text (indent)

namespace Reader

/-- A construct around the place where reading stands. The alternatives of a type are kept with
the latest first. -/
inductive Frame where
  /-- A parenthesis behind the alternatives of the type around it. -/
  | group (outer : List Ty)
  /-- An object type behind the alternatives of the type around it. -/
  | object (outer : List Ty)
  /-- A member whose type is being read, behind the members in front of it. -/
  | member (members : List Member) (name : String) (optional : Bool)

/-- What has been read inside the innermost construct. -/
inductive State where
  /-- Alternatives, and now the next one begins. -/
  | alternative (items : List Ty)
  /-- Alternatives of which the latest may be complete. -/
  | type (items : List Ty)
  /-- Alternatives and an opening square bracket. -/
  | bracket (items : List Ty)
  /-- Members, and now a name or the closing brace. -/
  | body (members : List Member)
  /-- Members and the name of a further one. -/
  | name (members : List Member) (name : String)
  /-- Members and the name of a further one with a question mark. -/
  | optional (members : List Member) (name : String)
  /-- A complete declaration. -/
  | members (members : List Member)
  | alias (t : Ty)

/-- The type of alternatives, the latest first: a single one stands for itself. -/
def typeOfItems : List Ty → Ty
  | [t] => t
  | items => .union items.reverse

/-- The type that a word stands for. -/
def typeOfWord (word : String) : Ty :=
  match Primitive.all.find? (·.keyword == word) with
  | some p => .prim p
  | none => .ref word

/-- Reads one lexeme. -/
def step : State → List Frame → Lexeme → Option (State × List Frame)
  | .alternative items, fs, .word w => some (.type (typeOfWord w :: items), fs)
  | .alternative items, fs, .literal text => some (.type (.literal text :: items), fs)
  | .alternative items, fs, .mark '(' => some (.alternative [], .group items :: fs)
  | .alternative items, fs, .mark '\x7b' => some (.body [], .object items :: fs)
  | .type items, fs, .mark '|' => some (.alternative items, fs)
  | .type items, fs, .mark '[' => some (.bracket items, fs)
  | .bracket (t :: items), fs, .mark ']' => some (.type (.array t :: items), fs)
  | .type items, .group outer :: fs, .mark ')' => some (.type (typeOfItems items :: outer), fs)
  | .type items, .member ms name optional :: fs, .mark ';' =>
    some (.body (ms ++ [.mk name (typeOfItems items) optional none]), fs)
  | .type items, [], .mark ';' => some (.alias (typeOfItems items), [])
  | .body ms, fs, .word w => some (.name ms w, fs)
  | .body ms, .object outer :: fs, .mark '\x7d' => some (.type (.object ms :: outer), fs)
  | .body ms, [], .mark '\x7d' => some (.members ms, [])
  | .name ms name, fs, .mark '?' => some (.optional ms name, fs)
  | .name ms name, fs, .mark ':' => some (.alternative [], .member ms name false :: fs)
  | .optional ms name, fs, .mark ':' => some (.alternative [], .member ms name true :: fs)
  | _, _, _ => none

/-- Reads lexemes and gives the state in which they end. -/
def run (s : State) (fs : List Frame) : List Lexeme → Option (State × List Frame)
  | [] => some (s, fs)
  | x :: xs => (step s fs x).bind fun next => run next.1 next.2 xs

/-- The names of bases up to the opening brace, and what follows it. -/
def readNames? : List Lexeme → Option (List String × List Lexeme)
  | .word name :: .mark ',' :: xs => (readNames? xs).map fun p => (name :: p.1, p.2)
  | .word name :: .mark '\x7b' :: xs => some ([name], xs)
  | _ => none

/-- The bases of an interface behind its name, and what follows its opening brace. -/
def readBases? : List Lexeme → Option (List String × List Lexeme)
  | .mark '\x7b' :: xs => some ([], xs)
  | .word "extends" :: xs => readNames? xs
  | _ => none

/-- The declaration of lexemes. -/
def readDeclaration? : List Lexeme → Option Declaration
  | .word "export" :: .word "interface" :: .word name :: xs =>
    match readBases? xs with
    | some (bases, xs) =>
      match run (.body []) [] xs with
      | some (.members ms, []) => some ⟨name, none, .interface bases ms⟩
      | _ => none
    | none => none
  | .word "export" :: .word "type" :: .word name :: .mark '=' :: xs =>
    match run (.alternative []) [] xs with
    | some (.alias t, []) => some ⟨name, none, .alias t⟩
    | _ => none
  | _ => none

/-- The alternatives that a type is written with, the latest first. -/
def items : Ty → List Ty
  | .union ts => ts.reverse
  | t => [t]

end Reader

/-- A name that is no keyword of a primitive type. -/
def IsName (name : String) : Prop :=
  IsIdentifier name ∧ ∀ p ∈ Primitive.all, name ≠ p.keyword

instance (name : String) : Decidable (IsName name) :=
  inferInstanceAs (Decidable (_ ∧ _))

/-- The types that can be read back: names are names, and a union has several alternatives none of
which is a union itself. -/
inductive Ty.WellFormed : Ty → Prop
  | prim (p : Primitive) : WellFormed (.prim p)
  | ref {name : String} (hname : IsName name) : WellFormed (.ref name)
  | literal (text : String) : WellFormed (.literal text)
  | array {t : Ty} (ht : WellFormed t) : WellFormed (.array t)
  | union {ts : List Ty} (htwo : 2 ≤ ts.length) (hflat : ∀ t ∈ ts, t.isUnion = false)
    (hts : ∀ t ∈ ts, WellFormed t) : WellFormed (.union ts)
  | object {ms : List Member} (hnames : ∀ m ∈ ms, IsName m.name) (hdocs : ∀ m ∈ ms, m.doc = none)
    (hts : ∀ m ∈ ms, WellFormed m.type) : WellFormed (.object ms)

/-- The shapes that can be read back. -/
def Shape.WellFormed : Shape → Prop
  | .interface bases ms => (∀ b ∈ bases, IsName b) ∧
      ∀ m ∈ ms, IsName m.name ∧ m.doc = none ∧ m.type.WellFormed
  | .alias t => t.WellFormed

/-- A declaration without documentation whose names are names and whose types can be read back. -/
structure Declaration.WellFormed (d : Declaration) : Prop where
  name : IsName d.name
  doc : d.doc = none
  shape : d.shape.WellFormed

/-- The declaration of a text, if it is one of the printed language. -/
def Declaration.read? (text : String) : Option Declaration :=
  Reader.readDeclaration? (lexemes text.toList)

namespace Reader

lemma typeOfWord_keyword (p : Primitive) : typeOfWord p.keyword = .prim p := by
  have hfind : Primitive.all.find? (·.keyword == p.keyword) = some p := by cases p <;> decide
  rw [typeOfWord, hfind]

lemma typeOfWord_name {name : String} (h : IsName name) : typeOfWord name = .ref name := by
  have hnone : Primitive.all.find? (·.keyword == name) = none := by
    rw [List.find?_eq_none]
    intro p hp
    simpa using (h.2 p hp).symm
  rw [typeOfWord, hnone]

lemma typeOfItems_items {t : Ty} (h : t.WellFormed) : typeOfItems (items t) = t := by
  cases h with
  | @union ts htwo =>
    have hlen : ts.reverse.length = ts.length := List.length_reverse
    rw [items]
    match hrev : ts.reverse with
    | [] => simp [hrev] at hlen; omega
    | [t] => simp [hrev] at hlen; omega
    | t :: u :: us => rw [typeOfItems, ← hrev, List.reverse_reverse]; simp
  | _ => rfl

/-- Reading the text of a type adds its alternatives to those that have been read. -/
def ReadsBack (t : Ty) : Prop :=
  ∀ level prior fs rest, EndsWord rest →
    run (.alternative prior) fs (lexemes ((t.print level).toList ++ rest)) =
      run (.type (items t ++ prior)) fs (lexemes rest)

lemma readsBack_prim (p : Primitive) : ReadsBack (.prim p) := by
  intro level prior fs rest hrest
  have hword : isWord p.keyword = true := by cases p <;> decide
  rw [Ty.print, lexemes_word hword hrest]
  simp only [run, step, Option.bind_some, typeOfWord_keyword, items, List.singleton_append]

lemma readsBack_ref {name : String} (h : IsName name) : ReadsBack (.ref name) := by
  intro level prior fs rest hrest
  rw [Ty.print, h.1.lexemes hrest]
  simp only [run, step, Option.bind_some, typeOfWord_name h, items, List.singleton_append]

lemma readsBack_literal (text : String) : ReadsBack (.literal text) := by
  intro level prior fs rest _
  rw [Ty.print, lexemes_quote]
  simp only [run, step, Option.bind_some, items, List.singleton_append]

lemma items_of_not_isUnion {t : Ty} (h : t.isUnion = false) : items t = [t] := by
  cases t <;> simp_all [items, Ty.isUnion]

lemma run_brackets (t : Ty) (prior : List Ty) (fs : List Frame) (rest : List Char) :
    run (.type (t :: prior)) fs (lexemes ('[' :: ']' :: rest)) =
      run (.type (.array t :: prior)) fs (lexemes rest) := by
  rw [lexemes_mark (by decide), lexemes_mark (by decide)]
  rfl

lemma readsBack_array {t : Ty} (h : t.WellFormed) (ih : ReadsBack t) : ReadsBack (.array t) := by
  intro level prior fs rest _
  rw [Ty.print]
  cases hunion : t.isUnion with
  | true =>
    -- The parentheses keep the alternatives of `t` apart from those in front of it.
    have htext : ((if true then "(" ++ t.print level ++ ")" else t.print level) ++ "[]").toList ++
        rest = '(' :: ((t.print level).toList ++ ')' :: '[' :: ']' :: rest) := by simp
    rw [htext, lexemes_mark (by decide)]
    calc run (.alternative []) (.group prior :: fs)
          (lexemes ((t.print level).toList ++ ')' :: '[' :: ']' :: rest))
        = run (.type (items t)) (.group prior :: fs) (lexemes (')' :: '[' :: ']' :: rest)) := by
          rw [ih level [] _ _ (endsWord_cons (by decide) _), List.append_nil]
      _ = run (.type (t :: prior)) fs (lexemes ('[' :: ']' :: rest)) := by
          rw [lexemes_mark (by decide)]
          simp only [run, step, Option.bind_some, typeOfItems_items h]
      _ = run (.type (.array t :: prior)) fs (lexemes rest) := run_brackets t prior fs rest
  | false =>
    have htext : ((if false then "(" ++ t.print level ++ ")" else t.print level) ++ "[]").toList ++
        rest = (t.print level).toList ++ '[' :: ']' :: rest := by simp
    rw [htext, ih level prior fs _ (endsWord_cons (by decide) _), items_of_not_isUnion hunion]
    exact run_brackets t prior fs rest

lemma endsWord_printFurther (level : Nat) (ts : List Ty) {rest : List Char} (h : EndsWord rest) :
    EndsWord ((Ty.printFurther level ts).toList ++ rest) := by
  cases ts with
  | nil => simpa [Ty.printFurther] using h
  | cons t ts =>
    simp only [Ty.printFurther, String.toList_append]
    exact endsWord_cons (by decide) _

lemma run_printFurther {ts : List Ty} (h : ∀ t ∈ ts, t.isUnion = false ∧ ReadsBack t) (level : Nat)
    (prior : List Ty) (fs : List Frame) {rest : List Char} (hrest : EndsWord rest) :
    run (.type prior) fs (lexemes ((Ty.printFurther level ts).toList ++ rest)) =
      run (.type (ts.reverse ++ prior)) fs (lexemes rest) := by
  induction ts generalizing prior with
  | nil => simp [Ty.printFurther]
  | cons t ts ih =>
    obtain ⟨⟨hunion, ht⟩, hts⟩ := List.forall_mem_cons.mp h
    have htext : (Ty.printFurther level (t :: ts)).toList ++ rest =
        ' ' :: '|' :: ' ' ::
          ((t.print level).toList ++ ((Ty.printFurther level ts).toList ++ rest)) := by
      simp [Ty.printFurther]
    rw [htext, lexemes_space, lexemes_mark (by decide), lexemes_space]
    calc run (.alternative prior) fs
          (lexemes ((t.print level).toList ++ ((Ty.printFurther level ts).toList ++ rest)))
        = run (.type (t :: prior)) fs (lexemes ((Ty.printFurther level ts).toList ++ rest)) := by
          rw [ht level prior fs _ (endsWord_printFurther level ts hrest),
            items_of_not_isUnion hunion, List.singleton_append]
      _ = run (.type (ts.reverse ++ t :: prior)) fs (lexemes rest) := ih hts (t :: prior)
      _ = run (.type ((t :: ts).reverse ++ prior)) fs (lexemes rest) := by simp

lemma readsBack_union {ts : List Ty} (hne : ts ≠ [])
    (h : ∀ t ∈ ts, t.isUnion = false ∧ ReadsBack t) : ReadsBack (.union ts) := by
  intro level prior fs rest hrest
  obtain ⟨t, ts, rfl⟩ := List.exists_cons_of_ne_nil hne
  obtain ⟨⟨hunion, ht⟩, hts⟩ := List.forall_mem_cons.mp h
  rw [Ty.print, Ty.printAlternatives, String.toList_append, List.append_assoc,
    ht level prior fs _ (endsWord_printFurther level ts hrest), items_of_not_isUnion hunion,
    List.singleton_append, run_printFurther hts level (t :: prior) fs hrest]
  simp [items]

/-- What a member needs to be read back. -/
structure MemberReadsBack (m : Member) : Prop where
  name : IsName m.name
  doc : m.doc = none
  type : typeOfItems (items m.type) = m.type
  reads : ReadsBack m.type

lemma run_optional (ms : List Member) (name : String) (optional : Bool) (fs : List Frame)
    (rest : List Char) :
    run (.name ms name) fs (lexemes ((if optional then "?" else "").toList ++ ':' :: ' ' :: rest)) =
      run (.alternative []) (.member ms name optional :: fs) (lexemes rest) := by
  have hcolon := lexemes_mark (show isMark ':' = true by decide) (' ' :: rest)
  cases optional with
  | false =>
    have htext : (if false then "?" else "").toList ++ ':' :: ' ' :: rest = ':' :: ' ' :: rest := by
      simp
    rw [htext, hcolon, lexemes_space]
    rfl
  | true =>
    have htext : (if true then "?" else "").toList ++ ':' :: ' ' :: rest =
        '?' :: ':' :: ' ' :: rest := by simp
    rw [htext, lexemes_mark (by decide), hcolon, lexemes_space]
    rfl

lemma toList_printMember {m : Member} (hdoc : m.doc = none) (level : Nat) (rest : List Char) :
    (m.print level).toList ++ rest =
      (indent level).toList ++ (m.name.toList ++ ((if m.optional then "?" else "").toList ++
        ':' :: ' ' :: ((m.type.print level).toList ++ ';' :: '\n' :: rest))) := by
  obtain ⟨name, type, optional, doc⟩ := m
  obtain rfl : doc = none := hdoc
  cases optional <;>
    simp [Member.print, Comment.optional, Member.name, Member.optional, Member.type]

lemma mk_eq_of_doc {m : Member} (hdoc : m.doc = none) :
    Member.mk m.name m.type m.optional none = m := by
  obtain ⟨name, type, optional, doc⟩ := m
  obtain rfl : doc = none := hdoc
  rfl

lemma run_printMember {m : Member} (h : MemberReadsBack m) (level : Nat) (ms : List Member)
    (fs : List Frame) (rest : List Char) :
    run (.body ms) fs (lexemes ((m.print level).toList ++ rest)) =
      run (.body (ms ++ [m])) fs (lexemes rest) := by
  have hend : EndsWord ((if m.optional then "?" else "").toList ++
      ':' :: ' ' :: ((m.type.print level).toList ++ ';' :: '\n' :: rest)) := by
    cases m.optional <;> exact endsWord_cons (by decide) _
  rw [toList_printMember h.doc, lexemes_indent, h.name.1.lexemes hend]
  calc run (.name ms m.name) fs (lexemes ((if m.optional then "?" else "").toList ++
        ':' :: ' ' :: ((m.type.print level).toList ++ ';' :: '\n' :: rest)))
      = run (.alternative []) (.member ms m.name m.optional :: fs)
          (lexemes ((m.type.print level).toList ++ ';' :: '\n' :: rest)) :=
        run_optional ms m.name m.optional fs _
    _ = run (.type (items m.type)) (.member ms m.name m.optional :: fs)
          (lexemes (';' :: '\n' :: rest)) := by
        rw [h.reads level [] _ _ (endsWord_cons (by decide) _), List.append_nil]
    _ = run (.body (ms ++ [m])) fs (lexemes rest) := by
        rw [lexemes_mark (by decide), lexemes_newline]
        simp only [run, step, Option.bind_some, h.type, mk_eq_of_doc h.doc]

lemma run_printMembers {ms : List Member} (h : ∀ m ∈ ms, MemberReadsBack m) (level : Nat)
    (prior : List Member) (fs : List Frame) (rest : List Char) :
    run (.body prior) fs (lexemes ((Member.printAll level ms).toList ++ rest)) =
      run (.body (prior ++ ms)) fs (lexemes rest) := by
  induction ms generalizing prior with
  | nil => simp [Member.printAll]
  | cons m ms ih =>
    obtain ⟨hm, hms⟩ := List.forall_mem_cons.mp h
    rw [Member.printAll, String.toList_append, List.append_assoc, run_printMember hm, ih hms,
      List.append_assoc, List.singleton_append]

lemma readsBack_object {ms : List Member} (h : ∀ m ∈ ms, MemberReadsBack m) :
    ReadsBack (.object ms) := by
  intro level prior fs rest _
  -- An empty object type has nothing between its braces, any other a line for each member.
  obtain ⟨closing, htext, hclosing⟩ : ∃ closing : List Char,
      lexemes (((Ty.object ms).print level).toList ++ rest) =
        .mark '\x7b' :: lexemes ((Member.printAll (level + 1) ms).toList ++ closing) ∧
      lexemes closing = .mark '\x7d' :: lexemes rest := by
    cases ms with
    | nil =>
      have htext : ((Ty.object []).print level).toList ++ rest = '\x7b' :: '\x7d' :: rest := by
        simp [Ty.print]
      refine ⟨'\x7d' :: rest, ?_, lexemes_mark (by decide) rest⟩
      rw [htext, lexemes_mark (by decide)]
      simp [Member.printAll]
    | cons m ms =>
      have htext : ((Ty.object (m :: ms)).print level).toList ++ rest =
          '\x7b' :: '\n' :: ((Member.printAll (level + 1) (m :: ms)).toList ++
            ((indent level).toList ++ '\x7d' :: rest)) := by
        simp [Ty.print]
      refine ⟨(indent level).toList ++ '\x7d' :: rest, ?_, ?_⟩
      · rw [htext, lexemes_mark (by decide), lexemes_newline]
      · rw [lexemes_indent, lexemes_mark (by decide)]
  rw [htext]
  calc run (.body []) (.object prior :: fs)
        (lexemes ((Member.printAll (level + 1) ms).toList ++ closing))
      = run (.body ms) (.object prior :: fs) (lexemes closing) := by
        rw [run_printMembers h, List.nil_append]
    _ = run (.type (.object ms :: prior)) fs (lexemes rest) := by
        rw [hclosing]
        rfl

lemma readsBack {t : Ty} (h : t.WellFormed) : ReadsBack t := by
  induction h with
  | prim p => exact readsBack_prim p
  | ref hname => exact readsBack_ref hname
  | literal text => exact readsBack_literal text
  | array ht ih => exact readsBack_array ht ih
  | @union ts htwo hflat hts ih =>
    have hne : ts ≠ [] := by
      rintro rfl
      simp at htwo
    exact readsBack_union hne fun t ht => ⟨hflat t ht, ih t ht⟩
  | object hnames hdocs hts ih =>
    exact readsBack_object fun m hm =>
      ⟨hnames m hm, hdocs m hm, typeOfItems_items (hts m hm), ih m hm⟩

lemma readNames?_intercalate {bases : List String} (hne : bases ≠ []) (h : ∀ b ∈ bases, IsName b)
    (rest : List Char) :
    readNames? (lexemes ((", ".intercalate bases).toList ++ ' ' :: '\x7b' :: rest)) =
      some (bases, lexemes rest) := by
  have hbrace : lexemes (' ' :: '\x7b' :: rest) = .mark '\x7b' :: lexemes rest := by
    rw [lexemes_space, lexemes_mark (by decide)]
  induction bases with
  | nil => exact absurd rfl hne
  | cons b bases ih =>
    obtain ⟨hb, hbases⟩ := List.forall_mem_cons.mp h
    cases bases with
    | nil =>
      rw [String.intercalate_singleton, hb.1.lexemes (endsWord_cons (by decide) _), hbrace]
      rfl
    | cons c bases =>
      have htext : (", ".intercalate (b :: c :: bases)).toList ++ ' ' :: '\x7b' :: rest =
          b.toList ++ ',' :: ' ' :: ((", ".intercalate (c :: bases)).toList ++
            ' ' :: '\x7b' :: rest) := by
        simp [String.intercalate_cons_cons]
      rw [htext, hb.1.lexemes (endsWord_cons (by decide) _), lexemes_mark (by decide),
        lexemes_space, readNames?, ih (by simp) hbases]
      rfl

lemma readBases?_printBases {bases : List String} (h : ∀ b ∈ bases, IsName b) (rest : List Char) :
    readBases? (lexemes ((printBases bases).toList ++ ' ' :: '\x7b' :: rest)) =
      some (bases, lexemes rest) := by
  cases bases with
  | nil =>
    have htext : (printBases []).toList ++ ' ' :: '\x7b' :: rest = ' ' :: '\x7b' :: rest := by
      simp [printBases]
    rw [htext, lexemes_space, lexemes_mark (by decide)]
    rfl
  | cons b bases =>
    have htext : (printBases (b :: bases)).toList ++ ' ' :: '\x7b' :: rest =
        ' ' :: ("extends".toList ++ ' ' :: ((", ".intercalate (b :: bases)).toList ++
          ' ' :: '\x7b' :: rest)) := by
      simp [printBases]
    rw [htext, lexemes_space, lexemes_word (by decide) (endsWord_cons (by decide) _),
      lexemes_space]
    exact readNames?_intercalate (by simp) h rest

lemma lexemes_header (level : Nat) {kind name : String} (hkind : isWord kind = true)
    (hname : IsName name) {rest : List Char} (hrest : EndsWord rest) :
    lexemes ((indent level).toList ++ ("export".toList ++ ' ' :: (kind.toList ++
        ' ' :: (name.toList ++ rest)))) =
      .word "export" :: .word kind :: .word name :: lexemes rest := by
  rw [lexemes_indent, lexemes_word (by decide) (endsWord_cons (by decide) _),
    lexemes_space, lexemes_word hkind (endsWord_cons (by decide) _), lexemes_space,
    hname.1.lexemes hrest]

lemma read?_print_interface {name : String} {bases : List String} {ms : List Member}
    (hname : IsName name) (hbases : ∀ b ∈ bases, IsName b) (hms : ∀ m ∈ ms, MemberReadsBack m)
    (level : Nat) :
    Declaration.read? (Declaration.print level ⟨name, none, .interface bases ms⟩) =
      some ⟨name, none, .interface bases ms⟩ := by
  have htext : (Declaration.print level ⟨name, none, .interface bases ms⟩).toList =
      (indent level).toList ++ ("export".toList ++ ' ' :: ("interface".toList ++
        ' ' :: (name.toList ++ ((printBases bases).toList ++ ' ' :: '\x7b' :: '\n' ::
          ((Member.printAll (level + 1) ms).toList ++
            ((indent level).toList ++ ['\x7d', '\n'])))))) := by
    simp [Declaration.print, Comment.optional]
  have hend : EndsWord ((printBases bases).toList ++ ' ' :: '\x7b' :: '\n' ::
      ((Member.printAll (level + 1) ms).toList ++ ((indent level).toList ++ ['\x7d', '\n']))) := by
    cases bases with
    | nil => exact endsWord_cons (by decide) _
    | cons b bases =>
      simp only [printBases, List.isEmpty_cons, Bool.false_eq_true, if_false, String.toList_append]
      exact endsWord_cons (by decide) _
  have hbody : run (.body []) [] (lexemes ('\n' :: ((Member.printAll (level + 1) ms).toList ++
      ((indent level).toList ++ ['\x7d', '\n'])))) = some (.members ms, []) := by
    rw [lexemes_newline, run_printMembers hms, lexemes_indent, lexemes_mark (by decide),
      lexemes_newline, lexemes_nil]
    rfl
  rw [Declaration.read?, htext, lexemes_header level (by decide) hname hend,
    readDeclaration?, readBases?_printBases hbases]
  dsimp only
  rw [hbody]

lemma read?_print_alias {name : String} {t : Ty} (hname : IsName name) (ht : t.WellFormed)
    (level : Nat) :
    Declaration.read? (Declaration.print level ⟨name, none, .alias t⟩) =
      some ⟨name, none, .alias t⟩ := by
  have htext : (Declaration.print level ⟨name, none, .alias t⟩).toList =
      (indent level).toList ++ ("export".toList ++ ' ' :: ("type".toList ++
        ' ' :: (name.toList ++ ' ' :: '=' :: ' ' :: ((t.print level).toList ++ [';', '\n'])))) := by
    simp [Declaration.print, Comment.optional]
  have hbody : run (.alternative []) [] (lexemes ((t.print level).toList ++ [';', '\n'])) =
      some (.alias t, []) := by
    rw [readsBack ht level [] [] _ (endsWord_cons (by decide) _), List.append_nil,
      lexemes_mark (by decide), lexemes_newline, lexemes_nil]
    simp only [run, step, Option.bind_some, typeOfItems_items ht]
  rw [Declaration.read?, htext,
    lexemes_header level (by decide) hname (endsWord_cons (by decide) _),
    lexemes_space, lexemes_mark (by decide), lexemes_space, readDeclaration?, hbody]

lemma read?_print_of_wellFormed {d : Declaration} (h : d.WellFormed) (level : Nat) :
    Declaration.read? (d.print level) = some d := by
  obtain ⟨name, doc, shape⟩ := d
  obtain ⟨hname, hdoc, hshape⟩ := h
  obtain rfl : doc = none := hdoc
  rcases shape with ⟨bases, ms⟩ | ⟨t⟩
  · obtain ⟨hbases, hms⟩ := hshape
    refine read?_print_interface hname hbases (fun m hm => ?_) level
    obtain ⟨hmname, hmdoc, hmtype⟩ := hms m hm
    exact ⟨hmname, hmdoc, typeOfItems_items hmtype, readsBack hmtype⟩
  · exact read?_print_alias hname hshape level

end Reader

/-- A well-formed declaration is read back from its text at every level, so no other well-formed
declaration has that text at any level. -/
theorem Declaration.read?_print (d : Declaration) (h : d.WellFormed) (level : Nat) :
    Declaration.read? (d.print level) = some d ∧
      ∀ (e : Declaration) (other : Nat), e.WellFormed → e.print other = d.print level → e = d := by
  have hread := Reader.read?_print_of_wellFormed h level
  refine ⟨hread, fun e other he heq => ?_⟩
  have hread' := Reader.read?_print_of_wellFormed he other
  rw [heq, hread] at hread'
  exact (Option.some.inj hread').symm

/-- An interface with two bases whose members nest arrays, unions and objects, and whose literal
holds the marks of the language. -/
def sampleInterface : Declaration where
  name := "Payload"
  doc := none
  shape := .interface ["Base", "Other"]
    [.mk "op" (.literal "a\" | \x7b\\;") false none,
      .mk "d" (.union [.array (.union [.ref "Item", .prim .null]),
        .object [.mk "next" (.array (.array (.ref "Payload"))) true none]]) true none,
      .mk "rest" (.object []) false none]

lemma wellFormed_sampleInterface : sampleInterface.WellFormed := by
  have hitem : (Ty.union [.ref "Item", .prim .null]).WellFormed :=
    .union (by decide) (by simp [Ty.isUnion])
      (by simpa using ⟨.ref (by decide), .prim .null⟩)
  have hnext : (Ty.object [.mk "next" (.array (.array (.ref "Payload"))) true none]).WellFormed :=
    .object (by simpa [Member.name] using (show IsName "next" by decide)) (by simp [Member.doc])
      (by simpa [Member.type] using .array (.array (.ref (by decide))))
  have hd : (Ty.union [.array (.union [.ref "Item", .prim .null]),
      .object [.mk "next" (.array (.array (.ref "Payload"))) true none]]).WellFormed :=
    .union (by decide) (by simp [Ty.isUnion]) (by simpa using ⟨.array hitem, hnext⟩)
  have hnames : IsName "op" ∧ IsName "d" ∧ IsName "rest" := by decide
  refine ⟨by decide, rfl, by decide, ?_⟩
  simpa [Member.name, Member.doc, Member.type, hnames] using
    ⟨.literal _, hd, .object (by simp) (by simp) (by simp)⟩

theorem Declaration.read?_print_sampleInterface :
    sampleInterface.WellFormed ∧
      Declaration.read? (sampleInterface.print 1) = some sampleInterface ∧
      ∀ (e : Declaration) (other : Nat), e.WellFormed →
        e.print other = sampleInterface.print 1 → e = sampleInterface :=
  ⟨wellFormed_sampleInterface,
    Declaration.read?_print sampleInterface wellFormed_sampleInterface 1⟩

end SchemaClient.Code
