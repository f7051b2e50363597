import SchemaClient.Proofs.Numeral
import SchemaClient.Proofs.PrettyTree
import SchemaClient.Proofs.TextLines

/-!
# Colours only add escape codes

A text for people is made of runs of characters, some of them in a colour. With colours each of
these has an escape code on both sides and nothing else is written, so a reader who leaves the codes
out is left with the text without colours.
-/

namespace SchemaClient.Report
open SchemaClient.Text

/-! ### Reading escape codes -/

/-- What a terminal reads: a character to be shown, or an escape code with its parameters. -/
inductive Signal where
  | char (c : Char)
  | code (parameters : List Char)
deriving DecidableEq, Repr

/-- What a terminal reads from a text. Where the text begins inside a code, the parameters read so
far are given, the last one first; a code that is never ended is none. -/
def signals : Option (List Char) → List Char → List Signal
  | none, [] => []
  | none, '\x1b' :: '[' :: cs => signals (some []) cs
  | none, c :: cs => .char c :: signals none cs
  | some parameters, [] => ('\x1b' :: '[' :: parameters.reverse).map .char
  | some parameters, 'm' :: cs => .code parameters.reverse :: signals none cs
  | some parameters, c :: cs => signals (some (c :: parameters)) cs

/-- The character of a signal that is none of a code. -/
def Signal.char? : Signal → Option Char
  | .char c => some c
  | .code _ => none

/-- The parameters of a signal that is a code. -/
def Signal.parameters? : Signal → Option String
  | .char _ => none
  | .code parameters => some (String.ofList parameters)

/-- The text without its escape codes. -/
def withoutCodes (cs : List Char) : List Char :=
  (signals none cs).filterMap Signal.char?

/-- The parameters of the escape codes of a text. -/
def codes (cs : List Char) : List String :=
  (signals none cs).filterMap Signal.parameters?

/-- The text has no character with which an escape code begins. -/
def NoEscape (s : String) : Prop :=
  '\x1b' ∉ s.toList

instance (s : String) : Decidable (NoEscape s) :=
  inferInstanceAs (Decidable (¬_))

lemma signals_of_not_escape {c : Char} (h : c ≠ '\x1b') (cs : List Char) :
    signals none (c :: cs) = .char c :: signals none cs := by
  rw [signals]
  rintro _ rfl
  exact absurd rfl h

lemma signals_chars {cs : List Char} (h : '\x1b' ∉ cs) (rest : List Char) :
    signals none (cs ++ rest) = cs.map .char ++ signals none rest := by
  induction cs with
  | nil => rfl
  | cons c cs ih =>
    obtain ⟨hc, hcs⟩ := not_or.mp (List.mem_cons.not.mp h)
    rw [List.cons_append, signals_of_not_escape (Ne.symm hc), ih hcs, List.map_cons,
      List.cons_append]

lemma signals_parameters {cs : List Char} (h : 'm' ∉ cs) (parameters rest : List Char) :
    signals (some parameters) (cs ++ 'm' :: rest) =
      .code (parameters.reverse ++ cs) :: signals none rest := by
  induction cs generalizing parameters with
  | nil => rw [List.nil_append, signals, List.append_nil]
  | cons c cs ih =>
    obtain ⟨hc, hcs⟩ := not_or.mp (List.mem_cons.not.mp h)
    rw [List.cons_append, signals, ih hcs, List.reverse_cons, List.append_assoc,
      List.singleton_append]
    exact fun heq => hc heq.symm

lemma signals_escapeCode {parameters : String} (h : 'm' ∉ parameters.toList) (rest : List Char) :
    signals none (escapeCode parameters ++ rest) =
      .code parameters.toList :: signals none rest := by
  have htext : escapeCode parameters ++ rest =
      '\x1b' :: '[' :: (parameters.toList ++ 'm' :: rest) := by simp [escapeCode]
  rw [htext, signals, signals_parameters h]
  rfl

lemma signals_unended {cs : List Char} (h : 'm' ∉ cs) (parameters : List Char) :
    signals (some parameters) cs = ('\x1b' :: '[' :: parameters.reverse ++ cs).map .char := by
  induction cs generalizing parameters with
  | nil => rw [signals, List.append_nil]
  | cons c cs ih =>
    obtain ⟨hc, hcs⟩ := not_or.mp (List.mem_cons.not.mp h)
    rw [signals, ih hcs, List.reverse_cons]
    · simp
    · exact fun heq => hc heq.symm

/-- White space behind a text is read as it stands there. -/
lemma signals_append_spaces {back : List Char} (h : ∀ c ∈ back, isSpace c = true)
    (state : Option (List Char)) (cs : List Char) :
    signals state (cs ++ back) = signals state cs ++ back.map .char := by
  have hnot (c : Char) (hc : isSpace c = false) : c ∉ back :=
    fun hmem => Bool.false_ne_true (hc.symm.trans (h c hmem))
  fun_induction signals state cs with
  | case1 => simpa [signals] using signals_chars (hnot '\x1b' (by decide)) []
  | case2 cs ih => exact ih
  | case3 c cs hescape ih =>
    rw [List.cons_append, signals, ih, List.cons_append]
    -- An escape character at the end of the text is followed by white space and not by a bracket.
    intro rest hc heq
    cases cs with
    | nil =>
      have hback : back = '[' :: rest := heq
      exact hnot '[' (by decide) (hback ▸ List.mem_cons_self)
    | cons d cs => exact hescape cs hc (by rw [(List.cons.inj heq).1])
  | case4 parameters =>
    rw [List.nil_append, signals_unended (hnot 'm' (by decide)), List.map_append]
  | case5 parameters cs ih =>
    rw [List.cons_append, signals, ih, List.cons_append]
  | case6 parameters c cs hm ih =>
    rw [List.cons_append, signals, ih]
    exact hm

lemma filterMap_char? (cs : List Char) : (cs.map Signal.char).filterMap Signal.char? = cs := by
  simp [List.filterMap_map, Function.comp_def, Signal.char?]

lemma filterMap_parameters? (cs : List Char) :
    (cs.map Signal.char).filterMap Signal.parameters? = [] := by
  simp [List.filterMap_map, Function.comp_def, Signal.parameters?]

lemma withoutCodes_append_spaces {back : List Char} (h : ∀ c ∈ back, isSpace c = true)
    (cs : List Char) : withoutCodes (cs ++ back) = withoutCodes cs ++ back := by
  rw [withoutCodes, signals_append_spaces h, List.filterMap_append, filterMap_char?, withoutCodes]

lemma codes_append_spaces {back : List Char} (h : ∀ c ∈ back, isSpace c = true)
    (cs : List Char) : codes (cs ++ back) = codes cs := by
  rw [codes, signals_append_spaces h, List.filterMap_append, filterMap_parameters?,
    List.append_nil, codes]

/-! ### Runs -/

/-- Characters in the colour of a role, or in no colour. -/
structure Run where
  role? : Option Role
  text : String
deriving DecidableEq, Repr

namespace Run

/-- The run as it is written with or without colours. -/
def write (colours : Bool) (r : Run) : List Char :=
  match r.role? with
  | some role => (paint colours role r.text).toList
  | none => r.text.toList

/-- What is read from a run that is written with colours. -/
def signals (r : Run) : List Signal :=
  match r.role? with
  | some role =>
    .code role.code.toList :: r.text.toList.map .char ++ [.code ['0']]
  | none => r.text.toList.map .char

end Run

lemma resume_of_not_mem (start : List Char) {cs : List Char} (h : '\x1b' ∉ cs) :
    resume start cs = cs := by
  induction cs with
  | nil => rfl
  | cons c cs ih =>
    obtain ⟨hc, hcs⟩ := not_or.mp (List.mem_cons.not.mp h)
    rw [resume, ih hcs]
    rintro _ rfl
    exact absurd rfl hc

namespace Run

lemma write_false (r : Run) : r.write false = r.text.toList := by
  cases hrole : r.role? <;> simp [write, paint, hrole]

lemma signals_write {r : Run} (h : NoEscape r.text) (rest : List Char) :
    Report.signals none (r.write true ++ rest) = r.signals ++ Report.signals none rest := by
  cases hrole : r.role? with
  | none => simp only [write, signals, hrole, signals_chars h]
  | some role =>
    have hm : 'm' ∉ role.code.toList := by cases role <;> decide
    have hm' : 'm' ∉ "0".toList := by decide
    have htext : r.write true = escapeCode role.code ++ (r.text.toList ++ colourEnd) := by
      simp [write, hrole, paint, resume_of_not_mem _ h]
    rw [htext, List.append_assoc, List.append_assoc, signals_escapeCode hm, signals_chars h,
      colourEnd, signals_escapeCode hm', signals, hrole]
    simp

lemma signals_flatMap_write {rs : List Run} (h : ∀ r ∈ rs, NoEscape r.text) :
    Report.signals none (rs.flatMap (write true)) = rs.flatMap signals := by
  induction rs with
  | nil => rfl
  | cons r rs ih =>
    obtain ⟨hr, hrs⟩ := List.forall_mem_cons.mp h
    rw [List.flatMap_cons, signals_write hr, ih hrs, List.flatMap_cons]

lemma filterMap_char?_signals (r : Run) :
    r.signals.filterMap Signal.char? = r.write false := by
  rw [write_false]
  cases hrole : r.role? with
  | none => simp only [signals, hrole, filterMap_char?]
  | some role =>
    simp only [signals, hrole, List.cons_append, List.filterMap_cons, List.filterMap_append,
      filterMap_char?, Signal.char?, List.filterMap_nil, List.append_nil]

lemma filterMap_parameters?_signals (r : Run) : r.signals.filterMap Signal.parameters? =
    r.role?.toList.flatMap fun role => [role.code, "0"] := by
  cases hrole : r.role? <;>
    simp [signals, hrole, Signal.parameters?]

end Run

/-- A text that is made of runs without escape characters, whether it has colours or not. -/
def IsPainted (text : Bool → String) : Prop :=
  ∃ runs : List Run, (∀ r ∈ runs, NoEscape r.text) ∧
    ∀ colours, (text colours).toList = runs.flatMap (Run.write colours)

namespace IsPainted

lemma paint {s : String} (h : NoEscape s) (role : Role) :
    IsPainted fun colours => Report.paint colours role s :=
  ⟨[⟨role, s⟩], List.forall_mem_singleton.mpr h, fun _ => (List.flatMap_singleton ..).symm⟩

lemma plain {s : String} (h : NoEscape s) : IsPainted fun _ => s :=
  ⟨[⟨none, s⟩], List.forall_mem_singleton.mpr h, fun _ => (List.flatMap_singleton ..).symm⟩

lemma append {s t : Bool → String} (hs : IsPainted s) (ht : IsPainted t) :
    IsPainted fun colours => s colours ++ t colours := by
  obtain ⟨rs, hrs, hs⟩ := hs
  obtain ⟨rs', hrs', ht⟩ := ht
  refine ⟨rs ++ rs', List.forall_mem_append.mpr ⟨hrs, hrs'⟩, fun colours => ?_⟩
  rw [String.toList_append, hs, ht, List.flatMap_append]

lemma join {α : Type} {xs : List α} {text : Bool → α → String}
    (h : ∀ x ∈ xs, IsPainted fun colours => text colours x) :
    IsPainted fun colours => String.join (xs.map (text colours)) := by
  induction xs with
  | nil => exact plain (by decide)
  | cons x xs ih =>
    obtain ⟨hx, hxs⟩ := List.forall_mem_cons.mp h
    simp only [List.map_cons, String.join_cons]
    exact hx.append (ih hxs)

section Read

variable {text : Bool → String} (h : IsPainted text)
include h

/-- What is left when the codes are left out is the text without colours. -/
lemma withoutCodes_true : withoutCodes (text true).toList = (text false).toList := by
  obtain ⟨runs, hruns, htext⟩ := h
  rw [withoutCodes, htext, htext, Run.signals_flatMap_write hruns, List.filterMap_flatMap]
  simp only [Run.filterMap_char?_signals]

/-- Behind the code that begins a colour stands the one that ends it. -/
lemma codes_true :
    ∃ roles : List Role, codes (text true).toList = roles.flatMap fun role => [role.code, "0"] := by
  obtain ⟨runs, hruns, htext⟩ := h
  refine ⟨runs.flatMap (·.role?.toList), ?_⟩
  rw [codes, htext, Run.signals_flatMap_write hruns, List.filterMap_flatMap, List.flatMap_assoc]
  simp only [Run.filterMap_parameters?_signals]

end Read

end IsPainted

/-! ### The layout -/

lemma noEscape_of_isNumeral {s : String} (h : Json.IsNumeral s) : NoEscape s :=
  fun hmem => absurd (h.2 _ hmem) (by decide)

lemma noEscape_indent (level : Nat) : NoEscape (indent level) := by
  intro hmem
  rw [indent, String.toList_ofList] at hmem
  exact absurd (List.eq_of_mem_replicate hmem) (by decide)

/-- What is asked of a value whose text for people has no escape codes but those of colours. -/
abbrev HasNoEscape (v : Json) : Prop :=
  v.Every NoEscape NoEscape fun _ => True

lemma isPainted_leaf {v : Json} (h : HasNoEscape v) : IsPainted fun colours => leaf colours v := by
  cases h with
  | null => exact .paint (by decide) .faint
  | bool b =>
    cases b with
    | false => exact .paint (by decide) .truth
    | true => exact .paint (by decide) .truth
  | number => exact .paint (noEscape_of_isNumeral (Json.isNumeral_print _)) .number
  | string hs => exact .paint hs .string
  | array => exact .paint (by decide) .faint
  | object => exact .paint (by decide) .faint

lemma isPainted_branchLines {b : Branch} (hkey : ∀ k, b.1 = some k → NoEscape k)
    (hvalue : HasNoEscape b.2) (ih : ∀ level, IsPainted fun colours => block colours level b.2)
    (level : Nat) : IsPainted fun colours => branchLines colours level b := by
  obtain ⟨k, v⟩ := b
  have hmark : IsPainted fun colours => mark colours k := by
    cases k with
    | none => exact .plain (by decide)
    | some k => exact (IsPainted.paint (hkey k rfl) .key).append (.plain (by decide))
  have hbegin := (IsPainted.plain (noEscape_indent level)).append hmark
  have hbreak : IsPainted fun _ => "\n" := .plain (by decide)
  have hspace : IsPainted fun _ => " " := .plain (by decide)
  simp only [branchLines]
  cases hv : isNested v with
  | false => exact hbegin.append ((hspace.append (isPainted_leaf hvalue)).append hbreak)
  | true => exact hbegin.append (hbreak.append (ih (level + 1)))

lemma isPainted_block {v : Json} (h : HasNoEscape v) (level : Nat) :
    IsPainted fun colours => block colours level v := by
  induction v using induction_branches generalizing level with
  | step v ih =>
    cases hv : isNested v with
    | true =>
      simp only [block_of_isNested _ level hv]
      refine .join fun b hb => ?_
      obtain ⟨hkey, hvalue⟩ := every_of_mem_branches h hb
      exact isPainted_branchLines hkey hvalue (ih b hb hvalue) level
    | false =>
      have hline := ((IsPainted.plain (noEscape_indent level)).append (isPainted_leaf h)).append
        (.plain (s := "\n") (by decide))
      cases v with
      | array vs =>
        cases vs with
        | nil => exact .plain (s := "") (by decide)
        | cons v vs => cases hv
      | object es =>
        cases es with
        | nil => exact .plain (s := "") (by decide)
        | cons e es => cases hv
      | _ => exact hline

/-- Colours change nothing but the escape codes: a text with colours, without its codes and the
white space then at its end, is the text without colours, and every code that begins a colour is
followed by the one that ends it. -/
theorem pretty_withoutCodes {v : Json} (h : HasNoEscape v) :
    trimEnd (withoutCodes (pretty true v).toList) = (pretty false v).toList ∧
    ∃ roles : List Role,
      codes (pretty true v).toList = roles.flatMap fun role => [role.code, "0"] := by
  -- The two texts are trimmed at different characters: with colours a code may hide white space.
  have hpainted := isPainted_block h.sorted 0
  obtain ⟨back, hback, hspaces⟩ := eq_trimEnd_append (block true 0 v.sorted).toList
  have hcoloured : (block true 0 v.sorted).toList = (pretty true v).toList ++ back := by
    rw [pretty, String.toList_ofList, ← hback]
  constructor
  · calc trimEnd (withoutCodes (pretty true v).toList)
        = trimEnd (withoutCodes (pretty true v).toList ++ back) :=
          (trimEnd_append_spaces _ hspaces).symm
      _ = trimEnd (withoutCodes (block true 0 v.sorted).toList) := by
          rw [hcoloured, withoutCodes_append_spaces hspaces]
      _ = trimEnd (block false 0 v.sorted).toList := by rw [hpainted.withoutCodes_true]
      _ = (pretty false v).toList := by rw [pretty, String.toList_ofList]
  · rw [← codes_append_spaces hspaces, ← hcoloured]
    exact hpainted.codes_true

/-- A report with colours at two levels, whose last string ends in a space. -/
def colourfulReport : Json :=
  .object [("rows", .array [.null, .nat 7]), ("title", .string "[0m ")]

lemma hasNoEscape_colourfulReport : HasNoEscape colourfulReport := by
  refine .object (by decide) ?_
  simp only [List.forall_mem_cons]
  refine ⟨.array ?_, .string (by decide), nofun⟩
  simp only [List.forall_mem_cons]
  exact ⟨.null, .number trivial, nofun⟩

/-- White space that stands in front of the last code is left when the codes are left out. -/
theorem pretty_withoutCodes_colourfulReport : HasNoEscape colourfulReport ∧
    withoutCodes (pretty true colourfulReport).toList =
      (pretty false colourfulReport).toList ++ [' '] ∧
    trimEnd (withoutCodes (pretty true colourfulReport).toList) =
      (pretty false colourfulReport).toList ∧
    ∃ roles : List Role, codes (pretty true colourfulReport).toList =
      roles.flatMap fun role => [role.code, "0"] := by
  obtain ⟨htext, hcodes⟩ := pretty_withoutCodes hasNoEscape_colourfulReport
  exact ⟨hasNoEscape_colourfulReport, by cbv, htext, hcodes⟩

end SchemaClient.Report
