import SchemaClient.Config
import SchemaClient.Proofs.CommandFrame
import SchemaClient.Proofs.TomlLines

/-!
# Reading back a written configuration

The text of a configuration is read as that configuration, whatever its directory is called, unless
a number is zero: then it is refused as the configuration itself would be. In particular the
defaults are read from the file that they have been written to.
-/

namespace SchemaClient.Config
open Toml Toml.Token Toml.Document

/-- The tokens of a written configuration. -/
def tokens (c : Config) : List Token :=
  ofHeader "fetch" ++
    (ofEntry "timeout_seconds" (.atom (Nat.toDigits 10 c.fetch.timeoutSeconds)) ++
      (ofEntry "max_concurrent_requests" (.atom (Nat.toDigits 10 c.fetch.maxConcurrentRequests)) ++
        .newline :: (ofHeader "output" ++
          (ofEntry "directory" (ofQuoted c.output.directory.toList) ++ []))))

/-- The table of a written configuration. -/
def toTable (c : Config) : List (String × Value) :=
  [("fetch", .table
    [("timeout_seconds", .scalar (.integer c.fetch.timeoutSeconds)),
     ("max_concurrent_requests", .scalar (.integer c.fetch.maxConcurrentRequests))]),
   ("output", .table [("directory", .scalar (.string c.output.directory.toList))])]

lemma lexes_line (key : String) (hkey : IsBare key.toList) {value cs : List Char} {t : Token}
    (hvalue : IsTokenText value t) {ts : List Token} (h : Lexes cs ts) :
    Lexes (line key value ++ cs) (ofEntry key t ++ ts) := by
  have htext : line key value ++ cs = key.toList ++ ' ' :: '=' :: ' ' :: (value ++ '\n' :: cs) := by
    simp [line]
  rw [htext]
  exact .entry key hkey hvalue h

lemma lexes_write (c : Config) : Lexes c.write c.tokens := by
  have hnumber (n : Nat) := isTokenText_bare (isBare_toDigits n)
  have hdirectory := lexes_line "directory" (by decide)
    (isTokenText_quoted c.output.directory.toList) .nil
  have hfetch (cs : List Char) :
      "[fetch]\n".toList ++ cs = '[' :: ("fetch".toList ++ ']' :: '\n' :: cs) := rfl
  have houtput (cs : List Char) :
      "\n[output]\n".toList ++ cs = '\n' :: '[' :: ("output".toList ++ ']' :: '\n' :: cs) := rfl
  rw [List.append_nil] at hdirectory
  unfold write
  simp only [List.append_assoc, hfetch, houtput]
  exact .header "fetch" (by decide) <|
    lexes_line "timeout_seconds" (by decide) (hnumber _) <|
    lexes_line "max_concurrent_requests" (by decide) (hnumber _) <|
    .newline <| .header "output" (by decide) hdirectory

/-- The lines of a written configuration fill its table. -/
lemma reads_tokens (c : Config) :
    ∃ s, Reads ⟨[], []⟩ c.tokens s ∧ Entries.toValues s.root = c.toTable := by
  refine ⟨_, .header (by decide) rfl <|
    .entry (by decide) (isValue_number _) rfl rfl <|
    .entry (by decide) (isValue_number _) rfl rfl <| .newline <|
    .header (by decide) rfl <| .entry (by decide) (isValue_quoted _) rfl rfl <| .nil _, ?_⟩
  rfl

/-- A written configuration is the document of its table. -/
lemma ofChars?_document (c : Config) : Document.ofChars? c.write = some c.toTable := by
  have hmark : c.write.head? = some '[' := rfl
  have htokens : Token.ofChars? c.write = some c.tokens := by
    rw [Token.ofChars?, hmark, if_neg (by decide)]
    exact lexes_write c _ (Nat.le_refl _)
  obtain ⟨s, hreads, htable⟩ := reads_tokens c
  rw [Document.ofChars?, htokens]
  simp only [Option.bind_eq_bind, Option.bind_some, hreads _ (Nat.lt_succ_self _), htable]
  rfl

lemma word?_natCast {n : Nat} (h : n < 2 ^ 63) : word? (.scalar (.integer n)) = some n := by
  rw [word?, if_pos (by omega), Int.toNat_natCast]

lemma storeEntries_toTable {c : Config} (htimeout : c.fetch.timeoutSeconds < 2 ^ 63)
    (hrequests : c.fetch.maxConcurrentRequests < 2 ^ 63) :
    storeEntries sections c.toTable {} = some c := by
  simp [toTable, storeEntries, sections, storeSection, fetchSettings, outputSettings, text?,
    word?_natCast htimeout, word?_natCast hrequests]

lemma ofChars?_write {c : Config} (htimeout : c.fetch.timeoutSeconds < 2 ^ 63)
    (hrequests : c.fetch.maxConcurrentRequests < 2 ^ 63) : ofChars? c.write = some c := by
  rw [ofChars?, ofChars?_document]
  exact storeEntries_toTable htimeout hrequests

/-- What the text of a configuration is read as: the configuration, or the failure of the first
number that is zero. -/
structure LoadsAsWritten (c : Config) : Prop where
  valid : 1 ≤ c.fetch.timeoutSeconds → 1 ≤ c.fetch.maxConcurrentRequests → read c.write = .ok c
  refused : ∀ f, c.validate = .error f → read c.write = .error f
  timeout : c.fetch.timeoutSeconds = 0 →
    read c.write = .error (.invalidConfig "fetch.timeout_seconds must be greater than 0")
  requests : 1 ≤ c.fetch.timeoutSeconds → c.fetch.maxConcurrentRequests = 0 →
    read c.write = .error (.invalidConfig "fetch.max_concurrent_requests must be greater than 0")

lemma loadsAsWritten {c : Config} (htimeout : c.fetch.timeoutSeconds < 2 ^ 63)
    (hrequests : c.fetch.maxConcurrentRequests < 2 ^ 63) : LoadsAsWritten c := by
  have hread : read c.write = c.validate.map fun _ => c := by
    rw [read, ofChars?_write htimeout hrequests]
  constructor
  case valid =>
    intro ht hr
    rw [hread, validate, if_neg (by omega), if_neg (by omega)]
    rfl
  case refused =>
    intro f hf
    rw [hread, hf]
    rfl
  case timeout =>
    intro ht
    rw [hread, validate, if_pos ht]
    rfl
  case requests =>
    intro ht hr
    rw [hread, validate, if_neg (by omega), if_pos hr]
    rfl

end SchemaClient.Config

namespace SchemaClient.Command
open Store Text Load

lemma readConfig_of_read {path : String} {t : Tree} {cs : List Char}
    (h : t.read path = .ok (cs.map .char)) :
    (readConfig path : StateM Tree _).run t = (Config.read cs, t) := by
  have hread : (Disk.read path : StateM Tree _).run t = (.ok (cs.map .char), t) :=
    congrArg (·, t) h
  have htext : Glyph.toChars? (cs.map .char) = some cs := by
    simpa [Glyph.ofString] using Glyph.toChars?_ofString (String.ofList cs)
  rw [readConfig, Loading.run_bind, hread]
  simp only [htext]
  rfl

/-- A written configuration is read as itself, or refused as it would be without writing it, and the
defaults are read from the file that they have been written to. -/
theorem config_loads_as_written :
    (∀ c : Config, c.fetch.timeoutSeconds < 2 ^ 63 → c.fetch.maxConcurrentRequests < 2 ^ 63 →
      c.LoadsAsWritten) ∧
    ∀ (path : String) (force : Bool) (t t' : Tree) (i : Initialized),
      (initConfig path force : Run (StateM Tree) _).run.run t = (.ok i, t') → i.written = true →
        (readConfig path : StateM Tree _).run t' = (.ok {}, t') := by
  refine ⟨fun c => Config.loadsAsWritten, ?_⟩
  intro path force t t' i hrun hwritten
  rcases initConfig_cases path force t with ⟨e, t₁, herror, -⟩ | ⟨i₁, t₁, hok, hdone⟩
  · cases hrun.symm.trans herror
  · cases hrun.symm.trans hok
    rcases hdone with ⟨hleft, -⟩ | ⟨-, hputs, -⟩
    · exact absurd (hleft.symm.trans hwritten) Bool.false_ne_true
    · have hdefault := (Config.loadsAsWritten (c := {}) (by decide) (by decide)).valid
      rw [readConfig_of_read hputs.read, hdefault (by decide) (by decide)]

/-- A directory of a name with both kinds of quotes, three of them in a row, a backslash, a tab, a
line feed and a control character. -/
def oddConfig : Config where
  fetch := ⟨5, 9223372036854775807⟩
  output := ⟨"it's \\ \"\"\"\t\n\x07"⟩

theorem config_loads_as_written_oddConfig :
    oddConfig.fetch.timeoutSeconds < 2 ^ 63 ∧ oddConfig.fetch.maxConcurrentRequests < 2 ^ 63 ∧
    Config.read oddConfig.write = .ok oddConfig ∧
    ∃ i t', (initConfig "config.toml" true : Run (StateM Tree) _).run.run homeTree = (.ok i, t') ∧
      i.written = true ∧ (readConfig "config.toml" : StateM Tree _).run t' = (.ok {}, t') := by
  have htimeout : oddConfig.fetch.timeoutSeconds < 2 ^ 63 := by decide
  have hrequests : oddConfig.fetch.maxConcurrentRequests < 2 ^ 63 := by decide
  refine ⟨htimeout, hrequests, ?_, _, _, rfl, rfl, ?_⟩
  · exact (config_loads_as_written.1 oddConfig htimeout hrequests).valid (by decide) (by decide)
  · exact config_loads_as_written.2 "config.toml" true homeTree _ _ rfl rfl

end SchemaClient.Command
