import Mathlib
import SchemaClient.Proofs.CamelCase
import SchemaClient.Proofs.EnumDeclarations

/-!
# Capitals with underscores

An underscore stands in front of a capital unless one stands in front of the character before it.
Names in Pascal case are cut into their words by that and stay apart, and so the literals of an
enum's variants do.
-/

namespace SchemaClient.Text

/-! ### Where underscores stand -/

/-- The character at a place is no white space and an upper-case character follows it. -/
def isBoundary (cs : List Char) (i : Nat) : Bool :=
  cs[i]?.any (!isSpace ·) && cs[i + 1]?.any isUpper

/-- Whether an underscore is put behind the character at a place: at a boundary, unless one is put
in front of that character. `before` says whether one is put in front of the whole text. -/
def isCut (before : Bool) (cs : List Char) : Nat → Bool
  | 0 => isBoundary cs 0 && !before
  | i + 1 => isBoundary cs (i + 1) && !isCut before cs i

/-- The text with the underscores. -/
def withUnderscores (before : Bool) (cs : List Char) : List Char :=
  (cs.mapIdx fun i c => if isCut before cs i then [c, '_'] else [c]).flatten

/-- How many underscores are put into the text. -/
def countCuts (before : Bool) (cs : List Char) : Nat :=
  (List.range cs.length).countP (isCut before cs)

section Cuts

variable (before : Bool) (c : Char) (cs : List Char)

lemma isCut_cons_succ (i : Nat) :
    isCut before (c :: cs) (i + 1) = isCut (isCut before (c :: cs) 0) cs i := by
  induction i with
  | zero => rfl
  | succ i ih => exact congrArg (isBoundary cs (i + 1) && !·) ih

lemma withUnderscores_cons : withUnderscores before (c :: cs) =
    (if isCut before (c :: cs) 0 then [c, '_'] else [c]) ++
      withUnderscores (isCut before (c :: cs) 0) cs := by
  rw [withUnderscores, List.mapIdx_cons, List.flatten_cons]
  simp only [isCut_cons_succ]
  rfl

lemma countCuts_cons : countCuts before (c :: cs) =
    (if isCut before (c :: cs) 0 then 1 else 0) +
      countCuts (isCut before (c :: cs) 0) cs := by
  have hrest : (isCut before (c :: cs)) ∘ Nat.succ = isCut (isCut before (c :: cs) 0) cs :=
    funext (isCut_cons_succ before c cs)
  rw [countCuts, List.length_cons, List.range_succ_eq_map, List.countP_cons, List.countP_map, hrest,
    Nat.add_comm]
  rfl

lemma isCut_true_zero : isCut true cs 0 = false := by
  rw [isCut, Bool.not_true, Bool.and_false]

lemma isCut_false_cons_cons (d : Char) :
    isCut false (c :: d :: cs) 0 = (!isSpace c && isUpper d) := by
  rw [isCut, Bool.not_false, Bool.and_true]
  rfl

end Cuts

lemma splitCapitals_eq (cs : List Char) : splitCapitals cs = withUnderscores false cs := by
  fun_induction splitCapitals cs with
  | case1 c d cs hcut ih =>
    have hfirst := (isCut_false_cons_cons c cs d).trans hcut
    rw [withUnderscores_cons, hfirst, withUnderscores_cons, isCut_true_zero, ih]
    rfl
  | case2 c d cs hcut ih =>
    have hfirst := (isCut_false_cons_cons c cs d).trans (Bool.eq_false_iff.mpr hcut)
    rw [withUnderscores_cons, hfirst, ih]
    rfl
  | case3 cs hshort =>
    match cs with
    | [] => rfl
    | [c] => simp [withUnderscores, isCut, isBoundary]
    | c :: d :: cs => exact absurd rfl (hshort c d cs)

/-- No two underscores are put in one behind the other's character, so they are at most half as
many as the characters. -/
lemma two_mul_countCuts_le (cs : List Char) : 2 * countCuts false cs ≤ cs.length := by
  fun_induction splitCapitals cs with
  | case1 c d cs hcut ih =>
    have hfirst := (isCut_false_cons_cons c cs d).trans hcut
    rw [countCuts_cons, hfirst, countCuts_cons, isCut_true_zero]
    simp only [if_true, Bool.false_eq_true, if_false, List.length_cons]
    omega
  | case2 c d cs hcut ih =>
    have hfirst := (isCut_false_cons_cons c cs d).trans (Bool.eq_false_iff.mpr hcut)
    rw [countCuts_cons, hfirst, List.length_cons]
    simp only [Bool.false_eq_true, if_false]
    omega
  | case3 cs hshort =>
    match cs with
    | [] => rfl
    | [c] => simp [countCuts, isCut, isBoundary]
    | c :: d :: cs => exact absurd rfl (hshort c d cs)

lemma sublist_withUnderscores (before : Bool) (cs : List Char) :
    cs.Sublist (withUnderscores before cs) := by
  induction cs generalizing before with
  | nil => exact List.nil_sublist _
  | cons c cs ih =>
    rw [withUnderscores_cons]
    split
    · exact ((ih _).cons '_').cons_cons c
    · exact (ih _).cons_cons c

lemma perm_withUnderscores (before : Bool) (cs : List Char) :
    (withUnderscores before cs).Perm (List.replicate (countCuts before cs) '_' ++ cs) := by
  induction cs generalizing before with
  | nil => exact .nil
  | cons c cs ih =>
    rw [withUnderscores_cons, countCuts_cons]
    refine .trans ?_ List.perm_middle.symm
    split
    · rw [Nat.add_comm, List.replicate_succ]
      exact ((ih _).cons '_').cons c
    · rw [Nat.zero_add]
      exact (ih _).cons c

/-! ### Names in Pascal case -/

/-- An ASCII capital and, behind it, at least one small letter or digit. -/
def isPascalWord : List Char → Bool
  | [] => false
  | c :: cs => c.isUpper && !cs.isEmpty && cs.all isSmall

/-- The name is made of such words. -/
def IsPascalCase (name : String) : Prop :=
  ∃ words : List (List Char), (∀ w ∈ words, isPascalWord w = true) ∧ name.toList = words.flatten

lemma isPascalWord_cons {c : Char} {cs : List Char} :
    isPascalWord (c :: cs) = true ↔ c.isUpper = true ∧ cs ≠ [] ∧ cs.all isSmall = true := by
  simp [isPascalWord, and_assoc]

lemma toNat_of_isUpper {c : Char} (h : c.isUpper = true) : 65 ≤ c.toNat ∧ c.toNat ≤ 90 := by
  simpa [Char.isUpper, UInt32.le_iff_toNat_le] using h

lemma toNat_of_isSmall {c : Char} (h : isSmall c = true) :
    97 ≤ c.toNat ∧ c.toNat ≤ 122 ∨ 48 ≤ c.toNat ∧ c.toNat ≤ 57 := by
  simpa [isSmall, Char.isLower, Char.isDigit, UInt32.le_iff_toNat_le] using h

lemma isUpper_small {c : Char} (h : isSmall c = true) : isUpper c = false := by
  have hascii : c.toNat < 128 := by
    have := toNat_of_isSmall h
    omega
  rw [isUpper_of_ascii hascii, isUpper_of_isSmall h]

lemma isSpace_small {c : Char} (h : isSmall c = true) : isSpace c = false := by
  have := toNat_of_isSmall h
  simp [isSpace]
  omega

lemma isUpper_of_capital {c : Char} (h : c.isUpper = true) : isUpper c = true := by
  have hascii : c.toNat < 128 := by
    have := toNat_of_isUpper h
    omega
  rw [isUpper_of_ascii hascii, h]

lemma splitCapitals_cons_small {c d : Char} (hd : isSmall d = true) (cs : List Char) :
    splitCapitals (c :: d :: cs) = c :: splitCapitals (d :: cs) := by
  rw [splitCapitals, isUpper_small hd, Bool.and_false, if_neg Bool.false_ne_true]

lemma splitCapitals_small {cs : List Char} (h : cs.all isSmall = true) : splitCapitals cs = cs := by
  fun_induction splitCapitals cs with
  | case1 c d cs hcut ih =>
    simp only [List.all_cons, Bool.and_eq_true] at h hcut
    exact absurd hcut.2 (Bool.eq_false_iff.mp (isUpper_small h.2.1))
  | case2 c d cs _ ih =>
    rw [List.all_cons, Bool.and_eq_true] at h
    rw [ih h.2]
  | case3 => rfl

/-- Small characters are kept up to the next capital, which an underscore comes in front of. -/
lemma splitCapitals_small_append {cs : List Char} (hne : cs ≠ []) (h : cs.all isSmall = true)
    {c : Char} (hc : c.isUpper = true) (rest : List Char) :
    splitCapitals (cs ++ c :: rest) = cs ++ '_' :: c :: splitCapitals rest := by
  induction cs with
  | nil => exact absurd rfl hne
  | cons d cs ih =>
    rw [List.all_cons, Bool.and_eq_true] at h
    cases cs with
    | nil =>
      rw [List.singleton_append, splitCapitals, isSpace_small h.1, isUpper_of_capital hc]
      rfl
    | cons e cs =>
      have he : isSmall e = true := (List.all_eq_true.mp h.2) e List.mem_cons_self
      rw [List.cons_append, List.cons_append, splitCapitals_cons_small he, ← List.cons_append,
        ih (List.cons_ne_nil e cs) h.2]
      rfl

lemma splitCapitals_small_flatten {cs : List Char} (hne : cs ≠ []) (h : cs.all isSmall = true)
    {words : List (List Char)} (hwords : ∀ w ∈ words, isPascalWord w = true) :
    splitCapitals (cs ++ words.flatten) = ['_'].intercalate (cs :: words) := by
  induction words generalizing cs with
  | nil => simpa using splitCapitals_small h
  | cons w words ih =>
    obtain ⟨hw, hrest⟩ := List.forall_mem_cons.mp hwords
    cases w with
    | nil => cases hw
    | cons c ds =>
      obtain ⟨hc, hds, hsmall⟩ := isPascalWord_cons.mp hw
      rw [List.flatten_cons, List.cons_append, splitCapitals_small_append hne h hc,
        ih hds hsmall hrest, List.intercalate_cons_cons, List.intercalate_cons_cons_left]
      simp

/-- Underscores separate the words of a name in Pascal case, and no other ones are put in. -/
lemma splitCapitals_flatten {words : List (List Char)}
    (hwords : ∀ w ∈ words, isPascalWord w = true) :
    splitCapitals words.flatten = ['_'].intercalate words := by
  cases words with
  | nil => rfl
  | cons w words =>
    obtain ⟨hw, hrest⟩ := List.forall_mem_cons.mp hwords
    cases w with
    | nil => cases hw
    | cons c cs =>
      obtain ⟨-, hne, hsmall⟩ := isPascalWord_cons.mp hw
      obtain ⟨d, ds, rfl⟩ := List.exists_cons_of_ne_nil hne
      have hd : isSmall d = true := (List.all_eq_true.mp hsmall) d List.mem_cons_self
      rw [List.flatten_cons, List.cons_append, List.cons_append, splitCapitals_cons_small hd,
        ← List.cons_append, splitCapitals_small_flatten hne hsmall hrest]
      exact List.intercalate_cons_cons_left.symm

lemma flatMap_intercalate {f : Char → List Char} {c : Char} (hc : f c = [c])
    (words : List (List Char)) :
    ([c].intercalate words).flatMap f = [c].intercalate (words.map (·.flatMap f)) := by
  cases words with
  | nil => rfl
  | cons w words =>
    rw [List.map_cons, intercalate_singleton_cons, intercalate_singleton_cons, List.flatMap_append,
      List.flatMap_assoc, List.flatMap_map]
    simp [hc]

lemma map_toLower_of_small {cs : List Char} (h : cs.all isSmall = true) :
    cs.map Char.toLower = cs := by
  rw [List.all_eq_true] at h
  rw [List.map_congr_left fun c hc => Char.toLower_eq_of_not_isUpper
    (Bool.eq_false_iff.mp (isUpper_of_isSmall (h c hc))), List.map_id']

section Words

variable {w : List Char} (hw : isPascalWord w = true)
include hw

lemma upperCase_word : upperCase w = w.map Char.toUpper := by
  have hascii : ∀ c ∈ w, c.toNat < 128 := by
    cases w with
    | nil => cases hw
    | cons d ds =>
      obtain ⟨hd, -, hsmall⟩ := isPascalWord_cons.mp hw
      have hfirst := toNat_of_isUpper hd
      refine List.forall_mem_cons.mpr ⟨by omega, fun c hc => ?_⟩
      have hrest := toNat_of_isSmall ((List.all_eq_true.mp hsmall) c hc)
      omega
  rw [upperCase, List.map_eq_flatMap]
  exact List.flatMap_congr fun c hc => toUpper_of_ascii (hascii c hc)

lemma all_isSmall_map_toLower : (w.map Char.toLower).all isSmall = true := by
  cases w with
  | nil => rfl
  | cons c cs =>
    obtain ⟨hc, -, hsmall⟩ := isPascalWord_cons.mp hw
    have hlower : c.toLower.isLower = true := by simp [Char.isAlpha, hc]
    rw [List.map_cons, map_toLower_of_small hsmall, List.all_cons, hsmall, isSmall, hlower]
    rfl

lemma capitalize_map_toLower : capitalize (w.map Char.toLower) = w := by
  cases w with
  | nil => rfl
  | cons c cs =>
    obtain ⟨hc, -, hsmall⟩ := isPascalWord_cons.mp hw
    have hfirst : c.toLower.toUpper = c := by
      rw [Char.toUpper_toLower_eq_toUpper,
        Char.toUpper_eq_of_not_isLower (Char.not_isLower_of_isUpper hc)]
    rw [List.map_cons, capitalize, hfirst, map_toLower_of_small hsmall]

end Words

section Names

variable {words : List (List Char)} (hwords : ∀ w ∈ words, isPascalWord w = true)
include hwords

/-- In capitals the words of a name stand apart by single underscores. -/
lemma screamingCase_flatten : (screamingCase (String.ofList words.flatten)).toList =
    ['_'].intercalate (words.map (·.map Char.toUpper)) := by
  rw [screamingCase, String.toList_ofList, String.toList_ofList, splitCapitals_flatten hwords,
    upperCase, flatMap_intercalate (by decide)]
  exact congrArg _ (List.map_congr_left fun w hw => upperCase_word (hwords w hw))

/-- The words of a name in Pascal case are found again between the underscores. -/
lemma joinWords_map_toLower :
    joinWords true ((screamingCase (String.ofList words.flatten)).toList.map Char.toLower) =
      words.flatten := by
  cases hne : words with
  | nil => rfl
  | cons w ws =>
    have hlower : (screamingCase (String.ofList words.flatten)).toList.map Char.toLower =
        ['_'].intercalate (words.map (·.map Char.toLower)) := by
      rw [screamingCase_flatten hwords, List.map_eq_flatMap, flatMap_intercalate (by decide),
        List.map_map]
      refine congrArg _ (List.map_congr_left fun w _ => ?_)
      simp [← List.map_eq_flatMap]
    have hunderscore : ∀ l ∈ words.map (·.map Char.toLower), '_' ∉ l := by
      rw [List.forall_mem_map]
      intro w hw hmem
      exact absurd ((List.all_eq_true.mp (all_isSmall_map_toLower (hwords w hw))) '_' hmem)
        (by decide)
    rw [← hne, hlower, (joinWords_eq _).2, List.splitOn_intercalate '_' hunderscore (by simp [hne]),
      List.flatMap_map, List.flatMap_congr fun w hw => capitalize_map_toLower (hwords w hw),
      List.flatMap_id']

end Names

lemma screamingCase_injective {a b : String} (ha : IsPascalCase a) (hb : IsPascalCase b)
    (h : screamingCase a = screamingCase b) : a = b := by
  obtain ⟨us, hus, hua⟩ := ha
  obtain ⟨vs, hvs, hvb⟩ := hb
  have hleft := joinWords_map_toLower hus
  have hright := joinWords_map_toLower hvs
  rw [← hua, String.ofList_toList] at hleft
  rw [← hvb, String.ofList_toList] at hright
  rw [← String.toList_inj, ← hleft, h, hright]

end SchemaClient.Text

namespace SchemaClient.Code

/-- The string literal that tells a declared type apart: the one it is an alias of, or the type of
its first member. -/
def Declaration.literal? (d : Declaration) : Option String :=
  match d.shape with
  | .alias (.literal s) => some s
  | .interface _ (.mk _ (.literal s) _ _ :: _) => some s
  | _ => none

end SchemaClient.Code

namespace SchemaClient.Client
open SchemaClient.Schema SchemaClient.Code SchemaClient.Text

section Enum

variable (routes : List String) (item : Item) (e : Enumeration)

lemma literal?_declareVariant {v : Variant} {d : Declaration}
    (h : declareVariant routes item e v = some d) :
    d.literal? = some (renameVariant e.renameAll v.name) := by
  unfold declareVariant at h
  dsimp only at h
  split at h
  · cases h
  · obtain rfl := Option.some.inj h
    rfl
  · obtain ⟨tag, -, rfl⟩ := Option.map_eq_some_iff.mp h
    rfl

lemma map_literal?_variants (hrule : e.renameAll = some .screamingSnake) :
    (declareEnum routes item e).variants.map (·.literal?) =
      (e.variants.filter (isDeclared e)).map fun v => some (screamingCase v.name) := by
  have hliteral : ∀ {v d}, declareVariant routes item e v = some d →
      d.literal? = some (screamingCase v.name) := by
    intro v d hd
    rw [literal?_declareVariant routes item e hd, renameVariant, if_pos hrule]
  rw [variants_declareEnum, map_filterMap_declareVariant routes item e hliteral]

lemma nodup_literals (hrule : e.renameAll = some .screamingSnake)
    (hpascal : ∀ v ∈ e.variants, IsPascalCase v.name) (hnodup : (e.variants.map (·.name)).Nodup) :
    ((declareEnum routes item e).variants.map (·.literal?)).Nodup := by
  rw [map_literal?_variants routes item e hrule]
  have hdeclared : ((e.variants.filter (isDeclared e)).map (·.name)).Nodup :=
    hnodup.sublist (List.filter_sublist.map _)
  have hnames : ∀ n ∈ (e.variants.filter (isDeclared e)).map (·.name), IsPascalCase n :=
    List.forall_mem_map.mpr fun v hv => hpascal v (List.mem_of_mem_filter hv)
  have himage := hdeclared.map_on fun a ha b hb h =>
    screamingCase_injective (hnames a ha) (hnames b hb) (Option.some.inj h)
  rwa [List.map_map] at himage

end Enum

/-- In capitals a name is what it was, with at most half as many underscores as it has characters
put in. Names in Pascal case become their words with underscores between them and stay apart, and
so do the literals by which the variants of an enum are told apart. -/
theorem screamingCase_keeps_apart :
    (∀ name : String,
      (screamingCase name).toList = upperCase (withUnderscores false name.toList) ∧
      name.toList.Sublist (withUnderscores false name.toList) ∧
      (withUnderscores false name.toList).Perm
        (List.replicate (countCuts false name.toList) '_' ++ name.toList) ∧
      countCuts false name.toList ≤ name.toList.length / 2) ∧
    (∀ words : List (List Char), (∀ w ∈ words, isPascalWord w = true) →
      (screamingCase (String.ofList words.flatten)).toList =
        ['_'].intercalate (words.map (·.map Char.toUpper))) ∧
    (∀ a b, IsPascalCase a → IsPascalCase b → screamingCase a = screamingCase b → a = b) ∧
    ∀ (routes : List String) (item : Item) (e : Enumeration),
      e.renameAll = some .screamingSnake → (∀ v ∈ e.variants, IsPascalCase v.name) →
        (e.variants.map (·.name)).Nodup →
          (declareEnum routes item e).variants.map (·.literal?) =
              (e.variants.filter (isDeclared e)).map (fun v => some (screamingCase v.name)) ∧
            ((declareEnum routes item e).variants.map (·.literal?)).Nodup := by
  refine ⟨fun name => ⟨?_, sublist_withUnderscores _ _, perm_withUnderscores _ _, ?_⟩,
    fun words => screamingCase_flatten, fun a b => screamingCase_injective, ?_⟩
  · rw [screamingCase, String.toList_ofList, splitCapitals_eq]
  · have hcount := two_mul_countCuts_le name.toList
    omega
  · intro routes item e hrule hpascal hnodup
    exact ⟨map_literal?_variants routes item e hrule,
      nodup_literals routes item e hrule hpascal hnodup⟩

theorem screamingCase_keeps_apart_sampleEnumeration :
    (∀ w ∈ ["Rate".toList, "Limited2".toList], isPascalWord w = true) ∧
    screamingCase "RateLimited2" = "RATE_LIMITED2" ∧
    (IsPascalCase "SignedOut" ∧ IsPascalCase "Sent" ∧
      screamingCase "SignedOut" ≠ screamingCase "Sent") ∧
    sampleEnumeration.renameAll = some .screamingSnake ∧
    (∀ v ∈ sampleEnumeration.variants, IsPascalCase v.name) ∧
    (sampleEnumeration.variants.map (·.name)).Nodup ∧
    (declareEnum [] default sampleEnumeration).variants.map (·.literal?) =
      [some "SIGNED_OUT", some "SENT", some "RATE_LIMITED"] ∧
    ((declareEnum [] default sampleEnumeration).variants.map (·.literal?)).Nodup := by
  obtain ⟨-, hwords, hinjective, henums⟩ := screamingCase_keeps_apart
  have hpair : ∀ w ∈ ["Rate".toList, "Limited2".toList], isPascalWord w = true := by decide
  have hsigned : IsPascalCase "SignedOut" :=
    ⟨["Signed".toList, "Out".toList], by decide, by decide⟩
  have hsent : IsPascalCase "Sent" := ⟨["Sent".toList], by decide, by decide⟩
  have hlimited : IsPascalCase "RateLimited" :=
    ⟨["Rate".toList, "Limited".toList], by decide, by decide⟩
  have hpascal : ∀ v ∈ sampleEnumeration.variants, IsPascalCase v.name := by
    intro v hv
    rcases List.mem_cons.mp hv with rfl | hv
    · exact hsigned
    rcases List.mem_cons.mp hv with rfl | hv
    · exact hsent
    · rw [List.mem_singleton.mp hv]
      exact hlimited
  have hnodup : (sampleEnumeration.variants.map (·.name)).Nodup := by decide
  obtain ⟨hliterals, hdistinct⟩ := henums [] default sampleEnumeration rfl hpascal hnodup
  refine ⟨hpair, ?_, ⟨hsigned, hsent, fun h => ?_⟩, rfl, hpascal, hnodup, ?_, hdistinct⟩
  · rw [← String.toList_inj]
    exact (hwords _ hpair).trans (by decide)
  · exact absurd (hinjective _ _ hsigned hsent h) (by decide)
  · exact hliterals.trans (by decide)

end SchemaClient.Client
