import SchemaClient.Proofs.Decoder

/-!
# Texts that are cut off

The tokens of a JSON text that is cut off are the first tokens of the whole text, up to one in
which the cut stands: a word or a string ends too early, and a number may miss a digit or be
another number. The cut may stand anywhere, also within a character of several bytes.
-/

namespace SchemaClient.Json.Token
open SchemaClient.Text

/-- The first text is the second one, cut off in front of a token or in it. Of a character of
several bytes some may be left. -/
inductive CutOff : List Glyph → List Glyph → Prop
  | here {gs : List Glyph} (h : ofGlyphs gs ≠ []) : CutOff [] gs
  | inside {c : Char} (h : 0x80 ≤ c.toNat) (b : UInt8) (bs : List UInt8) (gs : List Glyph) :
      CutOff (.stray b :: bs.map .stray) (.char c :: gs)
  | later (g : Glyph) {p gs : List Glyph} (h : CutOff p gs) : CutOff (g :: p) (g :: gs)

lemma CutOff.ne_nil {p gs : List Glyph} (h : CutOff p gs) : gs ≠ [] := by
  cases h with
  | here h =>
    rintro rfl
    exact h ofGlyphs.eq_1
  | inside => exact List.cons_ne_nil _ _
  | later => exact List.cons_ne_nil _ _

section Digits

lemma digit?_eq_none {c : Char} (h : 0x80 ≤ c.toNat) : digit? (.char c) = none := by
  have hdigit : c.isDigit = false := by
    have hle : ¬c.val ≤ '9'.val := by
      intro hle
      have hnat : c.toNat ≤ 57 := UInt32.le_iff_toNat_le.mp hle
      omega
    rw [Char.isDigit, decide_eq_false hle, Bool.and_false]
  rw [digit?, hdigit]
  rfl

/-- What a scanner of a part of a number makes of a text that is cut off, where `a` and `rest` are
what it makes of the whole text. -/
inductive NumberCut {α : Type} (a : α) (rest : List Glyph) :
    Except Break (α × List Glyph) → Prop
  | missing : NumberCut a rest (.error (missingDigit []))
  | partly (a' : α) : NumberCut a rest (.ok (a', []))
  | whole {p : List Glyph} (h : CutOff p rest) : NumberCut a rest (.ok (a, p))

variable {p gs rest : List Glyph} {ds : List Nat}

lemma spanDigits_cutOff (hp : CutOff p gs) (h : spanDigits gs = (ds, rest)) :
    (∃ ds', spanDigits p = (ds', []) ∧ ds' <+: ds) ∨
      ∃ p', spanDigits p = (ds, p') ∧ CutOff p' rest := by
  induction hp generalizing ds with
  | here => exact .inl ⟨[], rfl, List.nil_prefix⟩
  | inside hc b bs gs =>
    rw [spanDigits, digit?_eq_none hc] at h
    obtain ⟨rfl, rfl⟩ := Prod.mk.inj h
    exact .inr ⟨_, rfl, .inside hc b bs gs⟩
  | later g hp ih =>
    rw [spanDigits] at h ⊢
    cases hd : digit? g with
    | none =>
      rw [hd] at h
      obtain ⟨rfl, rfl⟩ := Prod.mk.inj h
      exact .inr ⟨_, rfl, .later g hp⟩
    | some d =>
      rw [hd] at h
      obtain ⟨rfl, rfl⟩ := Prod.mk.inj h
      rcases ih rfl with ⟨ds', hspan, hbegins⟩ | ⟨p', hspan, hp'⟩
      · exact .inl ⟨d :: ds', by simp [hspan], List.cons_prefix_cons.mpr ⟨rfl, hbegins⟩⟩
      · exact .inr ⟨p', by simp [hspan], hp'⟩

lemma scanDigits_cutOff (hp : CutOff p gs) (h : scanDigits gs = .ok (ds, rest)) :
    scanDigits p = .error (missingDigit []) ∨
      (∃ ds', scanDigits p = .ok (ds', []) ∧ ds' <+: ds ∧ ds' ≠ []) ∨
      ∃ p', scanDigits p = .ok (ds, p') ∧ CutOff p' rest := by
  unfold scanDigits at h
  split at h
  · cases h
  next hne =>
  obtain hspan : spanDigits gs = (ds, rest) := Except.ok.inj h
  rw [scanDigits]
  rcases spanDigits_cutOff hp hspan with ⟨ds', hcut, hbegins⟩ | ⟨p', hcut, hp'⟩
  · cases ds' with
    | nil => exact .inl (by rw [hcut])
    | cons d ds' => exact .inr (.inl ⟨d :: ds', by rw [hcut], hbegins, List.cons_ne_nil _ _⟩)
  · cases ds with
    | nil => exact absurd hspan (hne rest)
    | cons d ds => exact .inr (.inr ⟨p', by rw [hcut], hp'⟩)

lemma numberCut_scanDigits (hp : CutOff p gs) (h : scanDigits gs = .ok (ds, rest)) :
    NumberCut ds rest (scanDigits p) := by
  rcases scanDigits_cutOff hp h with h | ⟨ds', h, -, -⟩ | ⟨p', h, hp'⟩
  · rw [h]
    exact .missing
  · rw [h]
    exact .partly ds'
  · rw [h]
    exact .whole hp'

lemma scanFraction_of_ne {g : Glyph} (h : g ≠ .char '.') (gs : List Glyph) :
    scanFraction (g :: gs) = .ok ([], g :: gs) := by
  unfold scanFraction
  split
  · next heq => exact absurd (List.cons.inj heq).1 h
  · rfl

lemma ne_of_le {c d : Char} (hc : 0x80 ≤ c.toNat) (hd : d.toNat < 0x80) : c ≠ d := by
  rintro rfl
  omega

lemma char_ne {c d : Char} (hc : 0x80 ≤ c.toNat) (hd : d.toNat < 0x80) :
    Glyph.char c ≠ .char d :=
  fun heq => ne_of_le hc hd (Glyph.char.inj heq)

lemma numberCut_scanFraction (hp : CutOff p gs) (h : scanFraction gs = .ok (ds, rest)) :
    NumberCut ds rest (scanFraction p) := by
  cases hp with
  | here => exact .partly []
  | inside hc b bs gs =>
    rw [scanFraction_of_ne (char_ne hc (by decide))] at h
    obtain ⟨rfl, rfl⟩ := Prod.mk.inj (Except.ok.inj h)
    exact .whole (.inside hc b bs gs)
  | later g hp =>
    by_cases hg : g = .char '.'
    · subst hg
      exact numberCut_scanDigits hp h
    · rw [scanFraction_of_ne hg] at h ⊢
      obtain ⟨rfl, rfl⟩ := Prod.mk.inj (Except.ok.inj h)
      exact .whole (.later g hp)

lemma scanSign_of_ne {g : Glyph} (hminus : g ≠ .char '-') (hplus : g ≠ .char '+')
    (gs : List Glyph) : scanSign (g :: gs) = (false, g :: gs) := by
  unfold scanSign
  split
  · next heq => exact absurd (List.cons.inj heq).1 hminus
  · next heq => exact absurd (List.cons.inj heq).1 hplus
  · rfl

lemma scanSign_cutOff (hp : CutOff p gs) :
    (scanSign p).2 = [] ∨
      (scanSign p).1 = (scanSign gs).1 ∧ CutOff (scanSign p).2 (scanSign gs).2 := by
  cases hp with
  | here => exact .inl rfl
  | inside hc b bs gs =>
    rw [scanSign_of_ne (char_ne hc (by decide)) (char_ne hc (by decide))]
    exact .inr ⟨rfl, .inside hc b bs gs⟩
  | later g hp =>
    by_cases hminus : g = .char '-'
    · subst hminus
      exact .inr ⟨rfl, hp⟩
    by_cases hplus : g = .char '+'
    · subst hplus
      exact .inr ⟨rfl, hp⟩
    · rw [scanSign_of_ne hminus hplus, scanSign_of_ne hminus hplus]
      exact .inr ⟨rfl, .later g hp⟩

lemma numberCut_scanExponent {e : Option (Bool × List Nat)} (hp : CutOff p gs)
    (h : scanExponent gs = .ok (e, rest)) : NumberCut e rest (scanExponent p) := by
  cases hp with
  | here => exact .partly none
  | inside hc b bs gs =>
    have hletter : ¬(Glyph.char _ = .char 'e' ∨ Glyph.char _ = .char 'E') :=
      not_or.mpr ⟨char_ne hc (by decide), char_ne hc (by decide)⟩
    rw [scanExponent, if_neg hletter] at h
    obtain ⟨rfl, rfl⟩ := Prod.mk.inj (Except.ok.inj h)
    rw [scanExponent, if_neg (by simp)]
    exact .whole (.inside hc b bs gs)
  | @later g p gs hp =>
    rw [scanExponent] at h ⊢
    by_cases hg : g = .char 'e' ∨ g = .char 'E'
    · rw [if_pos hg] at h ⊢
      cases hdigits : scanDigits (scanSign gs).2 with
      | error b =>
        rw [hdigits] at h
        cases h
      | ok d =>
        rw [hdigits] at h
        obtain ⟨rfl, rfl⟩ := Prod.mk.inj (Except.ok.inj h)
        rcases scanSign_cutOff hp with hend | ⟨hsign, hcut⟩
        · rw [hend]
          exact .missing
        · have hcut := numberCut_scanDigits hcut hdigits
          rw [hsign]
          generalize scanDigits (scanSign p).2 = x at hcut ⊢
          cases hcut with
          | missing => exact .missing
          | partly ds => exact .partly (some (_, ds))
          | whole hrest => exact .whole hrest
    · rw [if_neg hg] at h ⊢
      obtain ⟨rfl, rfl⟩ := Prod.mk.inj (Except.ok.inj h)
      exact .whole (.later g hp)

lemma NumberCut.bind {α β : Type} {a : α} {b : β} {x : Except Break (α × List Glyph)}
    {f : α × List Glyph → Except Break (β × List Glyph)} {middle : List Glyph}
    (hx : NumberCut a middle x) (hpartly : ∀ a', x = .ok (a', []) → NumberCut b rest (f (a', [])))
    (hwhole : ∀ p, CutOff p middle → NumberCut b rest (f (a, p))) :
    NumberCut b rest (x >>= f) := by
  cases hx with
  | missing => exact .missing
  | partly a' => exact hpartly a' rfl
  | whole hp => exact hwhole _ hp

lemma head?_ne_zero_or {whole whole' : List Nat} (h : ¬(whole.head? = some 0 ∧ whole.length ≠ 1))
    (hbegins : whole' <+: whole) (hne : whole' ≠ []) :
    ¬(whole'.head? = some 0 ∧ whole'.length ≠ 1) := by
  rintro ⟨hzero, hlength⟩
  obtain ⟨more, rfl⟩ := hbegins
  cases whole' with
  | nil => exact hne rfl
  | cons d ds =>
    apply h
    refine ⟨hzero, ?_⟩
    simp only [List.length_append, List.length_cons] at hlength ⊢
    omega

lemma numberCut_scanNumber {negative : Bool} {t : NumberText} (hp : CutOff p gs)
    (h : scanNumber negative gs = .ok (t, rest)) :
    NumberCut t rest (scanNumber negative p) := by
  obtain ⟨⟨whole, gs₁⟩, hwhole, h⟩ := Decode.bind_eq_ok_iff.mp h
  dsimp only at h
  split at h
  · cases h
  next hzero =>
  obtain ⟨⟨fraction, gs₂⟩, hfraction, h⟩ := Decode.bind_eq_ok_iff.mp h
  obtain ⟨⟨exponent, gs₃⟩, hexponent, h⟩ := Decode.bind_eq_ok_iff.mp h
  obtain ⟨rfl, rfl⟩ := Prod.mk.inj (Except.ok.inj h)
  apply (numberCut_scanDigits hp hwhole).bind
  · intro whole' hpartly
    have hzero' : ¬(whole'.head? = some 0 ∧ whole'.length ≠ 1) := by
      rcases scanDigits_cutOff hp hwhole with hcut | ⟨ds, hcut, hbegins, hne⟩ | ⟨p', hcut, -⟩
      · cases hcut.symm.trans hpartly
      · cases hcut.symm.trans hpartly
        exact head?_ne_zero_or hzero hbegins hne
      · cases hcut.symm.trans hpartly
        exact hzero
    dsimp only
    rw [if_neg hzero']
    exact .partly _
  · intro p₁ hp₁
    dsimp only
    rw [if_neg hzero]
    apply (numberCut_scanFraction hp₁ hfraction).bind
    · exact fun _ _ => .partly _
    · intro p₂ hp₂
      apply (numberCut_scanExponent hp₂ hexponent).bind
      · exact fun _ _ => .partly _
      · exact fun p₃ hp₃ => .whole hp₃

end Digits

section Strings

variable {p gs rest : List Glyph}

/-- What a scanner of a part of a string makes of a text that is cut off, where `a` and `rest` are
what it makes of the whole text. -/
inductive PartCut {α : Type} (a : α) (rest : List Glyph) : Except Cause (α × List Glyph) → Prop
  | ended : PartCut a rest (.error .ended)
  | whole {p : List Glyph} (h : CutOff p rest) : PartCut a rest (.ok (a, p))

lemma PartCut.cases {α : Type} {a : α} {x : Except Cause (α × List Glyph)}
    (h : PartCut a rest x) : x = .error .ended ∨ ∃ p, x = .ok (a, p) ∧ CutOff p rest := by
  cases h with
  | ended => exact .inl rfl
  | whole hp => exact .inr ⟨_, rfl, hp⟩

lemma toNat_lt_of_hexDigit? {c : Char} {n : Nat} (h : hexDigit? (.char c) = some n) :
    c.toNat < 0x80 := by
  have hbelow {d : Char} (hd : d.toNat < 0x80) (hle : c ≤ d) : c.toNat < 0x80 :=
    Nat.lt_of_le_of_lt (UInt32.le_iff_toNat_le.mp hle) hd
  rw [hexDigit?] at h
  split_ifs at h with hdigit hlower hupper
  · by_contra hge
    have hnone := digit?_eq_none (Nat.le_of_not_lt hge)
    rw [digit?, hdigit] at hnone
    cases hnone
  · exact hbelow (by decide) hlower.2
  · exact hbelow (by decide) hupper.2

lemma size_of_hexDigit? {g : Glyph} {n : Nat} (h : hexDigit? g = some n) : g.size = 1 := by
  cases g with
  | stray b => rfl
  | char c =>
    have hlt := toNat_lt_of_hexDigit? h
    rw [Glyph.size, Char.utf8Size_eq_one_iff]
    exact UInt32.le_iff_toNat_le.mpr (Nat.le_of_lt_succ hlt)

/-- A cut in front of a hexadecimal digit leaves nothing of it. -/
lemma CutOff.of_hexDigit {g : Glyph} {n : Nat} (hp : CutOff p (g :: gs))
    (h : hexDigit? g = some n) : p = [] ∨ ∃ p', p = g :: p' ∧ CutOff p' gs := by
  cases hp with
  | here => exact .inl rfl
  | inside hc => exact absurd (toNat_lt_of_hexDigit? h) (Nat.not_lt.mpr hc)
  | later g hp => exact .inr ⟨_, rfl, hp⟩

/-- Four hexadecimal digits are whole, or so few are left that the text has ended. -/
lemma partCut_scanHex {n : Nat} (hp : CutOff p gs) (h : scanHex gs = .ok (n, rest)) :
    PartCut n rest (scanHex p) := by
  have hended (q : List Glyph) (hshort : q.length < 4) (hsize : Glyph.sizes q < 4) :
      PartCut n rest (scanHex q) := by
    have hq : scanHex q = .error .ended := by
      match q with
      | [] | [_] | [_, _] | [_, _, _] =>
        rw [scanHex, if_pos hsize]
        all_goals simp
    rw [hq]
    exact .ended
  unfold scanHex at h
  split at h
  · next a b c d gs =>
    split at h
    · next ha hb hc hd =>
      have hsizes : a.size = 1 ∧ b.size = 1 ∧ c.size = 1 :=
        ⟨size_of_hexDigit? ha, size_of_hexDigit? hb, size_of_hexDigit? hc⟩
      rcases hp.of_hexDigit ha with rfl | ⟨p₁, rfl, hp₁⟩
      · exact hended _ (by simp) (by simp [Glyph.sizes])
      rcases hp₁.of_hexDigit hb with rfl | ⟨p₂, rfl, hp₂⟩
      · exact hended _ (by simp) (by simp [Glyph.sizes, hsizes])
      rcases hp₂.of_hexDigit hc with rfl | ⟨p₃, rfl, hp₃⟩
      · exact hended _ (by simp) (by simp [Glyph.sizes, hsizes])
      rcases hp₃.of_hexDigit hd with rfl | ⟨p₄, rfl, hp₄⟩
      · exact hended _ (by simp) (by simp [Glyph.sizes, hsizes])
      · obtain ⟨rfl, rfl⟩ := Prod.mk.inj (Except.ok.inj h)
        simp only [scanHex, ha, hb, hc, hd]
        exact .whole hp₄
    · cases h
  · cases h

lemma scanLowSurrogate_of_ne {g : Glyph} (h : g ≠ .char '\\') (high : Nat) (gs : List Glyph) :
    scanLowSurrogate high (g :: gs) = .ok (none, g :: gs) := by
  unfold scanLowSurrogate
  split
  · next heq => cases heq
  · next heq => exact absurd (List.cons.inj heq).1 h
  · next heq => exact absurd (List.cons.inj heq).1 h
  · rfl

lemma scanLowSurrogate_slash_of_ne {g : Glyph} (h : g ≠ .char 'u') (high : Nat)
    (gs : List Glyph) :
    scanLowSurrogate high (.char '\\' :: g :: gs) = .ok (none, .char '\\' :: g :: gs) := by
  unfold scanLowSurrogate
  split
  · next heq => cases heq
  · next heq => cases heq
  · next heq => exact absurd (List.cons.inj (List.cons.inj heq).2).1 h
  · rfl

lemma partCut_scanLowSurrogate {high : Nat} {c : Option Char} (hp : CutOff p gs)
    (h : scanLowSurrogate high gs = .ok (c, rest)) : PartCut c rest (scanLowSurrogate high p) := by
  cases hp with
  | here => exact .ended
  | inside hc b bs gs =>
    rw [scanLowSurrogate_of_ne (char_ne hc (by decide))] at h
    obtain ⟨rfl, rfl⟩ := Prod.mk.inj (Except.ok.inj h)
    exact .whole (.inside hc b bs gs)
  | later g hp =>
    by_cases hg : g = .char '\\'
    · subst hg
      cases hp with
      | here => exact .ended
      | inside hc b bs gs =>
        rw [scanLowSurrogate_slash_of_ne (char_ne hc (by decide))] at h
        obtain ⟨rfl, rfl⟩ := Prod.mk.inj (Except.ok.inj h)
        exact .whole (.later _ (.inside hc b bs gs))
      | @later g p gs hp =>
        by_cases hu : g = .char 'u'
        · subst hu
          rw [scanLowSurrogate] at h ⊢
          cases hhex : scanHex gs with
          | error e =>
            rw [hhex] at h
            cases h
          | ok r =>
            obtain ⟨low, gs₁⟩ := r
            rw [hhex] at h
            dsimp only at h
            rcases (partCut_scanHex hp hhex).cases with hx | ⟨p₁, hx, hp₁⟩
            · rw [hx]
              exact .ended
            · rw [hx]
              dsimp only
              split_ifs at h ⊢
              · obtain ⟨rfl, rfl⟩ := Prod.mk.inj (Except.ok.inj h)
                exact .whole hp₁
              · obtain ⟨rfl, rfl⟩ := Prod.mk.inj (Except.ok.inj h)
                exact .whole (.later _ (.later _ hp))
        · rw [scanLowSurrogate_slash_of_ne hu] at h ⊢
          obtain ⟨rfl, rfl⟩ := Prod.mk.inj (Except.ok.inj h)
          exact .whole (.later _ (.later _ hp))
    · rw [scanLowSurrogate_of_ne hg] at h ⊢
      obtain ⟨rfl, rfl⟩ := Prod.mk.inj (Except.ok.inj h)
      exact .whole (.later _ hp)

lemma escaped?_eq_none {c : Char} (h : 0x80 ≤ c.toNat) : escaped? c = none := by
  have hplain : ¬(c = '"' ∨ c = '\\' ∨ c = '/') := by
    rintro (hc | hc | hc) <;> exact ne_of_le h (by decide) hc
  rw [escaped?, if_neg hplain]
  iterate 5 rw [if_neg (ne_of_le h (by decide))]

lemma partCut_scanEscape {c : Option Char} (hp : CutOff p gs) (h : scanEscape gs = .ok (c, rest)) :
    PartCut c rest (scanEscape p) := by
  cases hp with
  | here => exact .ended
  | @inside d hd b bs gs =>
    rw [scanEscape, if_neg (ne_of_le hd (by decide)), escaped?_eq_none hd] at h
    cases h
  | @later g p gs hp =>
    cases g with
    | stray b => cases h
    | char d =>
      rw [scanEscape] at h ⊢
      by_cases hu : d = 'u'
      · rw [if_pos hu] at h ⊢
        cases hhex : scanHex gs with
        | error e =>
          rw [hhex] at h
          cases h
        | ok r =>
          obtain ⟨n, gs₁⟩ := r
          rw [hhex] at h
          dsimp only at h
          rcases (partCut_scanHex hp hhex).cases with hx | ⟨p₁, hx, hp₁⟩
          · rw [hx]
            exact .ended
          · rw [hx]
            dsimp only
            split_ifs at h ⊢
            · exact partCut_scanLowSurrogate hp₁ h
            · obtain ⟨rfl, rfl⟩ := Prod.mk.inj (Except.ok.inj h)
              exact .whole hp₁
            · obtain ⟨rfl, rfl⟩ := Prod.mk.inj (Except.ok.inj h)
              exact .whole hp₁
      · rw [if_neg hu] at h ⊢
        cases hescaped : escaped? d with
        | none =>
          rw [hescaped] at h
          cases h
        | some e =>
          rw [hescaped] at h
          obtain ⟨rfl, rfl⟩ := Prod.mk.inj (Except.ok.inj h)
          exact .whole hp

lemma scanString_slash_error {e : Cause} (h : scanEscape gs = .error e) (acc : List Char)
    (flaw : Flaw) : scanString acc flaw (.char '\\' :: gs) = .error (flaw.break e) := by
  rw [scanString, if_neg (by decide), if_pos rfl]
  split <;> simp_all

lemma scanString_slash_some {d : Char} (h : scanEscape gs = .ok (some d, rest)) (acc : List Char)
    (flaw : Flaw) :
    scanString acc flaw (.char '\\' :: gs) = scanString (d :: acc) flaw rest := by
  rw [scanString, if_neg (by decide), if_pos rfl]
  split <;> simp_all

lemma scanString_slash_none (h : scanEscape gs = .ok (none, rest)) (acc : List Char)
    (flaw : Flaw) :
    scanString acc flaw (.char '\\' :: gs) = scanString acc .surrogate rest := by
  rw [scanString, if_neg (by decide), if_pos rfl]
  split <;> simp_all

/-- A string has a text only if nothing has been wrong with it from the beginning. -/
lemma flaw_eq_none_of_scanString {acc : List Char} {flaw : Flaw} {s : String}
    (h : scanString acc flaw gs = .ok (some s, rest)) : flaw = .none := by
  fun_induction scanString acc flaw gs with
  | case1 => cases h
  | case2 acc flaw b gs ih =>
    have hstray := ih h
    unfold Flaw.addStray at hstray
    split at hstray <;> cases hstray
  | case3 acc flaw gs =>
    obtain ⟨hs, -⟩ := Prod.mk.inj (Except.ok.inj h)
    by_contra hflaw
    rw [if_neg hflaw] at hs
    cases hs
  | case4 => cases h
  | case5 _ _ _ _ _ _ _ ih => exact ih h
  | case6 _ _ _ _ _ _ ih => cases ih h
  | case7 => cases h
  | case8 _ _ _ _ _ _ _ ih => exact ih h

/-- What the scanner of strings makes of a text that is cut off, where `s` and `rest` are what it
makes of the whole text. The end is noticed first, unless half a surrogate pair stands before it. -/
inductive StringCut (s : Option String) (rest : List Glyph) :
    Except Break (Option String × List Glyph) → Prop
  | ended : StringCut s rest (.error .ended)
  | flawed (h : s = none) : StringCut s rest (.error ⟨.ended, .malformed⟩)
  | whole {p : List Glyph} (h : CutOff p rest) : StringCut s rest (.ok (s, p))

lemma stringCut_break {s : Option String} {flaw : Flaw} (h : flaw = .surrogate → s = none) :
    StringCut s rest (.error (flaw.break .ended)) := by
  cases flaw with
  | none => exact .ended
  | stray => exact .ended
  | surrogate => exact .flawed (h rfl)

lemma stringCut_strays {s : Option String} (acc : List Char) {flaw : Flaw}
    (h : flaw = .surrogate → s = none) (bs : List UInt8) :
    StringCut s rest (scanString acc flaw (bs.map .stray)) := by
  induction bs generalizing flaw with
  | nil =>
    rw [List.map_nil, scanString]
    exact stringCut_break h
  | cons b bs ih =>
    rw [List.map_cons, scanString]
    apply ih
    intro hstray
    unfold Flaw.addStray at hstray
    split at hstray
    · exact h ‹_›
    · cases hstray

lemma eq_none_of_surrogate {acc : List Char} {flaw : Flaw} {s : Option String}
    (h : scanString acc flaw gs = .ok (s, rest)) (hflaw : flaw = .surrogate) : s = none := by
  subst hflaw
  cases s with
  | none => rfl
  | some s => cases flaw_eq_none_of_scanString h

lemma stringCut_scanString {acc : List Char} {flaw : Flaw} {s : Option String} (hp : CutOff p gs)
    (h : scanString acc flaw gs = .ok (s, rest)) :
    StringCut s rest (scanString acc flaw p) := by
  have hflaw := eq_none_of_surrogate h
  fun_induction scanString acc flaw gs generalizing p with
  | case1 => cases h
  | case2 acc flaw b gs ih =>
    cases hp with
    | here => exact stringCut_strays acc hflaw []
    | later _ hp =>
      rw [scanString]
      exact ih hp h (eq_none_of_surrogate h)
  | case3 acc flaw gs =>
    cases hp with
    | here => exact stringCut_strays acc hflaw []
    | inside hc => exact absurd hc (by decide)
    | later _ hp =>
      rw [scanString, if_pos rfl]
      obtain ⟨rfl, rfl⟩ := Prod.mk.inj (Except.ok.inj h)
      exact .whole hp
  | case4 => cases h
  | case5 acc flaw gs d rest he _ ih =>
    cases hp with
    | here => exact stringCut_strays acc hflaw []
    | inside hc => exact absurd hc (by decide)
    | later _ hp =>
      rcases (partCut_scanEscape hp he).cases with hx | ⟨p', hx, hp'⟩
      · rw [scanString_slash_error hx]
        exact stringCut_break hflaw
      · rw [scanString_slash_some hx]
        exact ih hp' h hflaw
  | case6 acc flaw gs rest he _ ih =>
    cases hp with
    | here => exact stringCut_strays acc hflaw []
    | inside hc => exact absurd hc (by decide)
    | later _ hp =>
      rcases (partCut_scanEscape hp he).cases with hx | ⟨p', hx, hp'⟩
      · rw [scanString_slash_error hx]
        exact stringCut_break hflaw
      · rw [scanString_slash_none hx]
        exact ih hp' h (eq_none_of_surrogate h)
  | case7 => cases h
  | case8 acc flaw c gs hquote hslash hcontrol ih =>
    cases hp with
    | here => exact stringCut_strays acc hflaw []
    | inside hc b bs => exact stringCut_strays acc hflaw (b :: bs)
    | later _ hp =>
      rw [scanString, if_neg hquote, if_neg hslash, if_neg hcontrol]
      exact ih hp h hflaw

end Strings

section Tokens

variable {p gs rest : List Glyph}

lemma scanWord_cutOff {cs : List Char} (hascii : ∀ c ∈ cs, c.toNat < 0x80) (hp : CutOff p gs)
    (h : scanWord cs gs = .ok rest) :
    scanWord cs p = .error .ended ∨ ∃ p', scanWord cs p = .ok p' ∧ CutOff p' rest := by
  induction cs generalizing p gs with
  | nil =>
    obtain rfl := Except.ok.inj h
    exact .inr ⟨p, rfl, hp⟩
  | cons c cs ih =>
    obtain ⟨hc, hcs⟩ := List.forall_mem_cons.mp hascii
    cases hp with
    | here => exact .inl rfl
    | inside hd =>
      rw [scanWord, if_neg (char_ne hd hc)] at h
      cases h
    | later g hp =>
      rw [scanWord] at h ⊢
      split at h
      · next hg =>
        rw [if_pos hg]
        exact ih hcs hp h
      · cases h

/-- The first token is what is left of the second one where a text is cut off in it. -/
inductive Torn : Token → Token → Prop
  | null : Torn (.broken false .ended) .null
  | bool (b : Bool) : Torn (.broken false .ended) (.bool b)
  | digit (n : Option Number) : Torn (.broken false (missingDigit [])) (.number n)
  | number (m n : Option Number) : Torn (.number m) (.number n)
  | string (s : Option String) : Torn (.broken true .ended) (.string s)
  | flawed : Torn (.broken true ⟨.ended, .malformed⟩) (.string none)

/-- What the scanner of tokens makes of a text that is cut off, where `t` and `rest` are what it
makes of the whole text. -/
inductive TokenCut (t : Token) (rest : List Glyph) : Except Token (Token × List Glyph) → Prop
  | torn {u : Token} (h : Torn u t) : TokenCut t rest (.error u)
  | partly {u : Token} (h : Torn u t) : TokenCut t rest (.ok (u, []))
  | whole {p : List Glyph} (h : CutOff p rest) : TokenCut t rest (.ok (t, p))

lemma tokenCut_ofWord {t u : Token} (htorn : Torn (.broken false .ended) u) {cs : List Char}
    (hascii : ∀ c ∈ cs, c.toNat < 0x80) (hp : CutOff p gs)
    (h : ofWord u (scanWord cs gs) = .ok (t, rest)) :
    TokenCut t rest (ofWord u (scanWord cs p)) := by
  cases hword : scanWord cs gs with
  | error e =>
    rw [hword] at h
    cases h
  | ok gs' =>
    rw [hword] at h
    obtain ⟨rfl, rfl⟩ := Prod.mk.inj (Except.ok.inj h)
    rcases scanWord_cutOff hascii hp hword with hcut | ⟨p', hcut, hp'⟩
    · rw [hcut]
      exact .torn htorn
    · rw [hcut]
      exact .whole hp'

lemma tokenCut_ofNumber {negative : Bool} {t : Token} (hp : CutOff p gs)
    (h : ofNumber (scanNumber negative gs) = .ok (t, rest)) :
    TokenCut t rest (ofNumber (scanNumber negative p)) := by
  rcases hnumber : scanNumber negative gs with b | ⟨n, gs'⟩
  · rw [hnumber] at h
    cases h
  · rw [hnumber] at h
    obtain ⟨rfl, rfl⟩ := Prod.mk.inj (Except.ok.inj h)
    have hcut := numberCut_scanNumber hp hnumber
    generalize scanNumber negative p = x at hcut ⊢
    cases hcut with
    | missing => exact .torn (.digit _)
    | partly m => exact .partly (.number _ _)
    | whole hp' => exact .whole hp'

lemma tokenCut_ofString {t : Token} (hp : CutOff p gs)
    (h : ofString (scanString [] .none gs) = .ok (t, rest)) :
    TokenCut t rest (ofString (scanString [] .none p)) := by
  rcases hstring : scanString [] .none gs with b | ⟨s, gs'⟩
  · rw [hstring] at h
    cases h
  · rw [hstring] at h
    obtain ⟨rfl, rfl⟩ := Prod.mk.inj (Except.ok.inj h)
    have hcut := stringCut_scanString hp hstring
    generalize scanString [] .none p = x at hcut ⊢
    cases hcut with
    | ended => exact .torn (.string _)
    | flawed hs =>
      subst hs
      exact .torn .flawed
    | whole hp' => exact .whole hp'

lemma tokenCut_scanPlain {c : Char} {t : Token} (hp : CutOff p gs)
    (h : scanPlain c gs = .ok (t, rest)) : TokenCut t rest (scanPlain c p) := by
  unfold scanPlain at h ⊢
  split_ifs at h ⊢
  · exact tokenCut_ofNumber hp h
  · exact tokenCut_ofNumber (.later _ hp) h
  · exact tokenCut_ofWord .null (by simp) hp h
  · exact tokenCut_ofWord (.bool true) (by simp) hp h
  · exact tokenCut_ofWord (.bool false) (by simp) hp h

lemma tokenCut_scan {c : Char} {t : Token} (hp : CutOff p gs) (h : scan c gs = .ok (t, rest)) :
    TokenCut t rest (scan c p) := by
  unfold scan at h ⊢
  split at h
  · obtain ⟨rfl, rfl⟩ := Prod.mk.inj (Except.ok.inj h)
    exact .whole hp
  split at h
  · next hquote =>
    rw [if_pos hquote]
    exact tokenCut_ofString hp h
  · next hquote =>
    rw [if_neg hquote]
    exact tokenCut_scanPlain hp h

/-- The first tokens are the second ones, cut off in front of one of them or in it. -/
inductive Shortened : List Token → List Token → Prop
  | here (t : Token) (ts : List Token) : Shortened [] (t :: ts)
  | inside {u t : Token} (h : Torn u t) (ts : List Token) : Shortened [u] (t :: ts)
  | later (t : Token) {us ts : List Token} (h : Shortened us ts) : Shortened (t :: us) (t :: ts)

lemma ofGlyphs_blank {c : Char} (h : isBlank c = true) (gs : List Glyph) :
    ofGlyphs (.char c :: gs) = ofGlyphs gs := by
  rw [ofGlyphs, if_pos h]

lemma ofGlyphs_of_scan_error {c : Char} {u : Token} (hblank : isBlank c = false)
    (hscan : scan c gs = .error u) : ofGlyphs (.char c :: gs) = [u] := by
  rw [ofGlyphs, if_neg (by simp [hblank])]
  split <;> simp_all

/-- The mark of a break is the only token that a scanner gives without a rest. -/
lemma exists_broken_of_scan {c : Char} {u : Token} (h : scan c gs = .error u) :
    ∃ s b, u = .broken s b := by
  have hword {t u : Token} {x : Except Cause (List Glyph)} (h : ofWord t x = .error u) :
      ∃ s b, u = .broken s b := by
    cases x <;> cases h
    exact ⟨_, _, rfl⟩
  have hnumber {u : Token} {x : Except Break (NumberText × List Glyph)}
      (h : ofNumber x = .error u) : ∃ s b, u = .broken s b := by
    cases x <;> cases h
    exact ⟨_, _, rfl⟩
  have hstring {u : Token} {x : Except Break (Option String × List Glyph)}
      (h : ofString x = .error u) : ∃ s b, u = .broken s b := by
    cases x <;> cases h
    exact ⟨_, _, rfl⟩
  unfold scan at h
  split at h
  · cases h
  split at h
  · exact hstring h
  unfold scanPlain at h
  split_ifs at h
  · exact hnumber h
  · exact hnumber h
  · exact hword h
  · exact hword h
  · exact hword h
  · cases h
    exact ⟨_, _, rfl⟩

lemma scan_of_le {c : Char} (h : 0x80 ≤ c.toNat) (gs : List Glyph) :
    scan c gs = .error (.broken false .malformed) := by
  have hdigit : ¬c.isDigit = true := by
    intro hdigit
    have hnone := digit?_eq_none h
    rw [digit?, if_pos hdigit] at hnone
    cases hnone
  have hpunctuation : punctuation? c = none := by
    unfold punctuation?
    split <;> first | rfl | exact absurd h (by decide)
  rw [scan, hpunctuation]
  dsimp only
  rw [if_neg (ne_of_le h (by decide)), scanPlain, if_neg (ne_of_le h (by decide)), if_neg hdigit]
  iterate 3 rw [if_neg (ne_of_le h (by decide))]

lemma isBlank_of_le {c : Char} (h : 0x80 ≤ c.toNat) : isBlank c = false := by
  have hne (d : Char) (hd : d.toNat < 0x80) : (c == d) = false := beq_false_of_ne (ne_of_le h hd)
  rw [isBlank, hne _ (by decide), hne _ (by decide), hne _ (by decide), hne _ (by decide)]
  rfl

/-- A text that is cut off has the tokens of the whole text, cut off. -/
theorem shortened_ofGlyphs (hp : CutOff p gs) (hwhole : ∀ s b, .broken s b ∉ ofGlyphs gs) :
    Shortened (ofGlyphs p) (ofGlyphs gs) := by
  fun_induction ofGlyphs gs generalizing p with
  | case1 => exact absurd rfl hp.ne_nil
  | case2 => exact absurd List.mem_cons_self (hwhole _ _)
  | case3 c gs hblank ih =>
    cases hp with
    | here h =>
      rw [ofGlyphs_blank hblank] at h
      rw [ofGlyphs]
      obtain ⟨t, ts, hts⟩ := List.exists_cons_of_ne_nil h
      rw [hts]
      exact .here t ts
    | inside hc =>
      rw [isBlank_of_le hc] at hblank
      cases hblank
    | later _ hp =>
      rw [ofGlyphs_blank hblank]
      exact ih hp hwhole
  | case4 c gs hblank t rest hscan ih =>
    have hblank : isBlank c = false := Bool.eq_false_iff.mpr hblank
    have hrest : ∀ s b, .broken s b ∉ ofGlyphs rest := by
      intro s b hmem
      exact hwhole s b (List.mem_cons_of_mem _ hmem)
    cases hp with
    | here =>
      rw [ofGlyphs]
      exact .here _ _
    | inside hc =>
      rw [scan_of_le hc] at hscan
      cases hscan
    | @later _ p _ hp =>
      have hcut := tokenCut_scan hp hscan
      cases hx : scan c p with
      | error u =>
        rw [hx] at hcut
        rw [ofGlyphs_of_scan_error hblank hx]
        cases hcut with
        | torn htorn => exact .inside htorn _
      | ok r =>
        rw [hx] at hcut
        rw [ofGlyphs_of_scan hblank hx]
        cases hcut with
        | partly htorn =>
          rw [ofGlyphs]
          exact .inside htorn _
        | whole hp' => exact .later t (ih hp' hrest)
  | case5 c gs hblank u hscan =>
    obtain ⟨s, b, rfl⟩ := exists_broken_of_scan hscan
    exact absurd List.mem_cons_self (hwhole s b)

end Tokens

end SchemaClient.Json.Token
