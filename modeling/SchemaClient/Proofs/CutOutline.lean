import SchemaClient.Proofs.CutText

/-!
# Outlines of texts that are cut off

The outline of a text that is cut off is the outline of the whole text up to the cut: every array
and every object around the cut ends where the cut stands, and has no end of its own. What a reader
does with one token is stated once, and what it has read of the whole text follows from it.
-/

namespace SchemaClient.Json.Outline
open Token

/-- The first value is the second one, cut off. Where `P` holds of a cause, the end of the text may
be told by it; a value that is a string without a text is never taken. -/
inductive Cut (P : Cause → Prop) : Outline → Outline → Prop
  | broken {b : Break} {v : Outline} (hs : P b.skipped) (ht : v ≠ .string none → P b.taken) :
      Cut P (.broken b) v
  | arrayEnd {b : Break} (hs : P b.skipped) (ht : P b.taken) (vs more : List Outline)
      (stop : Option Break) : Cut P (.array vs (some b)) (.array (vs ++ more) stop)
  | arrayNumber {m : Option Number} (hm : m = none → P .malformed) (n : Option Number)
      (vs more : List Outline) (stop : Option Break) :
      Cut P (.array (vs ++ [.number m]) (some .ended)) (.array (vs ++ .number n :: more) stop)
  | arrayItem {u v : Outline} (h : Cut P u v) (b : Break) (vs more : List Outline)
      (stop : Option Break) : Cut P (.array (vs ++ [u]) (some b)) (.array (vs ++ v :: more) stop)
  | objectEnd {b : Break} {more : List Entry} (hs : P b.skipped)
      (ht : P b.taken ∨ ∃ v rest, more = (none, v) :: rest) (es : List Entry)
      (stop : Option Break) : Cut P (.object es (some b)) (.object (es ++ more) stop)
  | objectNumber {m : Option Number} (hm : m = none → P .malformed) (n : Option Number)
      (k : Option String) (es more : List Entry) (stop : Option Break) :
      Cut P (.object (es ++ [(k, .number m)]) (some .ended))
        (.object (es ++ (k, .number n) :: more) stop)
  | objectValue {u v : Outline} (h : Cut P u v) (k : Option String) (b : Break)
      (es more : List Entry) (stop : Option Break) :
      Cut P (.object (es ++ [(k, u)]) (some b)) (.object (es ++ (k, v) :: more) stop)

/-- Reading has stopped before the end of the value. -/
def IsOpen : Outline → Prop
  | .broken _ => True
  | .array _ (some _) => True
  | .object _ (some _) => True
  | _ => False

section Reading

/-- Whether a value can be put into a frame. -/
def Frame.IsHole : Frame → Prop
  | .object _ => False
  | _ => True

/-- The frames in which reading can stand, by what is expected next. -/
inductive Ready : Expected → List Frame → Prop
  | value {st : List Frame} (h : ∀ f ∈ st, f.IsHole) : Ready .value st
  | colon {st : List Frame} (h : ∀ f ∈ st, f.IsHole) (es : List Entry) (k : Option String) :
      Ready .colon (.entry es k :: st)
  | item {st : List Frame} (h : ∀ f ∈ st, f.IsHole) (vs : List Outline) :
      Ready .item (.array vs :: st)
  | member {st : List Frame} (h : ∀ f ∈ st, f.IsHole) (es : List Entry) :
      Ready .member (.object es :: st)
  | key {st : List Frame} (h : ∀ f ∈ st, f.IsHole) (es : List Entry) :
      Ready .key (.object es :: st)
  | inArray {st : List Frame} (h : ∀ f ∈ st, f.IsHole) (vs : List Outline) :
      Ready .separator (.array vs :: st)
  | inObject {st : List Frame} (h : ∀ f ∈ st, f.IsHole) (es : List Entry) :
      Ready .separator (.object es :: st)

variable {st : List Frame} {e : Expected} {t : Token} {ts : List Token} {w : Outline}

/-- What a complete value leads to in frames that can take it. -/
inductive Put (w : Outline) : List Frame → Outline ⊕ (List Frame × Expected) → Prop
  | outermost : Put w [] (.inl w)
  | item (vs : List Outline) (st : List Frame) :
      Put w (.array vs :: st) (.inr (.array (w :: vs) :: st, .separator))
  | entry (es : List Entry) (k : Option String) (st : List Frame) :
      Put w (.entry es k :: st) (.inr (.object ((k, w) :: es) :: st, .separator))

/-- What one token leads to. Where reading stops early, it leaves an open value. -/
inductive Turn : List Frame → Expected → Token → Outline ⊕ (List Frame × Expected) → Prop
  | leaf {t : Token} {w : Outline} {e : Expected} {st : List Frame}
      {r : Outline ⊕ (List Frame × Expected)} (he : e.IsStart) (ht : ofToken? t = some w)
      (hr : Put w st r) : Turn st e t r
  | openArray {e : Expected} (he : e.IsStart) (st : List Frame) :
      Turn st e (.opening .square) (.inr (.array [] :: st, .item))
  | openObject {e : Expected} (he : e.IsStart) (st : List Frame) :
      Turn st e (.opening .curly) (.inr (.object [] :: st, .member))
  | closeArray {e : Expected} {st : List Frame} {r : Outline ⊕ (List Frame × Expected)}
      (he : e = .item ∨ e = .separator) (vs : List Outline)
      (hr : Put (.array vs.reverse none) st r) :
      Turn (.array vs :: st) e (.closing .square) r
  | closeObject {e : Expected} {st : List Frame} {r : Outline ⊕ (List Frame × Expected)}
      (he : e = .member ∨ e = .separator) (es : List Entry)
      (hr : Put (.object es.reverse none) st r) :
      Turn (.object es :: st) e (.closing .curly) r
  | nextItem (vs : List Outline) (st : List Frame) :
      Turn (.array vs :: st) .separator .comma (.inr (.array vs :: st, .value))
  | nextEntry (es : List Entry) (st : List Frame) :
      Turn (.object es :: st) .separator .comma (.inr (.object es :: st, .key))
  | key {e : Expected} (he : e = .member ∨ e = .key) (es : List Entry) (k : Option String)
      (st : List Frame) : Turn (.object es :: st) e (.string k) (.inr (.entry es k :: st, .colon))
  | colon (es : List Entry) (k : Option String) (st : List Frame) :
      Turn (.entry es k :: st) .colon .colon (.inr (.entry es k :: st, .value))
  | stop {st : List Frame} {e : Expected} {t : Token} {w : Outline} (hw : IsOpen w) :
      Turn st e t (.inl w)

lemma isOpen_unwind (b : Break) (hw : IsOpen w) (hst : ∀ f ∈ st, f.IsHole) :
    IsOpen (unwind b w st) := by
  induction st generalizing w with
  | nil => exact hw
  | cons f st ih =>
    obtain ⟨hf, hst'⟩ := List.forall_mem_cons.mp hst
    cases f with
    | array vs => exact ih (show IsOpen (.array (w :: vs).reverse (some b)) from trivial) hst'
    | entry es k =>
      exact ih (show IsOpen (.object ((k, w) :: es).reverse (some b)) from trivial) hst'
    | object es => exact hf.elim

lemma put_place (w : Outline) (hst : ∀ f ∈ st, f.IsHole) :
    Put w st (match place w st with
      | some st => .inr (st, .separator)
      | none => .inl w) := by
  cases st with
  | nil => exact .outermost
  | cons f st =>
    cases f with
    | array vs => exact .item vs st
    | entry es k => exact .entry es k st
    | object es => exact (hst _ List.mem_cons_self).elim

lemma isOpen_stopAtValue (b : Break) (hst : ∀ f ∈ st, f.IsHole) : IsOpen (stopAtValue b st) :=
  isOpen_unwind b trivial hst

lemma isOpen_stopInArray (b : Break) (hst : ∀ f ∈ st, f.IsHole) (vs : List Outline) :
    IsOpen (stopInside b (.array vs :: st)) :=
  isOpen_unwind b (show IsOpen (.array vs.reverse (some b)) from trivial) hst

lemma isOpen_stopInObject (b : Break) (hst : ∀ f ∈ st, f.IsHole) (es : List Entry) :
    IsOpen (stopInside b (.object es :: st)) := by
  change IsOpen (unwind b (.object es.reverse (some b)) st)
  exact isOpen_unwind b trivial hst

lemma turn_leaf (he : e.IsStart) (ht : ofToken? t = some w) (hst : ∀ f ∈ st, f.IsHole) :
    Turn st e t (step st e t) := by
  have hstep : step st e t = match place w st with
      | some st => .inr (st, .separator)
      | none => .inl w := by
    rcases he with rfl | rfl <;> cases t <;> cases ht <;> rfl
  rw [hstep]
  exact .leaf he ht (put_place w hst)

lemma turn_start (he : e.IsStart) (hst : ∀ f ∈ st, f.IsHole)
    (ht : ∀ b, t ≠ .closing b) : Turn st e t (step st e t) := by
  cases t with
  | opening b =>
    cases b with
    | square =>
      have hturn := Turn.openArray he st
      rcases he with rfl | rfl <;> exact hturn
    | curly =>
      have hturn := Turn.openObject he st
      rcases he with rfl | rfl <;> exact hturn
  | null => exact turn_leaf he rfl hst
  | bool b => exact turn_leaf he rfl hst
  | number n => exact turn_leaf he rfl hst
  | string s => exact turn_leaf he rfl hst
  | closing b => exact absurd rfl (ht b)
  | colon => rcases he with rfl | rfl <;> exact .stop (isOpen_stopAtValue _ hst)
  | comma => rcases he with rfl | rfl <;> exact .stop (isOpen_stopAtValue _ hst)
  | broken s b => rcases he with rfl | rfl <;> exact .stop (isOpen_stopAtValue _ hst)

lemma turn_step (h : Ready e st) (t : Token) : Turn st e t (step st e t) := by
  cases h with
  | value hst =>
    by_cases hclosing : ∃ b, t = .closing b
    · obtain ⟨b, rfl⟩ := hclosing
      exact .stop (isOpen_stopAtValue _ hst)
    · exact turn_start (.inl rfl) hst (not_exists.mp hclosing)
  | colon hst es k =>
    have hst' := List.forall_mem_cons.mpr ⟨show (Frame.entry es k).IsHole from trivial, hst⟩
    cases t with
    | colon => exact .colon es k _
    | _ => exact .stop (isOpen_stopAtValue _ hst')
  | item hst vs =>
    have hst' := List.forall_mem_cons.mpr ⟨show (Frame.array vs).IsHole from trivial, hst⟩
    by_cases hclosing : ∃ b, t = .closing b
    · obtain ⟨b, rfl⟩ := hclosing
      cases b with
      | square => exact .closeArray (.inl rfl) vs (put_place _ hst)
      | curly => exact .stop (isOpen_stopInArray _ hst vs)
    · exact turn_start (.inr rfl) hst' (not_exists.mp hclosing)
  | member hst es =>
    cases t with
    | string k => exact .key (.inl rfl) es k _
    | closing b =>
      cases b with
      | square => exact .stop (isOpen_stopInObject _ hst es)
      | curly => exact .closeObject (.inl rfl) es (put_place _ hst)
    | _ => exact .stop (isOpen_stopInObject _ hst es)
  | key hst es =>
    cases t with
    | string k => exact .key (.inr rfl) es k _
    | _ => exact .stop (isOpen_stopInObject _ hst es)
  | inArray hst vs =>
    cases t with
    | comma => exact .nextItem vs _
    | closing b =>
      cases b with
      | square => exact .closeArray (.inr rfl) vs (put_place _ hst)
      | curly => exact .stop (isOpen_stopInArray _ hst vs)
    | _ => exact .stop (isOpen_stopInArray _ hst vs)
  | inObject hst es =>
    cases t with
    | comma => exact .nextEntry es _
    | closing b =>
      cases b with
      | square => exact .stop (isOpen_stopInObject _ hst es)
      | curly => exact .closeObject (.inr rfl) es (put_place _ hst)
    | _ => exact .stop (isOpen_stopInObject _ hst es)

lemma Ready.tail {f : Frame} (h : Ready e (f :: st)) : ∀ g ∈ st, g.IsHole := by
  cases h with
  | value hst => exact (List.forall_mem_cons.mp hst).2
  | _ => assumption

lemma Ready.isHole (h : Ready e st) (he : e.IsStart) : ∀ f ∈ st, f.IsHole := by
  cases h with
  | value hst => exact hst
  | item hst vs => exact List.forall_mem_cons.mpr ⟨trivial, hst⟩
  | _ => rcases he with he | he <;> cases he

lemma Put.ready {e' : Expected} {st' : List Frame} (h : Put w st (.inr (st', e')))
    (hst : ∀ f ∈ st, f.IsHole) : Ready e' st' := by
  cases h with
  | item vs st => exact .inArray (List.forall_mem_cons.mp hst).2 _
  | entry es k st => exact .inObject (List.forall_mem_cons.mp hst).2 _

/-- Reading a token leads from frames in which reading can stand to such frames. -/
lemma Ready.step {e' : Expected} {st' : List Frame} (h : Ready e st)
    (hstep : Outline.step st e t = .inr (st', e')) : Ready e' st' := by
  have hturn := turn_step h t
  rw [hstep] at hturn
  cases hturn with
  | leaf he _ hr => exact hr.ready (h.isHole he)
  | openArray he => exact .item (h.isHole he) []
  | openObject he => exact .member (h.isHole he) []
  | closeArray _ vs hr => exact hr.ready h.tail
  | closeObject _ es hr => exact hr.ready h.tail
  | nextItem vs st => exact .value (List.forall_mem_cons.mpr ⟨trivial, h.tail⟩)
  | nextEntry es st => exact .key h.tail es
  | key _ es k st => exact .colon h.tail es k
  | colon es k st => exact .value (List.forall_mem_cons.mpr ⟨trivial, h.tail⟩)

lemma Ready.isOpen_atEnd (h : Ready e st) : IsOpen (atEnd st e) := by
  cases h with
  | value hst => exact isOpen_stopAtValue _ hst
  | colon hst => exact isOpen_stopAtValue _ (List.forall_mem_cons.mpr ⟨trivial, hst⟩)
  | item hst vs => exact isOpen_stopInArray _ hst vs
  | inArray hst vs => exact isOpen_stopInArray _ hst vs
  | member hst es => exact isOpen_stopInObject _ hst es
  | key hst es => exact isOpen_stopInObject _ hst es
  | inObject hst es => exact isOpen_stopInObject _ hst es

lemma read_of_inl (h : Outline.step st e t = .inl w) (ts : List Token) :
    read st e (t :: ts) = (w, ts) := by
  rw [read, h]

lemma read_of_inr {st' : List Frame} {e' : Expected} (h : Outline.step st e t = .inr (st', e'))
    (ts : List Token) : read st e (t :: ts) = read st' e' ts := by
  rw [read, h]

/-- A value that is read to its end and is the last one holds no mark of a break. -/
lemma not_broken_mem (h : Ready e st) (hclosed : ¬IsOpen (read st e ts).1)
    (hrest : (read st e ts).2 = []) (s : Bool) (b : Break) : .broken s b ∉ ts := by
  induction ts generalizing st e with
  | nil => exact List.not_mem_nil
  | cons t ts ih =>
    have hturn := turn_step h t
    cases hstep : Outline.step st e t with
    | inl w =>
      rw [read_of_inl hstep] at hclosed hrest
      rw [hstep] at hturn
      obtain rfl : ts = [] := hrest
      intro hmem
      obtain rfl := (List.mem_singleton.mp hmem).symm
      cases hturn with
      | leaf _ ht => cases ht
      | stop hw => exact hclosed hw
    | inr r =>
      obtain ⟨st', e'⟩ := r
      rw [read_of_inr hstep] at hclosed hrest
      rw [hstep] at hturn
      intro hmem
      rcases List.mem_cons.mp hmem with rfl | hmem
      · cases hturn with
        | leaf _ ht => cases ht
      · exact ih (h.step hstep) hclosed hrest hmem

/-- A value stands at the hole in the frames, in an outermost value. -/
def Within : List Frame → Outline → Outline → Prop
  | [], w, v => w = v
  | .array vs :: st, w, v => ∃ more stop, Within st (.array (vs.reverse ++ w :: more) stop) v
  | .entry es k :: st, w, v =>
    ∃ more stop, Within st (.object (es.reverse ++ (k, w) :: more) stop) v
  | .object _ :: _, _, _ => False

/-- The outermost value goes on from what the frames hold. -/
def GoesOn (v : Outline) : Expected → List Frame → Prop
  | .value, st | .colon, st => ∃ w, Within st w v
  | _, .array vs :: st => ∃ more stop, Within st (.array (vs.reverse ++ more) stop) v
  | _, .object es :: st => ∃ more stop, Within st (.object (es.reverse ++ more) stop) v
  | _, _ => False

variable {P : Cause → Prop} {u v : Outline}

/-- A cut within a value is a cut within every value around it. -/
lemma cut_unwind (h : Cut P u w) (b : Break) (hv : Within st w v) : Cut P (unwind b u st) v := by
  induction st generalizing u w with
  | nil =>
    obtain rfl : w = v := hv
    exact h
  | cons f st ih =>
    cases f with
    | array vs =>
      obtain ⟨more, stop, hv⟩ := hv
      have hcut := Cut.arrayItem h b vs.reverse more stop
      rw [← List.reverse_cons] at hcut
      exact ih hcut hv
    | entry es k =>
      obtain ⟨more, stop, hv⟩ := hv
      have hcut := Cut.objectValue h k b es.reverse more stop
      rw [← List.reverse_cons] at hcut
      exact ih hcut hv
    | object es => exact hv.elim

/-- What is put into frames stands within the outermost value. -/
lemma within_of_put {e' : Expected} {st' : List Frame} (h : Put w st (.inr (st', e')))
    (hv : GoesOn v e' st') : Within st w v := by
  cases h with
  | item vs st =>
    obtain ⟨more, stop, hv⟩ := hv
    refine ⟨more, stop, ?_⟩
    rwa [List.reverse_cons, List.append_assoc] at hv
  | entry es k st =>
    obtain ⟨more, stop, hv⟩ := hv
    refine ⟨more, stop, ?_⟩
    rwa [List.reverse_cons, List.append_assoc] at hv

lemma goesOn_of_within (h : Ready e st) (he : e.IsStart) (hv : Within st w v) : GoesOn v e st := by
  cases h with
  | value hst => exact ⟨w, hv⟩
  | item hst vs =>
    obtain ⟨more, stop, hv⟩ := hv
    exact ⟨w :: more, stop, hv⟩
  | _ => rcases he with he | he <;> cases he

lemma goesOn_array {vs : List Outline} (he : e = .item ∨ e = .separator)
    (hv : Within st (.array vs.reverse none) v) : GoesOn v e (.array vs :: st) := by
  rw [← List.append_nil vs.reverse] at hv
  rcases he with rfl | rfl <;> exact ⟨[], none, hv⟩

lemma goesOn_object {es : List Entry} (he : e = .member ∨ e = .separator)
    (hv : Within st (.object es.reverse none) v) : GoesOn v e (.object es :: st) := by
  rw [← List.append_nil es.reverse] at hv
  rcases he with rfl | rfl <;> exact ⟨[], none, hv⟩

lemma goesOn_of_last (h : Ready e st) (hturn : Turn st e t (.inl v)) (hclosed : ¬IsOpen v) :
    GoesOn v e st := by
  cases hturn with
  | leaf he _ hr =>
    cases hr
    exact goesOn_of_within h he rfl
  | closeArray he vs hr =>
    cases hr
    exact goesOn_array he rfl
  | closeObject he es hr =>
    cases hr
    exact goesOn_object he rfl
  | stop hw => exact absurd hw hclosed

lemma goesOn_of_next {e' : Expected} {st' : List Frame} (h : Ready e st)
    (hturn : Turn st e t (.inr (st', e'))) (hv : GoesOn v e' st') : GoesOn v e st := by
  cases hturn with
  | leaf he _ hr => exact goesOn_of_within h he (within_of_put hr hv)
  | openArray he =>
    obtain ⟨more, stop, hv⟩ := hv
    exact goesOn_of_within h he hv
  | openObject he =>
    obtain ⟨more, stop, hv⟩ := hv
    exact goesOn_of_within h he hv
  | closeArray he vs hr => exact goesOn_array he (within_of_put hr hv)
  | closeObject he es hr => exact goesOn_object he (within_of_put hr hv)
  | nextItem vs st =>
    obtain ⟨w, more, stop, hv⟩ := hv
    exact ⟨w :: more, stop, hv⟩
  | nextEntry es st => exact hv
  | key he es k st =>
    obtain ⟨w, more, stop, hv⟩ := hv
    rcases he with rfl | rfl <;> exact ⟨(k, w) :: more, stop, hv⟩
  | colon es k st => exact hv

/-- A value that is read to its end goes on from what had been read of it at any time. -/
lemma goesOn_read (h : Ready e st) (hclosed : ¬IsOpen (read st e ts).1) :
    GoesOn (read st e ts).1 e st := by
  induction ts generalizing st e with
  | nil => exact absurd h.isOpen_atEnd hclosed
  | cons t ts ih =>
    have hturn := turn_step h t
    cases hstep : Outline.step st e t with
    | inl w =>
      rw [read_of_inl hstep] at hclosed ⊢
      rw [hstep] at hturn
      exact goesOn_of_last h hturn hclosed
    | inr r =>
      obtain ⟨st', e'⟩ := r
      rw [read_of_inr hstep] at hclosed ⊢
      rw [hstep] at hturn
      exact goesOn_of_next h hturn (ih (h.step hstep) hclosed)

lemma cut_stopInArray {b : Break} {vs more : List Outline} {stop : Option Break}
    (hs : P b.skipped) (ht : P b.taken) (hv : Within st (.array (vs.reverse ++ more) stop) v) :
    Cut P (stopInside b (.array vs :: st)) v :=
  cut_unwind (.arrayEnd hs ht vs.reverse more stop) b hv

lemma cut_stopInObject {b : Break} {es more : List Entry} {stop : Option Break}
    (hs : P b.skipped) (ht : P b.taken ∨ ∃ v rest, more = (none, v) :: rest)
    (hv : Within st (.object (es.reverse ++ more) stop) v) :
    Cut P (stopInside b (.object es :: st)) v := by
  change Cut P (unwind b (.object es.reverse (some b)) st) v
  exact cut_unwind (.objectEnd hs ht es.reverse stop) b hv

/-- The end of the text is a cut. -/
lemma cut_atEnd (hended : P .ended) (h : Ready e st) (hv : GoesOn v e st) :
    Cut P (atEnd st e) v := by
  cases h with
  | value hst =>
    obtain ⟨w, hv⟩ := hv
    exact cut_unwind (.broken hended fun _ => hended) _ hv
  | colon hst es k =>
    obtain ⟨w, hv⟩ := hv
    exact cut_unwind (.broken hended fun _ => hended) _ hv
  | item hst vs =>
    obtain ⟨more, stop, hv⟩ := hv
    exact cut_stopInArray hended hended hv
  | inArray hst vs =>
    obtain ⟨more, stop, hv⟩ := hv
    exact cut_stopInArray hended hended hv
  | member hst es =>
    obtain ⟨more, stop, hv⟩ := hv
    exact cut_stopInObject hended (.inl hended) hv
  | key hst es =>
    obtain ⟨more, stop, hv⟩ := hv
    exact cut_stopInObject hended (.inl hended) hv
  | inObject hst es =>
    obtain ⟨more, stop, hv⟩ := hv
    exact cut_stopInObject hended (.inl hended) hv

/-- The causes that the last token of a text that is cut off may give. A number that misses a digit
or is out of range so far is no JSON to some readers; everywhere else the text ends. -/
def Tells (us : List Token) (c : Cause) : Prop :=
  c = .ended ∨ c = .malformed ∧
    (us.getLast? = some (.broken false (missingDigit [])) ∨ us.getLast? = some (.number none))

lemma Tells.cons {us : List Token} {c : Cause} (h : Tells us c) (t : Token) :
    Tells (t :: us) c := by
  rcases h with rfl | ⟨rfl, hlast⟩
  · exact .inl rfl
  · have hne : us ≠ [] := by
      rintro rfl
      rcases hlast with hlast | hlast <;> cases hlast
    refine .inr ⟨rfl, ?_⟩
    rwa [List.getLast?_cons_of_ne_nil hne]

/-- Where a token is torn, the value that it would have been is broken off or another number. -/
lemma cut_of_torn {t' : Token} (htorn : Torn t' t) (hP : ∀ c, Tells [t'] c → P c)
    (ht : ofToken? t = some w) :
    (∃ m n, t' = .number m ∧ w = .number n ∧ (m = none → P .malformed)) ∨
      ∃ s b, t' = .broken s b ∧ Cut P (.broken b) w := by
  have hended : P .ended := hP _ (.inl rfl)
  cases htorn with
  | null => exact .inr ⟨_, _, rfl, .broken hended fun _ => hended⟩
  | bool b => exact .inr ⟨_, _, rfl, .broken hended fun _ => hended⟩
  | digit n =>
    have hmalformed : P .malformed := hP _ (.inr ⟨rfl, .inl rfl⟩)
    exact .inr ⟨_, _, rfl, .broken hmalformed fun _ => hended⟩
  | number m n =>
    cases ht
    refine .inl ⟨m, n, rfl, rfl, ?_⟩
    rintro rfl
    exact hP _ (.inr ⟨rfl, .inr rfl⟩)
  | string s => exact .inr ⟨_, _, rfl, .broken hended fun _ => hended⟩
  | flawed =>
    cases ht
    exact .inr ⟨_, _, rfl, .broken hended fun hne => absurd rfl hne⟩

/-- A number after which the text ends need not be the one that stands there in the whole text. -/
lemma cut_putNumber {m n : Option Number} (hm : m = none → P .malformed)
    (hst : ∀ f ∈ st, f.IsHole) (hv : Within st (.number n) v) (hnumber : ∀ n, v ≠ .number n) :
    Cut P (settle (.number m) st []).1 v := by
  cases st with
  | nil => exact absurd hv.symm (hnumber n)
  | cons f st =>
    cases f with
    | array vs =>
      obtain ⟨more, stop, hv⟩ := hv
      have hcut := Cut.arrayNumber hm n vs.reverse more stop
      rw [← List.reverse_cons] at hcut
      exact cut_unwind hcut .ended hv
    | entry es k =>
      obtain ⟨more, stop, hv⟩ := hv
      have hcut := Cut.objectNumber hm n k es.reverse more stop
      rw [← List.reverse_cons] at hcut
      exact cut_unwind hcut .ended hv
    | object es => exact (hst _ List.mem_cons_self).elim

lemma cut_tornValue {t' : Token} (h : Ready e st) (he : e.IsStart) (ht : ofToken? t = some w)
    (htorn : Torn t' t) (hP : ∀ c, Tells [t'] c → P c) (hv : Within st w v)
    (hnumber : ∀ n, v ≠ .number n) : Cut P (read st e [t']).1 v := by
  rcases cut_of_torn htorn hP ht with ⟨m, n, rfl, rfl, hm⟩ | ⟨s, b, rfl, hcut⟩
  · rw [read_leaf rfl he]
    exact cut_putNumber hm (h.isHole he) hv hnumber
  · have hread : read st e [.broken s b] = (stopAtValue b st, []) := by
      rcases he with rfl | rfl <;> rfl
    rw [hread]
    exact cut_unwind hcut b hv

lemma cut_tornKey {t' : Token} {es : List Entry} {k : Option String} (he : e = .member ∨ e = .key)
    (htorn : Torn t' (.string k)) (hended : P .ended)
    (hv : GoesOn v .colon (.entry es k :: st)) :
    Cut P (read (.object es :: st) e [t']).1 v := by
  obtain ⟨w, more, stop, hv⟩ := hv
  have hread (b : Break) : read (.object es :: st) e [.broken true b] =
      (stopInside b (.object es :: st), []) := by
    rcases he with rfl | rfl <;> rfl
  cases htorn with
  | string =>
    rw [hread]
    exact cut_stopInObject hended (.inl hended) hv
  | flawed =>
    rw [hread]
    exact cut_stopInObject hended (.inr ⟨w, more, rfl⟩) hv

lemma cut_torn {t' : Token} (h : Ready e st) (htorn : Torn t' t) (hP : ∀ c, Tells [t'] c → P c)
    (hclosed : ¬IsOpen (read st e (t :: ts)).1)
    (hnumber : ∀ n, (read st e (t :: ts)).1 ≠ .number n) :
    Cut P (read st e [t']).1 (read st e (t :: ts)).1 := by
  have hturn := turn_step h t
  cases hstep : Outline.step st e t with
  | inl v =>
    rw [read_of_inl hstep] at hclosed hnumber ⊢
    rw [hstep] at hturn
    cases hturn with
    | leaf he ht hr =>
      cases hr
      exact cut_tornValue h he ht htorn hP rfl hnumber
    | stop hw => exact absurd hw hclosed
    | closeArray => cases htorn
    | closeObject => cases htorn
  | inr r =>
    obtain ⟨st', e'⟩ := r
    rw [read_of_inr hstep] at hclosed hnumber ⊢
    rw [hstep] at hturn
    have hnext := goesOn_read (h.step hstep) hclosed
    cases hturn with
    | leaf he ht hr => exact cut_tornValue h he ht htorn hP (within_of_put hr hnext) hnumber
    | key he es k st => exact cut_tornKey he htorn (hP _ (.inl rfl)) hnext
    | _ => cases htorn

/-- A text that is cut off has the outline of the whole text, cut off. -/
theorem cut_read {us : List Token} (h : Ready e st) (hus : Shortened us ts)
    (hP : ∀ c, Tells us c → P c) (hclosed : ¬IsOpen (read st e ts).1)
    (hrest : (read st e ts).2 = []) (hnumber : ∀ n, (read st e ts).1 ≠ .number n) :
    Cut P (read st e us).1 (read st e ts).1 := by
  induction hus generalizing st e with
  | here t ts => exact cut_atEnd (hP _ (.inl rfl)) h (goesOn_read h hclosed)
  | inside htorn ts => exact cut_torn h htorn hP hclosed hnumber
  | @later t us ts hus ih =>
    cases hstep : Outline.step st e t with
    | inl w =>
      rw [read_of_inl hstep] at hrest
      obtain rfl : ts = [] := hrest
      cases hus
    | inr r =>
      obtain ⟨st', e'⟩ := r
      rw [read_of_inr hstep] at hclosed hrest hnumber ⊢
      rw [read_of_inr hstep]
      exact ih (h.step hstep) (fun c hc => hP c (hc.cons t)) hclosed hrest hnumber

end Reading

end SchemaClient.Json.Outline
