import SchemaClient.Proofs.NullNormal

/-!
# Null among the alternatives of a type

Read through its unions, however deep they are nested, a type is the list of its alternatives. It
is nullable exactly if `null` is one of them, and admitting `null` puts it behind them if it is
missing. So a type that is made of another one step by step keeps the alternatives of that one in
their order, and has at most one `null` more beside them and beside each array of the steps.
-/

namespace SchemaClient.Code.Ty

/-- What a union takes over from what stands in it holds of every type. -/
@[elab_as_elim]
theorem induction_unions {motive : Ty → Prop} (single : ∀ t, t.isUnion = false → motive t)
    (union : ∀ ts, (∀ t ∈ ts, motive t) → motive (.union ts)) (t : Ty) : motive t := by
  -- Members are types of their own, so nothing is asked of what stands in an object.
  refine @Ty.rec motive (fun _ => True) (fun ts => ∀ t ∈ ts, motive t) (fun _ => True)
    ?_ ?_ ?_ ?_ ?_ ?_ ?_ ?_ ?_ ?_ ?_ t
  · exact fun p => single (.prim p) rfl
  · exact fun name => single (.ref name) rfl
  · exact fun text => single (.literal text) rfl
  · exact fun item _ => single (.array item) rfl
  · exact fun ts ih => union ts ih
  · exact fun ms _ => single (.object ms) rfl
  · exact fun _ _ _ _ _ => trivial
  · exact List.forall_mem_nil _
  · exact fun t ts ht hts => List.forall_mem_cons.mpr ⟨ht, hts⟩
  · exact trivial
  · exact fun _ _ _ _ => trivial

variable {t u : Ty} {as : List Ty}

lemma isNull_iff : t.isNull = true ↔ t = .prim .null := by
  cases t <;> simp [isNull]

instance (ts : List Ty) : Decidable (.prim .null ∈ ts) :=
  decidable_of_iff (ts.any isNull = true) (by simp [isNull_iff])

lemma isNullable_of_not_isUnion (h : t.isUnion = false) : t.isNullable = t.isNull := by
  cases t with
  | union ts => cases h
  | _ => rfl

lemma alternatives_of_not_isUnion (h : t.isUnion = false) : t.alternatives = [t] := by
  cases t with
  | union ts => cases h
  | _ => rfl

lemma alternatives_union (ts : List Ty) : (union ts).alternatives = ts.flatMap alternatives := by
  rw [alternatives]
  induction ts with
  | nil => rfl
  | cons t ts ih => rw [alternativesOfAll, ih, List.flatMap_cons]

lemma alternatives_single (t : Ty) : (union [t]).alternatives = t.alternatives := by
  rw [alternatives_union, List.flatMap_singleton]

lemma isNullable_iff_mem (t : Ty) : t.isNullable = true ↔ .prim .null ∈ t.alternatives := by
  induction t using induction_unions with
  | single t h =>
    rw [isNullable_of_not_isUnion h, alternatives_of_not_isUnion h, isNull_iff,
      List.mem_singleton, eq_comm]
  | union ts ih =>
    rw [isNullable, anyNullable_eq_any, List.any_eq_true, alternatives_union, List.mem_flatMap]
    exact exists_congr fun t => and_congr_right fun ht => ih t ht

lemma alternatives_nullable (t : Ty) :
    t.nullable.alternatives =
      if .prim .null ∈ t.alternatives then t.alternatives
      else t.alternatives ++ [.prim .null] := by
  by_cases h : t.isNullable = true
  · rw [nullable_of_isNullable h, if_pos (t.isNullable_iff_mem.mp h)]
  · rw [if_neg (t.isNullable_iff_mem.not.mp h)]
    unfold nullable
    rw [if_neg h]
    cases t with
    | union ts =>
      rw [alternatives_union, alternatives_union, List.flatMap_append]
      rfl
    | _ => rfl

/-- Alternatives with nothing behind them but perhaps a `null` that they miss. -/
inductive AddsNull (as : List Ty) : List Ty → Prop
  | same : AddsNull as as
  | added (hmiss : .prim .null ∉ as) : AddsNull as (as ++ [.prim .null])

lemma AddsNull.nullable (h : AddsNull as t.alternatives) : AddsNull as t.nullable.alternatives := by
  rw [alternatives_nullable]
  split
  case isTrue => exact h
  case isFalse hmiss =>
    generalize t.alternatives = bs at h hmiss
    cases h with
    | same => exact .added hmiss
    | added _ => exact absurd (List.mem_append_right as List.mem_cons_self) hmiss

/-- A step that makes a type of another one. -/
inductive Step where
  | nullable
  | array
  | single
deriving DecidableEq, Repr

/-- The type that a step makes: with `null` admitted, of arrays, or as the only one of a union. -/
def Step.apply (t : Ty) : Step → Ty
  | .nullable => t.nullable
  | .array => .array t
  | .single => .union [t]

/-- The type that steps make, the first of them taken first. -/
def after (t : Ty) (steps : List Step) : Ty :=
  steps.foldl Step.apply t

/-- The alternatives of `t` stand in a type under a number of arrays, unchanged and in their order,
and nothing but a missing `null` was added behind them or behind one of these arrays. -/
inductive StandsUnder (t : Ty) : (arrays : Nat) → Ty → Prop
  | top {u : Ty} (h : AddsNull t.alternatives u.alternatives) : StandsUnder t 0 u
  | items {arrays : Nat} {v u : Ty} (hv : StandsUnder t arrays v)
    (h : AddsNull [.array v] u.alternatives) : StandsUnder t (arrays + 1) u

namespace StandsUnder

variable {arrays : Nat}

lemma nullable (h : StandsUnder t arrays u) : StandsUnder t arrays u.nullable := by
  cases h with
  | top h => exact .top h.nullable
  | items hv h => exact .items hv h.nullable

lemma single (h : StandsUnder t arrays u) : StandsUnder t arrays (.union [u]) := by
  cases h with
  | top h => exact .top (u.alternatives_single.symm ▸ h)
  | items hv h => exact .items hv (u.alternatives_single.symm ▸ h)

lemma apply (h : StandsUnder t arrays u) (s : Step) :
    StandsUnder t (arrays + [s].count .array) (s.apply u) := by
  cases s with
  | nullable => exact h.nullable
  | array => exact .items h .same
  | single => exact h.single

lemma after (h : StandsUnder t arrays u) (steps : List Step) :
    StandsUnder t (arrays + steps.count .array) (u.after steps) := by
  induction steps generalizing arrays u with
  | nil => exact h
  | cons s steps ih =>
    rw [← List.singleton_append, List.count_append, ← Nat.add_assoc]
    exact ih (h.apply s)

end StandsUnder

lemma after_append (t : Ty) (earlier later : List Step) :
    t.after (earlier ++ later) = (t.after earlier).after later :=
  List.foldl_append

/-- Steps that make no array come to admitting `null` once, or to nothing. -/
lemma alternatives_after {steps : List Step} (h : .array ∉ steps) :
    (t.after steps).alternatives =
      if .nullable ∈ steps then t.nullable.alternatives else t.alternatives := by
  induction steps generalizing t with
  | nil => rfl
  | cons s steps ih =>
    obtain ⟨hs, hsteps⟩ := not_or.mp (List.mem_cons.not.mp h)
    have hrest : (t.after (s :: steps)).alternatives = ((s.apply t).after steps).alternatives := rfl
    rw [hrest, ih hsteps]
    cases s with
    | nullable => rw [if_pos List.mem_cons_self, Step.apply, nullable_nullable, ite_self]
    | array => exact absurd rfl hs
    | single =>
      -- Around `t`, a union of one changes neither the alternatives nor what is added to them.
      rw [Step.apply, alternatives_nullable, alternatives_single, ← alternatives_nullable]
      simp

/-- A type is nullable exactly if `null` is one of its alternatives, and admitting `null` adds it
behind them if it is missing and does nothing otherwise. Any steps keep the alternatives under the
arrays that they make, and those behind the last array come to admitting `null` once, or to
nothing. -/
theorem nullable_adds_null_once (t : Ty) :
    (t.isNullable = true ↔ .prim .null ∈ t.alternatives) ∧
      t.nullable.alternatives =
        (if .prim .null ∈ t.alternatives then t.alternatives
        else t.alternatives ++ [.prim .null]) ∧
      t.nullable.isNullable = true ∧
      t.nullable.nullable = t.nullable ∧
      (∀ steps : List Step, StandsUnder t (steps.count .array) (t.after steps)) ∧
      ∀ earlier later : List Step, .array ∉ later →
        (t.after (earlier ++ later)).alternatives =
          if .nullable ∈ later then (t.after earlier).nullable.alternatives
          else (t.after earlier).alternatives := by
  refine ⟨t.isNullable_iff_mem, t.alternatives_nullable, t.isNullable_nullable,
    t.nullable_nullable, fun steps => ?_, fun earlier later hlater => ?_⟩
  · have hstart : StandsUnder t 0 t := .top .same
    rw [← Nat.zero_add (steps.count .array)]
    exact hstart.after steps
  · rw [after_append, alternatives_after hlater]

theorem nullable_adds_null_once_nestedUnion :
    let t : Ty := .union [.union [], .union [.ref "User", .union [.literal "x"]]]
    let later : List Step := [.single, .nullable, .single, .nullable]
    .array ∉ later ∧
      (t.after later).alternatives = [.ref "User", .literal "x", .prim .null] ∧
      (t.after ([.nullable, .array] ++ later)).alternatives =
        [.array t.nullable, .prim .null] := by
  intro t later
  have hlater : .array ∉ later := by decide
  obtain ⟨-, -, -, -, -, hcollapse⟩ := nullable_adds_null_once t
  refine ⟨hlater, ?_, ?_⟩
  · exact (hcollapse [] later hlater).trans rfl
  · exact (hcollapse [.nullable, .array] later hlater).trans rfl

end SchemaClient.Code.Ty
