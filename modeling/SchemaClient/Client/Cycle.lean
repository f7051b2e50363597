import SchemaClient.Code.Declaration

/-!
# Cycles of flattened declarations

The members of a base become members of the interface that names it, and a union stands for its
variants, so no declaration may depend on itself. A depth-first search in the order of
declaration finds the first cycle.
-/

namespace SchemaClient.Client

open SchemaClient.Code

/-- Names with the names that they depend on, in the order of declaration. -/
abbrev Dependencies := List (String × List String)

namespace Dependencies

/-- The dependencies of declarations. -/
def ofDeclarations (ds : List Declaration) : Dependencies :=
  ds.map fun d => (d.name, d.dependencies)

/-- What a name depends on: of several declarations the last counts. Nothing is known about a name
that is not declared. -/
def successors? (g : Dependencies) (n : String) : Option (List String) :=
  g.reverse.lookup n

/-- How many declared names are not on a path. -/
def countOff (g : Dependencies) (path : List String) : Nat :=
  g.countP fun p => !path.contains p.1

theorem mem_of_successors? {g : Dependencies} {n : String} {ns : List String}
    (h : g.successors? n = some ns) : (n, ns) ∈ g := by
  have := List.lookup_eq_some_iff.1 h
  obtain ⟨l₁, l₂, h, -⟩ := this
  have hm : (n, ns) ∈ g.reverse := by simp [h]
  simpa using hm

theorem countOff_cons_lt {g : Dependencies} {path : List String} {n : String} {ns : List String}
    (h : g.successors? n = some ns) (hn : ¬path.contains n) :
    g.countOff (n :: path) < g.countOff path := by
  have hm := mem_of_successors? h
  unfold countOff
  clear h
  induction g with
  | nil => simp at hm
  | cons p g ih =>
    have hle : g.countP (fun p => !(n :: path).contains p.1) ≤
        g.countP (fun p => !path.contains p.1) := by
      apply List.countP_mono_left
      intro x _ hx
      simp_all
    by_cases hp : p = (n, ns)
    · subst hp
      rw [List.countP_cons_of_neg (by simp), List.countP_cons_of_pos (by simpa using hn)]
      omega
    · have := ih (by simpa [Ne.symm hp] using hm)
      rw [List.countP_cons, List.countP_cons]
      grind

/-- The cycle that a name closes which already stands on the path, the latest name first. -/
def cycleOn (path : List String) (n : String) : List String :=
  n :: (path.takeWhile (· != n)).reverse ++ [n]

mutual

/-- Searches from a name. `path` leads to it, the latest name first, and `done` holds the names
from which no cycle is reached; the answer is that list after the search, or a cycle. -/
def search (g : Dependencies) (path done : List String) (n : String) :
    Except (List String) (List String) :=
  if done.contains n then .ok done
  else if _hn : path.contains n then .error (cycleOn path n)
  else match _h : g.successors? n with
    | none => .ok done
    | some ns =>
      match searchAll g (n :: path) done ns with
      | .error cycle => .error cycle
      | .ok done => .ok (n :: done)
termination_by (g.countOff path, 0)
decreasing_by exact Prod.Lex.left _ _ (countOff_cons_lt _h _hn)

/-- Searches from names in order. -/
def searchAll (g : Dependencies) (path done : List String) :
    List String → Except (List String) (List String)
  | [] => .ok done
  | n :: ns =>
    match search g path done n with
    | .error cycle => .error cycle
    | .ok done => searchAll g path done ns
termination_by ns => (g.countOff path, ns.length + 1)
decreasing_by
  · exact Prod.Lex.right _ (by simp)
  · exact Prod.Lex.right _ (by simp)

end

end Dependencies

/-- The first cycle among declarations, if there is one. -/
def findCycle? (ds : List Declaration) : Option (List String) :=
  let g := Dependencies.ofDeclarations ds
  match g.searchAll [] [] (g.map (·.1)) with
  | .error cycle => some cycle
  | .ok _ => none

end SchemaClient.Client
