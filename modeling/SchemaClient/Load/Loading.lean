import SchemaClient.Load.Source

/-!
# Loading inventories

The items of an inventory are read several at a time. Reads are started in the order of the index,
and a limited number of them is under way at once. They may end in any order, but their items are
delivered in the order of the index, and the first failure in that order ends the loading.
-/

namespace SchemaClient.Load

open SchemaClient.Schema

/-- A read that has been started, with its result once it has ended. -/
structure Flight where
  path : String
  result : Option (Except Failure Item)

/-- Whether a read is still under way. -/
def Flight.isPending (f : Flight) : Bool :=
  f.result.isNone

/-- A state of loading. -/
structure Loading where
  /-- The paths whose reads have not been started, in the order of the index. -/
  waiting : List String
  /-- The reads that have been started and not been delivered, in the order of the index. -/
  flights : List Flight
  /-- The items that have been delivered, in the order of the index. -/
  items : List Item

/-- What has been delivered, and the failure that has ended the loading, if there is one. -/
structure Delivery where
  items : List Item
  failure : Option Failure

namespace Loading

/-- The state in front of all reads. -/
def start (paths : List String) : Loading := ⟨paths, [], []⟩

/-- Ends the read at a position with a result. -/
def settle (i : Nat) (r : Except Failure Item) : List Flight → List Flight
  | [] => []
  | f :: fs =>
    match i with
    | 0 => { f with result := some r } :: fs
    | i + 1 => f :: settle i r fs

/-- The read that ends next: the one at the preferred position if it is under way, and otherwise
the first one. -/
def next (preferred : Nat) (fs : List Flight) : Nat :=
  if fs[preferred]?.any (·.isPending) then preferred else 0

/-- How many steps are left for reads: two for one that is under way, and one for one that has
ended. -/
def weight (fs : List Flight) : Nat :=
  fs.length + fs.countP (·.isPending)

/-- How many steps are left: three for each path that waits, and those for the reads. -/
def remaining (l : Loading) : Nat :=
  3 * l.waiting.length + weight l.flights

theorem weight_cons (f : Flight) (fs : List Flight) :
    weight (f :: fs) = weight fs + if f.isPending then 2 else 1 := by
  rw [weight, weight, List.length_cons, List.countP_cons]
  split <;> omega

theorem weight_started (p : String) (fs : List Flight) :
    weight (fs ++ [⟨p, none⟩]) = weight fs + 2 := by
  simp only [weight, List.length_append, List.length_singleton, List.countP_append,
    List.countP_singleton, Flight.isPending, Option.isNone_none, if_true]
  omega

theorem weight_settle_lt {i : Nat} {r : Except Failure Item} {fs : List Flight}
    (h : fs[i]?.any (·.isPending) = true) : weight (settle i r fs) < weight fs := by
  induction fs generalizing i with
  | nil => simp at h
  | cons f fs ih =>
    cases i with
    | zero =>
      simp only [List.getElem?_cons_zero, Option.any_some] at h
      have hf : f.result = none := by simpa [Flight.isPending] using h
      simp [settle, weight_cons, Flight.isPending, hf]
    | succ i =>
      simp only [List.getElem?_cons_succ] at h
      have := ih h
      rw [settle, weight_cons, weight_cons]
      omega

theorem pending_next (preferred : Nat) {f : Flight} (fs : List Flight) (h : f.result = none) :
    (f :: fs)[next preferred (f :: fs)]?.any (·.isPending) = true := by
  unfold next
  split
  · assumption
  · simp [Flight.isPending, h]

variable {m : Type → Type} [Monad m]

/-- What a turn comes to: the loading is over, or it goes on from a state with fewer steps left. -/
inductive Turn (l : Loading) where
  | done (d : Delivery)
  | next (l' : Loading) (less : l'.remaining < l.remaining)

theorem remaining_start (p : String) (ps : List String) (fs : List Flight) (items : List Item) :
    remaining ⟨ps, fs ++ [⟨p, none⟩], items⟩ < remaining ⟨p :: ps, fs, items⟩ := by
  simp only [remaining, weight_started, List.length_cons]
  omega

theorem remaining_deliver (ps : List String) (p : String) (item : Item) (fs : List Flight)
    (items : List Item) :
    remaining ⟨ps, fs, items ++ [item]⟩ < remaining ⟨ps, ⟨p, some (.ok item)⟩ :: fs, items⟩ := by
  simp only [remaining, weight_cons]
  split <;> omega

theorem remaining_settle (ps : List String) {i : Nat} (r : Except Failure Item) {fs : List Flight}
    (items : List Item) (h : fs[i]?.any (·.isPending) = true) :
    remaining ⟨ps, settle i r fs, items⟩ < remaining ⟨ps, fs, items⟩ :=
  Nat.add_lt_add_left (weight_settle_lt h) _

/-- A turn in which no read is started: what the first read has come to is delivered, or a read
that is under way ends. -/
def receive (fetch : String → m (Except Failure Item)) (prefer : Loading → Nat) :
    (l : Loading) → m (Turn l)
  | ⟨_, [], items⟩ => return .done ⟨items, none⟩
  | ⟨_, ⟨_, some (.error e)⟩ :: _, items⟩ => return .done ⟨items, some e⟩
  | ⟨ps, ⟨p, some (.ok item)⟩ :: fs, items⟩ =>
    return .next ⟨ps, fs, items ++ [item]⟩ (remaining_deliver ps p item fs items)
  | ⟨ps, ⟨p, none⟩ :: fs, items⟩ => do
    let i := next (prefer ⟨ps, ⟨p, none⟩ :: fs, items⟩) (⟨p, none⟩ :: fs)
    let r ← fetch (((⟨p, none⟩ :: fs)[i]?.getD ⟨p, none⟩).path)
    return .next ⟨ps, settle i r (⟨p, none⟩ :: fs), items⟩
      (remaining_settle ps r items (pending_next _ fs rfl))

/-- One turn of a loading. A read is started whenever one waits and fewer than `window` are started
and not delivered; a window of none counts as one of one. -/
def turn (fetch : String → m (Except Failure Item)) (window : Nat) (prefer : Loading → Nat) :
    (l : Loading) → m (Turn l)
  | ⟨p :: ps, fs, items⟩ =>
    if fs.length < max 1 window then
      return .next ⟨ps, fs ++ [⟨p, none⟩], items⟩ (remaining_start p ps fs items)
    else receive fetch prefer ⟨p :: ps, fs, items⟩
  | ⟨[], fs, items⟩ => receive fetch prefer ⟨[], fs, items⟩

/-- Loads until all items are delivered or a failure is. `fetch` reads an item, and `prefer` tells
which of the reads under way ends next. -/
def run (fetch : String → m (Except Failure Item)) (window : Nat) (prefer : Loading → Nat)
    (l : Loading) : m Delivery := do
  match ← turn fetch window prefer l with
  | .done d => return d
  | .next l' _ => run fetch window prefer l'
termination_by l.remaining

/-- Reads the items one after the other in the order of the index, up to the first failure. -/
def inOrder (fetch : String → m (Except Failure Item)) : List String → m Delivery
  | [] => return ⟨[], none⟩
  | p :: ps => do
    match ← fetch p with
    | .error e => return ⟨[], some e⟩
    | .ok item =>
      let d ← inOrder fetch ps
      return { d with items := item :: d.items }

end Loading

/-- What a loading has come to: the items that were delivered, and the inventory or the failure. -/
structure Loaded where
  seen : List Item
  result : Except Failure Inventory

/-- The outcome of a delivery for an index of the given version. -/
def Delivery.toLoaded (version : String) (d : Delivery) : Loaded where
  seen := d.items
  result := match d.failure with
    | some e => .error e
    | none => .ok ⟨version, d.items⟩

/-- Loads the inventory of a source. `prefer` tells which of the reads under way ends next. -/
def load {m : Type → Type} [Monad m] (s : Source m) (window : Nat) (prefer : Loading → Nat) :
    m Loaded := do
  match ← s.fetchIndex with
  | .error e => return ⟨[], .error e⟩
  | .ok index =>
    let d ← Loading.run s.fetchItem window prefer (.start index.items)
    return d.toLoaded index.version

/-- Prefers the read that has been started first. -/
def oldest : Loading → Nat := fun _ => 0

end SchemaClient.Load
