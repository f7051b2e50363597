import SchemaClient.Command.Generate
import SchemaClient.Proofs.ConcurrentLoading
import SchemaClient.Proofs.FileFrame

/-!
# What programs leave alone

What a program does to the files is a relation between the trees before and after it. If steps
compose to the relation, it holds of a whole program when it holds of the operations in it: reading
changes nothing, on the disk or in the web, and creating directories adds nothing else.
-/

namespace SchemaClient.Command
open SchemaClient.Store SchemaClient.Text SchemaClient.Load

/-- A relation between the trees before and after a program that steps compose to. -/
structure IsFrame (R : Tree → Tree → Prop) : Prop where
  refl : ∀ t, R t t
  trans : ∀ {t t₁ t₂}, R t t₁ → R t₁ t₂ → R t t₂

/-- Whether a program changes a tree only as a relation allows. -/
def Stays {α : Type} (R : Tree → Tree → Prop) (x : StateM Tree α) : Prop :=
  ∀ t, R t (x.run t).2

lemma isFrame_eq : IsFrame Eq := ⟨fun _ => rfl, Eq.trans⟩

lemma isFrame_addsDirectories : IsFrame Tree.AddsDirectories :=
  ⟨Tree.AddsDirectories.refl, Tree.AddsDirectories.trans⟩

lemma isFrame_isProper : IsFrame fun t t' => t.IsProper → t'.IsProper :=
  ⟨fun _ => id, fun h h' => h' ∘ h⟩

section Frames

variable {R : Tree → Tree → Prop} {α β : Type}

lemma Stays.of_eq (hR : IsFrame R) {x : StateM Tree α} (hx : Stays Eq x) : Stays R x := by
  intro t
  rw [← hx t]
  exact hR.refl t

lemma IsFrame.pure (hR : IsFrame R) (a : α) : Stays R (pure a : StateM Tree α) :=
  hR.refl

lemma IsFrame.bind (hR : IsFrame R) {x : StateM Tree α} {f : α → StateM Tree β}
    (hx : Stays R x) (hf : ∀ a, Stays R (f a)) : Stays R (x >>= f) :=
  fun t => hR.trans (hx t) (hf _ _)

/-- The end of a run that goes on with what it has come to. -/
lemma run_bind_of_ok {x : Run (StateM Tree) α} {f : α → Run (StateM Tree) β} {a : α} {t t' : Tree}
    (h : x.run.run t = (.ok a, t')) : (x >>= f).run.run t = (f a).run.run t' := by
  rw [ExceptT.run_bind, Loading.run_bind, h]

lemma run_bind_of_error {x : Run (StateM Tree) α} {f : α → Run (StateM Tree) β} {e : Error}
    {t t' : Tree} (h : x.run.run t = (.error e, t')) :
    (x >>= f).run.run t = (.error e, t') := by
  rw [ExceptT.run_bind, Loading.run_bind, h]
  rfl

lemma IsFrame.bindRun (hR : IsFrame R) {x : Run (StateM Tree) α} {f : α → Run (StateM Tree) β}
    (hx : Stays R x.run) (hf : ∀ a, Stays R (f a).run) : Stays R (x >>= f).run := by
  rw [ExceptT.run_bind]
  apply hR.bind hx
  intro r
  cases r with
  | error e => exact hR.refl
  | ok a => exact hf a

lemma during_run (context : String) (x : Run (StateM Tree) α) (t : Tree) :
    (during context x).run.run t =
      ((x.run.run t).1.mapError (·.within context), (x.run.run t).2) :=
  rfl

lemma lift_run (x : StateM Tree α) (t : Tree) :
    (liftM x : Run (StateM Tree) α).run.run t = (.ok (x.run t).1, (x.run t).2) :=
  rfl

lemma orFail_run (x : StateM Tree (Except Failure α)) (t : Tree) :
    (orFail x).run.run t = ((x.run t).1.mapError Error.ofFailure, (x.run t).2) := by
  rw [orFail, run_bind_of_ok (lift_run x t)]
  cases (x.run t).1 <;> rfl

lemma orDiskError_run (x : StateM Tree (Except Problem α)) (t : Tree) :
    (orDiskError x).run.run t =
      ((x.run t).1.mapError fun p => ⟨[], .disk p⟩, (x.run t).2) := by
  rw [orDiskError, run_bind_of_ok (lift_run x t)]
  cases (x.run t).1 <;> rfl

/-- An activity ends where its operation ends, and with its result unless that is an error. -/
lemma during_cases {ε : Type} (context : String) {x : Run (StateM Tree) α} {r : Except ε α}
    {f : ε → Error} {t t' : Tree} (h : x.run.run t = (r.mapError f, t')) :
    (∃ e, (during context x).run.run t = (.error e, t')) ∨
      ∃ a, r = .ok a ∧ (during context x).run.run t = (.ok a, t') := by
  rw [during_run, h]
  cases r with
  | error e => exact .inl ⟨_, rfl⟩
  | ok a => exact .inr ⟨a, rfl, rfl⟩

lemma Stays.lift {x : StateM Tree α} (hx : Stays R x) :
    Stays R (liftM x : Run (StateM Tree) α).run :=
  hx

lemma Stays.during {x : Run (StateM Tree) α} (hx : Stays R x.run) (context : String) :
    Stays R (during context x).run := by
  intro t
  rw [during_run]
  exact hx t

lemma Stays.orFail {x : StateM Tree (Except Failure α)} (hx : Stays R x) :
    Stays R (orFail x).run := by
  intro t
  rw [orFail_run]
  exact hx t

lemma Stays.orDiskError {x : StateM Tree (Except Problem α)} (hx : Stays R x) :
    Stays R (orDiskError x).run := by
  intro t
  rw [orDiskError_run]
  exact hx t

/-- Programs that only read end where they have begun. -/
lemma Stays.run_cases {x : Run (StateM Tree) α} (hx : Stays Eq x.run) (t : Tree) :
    (∃ e, x.run.run t = (.error e, t)) ∨ ∃ a, x.run.run t = (.ok a, t) := by
  have ht := hx t
  match h : x.run.run t with
  | (.error e, t') =>
    rw [h] at ht
    exact .inl ⟨e, by rw [ht]⟩
  | (.ok a, t') =>
    rw [h] at ht
    exact .inr ⟨a, by rw [ht]⟩

end Frames

section Reading

lemma stays_read (path : String) : Stays Eq (Disk.read path : StateM Tree _) := fun _ => rfl

lemma stays_isThere (path : String) : Stays Eq (Disk.isThere path : StateM Tree _) := fun _ => rfl

lemma stays_isDirectory (path : String) : Stays Eq (Disk.isDirectory path : StateM Tree _) :=
  fun _ => rfl

lemma stays_readConfig (path : String) : Stays Eq (readConfig path : StateM Tree _) := by
  apply isFrame_eq.bind (stays_read path)
  intro r
  cases r with
  | error p => exact isFrame_eq.pure _
  | ok content =>
    dsimp only
    split
    · exact isFrame_eq.pure _
    · exact isFrame_eq.pure _

lemma stays_loadConfig (s : Session (StateM Tree)) (path : Option String) :
    Stays Eq (loadConfig s path).run := by
  apply Stays.during
  apply Stays.orFail
  unfold readConfigOrDefault
  split
  · exact stays_readConfig _
  · apply isFrame_eq.bind (stays_isThere _)
    intro isThere
    split
    · exact stays_readConfig _
    · exact isFrame_eq.pure _
  · exact isFrame_eq.pure _

section Fetching

variable {fetch : String → StateM Tree (Except Failure Schema.Item)}
  (hfetch : ∀ p, Stays Eq (fetch p)) (window : Nat) (prefer : Loading → Nat) (l : Loading)
include hfetch

lemma stays_receive : Stays Eq (Loading.receive fetch prefer l) := by
  unfold Loading.receive
  split
  · exact isFrame_eq.pure _
  · exact isFrame_eq.pure _
  · exact isFrame_eq.pure _
  · exact isFrame_eq.bind (hfetch _) fun _ => isFrame_eq.pure _

lemma stays_turn : Stays Eq (Loading.turn fetch window prefer l) := by
  unfold Loading.turn
  split
  · split
    · exact isFrame_eq.pure _
    · exact stays_receive hfetch prefer _
  · exact stays_receive hfetch prefer _

/-- Loading reads nothing but the documents. -/
lemma stays_run : Stays Eq (Loading.run fetch window prefer l) := by
  induction l using Loading.run.induct with
  | case1 l ih =>
    rw [Loading.run]
    apply isFrame_eq.bind (stays_turn hfetch window prefer l)
    intro next
    cases next with
    | done d => exact isFrame_eq.pure _
    | next l' less => exact ih l' less

end Fetching

end Reading

section Web

/-- A client for the web that changes no file. What it answers depends on the request and on the
files alone. -/
structure LeavesFiles (web : Web (StateM Tree)) : Prop where
  prepare : ∀ agent, Stays Eq (web.prepare agent)
  get : ∀ agent address, Stays Eq (web.get agent address)

lemma leavesFiles_offline : LeavesFiles (Web.offline : Web (StateM Tree)) where
  prepare _ := isFrame_eq.pure _
  get _ _ := isFrame_eq.pure _

section Ready

variable [Web (StateM Tree)] {argument : String} {c : Config} {t t' : Tree}

lemma loadInventory_of_unready {f : Failure}
    (h : ((Root.ofArgument argument).prepare (agentOf c) : StateM Tree _).run t =
      (.error f, t')) :
    (loadInventory argument c : Run (StateM Tree) _).run.run t = (.error (.ofFailure f), t') :=
  run_bind_of_error ((orFail_run _ _).trans (by rw [h]; rfl))

lemma loadInventory_of_ready {l : Loaded} {u : Tree}
    (h : ((Root.ofArgument argument).prepare (agentOf c) : StateM Tree _).run t = (.ok (), t'))
    (hload : (load (.ofRoot (.ofArgument argument) (agentOf c)) c.fetch.maxConcurrentRequests
      oldest : StateM Tree _).run t' = (l, u)) :
    (loadInventory argument c : Run (StateM Tree) _).run.run t =
      (l.result.mapError fun f =>
        (Error.ofFailure f).within ("failed to load inventory from " ++ argument), u) := by
  have hready : (orFail ((Root.ofArgument argument).prepare (agentOf c) : StateM Tree _)).run.run
    t = (.ok (), t') := (orFail_run _ _).trans (by rw [h]; rfl)
  rw [loadInventory, run_bind_of_ok hready, during_run, orFail_run, Loading.run_bind, hload]
  obtain ⟨seen, result⟩ := l
  cases result <;> rfl

end Ready

variable [web : Web (StateM Tree)] (hweb : LeavesFiles web) (agent : Agent)
include hweb

lemma stays_webRead (address : String) : Stays Eq (Web.read agent address : StateM Tree _) := by
  apply isFrame_eq.bind (hweb.get agent address)
  intro r
  cases r with
  | error e => exact isFrame_eq.pure _
  | ok r => exact isFrame_eq.pure _

lemma stays_prepare (root : Root) : Stays Eq (root.prepare agent : StateM Tree _) := by
  cases root with
  | web address => exact isFrame_eq.bind (hweb.prepare agent) fun _ => isFrame_eq.pure _
  | directory root => exact isFrame_eq.pure _

lemma stays_fetch {β : Type} (root : Root) (decode : List Glyph → Except Json.Cause β)
    (path : String) :
    Stays Eq ((Source.ofRoot root agent : Source (StateM Tree)).fetch decode path) := by
  apply isFrame_eq.bind
  · cases root with
    | web address =>
      exact isFrame_eq.bind (stays_webRead hweb agent _) fun _ => isFrame_eq.pure _
    | directory root => exact isFrame_eq.bind (stays_read _) fun _ => isFrame_eq.pure _
  · intro r
    cases r with
    | error e => exact isFrame_eq.pure _
    | ok c => exact isFrame_eq.pure _

lemma stays_load (root : Root) (window : Nat) (prefer : Loading → Nat) :
    Stays Eq (load (.ofRoot root agent) window prefer : StateM Tree _) := by
  apply isFrame_eq.bind (stays_fetch hweb agent _ _ _)
  intro r
  cases r with
  | error e => exact isFrame_eq.pure _
  | ok index =>
    apply isFrame_eq.bind
    · exact stays_run (fun p => stays_fetch hweb agent _ _ p) _ _ _
    · exact fun _ => isFrame_eq.pure _

lemma stays_loadInventory (argument : String) (c : Config) :
    Stays Eq (loadInventory argument c : Run (StateM Tree) _).run := by
  apply isFrame_eq.bindRun (stays_prepare hweb (agentOf c) _).orFail
  intro _
  apply Stays.during
  apply Stays.orFail
  exact isFrame_eq.bind (stays_load hweb (agentOf c) _ _ _) fun _ => isFrame_eq.pure _

end Web

section Writing

variable {R : Tree → Tree → Prop}

lemma update_run_ok {f : Tree → Except Problem Tree} {t t' : Tree} (h : f t = .ok t') :
    (Tree.update f).run t = (.ok (), t') := by
  simp only [Tree.update, StateT.run, h]

lemma update_run_error {f : Tree → Except Problem Tree} {t : Tree} {p : Problem}
    (h : f t = .error p) : (Tree.update f).run t = (.error p, t) := by
  simp only [Tree.update, StateT.run, h]

lemma stays_update (hR : IsFrame R) {f : Tree → Except Problem Tree}
    (hf : ∀ t t', f t = .ok t' → R t t') : Stays R (Tree.update f) := by
  intro t
  match h : f t with
  | .ok t' =>
    rw [update_run_ok h]
    exact hf t t' h
  | .error p =>
    rw [update_run_error h]
    exact hR.refl t

variable (hR : IsFrame R)
  (hcreate : ∀ (path : String) (t t' : Tree), t.createDirectory path = .ok t' → R t t')
include hR hcreate

lemma stays_createDirectory (path : String) :
    Stays R (Disk.createDirectory path : StateM Tree _) :=
  stays_update hR (hcreate path)

lemma stays_ensureDirectory (path : String) :
    Stays R (Disk.ensureDirectory path : StateM Tree _) := by
  apply hR.bind (stays_createDirectory hR hcreate path)
  intro r
  split
  · exact hR.pure _
  · apply hR.bind ((stays_isDirectory path).of_eq hR)
    intro isDirectory
    split
    · exact hR.pure _
    · exact hR.pure _

/-- Creating a directory with those above it is a row of single creations. -/
lemma stays_createAllUpTo (fuel : Nat) (path : String) :
    Stays R (Disk.createAllUpTo fuel path : StateM Tree _) := by
  induction fuel generalizing path with
  | zero => exact hR.pure _
  | succ fuel ih =>
    unfold Disk.createAllUpTo
    split
    · exact hR.pure _
    · apply hR.bind (stays_createDirectory hR hcreate path)
      intro r
      split
      · exact hR.pure _
      · split
        · exact hR.pure _
        · next parent _ =>
          apply hR.bind (ih parent)
          intro r
          split
          · exact stays_ensureDirectory hR hcreate path
          · exact hR.pure _
      · apply hR.bind ((stays_isDirectory path).of_eq hR)
        intro isDirectory
        split
        · exact hR.pure _
        · exact hR.pure _

end Writing

lemma addsDirectories_createAll (path : String) :
    Stays Tree.AddsDirectories (Disk.createAll path : StateM Tree _) :=
  stays_createAllUpTo isFrame_addsDirectories
    (fun _ _ _ h => Tree.addsDirectories_of_createDirectory h) _ path

lemma isProper_createAll (path : String) :
    Stays (fun t t' => t.IsProper → t'.IsProper) (Disk.createAll path : StateM Tree _) :=
  stays_createAllUpTo isFrame_isProper (fun _ _ _ h ht => ht.createDirectory h) _ path

lemma orDiskError_update_cases (context : String) (f : Tree → Except Problem Tree) (t : Tree) :
    (∃ e, (during context (orDiskError (Tree.update f))).run.run t = (.error e, t)) ∨
      ∃ t', f t = .ok t' ∧
        (during context (orDiskError (Tree.update f))).run.run t = (.ok (), t') := by
  rw [during_run, orDiskError_run]
  match h : f t with
  | .error p =>
    rw [update_run_error h]
    exact .inl ⟨_, rfl⟩
  | .ok t' =>
    rw [update_run_ok h]
    exact .inr ⟨t', rfl, rfl⟩

lemma writeAtOnce_cases (directory path text : String) (t : Tree) :
    (∃ e t', (writeAtOnce directory path text : Run (StateM Tree) _).run.run t = (.error e, t') ∧
      t.AddsDirectories t') ∨
    ∃ t₁ t', (writeAtOnce directory path text : Run (StateM Tree) _).run.run t = (.ok (), t') ∧
      t.AddsDirectories t₁ ∧ t₁.write path (Glyph.ofString text) = .ok t' := by
  have hadds := addsDirectories_createAll directory t
  unfold writeAtOnce
  rcases during_cases ("failed to create " ++ directory)
    (orDiskError_run (Disk.createAll directory) t) with ⟨e, h⟩ | ⟨_, _, h⟩
  · exact .inl ⟨e, _, run_bind_of_error h, hadds⟩
  rw [run_bind_of_ok h]
  generalize ((Disk.createAll directory : StateM Tree _).run t).2 = t₁ at hadds
  -- a scratch file is not part of the tree, so only putting it under the path writes a file
  rcases during_cases ("failed to create temporary file in " ++ directory)
    (orDiskError_run (Disk.createScratch directory) t₁) with ⟨e, h⟩ | ⟨scratch, _, h⟩
  · exact .inl ⟨e, _, run_bind_of_error h, hadds⟩
  rw [run_bind_of_ok h]
  rcases orDiskError_update_cases ("failed to write " ++ path)
    (·.write path (Glyph.ofString text)) t₁ with ⟨e, h⟩ | ⟨t', hwrite, h⟩
  · exact .inl ⟨e, _, h, hadds⟩
  · exact .inr ⟨t₁, t', h, hadds, hwrite⟩

end SchemaClient.Command
