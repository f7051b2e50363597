import SchemaClient.Proofs.CommandFrame
import SchemaClient.Proofs.HeldInventory
import SchemaClient.Proofs.TypeCycle

/-!
# The stages of a run

A run that generates a module or inspects an inventory goes through stages, each of which may be
broken on its own: the output format, the configuration file, its settings, the inventory, the
types, the file to be written. The first broken stage decides the exit code, and none behind it has
any effect.
-/

namespace SchemaClient.Command
open SchemaClient.Store SchemaClient.Text SchemaClient.Load SchemaClient.Client Relation

/-- The stages of a run that may fail. -/
inductive Stage where
  | format
  | configFile
  | settings
  | inventory
  | cycle
  | target
  | writing
deriving DecidableEq, Repr

namespace Stage

/-- The exit code for a stage that fails. -/
def code : Stage → Int
  | format => 2
  | configFile => 1
  | settings => 2
  | inventory => 3
  | cycle => 1
  | target => 5
  | writing => 1

lemma code_ne_zero (stage : Stage) : stage.code ≠ 0 := by
  cases stage <;> decide

end Stage

/-- The inventory that an action works on. -/
def Action.inventory? : Action → Option String
  | .generate o => some o.inventory
  | .inspect argument => some argument
  | _ => none

/-- The stages of an action that works on an inventory, in their order. -/
def Action.stages : Action → List Stage
  | .generate o =>
    [.format, .configFile, .settings, .inventory, .cycle] ++
      if o.stdout then [] else [.target, .writing]
  | .inspect _ => [.format, .configFile, .settings, .inventory]
  | _ => []

/-- The text of the file of a path. -/
def textAt? (t : Tree) (path : String) : Option (List Char) :=
  (t.read path).toOption.bind Glyph.toChars?

/-- The configuration file of a run: the given one, or the default one if it is there. -/
def configPath? (s : Session (StateM Tree)) (config : Option String) (t : Tree) : Option String :=
  config.or (s.defaultConfig.filter fun path => (t.find path).toOption.isSome)

/-- The configuration of a run; without a file every setting has its default. -/
def configOf? (s : Session (StateM Tree)) (config : Option String) (t : Tree) : Option Config :=
  match configPath? s config t with
  | none => some {}
  | some path => (textAt? t path).bind fun cs => (Config.read cs).toOption

/-- A directory can be created where it is missing, and a file be put under a path after that. -/
def CanWrite (t : Tree) (directory path : String) (c : Content) : Prop :=
  ∃ t₁ scratch t', (Disk.createAll directory : StateM Tree _).run t = (.ok (), t₁) ∧
    (Disk.createScratch directory : StateM Tree _).run t₁ = (.ok scratch, t₁) ∧
    t₁.write path c = .ok t'

/-- What is wrong with a stage of an invocation. No stage asks whether an earlier one is broken,
except for what it takes from it. -/
inductive Fails [Web (StateM Tree)] (s : Session (StateM Tree)) (i : Invocation) (t : Tree) :
    Stage → Prop
  | format {f : Failure} (h : Report.Format.ofName? i.format = .error f) : Fails s i t .format
  | configFile {path : String} (hpath : configPath? s i.config t = some path)
      (h : textAt? t path = none) : Fails s i t .configFile
  | settings {path : String} {cs : List Char} {f : Failure}
      (hpath : configPath? s i.config t = some path) (htext : textAt? t path = some cs)
      (h : Config.read cs = .error f) : Fails s i t .settings
  | inventory {argument : String} {c : Config} (hargument : i.action.inventory? = some argument)
      (hconfig : configOf? s i.config t = some c) (h : ∀ inv, ¬HoldsInventory t c argument inv) :
      Fails s i t .inventory
  | cycle {argument name : String} {c : Config} {inv : Schema.Inventory}
      (hargument : i.action.inventory? = some argument) (hconfig : configOf? s i.config t = some c)
      (hinv : HoldsInventory t c argument inv)
      (h : TransGen (DependsOn (declaredTypes inv)) name name) : Fails s i t .cycle
  | target {o : GenerateOptions} {c : Config} {inv : Schema.Inventory}
      (haction : i.action = .generate o) (hconfig : configOf? s i.config t = some c)
      (hinv : HoldsInventory t c o.inventory inv) (hyes : o.yes = false)
      (hthere : (t.find (modulePath o c inv)).toOption.isSome = true)
      (hno : ((s.confirm (modulePath o c inv)).run t).1 = false) : Fails s i t .target
  | writing {o : GenerateOptions} {c : Config} {inv : Schema.Inventory}
      (haction : i.action = .generate o) (hconfig : configOf? s i.config t = some c)
      (hinv : HoldsInventory t c o.inventory inv)
      (h : ¬CanWrite t (o.output.getD c.output.directory) (modulePath o c inv)
        (Glyph.ofString (moduleText inv))) : Fails s i t .writing

/-- The first of some stages that fails. -/
def IsFirstFailure (fails : Stage → Prop) (stages : List Stage) (stage : Stage) : Prop :=
  ∃ before after, stages = before ++ stage :: after ∧ (∀ b ∈ before, ¬fails b) ∧ fails stage

/-- The end of a run is that of its first failing stage: its code, no output, and no change but the
directories in which a file could not be written. Without a failing stage it succeeds. -/
structure IsVerdict (fails : Stage → Prop) (stages : List Stage) (t : Tree)
    (r : (Outcome × Option Error) × Tree) : Prop where
  failed : ∀ stage, IsFirstFailure fails stages stage →
    r.1.1.code.value = stage.code ∧ r.1.1.output = "" ∧ t.AddsDirectories r.2 ∧
      (stage ≠ .writing → r.2 = t)
  success_iff : r.1.1.code.value = 0 ↔ ∀ stage ∈ stages, ¬fails stage

section Verdicts

variable {fails : Stage → Prop} {stage : Stage} {stages : List Stage} {t : Tree}
  {r : (Outcome × Option Error) × Tree}

lemma IsVerdict.done (h : r.1.1.code.value = 0) : IsVerdict fails [] t r := by
  refine ⟨?_, by simp [h]⟩
  rintro stage ⟨before, after, hsplit, -⟩
  simp at hsplit

lemma IsVerdict.of_passes (hpass : ¬fails stage) (h : IsVerdict fails stages t r) :
    IsVerdict fails (stage :: stages) t r := by
  refine ⟨?_, ?_⟩
  · rintro other ⟨before, after, hsplit, hbefore, hother⟩
    apply h.failed
    cases before with
    | nil =>
      obtain ⟨rfl, -⟩ := List.cons.inj hsplit
      exact absurd hother hpass
    | cons b before =>
      obtain ⟨-, hrest⟩ := List.cons.inj hsplit
      exact ⟨before, after, hrest, (List.forall_mem_cons.mp hbefore).2, hother⟩
  · rw [h.success_iff, List.forall_mem_cons]
    exact ⟨fun hall => ⟨hpass, hall⟩, And.right⟩

lemma IsVerdict.of_fails (hfails : fails stage) (hcode : r.1.1.code.value = stage.code)
    (houtput : r.1.1.output = "") (hadds : t.AddsDirectories r.2)
    (hkeeps : stage ≠ .writing → r.2 = t) : IsVerdict fails (stage :: stages) t r := by
  refine ⟨?_, ?_⟩
  · rintro other ⟨before, after, hsplit, hbefore, -⟩
    have hnil : before = [] := by
      cases before with
      | nil => rfl
      | cons b before =>
        obtain ⟨rfl, -⟩ := List.cons.inj hsplit
        exact absurd hfails (hbefore _ List.mem_cons_self)
    obtain ⟨rfl, -⟩ := List.cons.inj (hnil ▸ hsplit)
    exact ⟨hcode, houtput, hadds, hkeeps⟩
  · rw [hcode]
    exact iff_of_false stage.code_ne_zero fun hall => hall _ List.mem_cons_self hfails

/-- A run that ends early on the tree it began with. -/
lemma IsVerdict.of_error {x : Run (StateM Tree) Outcome} {e : Error}
    (h : x.run.run t = (.error e, t)) (hfails : fails stage)
    (hcode : e.exitCode.value = stage.code) :
    IsVerdict fails (stage :: stages) t ((finish x).run t) := by
  rw [finish_run_error h]
  exact .of_fails hfails hcode rfl (.refl t) fun _ => rfl

end Verdicts

section Steps

variable {s : Session (StateM Tree)} {t : Tree}

lemma during_orFail_error {α : Type} {context : String} {x : StateM Tree (Except Failure α)}
    {f : Failure} (h : x.run t = (.error f, t)) : ∃ e,
      (during context (orFail x)).run.run t = (.error e, t) ∧
        e.exitCode.value = (ExitCode.ofFailure f).value := by
  refine ⟨⟨[context], .failure f⟩, ?_, congrArg ExitCode.value (Error.exitCode_eq _)⟩
  rw [during_run, orFail_run, h]
  rfl

lemma during_orFail_ok {α : Type} {context : String} {x : StateM Tree (Except Failure α)} {a : α}
    (h : x.run t = (.ok a, t)) : (during context (orFail x)).run.run t = (.ok a, t) := by
  rw [during_run, orFail_run, h]
  rfl

lemma readConfig_cases (t : Tree) (path : String) :
    (textAt? t path = none ∧ ∃ message,
      (readConfig path : StateM Tree _).run t = (.error (.io path message), t)) ∨
    ∃ cs, textAt? t path = some cs ∧
      (readConfig path : StateM Tree _).run t = (Config.read cs, t) := by
  have hread : (Disk.read path : StateM Tree _).run t = (t.read path, t) := rfl
  rw [readConfig, Loading.run_bind, hread, textAt?]
  cases t.read path with
  | error p => exact .inl ⟨rfl, p.message, rfl⟩
  | ok content =>
    cases htext : Glyph.toChars? content with
    | none =>
      refine .inl ⟨htext, Problem.notText.message, ?_⟩
      simp only [htext]
      rfl
    | some cs =>
      refine .inr ⟨cs, htext, ?_⟩
      simp only [htext]
      rfl

lemma ofFailure_of_read {cs : List Char} {f : Failure} (h : Config.read cs = .error f) :
    (ExitCode.ofFailure f).value = 2 := by
  unfold Config.read at h
  split at h
  · cases h
    rfl
  · next c _ =>
    unfold Config.validate at h
    split_ifs at h <;> cases h <;> rfl

/-- The configuration is read from a file if there is one, and has its defaults otherwise. -/
lemma readConfigOrDefault_run (s : Session (StateM Tree)) (config : Option String) (t : Tree) :
    (readConfigOrDefault s config).run t =
      match configPath? s config t with
      | none => (.ok {}, t)
      | some path => (readConfig path : StateM Tree _).run t := by
  unfold readConfigOrDefault configPath?
  cases config with
  | some path => rfl
  | none =>
    cases s.defaultConfig with
    | none => rfl
    | some path =>
      dsimp only
      rw [Loading.run_bind, isThere_run, Option.none_or, Option.filter_some]
      cases (t.find path).toOption.isSome <;> rfl

lemma during_orDiskError_error {α : Type} {context : String} {x : StateM Tree (Except Problem α)}
    {p : Problem} {t' : Tree} (h : x.run t = (.error p, t')) : ∃ e,
      (during context (orDiskError x)).run.run t = (.error e, t') ∧ e.exitCode.value = 1 := by
  refine ⟨⟨[context], .disk p⟩, ?_, congrArg ExitCode.value (Error.exitCode_eq _)⟩
  rw [during_run, orDiskError_run, h]
  rfl

lemma during_orDiskError_ok {α : Type} {context : String} {x : StateM Tree (Except Problem α)}
    {a : α} {t' : Tree} (h : x.run t = (.ok a, t')) :
    (during context (orDiskError x)).run.run t = (.ok a, t') := by
  rw [during_run, orDiskError_run, h]
  rfl

/-- Writing a file succeeds exactly if it can be written. -/
lemma writeAtOnce_iff (t : Tree) (directory path text : String) :
    (CanWrite t directory path (Glyph.ofString text) ∧ ∃ t',
      (writeAtOnce directory path text : Run (StateM Tree) _).run.run t = (.ok (), t')) ∨
    ¬CanWrite t directory path (Glyph.ofString text) ∧ ∃ e t',
      (writeAtOnce directory path text : Run (StateM Tree) _).run.run t = (.error e, t') ∧
        e.exitCode.value = 1 ∧ t.AddsDirectories t' := by
  have hadds := addsDirectories_createAll directory t
  unfold writeAtOnce
  match hcreate : (Disk.createAll directory : StateM Tree _).run t with
  | (.error p, t₁) =>
    rw [hcreate] at hadds
    obtain ⟨e, he, hcode⟩ := during_orDiskError_error hcreate
    refine .inr ⟨?_, e, t₁, run_bind_of_error he, hcode, hadds⟩
    rintro ⟨_, _, _, hdone, -⟩
    cases hcreate.symm.trans hdone
  | (.ok (), t₁) =>
    rw [hcreate] at hadds
    rw [run_bind_of_ok (during_orDiskError_ok hcreate)]
    match hscratch : (Disk.createScratch directory : StateM Tree _).run t₁ with
    | (.error p, t₂) =>
      obtain rfl : t₁ = t₂ := congrArg Prod.snd hscratch
      obtain ⟨e, he, hcode⟩ := during_orDiskError_error hscratch
      refine .inr ⟨?_, e, t₁, run_bind_of_error he, hcode, hadds⟩
      rintro ⟨_, _, _, hdone, hdone', -⟩
      cases hcreate.symm.trans hdone
      cases hscratch.symm.trans hdone'
    | (.ok scratch, t₂) =>
      obtain rfl : t₁ = t₂ := congrArg Prod.snd hscratch
      rw [run_bind_of_ok (during_orDiskError_ok hscratch)]
      cases hwrite : t₁.write path (Glyph.ofString text) with
      | error p =>
        obtain ⟨e, he, hcode⟩ := during_orDiskError_error
          (update_run_error (f := (·.write path (Glyph.ofString text))) hwrite)
        refine .inr ⟨?_, e, t₁, he, hcode, hadds⟩
        rintro ⟨_, _, _, hdone, -, hdone'⟩
        cases hcreate.symm.trans hdone
        cases hwrite.symm.trans hdone'
      | ok t' =>
        exact .inl ⟨⟨t₁, scratch, t', hcreate, hscratch, hwrite⟩, t',
          during_orDiskError_ok
            (update_run_ok (f := (·.write path (Glyph.ofString text))) hwrite)⟩

lemma finish_bind_of_ok {α : Type} {x : Run (StateM Tree) α} {f : α → Run (StateM Tree) Outcome}
    {a : α} {t' : Tree} (h : x.run.run t = (.ok a, t')) :
    (finish (x >>= f)).run t = (finish (f a)).run t' := by
  rw [finish, finish, Loading.run_bind, Loading.run_bind, run_bind_of_ok h]

/-- The user is asked about a file that is there, unless there is permission. -/
lemma shouldWrite_eq (hs : ∀ path, Stays Eq (s.confirm path)) (path : String) (yes : Bool)
    (t : Tree) :
    (shouldWrite path yes s.confirm).run t =
      (yes || !(t.find path).toOption.isSome || ((s.confirm path).run t).1, t) := by
  rw [shouldWrite, Loading.run_bind]
  cases yes with
  | true => rfl
  | false =>
    have hask : (mustAsk path false : StateM Tree Bool).run t =
      ((t.find path).toOption.isSome, t) := rfl
    rw [hask]
    cases (t.find path).toOption.isSome with
    | false => rfl
    | true => exact Prod.ext rfl (hs path t).symm

lemma contexts_foldr_within (contexts : List String) (e : Error) :
    contexts.foldr Error.within e = ⟨contexts ++ e.contexts, e.cause⟩ := by
  induction contexts with
  | nil => rfl
  | cons context contexts ih =>
    rw [List.foldr_cons, ih]
    rfl

end Steps

section Stages

variable {s : Session (StateM Tree)} {i : Invocation} {t : Tree} [web : Web (StateM Tree)]

lemma loadConfig_cases (s : Session (StateM Tree)) (i : Invocation) (t : Tree) :
    (Fails s i t .configFile ∧ ∃ e,
      (loadConfig s i.config).run.run t = (.error e, t) ∧ e.exitCode.value = 1) ∨
    ¬Fails s i t .configFile ∧
      ((Fails s i t .settings ∧ ∃ e,
        (loadConfig s i.config).run.run t = (.error e, t) ∧ e.exitCode.value = 2) ∨
      ¬Fails s i t .settings ∧ ∃ c, configOf? s i.config t = some c ∧
        (loadConfig s i.config).run.run t = (.ok c, t)) := by
  have hrun := readConfigOrDefault_run s i.config t
  cases hpath : configPath? s i.config t with
  | none =>
    rw [hpath] at hrun
    have hfile : ¬Fails s i t .configFile := by
      rintro ⟨⟩
      simp_all
    have hsettings : ¬Fails s i t .settings := by
      rintro ⟨⟩
      simp_all
    exact .inr ⟨hfile, .inr ⟨hsettings, {}, by rw [configOf?, hpath], during_orFail_ok hrun⟩⟩
  | some path =>
    rw [hpath] at hrun
    rcases readConfig_cases t path with ⟨htext, message, hread⟩ | ⟨cs, htext, hread⟩
    · exact .inl ⟨.configFile hpath htext, during_orFail_error (hrun.trans hread)⟩
    have hfile : ¬Fails s i t .configFile := by
      rintro ⟨⟩
      simp_all
    refine .inr ⟨hfile, ?_⟩
    cases hcs : Config.read cs with
    | error f =>
      rw [hcs] at hread
      obtain ⟨e, he, hcode⟩ := during_orFail_error (hrun.trans hread)
      exact .inl ⟨.settings hpath htext hcs, e, he, hcode.trans (ofFailure_of_read hcs)⟩
    | ok c =>
      rw [hcs] at hread
      have hsettings : ¬Fails s i t .settings := by
        rintro ⟨⟩
        simp_all
      have hconfig : configOf? s i.config t = some c := by
        simp only [configOf?, hpath, htext, Option.bind_some, hcs]
        rfl
      exact .inr ⟨hsettings, c, hconfig, during_orFail_ok (hrun.trans hread)⟩

lemma generateModule_cases {argument : String} {c : Config} {inv : Schema.Inventory}
    (context : String) (hargument : i.action.inventory? = some argument)
    (hconfig : configOf? s i.config t = some c) (hinv : HoldsInventory t c argument inv) :
    (Fails s i t .cycle ∧ ∃ e,
      (during context (orFail (pure (Client.generate inv) : StateM Tree _))).run.run t =
        (.error e, t) ∧ e.exitCode.value = 1) ∨
    ¬Fails s i t .cycle ∧ ∃ client, Client.generate inv = .ok client ∧
      (during context (orFail (pure (Client.generate inv) : StateM Tree _))).run.run t =
        (.ok client, t) := by
  by_cases hmade : ∃ client, Client.generate inv = .ok client
  · obtain ⟨client, hclient⟩ := hmade
    have hacyclic := (exists_generate_eq_ok_iff inv).mp ⟨client, hclient⟩
    refine .inr ⟨?_, client, hclient, during_orFail_ok (by rw [hclient]; rfl)⟩
    intro hfails
    cases hfails with
    | cycle hargument' hconfig' hinv' hcycle =>
      obtain rfl := Option.some.inj (hargument.symm.trans hargument')
      obtain rfl := Option.some.inj (hconfig.symm.trans hconfig')
      obtain rfl := hinv.unique hinv'
      exact hacyclic _ hcycle
  · obtain ⟨name, hcycle⟩ : ∃ name, TransGen (DependsOn (declaredTypes inv)) name name := by
      by_contra hnone
      exact hmade ((exists_generate_eq_ok_iff inv).mpr (not_exists.mp hnone))
    refine .inl ⟨.cycle hargument hconfig hinv hcycle, ?_⟩
    rw [generate_eq] at hmade ⊢
    cases hfind : findCycle? (declaredTypes inv) with
    | none =>
      rw [hfind] at hmade
      exact absurd ⟨_, rfl⟩ hmade
    | some chain => exact during_orFail_error rfl

lemma target_iff {o : GenerateOptions} {c : Config} {inv : Schema.Inventory}
    (haction : i.action = .generate o) (hconfig : configOf? s i.config t = some c)
    (hinv : HoldsInventory t c o.inventory inv) :
    Fails s i t .target ↔ (o.yes || !(t.find (modulePath o c inv)).toOption.isSome ||
      ((s.confirm (modulePath o c inv)).run t).1) = false := by
  rw [Bool.or_eq_false_iff, Bool.or_eq_false_iff, Bool.not_eq_false']
  constructor
  · intro hfails
    cases hfails with
    | target haction' hconfig' hinv' hyes hthere hno =>
      obtain rfl := Action.generate.inj (haction.symm.trans haction')
      obtain rfl := Option.some.inj (hconfig.symm.trans hconfig')
      obtain rfl := hinv.unique hinv'
      exact ⟨⟨hyes, hthere⟩, hno⟩
  · rintro ⟨⟨hyes, hthere⟩, hno⟩
    exact .target haction hconfig hinv hyes hthere hno

lemma writing_iff {o : GenerateOptions} {c : Config} {inv : Schema.Inventory}
    (haction : i.action = .generate o) (hconfig : configOf? s i.config t = some c)
    (hinv : HoldsInventory t c o.inventory inv) :
    Fails s i t .writing ↔ ¬CanWrite t (o.output.getD c.output.directory) (modulePath o c inv)
      (Glyph.ofString (moduleText inv)) := by
  constructor
  · intro hfails
    cases hfails with
    | writing haction' hconfig' hinv' h =>
      obtain rfl := Action.generate.inj (haction.symm.trans haction')
      obtain rfl := Option.some.inj (hconfig.symm.trans hconfig')
      obtain rfl := hinv.unique hinv'
      exact h
  · exact .writing haction hconfig hinv

/-- An unknown format ends every run before it begins. -/
lemma isVerdict_format {stages : List Stage}
    (h : ∀ format, IsVerdict (Fails s i t) stages t
      ((finish (invoke s i.config format i.action)).run t)) :
    IsVerdict (Fails s i t) (.format :: stages) t ((runInvocation s i).run t) := by
  cases hformat : Report.Format.ofName? i.format with
  | error f =>
    rw [runInvocation_of_error hformat]
    exact .of_fails (.format hformat) rfl rfl (.refl t) fun _ => rfl
  | ok format =>
    rw [runInvocation_of_ok hformat]
    apply IsVerdict.of_passes _ (h format)
    intro hfails
    cases hfails with
    | format h => cases hformat.symm.trans h

variable (hweb : LeavesFiles web)
include hweb

/-- Every run begins with the configuration and the inventory. -/
lemma IsVerdict.of_inventory {argument : String} (hargument : i.action.inventory? = some argument)
    {f : Config → Schema.Inventory → Run (StateM Tree) Outcome} {stages : List Stage}
    (h : ∀ c inv, configOf? s i.config t = some c → HoldsInventory t c argument inv →
      IsVerdict (Fails s i t) stages t ((finish (f c inv)).run t)) :
    IsVerdict (Fails s i t) (.configFile :: .settings :: .inventory :: stages) t
      ((finish do
        let c ← loadConfig s i.config
        let inv ← loadInventory argument c
        f c inv).run t) := by
  rcases loadConfig_cases s i t with ⟨hfile, e, he, hcode⟩ | ⟨hfile, hrest⟩
  · exact .of_error (run_bind_of_error he) hfile hcode
  rcases hrest with ⟨hsettings, e, he, hcode⟩ | ⟨hsettings, c, hconfig, hc⟩
  · exact .of_passes hfile (.of_error (run_bind_of_error he) hsettings hcode)
  refine .of_passes hfile (.of_passes hsettings ?_)
  rw [finish_bind_of_ok hc]
  rcases loadInventory_cases hweb t c argument with ⟨inv, hinv, hrun⟩ | ⟨hnone, e, he, hcode⟩
  · have hpass : ¬Fails s i t .inventory := by
      intro hfails
      cases hfails with
      | inventory hargument' hconfig' hnone =>
        obtain rfl := Option.some.inj (hargument.symm.trans hargument')
        obtain rfl := Option.some.inj (hconfig.symm.trans hconfig')
        exact hnone inv hinv
    rw [finish_bind_of_ok hrun]
    exact .of_passes hpass (h c inv hconfig hinv)
  · exact .of_error (run_bind_of_error he) (.inventory hargument hconfig hnone) hcode

lemma isVerdict_generate (hs : ∀ path, Stays Eq (s.confirm path)) {o : GenerateOptions}
    (haction : i.action = .generate o) (format : Report.Format) :
    IsVerdict (Fails s i t)
      (.configFile :: .settings :: .inventory :: .cycle ::
        if o.stdout then [] else [.target, .writing]) t
      ((finish (generate s i.config format o)).run t) := by
  have hargument : i.action.inventory? = some o.inventory := by rw [haction]; rfl
  apply IsVerdict.of_inventory hweb hargument
  intro c inv hconfig hinv
  rcases generateModule_cases ("failed to generate module for v" ++ inv.version) hargument hconfig
    hinv with ⟨hcycle, e, he, hcode⟩ | ⟨hcycle, client, hclient, hrun⟩
  · exact .of_error (run_bind_of_error he) hcycle hcode
  apply IsVerdict.of_passes hcycle
  rw [finish_bind_of_ok hrun]
  by_cases hstdout : o.stdout = true
  · rw [if_pos hstdout, if_pos hstdout]
    exact .done rfl
  rw [if_neg hstdout, if_neg hstdout]
  have hpath : Path.join (o.output.getD c.output.directory) client.fileName =
      modulePath o c inv := by
    rw [modulePath, fileName_of_generate hclient]
  have hcontent : client.content = moduleText inv := by rw [eq_of_generate hclient]
  dsimp only
  rw [hpath, hcontent, finish_bind_of_ok (lift_run _ t), shouldWrite_eq hs]
  dsimp only
  have htarget := target_iff haction hconfig hinv
  split
  · next hwrite =>
    apply IsVerdict.of_passes (by rw [htarget, hwrite]; decide)
    have hwriting := writing_iff haction hconfig hinv
    rcases writeAtOnce_iff t (o.output.getD c.output.directory) (modulePath o c inv)
      (moduleText inv) with ⟨hcan, t', h⟩ | ⟨hcan, e, t', h, hcode, hadds⟩
    · apply IsVerdict.of_passes fun hfails => hwriting.mp hfails hcan
      rw [finish_bind_of_ok h]
      exact .done rfl
    · rw [finish_run_error (run_bind_of_error h)]
      exact .of_fails (hwriting.mpr hcan) hcode rfl hadds fun hne => absurd rfl hne
  · next hwrite =>
    refine .of_fails (htarget.mpr (Bool.eq_false_iff.mpr hwrite)) rfl rfl (.refl t) fun _ => rfl

lemma isVerdict_inspect {argument : String} (haction : i.action = .inspect argument)
    (format : Report.Format) :
    IsVerdict (Fails s i t) [.configFile, .settings, .inventory] t
      ((finish (inspect s i.config format argument)).run t) := by
  have hargument : i.action.inventory? = some argument := by rw [haction]; rfl
  exact IsVerdict.of_inventory hweb hargument fun _ _ _ _ => .done rfl

end Stages

/-- A run that generates a module or inspects an inventory ends as its first failing stage says and
succeeds only if no stage fails. The code for an error is that of the failure it comes from,
whatever the command was doing at that time. -/
theorem isVerdict_runRequest [web : Web (StateM Tree)] (hweb : LeavesFiles web)
    (s : Session (StateM Tree)) (hs : ∀ path, Stays Eq (s.confirm path)) :
    (∀ i t, i.action.inventory? ≠ none →
      IsVerdict (Fails s i t) i.action.stages t ((runRequest s (.invoke i)).run t)) ∧
    (∀ (f : Failure) (contexts : List String),
      (contexts.foldr Error.within (.ofFailure f)).exitCode = .ofFailure f) ∧
    ∀ e : Error, (∀ link ∈ e.links, link.failure? = none) → e.exitCode.value = 1 := by
  refine ⟨?_, ?_, ?_⟩
  · intro i t hargument
    match haction : i.action with
    | .generate o =>
      apply isVerdict_format
      intro format
      rw [haction]
      exact isVerdict_generate hweb hs haction format
    | .inspect argument =>
      apply isVerdict_format
      intro format
      rw [haction]
      exact isVerdict_inspect hweb haction format
    | .configure _ => exact absurd (by rw [haction]; rfl) hargument
    | .completions _ => exact absurd (by rw [haction]; rfl) hargument
  · intro f contexts
    rw [contexts_foldr_within, Error.exitCode_eq]
    rfl
  · intro e hlinks
    rw [Error.exitCode, List.findSome?_eq_none_iff.mpr hlinks]
    rfl

section Home

/-- A server that has the documents of some addresses and refuses all other requests. -/
@[reducible]
def serving (documents : List (String × Content)) : Web (StateM Tree) where
  prepare _ := return .ok ()
  get _ address := return .ok (match documents.lookup address with
    | some c => ⟨200, "", .ok c⟩
    | none => ⟨404, "404 Not Found for " ++ address, .ok []⟩)

lemma leavesFiles_serving (documents : List (String × Content)) :
    LeavesFiles (serving documents) where
  prepare _ := isFrame_eq.pure _
  get _ _ := isFrame_eq.pure _

lemma contentAt?_serving {documents : List (String × Content)} {address path : String}
    {c : Content} (t : Tree) (agent : Agent)
    (h : documents.lookup (Root.location path (.web address)) = some c) :
    @contentAt? (serving documents) t agent (.web address) path = some c := by
  have hget : (@Web.get _ (serving documents) agent (Root.location path (.web address))).run t =
      (.ok ⟨200, "", .ok c⟩, t) := by
    have hanswer : (@Web.get _ (serving documents) agent (Root.location path (.web address))).run
      t = (.ok (match documents.lookup (Root.location path (.web address)) with
        | some c => ⟨200, "", .ok c⟩
        | none => ⟨404, "404 Not Found for " ++ Root.location path (.web address), .ok []⟩),
          t) := rfl
    rw [hanswer, h]
  unfold contentAt?
  dsimp only
  rw [hget]
  rfl

section Passes

variable [Web (StateM Tree)] {i : Invocation} {t : Tree} {c : Config} {argument version : String}

lemma not_fails_format (h : i.format = "json") : ¬Fails quietSession i t .format := by
  intro hfails
  cases hfails with
  | format hformat =>
    rw [h] at hformat
    cases hformat.symm.trans (show Report.Format.ofName? "json" = .ok .json by cbv)

lemma not_fails_configFile (h : i.config = none) : ¬Fails quietSession i t .configFile := by
  intro hfails
  cases hfails with
  | configFile hpath _ =>
    rw [h] at hpath
    cases hpath

lemma not_fails_settings (h : i.config = none) : ¬Fails quietSession i t .settings := by
  intro hfails
  cases hfails with
  | settings hpath _ _ =>
    rw [h] at hpath
    cases hpath

lemma not_fails_inventory (h : i.config = none) (hargument : i.action.inventory? = some argument)
    {inv : Schema.Inventory} (hinv : HoldsInventory t {} argument inv) :
    ¬Fails quietSession i t .inventory := by
  intro hfails
  cases hfails with
  | inventory hargument' hconfig hnone =>
    obtain rfl := Option.some.inj (hargument.symm.trans hargument')
    rw [h] at hconfig
    cases hconfig
    exact hnone inv hinv

lemma not_fails_cycle (h : i.config = none) (hargument : i.action.inventory? = some argument)
    (hinv : HoldsInventory t {} argument ⟨version, []⟩) : ¬Fails quietSession i t .cycle := by
  intro hfails
  cases hfails with
  | cycle hargument' hconfig hinv' hcycle =>
    obtain rfl := Option.some.inj (hargument.symm.trans hargument')
    rw [h] at hconfig
    cases hconfig
    obtain rfl := hinv'.unique hinv
    obtain ⟨_, ⟨d, ⟨before, after, hsplit, -⟩, -⟩, -⟩ := TransGen.head'_iff.mp hcycle
    have hnone : declaredTypes ⟨version, []⟩ = [] := rfl
    simp [hnone] at hsplit

/-- No stage up to the types fails without a configuration and without items. -/
lemma forall_not_fails (hformat : i.format = "json") (h : i.config = none)
    (hargument : i.action.inventory? = some argument)
    (hinv : HoldsInventory t {} argument ⟨version, []⟩) :
    ∀ stage ∈ [Stage.format, .configFile, .settings, .inventory, .cycle],
      ¬Fails quietSession i t stage := by
  simp only [List.forall_mem_cons]
  exact ⟨not_fails_format hformat, not_fails_configFile h, not_fails_settings h,
    not_fails_inventory h hargument hinv, not_fails_cycle h hargument hinv, List.forall_mem_nil _⟩

end Passes

/-- The request to print the module for an inventory in the web. -/
def webInvocation : Invocation :=
  ⟨.generate ⟨"http://localhost/inv", none, false, true⟩, false, "json", none⟩

/-- A server that has the index of an inventory without items. -/
@[reducible]
def emptyServer : Web (StateM Tree) :=
  serving [("http://localhost/inv/index.json",
    Glyph.ofString (Schema.Index.toJson ⟨"1.0.0", []⟩).compact)]

lemma ofArgument_localhost :
    Root.ofArgument "http://localhost/inv" = .web "http://localhost/inv" := by cbv

lemma holdsInventory_homeTree : HoldsInventory homeTree {} "inv" ⟨"1.0.0", []⟩ := by
  have hread : homeTree.read (Root.location indexPath (.directory "inv")) =
    .ok (Glyph.ofString (Schema.Index.toJson ⟨"1.0.0", []⟩).compact) := rfl
  have hroot : Root.ofArgument "inv" = .directory "inv" := rfl
  apply holdsInventory_of_index hroot True.intro
  unfold contentAt?
  dsimp only
  rw [hread]
  rfl

lemma holdsInventory_emptyServer :
    @HoldsInventory emptyServer homeTree {} "http://localhost/inv" ⟨"1.0.0", []⟩ := by
  have haddress : Root.location indexPath (.web "http://localhost/inv") =
    "http://localhost/inv/index.json" := by cbv
  refine @holdsInventory_of_index emptyServer _ _ _ _ _ ofArgument_localhost rfl ?_
  apply contentAt?_serving
  rw [haddress]
  exact List.lookup_cons_self

/-- A broken configuration comes before a file that is there, which comes last. Over the web the
run succeeds if the server has the index, and fails if it refuses it. -/
theorem isVerdict_runRequest_homeTree :
    ((runRequest quietSession
      (.invoke { generateInvocation none with config := some "config.toml" })).run
        homeTree).1.1.code.value = 2 ∧
    ((runRequest quietSession (.invoke (generateInvocation none))).run
      homeTree).1.1.code.value = 5 ∧
    ((@runRequest _ _ _ emptyServer quietSession (.invoke webInvocation)).run
      homeTree).1.1.code.value = 0 ∧
    ((@runRequest _ _ _ (serving []) quietSession (.invoke webInvocation)).run
      homeTree).1.1.code.value = 3 := by
  obtain ⟨hverdict, -⟩ := isVerdict_runRequest leavesFiles_offline quietSession fun _ _ => rfl
  refine ⟨?_, ?_, ?_, ?_⟩
  · refine ((hverdict _ homeTree (by decide)).failed .settings
      ⟨[.format, .configFile], _, rfl, ?_, .settings rfl rfl rfl⟩).1
    have hfile : ¬Fails quietSession
        { generateInvocation none with config := some "config.toml" } homeTree .configFile := by
      intro hfails
      cases hfails with
      | configFile hpath h =>
        cases hpath
        cases h
    simp only [List.forall_mem_cons]
    exact ⟨not_fails_format rfl, hfile, List.forall_mem_nil _⟩
  · exact ((hverdict (generateInvocation none) homeTree (by decide)).failed .target
      ⟨[.format, .configFile, .settings, .inventory, .cycle], _, rfl,
        forall_not_fails rfl rfl rfl holdsInventory_homeTree,
        .target rfl rfl holdsInventory_homeTree rfl rfl rfl⟩).1
  · obtain ⟨hover, -⟩ := @isVerdict_runRequest emptyServer (leavesFiles_serving _) quietSession
      fun _ _ => rfl
    exact (hover webInvocation homeTree (by decide)).success_iff.mpr
      (@forall_not_fails emptyServer _ _ _ _ rfl rfl rfl holdsInventory_emptyServer)
  · obtain ⟨hover, -⟩ := @isVerdict_runRequest (serving []) (leavesFiles_serving _) quietSession
      fun _ _ => rfl
    refine ((hover webInvocation homeTree (by decide)).failed .inventory
      ⟨[.format, .configFile, .settings], _, rfl, ?_,
        @Fails.inventory (serving []) _ _ _ _ _ rfl rfl ?_⟩).1
    · simp only [List.forall_mem_cons]
      exact ⟨@not_fails_format (serving []) _ _ rfl, @not_fails_configFile (serving []) _ _ rfl,
        @not_fails_settings (serving []) _ _ rfl, List.forall_mem_nil _⟩
    · rintro inv ⟨-, paths, hindex, -⟩
      have hrefused : @documentAt? (serving []) homeTree ⟨"typegen/0.1.0", 30⟩ _
        (.web "http://localhost/inv") Schema.Index.ofGlyphs? indexPath = none := rfl
      rw [← ofArgument_localhost] at hrefused
      cases hrefused.symm.trans hindex

end Home

end SchemaClient.Command
