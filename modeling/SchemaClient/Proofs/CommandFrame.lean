import SchemaClient.Command.Run
import SchemaClient.Proofs.ModuleText
import SchemaClient.Proofs.ProgramFrame

/-!
# What commands leave alone

A command reads what it needs, creates the directories that are missing, and puts one file under a
path as its last step. So it either succeeds or changes no file, and only two commands write at
all: one that generates a module, and one that writes a configuration.
-/

namespace SchemaClient.Command
open SchemaClient.Store SchemaClient.Text SchemaClient.Load

section Effects

variable {α : Type} {s : Session (StateM Tree)} {config : Option String} {format : Report.Format}
  {t t' : Tree}

lemma exitCode_value_ne_zero (e : Error) : e.exitCode.value ≠ 0 := by
  rw [Error.exitCode_eq]
  split
  · next f _ =>
    cases f <;> simp [ExitCode.ofFailure, ExitCode.fetchFailed, ExitCode.invalidInput,
      ExitCode.failure]
  · decide

lemma finish_run_error {x : Run (StateM Tree) Outcome} {e : Error}
    (h : x.run.run t = (.error e, t')) :
    (finish x).run t = ((⟨e.exitCode, ""⟩, some e), t') := by
  rw [finish, Loading.run_bind, h]
  rfl

lemma finish_run_ok {x : Run (StateM Tree) Outcome} {o : Outcome}
    (h : x.run.run t = (.ok o, t')) : (finish x).run t = ((o, none), t') := by
  rw [finish, Loading.run_bind, h]
  rfl

lemma finish_state {R : Tree → Tree → Prop} {x : Run (StateM Tree) Outcome} (hx : Stays R x.run) :
    Stays R (finish x) := by
  intro t
  have ht := hx t
  match h : x.run.run t with
  | (.error e, t') =>
    rw [h] at ht
    rwa [finish_run_error h]
  | (.ok o, t') =>
    rw [h] at ht
    rwa [finish_run_ok h]

/-- Where the module for an inventory is written. -/
def modulePath (o : GenerateOptions) (c : Config) (inv : Schema.Inventory) : String :=
  Path.join (o.output.getD c.output.directory) ("v" ++ inv.version ++ ".ts")

/-- A path names nothing before a run, and no file is changed by it unless the path goes up from a
directory that is missing before the run. -/
def IsFresh (t t' : Tree) (path : String) : Prop :=
  (t.find path).toOption.isSome = false ∧
    (t.IsProper → t.GoesUpFromDirectories path → t.KeepsFiles t')

lemma shouldWrite_run (path : String) (yes : Bool) (t : Tree) :
    (shouldWrite path yes fun _ => (pure false : StateM Tree Bool)).run t =
      (yes || !(t.find path).toOption.isSome, t) := by
  rw [shouldWrite, Loading.run_bind]
  cases yes with
  | true => rfl
  | false =>
    have hask : (mustAsk path false : StateM Tree Bool).run t =
      ((t.find path).toOption.isSome, t) := rfl
    rw [hask]
    cases (t.find path).toOption.isSome <;> rfl

lemma fileName_of_generate {inv : Schema.Inventory} {client : Client.Module}
    (h : Client.generate inv = .ok client) : client.fileName = "v" ++ inv.version ++ ".ts" := by
  rw [Client.eq_of_generate h]
  rfl

/-- Writing under a path that names nothing spares all files. -/
lemma isFresh_of_write {path : String} {c : Content} {t₁ : Tree} (hadds : t.AddsDirectories t₁)
    (hnew : (t.find path).toOption.isSome = false) (hwrite : t₁.write path c = .ok t') :
    IsFresh t t' path :=
  ⟨hnew, fun ht hpath => Tree.keepsFiles_of_write ht hpath hadds hnew hwrite⟩

lemma isThere_run (path : String) (t : Tree) :
    (Disk.isThere path : StateM Tree Bool).run t = ((t.find path).toOption.isSome, t) :=
  rfl

/-- What writing a configuration does to the files. -/
inductive InitEffect (s : Session (StateM Tree)) (config : Option String) (force : Bool)
    (t : Tree) : Outcome → Tree → Prop
  | failed {outcome : Outcome} {t' : Tree} (hcode : outcome.code.value ≠ 0)
      (hadds : t.AddsDirectories t') : InitEffect s config force t outcome t'
  | left {format : Report.Format} {i : Initialized} (hi : i.written = false) :
      InitEffect s config force t (s.report format i.toJson) t
  | done {format : Report.Format} {i : Initialized} {t' : Tree} {path : String}
      (hi : i.written = true) (hpath : config.or s.defaultConfig = some path)
      (hputs : t.Puts t' path ((Config.write {}).map .char))
      (hfresh : force = false → IsFresh t t' path) :
      InitEffect s config force t (s.report format i.toJson) t'

/-- Writing a text under a path is the last step that can fail. -/
lemma write_cases {t₁ : Tree} (context path : String) (c : Content) (force : Bool) (a : α)
    (hadds : t.AddsDirectories t₁)
    (hnew : force = false → (t.find path).toOption.isSome = false) :
    (∃ e t', (during context (orDiskError (Disk.write path c : StateM Tree _)) >>=
        fun _ => pure a).run.run t₁ = (.error e, t') ∧ t.AddsDirectories t') ∨
    ∃ t', (during context (orDiskError (Disk.write path c : StateM Tree _)) >>=
        fun _ => pure a).run.run t₁ = (.ok a, t') ∧
      t.Puts t' path c ∧ (force = false → IsFresh t t' path) := by
  rcases orDiskError_update_cases context (·.write path c) t₁ with ⟨e, h⟩ | ⟨t', hwrite, h⟩
  · exact .inl ⟨e, t₁, run_bind_of_error h, hadds⟩
  · exact .inr ⟨t', run_bind_of_ok h, hadds.puts (Tree.puts_of_write hwrite),
      fun hforce => isFresh_of_write hadds (hnew hforce) hwrite⟩

lemma initConfig_cases (path : String) (force : Bool) (t : Tree) :
    (∃ e t', (initConfig path force : Run (StateM Tree) _).run.run t = (.error e, t') ∧
      t.AddsDirectories t') ∨
    ∃ i t', (initConfig path force : Run (StateM Tree) _).run.run t = (.ok i, t') ∧
      (i.written = false ∧ t' = t ∨ i.written = true ∧
        t.Puts t' path ((Config.write {}).map .char) ∧ (force = false → IsFresh t t' path)) := by
  unfold initConfig
  rw [run_bind_of_ok (lift_run _ t), isThere_run]
  dsimp only
  by_cases hkeep : ((t.find path).toOption.isSome && !force) = true
  · rw [if_pos hkeep]
    exact .inr ⟨_, t, rfl, .inl ⟨rfl, rfl⟩⟩
  · rw [if_neg hkeep]
    have hnew : force = false → (t.find path).toOption.isSome = false := by
      rintro rfl
      simpa using hkeep
    split
    · rcases write_cases ("failed to write " ++ path) path ((Config.write {}).map .char) force _
        (.refl t) hnew with ⟨e, t', h, hadds⟩ | ⟨t', h, hputs⟩
      · exact .inl ⟨e, t', h, hadds⟩
      · exact .inr ⟨_, t', h, .inr ⟨rfl, hputs⟩⟩
    · next parent _ =>
      have hadds := addsDirectories_createAll parent t
      rcases during_cases ("failed to create " ++ parent)
        (orDiskError_run (Disk.createAll parent) t) with ⟨e, h⟩ | ⟨_, _, h⟩
      · exact .inl ⟨e, _, run_bind_of_error h, hadds⟩
      rw [run_bind_of_ok h]
      rcases write_cases ("failed to write " ++ path) path ((Config.write {}).map .char) force _
        hadds hnew with ⟨e, t', h, hadds⟩ | ⟨t', h, hputs⟩
      · exact .inl ⟨e, t', h, hadds⟩
      · exact .inr ⟨_, t', h, .inr ⟨rfl, hputs⟩⟩

lemma init_effect (force : Bool) :
    InitEffect s config force t ((finish (configure s config format (.init force))).run t).1.1
      ((finish (configure s config format (.init force))).run t).2 := by
  have hinit : configure s config format (.init force) = resolvePath s config >>= fun path =>
    initConfig path force >>= fun i => pure (s.report format i.toJson) := rfl
  rw [hinit]
  cases hpath : config.or s.defaultConfig with
  | none =>
    have h : (resolvePath s config).run.run t =
        (.error ⟨[], .plain "cannot determine the configuration directory; pass --config"⟩, t) := by
      rw [resolvePath, hpath]
      rfl
    rw [finish_run_error (run_bind_of_error h)]
    exact .failed (exitCode_value_ne_zero _) (.refl t)
  | some path =>
    have h : (resolvePath s config).run.run t = (.ok path, t) := by
      rw [resolvePath, hpath]
      rfl
    rcases initConfig_cases path force t with ⟨e, t', hrun, hadds⟩ | ⟨i, t', hrun, hdone⟩
    · rw [finish_run_error ((run_bind_of_ok h).trans (run_bind_of_error hrun))]
      exact .failed (exitCode_value_ne_zero e) hadds
    · rw [finish_run_ok ((run_bind_of_ok h).trans (run_bind_of_ok hrun))]
      rcases hdone with ⟨hi, rfl⟩ | ⟨hi, hputs, hfresh⟩
      · exact .left hi
      · exact .done hi hpath hputs hfresh

lemma InitEffect.cases {force : Bool} {outcome : Outcome}
    (h : InitEffect s config force t outcome t') :
    t.AddsDirectories t' ∨
      ∃ format x, Initialized.written x = true ∧ outcome = s.report format x.toJson := by
  cases h with
  | failed _ hadds => exact .inl hadds
  | left => exact .inl (.refl t)
  | done hi => exact .inr ⟨_, _, hi, rfl⟩

lemma InitEffect.keepsFiles {outcome : Outcome} (h : InitEffect s config false t outcome t')
    (ht : t.IsProper)
    (hpath : ∀ path, config.or s.defaultConfig = some path → t.GoesUpFromDirectories path) :
    t.KeepsFiles t' := by
  cases h with
  | failed _ hadds => exact fun q c => (hadds.file_iff q c).mpr
  | left => exact fun _ _ => id
  | done _ hconfig _ hfresh => exact (hfresh rfl).2 ht (hpath _ hconfig)

/-- Whether a request with that outcome may have written a file. -/
inductive MayWrite (s : Session (StateM Tree)) : Request → Outcome → Prop
  | generate {i : Invocation} {o : GenerateOptions} {outcome : Outcome}
      (haction : i.action = .generate o) (hstdout : o.stdout = false)
      (hcode : outcome.code.value = 0) : MayWrite s (.invoke i) outcome
  | init {i : Invocation} {force : Bool} {outcome : Outcome} {format : Report.Format}
      {x : Initialized} (haction : i.action = .configure (.init force)) (hx : x.written = true)
      (hreport : outcome = s.report format x.toJson) : MayWrite s (.invoke i) outcome

lemma stays_resolvePath : Stays Eq (resolvePath s config).run := by
  unfold resolvePath
  split
  · exact isFrame_eq.pure _
  · exact isFrame_eq.pure _

lemma stays_show : Stays Eq (configure s config format .show).run :=
  isFrame_eq.bindRun (stays_loadConfig s config) fun _ => isFrame_eq.pure _

lemma stays_path : Stays Eq (configure s config format .path).run := by
  apply isFrame_eq.bindRun stays_resolvePath
  intro path
  exact isFrame_eq.bindRun (stays_isThere path).lift fun _ => isFrame_eq.pure _

lemma stays_shouldWrite (path : String) (yes : Bool) :
    Stays Eq (shouldWrite path yes fun _ => (pure false : StateM Tree Bool)) := by
  intro t
  rw [shouldWrite_run]

lemma isProper_write (context path : String) (c : Content) :
    Stays (fun t t' => t.IsProper → t'.IsProper)
      (during context (orDiskError (Disk.write path c : StateM Tree _))).run :=
  (stays_update isFrame_isProper fun _ _ h ht => ht.write h).orDiskError.during _

lemma isProper_writeAtOnce (directory path text : String) :
    Stays (fun t t' => t.IsProper → t'.IsProper)
      (writeAtOnce directory path text : Run (StateM Tree) _).run := by
  apply isFrame_isProper.bindRun ((isProper_createAll directory).orDiskError.during _)
  intro _
  apply isFrame_isProper.bindRun
  · exact Stays.during (Stays.orDiskError fun _ => id) _
  · exact fun _ => isProper_write _ path _

lemma isProper_initConfig (path : String) (force : Bool) :
    Stays (fun t t' => t.IsProper → t'.IsProper)
      (initConfig path force : Run (StateM Tree) _).run := by
  apply isFrame_isProper.bindRun ((stays_isThere path).of_eq isFrame_isProper).lift
  intro isThere
  split
  · exact isFrame_isProper.pure _
  · split
    · exact isFrame_isProper.bindRun (isProper_write _ path _) fun _ => isFrame_isProper.pure _
    · apply isFrame_isProper.bindRun ((isProper_createAll _).orDiskError.during _)
      intro _
      exact isFrame_isProper.bindRun (isProper_write _ path _) fun _ => isFrame_isProper.pure _

end Effects

section Clients

variable {s : Session (StateM Tree)} {config : Option String} {format : Report.Format}
  {t t' : Tree} [web : Web (StateM Tree)]

/-- What generating a module does to the files: all that it should, or nothing. -/
inductive GenerateEffect (s : Session (StateM Tree)) (config : Option String)
    (o : GenerateOptions) (t : Tree) : Outcome → Tree → Prop
  | failed {outcome : Outcome} {t' : Tree} (hcode : outcome.code.value ≠ 0)
      (hadds : t.AddsDirectories t') (hstdout : o.stdout = true → t' = t) :
      GenerateEffect s config o t outcome t'
  | done {outcome : Outcome} {t' : Tree} {c : Config} {inv : Schema.Inventory}
      {client : Client.Module} (hcode : outcome.code.value = 0)
      (hconfig : (loadConfig s config).run.run t = (.ok c, t))
      (hinv : (loadInventory o.inventory c : Run (StateM Tree) _).run.run t = (.ok inv, t))
      (hclient : Client.generate inv = .ok client)
      (hstdout : o.stdout = true → outcome.output = client.content ∧ t' = t)
      (hwritten : o.stdout = false →
        t.Puts t' (modulePath o c inv) (Glyph.ofString client.content) ∧
          (o.yes = false → IsFresh t t' (modulePath o c inv))) :
      GenerateEffect s config o t outcome t'

lemma GenerateEffect.cases {o : GenerateOptions} {outcome : Outcome}
    (h : GenerateEffect s config o t outcome t') :
    t.AddsDirectories t' ∨ o.stdout = false ∧ outcome.code.value = 0 := by
  cases h with
  | failed _ hadds _ => exact .inl hadds
  | done hcode _ _ _ hstdout _ =>
    by_cases hprint : o.stdout = true
    · rw [(hstdout hprint).2]
      exact .inl (.refl t)
    · exact .inr ⟨Bool.eq_false_iff.mpr hprint, hcode⟩

lemma GenerateEffect.keepsFiles {o : GenerateOptions} {outcome : Outcome}
    (h : GenerateEffect s config o t outcome t') (hyes : o.yes = false) (ht : t.IsProper)
    (hpath : ∀ c inv, (loadConfig s config).run.run t = (.ok c, t) →
      (loadInventory o.inventory c : Run (StateM Tree) _).run.run t = (.ok inv, t) →
        t.GoesUpFromDirectories (modulePath o c inv)) : t.KeepsFiles t' := by
  cases h with
  | failed _ hadds _ => exact fun q c => (hadds.file_iff q c).mpr
  | done _ hconfig hinv _ hstdout hwritten =>
    by_cases hprint : o.stdout = true
    · rw [(hstdout hprint).2]
      exact fun _ _ => id
    · have hfresh := (hwritten (Bool.eq_false_iff.mpr hprint)).2 hyes
      exact hfresh.2 ht (hpath _ _ hconfig hinv)

lemma runInvocation_of_error {i : Invocation} {f : Failure}
    (h : Report.Format.ofName? i.format = .error f) (t : Tree) :
    (runInvocation s i).run t = ((⟨.invalidInput, ""⟩, some (.ofFailure f)), t) := by
  rw [runInvocation, h]
  rfl

lemma runInvocation_of_ok {i : Invocation} {format : Report.Format}
    (h : Report.Format.ofName? i.format = .ok format) :
    runInvocation s i = finish (invoke s i.config format i.action) := by
  rw [runInvocation, h]

lemma runInvocation_init {i : Invocation} {force : Bool}
    (haction : i.action = .configure (.init force)) (t : Tree) :
    InitEffect s i.config force t ((runInvocation s i).run t).1.1
      ((runInvocation s i).run t).2 := by
  cases h : Report.Format.ofName? i.format with
  | error f =>
    rw [runInvocation_of_error h]
    exact .failed (show ExitCode.invalidInput.value ≠ 0 by decide) (.refl t)
  | ok format =>
    rw [runInvocation_of_ok h, haction]
    exact init_effect force

variable (hweb : LeavesFiles web)
include hweb

lemma generate_cases (hs : s.confirm = fun _ => pure false) (o : GenerateOptions) :
    (∃ e t', (generate s config format o).run.run t = (.error e, t') ∧ t.AddsDirectories t' ∧
      (o.stdout = true → t' = t)) ∨
    ∃ outcome t', (generate s config format o).run.run t = (.ok outcome, t') ∧
      GenerateEffect s config o t outcome t' := by
  unfold generate
  -- up to the module the run only reads: it ends early on the same tree, or goes on with it
  rcases (stays_loadConfig s config).run_cases t with ⟨e, h⟩ | ⟨c, hconfig⟩
  · exact .inl ⟨e, t, run_bind_of_error h, .refl t, fun _ => rfl⟩
  rw [run_bind_of_ok hconfig]
  rcases (stays_loadInventory hweb o.inventory c).run_cases t with ⟨e, h⟩ | ⟨inv, hinv⟩
  · exact .inl ⟨e, t, run_bind_of_error h, .refl t, fun _ => rfl⟩
  rw [run_bind_of_ok hinv]
  have hmodule : (orFail (pure (Client.generate inv) : StateM Tree _)).run.run t =
      ((Client.generate inv).mapError Error.ofFailure, t) := orFail_run _ t
  rcases during_cases ("failed to generate module for v" ++ inv.version) hmodule with
    ⟨e, h⟩ | ⟨client, hclient, h⟩
  · exact .inl ⟨e, t, run_bind_of_error h, .refl t, fun _ => rfl⟩
  rw [run_bind_of_ok h]
  by_cases hstdout : o.stdout = true
  · rw [if_pos hstdout]
    refine .inr ⟨_, t, rfl, .done rfl hconfig hinv hclient (fun _ => ⟨rfl, rfl⟩) ?_⟩
    exact fun hno => absurd hstdout (Bool.eq_false_iff.mp hno)
  · rw [if_neg hstdout]
    have hpath : Path.join (o.output.getD c.output.directory) client.fileName =
        modulePath o c inv := by
      rw [modulePath, fileName_of_generate hclient]
    dsimp only
    rw [hpath, hs, run_bind_of_ok (lift_run _ t), shouldWrite_run]
    dsimp only
    by_cases hwrite : (o.yes || !(t.find (modulePath o c inv)).toOption.isSome) = true
    · rw [if_pos hwrite]
      rcases writeAtOnce_cases (o.output.getD c.output.directory) (modulePath o c inv)
        client.content t with ⟨e, t', h, hadds⟩ | ⟨t₁, t', h, hadds, hput⟩
      · exact .inl ⟨e, t', run_bind_of_error h, hadds, fun hyes => absurd hyes hstdout⟩
      · refine .inr ⟨_, t', run_bind_of_ok h, .done rfl hconfig hinv hclient
          (fun hyes => absurd hyes hstdout) fun _ => ⟨hadds.puts (Tree.puts_of_write hput), ?_⟩⟩
        intro hyes
        rw [hyes, Bool.false_or, Bool.not_eq_true'] at hwrite
        exact isFresh_of_write hadds hwrite hput
    · rw [if_neg hwrite]
      refine .inr ⟨_, t, rfl, .failed ?_ (.refl t) fun _ => rfl⟩
      decide

lemma generate_effect (hs : s.confirm = fun _ => pure false) (o : GenerateOptions) :
    GenerateEffect s config o t ((finish (generate s config format o)).run t).1.1
      ((finish (generate s config format o)).run t).2 := by
  rcases generate_cases hweb hs o with ⟨e, t', h, hadds, hstdout⟩ | ⟨outcome, t', h, heffect⟩
  · rw [finish_run_error h]
    exact .failed (exitCode_value_ne_zero e) hadds hstdout
  · rw [finish_run_ok h]
    exact heffect

lemma stays_inspect (inventory : String) : Stays Eq (inspect s config format inventory).run := by
  apply isFrame_eq.bindRun (stays_loadConfig s config)
  intro c
  exact isFrame_eq.bindRun (stays_loadInventory hweb inventory c) fun _ => isFrame_eq.pure _

lemma runInvocation_generate (hs : s.confirm = fun _ => pure false) {i : Invocation}
    {o : GenerateOptions} (haction : i.action = .generate o) (t : Tree) :
    GenerateEffect s i.config o t ((runInvocation s i).run t).1.1
      ((runInvocation s i).run t).2 := by
  cases h : Report.Format.ofName? i.format with
  | error f =>
    rw [runInvocation_of_error h]
    exact .failed (show ExitCode.invalidInput.value ≠ 0 by decide) (.refl t) fun _ => rfl
  | ok format =>
    rw [runInvocation_of_ok h, haction]
    exact generate_effect hweb hs o

/-- All other invocations only read. -/
lemma stays_runInvocation {i : Invocation} (hgenerate : ∀ o, i.action ≠ .generate o)
    (hinit : ∀ force, i.action ≠ .configure (.init force)) : Stays Eq (runInvocation s i) := by
  cases h : Report.Format.ofName? i.format with
  | error f =>
    intro t
    rw [runInvocation_of_error h]
  | ok format =>
    rw [runInvocation_of_ok h]
    apply finish_state
    match haction : i.action with
    | .generate o => exact absurd haction (hgenerate o)
    | .configure (.init force) => exact absurd haction (hinit force)
    | .configure .show => exact stays_show
    | .configure .path => exact stays_path
    | .inspect inventory => exact stays_inspect hweb inventory
    | .completions shell => exact isFrame_eq.pure _

/-- Of all requests, two may write. -/
lemma addsDirectories_or_mayWrite (hs : s.confirm = fun _ => pure false) (r : Request) (t : Tree) :
    t.AddsDirectories ((runRequest s r).run t).2 ∨ MayWrite s r ((runRequest s r).run t).1.1 := by
  cases r with
  | invoke i =>
    by_cases hgenerate : ∃ o, i.action = .generate o
    · obtain ⟨o, haction⟩ := hgenerate
      rcases (runInvocation_generate hweb hs haction t).cases with hadds | ⟨hstdout, hcode⟩
      · exact .inl hadds
      · exact .inr (.generate haction hstdout hcode)
    by_cases hinit : ∃ force, i.action = .configure (.init force)
    · obtain ⟨force, haction⟩ := hinit
      rcases (runInvocation_init haction t).cases with hadds | ⟨f, x, hx, hreport⟩
      · exact .inl hadds
      · exact .inr (.init haction hx hreport)
    · have hstays : Stays Eq (runInvocation s i) :=
        stays_runInvocation hweb (not_exists.mp hgenerate) (not_exists.mp hinit)
      exact .inl (hstays.of_eq isFrame_addsDirectories t)
  | help => exact .inl (.refl t)
  | version => exact .inl (.refl t)
  | wrong => exact .inl (.refl t)

/-- A row of requests changes no file, unless one of them may have written. -/
lemma addsDirectories_of_mapM (hs : s.confirm = fun _ => pure false) (rs : List Request) (t : Tree)
    (h : ∀ p ∈ rs.zip ((rs.mapM (runRequest s)).run t).1, ¬MayWrite s p.1 p.2.1) :
    t.AddsDirectories ((rs.mapM (runRequest s)).run t).2 := by
  induction rs generalizing t with
  | nil => exact .refl t
  | cons r rs ih =>
    have hrun : ((r :: rs).mapM (runRequest s)).run t =
        (((runRequest s r).run t).1 :: ((rs.mapM (runRequest s)).run ((runRequest s r).run t).2).1,
          ((rs.mapM (runRequest s)).run ((runRequest s r).run t).2).2) := by
      rw [List.mapM_cons]
      rfl
    rw [hrun] at h ⊢
    rw [List.zip_cons_cons, List.forall_mem_cons] at h
    obtain ⟨hfirst, hrest⟩ := h
    rcases addsDirectories_or_mayWrite hweb hs r t with hadds | hmay
    · exact hadds.trans (ih _ hrest)
    · exact absurd hmay hfirst

lemma isProper_generate (hs : s.confirm = fun _ => pure false) (o : GenerateOptions) :
    Stays (fun t t' => t.IsProper → t'.IsProper) (generate s config format o).run := by
  apply isFrame_isProper.bindRun ((stays_loadConfig s config).of_eq isFrame_isProper)
  intro c
  apply isFrame_isProper.bindRun ((stays_loadInventory hweb o.inventory c).of_eq isFrame_isProper)
  intro inv
  apply isFrame_isProper.bindRun ((isFrame_isProper.pure _).orFail.during _)
  intro client
  split
  · exact isFrame_isProper.pure _
  · rw [hs]
    apply isFrame_isProper.bindRun ((stays_shouldWrite _ o.yes).of_eq isFrame_isProper).lift
    intro write
    split
    · exact isFrame_isProper.bindRun (isProper_writeAtOnce _ _ _) fun _ => isFrame_isProper.pure _
    · exact isFrame_isProper.pure _

/-- A proper tree stays proper, whatever is requested. -/
lemma isProper_runRequest (hs : s.confirm = fun _ => pure false) (r : Request) :
    Stays (fun t t' => t.IsProper → t'.IsProper) (runRequest s r) := by
  cases r with
  | invoke i =>
    cases h : Report.Format.ofName? i.format with
    | error f =>
      intro t
      rw [runRequest, runInvocation_of_error h]
      exact id
    | ok format =>
      rw [runRequest, runInvocation_of_ok h]
      apply finish_state
      match i.action with
      | .generate o => exact isProper_generate hweb hs o
      | .configure (.init force) =>
        apply isFrame_isProper.bindRun (stays_resolvePath.of_eq isFrame_isProper)
        intro path
        exact isFrame_isProper.bindRun (isProper_initConfig path force) fun _ =>
          isFrame_isProper.pure _
      | .configure .show => exact stays_show.of_eq isFrame_isProper
      | .configure .path => exact stays_path.of_eq isFrame_isProper
      | .inspect inventory => exact (stays_inspect hweb inventory).of_eq isFrame_isProper
      | .completions shell => exact isFrame_isProper.pure _
  | help => exact isFrame_isProper.pure _
  | version => exact isFrame_isProper.pure _
  | wrong => exact isFrame_isProper.pure _

end Clients

/-- A run that generates a module writes it whole or changes no file, no row of requests changes a
file unless one of them generates a module or writes a configuration, and without permission these
change no file that is there, as long as the path goes up only from directories that are there. -/
theorem runRequest_changes [web : Web (StateM Tree)] (hweb : LeavesFiles web)
    (s : Session (StateM Tree)) (hs : s.confirm = fun _ => pure false) :
    (∀ i o, i.action = .generate o → ∀ t,
      GenerateEffect s i.config o t ((runRequest s (.invoke i)).run t).1.1
        ((runRequest s (.invoke i)).run t).2) ∧
    (∀ i force, i.action = .configure (.init force) → ∀ t,
      InitEffect s i.config force t ((runRequest s (.invoke i)).run t).1.1
        ((runRequest s (.invoke i)).run t).2) ∧
    (∀ (rs : List Request) (t : Tree),
      (∀ p ∈ rs.zip ((rs.mapM (runRequest s)).run t).1, ¬MayWrite s p.1 p.2.1) →
      t.AddsDirectories ((rs.mapM (runRequest s)).run t).2) ∧
    ∀ (r : Request) (t : Tree), t.IsProper → ((runRequest s r).run t).2.IsProper :=
  ⟨fun _ _ haction t => runInvocation_generate hweb hs haction t,
    fun _ _ haction t => runInvocation_init haction t,
    fun rs t h => addsDirectories_of_mapM hweb hs rs t h,
    fun r t => isProper_runRequest hweb hs r t⟩

section Home

/-- A session without a user. -/
def quietSession : Session (StateM Tree) := ⟨none, false, fun _ => pure false⟩

/-- An inventory without items, beside a file of the name of its module and a configuration. -/
def homeTree : Tree where
  here := ["home"]
  nodes :=
    [(["home"], .directory), (["home", "inv"], .directory),
     (["home", "inv", "index.json"],
       .file (Glyph.ofString (Schema.Index.toJson ⟨"1.0.0", []⟩).compact)),
     (["home", "v1.0.0.ts"], .file (Glyph.ofString "old")),
     (["home", "config.toml"], .file (Glyph.ofString "old"))]

lemma isProper_homeTree : homeTree.IsProper := by
  apply Tree.isProper_of_nodes rfl
  simp only [homeTree, List.forall_mem_cons]
  exact ⟨rfl, rfl, rfl, rfl, rfl, nofun⟩

lemma loadConfig_homeTree : (loadConfig quietSession none).run.run homeTree = (.ok {}, homeTree) :=
  rfl

lemma loadInventory_homeTree :
    (loadInventory "inv" {} : Run (StateM Tree) _).run.run homeTree =
      (.ok ⟨"1.0.0", []⟩, homeTree) := by
  let source : Source (StateM Tree) := .ofRoot (.ofArgument "inv") (agentOf {})
  have hdecode := Json.Decode.text_compact
    (Schema.Index.isPlain_toJson ⟨"1.0.0", []⟩) (Schema.Decode.index_toJson _)
  have hread : (source.read indexPath).run homeTree =
    (.ok (Glyph.ofString (Schema.Index.toJson ⟨"1.0.0", []⟩).compact), homeTree) := rfl
  have hindex : source.fetchIndex.run homeTree = (.ok ⟨"1.0.0", []⟩, homeTree) := by
    rw [Source.fetchIndex, Source.fetch, Loading.run_bind, hread]
    simp only [Schema.Index.ofGlyphs?, hdecode]
    rfl
  have hload : (load source ({} : Config).fetch.maxConcurrentRequests oldest).run homeTree =
    (⟨[], .ok ⟨"1.0.0", []⟩⟩, homeTree) := load_of_index hindex (Loading.run_of_done rfl)
  exact loadInventory_of_ready rfl hload

/-- The request to generate a module in a directory, unless its file is there. -/
def generateInvocation (directory : Option String) : Invocation :=
  ⟨.generate ⟨"inv", directory, false, false⟩, false, "json", none⟩

/-- The request to write a configuration under a path, unless there is one. -/
def initInvocation (path : String) : Invocation :=
  ⟨.configure (.init false), false, "json", some path⟩

theorem runRequest_changes_homeTree :
    quietSession.confirm = (fun _ => pure false) ∧ homeTree.IsProper ∧
    homeTree.KeepsFiles
      ((runRequest quietSession (.invoke (generateInvocation none))).run homeTree).2 ∧
    homeTree.KeepsFiles
      ((runRequest quietSession (.invoke (initInvocation "config.toml"))).run homeTree).2 := by
  obtain ⟨hgenerate, hinit, -⟩ := runRequest_changes leavesFiles_offline quietSession rfl
  refine ⟨rfl, isProper_homeTree, ?_, ?_⟩
  · apply (hgenerate (generateInvocation none) _ rfl homeTree).keepsFiles rfl isProper_homeTree
    intro c inv hconfig hinv
    cases loadConfig_homeTree.symm.trans hconfig
    cases loadInventory_homeTree.symm.trans hinv
    exact Tree.goesUpFromDirectories_of_not_mem _ (by decide)
  · apply (hinit (initInvocation "config.toml") false rfl homeTree).keepsFiles isProper_homeTree
    intro path hpath
    cases hpath
    exact Tree.goesUpFromDirectories_of_not_mem _ (by decide)

lemma generate_homeTree : ∃ outcome t',
    (generate quietSession none .json ⟨"inv", some "new/..", false, false⟩).run.run homeTree =
      (.ok outcome, t') ∧ outcome.code = .success ∧ t'.node? ["home", "v1.0.0.ts"] =
        some (.file (Glyph.ofString (Client.moduleText ⟨"1.0.0", []⟩))) := by
  have hcycle : Client.findCycle? (Client.declaredTypes ⟨"1.0.0", []⟩) = none := by cbv
  have hclient : Client.generate ⟨"1.0.0", []⟩ = .ok ⟨"1.0.0", "v1.0.0.ts",
      Client.moduleText ⟨"1.0.0", []⟩, (Client.Sections.ofInventory ⟨"1.0.0", []⟩).stats⟩ := by
    rw [Client.generate_eq, hcycle]
    rfl
  unfold generate
  rw [run_bind_of_ok loadConfig_homeTree, run_bind_of_ok loadInventory_homeTree, hclient]
  exact ⟨_, _, rfl, rfl, rfl⟩

/-- A way over a directory that is missing hides a file from the check, until it is created. -/
theorem runRequest_overwrites_homeTree :
    homeTree.IsProper ∧
    ((runRequest quietSession (.invoke (generateInvocation (some "new/..")))).run
      homeTree).1.1.code = .success ∧
    ¬homeTree.KeepsFiles
      ((runRequest quietSession (.invoke (generateInvocation (some "new/..")))).run homeTree).2 ∧
    ¬homeTree.KeepsFiles
      ((runRequest quietSession (.invoke (initInvocation "new/../config.toml"))).run
        homeTree).2 := by
  obtain ⟨outcome, t', hrun, hcode, hafter⟩ := generate_homeTree
  have hfinish : (runRequest quietSession (.invoke (generateInvocation (some "new/..")))).run
    homeTree = ((outcome, none), t') := finish_run_ok hrun
  rw [hfinish]
  refine ⟨isProper_homeTree, hcode, ?_, ?_⟩
  · intro hkeeps
    have hbefore := hkeeps ["home", "v1.0.0.ts"] (Glyph.ofString "old") rfl
    rw [hafter] at hbefore
    revert hbefore
    decide
  · intro hkeeps
    have hwritten : ((runRequest quietSession (.invoke (initInvocation "new/../config.toml"))).run
        homeTree).2.node? ["home", "config.toml"] =
          some (.file ((Config.write {}).map .char)) := rfl
    have hbefore := hkeeps ["home", "config.toml"] (Glyph.ofString "old") rfl
    rw [hwritten] at hbefore
    revert hbefore
    decide

end Home

end SchemaClient.Command
