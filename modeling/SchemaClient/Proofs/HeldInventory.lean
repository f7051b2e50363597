import SchemaClient.Proofs.ProgramFrame

/-!
# Inventories that documents hold

The documents below a root, which is a directory or an address in the web, hold an inventory if the
index and all items that it lists can be read and decoded. Loading gives that inventory, and fails
if there is none.
-/

namespace SchemaClient.Command
open SchemaClient.Store SchemaClient.Text SchemaClient.Load

section Documents

variable [Web (StateM Tree)] (t : Tree) (agent : Agent)

/-- The content of the document of a path below a root: that of a file, or what a server answers
without refusing it. -/
def contentAt? (root : Root) (path : String) : Option Content :=
  match root with
  | .web _ =>
    ((Web.get agent (root.location path) : StateM Tree _).run t).1.toOption.bind fun r =>
      if 400 ≤ r.status ∧ r.status < 600 then none else r.body.toOption
  | .directory _ => (t.read (root.location path)).toOption

/-- What the document of a path below a root decodes to. -/
def documentAt? {α : Type} (root : Root) (decode : List Glyph → Except Json.Cause α)
    (path : String) : Option α :=
  (contentAt? t agent root path).bind fun c => (decode c).toOption

/-- For a root in the web a client can be made. -/
def IsReady : Root → Prop
  | .web _ => ((Web.prepare agent : StateM Tree _).run t).1.isOk = true
  | .directory _ => True

/-- The index below a root and the documents that it lists are those of an inventory. -/
def HoldsBelow (root : Root) (inv : Schema.Inventory) : Prop :=
  ∃ paths,
    documentAt? t agent root Schema.Index.ofGlyphs? indexPath = some ⟨inv.version, paths⟩ ∧
    paths.map (documentAt? t agent root Schema.Item.ofGlyphs?) = inv.items.map some

/-- The documents below the root of an argument can be asked for and are those of an inventory. A
client for the web has the name of this program and the timeout of a configuration. -/
def HoldsInventory (c : Config) (argument : String) (inv : Schema.Inventory) : Prop :=
  let agent : Agent := ⟨"typegen/0.1.0", c.fetch.timeoutSeconds⟩
  IsReady t agent (.ofArgument argument) ∧ HoldsBelow t agent (.ofArgument argument) inv

end Documents

section Held

variable [Web (StateM Tree)] {t : Tree} {c : Config} {argument version : String}

lemma HoldsInventory.unique {inv inv' : Schema.Inventory}
    (h : HoldsInventory t c argument inv) (h' : HoldsInventory t c argument inv') : inv = inv' := by
  obtain ⟨-, paths, hindex, hitems⟩ := h
  obtain ⟨-, paths', hindex', hitems'⟩ := h'
  obtain ⟨hversion, rfl⟩ := Schema.Index.mk.inj (Option.some.inj (hindex.symm.trans hindex'))
  obtain ⟨version, items⟩ := inv
  obtain ⟨version', items'⟩ := inv'
  have hsame : items = items' :=
    List.map_injective_iff.mpr (Option.some_injective _) (hitems.symm.trans hitems')
  exact congrArg₂ Schema.Inventory.mk hversion hsame

/-- The index of an inventory without items is all that there is to read. -/
lemma holdsInventory_of_index {root : Root} (hroot : .ofArgument argument = root)
    (hready : IsReady t ⟨"typegen/0.1.0", c.fetch.timeoutSeconds⟩ root)
    (hindex : contentAt? t ⟨"typegen/0.1.0", c.fetch.timeoutSeconds⟩ root indexPath =
      some (Glyph.ofString (Schema.Index.toJson ⟨version, []⟩).compact)) :
    HoldsInventory t c argument ⟨version, []⟩ := by
  subst hroot
  refine ⟨hready, [], ?_, rfl⟩
  have hdecode := Json.Decode.text_compact
    (Schema.Index.isPlain_toJson ⟨version, []⟩) (Schema.Decode.index_toJson _)
  rw [documentAt?, hindex]
  simp only [Option.bind_some, Schema.Index.ofGlyphs?, hdecode]
  rfl

end Held

lemma ofResults_cases (rs : List (Except Failure Schema.Item)) :
    (∃ items, rs = items.map .ok ∧ Delivery.ofResults rs = ⟨items, none⟩) ∨
    ∃ f, .error f ∈ rs ∧ (Delivery.ofResults rs).failure = some f := by
  induction rs with
  | nil => exact .inl ⟨[], rfl, rfl⟩
  | cons r rs ih =>
    cases r with
    | error f => exact .inr ⟨f, List.mem_cons_self, rfl⟩
    | ok item =>
      rcases ih with ⟨items, rfl, hrs⟩ | ⟨f, hf, hrs⟩
      · exact .inl ⟨item :: items, rfl, by rw [Delivery.ofResults, hrs]⟩
      · exact .inr ⟨f, List.mem_cons_of_mem _ hf, hrs⟩

section Loading

variable [web : Web (StateM Tree)] (hweb : LeavesFiles web) (t : Tree) (agent : Agent)
include hweb

lemma webRead_run (address : String) : ∃ r,
    (Web.read agent address : StateM Tree _).run t = (r, t) ∧
      r.toOption = ((Web.get agent address : StateM Tree _).run t).1.toOption.bind fun r =>
        if 400 ≤ r.status ∧ r.status < 600 then none else r.body.toOption := by
  have hstays : t = ((Web.get agent address : StateM Tree _).run t).2 := hweb.get agent address t
  rw [Web.read, Loading.run_bind, ← hstays]
  cases ((Web.get agent address : StateM Tree _).run t).1 with
  | error e => exact ⟨.error e, rfl, rfl⟩
  | ok r =>
    refine ⟨_, rfl, ?_⟩
    by_cases hstatus : 400 ≤ r.status ∧ r.status < 600
    · simp [Response.isRefusal, hstatus, Except.toOption]
    · have hanswers : r.isRefusal = false := by simpa [Response.isRefusal] using hstatus
      simp [hanswers, hstatus, Except.toOption]

lemma read_run (root : Root) (path : String) : ∃ r : Except String Content,
    ((Source.ofRoot root agent : Source (StateM Tree)).read path).run t =
      (r.mapError (.fetchFailed (root.location path)), t) ∧
        r.toOption = contentAt? t agent root path := by
  cases root with
  | web address =>
    obtain ⟨r, hread, hr⟩ := webRead_run hweb t agent (Root.location path (.web address))
    refine ⟨r, ?_, hr⟩
    rw [Source.ofRoot, Loading.run_bind, hread]
    rfl
  | directory root =>
    refine ⟨(t.read (Root.location path (.directory root))).mapError Problem.message, ?_,
      toOption_mapError _ _⟩
    have hread : ((Source.ofRoot (.directory root) agent : Source (StateM Tree)).read path).run t =
      ((t.read (Root.location path (.directory root))).mapError fun p =>
        .fetchFailed (Root.location path (.directory root)) p.message, t) := rfl
    rw [hread]
    cases t.read (Root.location path (.directory root)) <;> rfl

/-- Every failure to read or decode a document is one of the inventory. -/
lemma fetch_run {α : Type} (root : Root) (decode : List Glyph → Except Json.Cause α)
    (path : String) : ∃ r,
      ((Source.ofRoot root agent : Source (StateM Tree)).fetch decode path).run t = (r, t) ∧
        r.toOption = documentAt? t agent root decode path ∧
        ∀ f, r = .error f → (ExitCode.ofFailure f).value = 3 := by
  obtain ⟨r, hread, hcontent⟩ := read_run hweb t agent root path
  rw [Source.fetch, Loading.run_bind, hread, documentAt?, ← hcontent]
  cases r with
  | error e =>
    refine ⟨_, rfl, rfl, ?_⟩
    rintro f ⟨⟩
    rfl
  | ok c =>
    refine ⟨(decode c).mapError _, rfl, toOption_mapError _ _, ?_⟩
    intro f hf
    obtain ⟨cause, rfl⟩ := exists_of_mapError hf
    rfl

lemma prepare_cases (root : Root) :
    (IsReady t agent root ∧ (root.prepare agent : StateM Tree _).run t = (.ok (), t)) ∨
    ¬IsReady t agent root ∧ ∃ f, (root.prepare agent : StateM Tree _).run t = (.error f, t) ∧
      (ExitCode.ofFailure f).value = 3 := by
  cases root with
  | directory root => exact .inl ⟨trivial, rfl⟩
  | web address =>
    have hstays : t = ((Web.prepare agent : StateM Tree _).run t).2 := hweb.prepare agent t
    rw [Root.prepare, Loading.run_bind, ← hstays, IsReady]
    cases ((Web.prepare agent : StateM Tree _).run t).1 with
    | error e => exact .inr ⟨Bool.false_ne_true, _, rfl, rfl⟩
    | ok _ => exact .inl ⟨rfl, rfl⟩

lemma isSteady_fetchItem (root : Root) :
    Loading.IsSteady (Source.ofRoot root agent : Source (StateM Tree)).fetchItem := by
  intro p q t
  have hstays : t = (((Source.ofRoot root agent : Source (StateM Tree)).fetchItem q).run t).2 :=
    stays_fetch hweb agent root _ q t
  rw [← hstays]

/-- Reading one document after the other gives the inventory that they hold, or fails at one. -/
lemma loadInOrder_cases (root : Root) :
    (∃ inv, ((loadInOrder (.ofRoot root agent) : StateM Tree _).run t).1.result = .ok inv ∧
      HoldsBelow t agent root inv) ∨
    (∀ inv, ¬HoldsBelow t agent root inv) ∧ ∃ f,
      ((loadInOrder (.ofRoot root agent) : StateM Tree _).run t).1.result = .error f ∧
      (ExitCode.ofFailure f).value = 3 := by
  obtain ⟨r, hindex, hdocument, hcode⟩ :=
    fetch_run hweb t agent root Schema.Index.ofGlyphs? indexPath
  cases r with
  | error f =>
    refine .inr ⟨?_, f, by rw [loadInOrder_of_error hindex], hcode f rfl⟩
    rintro inv ⟨paths, hpaths, -⟩
    rw [← hdocument] at hpaths
    cases hpaths
  | ok index =>
    have hitem (p : String) := fetch_run hweb t agent root Schema.Item.ofGlyphs? p
    choose result hrun hresult hfailure using hitem
    have hresults : (index.items.map fun p =>
        (((Source.ofRoot root agent : Source (StateM Tree)).fetchItem p).run t).1) =
          index.items.map result :=
      List.map_congr_left fun p _ => congrArg Prod.fst (hrun p)
    have hdocuments : index.items.map (documentAt? t agent root Schema.Item.ofGlyphs?) =
        (index.items.map result).map Except.toOption := by
      rw [List.map_map]
      exact List.map_congr_left fun p _ => (hresult p).symm
    rw [loadInOrder_of_index hindex, Loading.inOrder_run (isSteady_fetchItem hweb agent root),
      hresults]
    rcases ofResults_cases (index.items.map result) with
      ⟨items, hitems, hdelivery⟩ | ⟨f, hf, hdelivery⟩
    · refine .inl ⟨⟨index.version, items⟩, by rw [hdelivery]; rfl, index.items, ?_, ?_⟩
      · rw [← hdocument]
        rfl
      · rw [hdocuments, hitems, List.map_map]
        rfl
    · obtain ⟨p, hp, hpf⟩ := List.mem_map.mp hf
      refine .inr ⟨?_, f, by rw [Delivery.toLoaded, hdelivery], hfailure p f hpf⟩
      rintro inv ⟨paths, hpaths, hall⟩
      rw [← hdocument] at hpaths
      obtain rfl : index.items = paths := congrArg Schema.Index.items (Option.some.inj hpaths)
      have hmem : documentAt? t agent root Schema.Item.ofGlyphs? p ∈ inv.items.map some := by
        rw [← hall]
        exact List.mem_map_of_mem hp
      rw [← hresult, hpf] at hmem
      simp [Except.toOption] at hmem

lemma loadInventory_cases (c : Config) (argument : String) :
    (∃ inv, HoldsInventory t c argument inv ∧
      (loadInventory argument c : Run (StateM Tree) _).run.run t = (.ok inv, t)) ∨
    (∀ inv, ¬HoldsInventory t c argument inv) ∧ ∃ e,
      (loadInventory argument c : Run (StateM Tree) _).run.run t = (.error e, t) ∧
      e.exitCode.value = 3 := by
  rcases prepare_cases hweb t (agentOf c) (.ofArgument argument) with
    ⟨hready, hprepare⟩ | ⟨hunready, f, hprepare, hcode⟩
  · have hload : (load (.ofRoot (.ofArgument argument) (agentOf c)) c.fetch.maxConcurrentRequests
        oldest : StateM Tree _).run t =
          (((loadInOrder (.ofRoot (.ofArgument argument) (agentOf c)) : StateM Tree _).run t).1,
            t) :=
      Prod.ext (load_eq_loadInOrder (isSteady_fetchItem hweb (agentOf c) (.ofArgument argument)))
        (stays_load hweb (agentOf c) _ _ _ t).symm
    have hrun := loadInventory_of_ready hprepare hload
    rcases loadInOrder_cases hweb t (agentOf c) (.ofArgument argument) with
      ⟨inv, hresult, hinv⟩ | ⟨hnone, f, hresult, hcode⟩
    · rw [hresult] at hrun
      exact .inl ⟨inv, ⟨hready, hinv⟩, hrun⟩
    · rw [hresult] at hrun
      exact .inr ⟨fun inv hinv => hnone inv hinv.2, _, hrun,
        (congrArg ExitCode.value (Error.exitCode_eq _)).trans hcode⟩
  · refine .inr ⟨fun inv hinv => hunready hinv.1, _, loadInventory_of_unready hprepare, ?_⟩
    exact (congrArg ExitCode.value (Error.exitCode_eq _)).trans hcode

end Loading

end SchemaClient.Command
