import Feedforward.Command.Run
import Feedforward.Proofs.FileTree

/-! What a run of the program leaves behind. A plan says all that a run may do;
the run does it whole or not at all, and what it would save it can print. -/
namespace Feedforward.Command

/-- The options ask for a file with the code of a model. -/
def Options.Saving (o : Options) : Prop :=
  o.input.isSome = true ∧ o.emitModel = false ∧ o.stdout = false

/-- The input of a run holds a model; its code and the path of its code are
those of the given target and directory, or else of those in the settings. -/
def Emits (o : Options) (tree : FileTree) (path code : String) : Prop :=
  ∃ input source settings m, o.input = some input ∧
    Settings.ofFileOrDefault (tree.read o.config) = .ok settings ∧
    readText tree.read input = .ok source ∧ Model.read source = .ok m ∧
    path = Path.join (o.outDir.getD settings.outDir)
      (m.name ++ "." ++ (o.target.getD settings.target).extension) ∧
    code = (o.target.getD settings.target).generate settings.indent m

section Plan
variable {o : Options} {read : FileReader} {action : Action}

theorem documentPlan_eq_ok {s : Settings} {source : String} :
    (documentPlan o s source).result = .ok action ↔
      ∃ m, Model.read source = .ok m ∧ o.action s m = action := by
  unfold documentPlan Model.read
  cases hresult : (Reading.ofString source).result <;> simp [hresult]

theorem plan_eq_ok : (plan o read).result = .ok action ↔
    ∃ settings, Settings.ofFileOrDefault (read o.config) = .ok settings ∧
      (o.input = none ∧ selfCheckPlan.result = .ok action ∨
        ∃ input source m, o.input = some input ∧ readText read input = .ok source ∧
          Model.read source = .ok m ∧ o.action (o.settings settings) m = action) := by
  unfold plan
  cases Settings.ofFileOrDefault (read o.config) with
  | error e => simp
  | ok settings =>
    cases o.input with
    | none => simp
    | some input =>
      dsimp only
      cases hsource : readText read input with
      | error f => simp [hsource]
      | ok source => simp [hsource, documentPlan_eq_ok]

theorem selfCheckPlan_ne_save (path code : String) :
    selfCheckPlan.result ≠ .ok (.save path code) := by
  unfold selfCheckPlan
  -- What the self checks find does not matter, and they are not to be evaluated here.
  generalize SelfCheck.run = checked
  match checked with
  | .ok names => nofun
  | .error (.document e) => nofun
  | .error (.failed what) => nofun

theorem action_eq_save {s : Settings} {m : Model} {path code : String} :
    o.action s m = .save path code ↔
      o.emitModel = false ∧ o.stdout = false ∧ s.outputPath m.name = path ∧ codeOf s m = code := by
  unfold Options.action
  cases o.emitModel <;> cases o.stdout <;> simp

end Plan

section Run
variable {o : Options} {tree : FileTree} {path code : String}

theorem plan_eq_save : (plan o tree.read).result = .ok (.save path code) ↔
    o.Saving ∧ Emits o tree path code := by
  rw [plan_eq_ok]
  constructor
  · rintro ⟨settings, hsettings, ⟨-, hself⟩ | ⟨input, source, m, hinput, hsource, hmodel, haction⟩⟩
    · exact absurd hself (selfCheckPlan_ne_save path code)
    · obtain ⟨hemit, hstdout, rfl, rfl⟩ := action_eq_save.mp haction
      exact ⟨⟨by simp [hinput], hemit, hstdout⟩,
        input, source, settings, m, hinput, hsettings, hsource, hmodel, rfl, rfl⟩
  · rintro ⟨⟨-, hemit, hstdout⟩, input, source, settings, m, hinput, hsettings, hsource, hmodel,
      rfl, rfl⟩
    exact ⟨settings, hsettings, .inr ⟨input, source, m, hinput, hsource, hmodel,
      action_eq_save.mpr ⟨hemit, hstdout, rfl, rfl⟩⟩⟩

theorem run_of_error {e : RunError} (h : (plan o tree.read).result = .error e) :
    run o tree = ⟨1, "", some e, (plan o tree.read).warnings, tree⟩ := by
  simp only [run, h]

theorem run_of_print {text : String} (h : (plan o tree.read).result = .ok (.print text)) :
    run o tree = ⟨0, text, none, (plan o tree.read).warnings, tree⟩ := by
  simp only [run, h]

theorem run_of_unwritable {f : FileFault} (h : (plan o tree.read).result = .ok (.save path code))
    (hwrite : tree.write path (Text.encode code) = .error f) :
    run o tree = ⟨1, "", some (.unwritable path f), (plan o tree.read).warnings, tree⟩ := by
  simp only [run, h, hwrite]

theorem run_of_save {tree' : FileTree} (h : (plan o tree.read).result = .ok (.save path code))
    (hwrite : tree.write path (Text.encode code) = .ok tree') :
    run o tree = ⟨0, savedText path, none, (plan o tree.read).warnings, tree'⟩ := by
  simp only [run, h, hwrite]

theorem run_cases (o : Options) (tree : FileTree) :
    (∃ e warnings, run o tree = ⟨1, "", some e, warnings, tree⟩) ∨
    (∃ text warnings, (plan o tree.read).result = .ok (.print text) ∧
      run o tree = ⟨0, text, none, warnings, tree⟩) ∨
    ∃ path code warnings tree', (plan o tree.read).result = .ok (.save path code) ∧
      tree.write path (Text.encode code) = .ok tree' ∧
      run o tree = ⟨0, savedText path, none, warnings, tree'⟩ := by
  cases hplan : (plan o tree.read).result with
  | error e => exact .inl ⟨e, _, run_of_error hplan⟩
  | ok action =>
    cases action with
    | print text => exact .inr (.inl ⟨text, _, rfl, run_of_print hplan⟩)
    | save path code =>
      cases hwrite : tree.write path (Text.encode code) with
      | error f => exact .inl ⟨_, _, run_of_unwritable hplan hwrite⟩
      | ok tree' => exact .inr (.inr ⟨path, code, _, tree', rfl, hwrite, run_of_save hplan hwrite⟩)

theorem run_stdout (hemit : o.emitModel = false) (h : Emits o tree path code) :
    ∃ warnings, run { o with stdout := true } tree = ⟨0, code, none, warnings, tree⟩ := by
  obtain ⟨input, source, settings, m, hinput, hsettings, hsource, hmodel, -, rfl⟩ := h
  have haction : ({ o with stdout := true } : Options).action (o.settings settings) m =
      .print (codeOf (o.settings settings) m) := by
    simp [Options.action, hemit]
  exact ⟨_, run_of_print (plan_eq_ok.mpr ⟨settings, hsettings,
    .inr ⟨input, source, m, hinput, hsource, hmodel, haction⟩⟩)⟩

theorem exists_write_of_saving (hsaving : o.Saving) (hexit : (run o tree).exitCode = 0) :
    ∃ path code tree', Emits o tree path code ∧
      tree.write path (Text.encode code) = .ok tree' ∧ (run o tree).tree = tree' := by
  rcases run_cases o tree with
    ⟨e, w, h⟩ | ⟨text, w, hplan, h⟩ | ⟨path, code, w, tree', hplan, hwrite, h⟩
  · rw [h] at hexit
    cases hexit
  · -- With an input, and no option to print, the plan would have been to save.
    obtain ⟨settings, -, ⟨hinput, -⟩ | ⟨input, source, m, -, -, -, haction⟩⟩ := plan_eq_ok.mp hplan
    · rw [Options.Saving, hinput] at hsaving
      cases hsaving.1
    · rw [action_eq_save.mpr ⟨hsaving.2.1, hsaving.2.2, rfl, rfl⟩] at haction
      cases haction
  · exact ⟨path, code, tree', (plan_eq_save.mp hplan).2, hwrite, by rw [h]⟩

theorem tree_eq_of_not_saving (hsaving : ¬ o.Saving) : (run o tree).tree = tree := by
  rcases run_cases o tree with ⟨e, w, h⟩ | ⟨text, w, -, h⟩ | ⟨path, code, w, tree', hplan, -, -⟩
  · rw [h]
  · rw [h]
  · exact absurd (plan_eq_save.mp hplan).1 hsaving

/-- A run that prints the model looks at no option but the input and the settings file. -/
theorem plan_emitModel (o : Options) (read : FileReader) (stdout : Bool) (target : Option Target)
    (outDir : Option String) :
    plan { o with emitModel := true, stdout := stdout, target := target, outDir := outDir } read =
      plan { o with emitModel := true } read := by
  unfold plan
  cases Settings.ofFileOrDefault (read o.config) with
  | error e => rfl
  | ok settings =>
    cases o.input with
    | none => rfl
    | some input =>
      dsimp only
      cases readText read input with
      | error f => rfl
      | ok source => rfl

end Run

/-- A run changes nothing and prints nothing if it fails. If it succeeds, a run
that is to save code changes the file of the code alone, and the same run with
`stdout` on prints that code and changes nothing, as does every run that is to
save nothing. Printing the model does not depend on the options for code, and
nothing depends on `verbose`. -/
theorem run_all_or_nothing (o : Options) (tree : FileTree) :
    ((run o tree).exitCode ≠ 0 → (run o tree).tree = tree ∧ (run o tree).stdout = "") ∧
    ((run o tree).exitCode = 0 → ¬ o.Saving → (run o tree).tree = tree) ∧
    ((run o tree).exitCode = 0 → o.Saving → ∃ path code loc, Emits o tree path code ∧
      tree.resolve path = .ok loc ∧
      (run o tree).tree.node? loc = some (.file (Text.encode code)) ∧
      (∀ other, other ≠ loc → (run o tree).tree.node? other = tree.node? other) ∧
      (run o tree).tree.read path = .ok (Text.encode code) ∧
      (run { o with stdout := true } tree).exitCode = 0 ∧
      (run { o with stdout := true } tree).tree = tree ∧
      (run { o with stdout := true } tree).stdout = code) ∧
    (∀ stdout target outDir,
      run { o with emitModel := true, stdout := stdout, target := target, outDir := outDir } tree =
        run { o with emitModel := true } tree) ∧
    ∀ verbose, run { o with verbose := verbose } tree = run o tree := by
  refine ⟨fun hexit => ?_, fun _ hsaving => tree_eq_of_not_saving hsaving, fun hexit hsaving => ?_,
    fun stdout target outDir => ?_, fun verbose => rfl⟩
  · rcases run_cases o tree with ⟨e, w, h⟩ | ⟨text, w, -, h⟩ | ⟨path, code, w, tree', -, -, h⟩
    · rw [h]
      exact ⟨rfl, rfl⟩
    · rw [h] at hexit
      exact absurd rfl hexit
    · rw [h] at hexit
      exact absurd rfl hexit
  · obtain ⟨path, code, tree', hemits, hwrite, htree⟩ := exists_write_of_saving hsaving hexit
    obtain ⟨loc, hresolve, hnode, hother, hread⟩ := FileTree.read_of_write hwrite
    obtain ⟨w, hstdout⟩ := run_stdout hsaving.2.1 hemits
    rw [htree, hstdout]
    exact ⟨path, code, loc, hemits, hresolve, hnode, hother, hread, rfl, rfl, rfl⟩
  · unfold run
    rw [plan_emitModel]

/-- The code goes over an older file; the file of the model stays. -/
theorem run_all_or_nothing_overwriting :
    let source := "model N \x7b\ninput: size=2\nlayer: units=3, activation=\"relu\"\n\x7d"
    let tree : FileTree := ⟨[(["net"], .file (Text.encode source)), (["out"], .directory),
      (["out", "N.py"], .file [])], []⟩
    let o : Options := { input := some "net", target := some .python, outDir := some "out" }
    (run o tree).exitCode = 0 ∧ o.Saving ∧ ∃ path code, Emits o tree path code ∧
      tree.resolve path = .ok ["out", "N.py"] ∧
      (run o tree).tree.node? ["out", "N.py"] = some (.file (Text.encode code)) ∧
      (run o tree).tree.node? ["net"] = some (.file (Text.encode source)) ∧
      (run o tree).tree.read path = .ok (Text.encode code) ∧
      (run { o with stdout := true } tree).exitCode = 0 ∧
      (run { o with stdout := true } tree).tree = tree ∧
      (run { o with stdout := true } tree).stdout = code := by
  intro source tree o
  have hexit : (run o tree).exitCode = 0 := by
    subst o tree source
    decide +kernel
  have hsaving : o.Saving := ⟨rfl, rfl, rfl⟩
  obtain ⟨path, code, loc, hemits, hresolve, hnode, hother, hread, hstdout⟩ :=
    (run_all_or_nothing o tree).2.2.1 hexit hsaving
  have hchanged : (run o tree).tree.node? ["out", "N.py"] ≠ tree.node? ["out", "N.py"] := by
    subst o tree source
    decide +kernel
  -- No location but that of the code has changed.
  obtain rfl : ["out", "N.py"] = loc :=
    Decidable.byContradiction fun hne => hchanged (hother _ hne)
  have hsource : (run o tree).tree.node? ["net"] = tree.node? ["net"] := hother _ (by decide)
  exact ⟨hexit, hsaving, path, code, hemits, hresolve, hnode, hsource.trans rfl, hread, hstdout⟩

end Feedforward.Command
