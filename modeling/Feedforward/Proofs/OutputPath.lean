import Mathlib.Data.List.Basic
import Feedforward.Proofs.FileTree
import Feedforward.Proofs.Naming
import Feedforward.Settings

/-! Where the code of a model is written. A file name is one step of a path and
adds that step to those of its directory; the name of a model and the extension
of a target make up such a file name, from which both can be told. -/
namespace Feedforward
namespace Path
variable {dir file path : String}

theorem splitSlashes_ne_nil (s : List Char) : splitSlashes s ≠ [] := by
  fun_cases splitSlashes s <;> simp_all

theorem splitSlashes_append (s t : List Char) :
    splitSlashes (s ++ '/' :: t) = splitSlashes s ++ splitSlashes t := by
  fun_induction splitSlashes s with
  | case1 => rfl
  | case2 s ih => rw [List.cons_append, splitSlashes, ih, List.cons_append]
  | case3 c s hc hnil ih => exact absurd hnil (splitSlashes_ne_nil s)
  | case4 c s hc part others hparts ih =>
    rw [hparts, List.cons_append] at ih
    rw [List.cons_append, splitSlashes.eq_3 _ _ hc, ih, List.cons_append]

theorem splitSlashes_of_not_mem {s : List Char} (h : '/' ∉ s) : splitSlashes s = [s] := by
  induction s with
  | nil => rfl
  | cons c s ih =>
    rw [List.mem_cons, not_or] at h
    rw [splitSlashes.eq_3 _ _ (Ne.symm h.1), ih h.2]

theorem parts_ne_nil (path : String) : parts path ≠ [] := by
  simpa [parts] using splitSlashes_ne_nil path.toList

theorem parts_of_not_mem (h : '/' ∉ file.toList) : parts file = [file] := by
  rw [parts, splitSlashes_of_not_mem h, List.map_singleton, String.ofList_toList]

theorem parts_slash (dir file : String) : parts (dir ++ "/" ++ file) = parts dir ++ parts file := by
  have hlist : (dir ++ "/" ++ file).toList = dir.toList ++ '/' :: file.toList := by
    simp
  rw [parts, hlist, splitSlashes_append, List.map_append]
  rfl

/-- The first part of a path is dropped only if it is empty, any other also if it is a dot. -/
theorem steps_of_parts {first : String} {others : List String} (h : parts path = first :: others) :
    steps path = [first].filter (· != "") ++ others.filter isStep := by
  rw [steps, h]
  split
  · next heq =>
    obtain ⟨rfl, rfl⟩ := List.cons.inj heq
    rfl
  · next hdot =>
    have hne : first ≠ "." := fun he => hdot others (by rw [he])
    have hfirst : isStep first = (first != "") := by
      simp [isStep, hne]
    rw [List.filter_cons, List.filter_cons, hfirst]
    split <;> rfl

theorem steps_slash (dir file : String) :
    steps (dir ++ "/" ++ file) = steps dir ++ (parts file).filter isStep := by
  cases hparts : parts dir with
  | nil => exact absurd hparts (parts_ne_nil dir)
  | cons first others =>
    have hjoined : parts (dir ++ "/" ++ file) = first :: (others ++ parts file) := by
      rw [parts_slash, hparts, List.cons_append]
    rw [steps_of_parts hjoined, steps_of_parts hparts, List.filter_append, List.append_assoc]

theorem isAbsolute_append (hdir : dir ≠ "") (s : String) :
    isAbsolute (dir ++ s) = isAbsolute dir := by
  have hne : dir.toList ≠ [] := mt String.toList_eq_nil_iff.mp hdir
  rw [isAbsolute, isAbsolute, String.toList_append, List.head?_append_of_ne_nil _ hne]

/-- The directory of a path, by whether it is absolute and by its steps, unless the
path has no last step to take away. -/
def parent? (path : String) : Option (Bool × List String) :=
  if steps path = [] then none else some (isAbsolute path, (steps path).dropLast)

structure IsFileName (file : String) : Prop where
  ne_empty : file ≠ ""
  ne_dot : file ≠ "."
  ne_dots : file ≠ ".."
  no_slash : '/' ∉ file.toList

namespace IsFileName

theorem parts_eq (h : IsFileName file) : parts file = [file] := parts_of_not_mem h.no_slash

theorem isStep_eq (h : IsFileName file) : isStep file = true := by
  simp [isStep, h.ne_empty, h.ne_dot]

theorem not_isAbsolute (h : IsFileName file) : isAbsolute file = false := by
  rw [isAbsolute, beq_eq_false_iff_ne]
  exact fun hhead => h.no_slash (List.mem_of_mem_head? hhead)

theorem join_eq (h : IsFileName file) (dir : String) :
    join dir file =
      (if dir = "" ∨ dir.toList.getLast? = some '/' then dir else dir ++ "/") ++ file := by
  rw [join, h.not_isAbsolute, Bool.false_or]
  by_cases hempty : dir = ""
  · simp [hempty]
  · simp only [hempty, decide_false, Bool.false_eq_true, if_false, false_or]
    split <;> rfl

theorem exists_join_eq_slash (h : IsFileName file) (hdir : dir ≠ "") :
    ∃ base, join dir file = base ++ "/" ++ file ∧ (dir = base ∨ dir = base ++ "/" ++ "") := by
  rw [h.join_eq]
  by_cases hslash : dir.toList.getLast? = some '/'
  · rw [if_pos (Or.inr hslash)]
    obtain ⟨base, hbase⟩ := List.getLast?_eq_some_iff.mp hslash
    have heq : dir = String.ofList base ++ "/" := by
      apply String.toList_inj.mp
      simp [hbase]
    exact ⟨String.ofList base, by rw [heq], Or.inr (by rw [heq, String.append_empty])⟩
  · rw [if_neg (by simp [hdir, hslash])]
    exact ⟨dir, rfl, Or.inl rfl⟩

theorem exists_join_eq_append (h : IsFileName file) (dir : String) :
    ∃ rest, join dir file = dir ++ rest := by
  rw [h.join_eq]
  split
  · exact ⟨file, rfl⟩
  · exact ⟨"/" ++ file, String.append_assoc ..⟩

theorem steps_join (h : IsFileName file) (dir : String) :
    steps (join dir file) = steps dir ++ [file] := by
  by_cases hdir : dir = ""
  · have hsteps := steps_of_parts h.parts_eq
    have hne := h.ne_empty
    rw [h.join_eq, if_pos (Or.inl hdir), hdir, String.empty_append, hsteps]
    simp [steps, parts, splitSlashes, isStep, hne]
  · obtain ⟨base, hjoin, hbase⟩ := h.exists_join_eq_slash hdir
    have hsteps : steps dir = steps base := by
      rcases hbase with rfl | rfl
      · rfl
      · rw [steps_slash, show (parts "").filter isStep = [] by decide, List.append_nil]
    rw [hjoin, steps_slash, h.parts_eq, hsteps, List.filter_cons_of_pos h.isStep_eq,
      List.filter_nil]

theorem isAbsolute_join (h : IsFileName file) (dir : String) :
    isAbsolute (join dir file) = isAbsolute dir := by
  by_cases hdir : dir = ""
  · rw [h.join_eq, if_pos (Or.inl hdir), hdir, String.empty_append, h.not_isAbsolute]
    rfl
  · obtain ⟨rest, hrest⟩ := h.exists_join_eq_append dir
    rw [hrest, isAbsolute_append hdir]

theorem parent?_join (h : IsFileName file) (dir : String) :
    parent? (join dir file) = some (isAbsolute dir, steps dir) := by
  rw [parent?, h.steps_join, h.isAbsolute_join, List.dropLast_concat]
  exact if_neg (by simp)

theorem eq_of_same {dir' file' : String} (h : IsFileName file) (h' : IsFileName file')
    (hsame : same (join dir file) (join dir' file') = true) : file = file' := by
  rw [same, Bool.and_eq_true, beq_iff_eq, beq_iff_eq, h.steps_join, h'.steps_join] at hsame
  exact List.singleton_inj.mp (List.append_inj_right' hsame.2 rfl)

end IsFileName
end Path

namespace FileTree
variable {t : FileTree} {here loc : Location} {dir file : String}

theorem walk_fileName (hfile : Path.IsFileName file) (h : t.walk here [file] = .ok loc) :
    t.node? here = some .directory ∧ loc = here ++ [file] := by
  obtain ⟨hdirectory, next, hnext, hloc⟩ := walk_cons.mp h
  rw [advance, hfile.isStep_eq, Bool.not_true, if_neg Bool.false_ne_true, if_neg hfile.ne_dots]
    at hnext
  split at hnext
  · cases hnext
  · cases hnext
    exact ⟨hdirectory, (Except.ok.inj hloc).symm⟩

/-- The path of a file leads into the directory before it: where the directory's
own path leads, or where the walk begins if that is empty. -/
theorem resolve_join (hfile : Path.IsFileName file)
    (h : t.resolve (Path.join dir file) = .ok loc) :
    ∃ parent, (dir = "" → parent = t.workingDir) ∧ (dir ≠ "" → t.resolve dir = .ok parent) ∧
      t.node? parent = some .directory ∧ loc = parent ++ [file] := by
  obtain ⟨hnul, -, hsize, hwalk⟩ := resolve_eq_ok.mp h
  rw [hfile.isAbsolute_join] at hwalk
  by_cases hdir : dir = ""
  · rw [hfile.join_eq, if_pos (Or.inl hdir), hdir, String.empty_append, hfile.parts_eq] at hwalk
    exact ⟨t.workingDir, fun _ => rfl, absurd hdir, walk_fileName hfile hwalk⟩
  · obtain ⟨base, hjoin, hbase⟩ := hfile.exists_join_eq_slash hdir
    rw [hjoin, Path.parts_slash, hfile.parts_eq] at hwalk
    obtain ⟨parent, hparent, hlast⟩ := walk_append.mp hwalk
    obtain ⟨hdirectory, hloc⟩ := walk_fileName hfile hlast
    obtain ⟨rest, hrest⟩ := hfile.exists_join_eq_append dir
    rw [hrest, String.toList_append, List.mem_append, not_or] at hnul
    rw [hrest, String.utf8ByteSize_append] at hsize
    refine ⟨parent, fun he => absurd he hdir, fun _ => resolve_eq_ok.mpr ?_, hdirectory, hloc⟩
    refine ⟨hnul.1, hdir, Nat.le_trans (Nat.le_add_right _ _) hsize, ?_⟩
    rcases hbase with hbase | hbase
    · rw [show Path.parts dir = Path.parts base by rw [hbase]]
      exact hparent
    · -- A slash at the end adds an empty part, which leads from a directory to itself.
      rw [show Path.parts dir = Path.parts base ++ [""] by rw [hbase, Path.parts_slash]; rfl]
      exact walk_append.mpr ⟨parent, hparent, walk_cons.mpr ⟨hdirectory, parent, rfl, rfl⟩⟩

theorem eq_of_resolve_join {dir' file' : String} (hfile : Path.IsFileName file)
    (hfile' : Path.IsFileName file') (h : t.resolve (Path.join dir file) = .ok loc)
    (h' : t.resolve (Path.join dir' file') = .ok loc) : file = file' := by
  obtain ⟨parent, -, -, -, heq⟩ := resolve_join hfile h
  obtain ⟨parent', -, -, -, heq'⟩ := resolve_join hfile' h'
  exact List.singleton_inj.mp (List.append_inj_right' (heq.symm.trans heq') rfl)

end FileTree

namespace Name
open Token (isWordPart)

theorem not_mem_of_check {name : String} (h : check name = .ok ()) {c : Char}
    (hc : isWordPart c = false) : c ∉ name.toList := by
  intro hmem
  have hword := isWord_of_isIdentifier (check_eq_ok_iff.mp h).1
  have hpart := isWordPart_of_isWord hword c hmem
  rw [hc] at hpart
  cases hpart

theorem ne_empty_of_check {name : String} (h : check name = .ok ()) : name ≠ "" := by
  rintro rfl
  cases h

end Name

namespace Settings
variable {s s' : Settings} {name name' : String}

def outputFile (s : Settings) (modelName : String) : String :=
  modelName ++ "." ++ s.target.extension

theorem outputPath_eq (s : Settings) (name : String) :
    s.outputPath name = Path.join s.outDir (s.outputFile name) := rfl

theorem outputFile_toList (s : Settings) (name : String) :
    (s.outputFile name).toList = name.toList ++ '.' :: s.target.extension.toList := by
  simp [outputFile]

theorem isFileName_outputFile (h : Name.check name = .ok ()) (s : Settings) :
    Path.IsFileName (s.outputFile name) := by
  have hdot : '.' ∉ name.toList := Name.not_mem_of_check h (by decide)
  have hslash : '/' ∉ name.toList := Name.not_mem_of_check h (by decide)
  have hlist := s.outputFile_toList name
  -- A file name of dots alone would begin with the dot after an empty name.
  have hhead : (s.outputFile name).toList.head? ≠ some '.' := by
    have hne : name.toList ≠ [] := mt String.toList_eq_nil_iff.mp (Name.ne_empty_of_check h)
    rw [hlist, List.head?_append_of_ne_nil _ hne]
    exact fun hh => hdot (List.mem_of_mem_head? hh)
  refine ⟨?_, ?_, ?_, ?_⟩
  · intro he
    simp [he] at hlist
  · intro he
    exact hhead (by rw [he]; rfl)
  · intro he
    exact hhead (by rw [he]; rfl)
  · have hext : '/' ∉ s.target.extension.toList := by
      cases s.target <;> decide
    rw [hlist]
    simp [hslash, hext]

/-- The only dot of a file name stands between a name and an extension. -/
theorem outputFile_injective (h : Name.check name = .ok ())
    (heq : s.outputFile name = s'.outputFile name') : name = name' ∧ s.target = s'.target := by
  have hname : '.' ∉ name.toList := Name.not_mem_of_check h (by decide)
  have hext : '.' ∉ s.target.extension.toList := by
    cases s.target <;> decide
  have hlist := congrArg String.toList heq
  rw [outputFile_toList, outputFile_toList, List.append_cons_inj_of_notMem hname hext] at hlist
  obtain ⟨hnames, -, hexts⟩ := hlist
  exact ⟨String.toList_inj.mp hnames, Target.extension_injective (String.toList_inj.mp hexts)⟩

/-- The code of a model is written to one file in the output directory, whatever the
tree of files; only for the same name and target is that the same file. -/
theorem outputPath_within_outDir (h : Name.check name = .ok ()) (s : Settings) :
    (Path.IsFileName (s.outputFile name) ∧ Path.isAbsolute (s.outputFile name) = false) ∧
    s.outputPath name =
      (if s.outDir = "" ∨ s.outDir.toList.getLast? = some '/' then s.outDir else s.outDir ++ "/") ++
        s.outputFile name ∧
    (Path.parent? (s.outputPath name) = some (Path.isAbsolute s.outDir, Path.steps s.outDir) ∧
      (Path.steps (s.outputPath name)).getLast? = some (s.outputFile name)) ∧
    (∀ (t : FileTree) (loc : Location), t.resolve (s.outputPath name) = .ok loc →
      ∃ dir, (s.outDir = "" → dir = t.workingDir) ∧
        (s.outDir ≠ "" → t.resolve s.outDir = .ok dir) ∧
        t.node? dir = some .directory ∧ loc = dir ++ [s.outputFile name]) ∧
    ∀ (s' : Settings) (name' : String), Name.check name' = .ok () →
      (Path.same (s.outputPath name) (s'.outputPath name') = true ∨
        ∃ (t : FileTree) (loc : Location), t.resolve (s.outputPath name) = .ok loc ∧
          t.resolve (s'.outputPath name') = .ok loc) →
      name = name' ∧ s.target = s'.target := by
  have hfile := isFileName_outputFile h s
  rw [outputPath_eq]
  refine ⟨⟨hfile, hfile.not_isAbsolute⟩, hfile.join_eq s.outDir,
    ⟨hfile.parent?_join s.outDir, ?_⟩, fun t loc => FileTree.resolve_join hfile, ?_⟩
  · rw [hfile.steps_join, List.getLast?_concat]
  · intro s' name' h' hsame
    have hfile' := isFileName_outputFile h' s'
    rw [outputPath_eq] at hsame
    apply outputFile_injective h
    rcases hsame with hsame | ⟨t, loc, hloc, hloc'⟩
    · exact hfile.eq_of_same hfile' hsame
    · exact FileTree.eq_of_resolve_join hfile hfile' hloc hloc'

theorem outputPath_within_outDir_net :
    let s : Settings := ⟨.python, "out/", 4⟩
    let t := (FileTree.empty ["home"]).add "out" .directory
    Name.check "Net" = .ok () ∧ s.outputPath "Net" = "out/Net.py" ∧
      Path.parent? (s.outputPath "Net") = some (false, ["out"]) ∧
      t.resolve (s.outputPath "Net") = .ok ["home", "out", "Net.py"] ∧
      (∃ dir, t.resolve "out/" = .ok dir ∧ ["home", "out", "Net.py"] = dir ++ ["Net.py"]) ∧
      Path.same (s.outputPath "Net") (Settings.outputPath ⟨.cpp, "out", 4⟩ "Net") = false := by
  intro s t
  have hcheck : Name.check "Net" = .ok () := by decide
  have hresolve : t.resolve (s.outputPath "Net") = .ok ["home", "out", "Net.py"] := by decide
  obtain ⟨-, hpath, ⟨hparent, -⟩, hwithin, happart⟩ := outputPath_within_outDir hcheck s
  obtain ⟨dir, -, hdir, -, hloc⟩ := hwithin t _ hresolve
  refine ⟨hcheck, hpath.trans (by decide), hparent.trans (by decide), hresolve,
    ⟨dir, hdir (by decide), hloc⟩, ?_⟩
  rw [Bool.eq_false_iff]
  intro hsame
  cases (happart ⟨.cpp, "out", 4⟩ "Net" hcheck (Or.inl hsame)).2

end Settings
end Feedforward
