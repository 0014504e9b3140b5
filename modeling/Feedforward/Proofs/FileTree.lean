import Feedforward.FileTree

/-! What writing a file does to a tree: one location changes and no path leads
anywhere else than before. -/
namespace Feedforward.FileTree
variable {t t' : FileTree} {path : String} {loc : Location} {content : List UInt8}

theorem node?_nil (t : FileTree) : t.node? [] = some .directory := rfl

theorem write_eq_ok :
    t.write path content = .ok t' ↔ ∃ loc, t.resolve path = .ok loc ∧
      t.node? loc ≠ some .directory ∧ t' = t.put loc (.file content) := by
  unfold write
  cases t.resolve path with
  | error f => simp
  | ok loc =>
    cases hnode : t.node? loc with
    | none => simp [hnode, eq_comm]
    | some n => cases n <;> simp [hnode, eq_comm]

theorem ne_nil_of_node?_ne (h : t.node? loc ≠ some .directory) : loc ≠ [] := by
  rintro rfl
  exact h t.node?_nil

def advance (here : Location) (part : String) : Except FileFault Location :=
  if !Path.isStep part then .ok here
  else if part = ".." then .ok here.dropLast
  else if maxNameSize < part.utf8ByteSize then .error .nameTooLong
  else .ok (here ++ [part])

/-- One step of a walk: the tree only says whether there is a directory to leave from. -/
theorem walk_cons {here there : Location} {part : String} {parts : List String} :
    t.walk here (part :: parts) = .ok there ↔ t.node? here = some .directory ∧
      ∃ next, advance here part = .ok next ∧ t.walk next parts = .ok there := by
  rw [walk, advance]
  split
  · next hnone => simp [hnone]
  · next hfile => simp [hfile]
  · next hdirectory =>
    by_cases hstep : Path.isStep part = true
    · by_cases hup : part = ".."
      · simp [hdirectory, hstep, if_pos hup]
      · by_cases hlong : maxNameSize < part.utf8ByteSize
        · simp [hdirectory, hstep, hup, hlong]
        · simp [hdirectory, hstep, hup, hlong]
    · simp [hdirectory, hstep]

theorem walk_append {here there : Location} {front back : List String} :
    t.walk here (front ++ back) = .ok there ↔
      ∃ mid, t.walk here front = .ok mid ∧ t.walk mid back = .ok there := by
  induction front generalizing here with
  | nil => simp [walk]
  | cons part front ih =>
    rw [List.cons_append, walk_cons]
    constructor
    · rintro ⟨hdirectory, next, hnext, hrest⟩
      obtain ⟨mid, hfront, hback⟩ := ih.mp hrest
      exact ⟨mid, walk_cons.mpr ⟨hdirectory, next, hnext, hfront⟩, hback⟩
    · rintro ⟨mid, hmid, hback⟩
      obtain ⟨hdirectory, next, hnext, hfront⟩ := walk_cons.mp hmid
      exact ⟨hdirectory, next, hnext, ih.mpr ⟨mid, hfront, hback⟩⟩

/-- A walk goes through directories only, so a change elsewhere does not divert it. -/
theorem walk_put (h : t.node? loc ≠ some .directory) (n : Node) {here there : Location}
    {parts : List String} (hwalk : t.walk here parts = .ok there) :
    (t.put loc n).walk here parts = .ok there := by
  induction parts generalizing here with
  | nil => exact hwalk
  | cons part parts ih =>
    obtain ⟨hdirectory, next, hnext, hrest⟩ := walk_cons.mp hwalk
    -- The walk is at a directory, which the changed location is not.
    have hne : here ≠ loc := by
      rintro rfl
      exact h hdirectory
    refine walk_cons.mpr ⟨?_, next, hnext, ih hrest⟩
    rw [node?_put_of_ne t n hne, hdirectory]

theorem resolve_eq_ok :
    t.resolve path = .ok loc ↔ '\x00' ∉ path.toList ∧ path ≠ "" ∧
      path.utf8ByteSize ≤ maxPathSize ∧
      t.walk (if Path.isAbsolute path then [] else t.workingDir) (Path.parts path) = .ok loc := by
  unfold resolve
  split
  · next hnul => simp_all
  · next hnul =>
    split
    · next hempty => simp_all
    · next hempty =>
      split
      · next hlong => simp [Nat.not_le.mpr hlong]
      · next hlong => simp_all

theorem resolve_put (h : t.node? loc ≠ some .directory) (n : Node) {there : Location}
    (hresolve : t.resolve path = .ok there) : (t.put loc n).resolve path = .ok there := by
  obtain ⟨hnul, hempty, hsize, hwalk⟩ := resolve_eq_ok.mp hresolve
  exact resolve_eq_ok.mpr ⟨hnul, hempty, hsize, walk_put h n hwalk⟩

theorem read_of_write (h : t.write path content = .ok t') :
    ∃ loc, t.resolve path = .ok loc ∧ t'.node? loc = some (.file content) ∧
      (∀ other, other ≠ loc → t'.node? other = t.node? other) ∧ t'.read path = .ok content := by
  obtain ⟨loc, hresolve, hnode, rfl⟩ := write_eq_ok.mp h
  have hself := node?_put_self t (.file content) (ne_nil_of_node?_ne hnode)
  refine ⟨loc, hresolve, hself, fun other hne => node?_put_of_ne t _ hne, ?_⟩
  rw [read, resolve_put hnode _ hresolve]
  dsimp only
  rw [hself]

end Feedforward.FileTree
