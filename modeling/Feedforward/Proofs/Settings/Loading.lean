import Mathlib.Data.List.Forall2
import Feedforward.Proofs.Json.Values
import Feedforward.Settings
import Feedforward.Token.Scan

/-! Settings as a text gives them. `ObjectText` and `ListText` say which texts
give which values to which fields, in any layout and with any escapes, and a
reader that has seen some of the fields is in the state `Fields.only` of them. One
member adds at most its field to that state, so by induction on the members an
object adds the fields it gives, and all others keep their defaults. -/
namespace Feedforward.Settings
open Json

inductive ValueText (s : Settings) : Field → Bytes → Prop where
  | target {text : Bytes} : Spells s.target.name.toList text → ValueText s .target (inQuotes text)
  | outDir {text : Bytes} : Spells s.outDir.toList text → ValueText s .outDir (inQuotes text)
  | indent : ValueText s .indent (decimalDigits s.indent)

structure Member where
  before : Bytes
  key : Bytes
  colon : Bytes
  gap : Bytes
  value : Bytes
  after : Bytes
  before_blanks : Blanks before
  colon_blanks : Blanks colon
  gap_blanks : Blanks gap
  after_blanks : Blanks after

def Member.text (m : Member) : Bytes :=
  m.before ++ (inQuotes m.key ++ (m.colon ++ byte ':' :: (m.gap ++ (m.value ++ m.after))))

/-- The field that a member gives, if its key is that of a field. Members with
other keys have any value. -/
inductive Gives (s : Settings) : Member → Option Field → Prop where
  | field {m : Member} {f : Field} : Spells f.key.toList m.key → ValueText s f m.value →
      Gives s m (some f)
  | other {m : Member} {key : String} : (∀ f : Field, f.key ≠ key) → Spells key.toList m.key →
      IsValue m.value → Gives s m none

inductive Members (s : Settings) : List Member → List Field → Prop where
  | nil : Members s [] []
  | cons {m : Member} {ms : List Member} {given : Option Field} {fields : List Field} :
      Gives s m given → Members s ms fields → Members s (m :: ms) (given.toList ++ fields)

/-- An object that gives fields the values that they have in settings. -/
inductive ObjectText (s : Settings) : List Field → Bytes → Prop where
  | empty {before inside after : Bytes} : Blanks before → Blanks inside → Blanks after →
      ObjectText s [] (before ++ byte '{' :: (inside ++ byte '}' :: after))
  | filled {before after : Bytes} {ms : List Member} {fields : List Field} : Blanks before →
      ms ≠ [] → Members s ms fields → Blanks after →
      ObjectText s fields
        (before ++ byte '{' :: (commaSeparated (ms.map Member.text) ++ byte '}' :: after))

def Element (s : Settings) (f : Field) (i : Item) : Prop :=
  Blanks i.lead ∧ ValueText s f i.value

inductive ListText (s : Settings) : Bytes → Prop where
  | mk {before after : Bytes} {items : List Item} : Blanks before →
      List.Forall₂ (Element s) Field.all items → Blanks after →
      ListText s (before ++ byte '[' :: (commaSeparated (items.map Item.text) ++ byte ']' :: after))

/-- Settings with the default of each field that is not among the given ones. -/
def keep (s : Settings) (given : List Field) : Settings where
  target := if .target ∈ given then s.target else .cpp
  outDir := if .outDir ∈ given then s.outDir else "."
  indent := if .indent ∈ given then s.indent else 4

theorem keep_of_forall_mem (s : Settings) {given : List Field} (h : ∀ f, f ∈ given) :
    s.keep given = s := by
  simp [keep, h]

/-- The state of a reader that has seen some fields of settings. -/
def Fields.only (s : Settings) (seen : List Field) : Fields where
  target := if .target ∈ seen then some s.target else none
  outDir := if .outDir ∈ seen then some s.outDir else none
  indent := if .indent ∈ seen then some s.indent else none

variable {s : Settings} {seen fields : List Field} {f : Field} {before gap after rest v : Bytes}

theorem Fields.only_nil (s : Settings) : Fields.only s [] = {} := rfl

theorem Fields.has_only (s : Settings) (seen : List Field) (f : Field) :
    (Fields.only s seen).has f = decide (f ∈ seen) := by
  cases f <;> simp only [has, only] <;> split <;> simp [*]

theorem Fields.settings_only (s : Settings) (seen : List Field) :
    (Fields.only s seen).settings = s.keep seen := by
  simp only [settings, only, keep, Settings.mk.injEq]
  refine ⟨?_, ?_, ?_⟩ <;> split <;> rfl

theorem Field.mem_all (f : Field) : f ∈ all := by
  cases f <;> decide

theorem Field.ofKey?_key (f : Field) : ofKey? f.key = some f := by
  cases f <;> decide

theorem Field.ofKey?_eq_none {key : String} (h : ∀ f : Field, f.key ≠ key) :
    ofKey? key = none := by
  simp [ofKey?, h]

theorem readTarget_eq {text : Bytes} (h : Spells s.target.name.toList text) (hgap : Blanks gap)
    (rest : Bytes) : readTarget (gap ++ (inQuotes text ++ rest)) = .ok (s.target, rest) := by
  rw [inQuotes_append, readTarget, dropBlanks_to hgap (by decide)]
  dsimp only
  rw [if_pos (by rfl), h.readString_eq]
  dsimp only
  rw [targetNamed, Target.ofName?_name]

theorem readText_eq {expected text : String} {content : Bytes} (h : Spells text.toList content)
    (hgap : Blanks gap) (rest : Bytes) :
    readText expected (gap ++ (inQuotes content ++ rest)) = .ok (text, rest) := by
  rw [inQuotes_append, readText, dropBlanks_to hgap (by decide)]
  dsimp only
  rw [if_pos (by rfl), h.readString_eq]

theorem nextMember_closing (first : Bool) (hafter : Blanks after) (rest : Bytes) :
    nextMember first (after ++ byte '}' :: rest) = .ok (false, rest) := by
  rw [nextMember, dropBlanks_to hafter (by decide)]
  rfl

theorem nextMember_first (hbefore : Blanks before) (rest : Bytes) :
    nextMember true (before ++ byte '"' :: rest) = .ok (true, rest) := by
  rw [nextMember, dropBlanks_to hbefore (by decide)]
  rfl

theorem nextMember_comma (hafter : Blanks after) (hbefore : Blanks before) (rest : Bytes) :
    nextMember false (after ++ byte ',' :: (before ++ byte '"' :: rest)) = .ok (true, rest) := by
  rw [nextMember, dropBlanks_to hafter (by decide)]
  dsimp only
  rw [dropBlanks_to hbefore (by decide)]
  rfl

theorem readMembers_of_closing {state : Fields} {first : Bool} {text : Bytes}
    (h : nextMember first text = .ok (false, rest)) :
    readMembers state first text = .ok (state, rest) := by
  rw [readMembers]
  grind

theorem readMembers_of_member {state state' : Fields} {first : Bool} {text t u : Bytes}
    (h : nextMember first text = .ok (true, t)) (hm : readMember state t = .ok (state', u)) :
    readMembers state first text = readMembers state' false u := by
  rw [readMembers.eq_def state]
  grind

theorem readFields_object (hbefore : Blanks before) (rest : Bytes) :
    readFields (before ++ byte '{' :: rest) = readMembers {} true rest := by
  rw [readFields, dropBlanks_to hbefore (by decide)]
  rfl

theorem endList_eq (hafter : Blanks after) (rest : Bytes) :
    endList (after ++ byte ']' :: rest) = .ok rest := by
  rw [endList, dropBlanks_to hafter (by decide)]
  rfl

theorem read_of_readFields {text : Bytes} (hafter : Blanks after)
    (h : readFields text = .ok (.only s fields, after)) : read text = .ok (s.keep fields) := by
  rw [read, h]
  dsimp only
  rw [dropBlanks_of_blanks hafter, Fields.settings_only]

theorem ofFile_eq_ok {file : Except FileFault Bytes} {loaded : Settings} :
    ofFile file = .ok loaded ↔ ∃ text, file = .ok text ∧ read text = .ok loaded := by
  constructor
  · intro h
    cases file with
    | error fault => cases fault <;> cases h
    | ok text => exact ⟨text, rfl, mapError_eq_ok.mp h⟩
  · rintro ⟨text, rfl, h⟩
    exact mapError_eq_ok.mpr h

section InRange
variable (hrange : 1 ≤ s.indent ∧ s.indent < 2 ^ 64)
include hrange

theorem ValueText.readField_eq (h : ValueText s f v) (seen : List Field) (hgap : Blanks gap)
    (hrest : Follows rest) :
    readField (.only s seen) f (gap ++ (v ++ rest)) = .ok (.only s (seen ++ [f]), rest) := by
  cases h with
  | target h =>
    rw [readField, readTarget_eq h hgap]
    simp [Fields.only]
  | outDir h =>
    rw [readField, readText_eq h hgap]
    simp [Fields.only]
  | indent =>
    rw [readField, readPositive_decimalDigits _ hrange.1 hrange.2 hgap hrest]
    simp [Fields.only]

theorem Gives.readMember_eq {m : Member} {given : Option Field} (h : Gives s m given)
    (hnew : ∀ f ∈ given, f ∉ seen) (hrest : Follows rest) :
    readMember (.only s seen)
        (m.key ++ byte '"' :: (m.colon ++ byte ':' :: (m.gap ++ (m.value ++ rest)))) =
      .ok (.only s (seen ++ given.toList), rest) := by
  cases h with
  | @field f hkey hvalue =>
    rw [readMember, hkey.readString_eq]
    dsimp only
    rw [Field.ofKey?_key]
    dsimp only
    rw [Fields.has_only, if_neg (by simpa using hnew f rfl), readColon_to m.colon_blanks]
    exact hvalue.readField_eq hrange seen m.gap_blanks hrest
  | other hother hkey hvalue =>
    rw [readMember, hkey.readString_eq]
    dsimp only
    rw [Field.ofKey?_eq_none hother]
    dsimp only
    rw [readColon_to m.colon_blanks]
    dsimp only
    rw [hvalue.skip_eq m.gap_blanks hrest, Option.toList_none, List.append_nil]

theorem Gives.readMembers_step {m : Member} {given : Option Field} {first : Bool} {text : Bytes}
    (h : Gives s m given) (hnodup : (seen ++ (given.toList ++ fields)).Nodup)
    (hrest : Follows (m.after ++ rest))
    (hnext : nextMember first text = .ok (true,
      m.key ++ byte '"' :: (m.colon ++ byte ':' :: (m.gap ++ (m.value ++ (m.after ++ rest)))))) :
    readMembers (.only s seen) first text =
      readMembers (.only s (seen ++ given.toList)) false (m.after ++ rest) := by
  have hnew : ∀ f ∈ given, f ∉ seen := by
    intro f hf hseen
    have hdisjoint := (List.nodup_append.mp hnodup).2.2
    exact hdisjoint f hseen f (List.mem_append_left _ (Option.mem_toList.mpr hf)) rfl
  exact readMembers_of_member hnext (h.readMember_eq hrange hnew hrest)

theorem Members.readMembers_others {ms : List Member} (h : Members s ms fields)
    (hnodup : (seen ++ fields).Nodup) (hafter : Blanks after) (rest : Bytes) :
    readMembers (.only s seen) false
        (after ++ ((ms.map Member.text).flatMap (byte ',' :: ·) ++ byte '}' :: rest)) =
      .ok (.only s (seen ++ fields), rest) := by
  induction h generalizing seen after with
  | nil =>
    rw [List.append_nil]
    exact readMembers_of_closing (nextMember_closing false hafter rest)
  | @cons m ms given fields hm _ ih =>
    have hrest := follows_others (c := .object) (ms.map Member.text) m.after_blanks rest
    rw [Container.closing] at hrest
    rw [List.map_cons, List.flatMap_cons, Member.text, inQuotes]
    simp only [List.cons_append, List.append_assoc, List.nil_append]
    rw [hm.readMembers_step hrange hnodup hrest
      (nextMember_comma hafter m.before_blanks _), ← List.append_assoc seen]
    exact ih (by rwa [List.append_assoc]) m.after_blanks

theorem ObjectText.readFields_eq {text : Bytes} (h : ObjectText s fields text)
    (hnodup : fields.Nodup) :
    ∃ after, Blanks after ∧ readFields text = .ok (.only s fields, after) := by
  cases h with
  | @empty before inside after hbefore hinside hafter =>
    refine ⟨after, hafter, ?_⟩
    rw [readFields_object hbefore]
    exact readMembers_of_closing (nextMember_closing true hinside after)
  | @filled before after ms _ hbefore hne hms hafter =>
    refine ⟨after, hafter, ?_⟩
    rw [readFields_object hbefore, ← Fields.only_nil s]
    cases hms with
    | nil => exact absurd rfl hne
    | @cons m ms given fields hm hms =>
      have hrest := follows_others (c := .object) (ms.map Member.text) m.after_blanks after
      rw [Container.closing] at hrest
      rw [List.map_cons, commaSeparated_cons, Member.text, inQuotes]
      simp only [List.cons_append, List.append_assoc, List.nil_append]
      rw [hm.readMembers_step hrange hnodup hrest (nextMember_first m.before_blanks _)]
      exact hms.readMembers_others hrange hnodup m.after_blanks after

theorem ValueText.head (h : ValueText s f v) :
    ∃ b t, v = b :: t ∧ isBlank b = false ∧ ascii b ≠ ']' := by
  cases h with
  | target => exact ⟨_, _, rfl, by decide, by decide⟩
  | outDir => exact ⟨_, _, rfl, by decide, by decide⟩
  | indent =>
    obtain ⟨b, t, hv, hb⟩ := (decimalDigits_wholePart hrange.1).1.exists_cons
    exact ⟨b, t, hv, not_isBlank_of_isDigit hb, ascii_ne_of_isDigit hb (by decide)⟩

theorem nextElement_first (h : ValueText s f v) (hbefore : Blanks before) (rest : Bytes) :
    nextElement true (before ++ (v ++ rest)) = .ok (true, v ++ rest) := by
  obtain ⟨b, t, rfl, hblank, hend⟩ := h.head hrange
  rw [List.cons_append, nextElement, dropBlanks_to hbefore hblank]
  dsimp only
  rw [if_neg hend]
  rfl

theorem nextElement_comma (h : ValueText s f v) (hafter : Blanks after) (hbefore : Blanks before)
    (rest : Bytes) :
    nextElement false (after ++ byte ',' :: (before ++ (v ++ rest))) = .ok (true, v ++ rest) := by
  obtain ⟨b, t, rfl, hblank, hend⟩ := h.head hrange
  rw [List.cons_append, nextElement, dropBlanks_to hafter (by decide)]
  dsimp only
  rw [dropBlanks_to hbefore hblank]
  dsimp only
  rw [if_neg (by decide), if_neg (by decide), if_pos (by rfl), if_neg hend]

theorem ValueText.readElements_step {first : Bool} {text : Bytes} (h : ValueText s f v)
    (seen : List Field) (hrest : Follows rest)
    (hnext : nextElement first text = .ok (true, v ++ rest)) :
    readElements (.only s seen) first (f :: fields) text =
      readElements (.only s (seen ++ [f])) false fields rest := by
  have hread := h.readField_eq hrange seen blanks_nil hrest
  rw [List.nil_append] at hread
  rw [readElements, hnext]
  dsimp only
  rw [hread]

/-- The elements that are left in a list add the fields that are left, and only
blanks stand before its end. -/
theorem readElements_others {items : List Item} (h : List.Forall₂ (Element s) fields items)
    (seen : List Field) (hafter : Blanks after) (rest : Bytes) :
    ∃ gap, Blanks gap ∧ readElements (.only s seen) false fields
        (after ++ ((items.map Item.text).flatMap (byte ',' :: ·) ++ byte ']' :: rest)) =
      .ok (.only s (seen ++ fields), gap ++ byte ']' :: rest) := by
  induction h generalizing seen after with
  | nil => exact ⟨after, hafter, by simp [readElements]⟩
  | @cons f i fields items hi _ ih =>
    obtain ⟨hlead, hvalue⟩ := hi
    have hrest := follows_others (c := .list) (items.map Item.text) i.after_blanks rest
    rw [Container.closing] at hrest
    obtain ⟨gap, hgap, hothers⟩ := ih (seen ++ [f]) i.after_blanks
    refine ⟨gap, hgap, ?_⟩
    rw [List.map_cons, List.flatMap_cons, Item.text]
    simp only [List.cons_append, List.append_assoc, List.nil_append] at hothers ⊢
    rw [hvalue.readElements_step hrange seen hrest (nextElement_comma hrange hvalue hafter hlead _)]
    exact hothers

theorem ListText.readFields_eq {text : Bytes} (h : ListText s text) :
    ∃ after, Blanks after ∧ readFields text = .ok (.only s Field.all, after) := by
  cases h with
  | @mk before after items hbefore hitems hafter =>
    refine ⟨after, hafter, ?_⟩
    rw [readFields, dropBlanks_to hbefore (by decide), ← Fields.only_nil s]
    dsimp only
    rw [if_neg (by decide), if_pos (by rfl)]
    rw [Field.all] at hitems ⊢
    cases hitems with
    | @cons f i fields items hi hitems =>
      obtain ⟨hlead, hvalue⟩ := hi
      have hrest := follows_others (c := .list) (items.map Item.text) i.after_blanks after
      rw [Container.closing] at hrest
      obtain ⟨gap, hgap, hothers⟩ := readElements_others hrange hitems [.target] i.after_blanks after
      rw [List.map_cons, commaSeparated_cons, Item.text]
      simp only [List.append_assoc]
      rw [hvalue.readElements_step hrange [] hrest (nextElement_first hrange hvalue hlead _),
        List.nil_append, hothers]
      dsimp only
      rw [endList_eq hgap]
      rfl

theorem ofFile_object {given : List Field} {text : Bytes} (h : ObjectText s given text)
    (hnodup : given.Nodup) : ofFile (.ok text) = .ok (s.keep given) := by
  obtain ⟨after, hafter, hread⟩ := h.readFields_eq hrange hnodup
  exact ofFile_eq_ok.mpr ⟨text, rfl, read_of_readFields hafter hread⟩

theorem ofFile_list {text : Bytes} (h : ListText s text) : ofFile (.ok text) = .ok s := by
  obtain ⟨after, hafter, hread⟩ := h.readFields_eq hrange
  have hload := read_of_readFields hafter hread
  rw [keep_of_forall_mem s Field.mem_all] at hload
  exact ofFile_eq_ok.mpr ⟨text, rfl, hload⟩

end InRange

section Positive
variable {state state' : Fields} {t u : Bytes}

def Fields.Positive (state : Fields) : Prop := ∀ n ∈ state.indent, 1 ≤ n

theorem readField_positive (hs : state.Positive) (h : readField state f t = .ok (state', u)) :
    state'.Positive := by
  cases f <;> simp only [readField] at h <;> split at h
  · cases h
  · cases h; exact hs
  · cases h
  · cases h; exact hs
  · cases h
  · next hn =>
    cases h
    intro n hmem
    cases hmem
    exact readPositive_pos hn

theorem readMember_positive (hs : state.Positive) (h : readMember state t = .ok (state', u)) :
    state'.Positive := by
  simp only [readMember] at h
  split at h
  · cases h
  · split at h
    · split at h
      · cases h
      · split at h
        · cases h
        · cases h; exact hs
    · split at h
      · cases h
      · split at h
        · cases h
        · exact readField_positive hs h

theorem readMembers_positive {first : Bool} (hs : state.Positive)
    (h : readMembers state first t = .ok (state', u)) : state'.Positive := by
  fun_induction readMembers state first t with
  | case1 => cases h
  | case2 => cases h; exact hs
  | case3 => cases h
  | case4 _ _ _ _ _ _ _ hm ih => exact ih (readMember_positive hs hm) h

theorem readElements_positive {first : Bool} (hs : state.Positive)
    (h : readElements state first fields t = .ok (state', u)) : state'.Positive := by
  induction fields generalizing state first t with
  | nil => cases h; exact hs
  | cons f fields ih =>
    simp only [readElements] at h
    split at h
    · cases h
    · cases h; exact hs
    · split at h
      · cases h
      · next hf => exact ih (readField_positive hs hf) h

theorem readFields_positive (h : readFields t = .ok (state, u)) : state.Positive := by
  have hempty : Fields.Positive {} := fun n hn => nomatch hn
  simp only [readFields] at h
  split at h
  · cases h
  · split at h
    · exact readMembers_positive hempty h
    · split at h
      · split at h
        · cases h
        · next he =>
          split at h
          · cases h
          · cases h; exact readElements_positive hempty he
      · cases h

theorem one_le_indent_of_read {loaded : Settings} (h : read t = .ok loaded) :
    1 ≤ loaded.indent := by
  simp only [read] at h
  split at h
  · cases h
  · next state rest hstate =>
    split at h
    · cases h
      cases hn : state.indent with
      | none => simp [Fields.settings, hn]
      | some n => simpa [Fields.settings, hn] using readFields_positive hstate n hn
    · cases h

end Positive

/-- Whatever the layout of an object, fields that it gives have their values and
all others their defaults, and a list of the values of all fields loads to the same
as an object that gives them all. An indent is above zero in all settings that load. -/
theorem ofFile_by_field (s : Settings) (hrange : 1 ≤ s.indent ∧ s.indent < 2 ^ 64) :
    (∀ given text, ObjectText s given text → given.Nodup →
      ofFile (.ok text) = .ok (s.keep given)) ∧
    (∀ text, ListText s text → ofFile (.ok text) = .ok s ∧
      ∀ given object, ObjectText s given object → given.Perm Field.all →
        ofFile (.ok object) = ofFile (.ok text)) ∧
    ∀ file loaded, ofFile file = .ok loaded → 1 ≤ loaded.indent := by
  refine ⟨fun given text h hnodup => ofFile_object hrange h hnodup, fun text hlist => ?_, ?_⟩
  · refine ⟨ofFile_list hrange hlist, fun given object hobject hperm => ?_⟩
    have hnodup : given.Nodup := hperm.nodup_iff.mpr (by decide)
    rw [ofFile_object hrange hobject hnodup, ofFile_list hrange hlist,
      keep_of_forall_mem s fun f => hperm.mem_iff.mpr (Field.mem_all f)]
  · intro file loaded h
    obtain ⟨text, -, hread⟩ := ofFile_eq_ok.mp h
    exact one_le_indent_of_read hread

theorem blanks_space : Blanks [byte ' '] := by decide

theorem isValue_nested : IsValue ("[\x7b\"k\": -1.5e3\x7d, null]".toList.map byte) := by
  have hnumber : IsNumber ([byte '-'] ++ ([byte '1'] ++
      ([byte '.', byte '5'] ++ [byte 'e', byte '3']))) :=
    .mk (by decide) (by decide) (.inr ⟨[byte '5'], rfl, by decide⟩)
      (.inr ⟨byte 'e', [], [byte '3'], by decide, by decide, by decide, rfl⟩)
  have hkey := Lead.object blanks_nil
    (.plain (by decide : 0x20 ≤ byte 'k') (by decide) (by decide) .nil) blanks_nil blanks_space
  have hobject := IsValue.filled (List.cons_ne_nil ⟨_, _, [], blanks_nil⟩ [])
    (List.forall_mem_singleton.mpr hkey) (List.forall_mem_singleton.mpr (.number hnumber))
  exact IsValue.filled
    (List.cons_ne_nil ⟨[], _, [], blanks_nil⟩ [⟨[byte ' '], "null".toList.map byte, [], blanks_nil⟩])
    (List.forall_mem_cons.mpr ⟨.list blanks_nil, List.forall_mem_singleton.mpr (.list blanks_space)⟩)
    (List.forall_mem_cons.mpr ⟨hobject, List.forall_mem_singleton.mpr (.word (by decide))⟩)

theorem spells_code : Spells "xy".toList ("\\u0078y".toList.map byte) ∧
    Spells "python".toList ("\\u0070ython".toList.map byte) := by
  have hx : HexDigits 'x'.toNat ("0078".toList.map byte) :=
    .mk (a := 0) (b := 0) (c := 7) (d := 8) (.lower rfl) (.lower rfl) (.lower rfl) (.lower rfl)
  have hp : HexDigits 'p'.toNat ("0070".toList.map byte) :=
    .mk (a := 0) (b := 0) (c := 7) (d := 0) (.lower rfl) (.lower rfl) (.lower rfl) (.lower rfl)
  have hy : Spells "y".toList ("y".toList.map byte) := spells_map_byte (by decide)
  have hython : Spells "ython".toList ("ython".toList.map byte) := spells_map_byte (by decide)
  exact ⟨.code hx hy, .code hp hython⟩

theorem objectText_nested :
    ObjectText ⟨.python, "out", 2⟩ [.indent, .target]
      ("\x7b \"\\u0078y\": [\x7b\"k\": -1.5e3\x7d, null],\n\"indent_spaces\" :2,".toList.map byte ++
        "\"target\":\"\\u0070ython\"\x7d ".toList.map byte) := by
  obtain ⟨hkey, hpython⟩ := spells_code
  have hother : Gives ⟨.python, "out", 2⟩
      ⟨[byte ' '], "\\u0078y".toList.map byte, [], [byte ' '],
        "[\x7b\"k\": -1.5e3\x7d, null]".toList.map byte, [],
        blanks_space, blanks_nil, blanks_space, blanks_nil⟩ none :=
    .other (by intro f; cases f <;> decide) hkey isValue_nested
  have hindent : Gives ⟨.python, "out", 2⟩
      ⟨[byte '\n'], Field.indent.key.toList.map byte, [byte ' '], [], decimalDigits 2, [],
        by decide, blanks_space, blanks_nil, blanks_nil⟩ (some .indent) :=
    .field (spells_map_byte (by decide)) .indent
  have htarget : Gives ⟨.python, "out", 2⟩
      ⟨[], Field.target.key.toList.map byte, [], [], inQuotes ("\\u0070ython".toList.map byte), [],
        blanks_nil, blanks_nil, blanks_nil, blanks_nil⟩ (some .target) :=
    .field (spells_map_byte (by decide)) (.target hpython)
  have hmembers := Members.cons hother (.cons hindent (.cons htarget .nil))
  have hobject : ObjectText _ [.indent, .target] _ :=
    .filled blanks_nil (List.cons_ne_nil _ _) hmembers blanks_space
  convert hobject using 1
  decide +kernel

theorem listText_plain :
    ListText ⟨.python, "out", 2⟩ ("[\"python\", \"out\" ,2]".toList.map byte) := by
  have htarget : Element ⟨.python, "out", 2⟩ .target
      ⟨[], inQuotes ("python".toList.map byte), [], blanks_nil⟩ :=
    ⟨blanks_nil, .target (spells_map_byte (by decide))⟩
  have houtDir : Element ⟨.python, "out", 2⟩ .outDir
      ⟨[byte ' '], inQuotes ("out".toList.map byte), [byte ' '], blanks_space⟩ :=
    ⟨blanks_space, .outDir (spells_map_byte (by decide))⟩
  have hindent : Element ⟨.python, "out", 2⟩ .indent ⟨[], decimalDigits 2, [], blanks_nil⟩ :=
    ⟨blanks_nil, .indent⟩
  have hlist := ListText.mk blanks_nil (.cons htarget (.cons houtDir (.cons hindent .nil))) blanks_nil
  convert hlist using 1
  decide +kernel

theorem ofFile_by_field_nested :
    ofFile (.ok
      ("\x7b \"\\u0078y\": [\x7b\"k\": -1.5e3\x7d, null],\n\"indent_spaces\" :2,".toList.map byte ++
        "\"target\":\"\\u0070ython\"\x7d ".toList.map byte)) =
      .ok { target := .python, outDir := ".", indent := 2 } ∧
    ofFile (.ok ("[\"python\", \"out\" ,2]".toList.map byte)) =
      .ok { target := .python, outDir := "out", indent := 2 } := by
  obtain ⟨hobject, hlist, -⟩ := ofFile_by_field ⟨.python, "out", 2⟩ (by decide)
  exact ⟨hobject _ _ objectText_nested (by decide), (hlist _ listText_plain).1⟩

end Feedforward.Settings
