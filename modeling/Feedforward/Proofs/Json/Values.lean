import Feedforward.Proofs.Json.Numbers

/-! Values as they are read past. A value is left at its end whatever is open
around it, so by induction on values the list of what is open comes back to what
it was: each item of a list or object is one value, and what stands between two
items leads from one to the next. -/
namespace Feedforward.Json
variable {s v before rest : Bytes}

theorem skipStart_word {word : String} (h : word ∈ ["null", "true", "false"])
    (hbefore : Blanks before) (rest : Bytes) :
    skipStart (before ++ (word.toList.map byte ++ rest)) = .ok (none, rest) := by
  simp only [List.mem_cons, List.not_mem_nil, or_false] at h
  rcases h with rfl | rfl | rfl
  · have hword := readWord_map ['u', 'l', 'l'] (by decide) rest
    change skipStart (before ++ byte 'n' :: (['u', 'l', 'l'].map byte ++ rest)) = _
    rw [skipStart, dropBlanks_to hbefore (by decide)]
    simp only [ascii_byte (c := 'n') (by decide), hword]
  · have hword := readWord_map ['r', 'u', 'e'] (by decide) rest
    change skipStart (before ++ byte 't' :: (['r', 'u', 'e'].map byte ++ rest)) = _
    rw [skipStart, dropBlanks_to hbefore (by decide)]
    simp only [ascii_byte (c := 't') (by decide), hword]
  · have hword := readWord_map ['a', 'l', 's', 'e'] (by decide) rest
    change skipStart (before ++ byte 'f' :: (['a', 'l', 's', 'e'].map byte ++ rest)) = _
    rw [skipStart, dropBlanks_to hbefore (by decide)]
    simp only [ascii_byte (c := 'f') (by decide), hword]

theorem skipStart_string (h : Characters s) (hbefore : Blanks before) (rest : Bytes) :
    skipStart (before ++ (inQuotes s ++ rest)) = .ok (none, rest) := by
  rw [inQuotes_append, skipStart, dropBlanks_to hbefore (by decide)]
  simp only [ascii_byte (c := '"') (by decide), h.skipString_eq]

theorem skipStart_digit {b : UInt8} {t : Bytes} {x : NumberText} (hb : isDigit b = true)
    (h : NumberText.read .invalidNumber (b :: t) = .ok (x, rest)) (hbefore : Blanks before) :
    skipStart (before ++ b :: t) = .ok (none, rest) := by
  rw [skipStart, dropBlanks_to hbefore (not_isBlank_of_isDigit hb)]
  dsimp only
  split
  -- A digit is none of the other characters that a value can start with.
  iterate 7
    · next hc => exact absurd hc (ascii_ne_of_isDigit hb (by decide))
  · rw [if_pos hb, h]
    rfl

theorem skipStart_number (h : IsNumber s) (hbefore : Blanks before) (hrest : Follows rest) :
    skipStart (before ++ (s ++ rest)) = .ok (none, rest) := by
  cases h with
  | @mk sign whole fraction power hsign hwhole hfraction hpower =>
    obtain ⟨x, hx⟩ := NumberText.read_eq .invalidNumber hwhole hfraction hpower hrest
    rw [List.append_assoc, List.append_assoc, List.append_assoc]
    simp only [List.mem_cons, List.not_mem_nil, or_false] at hsign
    rcases hsign with rfl | rfl
    · obtain ⟨b, ds, rfl, hb⟩ := hwhole.1.exists_cons
      exact skipStart_digit hb hx hbefore
    · rw [List.singleton_append, skipStart, dropBlanks_to hbefore (by decide)]
      simp only [ascii_byte (c := '-') (by decide), hx]
      rfl

theorem skipStart_opening (c : Container) (hbefore : Blanks before) (rest : Bytes) :
    skipStart (before ++ c.opening :: rest) = .ok (some c, rest) := by
  cases c with
  | list =>
    rw [skipStart, Container.opening, dropBlanks_to hbefore (by decide)]
    rfl
  | object =>
    rw [skipStart, Container.opening, dropBlanks_to hbefore (by decide)]
    rfl

section Opened
variable {opened : List Container} {c : Container} {t u : Bytes}

theorem skipValue_of_simple (h : skipStart s = .ok (none, t)) :
    skipValue opened s = skipOpened opened t := by
  rw [skipValue]
  grind

theorem skipValue_of_empty (h : skipStart s = .ok (some c, t))
    (hclose : enter c t = .ok (false, u)) : skipValue opened s = skipOpened opened u := by
  rw [skipValue]
  grind

theorem skipValue_of_filled (h : skipStart s = .ok (some c, t))
    (hfirst : enter c t = .ok (true, u)) : skipValue opened s = skipValue (c :: opened) u := by
  rw [skipValue.eq_def opened s]
  grind

theorem skipOpened_of_closing (h : proceed c s = .ok (false, t)) :
    skipOpened (c :: opened) s = skipOpened opened t := by
  rw [skipOpened.eq_def (c :: opened) s]
  grind

theorem skipOpened_of_comma (h : proceed c s = .ok (true, t)) :
    skipOpened (c :: opened) s = skipValue (c :: opened) t := by
  rw [skipOpened]
  grind

end Opened

section Items
variable {c : Container} {lead after : Bytes}

theorem IsValue.head (h : IsValue v) :
    ∃ b t, v = b :: t ∧ isBlank b = false ∧ ascii b ≠ ']' := by
  cases h with
  | word h =>
    simp only [List.mem_cons, List.not_mem_nil, or_false] at h
    rcases h with rfl | rfl | rfl <;> exact ⟨_, _, rfl, by decide, by decide⟩
  | number h =>
    cases h with
    | @mk sign whole fraction power hsign hwhole =>
      simp only [List.mem_cons, List.not_mem_nil, or_false] at hsign
      rcases hsign with rfl | rfl
      · obtain ⟨b, ds, rfl, hb⟩ := hwhole.1.exists_cons
        exact ⟨b, _, rfl, not_isBlank_of_isDigit hb, ascii_ne_of_isDigit hb (by decide)⟩
      · exact ⟨_, _, rfl, by decide, by decide⟩
  | string => exact ⟨_, _, rfl, by decide, by decide⟩
  | @empty c => cases c <;> exact ⟨_, _, rfl, by decide, by decide⟩
  | @filled c => cases c <;> exact ⟨_, _, rfl, by decide, by decide⟩

/-- A key is read past with its colon, up to blanks before the value. -/
theorem Lead.skipKey_eq (h : Lead .object lead) :
    ∃ gap, Blanks gap ∧ ∀ s, skipKey (lead ++ s) = .ok (gap ++ s) := by
  cases h with
  | @object before key colon gap hbefore hkey hcolon hgap =>
    refine ⟨gap, hgap, fun s => ?_⟩
    rw [List.append_assoc, List.append_assoc, List.append_assoc, List.cons_append, inQuotes_append,
      skipKey, dropBlanks_to hbefore (by decide)]
    dsimp only
    rw [if_pos (by rfl), hkey.skipString_eq]
    exact readColon_to hcolon _

theorem enter_closing (hafter : Blanks after) (rest : Bytes) :
    enter c (after ++ c.closing :: rest) = .ok (false, rest) := by
  cases c <;> rw [enter, Container.closing, dropBlanks_to hafter (by decide)] <;> rfl

theorem enter_first (h : Lead c lead) (hv : IsValue v) (rest : Bytes) :
    ∃ gap, Blanks gap ∧ enter c (lead ++ (v ++ rest)) = .ok (true, gap ++ (v ++ rest)) := by
  cases h with
  | list hlead =>
    obtain ⟨b, t, rfl, hblank, hend⟩ := hv.head
    refine ⟨[], blanks_nil, ?_⟩
    rw [List.cons_append, enter, dropBlanks_to hlead hblank]
    exact if_neg hend
  | @object before key colon gap hbefore hkey hcolon hgap =>
    -- The blanks before the key are dropped already when it is read past.
    obtain ⟨gap, hgap, hskip⟩ := (Lead.object blanks_nil hkey hcolon hgap).skipKey_eq
    have hkey := hskip (v ++ rest)
    rw [List.nil_append, List.append_assoc, inQuotes_append] at hkey
    refine ⟨gap, hgap, ?_⟩
    rw [List.append_assoc, List.append_assoc, inQuotes_append, enter,
      dropBlanks_to hbefore (by decide)]
    dsimp only
    rw [if_neg (by decide), hkey]

theorem proceed_closing (hafter : Blanks after) (rest : Bytes) :
    proceed c (after ++ c.closing :: rest) = .ok (false, rest) := by
  cases c <;> rw [proceed, Container.closing, dropBlanks_to hafter (by decide)] <;> rfl

theorem proceed_comma (hafter : Blanks after) (h : Lead c lead) :
    ∃ gap, Blanks gap ∧
      ∀ s, proceed c (after ++ byte ',' :: (lead ++ s)) = .ok (true, gap ++ s) := by
  cases c with
  | list =>
    cases h with
    | list hlead =>
      refine ⟨lead, hlead, fun s => ?_⟩
      rw [proceed, dropBlanks_to hafter (by decide)]
      rfl
  | object =>
    obtain ⟨gap, hgap, hskip⟩ := h.skipKey_eq
    refine ⟨gap, hgap, fun s => ?_⟩
    rw [proceed, dropBlanks_to hafter (by decide)]
    simp only [ascii_byte (c := ',') (by decide), if_true, hskip]

theorem commaSeparated_cons (text : Bytes) (texts : List Bytes) :
    commaSeparated (text :: texts) = text ++ texts.flatMap (byte ',' :: ·) := by
  induction texts generalizing text with
  | nil => simp [commaSeparated]
  | cons next texts ih =>
    have hnext : commaSeparated (text :: next :: texts) =
        text ++ byte ',' :: commaSeparated (next :: texts) := by
      simp [commaSeparated, List.intercalate]
    rw [hnext, ih next, List.flatMap_cons, List.cons_append]

theorem follows_others (texts : List Bytes) (hafter : Blanks after) (rest : Bytes) :
    Follows (after ++ (texts.flatMap (byte ',' :: ·) ++ c.closing :: rest)) := by
  apply hafter.follows
  cases texts with
  | nil => exact follows_closing c rest
  | cons text texts => exact follows_comma _

/-- A value is read past up to its end, whatever is open around it. -/
def Skipped (v : Bytes) : Prop := ∀ (opened : List Container) (before rest : Bytes),
  Blanks before → Follows rest → skipValue opened (before ++ (v ++ rest)) = skipOpened opened rest

theorem skipOpened_others (items : List Item) (opened : List Container) (hafter : Blanks after)
    (rest : Bytes) (hlead : ∀ i ∈ items, Lead c i.lead) (hvalue : ∀ i ∈ items, Skipped i.value) :
    skipOpened (c :: opened)
        (after ++ ((items.map Item.text).flatMap (byte ',' :: ·) ++ c.closing :: rest)) =
      skipOpened opened rest := by
  induction items generalizing after with
  | nil => exact skipOpened_of_closing (proceed_closing hafter rest)
  | cons i items ih =>
    rw [List.forall_mem_cons] at hlead hvalue
    obtain ⟨gap, hgap, hproceed⟩ := proceed_comma hafter hlead.1
    rw [List.map_cons, List.flatMap_cons, Item.text]
    simp only [List.cons_append, List.append_assoc]
    rw [skipOpened_of_comma (hproceed _), hvalue.1 _ _ _ hgap (follows_others _ i.after_blanks rest)]
    exact ih i.after_blanks hlead.2 hvalue.2

theorem IsValue.skipped (h : IsValue v) : Skipped v := by
  induction h with
  | word h =>
    intro opened before rest hbefore _
    exact skipValue_of_simple (skipStart_word h hbefore rest)
  | number h =>
    intro opened before rest hbefore hrest
    exact skipValue_of_simple (skipStart_number h hbefore hrest)
  | string h =>
    intro opened before rest hbefore _
    exact skipValue_of_simple (skipStart_string h hbefore rest)
  | @empty c s h =>
    intro opened before rest hbefore _
    rw [List.cons_append, List.append_assoc, List.singleton_append]
    exact skipValue_of_empty (skipStart_opening c hbefore _) (enter_closing h rest)
  | @filled c items hne hlead hvalue ih =>
    intro opened before rest hbefore _
    obtain ⟨i, items, rfl⟩ := List.exists_cons_of_ne_nil hne
    rw [List.forall_mem_cons] at hlead hvalue ih
    rw [List.map_cons, commaSeparated_cons, Item.text]
    simp only [List.cons_append, List.append_assoc, List.nil_append]
    obtain ⟨gap, hgap, henter⟩ := enter_first hlead.1 hvalue.1 _
    rw [skipValue_of_filled (skipStart_opening c hbefore _) henter,
      ih.1 _ _ _ hgap (follows_others _ i.after_blanks rest)]
    exact skipOpened_others items opened i.after_blanks rest hlead.2 ih.2

theorem IsValue.skip_eq (h : IsValue v) (hbefore : Blanks before) (hrest : Follows rest) :
    skip (before ++ (v ++ rest)) = .ok rest := by
  rw [skip, h.skipped [] before rest hbefore hrest, skipOpened]

end Items

end Feedforward.Json
