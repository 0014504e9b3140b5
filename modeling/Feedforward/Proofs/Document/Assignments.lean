import Feedforward.Proofs.Document.Forms

/-! Assignments read from a position in the tokens of a line. Reading takes all
that a comma promises and stops at the first token that is none, so what it has
read is one slice of the tokens, and a promise that is not kept is a fault. -/
namespace Feedforward.Assignment
variable {seen : List String} {pairs : List Assignment} {f : LineFault}

theorem readAll_of_read_error {ts : List Token} (h : read ts = .error f) :
    readAll seen ts = .error f := by
  rw [readAll]
  split
  · next g hg =>
    rw [h] at hg
    cases hg
    rfl
  · next hok =>
    rw [h] at hok
    cases hok

theorem readAll_of_seen {key : String} {value : Literal} {rest : List Token} (hk : key ∈ seen) :
    readAll seen (.identifier key :: .delimiter .equal :: .literal value :: rest) =
      .error (.duplicateKey key) := by
  rw [readAll]
  split
  · next f hf =>
    rw [read_cons] at hf
    cases hf
  · next hf =>
    rw [read_cons] at hf
    cases hf
    rw [if_pos hk]

theorem readAll_dangling {more : List Token} (h : Listed seen pairs) (hmore : read more = .error f) :
    readAll seen (tokens pairs ++ .delimiter .comma :: more) = .error f := by
  induction pairs generalizing seen with
  | nil => exact absurd rfl h.ne_nil
  | cons p pairs ih =>
    have hk : p.1 ∉ seen := h.fresh p.1 List.mem_cons_self
    cases pairs with
    | nil =>
      have hread : readAll (p.1 :: seen) more = .error f := readAll_of_read_error hmore
      refine (readAll_comma hk).trans ?_
      rw [hread]
      rfl
    | cons q pairs =>
      rw [readAll_tokens_cons hk, ih (h.tail (by simp))]
      rfl

theorem readAll_repeated {rest : List Token} (hne : pairs ≠ []) (h : ¬ Listed seen pairs) :
    ∃ key ∈ pairs.map Prod.fst,
      readAll seen (tokens pairs ++ rest) = .error (.duplicateKey key) := by
  induction pairs generalizing seen with
  | nil => exact absurd rfl hne
  | cons p pairs ih =>
    by_cases hk : p.1 ∈ seen
    · refine ⟨p.1, List.mem_cons_self, ?_⟩
      cases pairs with
      | nil => exact readAll_of_seen hk
      | cons q pairs => exact readAll_of_seen hk
    · cases pairs with
      | nil => exact absurd ⟨hne, by simp, by simpa using hk⟩ h
      | cons q pairs =>
        have htail : ¬ Listed (p.1 :: seen) (q :: pairs) := by
          intro hlist
          refine h ⟨hne, List.nodup_cons.mpr ⟨?_, hlist.nodup⟩, ?_⟩
          · exact fun hmem => hlist.fresh p.1 hmem List.mem_cons_self
          · rw [List.map_cons, List.forall_mem_cons]
            exact ⟨hk, fun k hmem hseen => hlist.fresh k hmem (List.mem_cons_of_mem _ hseen)⟩
        obtain ⟨key, hkey, hread⟩ := ih (by simp) htail
        refine ⟨key, List.mem_cons_of_mem _ hkey, ?_⟩
        rw [readAll_tokens_cons hk, hread]
        rfl

theorem listed_nil : Listed [] pairs ↔ pairs ≠ [] ∧ (pairs.map Prod.fst).Nodup :=
  ⟨fun h => ⟨h.ne_nil, h.nodup⟩, fun h => ⟨h.1, h.2, by simp⟩⟩

theorem tokens_ne_nil (h : pairs ≠ []) : tokens pairs ≠ [] := by
  match pairs, h with
  | [_], _ => exact List.cons_ne_nil _ _
  | _ :: _ :: _, _ => exact List.cons_ne_nil _ _

theorem drop_eq_append_iff {α : Type} {as slice rest : List α} {start : Nat} (hne : slice ≠ []) :
    as.drop start = slice ++ rest ↔
      ∃ stop, start ≤ stop ∧ stop ≤ as.length ∧ rest = as.drop stop ∧
        (as.take stop).drop start = slice := by
  constructor
  · intro h
    have hlength := congrArg List.length h
    rw [List.length_drop, List.length_append] at hlength
    have hpos := List.length_pos_iff.mpr hne
    refine ⟨start + slice.length, by omega, by omega, ?_, ?_⟩
    · rw [← List.drop_drop, h, List.drop_left]
    · rw [List.drop_take, h, Nat.add_sub_cancel_left, List.take_left]
  · rintro ⟨stop, hle, -, rfl, rfl⟩
    have hsplit := List.take_append_drop (stop - start) (as.drop start)
    rw [List.drop_drop, Nat.add_sub_cancel' hle, ← List.drop_take] at hsplit
    exact hsplit.symm

/-- Assignments are read from a position up to another just if there is at least
one, no key comes twice, the tokens between the positions are the assignments
with commas between them, and no comma follows. A comma that no assignment
follows is a fault, and so is a key that comes twice. -/
theorem readAll_iff_slice (ts : List Token) (start : Nat) :
    (∀ pairs rest, readAll [] (ts.drop start) = .ok (pairs, rest) ↔
      ∃ stop, start ≤ stop ∧ stop ≤ ts.length ∧ rest = ts.drop stop ∧
        pairs ≠ [] ∧ (pairs.map Prod.fst).Nodup ∧ (ts.take stop).drop start = tokens pairs ∧
        ts[stop]? ≠ some (.delimiter .comma)) ∧
    (∀ pairs more f, ts.drop start = tokens pairs ++ .delimiter .comma :: more → pairs ≠ [] →
      (pairs.map Prod.fst).Nodup → read more = .error f →
      readAll [] (ts.drop start) = .error f) ∧
    ∀ pairs rest, ts.drop start = tokens pairs ++ rest → ¬ (pairs.map Prod.fst).Nodup →
      ∃ key ∈ pairs.map Prod.fst, readAll [] (ts.drop start) = .error (.duplicateKey key) := by
  refine ⟨fun pairs rest => ?_, ?_, ?_⟩
  · rw [readAll_eq_ok, listed_nil]
    constructor
    · rintro ⟨⟨hne, hnodup⟩, hts, hcomma⟩
      obtain ⟨stop, hle, hstop, rfl, hslice⟩ := (drop_eq_append_iff (tokens_ne_nil hne)).mp hts
      rw [List.head?_drop] at hcomma
      exact ⟨stop, hle, hstop, rfl, hne, hnodup, hslice, hcomma⟩
    · rintro ⟨stop, hle, hstop, rfl, hne, hnodup, hslice, hcomma⟩
      have hts := (drop_eq_append_iff (tokens_ne_nil hne)).mpr ⟨stop, hle, hstop, rfl, hslice⟩
      rw [← List.head?_drop] at hcomma
      exact ⟨⟨hne, hnodup⟩, hts, hcomma⟩
  · intro pairs more f hts hne hnodup hmore
    rw [hts]
    exact readAll_dangling (listed_nil.mpr ⟨hne, hnodup⟩) hmore
  · intro pairs rest hts hnodup
    have hne : pairs ≠ [] := by
      rintro rfl
      exact hnodup List.nodup_nil
    rw [hts]
    exact readAll_repeated hne fun h => hnodup h.nodup

end Feedforward.Assignment
