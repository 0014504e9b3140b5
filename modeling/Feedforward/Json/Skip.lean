import Feedforward.Json.Number

/-! Values that are read past. They have to be well formed, but strings need
not be UTF-8, surrogates need not come in pairs and numbers may have any size.
Open lists and objects are kept in a list, so that values nest to any depth. -/
namespace Feedforward.Json

def skipEscape : Bytes → Except Fault Bytes
  | [] => .error (.ended .string)
  | b :: s =>
    if ascii b = 'u' then
      match readHex s with
      | .error f => .error f
      | .ok (_, s) => .ok s
    else if (simpleEscape? b).isSome then .ok s
    else .error .invalidEscape

theorem skipEscape_length {s t : Bytes} (h : skipEscape s = .ok t) : t.length < s.length := by
  cases s with
  | nil => cases h
  | cons b s =>
    simp only [skipEscape] at h
    split at h
    · split at h
      · cases h
      · next hx => cases h; have := readHex_length hx; simp; omega
    · split at h
      · cases h; simp
      · cases h

def skipString (s : Bytes) : Except Fault Bytes :=
  match s with
  | [] => .error (.ended .string)
  | b :: s =>
    if ascii b = '"' then .ok s
    else if ascii b = '\\' then
      match _h : skipEscape s with
      | .error f => .error f
      | .ok t => skipString t
    else if b < 0x20 then .error .controlCharacter
    else skipString s
termination_by s.length
decreasing_by
  · have := skipEscape_length _h; simp; omega
  · simp

theorem skipString_length {s t : Bytes} (h : skipString s = .ok t) : t.length < s.length := by
  fun_induction skipString s with
  | case1 => cases h
  | case2 => cases h; simp
  | case3 => cases h
  | case4 _ _ _ _ _ he ih =>
    have := skipEscape_length he
    have := ih h
    simp; omega
  | case5 => cases h
  | case6 _ _ _ _ _ ih =>
    have := ih h
    simp; omega

def skipKey (s : Bytes) : Except Fault Bytes :=
  match dropBlanks s with
  | [] => .error (.ended .object)
  | b :: s =>
    if ascii b = '"' then
      match skipString s with
      | .error f => .error f
      | .ok s => readColon s
    else .error .keyNotString

theorem skipKey_length {s t : Bytes} (h : skipKey s = .ok t) : t.length < s.length := by
  simp only [skipKey] at h
  split at h
  · cases h
  · next hs =>
    have hd := dropBlanks_length s
    rw [hs] at hd
    split at h
    · split at h
      · cases h
      · next hx =>
        have := skipString_length hx
        have := readColon_length h
        simp only [List.length_cons] at hd
        omega
    · cases h

/-- The first value of a list or object whose bracket was read: either the end
of an empty one, or where its first value begins. -/
def enter (c : Container) (s : Bytes) : Except Fault (Bool × Bytes) :=
  match dropBlanks s with
  | [] => .error (.ended c.part)
  | b :: t =>
    match c with
    | .list => if ascii b = ']' then .ok (false, t) else .ok (true, b :: t)
    | .object =>
      if ascii b = '}' then .ok (false, t)
      else match skipKey (b :: t) with
        | .error f => .error f
        | .ok t => .ok (true, t)

theorem enter_length {c : Container} {s t : Bytes} {more : Bool}
    (h : enter c s = .ok (more, t)) : t.length ≤ s.length := by
  simp only [enter] at h
  split at h
  · cases h
  · next hs =>
    have hd := dropBlanks_length s
    rw [hs] at hd
    split at h
    · split at h
      · cases h; simp only [List.length_cons] at hd; omega
      · cases h; exact hd
    · split at h
      · cases h; simp only [List.length_cons] at hd; omega
      · split at h
        · cases h
        · next hk =>
          cases h
          have := skipKey_length hk
          omega

/-- What follows a value in a list or object: the end, or the next value. -/
def proceed (c : Container) (s : Bytes) : Except Fault (Bool × Bytes) :=
  match dropBlanks s with
  | [] => .error (.ended c.part)
  | b :: t =>
    match c with
    | .list =>
      if ascii b = ',' then .ok (true, t)
      else if ascii b = ']' then .ok (false, t)
      else .error (.expectedCommaOrEnd .list)
    | .object =>
      if ascii b = ',' then
        match skipKey t with
        | .error f => .error f
        | .ok t => .ok (true, t)
      else if ascii b = '}' then .ok (false, t)
      else .error (.expectedCommaOrEnd .object)

theorem proceed_length {c : Container} {s t : Bytes} {more : Bool}
    (h : proceed c s = .ok (more, t)) : t.length < s.length := by
  simp only [proceed] at h
  split at h
  · cases h
  · next hs =>
    have hd := dropBlanks_length s
    rw [hs] at hd
    simp only [List.length_cons] at hd
    split at h
    · split at h
      · cases h; omega
      · split at h
        · cases h; omega
        · cases h
    · split at h
      · split at h
        · cases h
        · next hk =>
          cases h
          have := skipKey_length hk
          omega
      · split at h
        · cases h; omega
        · cases h

/-- The start of a value: a whole simple value, or the bracket of a container. -/
def skipStart (s : Bytes) : Except Fault (Option Container × Bytes) :=
  match dropBlanks s with
  | [] => .error (.ended .value)
  | b :: t =>
    let simple : Except Fault Bytes → Except Fault (Option Container × Bytes)
      | .error f => .error f
      | .ok t => .ok (none, t)
    match ascii b with
    | 'n' => simple (readWord ['u', 'l', 'l'] t)
    | 't' => simple (readWord ['r', 'u', 'e'] t)
    | 'f' => simple (readWord ['a', 'l', 's', 'e'] t)
    | '"' => simple (skipString t)
    | '[' => .ok (some .list, t)
    | '{' => .ok (some .object, t)
    | '-' => simple ((NumberText.read .invalidNumber t).map Prod.snd)
    | _ =>
      if isDigit b then simple ((NumberText.read .invalidNumber (b :: t)).map Prod.snd)
      else .error .expectedValue

theorem skipStart_length {s t : Bytes} {c : Option Container} (h : skipStart s = .ok (c, t)) :
    t.length < s.length := by
  have number {u : Bytes} (hu : (NumberText.read .invalidNumber u).map Prod.snd = .ok t) :
      t.length < u.length := by
    cases hx : NumberText.read .invalidNumber u with
    | error f => simp [hx, Except.map] at hu
    | ok r =>
      simp only [hx, Except.map, Except.ok.injEq] at hu
      exact hu ▸ NumberText.read_length hx
  simp only [skipStart] at h
  split at h
  · cases h
  · next hs =>
    have hd := dropBlanks_length s
    rw [hs] at hd
    simp only [List.length_cons] at hd
    split at h
    · split at h
      · cases h
      · next hx => cases h; have := readWord_length hx; omega
    · split at h
      · cases h
      · next hx => cases h; have := readWord_length hx; omega
    · split at h
      · cases h
      · next hx => cases h; have := readWord_length hx; omega
    · split at h
      · cases h
      · next hx => cases h; have := skipString_length hx; omega
    · cases h; omega
    · cases h; omega
    · split at h
      · cases h
      · next hx => cases h; have := number hx; omega
    · split at h
      · split at h
        · cases h
        · next hx =>
          cases h
          have := number hx
          simp only [List.length_cons] at this
          omega
      · cases h

mutual

/-- A value, and then all that is open around it. -/
def skipValue (opened : List Container) (s : Bytes) : Except Fault Bytes :=
  match _h : skipStart s with
  | .error f => .error f
  | .ok (none, t) => skipOpened opened t
  | .ok (some c, t) =>
    match _he : enter c t with
    | .error f => .error f
    | .ok (false, u) => skipOpened opened u
    | .ok (true, u) => skipValue (c :: opened) u
termination_by s.length
decreasing_by
  · exact skipStart_length _h
  · have := skipStart_length _h; have := enter_length _he; omega
  · have := skipStart_length _h; have := enter_length _he; omega

def skipOpened (opened : List Container) (s : Bytes) : Except Fault Bytes :=
  match opened with
  | [] => .ok s
  | c :: others =>
    match _h : proceed c s with
    | .error f => .error f
    | .ok (false, t) => skipOpened others t
    | .ok (true, t) => skipValue (c :: others) t
termination_by s.length
decreasing_by
  · exact proceed_length _h
  · exact proceed_length _h

end

mutual

theorem skipValue_length {opened : List Container} {s t : Bytes}
    (h : skipValue opened s = .ok t) : t.length < s.length := by
  rw [skipValue] at h
  split at h
  · cases h
  · next hs =>
    have := skipStart_length hs
    have := skipOpened_length h
    omega
  · next hs =>
    have := skipStart_length hs
    split at h
    · cases h
    · next he =>
      have := enter_length he
      have := skipOpened_length h
      omega
    · next he =>
      have := enter_length he
      have := skipValue_length h
      omega
termination_by s.length

theorem skipOpened_length {opened : List Container} {s t : Bytes}
    (h : skipOpened opened s = .ok t) : t.length ≤ s.length := by
  rw [skipOpened.eq_def] at h
  split at h
  · cases h; exact Nat.le_refl _
  · split at h
    · cases h
    · next hp =>
      have := proceed_length hp
      have := skipOpened_length h
      omega
    · next hp =>
      have := proceed_length hp
      have := skipValue_length h
      omega
termination_by s.length

end

def skip (s : Bytes) : Except Fault Bytes := skipValue [] s

theorem skip_length {s t : Bytes} (h : skip s = .ok t) : t.length < s.length :=
  skipValue_length h

end Feedforward.Json
