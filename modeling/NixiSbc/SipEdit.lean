import NixiSbc.SipRender

namespace NixiSbc.SipEdit

open Diagnostics RawSip TextScan TextFields TextLines SipRender

section

variable (U : Lowering)

def removeHeader (m : RawSipMessage) (name : List Char) : RawSipMessage :=
  { m with headers := m.headers.filter fun h => !hasName U name h }

def prependHeader (m : RawSipMessage) (header : List Char) : RawSipMessage :=
  { m with headers := header :: m.headers }

def appendHeader (m : RawSipMessage) (header : List Char) : RawSipMessage :=
  { m with headers := m.headers ++ [header] }

def isMaxForwards (header : List Char) : Bool :=
  ':' ∈ header ∧ toLowercase U (trim (header.takeWhile (· ≠ ':'))) = "max-forwards".toList

def maxForwardsLine (n : UInt32) : List Char := "Max-Forwards: ".toList ++ showNat n.toNat

/-- The loop over the headers: the first one whose value is a number decides,
and others of the name are passed over. -/
def decrementFrom : List (List Char) → Option (Except Error (List (List Char)))
  | [] => none
  | h :: rest =>
      match if isMaxForwards U h then parseU32 (headerValue h) else none with
      | some n =>
          some (if n = 0 then .error (.transport "Max-Forwards reached 0")
            else .ok (maxForwardsLine (n - 1) :: rest))
      | none => (decrementFrom rest).map fun r => r.map (h :: ·)

/-- A message that has used up its hops stays as it is. -/
def decrementMaxForwards (m : RawSipMessage) : Except Error Unit × RawSipMessage :=
  match decrementFrom U m.headers with
  | some (.error e) => (.error e, m)
  | some (.ok headers) => (.ok (), { m with headers := headers })
  | none => (.ok (), appendHeader m "Max-Forwards: 70".toList)

def isRequest (m : RawSipMessage) : Bool := ¬ "SIP/2.0".toList <+: m.startLine

@[simp] theorem removeHeader_startLine (m : RawSipMessage) (name : List Char) :
    (removeHeader U m name).startLine = m.startLine := rfl

@[simp] theorem removeHeader_body (m : RawSipMessage) (name : List Char) :
    (removeHeader U m name).body = m.body := rfl

@[simp] theorem prependHeader_startLine (m : RawSipMessage) (header : List Char) :
    (prependHeader m header).startLine = m.startLine := rfl

@[simp] theorem prependHeader_body (m : RawSipMessage) (header : List Char) :
    (prependHeader m header).body = m.body := rfl

@[simp] theorem appendHeader_startLine (m : RawSipMessage) (header : List Char) :
    (appendHeader m header).startLine = m.startLine := rfl

@[simp] theorem appendHeader_body (m : RawSipMessage) (header : List Char) :
    (appendHeader m header).body = m.body := rfl

end

section

variable {U : Lowering}

/-- The headers after the hop was counted: one line of the name was rewritten. -/
theorem decrementFrom_ok {hs hs' : List (List Char)} (h : decrementFrom U hs = some (.ok hs')) :
    ∃ before header after n, hs = before ++ header :: after ∧ isMaxForwards U header = true ∧
      hs' = before ++ maxForwardsLine n :: after := by
  induction hs generalizing hs' with
  | nil => cases h
  | cons header rest ih =>
      rw [decrementFrom] at h
      split at h
      next n hn =>
        split at hn
        next hname =>
          split at h
          next => cases h
          next =>
            cases h
            exact ⟨[], header, rest, n - 1, rfl, hname, rfl⟩
        next => cases hn
      next =>
        obtain ⟨r, hr, hcons⟩ := Option.map_eq_some_iff.mp h
        cases r with
        | error e => cases hcons
        | ok more =>
            cases hcons
            obtain ⟨before, old, after, n, rfl, hname, rfl⟩ := ih hr
            exact ⟨header :: before, old, after, n, rfl, hname, rfl⟩

theorem decrementMaxForwards_cases (U : Lowering) (m : RawSipMessage) :
    (decrementMaxForwards U m).2 = m ∨
    (∃ before header after n, m.headers = before ++ header :: after ∧
      isMaxForwards U header = true ∧
      (decrementMaxForwards U m).2 = { m with headers := before ++ maxForwardsLine n :: after }) ∨
    (decrementMaxForwards U m).2 = appendHeader m (maxForwardsLine 70) := by
  rw [decrementMaxForwards]
  split
  next => exact .inl rfl
  next headers hok =>
    obtain ⟨before, header, after, n, hm, hname, rfl⟩ := decrementFrom_ok hok
    exact .inr (.inl ⟨before, header, after, n, hm, hname, rfl⟩)
  next => exact .inr (.inr rfl)

/-- Counting the hop keeps what is filtered out of the other headers. -/
theorem filter_decrement {p : List Char → Bool} (hold : ∀ h, isMaxForwards U h = true → p h = false)
    (hnew : ∀ n, p (maxForwardsLine n) = false) (m : RawSipMessage) :
    (decrementMaxForwards U m).2.headers.filter p = m.headers.filter p := by
  rcases decrementMaxForwards_cases U m with hm | ⟨before, header, after, n, hheaders, hname, hm⟩ | hm
  · rw [hm]
  · rw [hm, hheaders]
    simp [hnew n, hold header hname]
  · rw [hm]
    simp [appendHeader, hnew]

theorem mem_decrement {m : RawSipMessage} {h : List Char}
    (hh : h ∈ (decrementMaxForwards U m).2.headers) : h ∈ m.headers ∨ ∃ n, h = maxForwardsLine n := by
  rcases decrementMaxForwards_cases U m with hm | ⟨before, header, after, n, hheaders, hname, hm⟩ | hm
  · rw [hm] at hh
    exact .inl hh
  · rw [hm] at hh
    rw [hheaders]
    simp only [List.mem_append, List.mem_cons] at hh ⊢
    rcases hh with hh | rfl | hh
    · exact .inl (.inl hh)
    · exact .inr ⟨n, rfl⟩
    · exact .inl (.inr (.inr hh))
  · rw [hm] at hh
    rcases List.mem_append.mp hh with hh | hh
    · exact .inl hh
    · exact .inr ⟨70, List.mem_singleton.mp hh⟩

@[simp] theorem decrement_startLine (m : RawSipMessage) :
    (decrementMaxForwards U m).2.startLine = m.startLine := by
  rcases decrementMaxForwards_cases U m with hm | ⟨_, _, _, _, -, -, hm⟩ | hm
  all_goals rw [hm]
  rfl

@[simp] theorem decrement_body (m : RawSipMessage) : (decrementMaxForwards U m).2.body = m.body := by
  rcases decrementMaxForwards_cases U m with hm | ⟨_, _, _, _, -, -, hm⟩ | hm
  all_goals rw [hm]
  rfl

def isAscii (c : Char) : Bool := c.toNat < 128

theorem lowerFrom_ascii (U : Lowering) (before : List Char) {text : List Char}
    (h : ∀ c ∈ text, isAscii c = true) : lowerFrom U before text = toAsciiLowercase text := by
  induction text generalizing before with
  | nil => rfl
  | cons c cs ih =>
      rw [lowerFrom, if_pos (of_decide_eq_true (h c List.mem_cons_self)),
        ih (before ++ [c]) fun d hd => h d (List.mem_cons_of_mem _ hd)]
      rfl

/-- Do two names within ASCII, the first of them in a header, mean the same? -/
def sameName (label name : List Char) : Bool :=
  let lower := toAsciiLowercase (trim label)
  lower = toAsciiLowercase name ∨ shortForm lower = toAsciiLowercase name

/-- The name of a line that is written with it. -/
theorem hasName_append (U : Lowering) {name label : List Char} (rest : List Char)
    (hcolon : ':' ∉ label) (hlabel : label.all isAscii = true) (hname : name.all isAscii = true) :
    hasName U name (label ++ ':' :: rest) = sameName label name := by
  rw [List.all_eq_true] at hlabel hname
  have hfront : (label ++ ':' :: rest).takeWhile (· ≠ ':') = label := by
    rw [List.takeWhile_append_of_pos]
    · simp
    · intro c hc
      rw [decide_eq_true_iff]
      rintro rfl
      exact hcolon hc
  have hlower : toLowercase U (trim label) = toAsciiLowercase (trim label) :=
    lowerFrom_ascii U [] fun c hc => hlabel c (mem_of_mem_trim hc)
  have hsame : toLowercase U name = toAsciiLowercase name := lowerFrom_ascii U [] hname
  simp only [hasName, hfront, hlower, hsame, sameName, List.mem_append, List.mem_cons, true_or, or_true,
    true_and]

theorem maxForwards_of_isMaxForwards {h : List Char} (hmax : isMaxForwards U h = true) :
    hasName U "max-forwards".toList h = true := by
  rw [isMaxForwards, decide_eq_true_iff] at hmax
  rw [hasName, decide_eq_true_iff]
  exact ⟨hmax.1, .inl hmax.2⟩

theorem shortForm_long (name : List Char) : shortForm name = name ∨ 2 ≤ (shortForm name).length := by
  rw [shortForm]
  iterate 10
    refine iteInduction (motive := fun long => long = name ∨ 2 ≤ long.length)
      (fun _ => .inr (by decide)) fun _ => ?_
  exact .inl rfl

/-- A header of a compact name has the long one too. -/
theorem hasName_of_compact {short long h : List Char} (hlong : shortForm short = long) (hlength : short.length < 2)
    (hlower : toLowercase U short = short) (hlower' : toLowercase U long = long) (hname : hasName U short h = true) :
    hasName U long h = true := by
  rw [hasName, decide_eq_true_iff, hlower] at hname
  rw [hasName, decide_eq_true_iff, hlower']
  have hown : toLowercase U (trim (h.takeWhile (· ≠ ':'))) = short := by
    rcases hname.2 with hsame | hsame
    · exact hsame
    · rcases shortForm_long (toLowercase U (trim (h.takeWhile (· ≠ ':')))) with hself | hlength'
      · rw [← hself, hsame]
      · rw [hsame] at hlength'
        omega
  rw [hown]
  exact ⟨hname.1, .inr hlong⟩

theorem hasName_contact_of_compact {h : List Char} (hm : hasName U "m".toList h = true) :
    hasName U "contact".toList h = true :=
  hasName_of_compact (by decide) (by decide) rfl rfl hm

theorem hasName_via_of_compact {h : List Char} (hv : hasName U "v".toList h = true) :
    hasName U "via".toList h = true :=
  hasName_of_compact (by decide) (by decide) rfl rfl hv

theorem canonical_removeHeader {m : RawSipMessage} (h : Canonical m) (name : List Char) :
    Canonical (removeHeader U m name) :=
  h.withHeaders fun l hl => h.headers l (List.mem_of_mem_filter hl)

theorem canonical_prependHeader {m : RawSipMessage} (h : Canonical m) {header : List Char}
    (hheader : HeaderLine header) : Canonical (prependHeader m header) := by
  apply h.withHeaders
  intro l hl
  rcases List.mem_cons.mp hl with rfl | hl
  · exact hheader
  · exact h.headers l hl

theorem canonical_appendHeader {m : RawSipMessage} (h : Canonical m) {header : List Char}
    (hheader : HeaderLine header) : Canonical (appendHeader m header) := by
  apply h.withHeaders
  intro l hl
  rcases List.mem_append.mp hl with hl | hl
  · exact h.headers l hl
  · rw [List.mem_singleton.mp hl]
    exact hheader

/-- A name and a value on one line. -/
theorem headerLine_append (label : List Char) {rest : List Char} (hne : label ≠ [])
    (hhead : label.head?.any isWhiteSpace = false) (hlabel : '\n' ∉ label) (hrest : '\n' ∉ rest) :
    HeaderLine (label ++ rest) where
  ne_nil := List.append_ne_nil_of_left_ne_nil hne rest
  one_line := List.not_mem_append hlabel hrest
  not_folded := by
    rw [isFolded, List.head?_append_of_ne_nil label hne, decide_eq_false_iff_not]
    rintro (hc | hc)
    · rw [hc] at hhead
      cases hhead
    · rw [hc] at hhead
      cases hhead

theorem canonical_decrement {m : RawSipMessage} (h : Canonical m) :
    Canonical (decrementMaxForwards U m).2 where
  no_cr := decrement_startLine m ▸ h.no_cr
  no_lf := decrement_startLine m ▸ h.no_lf
  trimmed := decrement_startLine m ▸ h.trimmed
  headers := by
    intro l hl
    rcases mem_decrement hl with hl | ⟨n, rfl⟩
    · exact h.headers l hl
    · exact headerLine_append _ (by decide) (by decide) (by decide) (not_mem_showNat n.toNat)

end

end NixiSbc.SipEdit
