import NixiSbc.CredentialLines
import NixiSbc.Extensions

namespace NixiSbc.TimerHeaders

open RawSip TextScan TextFields TextLines TextWords CrlfLines SipRender SipEdit InviteTexts CredentialLines Extensions

theorem full_sessionExpires : FullName "session-expires".toList := ⟨by decide, by decide, by decide⟩

theorem full_x : FullName "x".toList := ⟨by decide, by decide, by decide⟩

theorem full_minSe : FullName "min-se".toList := ⟨by decide, by decide, by decide⟩

section Timers

variable (U : Lowering)

/-- A header that the SBC puts in anew. -/
def isTimer (h : List Char) : Bool :=
  hasName U "session-expires".toList h || hasName U "x".toList h || hasName U "min-se".toList h

def sessionExpiresLine (n : UInt32) : List Char := "Session-Expires: ".toList ++ showNat n.toNat

def minSeLine (n : UInt32) : List Char := "Min-SE: ".toList ++ showNat n.toNat

/-- What is added for the extension itself. -/
def added (hasTimer : Bool) : List (List Char) := if hasTimer then [] else ["Supported: timer".toList]

theorem timerHeaders_eq (hasTimer : Bool) (expires minSe : UInt32) :
    timerHeaders hasTimer expires minSe = added hasTimer ++ [sessionExpiresLine expires, minSeLine minSe] := rfl

def otherLines (m : RawSipMessage) : List (List Char) := m.headers.filter fun h => !isTimer U h

/-- The other headers before and from the Content-Length on. -/
def front (m : RawSipMessage) : List (List Char) := (otherLines U m).takeWhile fun h => !isContentLength U h

def back (m : RawSipMessage) : List (List Char) := (otherLines U m).dropWhile fun h => !isContentLength U h

theorem front_append_back (m : RawSipMessage) : front U m ++ back U m = otherLines U m :=
  List.takeWhile_append_dropWhile

def cleared (m : RawSipMessage) : RawSipMessage :=
  removeHeader U (removeHeader U (removeHeader U m "session-expires".toList) "x".toList) "min-se".toList

theorem cleared_headers (m : RawSipMessage) : (cleared U m).headers = otherLines U m := by
  simp only [cleared, removeHeader, otherLines, isTimer, List.filter_filter]
  refine List.filter_congr fun h _ => ?_
  cases hasName U "session-expires".toList h <;> cases hasName U "x".toList h <;> simp

/-- A Supported header with the token. -/
def listsTimer (h : List Char) : Bool :=
  hasName U "supported".toList h &&
    ((headerValue h).splitOn ',').any fun token => toAsciiLowercase (trim token) = "timer".toList

theorem hasTimer_eq (m : RawSipMessage) : hasTimer U m = m.headers.any (listsTimer U) := by
  rw [hasTimer, headerValues, List.any_map, List.any_filter]
  rfl

variable {U} {h : List Char}

theorem not_timer_of_supported (hname : hasName U "supported".toList h = true) : isTimer U h = false := by
  have hfull : FullName "supported".toList := ⟨by decide, by decide, by decide⟩
  rw [isTimer, hasName_apart hfull full_sessionExpires (by decide) hname, hasName_apart hfull full_x (by decide) hname,
    hasName_apart hfull full_minSe (by decide) hname]
  rfl

/-- The removals keep what is supported. -/
theorem any_otherLines (m : RawSipMessage) : (otherLines U m).any (listsTimer U) = hasTimer U m := by
  rw [hasTimer_eq, otherLines, List.any_filter]
  congr 1
  funext h
  cases hlists : listsTimer U h with
  | false => exact Bool.and_false _
  | true =>
      rw [listsTimer, Bool.and_eq_true] at hlists
      rw [not_timer_of_supported hlists.1]
      rfl

theorem hasTimer_cleared (m : RawSipMessage) : hasTimer U (cleared U m) = hasTimer U m := by
  rw [hasTimer_eq, cleared_headers, any_otherLines]

theorem apply_headers (m : RawSipMessage) (expires minSe : UInt32) :
    (applySessionTimerHeaders U m expires minSe).headers =
      front U m ++ timerHeaders (hasTimer U m) expires minSe ++ back U m := by
  have happly : (applySessionTimerHeaders U m expires minSe).headers =
      (cleared U m).headers.take (((cleared U m).headers.findIdx? (isContentLength U)).getD (cleared U m).headers.length) ++
        timerHeaders (hasTimer U (cleared U m)) expires minSe ++
        (cleared U m).headers.drop (((cleared U m).headers.findIdx? (isContentLength U)).getD (cleared U m).headers.length) :=
    rfl
  have hfront : front U m = (otherLines U m).take ((otherLines U m).findIdx (isContentLength U)) := by
    rw [front, List.takeWhile_eq_take_findIdx_not]
    simp only [Bool.not_not]
  have hback : back U m = (otherLines U m).drop ((otherLines U m).findIdx (isContentLength U)) := by
    rw [back, List.dropWhile_eq_drop_findIdx_not]
    simp only [Bool.not_not]
  rw [happly, hasTimer_cleared, cleared_headers, ← List.findIdx_eq_getD_findIdx?, ← hfront, ← hback]

end Timers

section Stamped

variable {U : Lowering} {h : List Char} (m : RawSipMessage) (expires minSe : UInt32)

theorem sessionExpiresLine_eq : sessionExpiresLine expires = "Session-Expires".toList ++ ':' :: ' ' :: showNat expires.toNat :=
  List.append_assoc "Session-Expires".toList ": ".toList _

theorem minSeLine_eq : minSeLine minSe = "Min-SE".toList ++ ':' :: ' ' :: showNat minSe.toNat :=
  List.append_assoc "Min-SE".toList ": ".toList _

theorem sessionExpiresLine_names (U : Lowering) :
    hasName U "session-expires".toList (sessionExpiresLine expires) = true ∧
    hasName U "x".toList (sessionExpiresLine expires) = false ∧
    hasName U "min-se".toList (sessionExpiresLine expires) = false := by
  rw [sessionExpiresLine_eq]
  refine ⟨?_, ?_, ?_⟩
  all_goals exact (hasName_append U _ (by decide) (by decide) (by decide)).trans (by decide)

theorem minSeLine_names (U : Lowering) :
    hasName U "session-expires".toList (minSeLine minSe) = false ∧
    hasName U "x".toList (minSeLine minSe) = false ∧
    hasName U "min-se".toList (minSeLine minSe) = true := by
  rw [minSeLine_eq]
  refine ⟨?_, ?_, ?_⟩
  all_goals exact (hasName_append U _ (by decide) (by decide) (by decide)).trans (by decide)

theorem sessionExpiresLine_timer : isTimer U (sessionExpiresLine expires) = true := by
  rw [isTimer, (sessionExpiresLine_names expires U).1]
  rfl

theorem minSeLine_timer : isTimer U (minSeLine minSe) = true := by
  rw [isTimer, (minSeLine_names minSe U).2.2, Bool.or_true]

theorem supportedLine_lists (U : Lowering) : listsTimer U "Supported: timer".toList = true := by
  have hname : hasName U "supported".toList ("Supported".toList ++ ':' :: " timer".toList) = true :=
    (hasName_append U _ (by decide) (by decide) (by decide)).trans (by decide)
  have hvalue : ((headerValue "Supported: timer".toList).splitOn ',').any
      (fun token => toAsciiLowercase (trim token) = "timer".toList) = true := by
    decide
  exact Bool.and_eq_true_iff.mpr ⟨hname, hvalue⟩

theorem mem_added {hasTimer : Bool} (hh : h ∈ added hasTimer) : h = "Supported: timer".toList := by
  cases hasTimer with
  | true => cases hh
  | false => exact List.mem_singleton.mp hh

theorem not_timer_added {hasTimer : Bool} (hh : h ∈ added hasTimer) : isTimer U h = false := by
  rw [mem_added hh]
  exact not_timer_of_supported (Bool.and_eq_true_iff.mp (supportedLine_lists U)).1

theorem not_timer_front (hh : h ∈ front U m) : isTimer U h = false := by
  have hother : h ∈ otherLines U m := front_append_back U m ▸ List.mem_append_left _ hh
  simpa using (List.mem_filter.mp hother).2

theorem not_timer_back (hh : h ∈ back U m) : isTimer U h = false := by
  have hother : h ∈ otherLines U m := front_append_back U m ▸ List.mem_append_right _ hh
  simpa using (List.mem_filter.mp hother).2

/-- The lines of a name that the SBC sets are its own. -/
theorem filter_apply {p : List Char → Bool} (hp : ∀ h, isTimer U h = false → p h = false) :
    (applySessionTimerHeaders U m expires minSe).headers.filter p =
      [sessionExpiresLine expires, minSeLine minSe].filter p := by
  have hnone {ls : List (List Char)} (hls : ∀ h ∈ ls, isTimer U h = false) : ls.filter p = [] :=
    List.filter_eq_nil_iff.mpr fun h hh => by simp [hp h (hls h hh)]
  rw [apply_headers, timerHeaders_eq, List.filter_append, List.filter_append, List.filter_append,
    hnone fun h hh => not_timer_front m hh, hnone fun h hh => not_timer_added hh,
    hnone fun h hh => not_timer_back m hh, List.nil_append, List.nil_append, List.append_nil]

theorem otherLines_apply :
    otherLines U (applySessionTimerHeaders U m expires minSe) =
      front U m ++ added (hasTimer U m) ++ back U m := by
  have hall {ls : List (List Char)} (hls : ∀ h ∈ ls, isTimer U h = false) : ls.filter (fun h => !isTimer U h) = ls :=
    List.filter_eq_self.mpr fun h hh => by rw [hls h hh]; rfl
  rw [otherLines, apply_headers, timerHeaders_eq, List.filter_append, List.filter_append, List.filter_append,
    hall fun h hh => not_timer_front m hh, hall fun h hh => not_timer_added hh,
    hall fun h hh => not_timer_back m hh, List.filter_cons_of_neg, List.filter_cons_of_neg, List.filter_nil, List.append_nil]
  · simp [minSeLine_timer]
  · simp [sessionExpiresLine_timer]

theorem hasTimer_apply : hasTimer U (applySessionTimerHeaders U m expires minSe) = true := by
  rw [← any_otherLines, otherLines_apply, List.any_append, List.any_append, Bool.or_right_comm, ← List.any_append,
    front_append_back, any_otherLines]
  cases hasTimer U m with
  | true => rfl
  | false => exact Bool.or_eq_true_iff.mpr (.inr (List.any_eq_true.mpr ⟨_, List.mem_singleton_self _, supportedLine_lists U⟩))

theorem supportedLine_place (U : Lowering) : isContentLength U "Supported: timer".toList = false := rfl

/-- The Content-Length is found again behind what was put before it. -/
theorem parts_apply :
    front U (applySessionTimerHeaders U m expires minSe) = front U m ++ added (hasTimer U m) ∧
      back U (applySessionTimerHeaders U m expires minSe) = back U m := by
  have hbefore : ∀ h ∈ front U m ++ added (hasTimer U m), (!isContentLength U h) = true := by
    intro h hh
    rcases List.mem_append.mp hh with hh | hh
    · exact List.mem_takeWhile_imp (p := fun h => !isContentLength U h) hh
    · rw [mem_added hh, supportedLine_place]
      rfl
  have hfrom := List.head?_dropWhile_not (fun h => !isContentLength U h) (otherLines U m)
  have hdrop : (back U m).dropWhile (fun h => !isContentLength U h) = back U m := by
    unfold back
    cases hback : (otherLines U m).dropWhile fun h => !isContentLength U h with
    | nil => rfl
    | cons first rest =>
        rw [hback, List.head?_cons] at hfrom
        exact List.dropWhile_cons_of_neg (by rw [hfrom]; decide)
  have htake : (back U m).takeWhile (fun h => !isContentLength U h) = [] := by
    have hwhole := List.takeWhile_append_dropWhile (p := fun h => !isContentLength U h) (l := back U m)
    rw [hdrop] at hwhole
    exact List.append_left_eq_self.mp hwhole
  constructor
  · rw [front, otherLines_apply, List.takeWhile_append_of_pos hbefore, htake, List.append_nil]
  · rw [back, otherLines_apply, List.dropWhile_append_of_pos hbefore, hdrop]

theorem apply_again (expires' minSe' : UInt32) :
    applySessionTimerHeaders U (applySessionTimerHeaders U m expires minSe) expires' minSe' =
      applySessionTimerHeaders U m expires' minSe' := by
  have hheaders : (applySessionTimerHeaders U (applySessionTimerHeaders U m expires minSe) expires' minSe').headers =
      (applySessionTimerHeaders U m expires' minSe').headers := by
    obtain ⟨hfront, hback⟩ := parts_apply (U := U) m expires minSe
    have hnone : added true = [] := rfl
    rw [apply_headers, apply_headers, hfront, hback, hasTimer_apply, timerHeaders_eq, timerHeaders_eq, hnone,
      List.nil_append, List.append_assoc (front U m)]
  have hall (m : RawSipMessage) : applySessionTimerHeaders U m expires' minSe' =
      { m with headers := (applySessionTimerHeaders U m expires' minSe').headers } := rfl
  rw [hall (applySessionTimerHeaders U m expires minSe), hheaders]
  rfl

end Stamped

section Reading

variable {U : Lowering} {name line : List Char}

/-- Outside ASCII nothing is lower-cased to a colon. -/
def LowersNoColon (U : Lowering) : Prop := ∀ before c after, 128 ≤ c.toNat → ':' ∉ U before c after

theorem not_prefix_outside (hU : LowersOutside U) (hcolon : LowersNoColon U) (hascii : name.all isAscii = true)
    (hk : 'k' ∉ name) {before after rest : List Char} {c : Char} (hc : 128 ≤ c.toNat) :
    ¬ name ++ [':'] <+: U before c after ++ rest := by
  intro h
  rcases List.prefix_or_prefix_of_prefix h (List.prefix_append (U before c after) rest) with hin | hin
  · exact hcolon before c after hc (hin.subset (List.mem_append_right _ List.mem_cons_self))
  · rcases hU before c after hc with hkelvin | ⟨d, hd, hbig⟩
    · have hmem : 'k' ∈ name ++ [':'] := hin.subset (by rw [hkelvin]; decide)
      exact (List.mem_append.mp hmem).elim hk (by decide)
    · have hsmall : d.toNat < 128 := by
        rcases List.mem_append.mp (hin.subset hd) with hd | hd
        · exact of_decide_eq_true (List.all_eq_true.mp hascii d hd)
        · rw [List.mem_singleton.mp hd]
          decide
      omega

/-- A name in front of a colon, read off the lowered line, stands there in ASCII. -/
theorem prefix_of_lowered (hU : LowersOutside U) (hcolon : LowersNoColon U) (hascii : name.all isAscii = true)
    (hk : 'k' ∉ name) (before : List Char) (h : name ++ [':'] <+: lowerFrom U before line) :
    name ++ [':'] <+: toAsciiLowercase line := by
  induction line generalizing name before with
  | nil => exact h
  | cons c after ih =>
      rw [lowerFrom] at h
      split at h
      next =>
        change _ <+: c.toLower :: toAsciiLowercase after
        cases name with
        | nil => exact List.cons_prefix_cons.mpr ⟨(List.cons_prefix_cons.mp h).1, List.nil_prefix⟩
        | cons a name =>
            obtain ⟨ha, hmore⟩ := List.cons_prefix_cons.mp h
            rw [List.all_cons, Bool.and_eq_true] at hascii
            exact List.cons_prefix_cons.mpr ⟨ha, ih hascii.2 (fun hm => hk (List.mem_cons_of_mem _ hm)) _ hmore⟩
      next hc => exact absurd h (not_prefix_outside hU hcolon hascii hk (Nat.le_of_not_lt hc))

/-- A line that is no header of the name is passed over. -/
theorem not_begins (hU : LowersOutside U) (hcolon : LowersNoColon U) (hname : FullName name) (hk : 'k' ∉ name)
    (hplain : ∀ c ∈ name, isWhiteSpace c = false) (hnone : ':' ∉ name) (h : hasName U name line = false) :
    ¬ name ++ [':'] <+: toLowercase U line := by
  intro hbegins
  have hlabel := prefix_of_lowered hU hcolon hname.ascii hk [] hbegins
  rw [hasName_of_label hname.ascii hname.lower hplain hnone hlabel] at h
  cases h

def labels : List (List Char) := ["session-expires:".toList, "x:".toList, "min-se:".toList]

theorem not_begins_timer (hU : LowersOutside U) (hcolon : LowersNoColon U) (h : isTimer U line = false) :
    ∀ label ∈ labels, ¬ label <+: toLowercase U line := by
  rw [isTimer, Bool.or_eq_false_iff, Bool.or_eq_false_iff] at h
  obtain ⟨⟨hexpires, hx⟩, hmin⟩ := h
  intro label hlabel
  simp only [labels, List.mem_cons, List.not_mem_nil, or_false] at hlabel
  rcases hlabel with rfl | rfl | rfl
  · exact not_begins hU hcolon full_sessionExpires (by decide) (not_blank_of_all (by decide)) (by decide) hexpires
  · exact not_begins hU hcolon full_x (by decide) (not_blank_of_all (by decide)) (by decide) hx
  · exact not_begins hU hcolon full_minSe (by decide) (not_blank_of_all (by decide)) (by decide) hmin

/-- A text that is written from a message gives its lines back. -/
theorem lines_render {m : RawSipMessage} (h : Canonical m) (hne : m.startLine ≠ []) :
    (splitCrlf (render m)).takeWhile (· ≠ []) = m.startLine :: m.headers := by
  have hlines := headerLines_render h
  have hsplit : splitCrlf (render m) = m.startLine :: (splitCrlf (render m)).drop 1 := by
    have htext : render m = m.startLine ++ '\r' :: '\n' :: (m.headers.flatMap (· ++ SipBuilder.crlf) ++ SipBuilder.crlf ++ m.body) := by
      simp [render, SipBuilder.crlf]
    rw [htext, splitCrlf_crlf, splitCrlf_oneLine (oneLine_of_not_lf h.no_lf)]
    rfl
  rw [headerLines] at hlines
  rw [hsplit, List.takeWhile_cons_of_pos (by simpa using hne), hlines]

/-- The number in a line that is the first with one of the names. -/
theorem headerU32_first {raw label : List Char} {names before after : List (List Char)} {value : UInt32}
    (hlines : (splitCrlf raw).takeWhile (· ≠ []) = before ++ (label ++ ':' :: ' ' :: showNat value.toNat) :: after)
    (hbefore : ∀ l ∈ before, ∀ name ∈ names, ¬ name <+: toLowercase U l) (hlabel : ':' ∉ label)
    (hnamed : names.any (· <+: toLowercase U (label ++ ':' :: ' ' :: showNat value.toNat)) = true) :
    headerU32 U raw names = some value := by
  have hnone : before.find? (fun l => names.any (· <+: toLowercase U l)) = none := by
    rw [List.find?_eq_none]
    intro l hl hany
    obtain ⟨name, hmem, hname⟩ := List.any_eq_true.mp hany
    exact hbefore l hl name hmem (of_decide_eq_true hname)
  have hnumber : trim ((trim (' ' :: showNat value.toNat)).takeWhile (· ≠ ';')) = showNat value.toNat := by
    have hword := isWord_showNat value.toNat
    rw [trim_cons_space, trim_of_isWord hword, List.takeWhile_eq_self_iff.mpr, trim_of_isWord hword]
    intro c hc
    have hdigit := isDigit_of_mem_showNat hc
    rw [decide_eq_true_iff]
    rintro rfl
    cases hdigit
  have hfirst : ((label ++ ':' :: ' ' :: showNat value.toNat) :: after).find? (fun l => names.any (· <+: toLowercase U l)) =
      some (label ++ ':' :: ' ' :: showNat value.toNat) := by
    rw [List.find?_cons, hnamed]
  rw [headerU32, hlines, List.find?_append, hnone, Option.none_or, hfirst, Option.bind_some, splitOnce_append hlabel,
    Option.bind_some, hnumber, parseU32_showNat]

/-- The request line of an INVITE is none of the headers. -/
theorem not_begins_invite {line : List Char} (h : "INVITE".toList <+: line) :
    ∀ label ∈ labels, ¬ label <+: toLowercase U line := by
  obtain ⟨rest, rfl⟩ := h
  have hlower : toLowercase U ("INVITE".toList ++ rest) = "invite".toList ++ lowerFrom U "INVITE".toList rest :=
    lowerFrom_append [] rest (List.all_eq_true.mp (by decide))
  rw [hlower]
  intro label hlabel hbegins
  simp only [labels, List.mem_cons, List.not_mem_nil, or_false] at hlabel
  rcases hlabel with rfl | rfl | rfl
  all_goals cases (List.cons_prefix_cons.mp hbegins).1

end Reading

section Result

variable {U : Lowering} {m : RawSipMessage} {expires minSe : UInt32}

theorem before_unnamed (hU : LowersOutside U) (hcolon : LowersNoColon U) (hinvite : "INVITE".toList <+: m.startLine) :
    ∀ l ∈ m.startLine :: (front U m ++ added (hasTimer U m)), ∀ label ∈ labels, ¬ label <+: toLowercase U l := by
  intro l hl
  rcases List.mem_cons.mp hl with rfl | hl
  · exact not_begins_invite hinvite
  rcases List.mem_append.mp hl with hl | hl
  · exact not_begins_timer hU hcolon (not_timer_front m hl)
  · exact not_begins_timer hU hcolon (not_timer_added hl)

theorem lines_apply (U : Lowering) (hm : Canonical m) (hinvite : "INVITE".toList <+: m.startLine) (expires minSe : UInt32) :
    (splitCrlf (render (applySessionTimerHeaders U m expires minSe))).takeWhile (· ≠ []) =
      m.startLine :: (front U m ++ added (hasTimer U m)) ++
        sessionExpiresLine expires :: minSeLine minSe :: back U m := by
  have hne : m.startLine ≠ [] := by
    intro hnil
    rw [hnil] at hinvite
    cases List.prefix_nil.mp hinvite
  rw [lines_render (canonical_timer hm expires minSe) hne, apply_headers, timerHeaders_eq]
  simp only [List.cons_append, List.append_assoc, List.nil_append]
  rfl

theorem parseSessionExpires_apply (hU : LowersOutside U) (hcolon : LowersNoColon U) (hm : Canonical m)
    (hinvite : "INVITE".toList <+: m.startLine) :
    parseSessionExpires U (render (applySessionTimerHeaders U m expires minSe)) = some expires := by
  have hlines := lines_apply U hm hinvite expires minSe
  rw [sessionExpiresLine_eq] at hlines
  refine headerU32_first hlines (fun l hl name hname => before_unnamed hU hcolon hinvite l hl name ?_) (by decide) ?_
  · rcases List.mem_cons.mp hname with rfl | hname
    · exact List.mem_cons_self
    · rw [List.mem_singleton.mp hname]
      exact List.mem_cons_of_mem _ List.mem_cons_self
  · exact List.any_eq_true.mpr ⟨_, List.mem_cons_self, decide_eq_true (prefix_toLowercase (by decide) ⟨_, rfl⟩)⟩

theorem parseMinSe_apply (hU : LowersOutside U) (hcolon : LowersNoColon U) (hm : Canonical m)
    (hinvite : "INVITE".toList <+: m.startLine) :
    parseMinSe U (render (applySessionTimerHeaders U m expires minSe)) = some minSe := by
  have hlines := lines_apply U hm hinvite expires minSe
  rw [minSeLine_eq, List.append_cons] at hlines
  have hnamed : "min-se:".toList <+: toLowercase U ("Min-SE".toList ++ ':' :: ' ' :: showNat minSe.toNat) :=
    prefix_toLowercase (by decide) ⟨_, rfl⟩
  refine headerU32_first hlines (fun l hl name hname => ?_) (by decide)
    (List.any_eq_true.mpr ⟨_, List.mem_singleton_self _, decide_eq_true hnamed⟩)
  rw [List.mem_singleton.mp hname]
  rcases List.mem_append.mp hl with hl | hl
  · exact before_unnamed hU hcolon hinvite l hl _ (List.mem_cons_of_mem _ (List.mem_cons_of_mem _ List.mem_cons_self))
  · rw [List.mem_singleton.mp hl]
    exact not_begins hU hcolon full_minSe (by decide) (not_blank_of_all (by decide)) (by decide) (sessionExpiresLine_names expires U).2.2

/-- The headers that the SBC stands for are its own, and the others stay. -/
structure Negotiated (U : Lowering) (m out : RawSipMessage) (expires minSe : UInt32) : Prop where
  sessionExpires : headerValues U out "session-expires".toList ++ headerValues U out "x".toList = [showNat expires.toNat]
  minSe : headerValues U out "min-se".toList = [showNat minSe.toNat]
  timer : hasTimer U out = true
  others : ∃ front back, otherLines U m = front ++ back ∧ otherLines U out = front ++ added (hasTimer U m) ++ back
  startLine : out.startLine = m.startLine
  body : out.body = m.body

theorem negotiated_apply (U : Lowering) (m : RawSipMessage) (expires minSe : UInt32) :
    Negotiated U m (applySessionTimerHeaders U m expires minSe) expires minSe := by
  obtain ⟨hlong, hx, hno⟩ := sessionExpiresLine_names expires U
  obtain ⟨hno', hx', hmin⟩ := minSeLine_names minSe U
  have hnumber (value : UInt32) : trim (' ' :: showNat value.toNat) = showNat value.toNat :=
    (trim_cons_space _).trans (trim_of_isWord (isWord_showNat value.toNat))
  have hfirst : headerValue (sessionExpiresLine expires) = showNat expires.toNat := by
    rw [sessionExpiresLine_eq, headerValue_append (by decide), hnumber]
  have hsecond : headerValue (minSeLine minSe) = showNat minSe.toNat := by
    rw [minSeLine_eq, headerValue_append (by decide), hnumber]
  have hown {name : List Char} (hname : ∀ h, isTimer U h = false → hasName U name h = false) :
      headerValues U (applySessionTimerHeaders U m expires minSe) name =
        ([sessionExpiresLine expires, minSeLine minSe].filter (hasName U name)).map headerValue := by
    rw [headerValues, filter_apply m expires minSe hname]
  refine ⟨?_, ?_, hasTimer_apply m expires minSe, ?_, rfl, rfl⟩
  · rw [hown fun h hh => (Bool.or_eq_false_iff.mp (Bool.or_eq_false_iff.mp hh).1).1,
      hown fun h hh => (Bool.or_eq_false_iff.mp (Bool.or_eq_false_iff.mp hh).1).2]
    simp only [List.filter_cons, List.filter_nil, hlong, hx, hno', hx', hfirst, if_true, Bool.false_eq_true, if_false,
      List.map_cons, List.map_nil, List.append_nil]
  · rw [hown fun h hh => (Bool.or_eq_false_iff.mp hh).2]
    simp only [List.filter_cons, List.filter_nil, hno, hmin, hsecond, if_true, Bool.false_eq_true, if_false,
      List.map_cons, List.map_nil]
  · exact ⟨front U m, back U m, (front_append_back U m).symm, otherLines_apply m expires minSe⟩

end Result

/-- Whatever an INVITE offers, what is sent has the timers of the SBC and no
others, reads them back, and can be stamped anew. -/
theorem sole_negotiator (U : Lowering) (hU : LowersOutside U) (hcolon : LowersNoColon U) (raw : List Char)
    {m : RawSipMessage} (hm : parse raw = .ok m) (hinvite : "INVITE".toList <+: m.startLine) (expires minSe : UInt32) :
    (∃ out, parse (setSessionTimerHeaders U raw expires minSe) = .ok out ∧ Negotiated U m out expires minSe) ∧
      parseSessionExpires U (setSessionTimerHeaders U raw expires minSe) = some expires ∧
      parseMinSe U (setSessionTimerHeaders U raw expires minSe) = some minSe ∧
      ∀ expires' minSe', setSessionTimerHeaders U (setSessionTimerHeaders U raw expires minSe) expires' minSe' =
        setSessionTimerHeaders U raw expires' minSe' := by
  have hcanonical := parse_canonical hm
  have hset (e n : UInt32) : setSessionTimerHeaders U raw e n = render (applySessionTimerHeaders U m e n) := by
    rw [setSessionTimerHeaders, hm]
  have hread := parse_render (canonical_timer (U := U) hcanonical expires minSe)
  rw [hset]
  refine ⟨⟨_, hread, negotiated_apply U m expires minSe⟩, parseSessionExpires_apply hU hcolon hcanonical hinvite,
    parseMinSe_apply hU hcolon hcanonical hinvite, fun expires' minSe' => ?_⟩
  rw [setSessionTimerHeaders, hread, hset]
  exact congrArg render (apply_again m expires minSe expires' minSe')

/-- Timers of the caller, with a compact and a spaced name. -/
def offeredTimers : List Char :=
  "INVITE sip:b SIP/2.0\r\nx: 600\r\n".toList ++ "Min-SE : 14400\r\n".toList ++
    "k: 100rel\r\nl: 1\r\n\r\nv".toList

theorem sole_negotiator_offered :
    parseSessionExpires asciiOnly (setSessionTimerHeaders asciiOnly offeredTimers 1800 90) = some 1800 ∧
      setSessionTimerHeaders asciiOnly (setSessionTimerHeaders asciiOnly offeredTimers 1800 90) 3600 120 =
        setSessionTimerHeaders asciiOnly offeredTimers 3600 120 := by
  have hcolon : LowersNoColon asciiOnly := by
    intro before c after hc hmem
    rw [← List.mem_singleton.mp hmem] at hc
    exact absurd hc (by decide)
  obtain ⟨-, hexpires, -, hagain⟩ := sole_negotiator asciiOnly lowersOutside_asciiOnly hcolon offeredTimers
    (parse_message offeredTimers) (by decide) 1800 90
  exact ⟨hexpires, hagain 3600 120⟩

end NixiSbc.TimerHeaders
