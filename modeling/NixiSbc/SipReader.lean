import NixiSbc.SipFraming
import NixiSbc.RawSip

namespace NixiSbc.SipReader

open ByteWords Utf8 TextScan SipFraming RawSip

def lineNumber (line : List Char) : Nat :=
  ((secondField ':' line).bind fun value => parseUsize (trim value)).getD 0

def headerNumber (header : List Char) : Nat := (parseUsize (headerValue header)).getD 0

def isLengthHeader (U : Lowering) : List Char → Bool := hasName U "content-length".toList

/-- The content length that the header reader finds: the first value, and zero
when there is none or it is no number. -/
def readLength (U : Lowering) (m : RawSipMessage) : Nat :=
  match headerValues U m "content-length".toList with
  | [] => 0
  | value :: _ => (parseUsize value).getD 0

/-- The header is this line, perhaps with folded lines joined to it. -/
def Continues (line header : List Char) : Prop :=
  ∃ more, header = line ++ more ∧ (more = [] ∨ more.head? = some ' ')

/-- When the two scanners read one header section alike. Both may find nothing.
If only one finds a line, that line has to declare nothing. If the header that
the reader finds is the line that the framer finds, it must have one colon and
no text on folded lines, or declare nothing. If they stop at different lines,
these have to declare the same. -/
def Agrees (U : Lowering) (text : List Char) : Prop :=
  match (lines text).find? isLengthLine,
    (collectHeaders none ((lines text).drop 1)).find? (isLengthHeader U) with
  | none, none => True
  | none, some header => headerNumber header = 0
  | some line, none => lineNumber line = 0
  | some line, some header =>
      (Continues line header →
        (line.count ':' = 1 ∧ ∀ c ∈ header.drop line.length, isWhiteSpace c = true) ∨
          lineNumber line = 0) ∧
      (¬Continues line header → headerNumber header = lineNumber line)

theorem readLength_eq (U : Lowering) (m : RawSipMessage) :
    readLength U m = ((m.headers.find? (isLengthHeader U)).map headerNumber).getD 0 := by
  rw [readLength, headerValues]
  induction m.headers with
  | nil => rfl
  | cons header headers ih =>
      by_cases h : isLengthHeader U header = true
      · have h' : hasName U "content-length".toList header = true := h
        rw [List.filter_cons_of_pos h', List.find?_cons_of_pos h]
        rfl
      · have h' : ¬hasName U "content-length".toList header = true := h
        rw [List.filter_cons_of_neg h', List.find?_cons_of_neg h]
        exact ih

theorem scanLength_ok {ls : List (List Char)} {n : Nat} (h : scanLength ls = .ok n) :
    (ls.find? isLengthLine = none ∧ n = 0) ∨
    ∃ line value, ls.find? isLengthLine = some line ∧ secondField ':' line = some value ∧
      parseUsize (trim value) = some n := by
  induction ls with
  | nil =>
      cases h
      exact .inl ⟨rfl, rfl⟩
  | cons line ls ih =>
      rw [scanLength] at h
      by_cases hl : isLengthLine line = true
      · right
        rw [if_pos hl] at h
        rw [List.find?_cons_of_pos hl]
        cases hv : secondField ':' line with
        | none => simp [hv] at h
        | some value =>
            cases hn : parseUsize (trim value) with
            | none => simp [hv, hn] at h
            | some k =>
                simp only [hv, hn, Except.ok.injEq] at h
                exact ⟨line, value, rfl, hv, by rw [hn, h]⟩
      · rw [if_neg hl] at h
        rw [List.find?_cons_of_neg hl]
        exact ih h

theorem secondField_some {line value : List Char} (h : secondField ':' line = some value) :
    ∃ name rest, line = name ++ ':' :: rest ∧ ':' ∉ name ∧ value = rest.takeWhile (· ≠ ':') := by
  rw [secondField] at h
  split at h
  · cases h
  next c rest hd =>
    cases h
    have hc : c = ':' := by
      have hhead := List.head?_dropWhile_not (fun x => decide (x ≠ ':')) line
      rw [hd] at hhead
      simpa using hhead
    subst hc
    refine ⟨line.takeWhile (· ≠ ':'), rest, ?_, ?_, rfl⟩
    · rw [← hd, List.takeWhile_append_dropWhile]
    · intro hm
      have hp := List.mem_takeWhile_imp hm
      simp at hp

/-- The one-line case: the reader's value goes on where the framer's stops. -/
theorem continued_agrees {line header value : List Char} {n : Nat}
    (hv : secondField ':' line = some value) (hn : parseUsize (trim value) = some n)
    (hc : Continues line header) :
    headerNumber header = n ↔
      (line.count ':' = 1 ∧ ∀ c ∈ header.drop line.length, isWhiteSpace c = true) ∨ n = 0 := by
  obtain ⟨more, rfl, hmore⟩ := hc
  obtain ⟨name, rest, rfl, hname, rfl⟩ := secondField_some hv
  rw [List.drop_left]
  have hnumber : headerNumber (name ++ ':' :: rest ++ more) = (parseUsize (trim (rest ++ more))).getD 0 := by
    rw [headerNumber, List.append_assoc, List.cons_append, headerValue_append hname]
  have hcount : (name ++ ':' :: rest).count ':' = 1 ↔ ':' ∉ rest := by
    rw [List.count_append, List.count_eq_zero_of_not_mem hname, List.count_cons_self, Nat.zero_add,
      Nat.add_eq_right, List.count_eq_zero]
  rw [hnumber, hcount]
  by_cases hcolon : ':' ∈ rest
  · -- a second colon spoils the number for the reader
    have hnone : parseUsize (trim (rest ++ more)) = none :=
      parseUsize_eq_none (mem_trim (List.mem_append_left _ hcolon) (by decide)) (by decide) (by decide)
    rw [hnone]
    constructor
    · intro h
      exact .inr h.symm
    · rintro (⟨hno, -⟩ | h)
      · exact absurd hcolon hno
      · exact h.symm
  · have hfield : rest.takeWhile (· ≠ ':') = rest := by
      rw [List.takeWhile_eq_self_iff]
      intro c hcm
      simp only [decide_eq_true_eq]
      rintro rfl
      exact hcolon hcm
    rw [hfield] at hn
    have hne : trimStart rest ≠ [] := by
      intro he
      apply ne_nil_of_parseUsize hn
      rw [trim, he]
      rfl
    by_cases hblank : ∀ c ∈ more, isWhiteSpace c = true
    · rw [trim_append_blank hne hblank, hn]
      exact ⟨fun _ => .inl ⟨hcolon, hblank⟩, fun _ => rfl⟩
    · -- a word on a folded line does too
      have hspace : ' ' ∈ trim (rest ++ more) := by
        push Not at hblank
        obtain ⟨c, hcm, hcw⟩ := hblank
        have hcw' : isWhiteSpace c = false := by simpa using hcw
        rcases hmore with rfl | hhead
        · exact absurd hcm List.not_mem_nil
        · obtain ⟨tail, rfl⟩ := List.head?_eq_some_iff.mp hhead
          refine space_mem_trim hne ((List.mem_cons.mp hcm).resolve_left ?_) hcw'
          rintro rfl
          exact absurd hcw' (by decide)
      have hnone : parseUsize (trim (rest ++ more)) = none :=
        parseUsize_eq_none hspace (by decide) (by decide)
      rw [hnone]
      constructor
      · intro h
        exact .inr h.symm
      · rintro (⟨-, hall⟩ | h)
        · exact absurd hall hblank
        · exact h.symm

theorem prefix_drop_append {pattern front : Bytes} {o : Nat} (hle : o + pattern.length ≤ front.length)
    {rest : Bytes} (h : pattern <+: (front ++ rest).drop o) (rest' : Bytes) :
    pattern <+: (front ++ rest').drop o := by
  rw [List.drop_append_of_le_length (by omega)] at h ⊢
  have hfront : pattern <+: front.drop o := by
    apply List.prefix_of_prefix_length_le h (List.prefix_append _ _)
    rw [List.length_drop]
    omega
  exact hfront.trans (List.prefix_append _ _)

/-- The reader splits the text where the framer split the bytes. -/
theorem findSub_text {buffer : Bytes} {headerEnd : Nat} {text : List Char}
    (hend : findSub terminator buffer = some headerEnd)
    (htext : fromUtf8 (buffer.take headerEnd) = some text) (body : List Char) :
    findSub crlfCrlf (text ++ crlfCrlf ++ body) = some text.length := by
  obtain ⟨hle, ⟨rest, hrest⟩, hbefore⟩ := findSub_eq_some hend
  have henc : encode text = buffer.take headerEnd := fromUtf8_eq_some.mp htext
  have hlen : (encode text).length = headerEnd := by
    rw [henc, List.length_take]
    omega
  have hbuffer : buffer = encode text ++ terminator ++ rest := by
    rw [List.append_assoc, hrest, henc, List.take_append_drop]
  apply findSub_of_first
  · rw [List.append_assoc, List.drop_left]
    exact List.prefix_append _ _
  · simp
  · rintro j hj ⟨more, hmore⟩
    rw [List.append_assoc, List.drop_append_of_le_length hj.le] at hmore
    have htake : encode text = encode (text.take j) ++ encode (text.drop j) := by
      rw [encode, encode, encode, ← List.flatMap_append, List.take_append_drop]
    have hpos : (encode (text.drop j)).length > 0 := by
      have hl := length_le_encode (text.drop j)
      rw [List.length_drop] at hl
      omega
    have hsplit : encode text ++ terminator ++ encode body =
        encode (text.take j) ++ (terminator ++ encode more) := by
      have he := congrArg encode hmore
      simp only [encode, List.flatMap_append] at he
      simp only [encode] at htake
      rw [encode, htake, List.append_assoc, List.append_assoc]
      exact congrArg _ he.symm
    have hearly : terminator <+: (encode text ++ terminator ++ encode body).drop
        (encode (text.take j)).length := by
      rw [hsplit, List.drop_left]
      exact List.prefix_append _ _
    have hlt : (encode (text.take j)).length < headerEnd := by
      rw [← hlen, htake, List.length_append]
      omega
    refine hbefore _ hlt ?_
    rw [hbuffer]
    apply prefix_drop_append _ hearly
    rw [List.length_append, hlen]
    change _ + 4 ≤ _ + 4
    omega

theorem parse_headers {text : List Char} {body : List Char}
    (h : findSub crlfCrlf (text ++ crlfCrlf ++ body) = some text.length) :
    ∃ m, parse (text ++ crlfCrlf ++ body) = .ok m ∧
      m.headers = collectHeaders none ((lines text).drop 1) := by
  rw [parse, splitBody_append h]
  exact ⟨_, rfl, rfl⟩

/-- The framer ends a message where the header reader would, exactly when the
header section is one that they read alike. -/
theorem framer_agrees_with_reader_iff (U : Lowering) {buffer : Bytes} {stop headerEnd : Nat}
    {text : List Char} (hframe : frameSipMessage buffer = .message stop)
    (hend : findSub terminator buffer = some headerEnd)
    (htext : fromUtf8 (buffer.take headerEnd) = some text) (body : List Char) :
    (∃ m, parse (text ++ crlfCrlf ++ body) = .ok m ∧ stop = headerEnd + 4 + readLength U m) ↔
      Agrees U text := by
  obtain ⟨headerEnd', text', n, hend', htext', hscan, -, rfl, -⟩ := frame_message hframe
  obtain rfl : headerEnd = headerEnd' := Option.some.inj (hend.symm.trans hend')
  obtain rfl : text = text' := Option.some.inj (htext.symm.trans htext')
  obtain ⟨m, hm, hheaders⟩ := parse_headers (findSub_text hend htext body)
  have hleft : (∃ m, parse (text ++ crlfCrlf ++ body) = .ok m ∧
      headerEnd + 4 + n = headerEnd + 4 + readLength U m) ↔ readLength U m = n := by
    constructor
    · rintro ⟨m', hm', he⟩
      rw [hm] at hm'
      cases hm'
      omega
    · intro he
      exact ⟨m, hm, by rw [he]⟩
  rw [hleft, readLength_eq, hheaders, Agrees]
  rcases scanLength_ok hscan with ⟨hline, rfl⟩ | ⟨line, value, hline, hv, hn⟩
  · rw [hline]
    cases (collectHeaders none ((lines text).drop 1)).find? (isLengthHeader U) with
    | none => simp
    | some header => simp
  · have hnumber : lineNumber line = n := by
      rw [lineNumber, hv, Option.bind_some, hn, Option.getD_some]
    rw [hline]
    cases (collectHeaders none ((lines text).drop 1)).find? (isLengthHeader U) with
    | none =>
        simp only [Option.map_none, Option.getD_none, hnumber]
        exact eq_comm
    | some header =>
        simp only [Option.map_some, Option.getD_some, hnumber]
        by_cases hc : Continues line header
        · rw [continued_agrees hv hn hc]
          exact ⟨fun h => ⟨fun _ => h, fun hno => absurd hc hno⟩, fun h => h.1 hc⟩
        · exact ⟨fun h => ⟨fun hyes => absurd hyes hc, fun _ => h⟩, fun h => h.2 hc⟩

def keepOther : Lowering := fun _ c _ => [c]

def plainText : List Char := "A\r\nContent-Length: 2\r\nB: c".toList

theorem plainText_agrees : Agrees keepOther plainText := by
  have hline : (lines plainText).find? isLengthLine = some "Content-Length: 2".toList := by decide
  have hheader : (collectHeaders none ((lines plainText).drop 1)).find? (isLengthHeader keepOther) =
      some "Content-Length: 2".toList := by decide
  rw [Agrees, hline, hheader]
  exact ⟨fun _ => .inl ⟨by decide, List.all_eq_true.mp rfl⟩, fun h => absurd ⟨[], rfl, .inl rfl⟩ h⟩

theorem framer_agrees_with_reader_plain :
    frameSipMessage (encode (plainText ++ crlfCrlf ++ "hi".toList)) = .message 32 ∧
    ∃ m, parse (plainText ++ crlfCrlf ++ "hi".toList) = .ok m ∧ 32 = 26 + 4 + readLength keepOther m := by
  have hframe : frameSipMessage (encode (plainText ++ crlfCrlf ++ "hi".toList)) = .message 32 := by
    decide
  exact ⟨hframe, (framer_agrees_with_reader_iff keepOther hframe (by decide)
    (fromUtf8_eq_some.mpr (by decide)) "hi".toList).mpr plainText_agrees⟩

def paddedText : List Char := "INVITE sip:b SIP/2.0\r\nContent-Length : 5".toList

/-- With a space before the colon the framer sees no body and the reader five
bytes, so the body is framed as the next message. -/
theorem framer_disagrees_on_padded_name :
    frameSipMessage (encode (paddedText ++ crlfCrlf ++ "Hello".toList)) = .message 44 ∧
    findSub terminator (encode (paddedText ++ crlfCrlf ++ "Hello".toList)) = some 40 ∧
    (∃ m, parse (paddedText ++ crlfCrlf ++ "Hello".toList) = .ok m ∧ readLength keepOther m = 5 ∧
      44 ≠ 40 + 4 + readLength keepOther m) ∧
    (encode (paddedText ++ crlfCrlf ++ "Hello".toList)).drop 44 = encode "Hello".toList :=
  ⟨by decide, by decide, ⟨_, rfl, by decide, by decide⟩, by decide⟩

end NixiSbc.SipReader
