import NixiSbc.Sdp

namespace NixiSbc.SdpRewrite

open TextScan TextFields TextLines TextWords NetAddr Sdp

/-- The lines before the first medium. -/
def head (ls : List (List Char)) : List (List Char) := ls.takeWhile (!isMedia ·)

/-- Every media line with the lines up to the next one. -/
def blocks : List (List Char) → List (List Char × List (List Char))
  | [] => []
  | line :: rest => if isMedia line then (line, rest.takeWhile (!isMedia ·)) :: blocks rest else blocks rest

def mediaWords (line : List Char) : List (List Char) := words (line.drop 2)

def portOf (line : List Char) : Option UInt16 := (mediaWords line)[1]?.bind readPort

def isAttribute (line : List Char) : Bool := "a=".toList <+: line

/-- The line without the port of its `rtcp` attribute. -/
def maskRtcp (line : List Char) : List Char :=
  match stripPrefix "a=rtcp:".toList line with
  | some rest => "a=rtcp:".toList ++ rest.dropWhile isDigit
  | none => line

def attributes (ls : List (List Char)) : List (List Char) := (ls.filter isAttribute).map maskRtcp

/-- The connection that the lines give last. -/
def connection (ls : List (List Char)) : Option Connection := (ls.filterMap connectionLine).getLast?

/-- The stream has the same words but for its port, and the same attributes. A
rejected one stays rejected, and another that is announced with the address of
the proxy is announced with its port. -/
structure StreamKept (publicIp : Option IpAddr) (rtpPort : UInt16) (session : List (List Char))
    (before after : List Char × List (List Char)) : Prop where
  words : (mediaWords after.1).eraseIdx 1 = (mediaWords before.1).eraseIdx 1
  attributes : attributes after.2 = attributes before.2
  rejected : portOf before.1 = some 0 → portOf after.1 = some 0
  announced : portOf before.1 ≠ some 0 → ∀ ip, publicIp = some ip →
    ((connection after.2).or (connection session)).map Connection.address = some (showIp ip) →
      portOf after.1 = some rtpPort

structure Preserves (publicIp : Option IpAddr) (rtpPort : UInt16) (before after : List (List Char)) :
    Prop where
  session : attributes (head after) = attributes (head before)
  streams : List.Forall₂ (StreamKept publicIp rtpPort (head after)) (blocks before) (blocks after)

/-- A media line that can be read and printed without a loss: a known type, a port,
and formats that are numbers of a byte in their usual notation. -/
def Plain (line : List Char) : Prop :=
  ∃ (t : MediaType) (port protocol format : List Char) (formats : List (List Char)),
    mediaWords line = t.asStr :: port :: protocol :: format :: formats ∧ (readPort port).isSome = true ∧
      ∀ f ∈ format :: formats, ∃ n : UInt8, f = showNat n.toNat

def isAudio (line : List Char) : Bool := (mediaWords line).head? = some "audio".toList

def isEarly (line : List Char) : Bool := !(isTime line || isMedia line)

/-- The lines before the time and the first medium. -/
def beforeTime (ls : List (List Char)) : List (List Char) := ls.takeWhile isEarly

/-- What a block must be like for the rewriting to keep it. -/
structure Keepable (publicIp : Option IpAddr) (rtpPort : UInt16) (session : List (List Char))
    (b : List Char × List (List Char)) : Prop where
  plain : Plain b.1
  rejected : portOf b.1 = some 0 → isAudio b.1 = true → rtpPort = 0
  other : publicIp.isSome = true → portOf b.1 ≠ some 0 → isAudio b.1 = false →
    ((connection b.2).or (connection session)).isSome = true → portOf b.1 = some rtpPort

/-- No attribute of the session, and every medium can be kept. -/
structure Rewritable (publicIp : Option IpAddr) (rtpPort : UInt16) (ls : List (List Char)) : Prop where
  session : ∀ l ∈ head ls, isAttribute l = false
  streams : ∀ b ∈ blocks ls, Keepable publicIp rtpPort (beforeTime ls) b

section Blocks

variable {line : List Char} {ls rest : List (List Char)}

theorem blocks_cons_of_not (h : isMedia line = false) : blocks (line :: rest) = blocks rest := by
  rw [blocks, if_neg (ne_true_of_eq_false h)]

theorem blocks_append_of_not {front : List (List Char)} (h : ∀ l ∈ front, isMedia l = false)
    (rest : List (List Char)) : blocks (front ++ rest) = blocks rest := by
  induction front with
  | nil => rfl
  | cons line front ih =>
      rw [List.cons_append, blocks_cons_of_not (h line List.mem_cons_self)]
      exact ih fun l hl => h l (List.mem_cons_of_mem _ hl)

theorem blocks_dropWhile (ls : List (List Char)) : blocks (ls.dropWhile (!isMedia ·)) = blocks ls := by
  have hfront : ∀ l ∈ ls.takeWhile (!isMedia ·), isMedia l = false := by
    intro l hl
    simpa using List.mem_takeWhile_imp hl
  rw [← blocks_append_of_not hfront (ls.dropWhile (!isMedia ·)), List.takeWhile_append_dropWhile]

/-- The media that can be read, up to the first that cannot. -/
def readBlocks : List (List Char × List (List Char)) → List MediaDescription
  | [] => []
  | b :: bs =>
      match parseMedia b.1 b.2 with
      | .error _ => []
      | .ok m => m :: readBlocks bs

theorem not_isBlank_of_isMedia (h : isMedia line = true) : isBlank line = false := by
  obtain ⟨rest, rfl⟩ : "m=".toList <+: line := of_decide_eq_true h
  apply decide_eq_false
  intro hnil
  have hmem : 'm' ∈ trim ("m=".toList ++ rest) :=
    mem_trim (List.mem_append_left _ (by decide)) (by decide)
  rw [hnil] at hmem
  cases hmem

theorem parseMediaAll_eq (ls : List (List Char)) : parseMediaAll ls = readBlocks (blocks ls) := by
  induction hn : ls.length using Nat.strong_induction_on generalizing ls with
  | _ n ih =>
      cases ls with
      | nil => rw [parseMediaAll, blocks, readBlocks]
      | cons line rest =>
          have hrest : rest.length < n := by rw [← hn, List.length_cons]; omega
          cases hm : isMedia line with
          | false =>
              rw [parseMediaAll, hm, blocks_cons_of_not hm, ih _ hrest rest rfl]
              simp
          | true =>
              rw [parseMediaAll, not_isBlank_of_isMedia hm, hm, if_neg Bool.false_ne_true,
                if_neg (by decide), blocks, if_pos hm, readBlocks]
              cases parseMedia line (rest.takeWhile (!isMedia ·)) with
              | error text => rfl
              | ok m =>
                  have hle := (List.dropWhile_suffix (p := (!isMedia ·)) (l := rest)).length_le
                  dsimp only
                  rw [ih _ (lt_of_le_of_lt hle hrest) (rest.dropWhile (!isMedia ·)) rfl, blocks_dropWhile]

/-- Every block is read and kept, or one of them is lost. -/
theorem forall₂_readBlocks {R : List Char × List (List Char) → List Char × List (List Char) → Prop}
    {out : MediaDescription → List Char × List (List Char)} (bs : List (List Char × List (List Char))) :
    List.Forall₂ R bs ((readBlocks bs).map out) ↔
      ∀ b ∈ bs, ∃ m, parseMedia b.1 b.2 = .ok m ∧ R b (out m) := by
  induction bs with
  | nil => exact ⟨fun _ => nofun, fun _ => .nil⟩
  | cons b bs ih =>
      rw [readBlocks, List.forall_mem_cons]
      cases hb : parseMedia b.1 b.2 with
      | error text =>
          constructor
          · intro h
            cases h
          · rintro ⟨⟨m, hm, -⟩, -⟩
            cases hm
      | ok m =>
          dsimp only
          rw [List.map_cons, List.forall₂_cons, ih]
          refine and_congr_left' ⟨fun h => ⟨m, rfl, h⟩, ?_⟩
          rintro ⟨m', hm', h⟩
          cases hm'
          exact h

end Blocks

section Reading

variable {ls rest : List (List Char)} {line : List Char}

theorem parseVersion_ok {version : UInt32} (h : parseVersion ls = .ok (version, rest)) :
    ∃ value, ls = ("v=".toList ++ value) :: rest := by
  cases ls with
  | nil => cases h
  | cons line more =>
      rw [parseVersion] at h
      split at h
      next => cases h
      next value hvalue =>
        split at h
        next => cases h
        next =>
          cases h
          exact ⟨value, by rw [eq_of_stripPrefix hvalue]⟩

/-- The fields of the origin are words. -/
def WordOrigin (o : Origin) : Prop :=
  IsWord o.username ∧ IsWord o.sessionId ∧ IsWord o.sessionVersion ∧ IsWord o.networkType ∧
    IsWord o.addressType ∧ IsWord o.address

theorem parseOrigin_ok {origin : Origin} (h : parseOrigin ls = .ok (origin, rest)) :
    (∃ value, ls = ("o=".toList ++ value) :: rest) ∧ WordOrigin origin := by
  cases ls with
  | nil => cases h
  | cons line more =>
      rw [parseOrigin] at h
      split at h
      next => cases h
      next value hvalue =>
        split at h
        next a b c d e f hwords =>
          have hword : ∀ w ∈ [a, b, c, d, e, f], IsWord w := fun w hw =>
            isWord_of_mem_words (hwords ▸ hw)
          cases h
          refine ⟨⟨value, by rw [eq_of_stripPrefix hvalue]⟩, ?_⟩
          exact ⟨hword a (by simp), hword b (by simp), hword c (by simp), hword d (by simp),
            hword e (by simp), hword f (by simp)⟩
        next => cases h

theorem parseSessionName_ok {name : List Char} (h : parseSessionName ls = .ok (name, rest)) :
    ls = ("s=".toList ++ name) :: rest := by
  cases ls with
  | nil => cases h
  | cons line more =>
      rw [parseSessionName] at h
      split at h
      next => cases h
      next value hvalue =>
        cases h
        rw [eq_of_stripPrefix hvalue]

theorem parseTime_ok {time : TimeDescription} (h : parseTime ls = .ok (time, rest)) :
    (ls = rest ∨ ∃ value, ls = ("t=".toList ++ value) :: rest) ∧ IsWord time.startTime ∧
      IsWord time.stopTime := by
  have hzero : IsWord ['0'] := ⟨List.cons_ne_nil _ _, not_blank_of_all (by decide)⟩
  cases ls with
  | nil =>
      cases h
      exact ⟨.inl rfl, hzero, hzero⟩
  | cons line more =>
      rw [parseTime] at h
      split at h
      next =>
        cases h
        exact ⟨.inl rfl, hzero, hzero⟩
      next value hvalue =>
        split at h
        next a b hwords =>
          have hword : ∀ w ∈ [a, b], IsWord w := fun w hw => isWord_of_mem_words (hwords ▸ hw)
          cases h
          exact ⟨.inr ⟨value, by rw [eq_of_stripPrefix hvalue]⟩, hword a (by simp), hword b (by simp)⟩
        next => cases h

theorem connectionLine_of_not (h : ¬ "c=".toList <+: line) : connectionLine line = none := by
  rw [connectionLine, stripPrefix, if_neg h]
  rfl

theorem connection_cons (line : List Char) (ls : List (List Char)) :
    connection (line :: ls) = (connection ls).or (connectionLine line) := by
  rw [connection, connection, List.filterMap_cons]
  cases connectionLine line with
  | none => rw [Option.or_none]
  | some c =>
      dsimp only
      rw [List.getLast?_cons]
      cases (ls.filterMap connectionLine).getLast? with
      | none => rfl
      | some c' => rfl

theorem parseSessionLines_eq (conn : Option Connection) (ls : List (List Char)) :
    parseSessionLines conn ls = ((connection (beforeTime ls)).or conn, ls.dropWhile isEarly) := by
  induction ls generalizing conn with
  | nil => rfl
  | cons line ls ih =>
      rw [parseSessionLines]
      split
      next hc =>
        have hearly : isEarly line = true := by
          obtain ⟨rest, rfl⟩ := hc
          rfl
        rw [ih, beforeTime, beforeTime, List.takeWhile_cons_of_pos hearly,
          List.dropWhile_cons_of_pos hearly, connection_cons, Option.or_assoc]
      next hc =>
        split
        next hstop =>
          have hlate : ¬ isEarly line = true := by simp [isEarly, hstop]
          rw [beforeTime, List.takeWhile_cons_of_neg hlate, List.dropWhile_cons_of_neg hlate]
          rfl
        next hgo =>
          have hearly : isEarly line = true := by simpa [isEarly] using hgo
          rw [ih, beforeTime, beforeTime, List.takeWhile_cons_of_pos hearly,
            List.dropWhile_cons_of_pos hearly, connection_cons, connectionLine_of_not hc, Option.or_none]

/-- A line that is neither a time, a medium nor a connection tells nothing here. -/
structure Silent (line : List Char) : Prop where
  early : isEarly line = true
  media : isMedia line = false
  connection : connectionLine line = none

theorem silent_of_isBlank (h : isBlank line = true) : Silent line := by
  have hnil : trim line = [] := of_decide_eq_true h
  have hstart : ∀ (c d : Char), isWhiteSpace c = false → ¬ [c, d] <+: line := by
    intro c d hc hpat
    have hmem : c ∈ trim line := mem_trim (hpat.subset List.mem_cons_self) hc
    rw [hnil] at hmem
    cases hmem
  have htime : isTime line = false := decide_eq_false (hstart 't' '=' (by decide))
  have hmedia : isMedia line = false := decide_eq_false (hstart 'm' '=' (by decide))
  refine ⟨?_, hmedia, connectionLine_of_not (hstart 'c' '=' (by decide))⟩
  rw [isEarly, htime, hmedia]
  rfl

theorem beforeTime_append {front : List (List Char)} (h : ∀ l ∈ front, Silent l) (ls : List (List Char)) :
    connection (beforeTime (front ++ ls)) = connection (beforeTime ls) := by
  induction front with
  | nil => rfl
  | cons line front ih =>
      have hline := h line List.mem_cons_self
      rw [List.cons_append, beforeTime, List.takeWhile_cons_of_pos hline.early, connection_cons,
        hline.connection, Option.or_none]
      exact ih fun l hl => h l (List.mem_cons_of_mem _ hl)

/-- What an accepted text says: its media are the blocks that can be read, and its
connection the last one before the time. -/
structure Read (text : List Char) (s : SessionDescription) : Prop where
  media : s.media = readBlocks (blocks (lines text))
  connection : s.connection = connection (beforeTime (lines text))
  origin : WordOrigin s.origin
  name : '\n' ∉ s.sessionName
  time : IsWord s.time.startTime ∧ IsWord s.time.stopTime

theorem ok_of_bind {α β : Type} {x : Except (List Char) α} {f : α → Except (List Char) β} {b : β}
    (h : (x >>= f) = .ok b) : ∃ a, x = .ok a ∧ f a = .ok b := by
  cases x with
  | error e => cases h
  | ok a => exact ⟨a, rfl, h⟩

theorem parse_read {text : List Char} {s : SessionDescription}
    (h : SessionDescription.parse text = .ok s) : Read text s := by
  unfold SessionDescription.parse at h
  obtain ⟨⟨version, ls₁⟩, hversion, h⟩ := ok_of_bind h
  obtain ⟨⟨origin, ls₂⟩, horigin, h⟩ := ok_of_bind h
  obtain ⟨⟨name, ls₃⟩, hname, h⟩ := ok_of_bind h
  dsimp only at h
  rw [parseSessionLines_eq, Option.or_none] at h
  obtain ⟨⟨time, ls₅⟩, htime, h⟩ := ok_of_bind h
  obtain rfl := Except.ok.inj h
  obtain ⟨v, hv⟩ := parseVersion_ok hversion
  obtain ⟨⟨o, ho⟩, hwords⟩ := parseOrigin_ok horigin
  have hs := parseSessionName_ok hname
  change parseTime (ls₃.dropWhile isEarly) = _ at htime
  obtain ⟨ht, hstart, hstop⟩ := parseTime_ok htime
  -- the lines in front of the session part
  have hfront : ∀ l ∈ (lines text).takeWhile isBlank ++ ["v=".toList ++ v, "o=".toList ++ o, "s=".toList ++ name],
      Silent l := by
    intro l hl
    rcases List.mem_append.mp hl with hblank | hl
    · exact silent_of_isBlank (List.mem_takeWhile_imp hblank)
    · simp only [List.mem_cons, List.not_mem_nil, or_false] at hl
      rcases hl with rfl | rfl | rfl
      · exact ⟨rfl, rfl, connectionLine_of_not (by simp)⟩
      · exact ⟨rfl, rfl, connectionLine_of_not (by simp)⟩
      · exact ⟨rfl, rfl, connectionLine_of_not (by simp)⟩
  have hall : lines text = ((lines text).takeWhile isBlank ++
      ["v=".toList ++ v, "o=".toList ++ o, "s=".toList ++ name]) ++ ls₃ := by
    rw [List.append_assoc]
    change _ = _ ++ (_ :: _ :: _ :: ls₃)
    rw [← hs, ← ho, ← hv, List.takeWhile_append_dropWhile]
  have hearly : ∀ l ∈ ls₃.takeWhile isEarly, isMedia l = false := by
    intro l hl
    have hl := List.mem_takeWhile_imp hl
    rw [isEarly, Bool.not_eq_true', Bool.or_eq_false_iff] at hl
    exact hl.2
  have hlate : blocks (ls₃.dropWhile isEarly) = blocks ls₅ := by
    rcases ht with heq | ⟨value, heq⟩
    · rw [heq]
    · rw [heq]
      exact blocks_cons_of_not rfl
  have hblocks : blocks (lines text) = blocks ls₅ := by
    rw [hall, blocks_append_of_not fun l hl => (hfront l hl).media, ← hlate,
      ← blocks_append_of_not hearly (ls₃.dropWhile isEarly), List.takeWhile_append_dropWhile]
  have hline : "s=".toList ++ name ∈ lines text := by
    rw [hall]
    simp
  refine ⟨?_, ?_, hwords, ?_, hstart, hstop⟩
  · rw [parseMediaAll_eq, blocks_dropWhile, hblocks]
  · rw [hall, beforeTime_append hfront]
  · intro hmem
    exact not_mem_of_mem_lines hline (List.mem_append_right _ hmem)

end Reading

section Rendering

/-- The fields of the connection are words. -/
def WordConnection (c : Connection) : Prop :=
  IsWord c.networkType ∧ IsWord c.addressType ∧ IsWord c.address

def connectionText (c : Connection) : List Char :=
  "c=".toList ++ (c.networkType ++ [c.addressType, c.address].flatMap (' ' :: ·))

def attributeText (a : Attribute) : List Char :=
  "a=".toList ++ (a.key ++ match a.value with
    | some value => ':' :: value
    | none => [])

def mediaText (m : MediaDescription) : List Char :=
  "m=".toList ++ (m.mediaType.asStr ++
    (showNat m.port.toNat :: m.protocol :: m.formats.map fun f => showNat f.toNat).flatMap (' ' :: ·))

def mediaBody (m : MediaDescription) : List (List Char) :=
  m.connection.toList.map connectionText ++ m.attributes.map attributeText

def headText (s : SessionDescription) : List (List Char) :=
  ["v=".toList ++ showNat s.version.toNat,
    "o=".toList ++ (s.origin.username ++ [s.origin.sessionId, s.origin.sessionVersion, s.origin.networkType,
      s.origin.addressType, s.origin.address].flatMap (' ' :: ·)),
    "s=".toList ++ s.sessionName] ++
    s.connection.toList.map connectionText ++
    ["t=".toList ++ (s.time.startTime ++ ' ' :: s.time.stopTime)]

theorem render_connection : Connection.render = fun c => connectionText c ++ crlf := by
  funext c
  unfold Connection.render connectionText
  simp only [List.flatMap_cons, List.flatMap_nil, List.append_assoc, List.cons_append, List.append_nil]

theorem render_attribute : Attribute.render = fun a => attributeText a ++ crlf := by
  funext a
  unfold Attribute.render attributeText
  cases a.value with
  | none => simp only [List.append_assoc, List.append_nil]
  | some value => simp only [List.append_assoc, List.cons_append]

theorem render_media :
    MediaDescription.render = fun m => (mediaText m :: mediaBody m).flatMap (· ++ crlf) := by
  funext m
  unfold MediaDescription.render mediaText mediaBody
  simp only [render_connection, render_attribute, List.flatMap_cons, List.flatMap_append,
    List.flatMap_map, List.append_assoc, List.cons_append]

theorem render_session (s : SessionDescription) :
    s.render = (headText s ++ s.media.flatMap fun m => mediaText m :: mediaBody m).flatMap (· ++ crlf) := by
  unfold SessionDescription.render headText
  simp only [render_connection, render_media, List.flatMap_cons, List.flatMap_nil,
    List.flatMap_append, List.flatMap_map, List.flatMap_assoc, List.append_assoc, List.cons_append, List.nil_append, List.append_nil]

end Rendering

section Rtcp

variable {port : UInt16} {line : List Char}

theorem rewriteRtcpLine_of_ne {c : Char} (hblank : isWhiteSpace c = false) (hne : c ≠ 'a')
    (rest : List Char) : rewriteRtcpLine port (c :: rest) = c :: rest := by
  have hstart : trimStart (c :: rest) = c :: rest :=
    List.dropWhile_cons_of_neg (ne_true_of_eq_false hblank)
  have hnone : stripPrefix "a=rtcp:".toList (c :: rest) = none := by
    apply if_neg
    rintro ⟨more, hmore⟩
    exact hne (List.cons.inj hmore).1.symm
  rw [rewriteRtcpLine, hstart, hnone]

theorem stripPrefix_rtcp_attribute (h : isAttribute line = true) : trimStart line = line := by
  obtain ⟨rest, rfl⟩ : "a=".toList <+: line := of_decide_eq_true h
  exact List.dropWhile_cons_of_neg (by decide)

/-- Only the port of an attribute changes. -/
theorem maskRtcp_rewriteRtcpLine (port : UInt16) (h : isAttribute line = true) :
    maskRtcp (rewriteRtcpLine port line) = maskRtcp line ∧
      isAttribute (rewriteRtcpLine port line) = true := by
  rw [rewriteRtcpLine, stripPrefix_rtcp_attribute h]
  split
  next rest hrest =>
    split
    next =>
      refine ⟨?_, decide_eq_true ⟨"rtcp:".toList ++ showNat port.toNat ++ rest.dropWhile isDigit, ?_⟩⟩
      · have hdigits : (showNat port.toNat ++ rest.dropWhile isDigit).dropWhile isDigit =
            rest.dropWhile isDigit := by
          rw [List.dropWhile_append_of_pos fun c hc => isDigit_of_mem_showNat hc]
          exact List.dropWhile_idempotent _ _
        rw [maskRtcp, List.append_assoc, stripPrefix_append]
        dsimp only
        rw [hdigits, maskRtcp, hrest]
      · simp only [List.append_assoc]
        rfl
    next => exact ⟨rfl, h⟩
  next => exact ⟨rfl, h⟩

theorem rewriteRtcpLine_not_lf (h : '\n' ∉ line) : '\n' ∉ rewriteRtcpLine port line := by
  rw [rewriteRtcpLine]
  split
  next rest hrest =>
    split
    next =>
      intro hmem
      have hrest' : '\n' ∈ trimStart line := by
        rw [eq_of_stripPrefix hrest]
        rcases List.mem_append.mp hmem with hmem | hmem
        · rcases List.mem_append.mp hmem with hmem | hmem
          · exact List.mem_append_left _ hmem
          · exact absurd hmem (isWord_showNat _).not_lf
        · exact List.mem_append_right _ ((List.dropWhile_suffix _).subset hmem)
      exact h ((List.dropWhile_suffix _).subset hrest')
    next => exact h
  next => exact h

/-- The lines of a rewritten text are the rewritten lines. -/
theorem lines_rewriteRtcpAttr {ls : List (List Char)} (hne : ls ≠ []) (h : ∀ l ∈ ls, '\n' ∉ l) :
    lines (rewriteRtcpAttr (ls.flatMap (· ++ crlf)) port) = ls.map (rewriteRtcpLine port) := by
  have hends : crlf <:+ ls.flatMap (· ++ crlf) := by
    obtain ⟨front, last, rfl⟩ := (List.eq_nil_or_concat ls).resolve_left hne
    rw [List.concat_eq_append, List.flatMap_append]
    exact ⟨front.flatMap (· ++ crlf) ++ last, by simp⟩
  have hlines : lines (ls.flatMap (· ++ crlf)) = ls := lines_flatMap h
  rw [rewriteRtcpAttr, if_neg fun hnot => hnot.1 hends, hlines]
  have hform : ls.flatMap (fun line => rewriteRtcpLine port line ++ crlf) =
      (ls.map (rewriteRtcpLine port)).flatMap (· ++ crlf) := by
    rw [List.flatMap_map]
  rw [hform]
  apply lines_flatMap
  intro l hl
  obtain ⟨line, hline, rfl⟩ := List.mem_map.mp hl
  exact rewriteRtcpLine_not_lf (h line hline)

end Rtcp

section Editing

variable (publicIp : Option IpAddr) (rtpPort : UInt16)

def editConnection (c : Connection) : Connection :=
  match publicIp with
  | some ip => c.replaceIp ip
  | none => c

def editMedia (m : MediaDescription) : MediaDescription :=
  { m with
    connection := m.connection.map (editConnection publicIp)
    port := if m.mediaType = .audio then rtpPort else m.port }

/-- The description that is printed. -/
def edited (s : SessionDescription) : SessionDescription :=
  (match publicIp with
    | some ip => s.replaceIp ip
    | none => s).replacePort .audio rtpPort

theorem editConnection_none : editConnection none = id := rfl

theorem edited_connection (s : SessionDescription) :
    (edited publicIp rtpPort s).connection = s.connection.map (editConnection publicIp) := by
  cases publicIp with
  | none => rw [editConnection_none, Option.map_id]; rfl
  | some ip => rfl

theorem edited_media (s : SessionDescription) :
    (edited publicIp rtpPort s).media = s.media.map (editMedia publicIp rtpPort) := by
  cases publicIp with
  | none =>
      apply List.map_congr_left
      intro m _
      rw [editMedia, editConnection_none, Option.map_id]
      split
      · rfl
      · rfl
  | some ip =>
      change (s.media.map _).map _ = _
      rw [List.map_map]
      apply List.map_congr_left
      intro m _
      rw [editMedia, Function.comp_apply]
      dsimp only
      split
      · rfl
      · rfl

end Editing

section Addresses

theorem not_blank_showV4 {octets : List UInt8} {c : Char} (h : c ∈ showV4 octets) :
    isWhiteSpace c = false := by
  rcases mem_intercalate h with hsep | ⟨part, hpart, hc⟩
  · rw [List.mem_singleton.mp hsep]
    decide
  · obtain ⟨b, -, rfl⟩ := List.mem_map.mp hpart
    exact (isWord_showNat _).2 c hc

theorem not_blank_showSegments {segs : List Nat} {c : Char} (h : c ∈ showSegments segs) :
    isWhiteSpace c = false := by
  rcases mem_intercalate h with hsep | ⟨part, hpart, hc⟩
  · rw [List.mem_singleton.mp hsep]
    decide
  · obtain ⟨n, -, rfl⟩ := List.mem_map.mp hpart
    exact not_blank_of_mem_toDigits (by decide) hc

theorem not_blank_showIp (ip : IpAddr) : ∀ c ∈ showIp ip, isWhiteSpace c = false := by
  intro c hc
  cases ip with
  | v4 octets => exact not_blank_showV4 hc
  | v6 octets =>
      rw [showIp, showV6] at hc
      dsimp only at hc
      split at hc
      next =>
        rcases List.mem_append.mp hc with hc | hc
        · exact not_blank_of_all (by decide) c hc
        · exact not_blank_showV4 hc
      next =>
        split at hc
        next =>
          rcases List.mem_append.mp hc with hc | hc
          · rcases List.mem_append.mp hc with hc | hc
            · exact not_blank_showSegments hc
            · exact not_blank_of_all (by decide) c hc
          · exact not_blank_showSegments hc
        next => exact not_blank_showSegments hc

theorem intercalate_ne_nil {sep part : List Char} (h : part ≠ []) (parts : List (List Char)) :
    sep.intercalate (part :: parts) ≠ [] := by
  cases parts with
  | nil =>
      rw [List.intercalate_singleton]
      exact h
  | cons next more =>
      rw [List.intercalate_cons_cons, List.append_assoc]
      exact List.append_ne_nil_of_left_ne_nil h _

theorem toDigits_ne_nil {base : Nat} (hbase : 1 < base) (n : Nat) : Nat.toDigits base n ≠ [] := by
  rw [Nat.toDigits_eq_if hbase]
  split
  · exact List.cons_ne_nil _ _
  · exact List.append_ne_nil_of_right_ne_nil _ (List.cons_ne_nil _ _)

theorem showV4_ne_nil {octets : List UInt8} (h : octets ≠ []) : showV4 octets ≠ [] := by
  obtain ⟨b, rest, rfl⟩ := List.exists_cons_of_ne_nil h
  exact intercalate_ne_nil (showNat_ne_nil _) _

theorem showSegments_ne_nil {segs : List Nat} (h : segs ≠ []) : showSegments segs ≠ [] := by
  obtain ⟨n, rest, rfl⟩ := List.exists_cons_of_ne_nil h
  exact intercalate_ne_nil (toDigits_ne_nil (by decide) n) _

theorem showIp_ne_nil (ip : IpAddr) : showIp ip ≠ [] := by
  cases ip with
  | v4 octets =>
      apply showV4_ne_nil
      rw [← List.length_pos_iff, Vector.length_toList]
      decide
  | v6 octets =>
      rw [showIp, showV6]
      dsimp only
      split
      · exact List.append_ne_nil_of_left_ne_nil (by decide) _
      · split
        · rw [List.append_assoc]
          exact List.append_ne_nil_of_right_ne_nil _ (List.append_ne_nil_of_left_ne_nil (by decide) _)
        · apply showSegments_ne_nil
          have hlen : octets.toList.length = 16 := Vector.length_toList
          match octets.toList, hlen with
          | a :: b :: rest, _ => exact List.cons_ne_nil _ _

theorem isWord_showIp (ip : IpAddr) : IsWord (showIp ip) := ⟨showIp_ne_nil ip, not_blank_showIp ip⟩

theorem isWord_addrType (ip : IpAddr) : IsWord (addrType ip) := by
  cases ip with
  | v4 octets =>
      change IsWord "IP4".toList
      exact ⟨by decide, not_blank_of_all (by decide)⟩
  | v6 octets =>
      change IsWord "IP6".toList
      exact ⟨by decide, not_blank_of_all (by decide)⟩

end Addresses

section Output

variable {publicIp : Option IpAddr} {rtpPort port : UInt16} {c : Connection} {m : MediaDescription}

theorem wordConnection_of_line {line : List Char} (h : connectionLine line = some c) : WordConnection c := by
  obtain ⟨value, -, hvalue⟩ := Option.bind_eq_some_iff.mp h
  split at hvalue
  next a b d hwords =>
    have hword : ∀ w ∈ [a, b, d], IsWord w := fun w hw => isWord_of_mem_words (hwords ▸ hw)
    cases hvalue
    exact ⟨hword a (by simp), hword b (by simp), hword d (by simp)⟩
  next => cases hvalue

theorem wordConnection_of_connection {ls : List (List Char)} (h : connection ls = some c) :
    WordConnection c := by
  obtain ⟨line, -, hline⟩ := List.mem_filterMap.mp (List.mem_of_getLast? h)
  exact wordConnection_of_line hline

theorem WordConnection.edit (h : WordConnection c) : WordConnection (editConnection publicIp c) := by
  cases publicIp with
  | none => exact h
  | some ip => exact ⟨h.1, isWord_addrType ip, isWord_showIp ip⟩

/-- A connection is read as it was printed. -/
theorem connectionLine_connectionText (h : WordConnection c) : connectionLine (connectionText c) = some c := by
  have hmore : ∀ w ∈ [c.addressType, c.address], IsWord w := by
    intro w hw
    simp only [List.mem_cons, List.not_mem_nil, or_false] at hw
    rcases hw with rfl | rfl
    · exact h.2.1
    · exact h.2.2
  rw [connectionLine, connectionText, stripPrefix_append, Option.bind_some, words_flatMap h.1 hmore]

theorem connectionText_not_lf (h : WordConnection c) : '\n' ∉ connectionText c := by
  simp [connectionText, h.1.not_lf, h.2.1.not_lf, h.2.2.not_lf]

/-- The attributes are printed as they were read. -/
theorem attributeText_of_line {line : List Char} {a : Attribute} (h : attributeLine line = some a) :
    attributeText a = line := by
  obtain ⟨value, hvalue, ha⟩ := Option.map_eq_some_iff.mp h
  rw [eq_of_stripPrefix hvalue, attributeText]
  congr 1
  split at ha
  next key value' hsplit =>
    subst ha
    exact (eq_of_splitOnce hsplit).symm
  next =>
    subst ha
    exact List.append_nil value

theorem isWord_asStr (t : MediaType) : IsWord t.asStr := by
  cases t <;> exact ⟨by decide, not_blank_of_all (by decide)⟩

theorem mediaWords_mediaText (h : IsWord m.protocol) :
    mediaWords (mediaText m) =
      m.mediaType.asStr :: showNat m.port.toNat :: m.protocol :: m.formats.map fun f => showNat f.toNat := by
  have hmore : ∀ w ∈ showNat m.port.toNat :: m.protocol :: m.formats.map fun f => showNat f.toNat,
      IsWord w := by
    intro w hw
    rcases List.mem_cons.mp hw with rfl | hw
    · exact isWord_showNat _
    · rcases List.mem_cons.mp hw with rfl | hw
      · exact h
      · obtain ⟨f, -, rfl⟩ := List.mem_map.mp hw
        exact isWord_showNat _
  exact words_flatMap (isWord_asStr m.mediaType) hmore

theorem readPort_showNat (p : UInt16) : readPort (showNat p.toNat) = some p := by
  have hslash : (showNat p.toNat).takeWhile (· ≠ '/') = showNat p.toNat := by
    rw [List.takeWhile_eq_self_iff]
    intro c hc
    have hdigit := isDigit_of_mem_showNat hc
    simp only [ne_eq, decide_not, Bool.not_eq_true', decide_eq_false_iff_not]
    rintro rfl
    cases hdigit
  rw [readPort, hslash, parseUnsigned_showNat p.toNat_lt, Option.map_some, UInt16.ofNat_toNat]

theorem readFormat_showNat (f : UInt8) : readFormat (showNat f.toNat) = some f := by
  rw [readFormat, parseUnsigned_showNat f.toNat_lt, Option.map_some, UInt8.ofNat_toNat]

/-- What was read of a block. -/
structure ReadMedia (b : List Char × List (List Char)) (m : MediaDescription) (port format : List Char)
    (formats : List (List Char)) : Prop where
  words : mediaWords b.1 = m.mediaType.asStr :: port :: m.protocol :: format :: formats
  port : readPort port = some m.port
  formats : m.formats = (format :: formats).filterMap readFormat
  connection : m.connection = connection b.2
  attributes : m.attributes = b.2.filterMap attributeLine

theorem asStr_of_fromStr {s : List Char} {t : MediaType} (h : MediaType.fromStr s = .ok t) : t.asStr = s := by
  rw [MediaType.fromStr] at h
  split_ifs at h with h₁ h₂ h₃ h₄ h₅
  · cases h
    exact h₁.symm
  · cases h
    exact h₂.symm
  · cases h
    exact h₃.symm
  · cases h
    exact h₄.symm
  · cases h
    exact h₅.symm

theorem fromStr_asStr (t : MediaType) : MediaType.fromStr t.asStr = .ok t := by
  cases t <;> rfl

theorem parseMedia_ok {b : List Char × List (List Char)} (h : parseMedia b.1 b.2 = .ok m) :
    ∃ port format formats, ReadMedia b m port format formats := by
  rw [parseMedia] at h
  split at h
  next => cases h
  next value hvalue =>
    have hwords : mediaWords b.1 = words value := by
      rw [mediaWords, eq_of_stripPrefix hvalue]
      rfl
    split at h
    next media port protocol format formats hsplit =>
      split at h
      next => cases h
      next t ht =>
        split at h
        next => cases h
        next p hp =>
          cases h
          refine ⟨port, format, formats, ?_, hp, rfl, rfl, rfl⟩
          rw [hwords, hsplit, asStr_of_fromStr ht]
    next => cases h

theorem parseMedia_of_plain {b : List Char × List (List Char)} (hmedia : isMedia b.1 = true)
    (h : Plain b.1) : ∃ m, parseMedia b.1 b.2 = .ok m := by
  obtain ⟨t, port, protocol, format, formats, hwords, hport, -⟩ := h
  obtain ⟨p, hp⟩ := Option.isSome_iff_exists.mp hport
  have hvalue : stripPrefix "m=".toList b.1 = some (b.1.drop 2) := if_pos (of_decide_eq_true hmedia)
  rw [mediaWords] at hwords
  simp only [parseMedia, hvalue, hwords, fromStr_asStr, hp]
  exact ⟨_, rfl⟩

end Output

section Bodies

variable {publicIp : Option IpAddr} {rtpPort port : UInt16} {m : MediaDescription}
  {b : List Char × List (List Char)} {ls : List (List Char)}

theorem isAttribute_eq (line : List Char) : isAttribute line = (attributeLine line).isSome := by
  rw [isAttribute, attributeLine, stripPrefix, Option.isSome_map]
  split
  next h => exact decide_eq_true h
  next h => exact decide_eq_false h

theorem attributeText_filterMap (ls : List (List Char)) :
    (ls.filterMap attributeLine).map attributeText = ls.filter isAttribute := by
  induction ls with
  | nil => rfl
  | cons line ls ih =>
      rw [List.filterMap_cons, List.filter_cons, isAttribute_eq]
      cases h : attributeLine line with
      | none => exact ih
      | some a =>
          rw [Option.isSome_some, if_pos rfl, List.map_cons, attributeText_of_line h, ih]

theorem attributes_append (xs ys : List (List Char)) :
    attributes (xs ++ ys) = attributes xs ++ attributes ys := by
  rw [attributes, List.filter_append, List.map_append, attributes, attributes]

theorem attributes_eq_nil_iff : attributes ls = [] ↔ ∀ l ∈ ls, isAttribute l = false := by
  rw [attributes, List.map_eq_nil_iff, List.filter_eq_nil_iff]
  simp only [Bool.not_eq_true]

/-- The rewriting keeps the attributes but for their ports. -/
theorem attributes_rewritten (h : ∀ l ∈ ls, isAttribute l = true) :
    attributes (ls.map (rewriteRtcpLine port)) = ls.map maskRtcp := by
  have hall : (ls.map (rewriteRtcpLine port)).filter isAttribute = ls.map (rewriteRtcpLine port) := by
    rw [List.filter_eq_self]
    intro l hl
    obtain ⟨line, hline, rfl⟩ := List.mem_map.mp hl
    exact (maskRtcp_rewriteRtcpLine port (h line hline)).2
  rw [attributes, hall, List.map_map]
  apply List.map_congr_left
  intro line hline
  exact (maskRtcp_rewriteRtcpLine port (h line hline)).1

theorem connection_append_of_none {ys : List (List Char)} (h : ∀ l ∈ ys, connectionLine l = none)
    (xs : List (List Char)) : connection (xs ++ ys) = connection xs := by
  rw [connection, List.filterMap_append, List.filterMap_eq_nil_iff.mpr h, List.append_nil, connection]

theorem connection_texts {o : Option Connection} (h : ∀ c ∈ o, WordConnection c) :
    connection (o.toList.map connectionText) = o := by
  cases o with
  | none => rfl
  | some c =>
      rw [Option.toList_some, List.map_singleton, connection, List.filterMap_cons,
        connectionLine_connectionText (h c rfl)]
      rfl

theorem connectionLine_of_isAttribute {line : List Char} (h : isAttribute line = true) :
    connectionLine line = none := by
  obtain ⟨rest, rfl⟩ : "a=".toList <+: line := of_decide_eq_true h
  apply connectionLine_of_not
  rintro ⟨more, hmore⟩
  cases (List.cons.inj hmore).1

/-- The body of a medium as it is sent on. -/
def sentBody (port : UInt16) (m : MediaDescription) : List (List Char) :=
  (mediaBody m).map (rewriteRtcpLine port)

theorem sentBody_eq (m : MediaDescription) :
    sentBody port m = m.connection.toList.map connectionText ++
      (m.attributes.map attributeText).map (rewriteRtcpLine port) := by
  rw [sentBody, mediaBody, List.map_append, List.map_map, List.map_map]
  congr 1

theorem isAttribute_attributeText (a : Attribute) : isAttribute (attributeText a) = true :=
  decide_eq_true (List.prefix_append _ _)

theorem not_isAttribute_connectionText (c : Connection) : isAttribute (connectionText c) = false := by
  apply decide_eq_false
  rintro ⟨more, hmore⟩
  cases (List.cons.inj hmore).1

theorem attributes_sentBody (h : m.attributes = b.2.filterMap attributeLine) :
    attributes (sentBody port m) = attributes b.2 := by
  have hconn : attributes (m.connection.toList.map connectionText) = [] := by
    rw [attributes_eq_nil_iff]
    intro l hl
    obtain ⟨c, -, rfl⟩ := List.mem_map.mp hl
    exact not_isAttribute_connectionText c
  rw [sentBody_eq, attributes_append, hconn, List.nil_append, h, attributeText_filterMap,
    attributes_rewritten fun l hl => (List.mem_filter.mp hl).2, attributes]

theorem connection_sentBody (h : ∀ c ∈ m.connection, WordConnection c) :
    connection (sentBody port m) = m.connection := by
  have hattr : ∀ l ∈ (m.attributes.map attributeText).map (rewriteRtcpLine port),
      connectionLine l = none := by
    intro l hl
    obtain ⟨line, hline, rfl⟩ := List.mem_map.mp hl
    obtain ⟨a, -, rfl⟩ := List.mem_map.mp hline
    exact connectionLine_of_isAttribute (maskRtcp_rewriteRtcpLine port (isAttribute_attributeText a)).2
  rw [sentBody_eq, connection_append_of_none hattr, connection_texts h]

end Bodies

section Streams

variable {publicIp : Option IpAddr} {rtpPort rtcpPort : UInt16} {m : MediaDescription}
  {b : List Char × List (List Char)} {session : List (List Char)} {conn : Option Connection}
  {port format : List Char} {formats : List (List Char)}

theorem ReadMedia.portOf_eq (h : ReadMedia b m port format formats) : portOf b.1 = some m.port := by
  rw [portOf, h.words]
  exact h.port

theorem asStr_eq_audio_iff (t : MediaType) : t.asStr = "audio".toList ↔ t = .audio := by
  constructor
  · intro h
    have hread := fromStr_asStr t
    rw [h] at hread
    exact (Except.ok.inj hread).symm
  · rintro rfl
    rfl

theorem ReadMedia.isAudio_iff (h : ReadMedia b m port format formats) :
    isAudio b.1 = true ↔ m.mediaType = .audio := by
  rw [isAudio, h.words, List.head?_cons, decide_eq_true_eq, Option.some.injEq, asStr_eq_audio_iff]

theorem ReadMedia.isWord_protocol (h : ReadMedia b m port format formats) : IsWord m.protocol := by
  have hmem : m.protocol ∈ mediaWords b.1 := by
    rw [h.words]
    simp
  exact isWord_of_mem_words hmem

theorem ReadMedia.wordConnection (h : ReadMedia b m port format formats) :
    ∀ c ∈ m.connection, WordConnection c := by
  intro c hc
  rw [h.connection] at hc
  exact wordConnection_of_connection hc

/-- The formats survive when they are numbers in their usual notation. -/
theorem formats_kept_iff (ws : List (List Char)) :
    (ws.filterMap readFormat).map (fun f => showNat f.toNat) = ws ↔
      ∀ f ∈ ws, ∃ n : UInt8, f = showNat n.toNat := by
  constructor
  · intro h f hf
    rw [← h] at hf
    obtain ⟨n, -, hn⟩ := List.mem_map.mp hf
    exact ⟨n, hn.symm⟩
  · intro h
    induction ws with
    | nil => rfl
    | cons w ws ih =>
        obtain ⟨n, rfl⟩ := h w List.mem_cons_self
        rw [List.filterMap_cons, readFormat_showNat]
        dsimp only
        rw [List.map_cons, ih fun f hf => h f (List.mem_cons_of_mem _ hf)]

theorem portOf_mediaText (h : IsWord m.protocol) : portOf (mediaText m) = some m.port := by
  rw [portOf, mediaWords_mediaText h]
  exact readPort_showNat m.port

/-- The address next to an edited medium is that of the proxy when there is one. -/
theorem edited_address (ip : IpAddr) (o conn : Option Connection) :
    ((o.map (editConnection (some ip))).or (conn.map (editConnection (some ip)))).map Connection.address =
      some (showIp ip) ↔ (o.or conn).isSome = true := by
  cases o with
  | some c => simp [editConnection, Connection.replaceIp]
  | none =>
      cases conn with
      | some c => simp [editConnection, Connection.replaceIp]
      | none => simp

/-- When a medium that was read is kept. -/
theorem streamKept_iff (h : ReadMedia b m port format formats)
    (hsession : connection session = conn.map (editConnection publicIp)) :
    StreamKept publicIp rtpPort session b
        (mediaText (editMedia publicIp rtpPort m), sentBody rtcpPort (editMedia publicIp rtpPort m)) ↔
      (∀ f ∈ format :: formats, ∃ n : UInt8, f = showNat n.toNat) ∧
        (m.port = 0 → m.mediaType = .audio → rtpPort = 0) ∧
        (publicIp.isSome = true → m.port ≠ 0 → m.mediaType ≠ .audio →
          ((connection b.2).or conn).isSome = true → m.port = rtpPort) := by
  have hwords : mediaWords (mediaText (editMedia publicIp rtpPort m)) =
      m.mediaType.asStr :: showNat (editMedia publicIp rtpPort m).port.toNat :: m.protocol ::
        m.formats.map fun f => showNat f.toNat := mediaWords_mediaText h.isWord_protocol
  have hport : portOf (mediaText (editMedia publicIp rtpPort m)) =
      some (if m.mediaType = .audio then rtpPort else m.port) := portOf_mediaText h.isWord_protocol
  have hconn : connection (sentBody rtcpPort (editMedia publicIp rtpPort m)) =
      (connection b.2).map (editConnection publicIp) := by
    rw [connection_sentBody]
    · rw [← h.connection]
      rfl
    · intro c hc
      obtain ⟨c', hc', rfl⟩ := Option.map_eq_some_iff.mp hc
      exact (h.wordConnection c' hc').edit
  constructor
  · intro hk
    refine ⟨?_, ?_, ?_⟩
    · have hw := hk.words
      rw [hwords, h.words] at hw
      simp only [List.eraseIdx_cons_succ, List.eraseIdx_cons_zero, List.cons.injEq, true_and] at hw
      rw [h.formats] at hw
      exact (formats_kept_iff _).mp hw
    · intro hzero haudio
      have hr := hk.rejected (by rw [h.portOf_eq, hzero])
      rw [hport, if_pos haudio] at hr
      exact Option.some.inj hr
    · intro hip hzero haudio hsome
      obtain ⟨ip, rfl⟩ := Option.isSome_iff_exists.mp hip
      have hr := hk.announced (by rw [h.portOf_eq]; exact fun he => hzero (Option.some.inj he)) ip rfl
        (by rw [hconn, hsession]; exact (edited_address ip _ _).mpr hsome)
      rw [hport, if_neg haudio] at hr
      exact Option.some.inj hr
  · rintro ⟨hformats, hrejected, hother⟩
    constructor
    case words =>
      rw [hwords, h.words]
      simp only [List.eraseIdx_cons_succ, List.eraseIdx_cons_zero, List.cons.injEq, true_and]
      rw [h.formats]
      exact (formats_kept_iff _).mpr hformats
    case attributes => exact attributes_sentBody h.attributes
    case rejected =>
      intro hzero
      rw [h.portOf_eq] at hzero
      rw [hport]
      split
      next haudio => rw [hrejected (Option.some.inj hzero) haudio]
      next => exact hzero
    case announced =>
      rintro hzero ip rfl haddress
      rw [h.portOf_eq] at hzero
      rw [hconn, hsession, edited_address] at haddress
      rw [hport]
      split
      next => rfl
      next haudio => rw [hother rfl (fun he => hzero (by rw [he])) haudio haddress]

/-- A block is read and kept exactly when it can be. -/
theorem read_and_kept_iff (hmedia : isMedia b.1 = true) {ls : List (List Char)}
    (hsession : connection session = (connection (beforeTime ls)).map (editConnection publicIp)) :
    (∃ m, parseMedia b.1 b.2 = .ok m ∧ StreamKept publicIp rtpPort session b
      (mediaText (editMedia publicIp rtpPort m), sentBody rtcpPort (editMedia publicIp rtpPort m))) ↔
      Keepable publicIp rtpPort (beforeTime ls) b := by
  constructor
  · rintro ⟨m, hm, hk⟩
    obtain ⟨port, format, formats, h⟩ := parseMedia_ok hm
    obtain ⟨hformats, hrejected, hother⟩ := (streamKept_iff h hsession).mp hk
    constructor
    case plain =>
      exact ⟨m.mediaType, port, m.protocol, format, formats, h.words, by rw [h.port]; rfl, hformats⟩
    case rejected =>
      intro hzero haudio
      rw [h.portOf_eq] at hzero
      exact hrejected (Option.some.inj hzero) (h.isAudio_iff.mp haudio)
    case other =>
      intro hip hzero haudio hsome
      rw [h.portOf_eq] at hzero ⊢
      rw [hother hip (fun he => hzero (by rw [he]))
        (fun he => ne_true_of_eq_false haudio (h.isAudio_iff.mpr he)) hsome]
  · intro hk
    obtain ⟨m, hm⟩ := parseMedia_of_plain hmedia hk.plain
    obtain ⟨port, format, formats, h⟩ := parseMedia_ok hm
    refine ⟨m, hm, (streamKept_iff h hsession).mpr ⟨?_, ?_, ?_⟩⟩
    · obtain ⟨t, port', protocol, format', formats', hwords, -, hformats⟩ := hk.plain
      rw [h.words] at hwords
      simp only [List.cons.injEq] at hwords
      obtain ⟨-, -, -, rfl, rfl⟩ := hwords
      exact hformats
    · intro hzero haudio
      exact hk.rejected (by rw [h.portOf_eq, hzero]) (h.isAudio_iff.mpr haudio)
    · intro hip hzero haudio hsome
      have hp := hk.other hip (by rw [h.portOf_eq]; exact fun he => hzero (Option.some.inj he))
        (eq_false_of_ne_true fun he => haudio (h.isAudio_iff.mp he)) hsome
      rw [h.portOf_eq] at hp
      exact Option.some.inj hp

end Streams

section Whole

variable {publicIp : Option IpAddr} {rtpPort rtcpPort : UInt16}

theorem head_append_of_not {front : List (List Char)} (h : ∀ l ∈ front, isMedia l = false)
    (rest : List (List Char)) : head (front ++ rest) = front ++ head rest := by
  have hfront : ∀ l ∈ front, (!isMedia l) = true := fun l hl => by rw [h l hl]; rfl
  rw [head, List.takeWhile_append_of_pos hfront, head]

/-- Printed media are the blocks of their lines. -/
theorem head_blocks_flatMap (out : MediaDescription → List Char × List (List Char))
    {ms : List MediaDescription} (hline : ∀ m ∈ ms, isMedia (out m).1 = true)
    (hbody : ∀ m ∈ ms, ∀ l ∈ (out m).2, isMedia l = false) :
    head (ms.flatMap fun m => (out m).1 :: (out m).2) = [] ∧
      blocks (ms.flatMap fun m => (out m).1 :: (out m).2) = ms.map out := by
  induction ms with
  | nil => exact ⟨rfl, rfl⟩
  | cons m ms ih =>
      obtain ⟨hhead, hblocks⟩ := ih (fun m' hm' => hline m' (List.mem_cons_of_mem _ hm'))
        fun m' hm' => hbody m' (List.mem_cons_of_mem _ hm')
      have hmedia := hline m List.mem_cons_self
      have hown := hbody m List.mem_cons_self
      have hnot : ¬ (!isMedia (out m).1) = true := by rw [hmedia]; decide
      rw [List.flatMap_cons, List.cons_append]
      constructor
      · rw [head, List.takeWhile_cons, if_neg hnot]
      · have htake : ((out m).2 ++ ms.flatMap fun m => (out m).1 :: (out m).2).takeWhile (!isMedia ·) =
            (out m).2 := by
          change head _ = _
          rw [head_append_of_not hown, hhead, List.append_nil]
        rw [blocks, if_pos hmedia, htake, blocks_append_of_not hown, hblocks, List.map_cons]

theorem mem_blocks {ls : List (List Char)} {b : List Char × List (List Char)} (h : b ∈ blocks ls) :
    isMedia b.1 = true ∧ ∀ l ∈ b.2, l ∈ ls := by
  induction ls with
  | nil => cases h
  | cons line ls ih =>
      rw [blocks] at h
      split at h
      next hmedia =>
        rcases List.mem_cons.mp h with rfl | h
        · exact ⟨hmedia, fun l hl => List.mem_cons_of_mem _ ((List.takeWhile_prefix _).subset hl)⟩
        · exact ⟨(ih h).1, fun l hl => List.mem_cons_of_mem _ ((ih h).2 l hl)⟩
      next => exact ⟨(ih h).1, fun l hl => List.mem_cons_of_mem _ ((ih h).2 l hl)⟩

theorem mem_readBlocks {bs : List (List Char × List (List Char))} {m : MediaDescription}
    (h : m ∈ readBlocks bs) : ∃ b ∈ bs, parseMedia b.1 b.2 = .ok m := by
  induction bs with
  | nil => cases h
  | cons b bs ih =>
      rw [readBlocks] at h
      split at h
      next => cases h
      next m' hm' =>
        rcases List.mem_cons.mp h with rfl | h
        · exact ⟨b, List.mem_cons_self, hm'⟩
        · obtain ⟨b', hb', hm⟩ := ih h
          exact ⟨b', List.mem_cons_of_mem _ hb', hm⟩

theorem edited_rest (publicIp : Option IpAddr) (rtpPort : UInt16) (s : SessionDescription) :
    (edited publicIp rtpPort s).sessionName = s.sessionName ∧
      (edited publicIp rtpPort s).time = s.time ∧
      (edited publicIp rtpPort s).version = s.version := by
  cases publicIp with
  | none => exact ⟨rfl, rfl, rfl⟩
  | some ip => exact ⟨rfl, rfl, rfl⟩

theorem WordOrigin.edit {s : SessionDescription} (h : WordOrigin s.origin) :
    WordOrigin (edited publicIp rtpPort s).origin := by
  cases publicIp with
  | none => exact h
  | some ip => exact ⟨h.1, h.2.1, h.2.2.1, h.2.2.2.1, isWord_addrType ip, isWord_showIp ip⟩

/-- What is printed in front of the media has no line feed of its own. -/
theorem headText_not_lf {s : SessionDescription} (horigin : WordOrigin s.origin)
    (hname : '\n' ∉ s.sessionName) (hconn : ∀ c ∈ s.connection, WordConnection c)
    (htime : IsWord s.time.startTime ∧ IsWord s.time.stopTime) : ∀ l ∈ headText s, '\n' ∉ l := by
  intro l hl
  simp only [headText, List.mem_append, List.mem_cons, List.not_mem_nil, or_false] at hl
  rcases hl with ((rfl | rfl | rfl) | hl) | rfl
  · simp [(isWord_showNat s.version.toNat).not_lf]
  · obtain ⟨h₁, h₂, h₃, h₄, h₅, h₆⟩ := horigin
    simp [h₁.not_lf, h₂.not_lf, h₃.not_lf, h₄.not_lf, h₅.not_lf, h₆.not_lf]
  · simp [hname]
  · obtain ⟨c, hc, rfl⟩ := List.mem_map.mp hl
    exact connectionText_not_lf (hconn c (Option.mem_toList.mp hc))
  · simp [htime.1.not_lf, htime.2.not_lf]

theorem mediaText_not_lf {m : MediaDescription} (h : IsWord m.protocol) : '\n' ∉ mediaText m := by
  have hports := (isWord_showNat m.port.toNat).not_lf
  have hformats : ∀ f ∈ m.formats, '\n' ∉ showNat f.toNat := fun f _ => (isWord_showNat _).not_lf
  have htype := (isWord_asStr m.mediaType).not_lf
  simp only [mediaText, List.mem_append, List.flatMap_cons, List.mem_flatMap, List.mem_map]
  rintro (hmem | hmem | hmem | hmem | ⟨w, ⟨f, hf, rfl⟩, hmem⟩)
  · revert hmem
    decide
  · exact htype hmem
  · exact hports ((List.mem_cons.mp hmem).resolve_left (by decide))
  · exact h.not_lf ((List.mem_cons.mp hmem).resolve_left (by decide))
  · exact hformats f hf ((List.mem_cons.mp hmem).resolve_left (by decide))

/-- The media of the edited description, with the blocks they were read from. -/
theorem Read.edited_mem {text : List Char} {s : SessionDescription} (h : Read text s)
    {m : MediaDescription} (hm : m ∈ (edited publicIp rtpPort s).media) :
    ∃ b ∈ blocks (lines text), ∃ m₀ port format formats, ReadMedia b m₀ port format formats ∧
      m = editMedia publicIp rtpPort m₀ := by
  rw [edited_media] at hm
  obtain ⟨m₀, hm₀, rfl⟩ := List.mem_map.mp hm
  rw [h.media] at hm₀
  obtain ⟨b, hb, hread⟩ := mem_readBlocks hm₀
  obtain ⟨port, format, formats, hmedia⟩ := parseMedia_ok hread
  exact ⟨b, hb, m₀, port, format, formats, hmedia, rfl⟩

theorem Read.edited_connection_word {text : List Char} {s : SessionDescription} (h : Read text s) :
    ∀ c ∈ (edited publicIp rtpPort s).connection, WordConnection c := by
  intro c hc
  rw [edited_connection, h.connection] at hc
  obtain ⟨c', hc', rfl⟩ := Option.map_eq_some_iff.mp hc
  exact (wordConnection_of_connection hc').edit

theorem Read.edited_media_not_lf {text : List Char} {s : SessionDescription} (h : Read text s)
    {m : MediaDescription} (hm : m ∈ (edited publicIp rtpPort s).media) :
    ∀ l ∈ mediaText m :: mediaBody m, '\n' ∉ l := by
  obtain ⟨b, hb, m₀, port, format, formats, hread, rfl⟩ := h.edited_mem hm
  intro l hl
  rcases List.mem_cons.mp hl with rfl | hl
  · exact mediaText_not_lf hread.isWord_protocol
  · rcases List.mem_append.mp hl with hl | hl
    · obtain ⟨c, hc, rfl⟩ := List.mem_map.mp hl
      obtain ⟨c', hc', rfl⟩ := Option.map_eq_some_iff.mp (Option.mem_toList.mp hc)
      exact connectionText_not_lf (hread.wordConnection c' hc').edit
    · change l ∈ m₀.attributes.map attributeText at hl
      rw [hread.attributes, attributeText_filterMap] at hl
      exact not_mem_of_mem_lines ((mem_blocks hb).2 l (List.mem_filter.mp hl).1)

/-- The lines in front of the media are of kinds that neither the port rewriting nor
the readers of media and attributes look at. -/
theorem headText_start (s : SessionDescription) : ∀ l ∈ headText s,
    ∃ c rest, l = c :: rest ∧ isWhiteSpace c = false ∧ c ≠ 'a' ∧ c ≠ 'm' := by
  intro l hl
  simp only [headText, List.mem_append, List.mem_cons, List.not_mem_nil, or_false] at hl
  rcases hl with ((rfl | rfl | rfl) | hl) | rfl
  · exact ⟨'v', _, rfl, by decide, by decide, by decide⟩
  · exact ⟨'o', _, rfl, by decide, by decide, by decide⟩
  · exact ⟨'s', _, rfl, by decide, by decide, by decide⟩
  · obtain ⟨c, -, rfl⟩ := List.mem_map.mp hl
    exact ⟨'c', _, rfl, by decide, by decide, by decide⟩
  · exact ⟨'t', _, rfl, by decide, by decide, by decide⟩

theorem rewriteRtcpLine_headText (s : SessionDescription) :
    (headText s).map (rewriteRtcpLine rtcpPort) = headText s := by
  have hall : ∀ l ∈ headText s, rewriteRtcpLine rtcpPort l = l := by
    intro l hl
    obtain ⟨c, rest, rfl, hblank, hne, -⟩ := headText_start s l hl
    exact rewriteRtcpLine_of_ne hblank hne rest
  exact (List.map_congr_left hall).trans (List.map_id _)

/-- The lines that are sent on. -/
theorem lines_rewritten (publicIp : Option IpAddr) (rtpPort : UInt16) {text : List Char}
    {s : SessionDescription} (hparse : SessionDescription.parse text = .ok s) :
    lines (rewriteSdpForProxy publicIp text rtpPort) =
      headText (edited publicIp rtpPort s) ++ (edited publicIp rtpPort s).media.flatMap fun m =>
        mediaText m :: sentBody (rtpPort + 1) m := by
  have h := parse_read hparse
  have htidy : ∀ l ∈ headText (edited publicIp rtpPort s) ++
      (edited publicIp rtpPort s).media.flatMap fun m => mediaText m :: mediaBody m, '\n' ∉ l := by
    obtain ⟨hname, htime, -⟩ := edited_rest publicIp rtpPort s
    intro l hl
    rcases List.mem_append.mp hl with hl | hl
    · exact headText_not_lf h.origin.edit (hname ▸ h.name) h.edited_connection_word (htime ▸ h.time) l hl
    · obtain ⟨m, hm, hl⟩ := List.mem_flatMap.mp hl
      exact h.edited_media_not_lf hm l hl
  have hform : rewriteSdpForProxy publicIp text rtpPort =
      rewriteRtcpAttr (edited publicIp rtpPort s).render (rtpPort + 1) := by
    unfold rewriteSdpForProxy
    rw [hparse]
    rfl
  have hmedia : (fun m => (mediaText m :: mediaBody m).map (rewriteRtcpLine (rtpPort + 1))) =
      fun m => mediaText m :: sentBody (rtpPort + 1) m := by
    funext m
    have hline : rewriteRtcpLine (rtpPort + 1) (mediaText m) = mediaText m :=
      rewriteRtcpLine_of_ne (by decide) (by decide) _
    rw [List.map_cons, hline, sentBody]
  have hne : headText (edited publicIp rtpPort s) ++
      ((edited publicIp rtpPort s).media.flatMap fun m => mediaText m :: mediaBody m) ≠ [] :=
    List.append_ne_nil_of_left_ne_nil (List.append_ne_nil_of_right_ne_nil _ (List.cons_ne_nil _ _)) _
  rw [hform, render_session, lines_rewriteRtcpAttr hne htidy, List.map_append, rewriteRtcpLine_headText,
    List.map_flatMap, hmedia]

theorem isMedia_headText (s : SessionDescription) : ∀ l ∈ headText s, isMedia l = false := by
  intro l hl
  obtain ⟨c, rest, rfl, -, -, hne⟩ := headText_start s l hl
  apply decide_eq_false
  intro hstart
  exact hne (List.cons_prefix_cons.mp hstart).1.symm

theorem attributes_headText (s : SessionDescription) : attributes (headText s) = [] := by
  rw [attributes_eq_nil_iff]
  intro l hl
  obtain ⟨c, rest, rfl, -, hne, -⟩ := headText_start s l hl
  apply decide_eq_false
  intro hstart
  exact hne (List.cons_prefix_cons.mp hstart).1.symm

theorem connection_headText {s : SessionDescription} (h : ∀ c ∈ s.connection, WordConnection c) :
    connection (headText s) = s.connection := by
  have htime : ∀ l ∈ ["t=".toList ++ (s.time.startTime ++ ' ' :: s.time.stopTime)],
      connectionLine l = none := by
    intro l hl
    rw [List.mem_singleton.mp hl]
    exact connectionLine_of_not (by simp)
  rw [headText, connection_append_of_none htime]
  simp only [List.cons_append, List.nil_append]
  rw [connection_cons, connection_cons, connection_cons, connection_texts h,
    connectionLine_of_not (by simp), connectionLine_of_not (by simp), connectionLine_of_not (by simp),
    Option.or_none, Option.or_none, Option.or_none]

theorem isMedia_sentBody {m : MediaDescription} : ∀ l ∈ sentBody rtcpPort m, isMedia l = false := by
  intro l hl
  rw [sentBody_eq] at hl
  rcases List.mem_append.mp hl with hl | hl
  · obtain ⟨c, -, rfl⟩ := List.mem_map.mp hl
    rfl
  · obtain ⟨line, hline, rfl⟩ := List.mem_map.mp hl
    obtain ⟨a, -, rfl⟩ := List.mem_map.mp hline
    have hattr := (maskRtcp_rewriteRtcpLine rtcpPort (isAttribute_attributeText a)).2
    obtain ⟨rest, hrest⟩ : "a=".toList <+: rewriteRtcpLine rtcpPort (attributeText a) :=
      of_decide_eq_true hattr
    rw [← hrest]
    rfl

/-- The lines before the first medium are what is printed there. -/
theorem head_rewritten (publicIp : Option IpAddr) (rtpPort : UInt16) {text : List Char}
    {s : SessionDescription} (hparse : SessionDescription.parse text = .ok s) :
    head (lines (rewriteSdpForProxy publicIp text rtpPort)) = headText (edited publicIp rtpPort s) := by
  obtain ⟨hmedia, -⟩ := head_blocks_flatMap (fun m => (mediaText m, sentBody (rtpPort + 1) m))
    (fun m (_ : m ∈ (edited publicIp rtpPort s).media) => rfl) fun _ _ => isMedia_sentBody
  rw [lines_rewritten publicIp rtpPort hparse, head_append_of_not (isMedia_headText _), hmedia,
    List.append_nil]

/-- The blocks are the media that could be read, edited. -/
theorem blocks_rewritten (publicIp : Option IpAddr) (rtpPort : UInt16) {text : List Char}
    {s : SessionDescription} (hparse : SessionDescription.parse text = .ok s) :
    blocks (lines (rewriteSdpForProxy publicIp text rtpPort)) =
      (readBlocks (blocks (lines text))).map fun m =>
        (mediaText (editMedia publicIp rtpPort m), sentBody (rtpPort + 1) (editMedia publicIp rtpPort m)) := by
  obtain ⟨-, hmedia⟩ := head_blocks_flatMap (fun m => (mediaText m, sentBody (rtpPort + 1) m))
    (fun m (_ : m ∈ (edited publicIp rtpPort s).media) => rfl) fun _ _ => isMedia_sentBody
  rw [lines_rewritten publicIp rtpPort hparse, blocks_append_of_not (isMedia_headText _), hmedia,
    edited_media, (parse_read hparse).media, List.map_map]
  rfl

/-- No attribute of the session is sent on. -/
theorem session_kept_iff (publicIp : Option IpAddr) (rtpPort : UInt16) {text : List Char}
    {s : SessionDescription} (hparse : SessionDescription.parse text = .ok s) :
    attributes (head (lines (rewriteSdpForProxy publicIp text rtpPort))) = attributes (head (lines text)) ↔
      ∀ l ∈ head (lines text), isAttribute l = false := by
  rw [head_rewritten publicIp rtpPort hparse, attributes_headText, eq_comm, attributes_eq_nil_iff]

end Whole

/-- Of a text that is accepted, the rewriting keeps everything but the address
and the port exactly when the session has no attribute, every medium can be read
without a loss, no audio is rejected, and no other medium is announced at an
address that becomes that of the proxy. -/
theorem rewriting_preserves_iff_rewritable (publicIp : Option IpAddr) (rtpPort : UInt16) {text : List Char}
    {s : SessionDescription} (hparse : SessionDescription.parse text = .ok s) :
    Preserves publicIp rtpPort (lines text) (lines (rewriteSdpForProxy publicIp text rtpPort)) ↔
      Rewritable publicIp rtpPort (lines text) := by
  have hread := parse_read hparse
  have hsession : connection (head (lines (rewriteSdpForProxy publicIp text rtpPort))) =
      (connection (beforeTime (lines text))).map (editConnection publicIp) := by
    rw [head_rewritten publicIp rtpPort hparse, connection_headText hread.edited_connection_word,
      edited_connection, hread.connection]
  have hstreams : List.Forall₂
      (StreamKept publicIp rtpPort (head (lines (rewriteSdpForProxy publicIp text rtpPort))))
      (blocks (lines text)) (blocks (lines (rewriteSdpForProxy publicIp text rtpPort))) ↔
        ∀ b ∈ blocks (lines text), Keepable publicIp rtpPort (beforeTime (lines text)) b := by
    rw [blocks_rewritten publicIp rtpPort hparse, forall₂_readBlocks]
    exact forall₂_congr fun b hb => read_and_kept_iff (mem_blocks hb).1 hsession
  have hattributes := session_kept_iff publicIp rtpPort hparse
  constructor
  · rintro ⟨hs, hb⟩
    exact ⟨hattributes.mp hs, hstreams.mp hb⟩
  · rintro ⟨hs, hb⟩
    exact ⟨hattributes.mpr hs, hstreams.mpr hb⟩

/-- An offer of one audio stream, with these lines before it. -/
def offer (session : List Char) : List Char :=
  "v=0\r\no=- 1 1 IN IP4 192.0.2.1\r\n".toList ++ "s=-\r\nc=IN IP4 192.0.2.1\r\nt=0 0\r\n".toList ++ session ++
    "m=audio 4000 RTP/AVP 0 101\r\n".toList ++ "a=rtpmap:101 telephone-event/8000\r\n".toList ++
    "a=rtcp:4001\r\n".toList

def proxyIp : IpAddr := NetAddr.ip (NetAddr.ofOctets 203 0 113 1 0)

def audioLine : List Char := "m=audio 4000 RTP/AVP 0 101".toList

theorem plain_audioLine : Plain audioLine := by
  refine ⟨.audio, "4000".toList, "RTP/AVP".toList, ['0'], ["101".toList], by decide, by decide, ?_⟩
  intro f hf
  rcases List.mem_cons.mp hf with rfl | hf
  · exact ⟨0, by decide⟩
  · rw [List.mem_singleton.mp hf]
    exact ⟨101, by decide⟩

theorem rewriting_preserves_offer :
    Preserves (some proxyIp) 20000 (lines (offer []))
      (lines (rewriteSdpForProxy (some proxyIp) (offer []) 20000)) := by
  obtain ⟨s, hs⟩ : ∃ s, SessionDescription.parse (offer []) = .ok s := ⟨_, rfl⟩
  refine (rewriting_preserves_iff_rewritable _ _ hs).mpr ⟨by decide, ?_⟩
  intro b hb
  have hline : b.1 = audioLine := by
    revert b
    decide
  constructor
  case plain =>
    rw [hline]
    exact plain_audioLine
  case rejected =>
    rw [hline]
    exact fun hzero => absurd hzero (by decide)
  case other =>
    rw [hline]
    exact fun _ _ haudio => absurd haudio (by decide)

/-- An offer that puts the whole session on hold loses the hold. -/
theorem rewriting_loses_session_attribute :
    ¬ Preserves (some proxyIp) 20000 (lines (offer "a=sendonly\r\n".toList))
      (lines (rewriteSdpForProxy (some proxyIp) (offer "a=sendonly\r\n".toList) 20000)) := by
  intro h
  obtain ⟨s, hs⟩ : ∃ s, SessionDescription.parse (offer "a=sendonly\r\n".toList) = .ok s := ⟨_, rfl⟩
  have hnone := (session_kept_iff _ _ hs).mp h.session "a=sendonly".toList (by decide)
  revert hnone
  decide

end NixiSbc.SdpRewrite
