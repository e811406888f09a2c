import NixiSbc.SdpRewrite

namespace NixiSbc.SdpRoundTrip

open TextScan TextFields TextWords Sdp SdpRewrite

/-- A medium with the number of its ports. -/
structure Medium extends MediaDescription where
  numPorts : Option UInt16
  deriving DecidableEq

/-- A session description with all that its media may say. -/
structure Description where
  version : UInt32
  origin : Origin
  sessionName : List Char
  connection : Option Connection
  time : TimeDescription
  media : List Medium
  deriving DecidableEq

def Description.session (d : Description) : SessionDescription where
  version := d.version
  origin := d.origin
  sessionName := d.sessionName
  connection := d.connection
  time := d.time
  media := d.media.map (·.toMediaDescription)

/-- A number of ports is passed over. -/
def described (s : SessionDescription) : Description where
  version := s.version
  origin := s.origin
  sessionName := s.sessionName
  connection := s.connection
  time := s.time
  media := s.media.map fun m => ⟨m, none⟩

def Description.parse (sdp : List Char) : Except (List Char) Description :=
  (SessionDescription.parse sdp).map described

/-- A number of ports is not printed. -/
def Description.render (d : Description) : List Char := d.session.render

/-- The key has no colon, and neither it nor the value ends the line. -/
structure PrintableAttribute (a : Attribute) : Prop where
  colon : ':' ∉ a.key
  key : '\n' ∉ a.key
  value : ∀ v ∈ a.value, '\n' ∉ v

structure PrintableMedia (m : MediaDescription) : Prop where
  protocol : IsWord m.protocol
  formats : m.formats ≠ []
  connection : ∀ c ∈ m.connection, WordConnection c
  attributes : ∀ a ∈ m.attributes, PrintableAttribute a

structure Printable (s : SessionDescription) : Prop where
  origin : WordOrigin s.origin
  name : '\n' ∉ s.sessionName
  connection : ∀ c ∈ s.connection, WordConnection c
  time : IsWord s.time.startTime ∧ IsWord s.time.stopTime

section Media

variable {m : MediaDescription} {a : Attribute}

theorem attributeLine_attributeText (h : PrintableAttribute a) : attributeLine (attributeText a) = some a := by
  obtain ⟨key, value⟩ := a
  rw [attributeLine, attributeText, stripPrefix_append, Option.map_some]
  cases value with
  | none =>
      have hnone : splitOnce ':' (key ++ []) = none := by
        rw [List.append_nil]
        exact if_neg h.colon
      dsimp only
      rw [hnone, List.append_nil]
  | some value => rw [splitOnce_append h.colon]

theorem attributeText_not_lf (h : PrintableAttribute a) : '\n' ∉ attributeText a := by
  obtain ⟨key, value⟩ := a
  have hkey := h.key
  cases value with
  | none => simp [attributeText, hkey]
  | some value => simp [attributeText, hkey, h.value value rfl]

theorem filterMap_texts {ι : Type} {text : ι → List Char} {read : List Char → Option ι} {xs : List ι}
    (h : ∀ x ∈ xs, read (text x) = some x) : (xs.map text).filterMap read = xs := by
  induction xs with
  | nil => rfl
  | cons x xs ih =>
      rw [List.map_cons, List.filterMap_cons, h x List.mem_cons_self, ih fun y hy => h y (List.mem_cons_of_mem _ hy)]

/-- A medium is read from its lines as it was printed. -/
theorem parseMedia_mediaText (h : PrintableMedia m) : parseMedia (mediaText m) (mediaBody m) = .ok m := by
  have hvalue : stripPrefix "m=".toList (mediaText m) = some ((mediaText m).drop 2) :=
    if_pos (List.prefix_append _ _)
  have hwords : words ((mediaText m).drop 2) = _ := mediaWords_mediaText h.protocol
  have hformats : (m.formats.map fun f => showNat f.toNat).filterMap readFormat = m.formats :=
    filterMap_texts fun f _ => readFormat_showNat f
  have hconn : ((mediaBody m).filterMap connectionLine).getLast? = m.connection := by
    have hnone : ∀ l ∈ m.attributes.map attributeText, connectionLine l = none := by
      intro l hl
      obtain ⟨a, -, rfl⟩ := List.mem_map.mp hl
      exact connectionLine_of_isAttribute (isAttribute_attributeText a)
    exact (connection_append_of_none hnone _).trans (connection_texts h.connection)
  have hattr : (mediaBody m).filterMap attributeLine = m.attributes := by
    have hnone : (m.connection.toList.map connectionText).filterMap attributeLine = [] := by
      rw [List.filterMap_eq_nil_iff]
      intro l hl
      obtain ⟨c, -, rfl⟩ := List.mem_map.mp hl
      have hnot := not_isAttribute_connectionText c
      rw [isAttribute_eq, Option.isSome_eq_false_iff, Option.isNone_iff_eq_none] at hnot
      exact hnot
    rw [mediaBody, List.filterMap_append, hnone, List.nil_append]
    exact filterMap_texts fun a ha => attributeLine_attributeText (h.attributes a ha)
  obtain ⟨first, more, hfirst⟩ := List.exists_cons_of_ne_nil h.formats
  rw [hfirst, List.map_cons] at hformats
  rw [hfirst, List.map_cons] at hwords
  rw [parseMedia, hvalue]
  dsimp only
  rw [hwords]
  dsimp only
  rw [fromStr_asStr, readPort_showNat]
  dsimp only
  rw [hformats, hconn, hattr, ← hfirst]

theorem mediaLines_not_lf (h : PrintableMedia m) : ∀ l ∈ mediaText m :: mediaBody m, '\n' ∉ l := by
  intro l hl
  rcases List.mem_cons.mp hl with rfl | hl
  · exact mediaText_not_lf h.protocol
  · rcases List.mem_append.mp hl with hl | hl
    · obtain ⟨c, hc, rfl⟩ := List.mem_map.mp hl
      exact connectionText_not_lf (h.connection c (Option.mem_toList.mp hc))
    · obtain ⟨a, ha, rfl⟩ := List.mem_map.mp hl
      exact attributeText_not_lf (h.attributes a ha)

theorem isMedia_mediaBody : ∀ l ∈ mediaBody m, isMedia l = false := by
  intro l hl
  rcases List.mem_append.mp hl with hl | hl
  · obtain ⟨c, -, rfl⟩ := List.mem_map.mp hl
    rfl
  · obtain ⟨a, -, rfl⟩ := List.mem_map.mp hl
    rfl

theorem readBlocks_texts {ms : List MediaDescription} (h : ∀ m ∈ ms, PrintableMedia m) :
    readBlocks (ms.map fun m => (mediaText m, mediaBody m)) = ms := by
  induction ms with
  | nil => rfl
  | cons m ms ih =>
      rw [List.map_cons, readBlocks, parseMedia_mediaText (h m List.mem_cons_self)]
      dsimp only
      rw [ih fun m' hm' => h m' (List.mem_cons_of_mem _ hm')]

end Media

section Session

variable {s : SessionDescription}

def timeText (t : TimeDescription) : List Char := "t=".toList ++ (t.startTime ++ ' ' :: t.stopTime)

theorem parseTime_timeText {t : TimeDescription} (h : IsWord t.startTime ∧ IsWord t.stopTime) (rest : List (List Char)) :
    parseTime (timeText t :: rest) = .ok (t, rest) := by
  have hwords : words (t.startTime ++ ' ' :: t.stopTime) = [t.startTime, t.stopTime] := by
    rw [words_cons h.1, words_of_isWord h.2]
  rw [parseTime, timeText, stripPrefix_append]
  dsimp only
  rw [hwords]

theorem parseOrigin_text {o : Origin} (h : WordOrigin o) (rest : List (List Char)) :
    parseOrigin (("o=".toList ++ (o.username ++ [o.sessionId, o.sessionVersion, o.networkType, o.addressType,
      o.address].flatMap (' ' :: ·))) :: rest) = .ok (o, rest) := by
  obtain ⟨h₁, h₂, h₃, h₄, h₅, h₆⟩ := h
  have hmore : ∀ w ∈ [o.sessionId, o.sessionVersion, o.networkType, o.addressType, o.address], IsWord w := by
    simp only [List.forall_mem_cons]
    exact ⟨h₂, h₃, h₄, h₅, h₆, nofun⟩
  rw [parseOrigin, stripPrefix_append]
  dsimp only
  rw [words_flatMap h₁ hmore]

theorem parseVersion_text (version : UInt32) (rest : List (List Char)) :
    parseVersion (("v=".toList ++ showNat version.toNat) :: rest) = .ok (version, rest) := by
  rw [parseVersion, stripPrefix_append]
  dsimp only
  rw [parseU32_showNat]

/-- The connection before the time, and then the time. -/
theorem parseSessionLines_texts {o : Option Connection} (h : ∀ c ∈ o, WordConnection c) (t : TimeDescription)
    (rest : List (List Char)) :
    parseSessionLines none (o.toList.map connectionText ++ timeText t :: rest) = (o, timeText t :: rest) := by
  have hearly : ∀ l ∈ o.toList.map connectionText, isEarly l = true := by
    intro l hl
    obtain ⟨c, -, rfl⟩ := List.mem_map.mp hl
    rfl
  have hlate : ¬isEarly (timeText t) = true := Bool.false_ne_true
  rw [parseSessionLines_eq, beforeTime, List.takeWhile_append_of_pos hearly, List.takeWhile_cons_of_neg hlate,
    List.dropWhile_append_of_pos hearly, List.dropWhile_cons_of_neg hlate, List.append_nil, connection_texts h,
    Option.or_none]

theorem lines_render (h : Printable s) (hmedia : ∀ m ∈ s.media, ∀ l ∈ mediaText m :: mediaBody m, '\n' ∉ l) :
    lines s.render = headText s ++ s.media.flatMap fun m => mediaText m :: mediaBody m := by
  rw [render_session]
  apply lines_flatMap
  intro l hl
  rcases List.mem_append.mp hl with hl | hl
  · exact headText_not_lf h.origin h.name h.connection h.time l hl
  · obtain ⟨m, hm, hl⟩ := List.mem_flatMap.mp hl
    exact hmedia m hm l hl

theorem ok_bind {ε α β : Type} (a : α) (f : α → Except ε β) : (Except.ok a >>= f) = f a := rfl

/-- What is printed in front of the media is read as it was, and the media are
the blocks of their lines that can be read. -/
theorem parse_session_render (h : Printable s)
    (hmedia : ∀ m ∈ s.media, ∀ l ∈ mediaText m :: mediaBody m, '\n' ∉ l) :
    SessionDescription.parse s.render =
      .ok { s with media := readBlocks (s.media.map fun m => (mediaText m, mediaBody m)) } := by
  have hlines : lines s.render = ("v=".toList ++ showNat s.version.toNat) :: _ := lines_render h hmedia
  have hstart : (lines s.render).dropWhile isBlank = lines s.render := by
    have hblank : isBlank ("v=".toList ++ showNat s.version.toNat) = false := by
      apply decide_eq_false
      intro hnil
      have hmem : 'v' ∈ trim ("v=".toList ++ showNat s.version.toNat) :=
        mem_trim (List.mem_append_left _ (by decide)) (by decide)
      rw [hnil] at hmem
      cases hmem
    rw [hlines, List.dropWhile_cons_of_neg (ne_true_of_eq_false hblank)]
  have hblocks : parseMediaAll ((s.media.flatMap fun m => mediaText m :: mediaBody m).dropWhile (!isMedia ·)) =
      readBlocks (s.media.map fun m => (mediaText m, mediaBody m)) := by
    obtain ⟨-, hall⟩ := head_blocks_flatMap (fun m => (mediaText m, mediaBody m)) (fun m (_ : m ∈ s.media) => rfl)
      fun _ _ => isMedia_mediaBody
    rw [parseMediaAll_eq, blocks_dropWhile, hall]
  have hhead : lines s.render = ("v=".toList ++ showNat s.version.toNat) ::
      ("o=".toList ++ (s.origin.username ++ [s.origin.sessionId, s.origin.sessionVersion, s.origin.networkType,
        s.origin.addressType, s.origin.address].flatMap (' ' :: ·))) ::
      ("s=".toList ++ s.sessionName) :: (s.connection.toList.map connectionText ++
        timeText s.time :: s.media.flatMap fun m => mediaText m :: mediaBody m) := by
    rw [lines_render h hmedia, headText]
    simp only [List.cons_append, List.nil_append, List.append_assoc]
    rfl
  have hname (rest : List (List Char)) :
      parseSessionName (("s=".toList ++ s.sessionName) :: rest) = .ok (s.sessionName, rest) := by
    rw [parseSessionName, stripPrefix_append]
  unfold SessionDescription.parse
  rw [hstart, hhead, parseVersion_text, ok_bind]
  dsimp only
  rw [parseOrigin_text h.origin, ok_bind]
  dsimp only
  rw [hname, ok_bind]
  dsimp only
  rw [parseSessionLines_texts h.connection]
  dsimp only
  rw [parseTime_timeText h.time, ok_bind, ← hblocks]
  rfl

end Session

theorem described_session {d : Description} (h : ∀ m ∈ d.media, m.numPorts = none) : described d.session = d := by
  have hmedia : d.session.media.map (fun m => (⟨m, none⟩ : Medium)) = d.media := by
    rw [Description.session, List.map_map]
    conv_rhs => rw [← List.map_id d.media]
    apply List.map_congr_left
    rintro ⟨m, ports⟩ hm
    cases h _ hm
    rfl
  rw [described, hmedia]
  rfl

/-- What is printed is read as it was: any media, with any connections and
attributes. -/
theorem description_read_back (d : Description) (h : Printable d.session)
    (hmedia : ∀ m ∈ d.media, m.numPorts = none ∧ PrintableMedia m.toMediaDescription) :
    Description.parse d.render = .ok d := by
  have hprint : ∀ m ∈ d.session.media, PrintableMedia m := by
    intro m hm
    obtain ⟨m', hm', rfl⟩ := List.mem_map.mp hm
    exact (hmedia m' hm').2
  have hread := parse_session_render h fun m hm => mediaLines_not_lf (hprint m hm)
  rw [readBlocks_texts hprint] at hread
  rw [Description.parse, Description.render, hread]
  exact congrArg Except.ok (described_session fun m hm => (hmedia m hm).1)

def sampleOrigin : Origin := ⟨['-'], ['1'], ['1'], "IN".toList, "IP4".toList, ['h']⟩

def sampleConnection : Connection := ⟨"IN".toList, "IP4".toList, ['h']⟩

/-- A description whose second medium repeats the first and has attributes that
look like other lines. -/
def sampleDescription : Description where
  version := 0
  origin := sampleOrigin
  sessionName := []
  connection := some sampleConnection
  time := ⟨['0'], ['0']⟩
  media :=
    [⟨⟨.audio, 10000, "RTP/AVP".toList, [8, 0], none, []⟩, none⟩,
      ⟨⟨.video, 0, "RTP/AVP".toList, [96], some sampleConnection, [⟨"m=".toList, none⟩, ⟨[], some []⟩]⟩, none⟩]

theorem sampleConnection_word : WordConnection sampleConnection := by
  refine ⟨⟨?_, not_blank_of_all ?_⟩, ⟨?_, not_blank_of_all ?_⟩, ⟨?_, not_blank_of_all ?_⟩⟩ <;> decide

theorem sampleOrigin_word : WordOrigin sampleOrigin := by
  refine ⟨⟨?_, not_blank_of_all ?_⟩, ⟨?_, not_blank_of_all ?_⟩, ⟨?_, not_blank_of_all ?_⟩,
    ⟨?_, not_blank_of_all ?_⟩, ⟨?_, not_blank_of_all ?_⟩, ⟨?_, not_blank_of_all ?_⟩⟩ <;> decide

theorem sampleTime_word : IsWord ['0'] ∧ IsWord ['0'] := by
  refine ⟨⟨?_, not_blank_of_all ?_⟩, ⟨?_, not_blank_of_all ?_⟩⟩ <;> decide

theorem sampleAttribute_printable {a : Attribute} (h : a = ⟨"m=".toList, none⟩ ∨ a = ⟨[], some []⟩) :
    PrintableAttribute a := by
  rcases h with rfl | rfl
  · exact ⟨by decide, by decide, nofun⟩
  · exact ⟨by decide, by decide, fun v hv => by cases hv; decide⟩

theorem sampleDescription_read_back : Description.parse sampleDescription.render = .ok sampleDescription := by
  have hproto : IsWord "RTP/AVP".toList := ⟨by decide, not_blank_of_all (by decide)⟩
  apply description_read_back
  · exact ⟨sampleOrigin_word, by decide, fun c hc => by cases hc; exact sampleConnection_word, sampleTime_word⟩
  · intro m hm
    rcases List.mem_cons.mp hm with rfl | hm
    · exact ⟨rfl, hproto, by decide, nofun, nofun⟩
    · cases List.mem_singleton.mp hm
      refine ⟨rfl, hproto, by decide, fun c hc => by cases hc; exact sampleConnection_word, fun a ha => ?_⟩
      exact sampleAttribute_printable (by simpa using ha)

/-- One medium that says no protocol. -/
def protocolless : Description where
  version := 0
  origin := sampleOrigin
  sessionName := []
  connection := none
  time := ⟨['0'], ['0']⟩
  media := [⟨⟨.audio, 1, [], [0], none, []⟩, none⟩]

/-- Without a protocol the printed line has a word too few, and its medium is
not read back, whatever else the description says. -/
theorem protocolless_not_read :
    ¬ ∀ d : Description, Printable d.session →
      (∀ m ∈ d.media, m.numPorts = none ∧ m.formats ≠ [] ∧ (∀ c ∈ m.connection, WordConnection c) ∧
        ∀ a ∈ m.attributes, PrintableAttribute a) →
      Description.parse d.render = .ok d := by
  intro h
  have hprint : Printable protocolless.session := ⟨sampleOrigin_word, by decide, nofun, sampleTime_word⟩
  have hmedia : ∀ m ∈ protocolless.session.media, ∀ l ∈ mediaText m :: mediaBody m, '\n' ∉ l := by decide
  have hread : Description.parse protocolless.render = .ok { protocolless with media := [] } := by
    rw [Description.parse, Description.render, parse_session_render hprint hmedia]
    rfl
  have hsame := h protocolless hprint fun m hm => by
    cases List.mem_singleton.mp hm
    exact ⟨rfl, by decide, nofun, nofun⟩
  rw [hread] at hsame
  injection hsame with hsame
  exact absurd (congrArg Description.media hsame) nofun

end NixiSbc.SdpRoundTrip
