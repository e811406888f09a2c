import NixiSbc.SipFraming

namespace NixiSbc.SipStream

open ByteWords Utf8 TextScan SipFraming

/-- A message on the stream, behind the line ends that a peer may put before it. -/
structure Item where
  gap : Bytes
  header : Bytes
  text : List Char
  body : Bytes

def Item.message (m : Item) : Bytes := m.header ++ terminator ++ m.body

def wire (items : List Item) : Bytes := items.flatMap fun m => m.gap ++ m.message

theorem wire_cons (m : Item) (items : List Item) :
    wire (m :: items) = m.gap ++ (m.message ++ wire items) := by
  rw [wire, List.flatMap_cons, List.append_assoc]
  rfl

/-- The first content-length line of a header section declares `n`. -/
def Declares (text : List Char) (n : Nat) : Prop :=
  ∃ line value, (lines text).find? isLengthLine = some line ∧ secondField ':' line = some value ∧
    parseUsize (trim value) = some n

structure WellFormed (m : Item) : Prop where
  gap : ∀ b ∈ m.gap, isCrLf b = true
  utf8 : fromUtf8 m.header = some m.text
  start : ∀ b, m.header.head? = some b → isCrLf b = false
  no_terminator : ¬ terminator <:+: m.header
  no_crlf_end : ¬ [13, 10] <:+ m.header
  header_le : m.header.length ≤ maxSipMessage - 4
  declares : Declares m.text m.body.length
  body_le : m.body.length ≤ maxSipMessage

/-- Part of the gap may have been read already. -/
theorem WellFormed.regap {m : Item} (h : WellFormed m) {gap : Bytes}
    (hgap : ∀ b ∈ gap, isCrLf b = true) : WellFormed { m with gap := gap } :=
  ⟨hgap, h.utf8, h.start, h.no_terminator, h.no_crlf_end, h.header_le, h.declares, h.body_le⟩

theorem scanLength_of_find {ls : List (List Char)} {line value : List Char} {n : Nat}
    (hf : ls.find? isLengthLine = some line) (hv : secondField ':' line = some value)
    (hn : parseUsize (trim value) = some n) : scanLength ls = .ok n := by
  induction ls with
  | nil => cases hf
  | cons l ls ih =>
      rw [scanLength]
      by_cases hl : isLengthLine l = true
      · rw [List.find?_cons_of_pos hl] at hf
        cases hf
        rw [if_pos hl, hv]
        simp only [hn]
      · rw [List.find?_cons_of_neg hl] at hf
        rw [if_neg hl]
        exact ih hf

theorem WellFormed.scanLength {m : Item} (h : WellFormed m) :
    scanLength (lines m.text) = .ok m.body.length := by
  obtain ⟨line, value, hf, hv, hn⟩ := h.declares
  exact scanLength_of_find hf hv hn

theorem WellFormed.header_ne_nil {m : Item} (h : WellFormed m) : m.header ≠ [] := by
  intro hnil
  have hu := h.utf8
  rw [hnil] at hu
  have htext : m.text = [] := (Option.some.inj hu).symm
  obtain ⟨line, value, hf, -, -⟩ := h.declares
  rw [htext] at hf
  cases hf

/-- A terminator that starts inside the header would lie in it, or straddle its
end: with one byte or three over, two carriage returns meet; with two, the
header ends its last line itself. -/
theorem terminator_not_early {header rest : Bytes} (hno : ¬ terminator <:+: header)
    (hend : ¬ [13, 10] <:+ header) {j : Nat} (hj : j < header.length) :
    ¬ terminator <+: (header ++ terminator ++ rest).drop j := by
  have hsplit : header = header.take j ++ header.drop j := (List.take_append_drop j header).symm
  have hlen : (header.drop j).length = header.length - j := List.length_drop
  rw [List.append_assoc, List.drop_append_of_le_length hj.le]
  intro hp
  match htail : header.drop j with
  | [] =>
      rw [htail] at hlen
      simp at hlen
      omega
  | [a] =>
      rw [htail] at hp
      simp [terminator] at hp
  | [a, b] =>
      rw [htail] at hp
      simp only [terminator, List.cons_append, List.nil_append, List.cons_prefix_cons] at hp
      obtain ⟨rfl, rfl, -⟩ := hp
      exact hend ⟨header.take j, by rw [← htail, ← hsplit]⟩
  | [a, b, c] =>
      rw [htail] at hp
      simp [terminator] at hp
  | a :: b :: c :: d :: tail =>
      rw [htail] at hp
      simp only [terminator, List.cons_append, List.nil_append, List.cons_prefix_cons] at hp
      obtain ⟨rfl, rfl, rfl, rfl, -⟩ := hp
      refine hno ⟨header.take j, tail, ?_⟩
      rw [List.append_assoc]
      exact (congrArg _ htail.symm).trans hsplit.symm

theorem Item.message_length (m : Item) : m.message.length = m.header.length + 4 + m.body.length := by
  simp only [Item.message, terminator, List.length_append, List.length_cons, List.length_nil]

theorem findSub_header {m : Item} (h : WellFormed m) (tail : Bytes) :
    findSub terminator (m.header ++ terminator ++ tail) = some m.header.length := by
  apply findSub_of_first
  · rw [List.append_assoc, List.drop_left]
    exact List.prefix_append _ _
  · simp
  · intro j hj
    exact terminator_not_early h.no_terminator h.no_crlf_end hj

theorem findSub_cut {m : Item} (h : WellFormed m) {front rest : Bytes}
    (hfront : front <+: m.message ++ rest) (hlen : front.length < m.header.length + 4) :
    findSub terminator front = none := by
  apply findSub_of_absent (by simp [terminator])
  intro j hj hp
  have hfour : 4 ≤ (front.drop j).length := hp.length_le
  rw [List.length_drop] at hfour
  have hwhole : terminator <+: (m.message ++ rest).drop j := hp.trans (hfront.drop j)
  rw [Item.message, List.append_assoc] at hwhole
  exact terminator_not_early h.no_terminator h.no_crlf_end (by omega) hwhole

theorem takeWhile_front {m : Item} (h : WellFormed m) {front rest : Bytes}
    (hfront : front <+: m.message ++ rest) : front.takeWhile isCrLf = [] := by
  cases front with
  | nil => rfl
  | cons b front =>
      obtain ⟨c, header, hc⟩ := List.exists_cons_of_ne_nil h.header_ne_nil
      have hb : b = c := by
        rw [Item.message, hc] at hfront
        exact (List.cons_prefix_cons.mp hfront).1
      have hstart := h.start c (by rw [hc]; rfl)
      rw [List.takeWhile_cons_of_neg (by rw [hb, hstart]; simp)]

/-- A whole message at the front is framed, whatever follows it. -/
theorem frame_whole {m : Item} (h : WellFormed m) (rest : Bytes) :
    frameSipMessage (m.message ++ rest) = .message m.message.length := by
  have hskip := takeWhile_front h (List.prefix_refl (m.message ++ rest))
  have hh := h.header_le
  have hb := h.body_le
  have htake : (m.message ++ rest).take m.header.length = m.header := by
    rw [Item.message, List.append_assoc, List.append_assoc, List.take_left]
  have hfind : findSub terminator (m.message ++ rest) = some m.header.length := by
    rw [Item.message, List.append_assoc, findSub_header h]
  have hlen := m.message_length
  rw [maxSipMessage] at hh hb
  rw [frameSipMessage, hskip, List.length_nil, if_neg (by omega), hfind]
  simp only [htake, h.utf8, h.scanLength]
  rw [if_neg (by rw [maxSipMessage]; omega), if_neg (by omega),
    if_pos (by rw [List.length_append]; omega), hlen]

theorem frame_cut {m : Item} (h : WellFormed m) {front rest : Bytes}
    (hfront : front <+: m.message ++ rest) (hlen : front.length < m.message.length) :
    frameSipMessage front = .incomplete := by
  have hh := h.header_le
  have hb := h.body_le
  rw [maxSipMessage] at hh hb
  have hmsg := m.message_length
  rw [frameSipMessage, takeWhile_front h hfront, List.length_nil, if_neg (by omega)]
  by_cases hhead : front.length < m.header.length + 4
  · rw [findSub_cut h hfront hhead]
    exact if_neg (by rw [maxSipMessage]; omega)
  · have hpre : m.header ++ terminator <+: front := by
      apply List.prefix_of_prefix_length_le _ hfront
      · simp only [List.length_append, terminator, List.length_cons, List.length_nil]
        omega
      · exact ⟨m.body ++ rest, by simp [Item.message]⟩
    obtain ⟨tail, rfl⟩ := hpre
    have htake : (m.header ++ terminator ++ tail).take m.header.length = m.header := by
      rw [List.append_assoc, List.take_left]
    rw [findSub_header h]
    simp only [htake, h.utf8, h.scanLength]
    rw [if_neg (by rw [maxSipMessage]; omega), if_neg (by omega), if_neg (by omega)]

theorem frameAll_incomplete {buffer : Bytes} (h : frameSipMessage buffer = .incomplete) :
    frameAll buffer = ([], .ok buffer) := by
  rw [frameAll]
  split
  · simp_all
  · simp_all
  · rfl
  · simp_all

theorem frameAll_message {buffer : Bytes} {stop : Nat} (h : frameSipMessage buffer = .message stop) :
    frameAll buffer =
      (buffer.take stop :: (frameAll (buffer.drop stop)).1, (frameAll (buffer.drop stop)).2) := by
  rw [frameAll]
  split
  · simp_all
  next s hs =>
    obtain rfl : s = stop := by simpa [h] using hs.symm
    rfl
  · simp_all
  · simp_all

theorem frameAll_keepalive {buffer : Bytes} {count : Nat}
    (h : frameSipMessage buffer = .keepalive count) :
    frameAll buffer = frameAll (buffer.drop count) := by
  rw [frameAll]
  split
  next c hc =>
    obtain rfl : c = count := by simpa [h] using hc.symm
    rfl
  · simp_all
  · simp_all
  · simp_all

theorem frameAll_nil : frameAll [] = ([], .ok []) := frameAll_incomplete rfl

theorem frameAll_gap {gap front : Bytes} (hgap : ∀ b ∈ gap, isCrLf b = true)
    (hfront : front.takeWhile isCrLf = []) : frameAll (gap ++ front) = frameAll front := by
  cases gap with
  | nil => rfl
  | cons b gap =>
      have htake : ((b :: gap) ++ front).takeWhile isCrLf = b :: gap := by
        rw [List.takeWhile_append_of_pos hgap, hfront, List.append_nil]
      have hframe : frameSipMessage ((b :: gap) ++ front) = .keepalive (b :: gap).length := by
        rw [frameSipMessage, htake]
        exact if_pos (Nat.succ_pos _)
      rw [frameAll_keepalive hframe, List.drop_left]

/-- What a part of the stream yields: the messages that are whole, and a rest
with which the stream goes on. -/
theorem frameAll_front (items : List Item) (hwf : ∀ m ∈ items, WellFormed m) (buffer ahead : Bytes)
    (h : buffer ++ ahead = wire items) :
    ∃ done later rest, items.map Item.message = done ++ later.map Item.message ∧
      (∀ m ∈ later, WellFormed m) ∧ frameAll buffer = (done, .ok rest) ∧
      rest ++ ahead = wire later ∧ frameSipMessage rest = .incomplete := by
  induction items generalizing buffer with
  | nil =>
      obtain ⟨rfl, rfl⟩ := List.append_eq_nil_iff.mp h
      exact ⟨[], [], [], rfl, hwf, frameAll_nil, rfl, rfl⟩
  | cons m items ih =>
      have hm := hwf m List.mem_cons_self
      have hitems : ∀ m ∈ items, WellFormed m := fun m hm => hwf m (List.mem_cons_of_mem _ hm)
      have hagain {gap : Bytes} (hgap : ∀ b ∈ gap, isCrLf b = true) :
          ∀ m' ∈ { m with gap := gap } :: items, WellFormed m' := by
        intro m' hm'
        rcases List.mem_cons.mp hm' with rfl | hm'
        · exact hm.regap hgap
        · exact hitems m' hm'
      rw [wire_cons] at h
      rcases List.append_eq_append_iff.mp h with ⟨gap', hgap, hahead⟩ | ⟨front, rfl, hfront⟩
      · -- the buffer ends among the line ends before the message
        have hbuf : ∀ b ∈ buffer, isCrLf b = true := fun b hb =>
          hm.gap b (hgap ▸ List.mem_append_left _ hb)
        refine ⟨[], { m with gap := gap' } :: items, [], rfl,
          hagain fun b hb => hm.gap b (hgap ▸ List.mem_append_right _ hb), ?_, ?_, rfl⟩
        · have hnone : ([] : Bytes).takeWhile isCrLf = [] := rfl
          have hg := frameAll_gap hbuf hnone
          rwa [List.append_nil, frameAll_nil] at hg
        · rw [hahead, wire_cons]
          rfl
      · have hpre : front <+: m.message ++ wire items := ⟨ahead, hfront.symm⟩
        rw [frameAll_gap hm.gap (takeWhile_front hm hpre)]
        rcases List.append_eq_append_iff.mp hfront.symm with ⟨cut, hcut, hahead⟩ | ⟨next, rfl, hnext⟩
        · by_cases hfull : cut = []
          · -- it ends exactly with the message
            subst hfull
            rw [List.append_nil] at hcut
            obtain ⟨done, later, rest, hsplit, hlater, hall, hgoes, hinc⟩ :=
              ih hitems [] (by rw [hahead]; rfl)
            refine ⟨m.message :: done, later, rest, by rw [List.map_cons, hsplit]; rfl, hlater, ?_,
              hgoes, hinc⟩
            have hframe := frame_whole hm []
            rw [List.append_nil, hcut] at hframe
            rw [frameAll_message hframe, List.take_length, List.drop_length, hall, hcut]
          · -- it cuts the message
            have hlen : front.length < m.message.length := by
              rw [hcut, List.length_append]
              have hpos := List.length_pos_of_ne_nil hfull
              omega
            have hinc := frame_cut hm hpre hlen
            refine ⟨[], { m with gap := [] } :: items, front, rfl, hagain (by simp),
              frameAll_incomplete hinc, ?_, hinc⟩
            rw [← hfront, wire_cons]
            rfl
        · -- it holds the message and goes on behind it
          obtain ⟨done, later, rest, hsplit, hlater, hall, hgoes, hinc⟩ := ih hitems next hnext.symm
          refine ⟨m.message :: done, later, rest, by rw [List.map_cons, hsplit]; rfl, hlater, ?_,
            hgoes, hinc⟩
          rw [frameAll_message (frame_whole hm next), List.take_left, List.drop_left, hall]

theorem wire_ne_incomplete {m : Item} {items : List Item} (hm : WellFormed m) :
    frameSipMessage (wire (m :: items)) ≠ .incomplete := by
  rw [wire_cons]
  cases hgap : m.gap with
  | nil =>
      rw [List.nil_append, frame_whole hm]
      simp
  | cons b gap =>
      have hb := hm.gap b (by rw [hgap]; exact List.mem_cons_self)
      have hskip : 0 < ((b :: gap ++ (m.message ++ wire items)).takeWhile isCrLf).length := by
        rw [List.cons_append, List.takeWhile_cons_of_pos hb]
        exact Nat.succ_pos _
      rw [frameSipMessage]
      simp only [gt_iff_lt, hskip, if_true]
      simp

/-- The loop over all chunks, from a buffer in the middle of the stream. -/
theorem readChunks_stream (chunks : List Bytes) (items : List Item)
    (hwf : ∀ m ∈ items, WellFormed m) (hread : ∀ chunk ∈ chunks, chunk ≠ []) (buffer : Bytes)
    (h : buffer ++ chunks.flatten = wire items)
    (hinc : frameSipMessage buffer = .incomplete) :
    readChunks buffer chunks = (items.map Item.message, .ok []) := by
  induction chunks generalizing items buffer with
  | nil =>
      rw [List.flatten_nil, List.append_nil] at h
      cases items with
      | nil =>
          rw [h]
          rfl
      | cons m items =>
          rw [h] at hinc
          exact absurd hinc (wire_ne_incomplete (hwf m List.mem_cons_self))
  | cons chunk chunks ih =>
      rw [List.flatten_cons, ← List.append_assoc] at h
      obtain ⟨done, later, rest, hsplit, hlater, hall, hgoes, hinc'⟩ :=
        frameAll_front items hwf (buffer ++ chunk) chunks.flatten h
      have hchunks : ∀ chunk ∈ chunks, chunk ≠ [] := fun c hc => hread c (List.mem_cons_of_mem _ hc)
      rw [readChunks, if_neg (hread chunk List.mem_cons_self), hall]
      simp only [ih later hlater hchunks rest hgoes hinc', hsplit]

/-- However the stream is cut into reads, the reader emits the messages in
order, keeps nothing back and never gives the stream up. -/
theorem framing_is_chunk_independent (items : List Item) (hwf : ∀ m ∈ items, WellFormed m)
    (chunks : List Bytes) (hread : ∀ chunk ∈ chunks, chunk ≠ []) (hcut : chunks.flatten = wire items) :
    readChunks [] chunks = (items.map Item.message, .ok []) :=
  readChunks_stream chunks items hwf hread [] hcut rfl

def item (gap : Bytes) (header : String) (body : Bytes) : Item :=
  ⟨gap, encode header.toList, header.toList, body⟩

theorem item_wellFormed : WellFormed (item [13, 10] "A\r\nl: 4\r\nB" terminator) where
  gap := List.all_eq_true.mp rfl
  utf8 := fromUtf8_eq_some.mpr rfl
  start := by
    intro b hb
    cases hb
    rfl
  no_terminator := by decide
  no_crlf_end := by decide
  header_le := by decide
  declares := ⟨"l: 4".toList, " 4".toList, by decide, by decide, by decide⟩
  body_le := by decide

/-- A body that looks like a terminator, cut in the middle of the real one. -/
theorem framing_is_chunk_independent_cut :
    readChunks [] [[13], [10, 65, 13, 10, 108, 58, 32, 52, 13, 10, 66, 13, 10, 13],
      [10, 13, 10, 13, 10]] =
      ([(item [13, 10] "A\r\nl: 4\r\nB" terminator).message], .ok []) :=
  framing_is_chunk_independent [item [13, 10] "A\r\nl: 4\r\nB" terminator]
    (fun m hm => List.mem_singleton.mp hm ▸ item_wellFormed) _ (by decide) (by decide)

/-- A header section as a whole may also carry its content length in a line that
is not the first such line, or end with a line end of its own. -/
structure Plausible (m : Item) : Prop where
  gap : ∀ b ∈ m.gap, isCrLf b = true
  utf8 : fromUtf8 m.header = some m.text
  start : ∀ b, m.header.head? = some b → isCrLf b = false
  no_terminator : ¬ terminator <:+: m.header
  header_le : m.header.length ≤ maxSipMessage - 4
  carries : ∃ line ∈ lines m.text, isLengthLine line = true ∧
    ∃ value, secondField ':' line = some value ∧ parseUsize (trim value) = some m.body.length
  body_le : m.body.length ≤ maxSipMessage

theorem readChunks_message {buffer : Bytes} {stop : Nat} (hne : buffer ≠ [])
    (h : frameSipMessage buffer = .message stop) :
    (readChunks [] [buffer]).1.head? = some (buffer.take stop) := by
  rw [readChunks, if_neg hne, List.nil_append, frameAll_message h]
  cases (frameAll (buffer.drop stop)).2 <;> rfl

/-- Neither is framed as it was sent: the terminator is found two bytes early,
and the other line's length is waited for. -/
theorem framing_fails_on_plausible :
    (Plausible (item [] "l:0\r\n" []) ∧
      readChunks [] [(item [] "l:0\r\n" []).message] ≠ ([(item [] "l:0\r\n" []).message], .ok [])) ∧
    (Plausible (item [] "l:1\r\nl:0" []) ∧
      readChunks [] [(item [] "l:1\r\nl:0" []).message] ≠
        ([(item [] "l:1\r\nl:0" []).message], .ok [])) := by
  refine ⟨⟨⟨List.all_eq_true.mp rfl, fromUtf8_eq_some.mpr rfl, ?_, by decide, by decide,
      ⟨"l:0".toList, by decide, by decide, "0".toList, by decide, by decide⟩, by decide⟩, ?_⟩,
    ⟨List.all_eq_true.mp rfl, fromUtf8_eq_some.mpr rfl, ?_, by decide, by decide,
      ⟨"l:0".toList, by decide, by decide, "0".toList, by decide, by decide⟩, by decide⟩, ?_⟩
  · intro b hb
    cases hb
    rfl
  · intro h
    have hframe : frameSipMessage (item [] "l:0\r\n" []).message = .message 7 := by decide
    have hhead := readChunks_message (by decide) hframe
    rw [h] at hhead
    revert hhead
    decide
  · intro b hb
    cases hb
    rfl
  · have hframe : frameSipMessage (item [] "l:1\r\nl:0" []).message = .incomplete := by decide
    rw [readChunks, if_neg (by decide), List.nil_append, frameAll_incomplete hframe]
    exact fun h => absurd (congrArg Prod.fst h) (by simp [readChunks])

end NixiSbc.SipStream
