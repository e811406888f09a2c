import NixiSbc.SrtpPacket
import NixiSbc.SrtpKeystream
import Mathlib.Order.Interval.Set.Basic
import Mathlib.Data.Finset.Max

namespace NixiSbc.SrtpRollover

open ByteWords Diagnostics SlidingWindow SrtpKeys SrtpStream SrtpContext SrtpPacket SrtpKeystream StateRuns

/-- An index that both ends guess right: the first of the stream, or one less
than half the sequence space away from the highest index in `S`. -/
def Near (S : Set Nat) (i : Nat) : Prop :=
  (S = ∅ ∧ i < 65536) ∨
    ∃ top ∈ S, (∀ j ∈ S, j ≤ top) ∧ top ≤ i + 32767 ∧ i ≤ top + 32767

theorem Carried.top {st : StreamState} {S : Set Nat} (h : Carried st S) {top : Nat}
    (hmem : top ∈ S) (hmax : ∀ j ∈ S, j ≤ top) : st.highestIndex.toNat = top :=
  le_antisymm (hmax _ h.tracks.top_mem) (h.tracks.le_top _ hmem)

/-- Estimate and replay test at a near index, in terms of the set of indices
that the stream has carried. -/
theorem estimate_near {st : StreamState} {S : Set Nat} (h : Remembers st S) {i : Nat}
    {seq : UInt16} (hnear : Near S i) (hseq : i % 65536 = seq.toNat) (hi : i < 2 ^ 48) :
    ∃ v, estimate st seq = some (packetIndex v seq, v) ∧ v.toNat = i / 65536 ∧
      (packetIndex v seq).toNat = i ∧
      (isReplayed st (packetIndex v seq) = false ↔ (∀ j ∈ S, j < i + 64) ∧ i ∉ S) := by
  rcases h with ⟨hs, rfl⟩ | hc
  · have hlt : i < 65536 := by
      rcases hnear with ⟨-, hlt⟩ | ⟨top, hmem, -⟩
      · exact hlt
      · exact absurd hmem (Set.notMem_empty top)
    have hest : estimate st seq = some (seq.toUInt64, 0) := by rw [estimate, if_pos hs]
    refine ⟨0, by rw [hest, estimate_index hest], ?_, ?_, ?_⟩
    · exact (Nat.div_eq_of_lt hlt).symm
    · rw [packetIndex_toNat, ← hseq, Nat.mod_eq_of_lt hlt]
      exact Nat.zero_add i
    · rw [isReplayed, if_pos hs]
      exact ⟨fun _ => ⟨fun j hj => absurd hj (Set.notMem_empty j), Set.notMem_empty i⟩, fun _ => rfl⟩
  · obtain ⟨top, hmem, hmax, hlow, hhigh⟩ : ∃ top ∈ S, (∀ j ∈ S, j ≤ top) ∧ top ≤ i + 32767 ∧
        i ≤ top + 32767 := by
      rcases hnear with ⟨he, -⟩ | hnear
      · have hm := hc.tracks.top_mem
        rw [he] at hm
        exact absurd hm (Set.notMem_empty _)
      · exact hnear
    have htop := Carried.top hc hmem hmax
    obtain ⟨v, hv, hdiv⟩ := guessRoc_exact (htop.symm.trans hc.highest) hseq hlow hhigh hi
    have hidx : (packetIndex v seq).toNat = i := by
      rw [packetIndex_toNat, hdiv, ← hseq]
      exact Nat.div_add_mod' i 65536
    refine ⟨v, by rw [estimate, if_neg (by simp [hc.started]), hv]; rfl, hdiv, hidx, ?_⟩
    rw [isReplayed_eq_seen hc.started, hidx, hc.tracks.seen_eq_false]
    refine and_congr_left fun _ => ⟨fun hlt j hj => (hmax j hj).trans_lt (htop ▸ hlt), fun hall => ?_⟩
    exact hall _ hc.tracks.top_mem

/-- The table holds the stream of `ssrc` with the carried indices `S`, or has a
free slot for it. -/
def Holds (streams : StreamTable) (ssrc : UInt32) (S : Set Nat) : Prop :=
  match streams.lookup ssrc with
  | some state => Carried state S
  | none => streams.entries.length < maxStreams ∧ S = ∅

def Untracked (streams : StreamTable) (ssrc : UInt32) : Prop :=
  streams.lookup ssrc = none ∧ streams.entries.length < maxStreams

theorem Untracked.holds {streams : StreamTable} {ssrc : UInt32} (h : Untracked streams ssrc) :
    Holds streams ssrc ∅ := by
  rw [Holds, h.1]
  exact ⟨h.2, rfl⟩

theorem holds_insert {streams : StreamTable} {ssrc : UInt32} {state : StreamState} {S : Set Nat}
    (h : Carried state S) : Holds (streams.insert ssrc state) ssrc S := by
  rw [Holds, AList.lookup_insert]
  exact h

theorem Holds.remembers {streams : StreamTable} {ssrc : UInt32} {S : Set Nat}
    (h : Holds streams ssrc S) : Remembers ((streams.lookup ssrc).getD {}) S := by
  rw [Holds] at h
  cases hl : streams.lookup ssrc with
  | none =>
      rw [hl] at h
      exact .inl ⟨rfl, h.2⟩
  | some state =>
      rw [hl] at h
      exact .inr h

theorem Holds.streamMut {streams : StreamTable} {ssrc : UInt32} {S : Set Nat}
    (h : Holds streams ssrc S) (clock : UInt64) :
    ∃ state, streamMut streams clock ssrc = (some (state, streams.insert ssrc state), clock + 1) ∧
      Remembers state S ∧
      (∀ seq, estimate state seq = estimate ((streams.lookup ssrc).getD {}) seq) ∧
      ∀ i, isReplayed state i = isReplayed ((streams.lookup ssrc).getD {}) i := by
  have hroom : ¬(streams.lookup ssrc = none ∧ streams.entries.length ≥ maxStreams) := by
    rintro ⟨hl, hfull⟩
    rw [Holds, hl] at h
    exact absurd h.1 (Nat.not_lt.mpr hfull)
  obtain ⟨state, rfl, hm⟩ := streamMut_room hroom clock
  exact ⟨_, hm, h.remembers.stamp _, fun _ => rfl, fun _ => rfl⟩

/-- Packet number `k` of the stream `ssrc` whose first sequence number is `start`. -/
structure Numbered (ssrc : UInt32) (start : UInt16) (k : Nat) (p : Bytes) : Prop where
  header : ∃ h, getRtpHeaderLength p = .ok h
  ssrc_eq : u32At p 8 = ssrc
  seq_eq : (start.toNat + k) % 65536 = (u16At p 2).toNat

theorem sendRoc_near {c : SrtpCrypto} {ssrc : UInt32} {S : Set Nat} (h : Holds c.send ssrc S)
    {i : Nat} {seq : UInt16} (hnear : Near S i) (hseq : i % 65536 = seq.toNat) (hi : i < 2 ^ 48)
    (hin : ∀ j ∈ S, j < i + 64) (hnew : i ∉ S) :
    ∃ roc c', sendRoc c ssrc seq = (.ok roc, c') ∧ roc.toNat = i / 65536 ∧
      c'.keys = c.keys ∧ Holds c'.send ssrc (insert i S) := by
  obtain ⟨state, hm, hrem, -, -⟩ := h.streamMut c.clock
  obtain ⟨v, hest, hdiv, hidx, hrep⟩ := estimate_near hrem hnear hseq hi
  have hfresh := hrep.mpr ⟨hin, hnew⟩
  have hcar := (hrem.accept hest hfresh).2
  rw [hidx] at hcar
  rw [sendRoc, hm]
  simp only [hest, hfresh]
  exact ⟨v, _, rfl, hdiv, rfl, holds_insert hcar⟩

/-- At the end of the index space nothing is admitted any more. -/
theorem exhausted_refuses {st : StreamState} {start : Nat} (hstart : start < 65536)
    (h : Carried st (Set.Ico start (2 ^ 48))) (seq : UInt16) :
    estimate st seq = none ∨ ∃ i v, estimate st seq = some (i, v) ∧ isReplayed st i = true := by
  have htop : st.highestIndex.toNat = 2 ^ 48 - 1 := by
    apply Carried.top h
    · exact ⟨by omega, by omega⟩
    · intro j hj
      exact Nat.le_sub_one_of_lt hj.2
  have hhigh := h.highest
  have hroc := st.roc.toNat_lt
  have hsl := st.sL.toNat_lt
  have hq := seq.toNat_lt
  have hhalf : ¬ st.sL < 32768 := by
    rw [UInt16.lt_iff_toNat_lt]
    change ¬ st.sL.toNat < 32768
    omega
  by_cases hnext : (st.sL.toNat : Int) - 32768 > seq.toNat
  · left
    have hfull : ¬ st.roc.toNat + (1 : UInt32).toNat < 2 ^ 32 := by
      change ¬ st.roc.toNat + 1 < 2 ^ 32
      omega
    rw [estimate, if_neg (by simp [h.started]), guessRoc, if_neg hhalf, if_pos hnext, checkedAdd,
      if_neg hfull]
    rfl
  · right
    refine ⟨packetIndex st.roc seq, st.roc, ?_, ?_⟩
    · rw [estimate, if_neg (by simp [h.started]), guessRoc, if_neg hhalf, if_neg hnext]
      rfl
    · rw [isReplayed_eq_seen h.started, ← Bool.not_eq_false, h.tracks.seen_eq_false]
      rintro ⟨-, hout⟩
      apply hout
      rw [packetIndex_toNat]
      exact ⟨by omega, by omega⟩

theorem sendRoc_exhausted {c : SrtpCrypto} {ssrc : UInt32} {start : Nat} (hstart : start < 65536)
    (h : Holds c.send ssrc (Set.Ico start (2 ^ 48))) (seq : UInt16) :
    ∃ e c', sendRoc c ssrc seq = (.error e, c') ∧ c'.keys = c.keys ∧
      Holds c'.send ssrc (Set.Ico start (2 ^ 48)) := by
  obtain ⟨state, hm, hrem, -, -⟩ := h.streamMut c.clock
  have hcar : Carried state (Set.Ico start (2 ^ 48)) := by
    rcases hrem with ⟨-, he⟩ | hc
    · have hs : start ∈ (Set.Ico start (2 ^ 48)) := ⟨le_rfl, by omega⟩
      rw [he] at hs
      exact absurd hs (Set.notMem_empty start)
    · exact hc
  rw [sendRoc, hm]
  rcases exhausted_refuses hstart hcar seq with hest | ⟨i, v, hest, hrep⟩
  · simp only [hest]
    exact ⟨_, _, rfl, rfl, holds_insert hcar⟩
  · simp only [hest, hrep, if_true]
    exact ⟨_, _, rfl, rfl, holds_insert hcar⟩

theorem encryptRtp_of_header {P : Primitives} {c : SrtpCrypto} {p : Bytes} {h : Nat}
    (hp : getRtpHeaderLength p = .ok h) : encryptRtp P c p =
      match sendRoc c (u32At p 8) (u16At p 2) with
      | (.error e, c) => (.error e, c)
      | (.ok roc, c) =>
          (.ok (sealRtp P c.keys (p.take h) (p.drop h) (u32At p 8) (u16At p 2) roc), c) := by
  have h12 := (getRtpHeaderLength_ok hp).2.1
  have hlong : ¬p.length < 12 := by omega
  cases hs : sendRoc c (u32At p 8) (u16At p 2) with
  | mk r c' =>
      cases r with
      | error e => simp only [encryptRtp, hlong, hp, hs, if_false]
      | ok roc => simp only [encryptRtp, hlong, hp, hs, if_false]

def sentIndices (start k : Nat) : Set Nat := Set.Ico start (min (start + k) (2 ^ 48))

theorem sentIndices_zero (start : Nat) : sentIndices start 0 = ∅ := by
  ext j
  simp only [sentIndices, Set.mem_Ico, Set.mem_empty_iff_false, iff_false]
  omega

theorem sentIndices_succ {start k : Nat} (h : start + k < 2 ^ 48) :
    sentIndices start (k + 1) = insert (start + k) (sentIndices start k) := by
  ext j
  simp only [sentIndices, Set.mem_Ico, Set.mem_insert_iff]
  omega

theorem sentIndices_exhausted {start k : Nat} (h : 2 ^ 48 ≤ start + k) :
    sentIndices start k = Set.Ico start (2 ^ 48) := by
  rw [sentIndices, Nat.min_eq_right h]

theorem sentIndices_near {start k : Nat} (hstart : start < 65536) (h : start + k < 2 ^ 48) :
    Near (sentIndices start k) (start + k) := by
  rcases Nat.eq_zero_or_pos k with rfl | hpos
  · exact .inl ⟨sentIndices_zero start, hstart⟩
  · refine .inr ⟨start + k - 1, ⟨by omega, by omega⟩, ?_, by omega, by omega⟩
    rintro j ⟨-, hj⟩
    omega

section Sender

variable {P : Primitives} {s : SrtpCrypto} {ssrc : UInt32} {start : UInt16} {ps : List Bytes}
  (hs : Untracked s.send ssrc) (hps : ∀ k p, ps[k]? = some p → Numbered ssrc start k p)
include hs hps

omit hs in
/-- One packet of the sender, in the state that the packets before it lead to. -/
theorem sender_step {k : Nat} {p : Bytes} (hget : ps[k]? = some p) {c : SrtpCrypto}
    (hkeys : c.keys = s.keys) (hholds : Holds c.send ssrc (sentIndices start.toNat k)) :
    (encryptRtp P c p).2.keys = s.keys ∧
    Holds (encryptRtp P c p).2.send ssrc (sentIndices start.toNat (k + 1)) ∧
    ((start.toNat + k < 2 ^ 48 ∧ ∃ h roc, getRtpHeaderLength p = .ok h ∧
        roc.toNat = (start.toNat + k) / 65536 ∧ (encryptRtp P c p).1 =
          .ok (sealRtp P s.keys (p.take h) (p.drop h) (u32At p 8) (u16At p 2) roc)) ∨
      ∃ e, (encryptRtp P c p).1 = .error e) := by
  have hstart := start.toNat_lt
  obtain ⟨⟨h, hp⟩, hssrc, hseq⟩ := hps k p hget
  rw [encryptRtp_of_header hp]
  by_cases hend : start.toNat + k < 2 ^ 48
  · obtain ⟨roc, c', hsend, hdiv, hkeys', hholds'⟩ :=
      sendRoc_near hholds (sentIndices_near hstart hend) hseq hend
        (by rintro j ⟨-, hj⟩; omega) (by rintro ⟨-, hj⟩; omega)
    rw [hssrc, hsend, sentIndices_succ hend]
    refine ⟨hkeys'.trans hkeys, hholds', .inl ⟨hend, h, roc, hp, hdiv, ?_⟩⟩
    rw [← hkeys, ← hkeys']
  · rw [sentIndices_exhausted (by omega)] at hholds
    obtain ⟨e, c', hsend, hkeys', hholds'⟩ := sendRoc_exhausted hstart hholds (u16At p 2)
    rw [hssrc, hsend, sentIndices_exhausted (by omega)]
    exact ⟨hkeys'.trans hkeys, hholds', .inr ⟨e, rfl⟩⟩

/-- The sender's stream has carried exactly the true indices sent so far. -/
theorem sender_carries (k : Nat) (hk : k ≤ ps.length) :
    (encryptAll P s (ps.take k)).2.keys = s.keys ∧
    Holds (encryptAll P s (ps.take k)).2.send ssrc (sentIndices start.toNat k) := by
  induction k with
  | zero =>
      rw [sentIndices_zero]
      exact ⟨rfl, hs.holds⟩
  | succ k ih =>
      obtain ⟨hkeys, hholds⟩ := ih (by omega)
      have hrun : (encryptAll P s (ps.take (k + 1))).2 =
          (encryptRtp P (encryptAll P s (ps.take k)).2 ps[k]).2 := by
        rw [List.take_succ_eq_append_getElem (by omega), encryptAll, runAll_concat]
      rw [hrun]
      obtain ⟨hkeys', hholds', -⟩ :=
        sender_step hps (List.getElem?_eq_getElem (by omega)) hkeys hholds (P := P)
      exact ⟨hkeys', hholds'⟩

/-- Whatever the sender put out for packet `k` is sealed under the rollover
counter of its true index, which is also what its own estimate says. -/
theorem sender_output {k : Nat} {w : Bytes} (hw : (encryptAll P s ps).1[k]? = some (.ok w)) :
    ∃ p h roc, ps[k]? = some p ∧ getRtpHeaderLength p = .ok h ∧
      start.toNat + k < 2 ^ 48 ∧ roc.toNat = (start.toNat + k) / 65536 ∧
      w = sealRtp P s.keys (p.take h) (p.drop h) (u32At p 8) (u16At p 2) roc ∧
      estimate (((encryptAll P s (ps.take k)).2.send.lookup ssrc).getD {}) (u16At p 2) =
        some (packetIndex roc (u16At p 2), roc) := by
  rw [encryptAll, runAll_getElem?, Option.map_eq_some_iff] at hw
  obtain ⟨p, hget, hok⟩ := hw
  have hlt : k < ps.length := (List.getElem?_eq_some_iff.mp hget).1
  obtain ⟨hkeys, hholds⟩ := sender_carries hs hps k hlt.le (P := P)
  obtain ⟨-, -, ⟨hend, h, roc, hp, hdiv, hout⟩ | ⟨e, herr⟩⟩ := sender_step hps hget hkeys hholds (P := P)
  · obtain ⟨v, hest, hv, -, -⟩ := estimate_near hholds.remembers
      (sentIndices_near start.toNat_lt hend) (hps k p hget).seq_eq hend
    have hvr : v = roc := UInt32.toNat_inj.mp (hv.trans hdiv.symm)
    rw [hvr] at hest
    exact ⟨p, h, roc, hget, hp, hend, hdiv, Except.ok.inj (hok.symm.trans hout), hest⟩
  · exact absurd (hok.symm.trans herr) (by simp)

end Sender

theorem any_isReplayed (existing : Option StreamState) (i : UInt64) :
    existing.any (isReplayed · i) = isReplayed (existing.getD {}) i := by
  cases existing <;> rfl

/-- One delivery: the receiver's estimate is the sender's, and the packet goes
through exactly when its index is in the window and new. -/
theorem receiver_step {P : Primitives} {c : SrtpCrypto} {ssrc : UInt32} {S : Set Nat}
    (h16 : c.keys.cipherKey.length = 16) (hholds : Holds c.recv ssrc S)
    {i h : Nat} {p : Bytes} {roc : UInt32} (hnear : Near S i) (hi : i < 2 ^ 48)
    (hp : getRtpHeaderLength p = .ok h) (hssrc : u32At p 8 = ssrc)
    (hseq : i % 65536 = (u16At p 2).toNat) (hroc : roc.toNat = i / 65536) :
    estimate ((c.recv.lookup ssrc).getD {}) (u16At p 2) = some (packetIndex roc (u16At p 2), roc) ∧
    ((((∀ j ∈ S, j < i + 64) ∧ i ∉ S) ∧ ∃ c', decryptSrtp P c
        (sealRtp P c.keys (p.take h) (p.drop h) (u32At p 8) (u16At p 2) roc) = (.ok p, c') ∧
        c'.keys = c.keys ∧ Holds c'.recv ssrc (insert i S)) ∨
      (¬((∀ j ∈ S, j < i + 64) ∧ i ∉ S) ∧ ∃ e, decryptSrtp P c
        (sealRtp P c.keys (p.take h) (p.drop h) (u32At p 8) (u16At p 2) roc) = (.error e, c))) := by
  subst hssrc
  obtain ⟨v, hest, hdiv, hidx, hrep⟩ := estimate_near hholds.remembers hnear hseq hi
  obtain rfl : v = roc := UInt32.toNat_inj.mp (hdiv.trans hroc.symm)
  refine ⟨hest, ?_⟩
  by_cases hin : (∀ j ∈ S, j < i + 64) ∧ i ∉ S
  · left
    have hfresh := hrep.mpr hin
    have hprobe : probe c (u32At p 8) (u16At p 2) = .ok (packetIndex v (u16At p 2), v) := by
      simp only [probe, hest, any_isReplayed, hfresh]
      rfl
    obtain ⟨state, hm, hrem, heststate, hrepstate⟩ := hholds.streamMut c.clock
    have hcar := (hrem.accept ((heststate _).trans hest) ((hrepstate _).trans hfresh)).2
    rw [hidx] at hcar
    have hdec := decryptSrtp_sealRtp (P := P) hp hprobe hm
    rw [openRtp_sealedBody hp, if_pos h16] at hdec
    exact ⟨hin, _, hdec, rfl, holds_insert hcar⟩
  · right
    have hseen : isReplayed ((c.recv.lookup (u32At p 8)).getD {}) (packetIndex v (u16At p 2)) = true := by
      rw [← Bool.not_eq_false]
      exact fun hf => hin (hrep.mp hf)
    have hprobe : ∃ e, probe c (u32At p 8) (u16At p 2) = .error e := by
      simp only [probe, hest, any_isReplayed, hseen, if_true]
      exact ⟨_, rfl⟩
    obtain ⟨e, hprobe⟩ := hprobe
    exact ⟨hin, e, decryptSrtp_sealRtp_error hp v hprobe⟩

/-- The first packet sent is delivered first, and each delivered packet is less
than half the sequence space away from the highest one delivered before it. -/
def Admissible (numbers : List Nat) : Prop :=
  ∀ pre k post, numbers = pre ++ k :: post →
    (pre = [] → k = 0) ∧
    ∀ top ∈ pre, (∀ j ∈ pre, j ≤ top) → top ≤ k + (2 ^ 15 - 1) ∧ k ≤ top + (2 ^ 15 - 1)

theorem Admissible.init {xs ys : List Nat} (h : Admissible (xs ++ ys)) : Admissible xs := by
  rintro pre k post rfl
  exact h pre k (post ++ ys) (by simp)

def acceptedNumbers (P : Primitives) (r : SrtpCrypto) (ds : List (Nat × Bytes)) : List Nat :=
  (ds.zip (decryptAll P r (ds.map Prod.snd)).1).filterMap fun x =>
    if x.2.isOk then some x.1.1 else none

theorem decryptAll_concat (P : Primitives) (r : SrtpCrypto) (ds : List (Nat × Bytes))
    (d : Nat × Bytes) : (decryptAll P r ((ds ++ [d]).map Prod.snd)).2 =
      (decryptSrtp P (decryptAll P r (ds.map Prod.snd)).2 d.2).2 := by
  rw [List.map_append, List.map_singleton, decryptAll, runAll_concat]

theorem acceptedNumbers_concat (P : Primitives) (r : SrtpCrypto) (ds : List (Nat × Bytes))
    (d : Nat × Bytes) : acceptedNumbers P r (ds ++ [d]) = acceptedNumbers P r ds ++
      if (decryptSrtp P (decryptAll P r (ds.map Prod.snd)).2 d.2).1.isOk then [d.1] else [] := by
  have hlen : ds.length = (runAll (decryptSrtp P) r (ds.map Prod.snd)).1.length := by
    rw [runAll_length, List.length_map]
  simp only [acceptedNumbers, decryptAll, List.map_append, List.map_singleton, runAll_concat]
  rw [List.zip_append hlen, List.filterMap_append]
  congr 1
  by_cases hok : (decryptSrtp P (runAll (decryptSrtp P) r (ds.map Prod.snd)).2 d.2).1.isOk = true
  · simp [hok]
  · simp [hok]

def acceptedIndices (start : Nat) (accepted : List Nat) : Set Nat :=
  {i | ∃ k ∈ accepted, start + k = i}

theorem acceptedIndices_concat (start : Nat) (accepted : List Nat) (k : Nat) :
    acceptedIndices start (accepted ++ [k]) = insert (start + k) (acceptedIndices start accepted) := by
  ext i
  constructor
  · rintro ⟨j, hj, rfl⟩
    rcases List.mem_append.mp hj with hj | hj
    · exact Set.mem_insert_of_mem _ ⟨j, hj, rfl⟩
    · rw [List.mem_singleton.mp hj]
      exact Set.mem_insert _ _
  · intro hi
    rcases Set.mem_insert_iff.mp hi with rfl | ⟨j, hj, rfl⟩
    · exact ⟨k, by simp, rfl⟩
    · exact ⟨j, by simp [hj], rfl⟩

theorem mem_acceptedIndices {start k : Nat} {accepted : List Nat} :
    start + k ∈ acceptedIndices start accepted ↔ k ∈ accepted := by
  constructor
  · rintro ⟨j, hj, he⟩
    rwa [← Nat.add_left_cancel he]
  · intro hk
    exact ⟨k, hk, rfl⟩

theorem exists_top {numbers : List Nat} (h : numbers ≠ []) :
    ∃ top ∈ numbers, ∀ j ∈ numbers, j ≤ top := by
  obtain ⟨top, hmem, hmax⟩ := Finset.exists_max_image numbers.toFinset id
    (List.toFinset_nonempty_iff numbers |>.mpr h)
  exact ⟨top, List.mem_toFinset.mp hmem, fun j hj => hmax j (List.mem_toFinset.mpr hj)⟩

section Receiver

variable {P : Primitives} {s r : SrtpCrypto} {ssrc : UInt32} {start : UInt16} {ps : List Bytes}

/-- The receiver after some deliveries: its stream has carried the accepted
indices, and the highest delivered packet is one of them. -/
structure Receiver (P : Primitives) (r : SrtpCrypto) (ssrc : UInt32) (start : UInt16)
    (ds : List (Nat × Bytes)) : Prop where
  keys : (decryptAll P r (ds.map Prod.snd)).2.keys = r.keys
  holds : Holds (decryptAll P r (ds.map Prod.snd)).2.recv ssrc
    (acceptedIndices start.toNat (acceptedNumbers P r ds))
  delivered : ∀ k ∈ acceptedNumbers P r ds, k ∈ ds.map Prod.fst
  top : ∀ k ∈ ds.map Prod.fst, (∀ j ∈ ds.map Prod.fst, j ≤ k) → k ∈ acceptedNumbers P r ds

theorem Receiver.near {ds : List (Nat × Bytes)} (h : Receiver P r ssrc start ds) {k : Nat}
    {post : List Nat} (hadm : Admissible (ds.map Prod.fst ++ k :: post)) :
    Near (acceptedIndices start.toNat (acceptedNumbers P r ds)) (start.toNat + k) := by
  obtain ⟨hfirst, hclose⟩ := hadm _ _ _ rfl
  by_cases hne : ds.map Prod.fst = []
  · left
    rw [hfirst hne]
    refine ⟨?_, start.toNat_lt⟩
    rw [Set.eq_empty_iff_forall_notMem]
    rintro i ⟨j, hj, -⟩
    have hd := h.delivered j hj
    rw [hne] at hd
    exact absurd hd List.not_mem_nil
  · right
    obtain ⟨top, hmem, hmax⟩ := exists_top hne
    obtain ⟨hlow, hhigh⟩ := hclose top hmem hmax
    refine ⟨start.toNat + top, mem_acceptedIndices.mpr (h.top top hmem hmax), ?_, by omega, by omega⟩
    rintro i ⟨j, hj, rfl⟩
    exact Nat.add_le_add_left (hmax j (h.delivered j hj)) _

/-- What one more delivery does to a receiver in step with its sender. -/
theorem Receiver.step {ds : List (Nat × Bytes)} (h : Receiver P r ssrc start ds)
    (hkeys : r.keys = s.keys) (h16 : s.keys.cipherKey.length = 16)
    (hs : Untracked s.send ssrc) (hps : ∀ k p, ps[k]? = some p → Numbered ssrc start k p)
    {k : Nat} {w : Bytes} {post : List Nat} (hw : (encryptAll P s ps).1[k]? = some (.ok w))
    (hadm : Admissible (ds.map Prod.fst ++ k :: post)) :
    ∃ p roc, ps[k]? = some p ∧ roc.toNat = (start.toNat + k) / 65536 ∧
      (packetIndex roc (u16At p 2)).toNat = start.toNat + k ∧
      estimate (((encryptAll P s (ps.take k)).2.send.lookup ssrc).getD {}) (u16At p 2) =
        some (packetIndex roc (u16At p 2), roc) ∧
      estimate (((decryptAll P r (ds.map Prod.snd)).2.recv.lookup ssrc).getD {}) (u16At p 2) =
        some (packetIndex roc (u16At p 2), roc) ∧
      (((∀ j ∈ acceptedNumbers P r ds, j < k + 64) ∧ k ∉ acceptedNumbers P r ds ∧
          ∃ c', decryptSrtp P (decryptAll P r (ds.map Prod.snd)).2 w = (.ok p, c') ∧
            c'.keys = r.keys ∧ Holds c'.recv ssrc
              (insert (start.toNat + k) (acceptedIndices start.toNat (acceptedNumbers P r ds)))) ∨
        (¬((∀ j ∈ acceptedNumbers P r ds, j < k + 64) ∧ k ∉ acceptedNumbers P r ds) ∧
          ∃ e, decryptSrtp P (decryptAll P r (ds.map Prod.snd)).2 w =
            (.error e, (decryptAll P r (ds.map Prod.snd)).2))) := by
  obtain ⟨p, hd, roc, hget, hp, hend, hdiv, rfl, hsend⟩ := sender_output hs hps hw
  obtain ⟨-, hssrc, hseq⟩ := hps k p hget
  have hkeys' := h.keys.trans hkeys
  obtain ⟨hest, hcases⟩ := receiver_step (P := P) (by rw [hkeys']; exact h16) h.holds
    (h.near hadm) hend hp hssrc hseq hdiv
  have hidx : (packetIndex roc (u16At p 2)).toNat = start.toNat + k := by
    rw [packetIndex_toNat, hdiv, ← hseq]
    exact Nat.div_add_mod' _ 65536
  have hwin : (∀ j ∈ acceptedIndices start.toNat (acceptedNumbers P r ds),
      j < start.toNat + k + 64) ↔ ∀ j ∈ acceptedNumbers P r ds, j < k + 64 := by
    constructor
    · intro hall j hj
      have hlt := hall _ (mem_acceptedIndices.mpr hj)
      omega
    · rintro hall i ⟨j, hj, rfl⟩
      have hlt := hall j hj
      omega
  rw [hwin, mem_acceptedIndices, hkeys'] at hcases
  refine ⟨p, roc, hget, hdiv, hidx, hsend, hest, ?_⟩
  rcases hcases with ⟨⟨hin, hnew⟩, c', hdec, hk, hh⟩ | ⟨hout, e, hdec⟩
  · exact .inl ⟨hin, hnew, c', hdec, hk.trans hkeys.symm, hh⟩
  · exact .inr ⟨hout, e, hdec⟩

theorem Receiver.nil (hr : Untracked r.recv ssrc) : Receiver P r ssrc start [] := by
  refine ⟨rfl, ?_, fun k hk => hk, fun k hk => absurd hk List.not_mem_nil⟩
  have hnone : acceptedIndices start.toNat (acceptedNumbers P r []) = ∅ := by
    rw [Set.eq_empty_iff_forall_notMem]
    rintro i ⟨k, hk, -⟩
    exact absurd hk List.not_mem_nil
  rw [hnone]
  exact hr.holds

theorem Receiver.accepted {ds : List (Nat × Bytes)} (h : Receiver P r ssrc start ds) {k : Nat}
    {w p : Bytes} {c' : SrtpCrypto}
    (hdec : decryptSrtp P (decryptAll P r (ds.map Prod.snd)).2 w = (.ok p, c'))
    (hkeys : c'.keys = r.keys) (hholds : Holds c'.recv ssrc
      (insert (start.toNat + k) (acceptedIndices start.toNat (acceptedNumbers P r ds)))) :
    Receiver P r ssrc start (ds ++ [(k, w)]) := by
  have hacc : acceptedNumbers P r (ds ++ [(k, w)]) = acceptedNumbers P r ds ++ [k] := by
    rw [acceptedNumbers_concat, hdec]
    rfl
  have hrun : (decryptAll P r ((ds ++ [(k, w)]).map Prod.snd)).2 = c' := by
    rw [decryptAll_concat, hdec]
  refine ⟨by rw [hrun, hkeys], by rw [hrun, hacc, acceptedIndices_concat]; exact hholds, ?_, ?_⟩
  · intro j hj
    rw [hacc] at hj
    rw [List.map_append]
    rcases List.mem_append.mp hj with hj | hj
    · exact List.mem_append_left _ (h.delivered j hj)
    · exact List.mem_append_right _ hj
  · intro j hj hmax
    rw [List.map_append] at hj hmax
    rw [hacc]
    rcases List.mem_append.mp hj with hj | hj
    · exact List.mem_append_left _ (h.top j hj fun i hi => hmax i (List.mem_append_left _ hi))
    · exact List.mem_append_right _ hj

/-- A refused packet was accepted before or is older than the window, so it is
not the new highest one. -/
theorem Receiver.refused {ds : List (Nat × Bytes)} (h : Receiver P r ssrc start ds) {k : Nat}
    {w : Bytes} {e : Error}
    (hdec : decryptSrtp P (decryptAll P r (ds.map Prod.snd)).2 w =
      (.error e, (decryptAll P r (ds.map Prod.snd)).2))
    (hout : ¬((∀ j ∈ acceptedNumbers P r ds, j < k + 64) ∧ k ∉ acceptedNumbers P r ds)) :
    Receiver P r ssrc start (ds ++ [(k, w)]) := by
  have hacc : acceptedNumbers P r (ds ++ [(k, w)]) = acceptedNumbers P r ds := by
    rw [acceptedNumbers_concat, hdec]
    exact List.append_nil _
  have hrun : (decryptAll P r ((ds ++ [(k, w)]).map Prod.snd)).2 =
      (decryptAll P r (ds.map Prod.snd)).2 := by
    rw [decryptAll_concat, hdec]
  refine ⟨by rw [hrun, h.keys], by rw [hrun, hacc]; exact h.holds, ?_, ?_⟩
  · intro j hj
    rw [hacc] at hj
    rw [List.map_append]
    exact List.mem_append_left _ (h.delivered j hj)
  · intro j hj hmax
    rw [List.map_append] at hj hmax
    rw [hacc]
    rcases List.mem_append.mp hj with hj | hj
    · exact h.top j hj fun i hi => hmax i (List.mem_append_left _ hi)
    · obtain rfl : j = k := List.mem_singleton.mp hj
      by_contra hnew
      apply hout
      refine ⟨fun i hi => ?_, hnew⟩
      have hle := hmax i (List.mem_append_left _ (h.delivered i hi))
      omega

/-- The receiver stays in step through every admissible delivery. -/
theorem receiver_in_step (hkeys : r.keys = s.keys) (h16 : s.keys.cipherKey.length = 16)
    (hs : Untracked s.send ssrc) (hr : Untracked r.recv ssrc)
    (hps : ∀ k p, ps[k]? = some p → Numbered ssrc start k p) (ds : List (Nat × Bytes))
    (hsent : ∀ d ∈ ds, (encryptAll P s ps).1[d.1]? = some (.ok d.2))
    (hadm : Admissible (ds.map Prod.fst)) : Receiver P r ssrc start ds := by
  induction ds using List.reverseRecOn with
  | nil => exact Receiver.nil hr
  | append_singleton ds d ih =>
      obtain ⟨k, w⟩ := d
      rw [List.map_append, List.map_singleton] at hadm
      have h := ih (fun d hd => hsent d (List.mem_append_left _ hd)) hadm.init
      have hw := hsent (k, w) (List.mem_append_right _ (List.mem_singleton_self _))
      obtain ⟨p, roc, -, -, -, -, -, hcases⟩ := h.step hkeys h16 hs hps hw hadm
      rcases hcases with ⟨-, -, c', hdec, hk, hh⟩ | ⟨hout, e, hdec⟩
      · exact h.accepted hdec hk hh
      · exact h.refused hdec hout

/-- The window test in the receiver's own terms. -/
theorem Receiver.window_iff {ds : List (Nat × Bytes)} (h : Receiver P r ssrc start ds) (k : Nat) :
    (∀ j ∈ acceptedNumbers P r ds, j < k + 64) ↔
      ∀ st, (decryptAll P r (ds.map Prod.snd)).2.recv.lookup ssrc = some st →
        st.highestIndex.toNat < start.toNat + k + 64 := by
  have hholds := h.holds
  rw [Holds] at hholds
  cases hl : (decryptAll P r (ds.map Prod.snd)).2.recv.lookup ssrc with
  | none =>
      rw [hl] at hholds
      refine ⟨fun _ st hst => absurd hst (by simp), fun _ j hj => ?_⟩
      have hmem : start.toNat + j ∈ acceptedIndices start.toNat (acceptedNumbers P r ds) :=
        mem_acceptedIndices.mpr hj
      rw [hholds.2] at hmem
      exact absurd hmem (Set.notMem_empty _)
  | some st =>
      rw [hl] at hholds
      constructor
      · rintro hall st' ⟨⟩
        obtain ⟨j, hj, he⟩ := hholds.tracks.top_mem
        have hlt := hall j hj
        have he' : start.toNat + j = st.highestIndex.toNat := he
        omega
      · intro hall j hj
        have hlt := hall st rfl
        have hle : start.toNat + j ≤ st.highestIndex.toNat :=
          hholds.tracks.le_top _ (mem_acceptedIndices.mpr hj)
        omega

end Receiver

/-- Sender and receiver stay on one rollover counter. The packets `ps` of one
SSRC are encrypted in order; `ds` is what the network delivers of the sender's
output, each packet with its number, in an admissible order. At every delivery
the receiver's estimate is the one that the sender made for that packet. -/
theorem receiver_follows_sender (P : Primitives) {s r : SrtpCrypto} {ssrc : UInt32}
    {start : UInt16} {ps : List Bytes} {ds : List (Nat × Bytes)}
    (hkeys : r.keys = s.keys) (h16 : s.keys.cipherKey.length = 16)
    (hs : Untracked s.send ssrc) (hr : Untracked r.recv ssrc)
    (hps : ∀ k p, ps[k]? = some p → Numbered ssrc start k p)
    (hsent : ∀ d ∈ ds, (encryptAll P s ps).1[d.1]? = some (.ok d.2))
    (hadm : Admissible (ds.map Prod.fst))
    {pre post : List (Nat × Bytes)} {k : Nat} {w : Bytes} (hsplit : ds = pre ++ (k, w) :: post) :
    let sender := (encryptAll P s (ps.take k)).2
    let receiver := (decryptAll P r (pre.map Prod.snd)).2
    ∃ p index roc, ps[k]? = some p ∧
      index.toNat = start.toNat + k ∧ roc.toNat = (start.toNat + k) / 65536 ∧
      estimate ((sender.send.lookup ssrc).getD {}) (u16At p 2) = some (index, roc) ∧
      estimate ((receiver.recv.lookup ssrc).getD {}) (u16At p 2) = some (index, roc) ∧
      ((decryptSrtp P receiver w).1.isOk ↔
        (∀ st, receiver.recv.lookup ssrc = some st → st.highestIndex.toNat < index.toNat + 64) ∧
          k ∉ acceptedNumbers P r pre) ∧
      ∀ out, (decryptSrtp P receiver w).1 = .ok out → out = p := by
  intro sender receiver
  subst hsplit
  have hadm' := hadm
  rw [List.map_append, List.map_cons] at hadm'
  have h := receiver_in_step hkeys h16 hs hr hps pre
    (fun d hd => hsent d (List.mem_append_left _ hd)) hadm'.init
  have hw := hsent (k, w) (by simp)
  obtain ⟨p, roc, hget, hdiv, hidx, hsend, hrecv, hcases⟩ := h.step hkeys h16 hs hps hw hadm'
  refine ⟨p, packetIndex roc (u16At p 2), roc, hget, hidx, hdiv, hsend, hrecv, ?_, ?_⟩
  · rw [hidx, ← h.window_iff]
    rcases hcases with ⟨hin, hnew, c', hdec, -⟩ | ⟨hout, e, hdec⟩
    · rw [hdec]
      exact ⟨fun _ => ⟨hin, hnew⟩, fun _ => rfl⟩
    · rw [hdec]
      exact ⟨fun hf => absurd hf (by simp [Except.isOk, Except.toBool]), fun hf => absurd hf hout⟩
  · intro out hok
    rcases hcases with ⟨-, -, c', hdec, -⟩ | ⟨-, e, hdec⟩
    · rw [hdec] at hok
      exact (Except.ok.inj hok).symm
    · rw [hdec] at hok
      cases hok

def wrapPackets : List Bytes := [rtpSample 255 255, rtpSample 0 0]

def wrapSealed (hi low : UInt8) (seq : UInt16) (roc : UInt32) : Bytes :=
  sealRtp echoPrimitives zeroKeys ((rtpSample hi low).take 12) ((rtpSample hi low).drop 12) 7 seq roc

def wrapDeliveries : List (Nat × Bytes) :=
  [(0, wrapSealed 255 255 65535 0), (1, wrapSealed 0 0 0 1)]

theorem wrapPackets_numbered (k : Nat) (p : Bytes) (h : wrapPackets[k]? = some p) :
    Numbered 7 65535 k p := by
  match k with
  | 0 =>
      cases h
      exact ⟨⟨12, rfl⟩, by decide, by decide⟩
  | 1 =>
      cases h
      exact ⟨⟨12, rfl⟩, by decide, by decide⟩
  | k + 2 => cases h

theorem wrapDeliveries_admissible : Admissible (wrapDeliveries.map Prod.fst) := by
  intro pre k post h
  match pre with
  | [] =>
      cases h
      exact ⟨fun _ => rfl, fun top ht => absurd ht List.not_mem_nil⟩
  | [_] =>
      cases h
      refine ⟨fun hf => absurd hf (by simp), fun top ht _ => ?_⟩
      rw [List.mem_singleton.mp ht]
      decide
  | _ :: _ :: pre => simp [wrapDeliveries] at h

theorem receiver_follows_sender_across_wrap :
    (∀ d ∈ wrapDeliveries,
      (encryptAll echoPrimitives (fresh zeroKeys) wrapPackets).1[d.1]? = some (.ok d.2)) ∧
    ∃ p index roc, wrapPackets[1]? = some p ∧ index.toNat = 65536 ∧ roc.toNat = 1 ∧
      estimate (((decryptAll echoPrimitives (fresh zeroKeys)
        [wrapSealed 255 255 65535 0]).2.recv.lookup 7).getD {}) (u16At p 2) = some (index, roc) := by
  have hsent : ∀ d ∈ wrapDeliveries,
      (encryptAll echoPrimitives (fresh zeroKeys) wrapPackets).1[d.1]? = some (.ok d.2) := by
    decide
  have hsplit : wrapDeliveries =
      [(0, wrapSealed 255 255 65535 0)] ++ (1, wrapSealed 0 0 0 1) :: [] := rfl
  refine ⟨hsent, ?_⟩
  obtain ⟨p, index, roc, hp, hi, hr, -, hest, -, -⟩ :=
    receiver_follows_sender echoPrimitives (s := fresh zeroKeys) (r := fresh zeroKeys) rfl rfl
      ⟨rfl, by decide⟩ ⟨rfl, by decide⟩ wrapPackets_numbered hsent wrapDeliveries_admissible hsplit
  exact ⟨p, index, roc, hp, hi, hr, hest⟩

end NixiSbc.SrtpRollover
