import NixiSbc.B2bua
import Mathlib.Data.List.Nodup

namespace NixiSbc.InviteAttempts

open Stun RawSip Trunks B2bua

/-- The arguments of one recorded INVITE, with the time of the call. -/
structure Push where
  now : Nat
  raw : List Char
  dest : SocketAddr
  transport : Transport
  trunkId : Option TrunkId

def Push.attempt (U : Lowering) (p : Push) : InviteAttempt :=
  attemptOf U p.raw p.dest p.transport p.trunkId

def pushAll (U : Lowering) (call : B2buaCall) (pushes : List Push) : B2buaCall :=
  pushes.foldl (fun call p => pushInviteAttempt U call p.now p.raw p.dest p.transport p.trunkId) call

/-- The attempts that a call still remembers. -/
def remembered (attempts : List InviteAttempt) : List InviteAttempt :=
  attempts.drop (attempts.length - maxInviteAttempts)

theorem remember_remembered (attempts : List InviteAttempt) (a : InviteAttempt) :
    remember (remembered attempts) a = remembered (attempts ++ [a]) := by
  have hlen : (remembered attempts).length = min attempts.length maxInviteAttempts := by
    rw [remembered, List.length_drop]
    omega
  rw [remember]
  simp only [List.length_append, List.length_singleton, hlen]
  split
  next h =>
    have hne : remembered attempts ≠ [] := by
      apply List.ne_nil_of_length_pos
      rw [hlen]
      simp only [maxInviteAttempts] at h ⊢
      omega
    rw [List.drop_append_of_le_length (List.length_pos_of_ne_nil hne), remembered, remembered,
      List.drop_drop, List.length_append, List.length_singleton]
    rw [List.drop_append_of_le_length (by simp only [maxInviteAttempts]; omega)]
    congr 2
    simp only [maxInviteAttempts] at h ⊢
    omega
  next h =>
    have hshort : attempts.length + 1 ≤ maxInviteAttempts := by omega
    rw [remembered, remembered, List.length_append, List.length_singleton,
      Nat.sub_eq_zero_of_le hshort, Nat.sub_eq_zero_of_le (by omega)]
    rfl

theorem pushAll_inviteAttempts (U : Lowering) (call : B2buaCall) (h : call.inviteAttempts = [])
    (pushes : List Push) :
    (pushAll U call pushes).inviteAttempts = remembered (pushes.map (Push.attempt U)) := by
  induction pushes using List.reverseRecOn with
  | nil => exact h
  | append_singleton pushes p ih =>
      rw [pushAll, List.foldl_concat]
      change remember (pushAll U call pushes).inviteAttempts (p.attempt U) = _
      rw [ih, remember_remembered, List.map_append]
      rfl

section Classify

variable {call : B2buaCall} {older : List InviteAttempt} {live : InviteAttempt}

theorem classify_live (h : call.inviteAttempts = older ++ [live]) (hbranch : live.branch ≠ none)
    (cseq : UInt32) : classifyInviteResponse call live.branch cseq = .current := by
  simp only [classifyInviteResponse, h, List.getLast?_concat, hbranch, ne_eq, not_false_eq_true,
    and_self, decide_true, if_true]

theorem classify_older (h : call.inviteAttempts = older ++ [live]) {a : InviteAttempt} (ha : a ∈ older)
    (hbranch : a.branch ≠ none) (hlive : live.branch ≠ a.branch)
    (hnodup : (older.map (·.branch)).Nodup) (cseq : UInt32) :
    classifyInviteResponse call a.branch cseq = .stale (some a) := by
  have hfind : (older.reverse.find? fun b => decide (a.branch ≠ none ∧ b.branch = a.branch)) =
      some a := by
    -- no other remembered attempt has this branch
    obtain ⟨b, hb⟩ : ∃ b, (older.reverse.find? fun b =>
        decide (a.branch ≠ none ∧ b.branch = a.branch)) = some b := by
      rw [← Option.isSome_iff_exists, List.find?_isSome]
      exact ⟨a, List.mem_reverse.mpr ha, by simpa using hbranch⟩
    have hsame := List.find?_some hb
    have hmem := List.mem_reverse.mp (List.mem_of_find?_eq_some hb)
    rw [decide_eq_true_eq] at hsame
    rw [hb, List.inj_on_of_nodup_map hnodup hmem ha hsame.2]
  simp only [classifyInviteResponse, h, List.getLast?_concat, hlive, and_false, decide_false,
    Bool.false_eq_true, if_false, List.reverse_append, List.reverse_singleton, List.singleton_append,
    List.drop_succ_cons, List.drop_zero, hfind]

/-- A branch that no remembered attempt has is taken for the live one's when
the number is the same. -/
theorem classify_forgotten (h : call.inviteAttempts = older ++ [live]) {branch : Option (List Char)}
    (hbranch : branch ≠ none) (hlive : live.branch ≠ none)
    (hforgotten : ∀ a ∈ older ++ [live], a.branch ≠ branch) (cseq : UInt32) :
    (cseq = live.cseq → classifyInviteResponse call branch cseq = .current) ∧
    (cseq ≠ live.cseq → ∃ a, classifyInviteResponse call branch cseq = .stale a) := by
  have hfind : (older.reverse.find? fun b => decide (branch ≠ none ∧ b.branch = branch)) = none := by
    rw [List.find?_eq_none]
    intro a ha hsame
    rw [decide_eq_true_eq] at hsame
    exact hforgotten a (List.mem_append_left _ (List.mem_reverse.mp ha)) hsame.2
  simp only [classifyInviteResponse, h, List.getLast?_concat,
    hforgotten live (List.mem_append_right _ (List.mem_singleton_self _)), and_false, decide_false,
    Bool.false_eq_true, if_false, List.reverse_append, List.reverse_singleton, List.singleton_append,
    List.drop_succ_cons, List.drop_zero, hfind]
  constructor
  · rintro rfl
    rw [if_neg (UInt32.lt_irrefl _), if_pos ⟨hbranch, hlive, rfl⟩]
  · intro hne
    split
    next => exact ⟨none, rfl⟩
    next hle =>
      rw [if_neg fun hc => hne hc.2.2, if_pos (UInt32.lt_of_le_of_ne (UInt32.not_lt.mp hle) hne)]
      exact ⟨_, rfl⟩

end Classify

/-- A response to an attempt, with the attempts pushed after it, is read right:
it is current exactly when there is none, it is attributed to its attempt when
that is remembered, and is stale in any case when it is not. -/
def Attributed (later : List InviteAttempt) (a : InviteAttempt) (c : InviteResponseClass) : Prop :=
  (c = .current ↔ later = []) ∧
  (later ≠ [] → later.length < maxInviteAttempts → c = .stale (some a)) ∧
  (maxInviteAttempts ≤ later.length → ∃ b, c = .stale b)

/-- The remembered attempts besides the live one. -/
def superseded (attempts : List InviteAttempt) : List InviteAttempt :=
  attempts.drop (attempts.length + 1 - maxInviteAttempts)

theorem remembered_concat (attempts : List InviteAttempt) (live : InviteAttempt) :
    remembered (attempts ++ [live]) = superseded attempts ++ [live] := by
  rw [remembered, List.length_append, List.length_singleton,
    List.drop_append_of_le_length (by simp only [maxInviteAttempts]; omega), superseded]

theorem mem_superseded (before : List InviteAttempt) {later : List InviteAttempt} (a : InviteAttempt)
    (h : later.length + 1 < maxInviteAttempts) : a ∈ superseded (before ++ a :: later) := by
  have hle : (before ++ a :: later).length + 1 - maxInviteAttempts ≤ before.length := by
    rw [List.length_append, List.length_cons]
    omega
  rw [superseded, List.drop_append_of_le_length hle]
  simp

theorem superseded_suffix (before later : List InviteAttempt) (a : InviteAttempt)
    (h : maxInviteAttempts ≤ later.length + 1) :
    superseded (before ++ a :: later) <:+ later := by
  refine List.suffix_of_suffix_length_le (List.drop_suffix _ _) ⟨before ++ [a], by simp⟩ ?_
  rw [superseded, List.length_drop, List.length_append, List.length_cons]
  omega

theorem branch_ne_of_mem_later {before later : List InviteAttempt} {a b : InviteAttempt}
    (hdistinct : ((before ++ a :: later).map (·.branch)).Nodup) (hb : b ∈ later) :
    b.branch ≠ a.branch := by
  intro heq
  rw [List.map_append, List.map_cons] at hdistinct
  have hcons := (List.nodup_append.mp hdistinct).2.1
  exact (List.nodup_cons.mp hcons).1 (heq ▸ List.mem_map_of_mem hb)

theorem attributed_iff {call : B2buaCall} {before later : List InviteAttempt} {a : InviteAttempt}
    (h : call.inviteAttempts = remembered (before ++ a :: later))
    (hbranch : ∀ b ∈ before ++ a :: later, b.branch ≠ none)
    (hdistinct : ((before ++ a :: later).map (·.branch)).Nodup) :
    Attributed later a (classifyInviteResponse call a.branch a.cseq) ↔
      (later.length < maxInviteAttempts ∨ ∀ b ∈ later.getLast?, a.cseq ≠ b.cseq) := by
  have ha : a.branch ≠ none := hbranch a (by simp)
  rcases List.eq_nil_or_concat later with rfl | ⟨front, live, rfl⟩
  · -- the live attempt itself
    rw [remembered_concat] at h
    rw [classify_live h ha]
    simp [Attributed, maxInviteAttempts]
  · rw [List.concat_eq_append] at *
    have hlive : live.branch ≠ none := hbranch live (by simp)
    have hother {b : InviteAttempt} : b ∈ front ++ [live] → b.branch ≠ a.branch :=
      branch_ne_of_mem_later hdistinct
    have hsplit : before ++ a :: (front ++ [live]) = (before ++ a :: front) ++ [live] := by simp
    rw [hsplit, remembered_concat] at h
    rw [hsplit, List.map_append] at hdistinct
    simp only [List.getLast?_concat, Option.mem_some_iff, forall_eq', List.length_append,
      List.length_singleton]
    by_cases hshort : front.length + 1 < maxInviteAttempts
    · -- remembered, under its own branch
      rw [classify_older h (mem_superseded before a hshort) ha (hother (by simp))
        ((List.nodup_append.mp hdistinct).1.sublist ((List.drop_sublist _ _).map _))]
      simp [Attributed, hshort]
    · -- forgotten: the number decides
      have hsuffix := superseded_suffix before front a (Nat.le_of_not_lt hshort)
      have hforgotten : ∀ b ∈ superseded (before ++ a :: front) ++ [live], b.branch ≠ a.branch := by
        intro b hb
        rcases List.mem_append.mp hb with hb | hb
        · exact hother (List.mem_append_left _ (hsuffix.mem hb))
        · exact hother (List.mem_append_right _ hb)
      obtain ⟨hsame, hdiffer⟩ := classify_forgotten h ha hlive hforgotten a.cseq
      by_cases hcseq : a.cseq = live.cseq
      · rw [hsame hcseq]
        simp [Attributed, hshort, hcseq]
      · obtain ⟨b, hb⟩ := hdiffer hcseq
        rw [hb]
        simp [Attributed, hshort, hcseq]

/-- Of any number of attempts with distinct branches, exactly the responses to
a forgotten attempt with the number of the live one are read wrong. -/
theorem response_attributed_iff (U : Lowering) (call : B2buaCall) (hnew : call.inviteAttempts = [])
    (before later : List Push) (p : Push)
    (hbranch : ∀ q ∈ before ++ p :: later, (q.attempt U).branch ≠ none)
    (hdistinct : ((before ++ p :: later).map fun q => (q.attempt U).branch).Nodup) :
    Attributed (later.map (Push.attempt U)) (p.attempt U)
        (classifyInviteResponse (pushAll U call (before ++ p :: later)) (p.attempt U).branch
          (p.attempt U).cseq) ↔
      (later.length < maxInviteAttempts ∨
        ∀ q ∈ later.getLast?, (p.attempt U).cseq ≠ (q.attempt U).cseq) := by
  have hattempts := pushAll_inviteAttempts U call hnew (before ++ p :: later)
  rw [List.map_append, List.map_cons] at hattempts
  rw [attributed_iff hattempts, List.length_map, List.getLast?_map]
  · simp only [Option.mem_def, Option.map_eq_some_iff, forall_exists_index, and_imp,
      forall_apply_eq_imp_iff₂]
  · rw [← List.map_cons, ← List.map_append]
    exact List.forall_mem_map.mpr hbranch
  · rw [← List.map_cons, ← List.map_append, List.map_map]
    exact hdistinct

def sampleCall : B2buaCall :=
  .new "c0ffee".toList "a@b".toList "t".toList (NetAddr.ofOctets 192 0 2 1 5060) .udp

/-- An INVITE with this branch and this number. -/
def samplePush (branch cseq : Char) : Push where
  now := 0
  raw := "INVITE sip:b SIP/2.0\r\nVia: SIP/2.0/UDP s;branch=".toList ++
    branch :: "\r\nCSeq: ".toList ++ cseq :: " INVITE\r\n\r\n".toList
  dest := NetAddr.ofOctets 192 0 2 2 5060
  transport := .udp
  trunkId := none

theorem response_attributed_retry :
    Attributed [(samplePush 'b' '2').attempt asciiOnly] ((samplePush 'a' '1').attempt asciiOnly)
      (classifyInviteResponse (pushAll asciiOnly sampleCall [samplePush 'a' '1', samplePush 'b' '2'])
        (some ['a']) 1) :=
  (response_attributed_iff asciiOnly sampleCall rfl [] [samplePush 'b' '2'] (samplePush 'a' '1')
    (by decide) (by decide)).mpr (.inl (by decide))

/-- Nine INVITEs of one number, with distinct branches. -/
def failovers : List Push :=
  "abcdefghi".toList.map fun branch => samplePush branch '1'

/-- Eight failovers keep the number of the INVITE; the late answer of the first
attempt, forgotten by then, passes for one of the last. -/
theorem forgotten_attempt_read_as_current :
    (failovers.map fun q => (q.attempt asciiOnly).branch).Nodup ∧
    failovers.head?.map (fun q => ((q.attempt asciiOnly).branch, (q.attempt asciiOnly).cseq)) =
      some (some ['a'], 1) ∧
    classifyInviteResponse (pushAll asciiOnly sampleCall failovers) (some ['a']) 1 =
      .current := by
  decide

end NixiSbc.InviteAttempts
