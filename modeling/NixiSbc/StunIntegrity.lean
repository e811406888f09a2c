import NixiSbc.Stun

namespace NixiSbc.StunIntegrity

open ByteWords Utf8 Stun

inductive StunReject
  | notARequest
  | noIntegrity
  | badIntegrity
  | noUsername
  | badFingerprint
  deriving DecidableEq

def crcShift (crc : UInt32) : UInt32 :=
  if crc &&& 1 ≠ 0 then (crc >>> 1) ^^^ 0xEDB88320 else crc >>> 1

def crcEntry (i : UInt32) : UInt32 :=
  crcShift (crcShift (crcShift (crcShift (crcShift (crcShift (crcShift (crcShift i)))))))

def crc32Stun (data : Bytes) : UInt32 :=
  let step := fun (crc : UInt32) (byte : UInt8) =>
    (crc >>> 8) ^^^ crcEntry ((crc ^^^ byte.toUInt32) &&& 0xFF)
  data.foldl step 0xFFFFFFFF ^^^ 0xFFFFFFFF

example : crc32Stun (encode "123456789".toList) = 0xCBF43926 := by decide

structure Seen where
  offset : Nat
  attrType : UInt16
  attrLen : Nat
  deriving DecidableEq

def isUsername (a : Seen) : Bool := a.attrType = 0x0006

def isIntegrity (a : Seen) : Bool := a.attrType = 0x0008 ∧ a.attrLen = 20

def isFingerprint (a : Seen) : Bool := a.attrType = 0x8028 ∧ a.attrLen = 4

/-- What the walk keeps: the first MESSAGE-INTEGRITY, the first FINGERPRINT, and
whether there was a USERNAME. -/
structure Scan where
  integrity : Option (Nat × Bytes) := none
  fingerprint : Option (Nat × UInt32) := none
  hasUsername : Bool := false

def macAt (data : Bytes) (offset : Nat) : Bytes := (data.drop (offset + 4)).take 20

def scanAttribute (data : Bytes) (s : Scan) (a : Seen) : Scan :=
  if isUsername a then { s with hasUsername := true }
  else if isIntegrity a then
    { s with integrity := s.integrity <|> some (a.offset, macAt data a.offset) }
  else if isFingerprint a then
    { s with fingerprint := s.fingerprint <|> some (a.offset, u32At data (a.offset + 4)) }
  else s

/-- The walk. An attribute that reaches past the end spoils the datagram. -/
def walk (data : Bytes) (stop offset : Nat) (s : Scan) : Option Scan :=
  if offset + 4 ≤ stop then
    let a : Seen := ⟨offset, u16At data offset, (u16At data (offset + 2)).toNat⟩
    if offset + 4 + a.attrLen > stop then none
    else walk data stop (offset + 4 + padded a.attrLen) (scanAttribute data s a)
  else some s
termination_by stop - offset

def isRequest (data : Bytes) : Prop :=
  20 ≤ data.length ∧ u16At data 0 = StunMessageType.bindingRequest.toU16 ∧ u32At data 4 = stunMagicCookie

instance (data : Bytes) : Decidable (isRequest data) := inferInstanceAs (Decidable (_ ∧ _))

/-- Where the declared message ends, at the latest with the datagram. -/
def messageEnd (data : Bytes) : Nat := min (20 + (u16At data 2).toNat) data.length

/-- The authenticated text: everything before MESSAGE-INTEGRITY, with a length
field that ends behind it. -/
def covered (data : Bytes) (miAt : Nat) : Bytes :=
  let lengthWithMi := UInt16.ofNat (miAt - 20 + 24)
  ((data.take miAt).set 2 (lengthWithMi >>> 8).toUInt8).set 3 (lengthWithMi &&& 0xFF).toUInt8

def fingerprintMask : UInt32 := 0x5354554E

def validateBindingRequest (hmacSha1 : Bytes → Bytes → Vector UInt8 20) (data : Bytes)
    (localIcePwd : List Char) : Except StunReject Unit :=
  if ¬isRequest data then .error .notARequest
  else
    match walk data (messageEnd data) 20 {} with
    | none => .error .notARequest
    | some scan =>
        if scan.fingerprint.any fun f => crc32Stun (data.take f.1) ^^^ fingerprintMask ≠ f.2 then
          .error .badFingerprint
        else
          match scan.integrity with
          | none => .error .noIntegrity
          | some (miAt, claimed) =>
              if scan.hasUsername = false then .error .noUsername
              else if (hmacSha1 (encode localIcePwd) (covered data miAt)).toList = claimed then .ok ()
              else .error .badIntegrity

/-- The attributes from an offset on, when they are well formed. -/
def visited (data : Bytes) (stop offset : Nat) : Option (List Seen) :=
  if offset + 4 ≤ stop then
    let a : Seen := ⟨offset, u16At data offset, (u16At data (offset + 2)).toNat⟩
    if offset + 4 + a.attrLen > stop then none
    else (visited data stop (offset + 4 + padded a.attrLen)).map (a :: ·)
  else some []
termination_by stop - offset

theorem walk_eq (data : Bytes) (stop offset : Nat) (s : Scan) :
    walk data stop offset s = (visited data stop offset).map (List.foldl (scanAttribute data) s) := by
  fun_induction walk data stop offset s with
  | case1 offset s hmore a hlong =>
      rw [visited, if_pos hmore, if_pos hlong]
      rfl
  | case2 offset s hmore a hshort ih =>
      rw [visited, if_pos hmore, if_neg hshort, ih, Option.map_map]
      rfl
  | case3 offset s hend =>
      rw [visited, if_neg hend]
      rfl

theorem scan_eq (data : Bytes) (attrs : List Seen) (s : Scan) :
    attrs.foldl (scanAttribute data) s =
      { integrity := s.integrity <|>
          (attrs.find? isIntegrity).map fun a => (a.offset, macAt data a.offset)
        fingerprint := s.fingerprint <|>
          (attrs.find? isFingerprint).map fun a => (a.offset, u32At data (a.offset + 4))
        hasUsername := s.hasUsername || attrs.any isUsername } := by
  induction attrs generalizing s with
  | nil => simp
  | cons a attrs ih =>
      rw [List.foldl_cons, ih, scanAttribute]
      by_cases hu : isUsername a = true
      · have hi : isIntegrity a = false := by
          simp only [isUsername, decide_eq_true_eq] at hu
          simp [isIntegrity, hu]
        have hf : isFingerprint a = false := by
          simp only [isUsername, decide_eq_true_eq] at hu
          simp [isFingerprint, hu]
        simp [hu, hi, hf]
      · by_cases hi : isIntegrity a = true
        · have hf : isFingerprint a = false := by
            simp only [isIntegrity, decide_eq_true_eq] at hi
            simp [isFingerprint, hi.1]
          cases s.integrity <;> simp [hu, hi, hf]
        · by_cases hf : isFingerprint a = true
          · cases s.fingerprint <;> simp [hu, hi, hf]
          · simp [hu, hi, hf]

theorem visited_cons {d : Bytes} {stop offset : Nat} {a : Seen} {rest : List Seen} :
    visited d stop offset = some (a :: rest) ↔
      a = ⟨offset, u16At d offset, (u16At d (offset + 2)).toNat⟩ ∧ offset + 4 + a.attrLen ≤ stop ∧
      visited d stop (offset + 4 + padded a.attrLen) = some rest := by
  rw [visited]
  by_cases hmore : offset + 4 ≤ stop
  · by_cases hlong : offset + 4 + (u16At d (offset + 2)).toNat > stop
    · simp only [hmore, hlong, if_true, reduceCtorEq, false_iff]
      rintro ⟨rfl, hle, -⟩
      exact absurd hlong (Nat.not_lt.mpr hle)
    · simp only [hmore, hlong, if_true, if_false, Option.map_eq_some_iff, List.cons.injEq]
      constructor
      · rintro ⟨rest, hrest, rfl, rfl⟩
        exact ⟨rfl, Nat.not_lt.mp hlong, hrest⟩
      · rintro ⟨rfl, -, hrest⟩
        exact ⟨rest, hrest, rfl, rfl⟩
  · simp only [hmore, if_false, Option.some.injEq, reduceCtorEq, false_iff]
    rintro ⟨-, hle, -⟩
    omega

theorem visited_end {d : Bytes} {stop offset : Nat} (h : stop < offset + 4) :
    visited d stop offset = some [] := by
  rw [visited, if_neg (by omega)]

theorem le_padded (n : Nat) : n ≤ padded n := by
  rw [padded]
  omega

theorem visited_offset {d : Bytes} {stop offset : Nat} {front trail : List Seen} {mi : Seen}
    (h : visited d stop offset = some (front ++ mi :: trail)) :
    offset ≤ mi.offset ∧ mi.offset + 4 + mi.attrLen ≤ stop := by
  induction front generalizing offset with
  | nil =>
      obtain ⟨hmi, hle, -⟩ := visited_cons.mp h
      rw [hmi] at hle ⊢
      exact ⟨Nat.le_refl _, hle⟩
  | cons a front ih =>
      obtain ⟨-, -, hrest⟩ := visited_cons.mp h
      obtain ⟨hle, hstop⟩ := ih hrest
      exact ⟨by omega, hstop⟩

/-- Two datagrams that agree on the first `n` bytes but for the length field. -/
def Agree (d d' : Bytes) (n : Nat) : Prop := ∀ i < n, i ≠ 2 → i ≠ 3 → d[i]? = d'[i]?

theorem Agree.byteAt {d d' : Bytes} {n i : Nat} (h : Agree d d' n) (hi : i < n) (h2 : i ≠ 2)
    (h3 : i ≠ 3) : byteAt d i = byteAt d' i :=
  byteAt_congr (h i hi h2 h3)

theorem Agree.u16At {d d' : Bytes} {n i : Nat} (h : Agree d d' n) (hi : i + 1 < n) (h4 : 4 ≤ i ∨ i = 0) :
    u16At d i = u16At d' i := by
  rw [ByteWords.u16At, ByteWords.u16At, h.byteAt (by omega) (by omega) (by omega),
    h.byteAt hi (by omega) (by omega)]

theorem Agree.u32At {d d' : Bytes} {n i : Nat} (h : Agree d d' n) (hi : i + 3 < n) (h4 : 4 ≤ i) :
    u32At d i = u32At d' i := by
  rw [ByteWords.u32At, ByteWords.u32At, h.byteAt (by omega) (by omega) (by omega),
    h.byteAt (i := i + 1) (by omega) (by omega) (by omega),
    h.byteAt (i := i + 2) (by omega) (by omega) (by omega), h.byteAt hi (by omega) (by omega)]

theorem seen_agree {d d' : Bytes} {n offset : Nat} (h : Agree d d' n) (h4 : 4 ≤ offset)
    (hn : offset + 4 ≤ n) :
    (⟨offset, u16At d offset, (u16At d (offset + 2)).toNat⟩ : Seen) =
      ⟨offset, u16At d' offset, (u16At d' (offset + 2)).toNat⟩ := by
  rw [h.u16At (by omega) (.inl h4), h.u16At (i := offset + 2) (by omega) (.inl (by omega))]

theorem Agree.mono {d d' : Bytes} {n m : Nat} (h : Agree d d' n) (hm : m ≤ n) : Agree d d' m :=
  fun i hi => h i (by omega)

/-- The walk up to an attribute reads only what comes before its end. -/
theorem visited_agree {d d' : Bytes} {stop stop' offset : Nat} {front trail trail' : List Seen} {mi : Seen}
    (hoffset : 4 ≤ offset) (h : visited d stop offset = some (front ++ mi :: trail))
    (hagree : Agree d d' (mi.offset + 4)) (hstop : mi.offset + 4 + mi.attrLen ≤ stop')
    (htrail : visited d' stop' (mi.offset + 4 + padded mi.attrLen) = some trail') :
    visited d' stop' offset = some (front ++ mi :: trail') := by
  induction front generalizing offset with
  | nil =>
      obtain ⟨hmi, -, -⟩ := visited_cons.mp h
      have hat : mi.offset = offset := by rw [hmi]
      rw [hat] at hagree hstop htrail
      refine visited_cons.mpr ⟨?_, hstop, htrail⟩
      exact hmi.trans (seen_agree hagree hoffset (by omega))
  | cons a front ih =>
      obtain ⟨ha, -, hrest⟩ := visited_cons.mp h
      have hle := (visited_offset hrest).1
      have hpad := le_padded a.attrLen
      refine visited_cons.mpr ⟨?_, by omega, ih (by omega) hrest⟩
      exact ha.trans (seen_agree hagree hoffset (by omega))

theorem covered_agree {d d' : Bytes} {n : Nat} (h : Agree d d' n) (hd : n ≤ d.length)
    (hd' : n ≤ d'.length) : covered d n = covered d' n := by
  apply List.ext_getElem?
  intro i
  simp only [covered, List.getElem?_set, List.length_set, List.length_take, List.getElem?_take]
  rw [Nat.min_eq_left hd, Nat.min_eq_left hd']
  by_cases h3 : 3 = i
  · simp only [h3, if_true]
  · by_cases h2 : 2 = i
    · simp only [h2, h3, if_true, if_false]
    · by_cases hi : i < n
      · simp only [h2, h3, hi, if_false, if_true]
        exact h i hi (Ne.symm h2) (Ne.symm h3)
      · simp only [h2, h3, hi, if_false]

theorem macAt_agree {d d' : Bytes} {n : Nat} (h : Agree d d' (n + 24)) : macAt d n = macAt d' n := by
  apply List.ext_getElem?
  intro i
  simp only [macAt, List.getElem?_take, List.getElem?_drop]
  by_cases hi : i < 20
  · rw [if_pos hi, if_pos hi, h _ (by omega) (by omega) (by omega)]
  · rw [if_neg hi, if_neg hi]

theorem isRequest_agree {d d' : Bytes} {n : Nat} (h : Agree d d' n) (hn : 20 ≤ n) (hd : n ≤ d.length)
    (hd' : n ≤ d'.length) : isRequest d ↔ isRequest d' := by
  rw [isRequest, isRequest, h.u16At (by omega) (.inr rfl), h.u32At (by omega) (Nat.le_refl 4)]
  exact and_congr_left fun _ => ⟨fun _ => by omega, fun _ => by omega⟩

/-- A FINGERPRINT among the attributes, if there is one, fits the bytes before it. -/
def fingerprintFits (data : Bytes) (attrs : List Seen) : Bool :=
  (attrs.find? isFingerprint).all fun f =>
    crc32Stun (data.take f.offset) ^^^ fingerprintMask = u32At data (f.offset + 4)

def verdict (fits named verified : Bool) : Except StunReject Unit :=
  if fits = false then .error .badFingerprint
  else if named = false then .error .noUsername
  else if verified then .ok ()
  else .error .badIntegrity

theorem verdict_ok {fits named verified : Bool} (h : verdict fits named verified = .ok ()) :
    verified = true := by
  revert h
  cases fits <;> cases named <;> cases verified <;> simp [verdict]

/-- Two datagrams part ways at the FINGERPRINT or at the USERNAME, never at the HMAC. -/
theorem verdict_eq_iff (fits fits' before after after' verified : Bool) :
    (verdict fits (before || after) verified = verdict fits' (before || after') verified ∧
      (verdict fits (before || after) verified = .ok () ∨
        verdict fits (before || after) verified = .error .badIntegrity → before = true)) ↔
    (fits = fits' ∧ (fits = true → before = true ∨ after = false ∧ after' = false)) := by
  cases before with
  | true => cases fits <;> cases fits' <;> cases verified <;> simp [verdict]
  | false =>
      cases fits <;> cases fits' <;> cases after <;> cases after' <;> cases verified <;> simp [verdict]

/-- The result for a datagram with its first MESSAGE-INTEGRITY between two runs
of attributes. -/
theorem validate_eq (hmacSha1 : Bytes → Bytes → Vector UInt8 20) (pwd : List Char) {d : Bytes}
    {front trail : List Seen} {mi : Seen}
    (hvisited : visited d (messageEnd d) 20 = some (front ++ mi :: trail)) (hmi : isIntegrity mi = true)
    (hfirst : ∀ a ∈ front, isIntegrity a = false) (htrail : ∀ a ∈ trail, isFingerprint a = false) :
    validateBindingRequest hmacSha1 d pwd =
      if ¬isRequest d then .error .notARequest
      else
        verdict (fingerprintFits d front) (front.any isUsername || trail.any isUsername)
          ((hmacSha1 (encode pwd) (covered d mi.offset)).toList = macAt d mi.offset) := by
  have hboth := hmi
  simp only [isIntegrity, decide_eq_true_eq] at hboth
  have hname : isUsername mi = false := by simp [isUsername, hboth.1]
  have hprint : isFingerprint mi = false := by simp [isFingerprint, hboth.1]
  have hfindMi : (front ++ mi :: trail).find? isIntegrity = some mi := by
    rw [List.find?_append, List.find?_eq_none.mpr (by simpa using hfirst), Option.none_or,
      List.find?_cons_of_pos hmi]
  have hfindFp : (front ++ mi :: trail).find? isFingerprint = front.find? isFingerprint := by
    have hnone : trail.find? isFingerprint = none := List.find?_eq_none.mpr (by simpa using htrail)
    rw [List.find?_append, List.find?_cons_of_neg (by simp [hprint]), hnone, Option.or_none]
  have hany : (front ++ mi :: trail).any isUsername =
      (front.any isUsername || trail.any isUsername) := by
    rw [List.any_append, List.any_cons, hname, Bool.false_or]
  rw [validateBindingRequest, walk_eq, hvisited, Option.map_some, scan_eq, hfindMi, hfindFp, hany]
  by_cases hreq : isRequest d
  · have hfits : ((front.find? isFingerprint).map fun a => (a.offset, u32At d (a.offset + 4))).any
        (fun f => crc32Stun (d.take f.1) ^^^ fingerprintMask ≠ f.2) = !fingerprintFits d front := by
      rw [fingerprintFits]
      cases front.find? isFingerprint <;> simp
    simp only [hreq, not_true_eq_false, if_false, Option.orElse_eq_orElse, Option.orElse_eq_or,
      Option.none_or, Option.map_some, hfits, Bool.false_or, Bool.not_eq_true', verdict,
      decide_eq_true_eq]
  · simp only [hreq, not_false_eq_true, if_true]

theorem covered_length (d : Bytes) (n : Nat) : (covered d n).length = min n d.length := by
  simp [covered]

theorem covered_keeps (d : Bytes) (n : Nat) : Agree (covered d n) d n := by
  intro i hi h2 h3
  simp only [covered, List.getElem?_set, List.getElem?_take, Ne.symm h2, Ne.symm h3, hi, if_true, if_false]

theorem halves_toNat (w : UInt16) :
    (w >>> 8).toUInt8.toNat * 256 + (w &&& 0xFF).toUInt8.toNat = w.toNat := by
  have hw := w.toNat_lt
  have hlow : w.toNat &&& 255 = w.toNat % 256 := Nat.and_two_pow_sub_one_eq_mod w.toNat 8
  simp only [UInt16.toNat_toUInt8, UInt16.toNat_shiftRight, UInt16.toNat_and, UInt16.reduceToNat,
    Nat.shiftRight_eq_div_pow, Nat.reduceMod, Nat.reducePow, hlow] at hw ⊢
  omega

theorem covered_ends {d : Bytes} {n : Nat} (hn : 20 ≤ n) (hd : n + 24 ≤ messageEnd d) :
    20 + (u16At (covered d n) 2).toNat = n + 24 := by
  have hlt := (u16At d 2).toNat_lt
  rw [messageEnd] at hd
  have hhigh : byteAt (covered d n) 2 = (UInt16.ofNat (n - 20 + 24) >>> 8).toUInt8 := by
    simp only [byteAt, covered, List.getD_eq_getElem?_getD, List.getElem?_set, List.length_take]
    rw [if_neg (by omega), if_pos trivial, if_pos (by omega), Option.getD_some]
  have hlow : byteAt (covered d n) 3 = (UInt16.ofNat (n - 20 + 24) &&& 0xFF).toUInt8 := by
    simp only [byteAt, covered, List.getD_eq_getElem?_getD, List.getElem?_set, List.length_take,
      List.length_set]
    rw [if_pos trivial, if_pos (by omega), Option.getD_some]
  have hread : u16At (covered d n) 2 = UInt16.ofNat (n - 20 + 24) := by
    rw [u16At, hhigh, hlow]
    simp only [beNat, List.length_cons, List.length_nil, pow_one, pow_zero, mul_one, add_zero, zero_add]
    rw [halves_toNat, UInt16.ofNat_toNat]
  rw [hread, UInt16.toNat_ofNat', Nat.mod_eq_of_lt (by omega)]
  omega

/-- The datagram is a run of attributes, the first MESSAGE-INTEGRITY of 24 bytes,
and attributes after it with no FINGERPRINT. -/
structure Splits (d : Bytes) (front : List Seen) (mi : Seen) (trail : List Seen) : Prop where
  visited_eq : visited d (messageEnd d) 20 = some (front ++ mi :: trail)
  integrity : isIntegrity mi = true
  first : ∀ a ∈ front, isIntegrity a = false
  unmarked : ∀ a ∈ trail, isFingerprint a = false

section

variable (hmacSha1 : Bytes → Bytes → Vector UInt8 20) (pwd : List Char) {d d' : Bytes}
  {front trail trail' : List Seen} {mi : Seen}

theorem Splits.size (h : Splits d front mi trail) :
    20 ≤ mi.offset ∧ mi.offset + 24 ≤ messageEnd d ∧ mi.offset + 4 + padded mi.attrLen = mi.offset + 24 := by
  have hmi := h.integrity
  simp only [isIntegrity, decide_eq_true_eq] at hmi
  obtain ⟨hle, hstop⟩ := visited_offset h.visited_eq
  rw [hmi.2] at hstop ⊢
  exact ⟨hle, by omega, rfl⟩

theorem Splits.agree (h : Splits d front mi trail) (hagree : Agree d d' (mi.offset + 24))
    (hstop : mi.offset + 24 ≤ messageEnd d')
    (htrail : visited d' (messageEnd d') (mi.offset + 24) = some trail')
    (hunmarked : ∀ a ∈ trail', isFingerprint a = false) : Splits d' front mi trail' := by
  have hmi := h.integrity
  simp only [isIntegrity, decide_eq_true_eq] at hmi
  refine ⟨visited_agree (by omega) h.visited_eq (hagree.mono (by omega)) ?_ ?_, h.integrity, h.first,
    hunmarked⟩
  · rw [hmi.2]
    omega
  · rw [h.size.2.2]
    exact htrail

/-- Of two datagrams that agree up to their first MESSAGE-INTEGRITY the request
check thinks the same, and demands a USERNAME there, exactly when no USERNAME
behind it is needed and a FINGERPRINT in front of it (which covers the length
field) decides the same for both. -/
theorem trusts_authenticated_bytes_iff (h : Splits d front mi trail)
    (hagree : Agree d d' (mi.offset + 24)) (hstop : mi.offset + 24 ≤ messageEnd d')
    (htrail : visited d' (messageEnd d') (mi.offset + 24) = some trail')
    (hunmarked : ∀ a ∈ trail', isFingerprint a = false) :
    (validateBindingRequest hmacSha1 d pwd = validateBindingRequest hmacSha1 d' pwd ∧
      (validateBindingRequest hmacSha1 d pwd = .ok () ∨
        validateBindingRequest hmacSha1 d pwd = .error .badIntegrity → front.any isUsername = true) ∧
      (validateBindingRequest hmacSha1 d pwd = .ok () →
        ∃ text : Bytes, text.length = mi.offset ∧ Agree text d mi.offset ∧
          20 + (u16At text 2).toNat = mi.offset + 24 ∧
          (hmacSha1 (encode pwd) text).toList = macAt d mi.offset)) ↔
    (isRequest d →
      fingerprintFits d front = fingerprintFits d' front ∧
      (fingerprintFits d front = true →
        front.any isUsername = true ∨ trail.any isUsername = false ∧ trail'.any isUsername = false)) := by
  obtain ⟨hoffset, hend, -⟩ := h.size
  have hd : mi.offset + 24 ≤ d.length := hend.trans (Nat.min_le_right _ _)
  have hd' : mi.offset + 24 ≤ d'.length := hstop.trans (Nat.min_le_right _ _)
  have h' := h.agree hagree hstop htrail hunmarked
  have hvalid := validate_eq hmacSha1 pwd h.visited_eq h.integrity h.first h.unmarked
  have hvalid' := validate_eq hmacSha1 pwd h'.visited_eq h'.integrity h'.first h'.unmarked
  have hreq' := isRequest_agree hagree (by omega) hd hd'
  rw [← covered_agree (hagree.mono (by omega)) (by omega) (by omega), ← macAt_agree hagree] at hvalid'
  have htext : (hmacSha1 (encode pwd) (covered d mi.offset)).toList = macAt d mi.offset →
      ∃ text : Bytes, text.length = mi.offset ∧ Agree text d mi.offset ∧
        20 + (u16At text 2).toNat = mi.offset + 24 ∧
        (hmacSha1 (encode pwd) text).toList = macAt d mi.offset := by
    intro hmac
    refine ⟨covered d mi.offset, ?_, covered_keeps d _, covered_ends hoffset hend, hmac⟩
    rw [covered_length, Nat.min_eq_left (by omega)]
  rw [hvalid, hvalid']
  by_cases hreq : isRequest d
  · rw [if_neg (not_not.mpr hreq), if_neg (not_not.mpr (hreq'.mp hreq)), ← and_assoc, verdict_eq_iff]
    rw [forall_prop_of_true hreq]
    exact and_iff_left fun hok => htext (of_decide_eq_true (verdict_ok hok))
  · rw [if_pos hreq, if_pos (mt hreq'.mpr hreq)]
    exact ⟨fun _ hr => absurd hr hreq, fun _ => ⟨rfl, fun h => by simp at h, fun h => by simp at h⟩⟩

end

def requestHeader (length : UInt8) : Bytes := [0, 1, 0, length, 0x21, 0x12, 0xA4, 0x42] ++ List.replicate 12 0

def usernameBytes : Bytes := attributeBytes 0x0006 (encode ['a', ':', 'b'])

/-- The HMACs under the password `pw` of a header with a USERNAME behind it, and
of a header alone. -/
def namedMac : Vector UInt8 20 :=
  ⟨#[67, 237, 17, 120, 226, 161, 95, 64, 29, 51, 209, 158, 122, 49, 134, 17, 166, 58, 229, 142], rfl⟩

def bareMac : Vector UInt8 20 :=
  ⟨#[87, 148, 131, 247, 137, 77, 40, 148, 57, 71, 149, 12, 51, 74, 183, 143, 166, 193, 128, 217], rfl⟩

def integrityBytes (mac : Vector UInt8 20) : Bytes := attributeBytes 0x0008 mac.toList

def namedRequest : Bytes := requestHeader 32 ++ usernameBytes ++ integrityBytes namedMac

def namedRequestMore : Bytes :=
  requestHeader 36 ++ usernameBytes ++ integrityBytes namedMac ++ attributeBytes 0x8022 []

theorem namedRequest_splits : Splits namedRequest [⟨20, 6, 3⟩] ⟨28, 8, 20⟩ [] where
  visited_eq := by
    refine visited_cons.mpr ⟨by decide, by decide, visited_cons.mpr ⟨by decide, by decide, ?_⟩⟩
    exact visited_end (by decide)
  integrity := by decide
  first := by decide
  unmarked := by decide

theorem trusts_authenticated_bytes_named :
    validateBindingRequest (fun _ _ => namedMac) namedRequest ['p', 'w'] =
      validateBindingRequest (fun _ _ => namedMac) namedRequestMore ['p', 'w'] := by
  have hagree : Agree namedRequest namedRequestMore (28 + 24) := by
    unfold Agree
    decide
  have htrail : visited namedRequestMore (messageEnd namedRequestMore) (28 + 24) = some [⟨52, 0x8022, 0⟩] :=
    visited_cons.mpr ⟨by decide, by decide, visited_end (by decide)⟩
  refine ((trusts_authenticated_bytes_iff (fun _ _ => namedMac) ['p', 'w'] namedRequest_splits hagree
    (by decide) htrail (by decide)).mpr fun _ => ⟨by decide, fun _ => .inl (by decide)⟩).1

def bareRequest : Bytes := requestHeader 24 ++ integrityBytes bareMac

def bareRequestNamedLater : Bytes := requestHeader 32 ++ integrityBytes bareMac ++ usernameBytes

theorem bareRequest_splits : Splits bareRequest [] ⟨20, 8, 20⟩ [] where
  visited_eq := visited_cons.mpr ⟨by decide, by decide, visited_end (by decide)⟩
  integrity := by decide
  first := by decide
  unmarked := by decide

theorem bareRequestNamedLater_splits : Splits bareRequestNamedLater [] ⟨20, 8, 20⟩ [⟨44, 6, 3⟩] where
  visited_eq := by
    refine visited_cons.mpr ⟨by decide, by decide, visited_cons.mpr ⟨by decide, by decide, ?_⟩⟩
    exact visited_end (by decide)
  integrity := by decide
  first := by decide
  unmarked := by decide

/-- A USERNAME appended behind MESSAGE-INTEGRITY gets a request accepted. -/
theorem trusts_username_behind_integrity :
    Splits bareRequestNamedLater [] ⟨20, 8, 20⟩ [⟨44, 6, 3⟩] ∧ Splits bareRequest [] ⟨20, 8, 20⟩ [] ∧
    Agree bareRequestNamedLater bareRequest (20 + 24) ∧
    validateBindingRequest (fun _ _ => bareMac) bareRequestNamedLater ['p', 'w'] = .ok () ∧
    validateBindingRequest (fun _ _ => bareMac) bareRequest ['p', 'w'] = .error .noUsername := by
  refine ⟨bareRequestNamedLater_splits, bareRequest_splits, ?_, ?_, ?_⟩
  · unfold Agree
    decide
  · have h := bareRequestNamedLater_splits
    rw [validate_eq _ _ h.visited_eq h.integrity h.first h.unmarked, if_neg (by decide)]
    decide
  · have h := bareRequest_splits
    rw [validate_eq _ _ h.visited_eq h.integrity h.first h.unmarked, if_neg (by decide)]
    decide

end NixiSbc.StunIntegrity
