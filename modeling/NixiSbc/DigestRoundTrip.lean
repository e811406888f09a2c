import NixiSbc.Digest
import NixiSbc.TextLines

namespace NixiSbc.DigestRoundTrip

open TextScan TextFields TextLines KeyedTable Digest

section Parameters

variable {key value : List Char}

/-- A word that names a field. -/
def isName (key : List Char) : Bool := key ≠ [] && key.all fun c => !isWhiteSpace c && c != '='

theorem trim_wrapped {a z : Char} (ha : isWhiteSpace a = false) (hz : isWhiteSpace z = false)
    (text : List Char) : trim (a :: text ++ [z]) = a :: text ++ [z] := by
  apply trim_eq_self
  · intro c hc
    obtain rfl := Option.some.inj hc
    exact ha
  · intro c hc
    rw [List.getLast?_concat] at hc
    obtain rfl := Option.some.inj hc
    exact hz

theorem parameter_space (part : List Char) : parameter (' ' :: part) = parameter part := by
  have htrim : trim (' ' :: part) = trim part := by
    rw [trim, trim, trimStart, trimStart, List.dropWhile_cons_of_pos (by decide)]
  rw [parameter, parameter, htrim]

/-- A field printed with quotes is read as it was, whatever else it holds. -/
theorem parameter_quoted (hkey : isName key = true) (hvalue : '"' ∉ value) :
    parameter (quoted key value) = some (key, value) := by
  rw [isName, Bool.and_eq_true, List.all_eq_true] at hkey
  obtain ⟨hne, hplain⟩ := hkey
  have hblank : ∀ c ∈ key, isWhiteSpace c = false := by
    intro c hc
    have hp := hplain c hc
    rw [Bool.and_eq_true, Bool.not_eq_true'] at hp
    exact hp.1
  have hsep : '=' ∉ key := by
    intro hmem
    have hp := hplain '=' hmem
    rw [Bool.and_eq_true] at hp
    cases hp.2
  have hkeytrim : trim key = key :=
    trim_eq_self (fun c hc => hblank c (List.mem_of_mem_head? hc))
      (fun c hc => hblank c (List.mem_of_mem_getLast? hc))
  have hwhole : trim (quoted key value) = quoted key value := by
    cases key with
    | nil => cases hne
    | cons a rest =>
        have hform : quoted (a :: rest) value = a :: (rest ++ '=' :: '"' :: value) ++ ['"'] := by
          simp [quoted]
        rw [hform]
        exact trim_wrapped (hblank a List.mem_cons_self) (by decide) _
  have hsplit : splitOnce '=' (quoted key value) = some (key, '"' :: value ++ ['"']) := by
    rw [quoted, List.append_assoc]
    exact splitOnce_append hsep _
  rw [parameter, hwhole, hsplit, Option.map_some, hkeytrim, trim_wrapped (by decide) (by decide),
    trimMatches_wrapped hvalue]

/-- What is read of a header has no comma. -/
theorem not_comma_of_mem_parameters {text : List Char} {p : List Char × List Char}
    (h : p ∈ parameters text) : ',' ∉ p.2 := by
  obtain ⟨part, hpart, hp⟩ := List.mem_filterMap.mp h
  obtain ⟨q, hq, rfl⟩ := Option.map_eq_some_iff.mp hp
  intro hmem
  have hsplit := mem_of_splitOnce hq (mem_of_mem_trim (mem_of_mem_trimMatches hmem))
  exact not_mem_of_mem_splitOn hpart (mem_of_mem_trim hsplit)

theorem parameters_cons {part : List Char} (h : ',' ∉ part) (rest : List Char) :
    parameters (part ++ ',' :: rest) = (parameter part).toList ++ parameters rest := by
  rw [parameters, List.splitOn_append_cons_self_of_not_mem h, List.filterMap_cons]
  cases parameter part with
  | none => rfl
  | some p => rfl

theorem parameters_last {part : List Char} (h : ',' ∉ part) : parameters part = (parameter part).toList := by
  rw [parameters, List.splitOn_eq_singleton h, List.filterMap_cons]
  cases parameter part with
  | none => rfl
  | some p => rfl

theorem parameters_space (text : List Char) : parameters (' ' :: text) = parameters text := by
  rw [parameters, parameters, List.splitOn_cons_eq_if_modifyHead, if_neg (by decide)]
  cases hs : text.splitOn ',' with
  | nil => rfl
  | cons first more => rw [List.modifyHead_cons, List.filterMap_cons, List.filterMap_cons, parameter_space]

/-- A name without a comma, as those of the fields of a header. -/
def isField (key : List Char) : Bool := isName key && key.all (· != ',')

theorem not_comma_quoted (hkey : isField key = true) (hcomma : ',' ∉ value) : ',' ∉ quoted key value := by
  rw [isField, Bool.and_eq_true] at hkey
  have hplain : ',' ∉ key := by
    intro hmem
    have hne := List.all_eq_true.mp hkey.2 ',' hmem
    cases hne
  simp [quoted, hplain, hcomma]

theorem parameters_quoted_cons (hkey : isField key = true) (hvalue : '"' ∉ value) (hcomma : ',' ∉ value)
    (rest : List Char) :
    parameters (quoted key value ++ ',' :: rest) = (key, value) :: parameters rest := by
  have hname : isName key = true := by
    rw [isField, Bool.and_eq_true] at hkey
    exact hkey.1
  rw [parameters_cons (not_comma_quoted hkey hcomma), parameter_quoted hname hvalue]
  rfl

theorem parameters_quoted (hkey : isField key = true) (hvalue : '"' ∉ value) (hcomma : ',' ∉ value) :
    parameters (quoted key value) = [(key, value)] := by
  have hname : isName key = true := by
    rw [isField, Bool.and_eq_true] at hkey
    exact hkey.1
  rw [parameters_last (not_comma_quoted hkey hcomma), parameter_quoted hname hvalue]
  rfl

/-- A header that ends in a quoted field is read without its first word. -/
theorem stripPrefix_header {text front : List Char} (htext : text = front ++ quoted key value) :
    stripPrefix "Digest ".toList (trim ("Digest ".toList ++ text)) = some text := by
  have hform : "Digest ".toList ++ text =
      'D' :: ("igest ".toList ++ (front ++ (key ++ '=' :: '"' :: value))) ++ ['"'] := by
    rw [htext, quoted]
    simp only [List.cons_append, List.append_assoc]
    rfl
  have htrim : trim ("Digest ".toList ++ text) = "Digest ".toList ++ text := by
    rw [hform]
    exact trim_wrapped (by decide) (by decide) _
  rw [htrim]
  exact stripPrefix_append _ _

end Parameters

section Hex

theorem digitChar_plain : ∀ d : Nat, d.digitChar ≠ ',' ∧ d.digitChar ≠ '"'
  | 0 | 1 | 2 | 3 | 4 | 5 | 6 | 7 | 8 | 9 | 10 | 11 | 12 | 13 | 14 | 15 => by decide
  | _ + 16 => by simp [Nat.digitChar]

/-- Neither a comma nor a quote. -/
def Plain (text : List Char) : Prop := ',' ∉ text ∧ '"' ∉ text

theorem plain_append {text more : List Char} (h : Plain text) (h' : Plain more) : Plain (text ++ more) :=
  ⟨fun hmem => (List.mem_append.mp hmem).elim h.1 h'.1,
    fun hmem => (List.mem_append.mp hmem).elim h.2 h'.2⟩

theorem plain_showHex (width n : Nat) : Plain (showHex width n) := by
  constructor
  · intro hmem
    obtain ⟨d, hd⟩ := mem_showHex hmem
    exact (digitChar_plain d).1 hd.symm
  · intro hmem
    obtain ⟨d, hd⟩ := mem_showHex hmem
    exact (digitChar_plain d).2 hd.symm

theorem plain_md5Hex (D : Md5) (text : List Char) : Plain (md5Hex D text) :=
  plain_append (plain_append (plain_append (plain_showHex _ _) (plain_showHex _ _)) (plain_showHex _ _))
    (plain_showHex _ _)

theorem md5Hex_ne_nil (D : Md5) (text : List Char) : md5Hex D text ≠ [] :=
  List.append_ne_nil_of_right_ne_nil _ (showHex_ne_nil (by decide) _)

theorem plain_generateNonce (bytes : Vector UInt8 16) : Plain (generateNonce bytes) := by
  constructor
  · intro hmem
    obtain ⟨b, -, hb⟩ := List.mem_flatMap.mp hmem
    exact (plain_showHex 2 b.toNat).1 hb
  · intro hmem
    obtain ⟨b, -, hb⟩ := List.mem_flatMap.mp hmem
    exact (plain_showHex 2 b.toNat).2 hb

theorem generateNonce_ne_nil (bytes : Vector UInt8 16) : generateNonce bytes ≠ [] := by
  intro hnil
  rw [generateNonce, List.flatMap_eq_nil_iff] at hnil
  have hmem : bytes[0] ∈ bytes.toList := Vector.mem_toList_iff.mpr (Vector.getElem_mem _)
  exact showHex_ne_nil (by decide) _ (hnil bytes[0] hmem)

end Hex

section Challenges

variable {a : DigestAuthenticator} {created now : Nat} {bytes : Vector UInt8 16}

/-- The challenge as it was issued. -/
def issuedChallenge (a : DigestAuthenticator) (bytes : Vector UInt8 16) : DigestChallenge :=
  ⟨a.realm, generateNonce bytes, "MD5".toList, some "auth".toList, none⟩

def challengeText (a : DigestAuthenticator) (bytes : Vector UInt8 16) : List Char :=
  quoted "realm".toList a.realm ++ ',' :: ' ' :: (quoted "nonce".toList (generateNonce bytes) ++
    ',' :: ' ' :: ("algorithm=MD5".toList ++ ',' :: ' ' :: quoted "qop".toList "auth".toList))

theorem generateChallenge_text (a : DigestAuthenticator) (created now : Nat) (bytes : Vector UInt8 16) :
    (generateChallenge a created now bytes).1 = "Digest ".toList ++ challengeText a bytes := by
  have hcomma : ", ".toList = [',', ' '] := rfl
  have hmd5 : ", algorithm=MD5, ".toList = ',' :: ' ' :: ("algorithm=MD5".toList ++ [',', ' ']) := rfl
  unfold generateChallenge generateChallengeWith challengeText
  dsimp only
  rw [if_neg Bool.false_ne_true, hcomma, hmd5, List.append_nil]
  simp only [List.append_assoc, List.cons_append, List.nil_append]

theorem parameters_challengeText (hquote : '"' ∉ a.realm) (hcomma : ',' ∉ a.realm) :
    parameters (challengeText a bytes) =
      [("realm".toList, a.realm), ("nonce".toList, generateNonce bytes),
        ("algorithm".toList, "MD5".toList), ("qop".toList, "auth".toList)] := by
  have hnonce := plain_generateNonce bytes
  rw [challengeText, parameters_quoted_cons (by decide) hquote hcomma, parameters_space,
    parameters_quoted_cons (by decide) hnonce.2 hnonce.1, parameters_space]
  rfl

/-- The client reads the challenge as it was issued. -/
theorem fromHeader_generateChallenge (hne : a.realm ≠ []) (hquote : '"' ∉ a.realm)
    (hcomma : ',' ∉ a.realm) :
    DigestChallenge.fromHeader (generateChallenge a created now bytes).1 =
      .ok (issuedChallenge a bytes) := by
  have hlast : ∃ front, challengeText a bytes = front ++ quoted "qop".toList "auth".toList := by
    refine ⟨quoted "realm".toList a.realm ++ ',' :: ' ' :: (quoted "nonce".toList (generateNonce bytes) ++
      ',' :: ' ' :: ("algorithm=MD5".toList ++ [',', ' '])), ?_⟩
    rw [challengeText]
    simp only [List.append_assoc, List.cons_append, List.nil_append]
  obtain ⟨front, hlast⟩ := hlast
  have hfold : (parameters (challengeText a bytes)).foldl DigestChallenge.set
      ⟨[], [], "MD5".toList, none, none⟩ = issuedChallenge a bytes := by
    rw [parameters_challengeText hquote hcomma]
    rfl
  have hcomplete : ¬ ((issuedChallenge a bytes).realm = [] ∨ (issuedChallenge a bytes).nonce = []) :=
    not_or.mpr ⟨hne, generateNonce_ne_nil bytes⟩
  rw [generateChallenge_text, DigestChallenge.fromHeader, stripPrefix_header hlast]
  dsimp only
  rw [hfold, if_neg hcomplete]

end Challenges

section Responses

variable {D : Md5} {a : DigestAuthenticator} {bytes : Vector UInt8 16}
  {username password method uri : List Char} {cnonce : UInt32}

/-- The response that answers the challenge as it was issued. -/
def issuedResponse (D : Md5) (a : DigestAuthenticator) (bytes : Vector UInt8 16)
    (username password method uri : List Char) (cnonce : UInt32) : List Char :=
  computeResponseAuth D (computeHa1 D username a.realm password) (generateNonce bytes)
    "00000001".toList (showHex 8 cnonce.toNat) (computeHa2 D method uri)

def issuedCredentials (D : Md5) (a : DigestAuthenticator) (bytes : Vector UInt8 16)
    (username password method uri : List Char) (cnonce : UInt32) : DigestCredentials where
  username
  realm := a.realm
  nonce := generateNonce bytes
  uri
  response := issuedResponse D a bytes username password method uri cnonce
  algorithm := "MD5".toList
  qop := some "auth".toList
  nc := some "00000001".toList
  cnonce := some (showHex 8 cnonce.toNat)

def responseText (realm nonce username uri response cnonce : List Char) : List Char :=
  quoted "username".toList username ++ ',' :: ' ' :: (quoted "realm".toList realm ++ ',' :: ' ' ::
    (quoted "nonce".toList nonce ++ ',' :: ' ' :: (quoted "uri".toList uri ++ ',' :: ' ' ::
      (quoted "response".toList response ++ ',' :: ' ' :: ("algorithm=MD5".toList ++ ',' :: ' ' ::
        ("qop=auth".toList ++ ',' :: ' ' :: ("nc=00000001".toList ++ ',' :: ' ' ::
          quoted "cnonce".toList cnonce)))))))

theorem answer_issuedChallenge :
    answer D username password (issuedChallenge a bytes) method uri cnonce =
      (issuedResponse D a bytes username password method uri cnonce,
        some ("00000001".toList, showHex 8 cnonce.toNat)) := by
  have hqop : ((issuedChallenge a bytes).qop.any fun qop => decide ("auth".toList <:+: qop)) = true :=
    decide_eq_true (List.infix_refl "auth".toList)
  rw [answer]
  dsimp only
  rw [if_pos hqop]
  rfl

theorem generateDigestResponse_text :
    generateDigestResponse D username password (issuedChallenge a bytes) method uri cnonce =
      "Digest ".toList ++ responseText a.realm (generateNonce bytes) username uri
        (issuedResponse D a bytes username password method uri cnonce) (showHex 8 cnonce.toNat) := by
  have hcomma : ", ".toList = [',', ' '] := rfl
  have hmd5 : ", algorithm=".toList = ',' :: ' ' :: "algorithm=".toList := rfl
  have hmd5' : "algorithm=MD5".toList = "algorithm=".toList ++ "MD5".toList := rfl
  have hqop : ", qop=auth, nc=".toList = ',' :: ' ' :: ("qop=auth".toList ++ ',' :: ' ' :: "nc=".toList) := rfl
  have hnc : "nc=00000001".toList = "nc=".toList ++ "00000001".toList := rfl
  unfold generateDigestResponse responseText
  rw [answer_issuedChallenge]
  dsimp only [issuedChallenge]
  rw [hcomma, hmd5, hmd5', hqop, hnc, List.append_nil]
  simp only [List.append_assoc, List.cons_append, List.nil_append]

variable {realm nonce response cnonceText : List Char}

theorem parameters_responseText (husername : Plain username) (hrealm : Plain realm) (hnonce : Plain nonce)
    (huri : Plain uri) (hresponse : Plain response) (hcnonce : Plain cnonceText) :
    parameters (responseText realm nonce username uri response cnonceText) =
      [("username".toList, username), ("realm".toList, realm), ("nonce".toList, nonce),
        ("uri".toList, uri), ("response".toList, response), ("algorithm".toList, "MD5".toList),
        ("qop".toList, "auth".toList), ("nc".toList, "00000001".toList),
        ("cnonce".toList, cnonceText)] := by
  have hliterals : parameters ("algorithm=MD5".toList ++ ',' :: ' ' :: ("qop=auth".toList ++ ',' :: ' ' ::
      ("nc=00000001".toList ++ ',' :: ' ' :: quoted "cnonce".toList cnonceText))) =
      [("algorithm".toList, "MD5".toList), ("qop".toList, "auth".toList),
        ("nc".toList, "00000001".toList), ("cnonce".toList, cnonceText)] := by
    rw [parameters_cons (by decide), parameters_space, parameters_cons (by decide), parameters_space,
      parameters_cons (by decide), parameters_space, parameters_quoted (by decide) hcnonce.2 hcnonce.1]
    rfl
  rw [responseText, parameters_quoted_cons (by decide) husername.2 husername.1, parameters_space,
    parameters_quoted_cons (by decide) hrealm.2 hrealm.1, parameters_space,
    parameters_quoted_cons (by decide) hnonce.2 hnonce.1, parameters_space,
    parameters_quoted_cons (by decide) huri.2 huri.1, parameters_space,
    parameters_quoted_cons (by decide) hresponse.2 hresponse.1, parameters_space, hliterals]

/-- The server reads the response as the client meant it. -/
theorem fromHeader_generateDigestResponse (husername : Plain username) (hne : username ≠ [])
    (hrealm : Plain a.realm) (hrealmne : a.realm ≠ []) (huri : Plain uri) :
    DigestCredentials.fromHeader
        (generateDigestResponse D username password (issuedChallenge a bytes) method uri cnonce) =
      .ok (issuedCredentials D a bytes username password method uri cnonce) := by
  have hresponse : Plain (issuedResponse D a bytes username password method uri cnonce) := plain_md5Hex D _
  have hlast : ∃ front, responseText a.realm (generateNonce bytes) username uri
      (issuedResponse D a bytes username password method uri cnonce) (showHex 8 cnonce.toNat) =
      front ++ quoted "cnonce".toList (showHex 8 cnonce.toNat) := by
    rw [responseText]
    simp only [← List.append_assoc, ← List.cons_append]
    exact ⟨_, (List.append_assoc _ [',', ' '] _).symm⟩
  obtain ⟨front, hlast⟩ := hlast
  have hparams := parameters_responseText husername hrealm (plain_generateNonce bytes) huri hresponse
    (plain_showHex 8 cnonce.toNat)
  have hfold : (parameters (responseText a.realm (generateNonce bytes) username uri
      (issuedResponse D a bytes username password method uri cnonce) (showHex 8 cnonce.toNat))).foldl
        DigestCredentials.set ⟨[], [], [], [], [], "MD5".toList, none, none, none⟩ =
      issuedCredentials D a bytes username password method uri cnonce := by
    rw [hparams]
    rfl
  rw [generateDigestResponse_text, DigestCredentials.fromHeader, stripPrefix_header hlast]
  dsimp only
  rw [hfold, if_neg]
  rintro (hnil | hnil | hnil | hnil)
  · exact hne hnil
  · exact hrealmne hnil
  · exact generateNonce_ne_nil bytes hnil
  · exact md5Hex_ne_nil D _ hnil

end Responses

section Readings

theorem field_ite {σ : Type} {P : Prop} [Decidable P] {f : σ → List Char} {a b : σ}
    {x y : List Char} (ha : f a = x ∨ f a = y) (hb : f b = x ∨ f b = y) :
    f (if P then a else b) = x ∨ f (if P then a else b) = y := by
  split
  · exact ha
  · exact hb

theorem set_realm (c : DigestChallenge) (p : List Char × List Char) :
    (c.set p).realm = c.realm ∨ (c.set p).realm = p.2 := by
  unfold DigestChallenge.set
  repeat' apply field_ite (f := DigestChallenge.realm)
  all_goals first | exact .inl rfl | exact .inr rfl

theorem set_username (c : DigestCredentials) (p : List Char × List Char) :
    (c.set p).username = c.username ∨ (c.set p).username = p.2 := by
  unfold DigestCredentials.set
  repeat' apply field_ite (f := DigestCredentials.username)
  all_goals first | exact .inl rfl | exact .inr rfl

theorem set_uri (c : DigestCredentials) (p : List Char × List Char) :
    (c.set p).uri = c.uri ∨ (c.set p).uri = p.2 := by
  unfold DigestCredentials.set
  repeat' apply field_ite (f := DigestCredentials.uri)
  all_goals first | exact .inl rfl | exact .inr rfl

/-- A field that starts without a comma never gets one from a header. -/
theorem not_comma_fold {σ : Type} {set : σ → List Char × List Char → σ} {field : σ → List Char}
    (hset : ∀ c p, field (set c p) = field c ∨ field (set c p) = p.2) {c : σ} (hc : ',' ∉ field c)
    (text : List Char) : ',' ∉ field ((parameters text).foldl set c) := by
  apply List.foldlRecOn (motive := fun c => ',' ∉ field c) _ _ hc
  intro c hc p hp
  rcases hset c p with hsame | hnew
  · rw [hsame]
    exact hc
  · rw [hnew]
    exact not_comma_of_mem_parameters hp

/-- The realm of a challenge that was read is not empty and has no comma. -/
theorem DigestChallenge.read {text : List Char} {challenge : DigestChallenge}
    (h : DigestChallenge.fromHeader text = .ok challenge) :
    challenge.realm ≠ [] ∧ ',' ∉ challenge.realm := by
  rw [DigestChallenge.fromHeader] at h
  split at h
  next => cases h
  next value _ =>
    dsimp only at h
    split at h
    next => cases h
    next hcomplete =>
      obtain rfl := Except.ok.inj h
      exact ⟨(not_or.mp hcomplete).1, not_comma_fold set_realm List.not_mem_nil value⟩

/-- The name in credentials that were read is not empty and has no comma, nor has the URI. -/
theorem DigestCredentials.read {text : List Char} {creds : DigestCredentials}
    (h : DigestCredentials.fromHeader text = .ok creds) :
    creds.username ≠ [] ∧ ',' ∉ creds.username ∧ ',' ∉ creds.uri := by
  rw [DigestCredentials.fromHeader] at h
  split at h
  next => cases h
  next value _ =>
    dsimp only at h
    split at h
    next => cases h
    next hcomplete =>
      obtain rfl := Except.ok.inj h
      exact ⟨(not_or.mp hcomplete).1, not_comma_fold set_username List.not_mem_nil value,
        not_comma_fold set_uri List.not_mem_nil value⟩

end Readings

/-- A challenge, the request that answers it, and when it comes. -/
structure Exchange where
  created : Nat
  now : Nat
  later : Nat
  bytes : Vector UInt8 16
  username : List Char
  password : List Char
  method : List Char
  uri : List Char
  cnonce : UInt32

section

variable (D : Md5) (a : DigestAuthenticator) (x : Exchange)

/-- What the authenticator says to the answer to its own challenge, if there is one. -/
def handshake : Option (Except AuthFailure (List Char)) :=
  match DigestChallenge.fromHeader (generateChallenge a x.created x.now x.bytes).1 with
  | .error _ => none
  | .ok challenge =>
      some (verify D (generateChallenge a x.created x.now x.bytes).2 x.later
        (generateDigestResponse D x.username x.password challenge x.method x.uri x.cnonce) x.method).1

/-- Every field is recovered, and the user is let in. -/
structure Agrees : Prop where
  challenge : DigestChallenge.fromHeader (generateChallenge a x.created x.now x.bytes).1 =
    .ok (issuedChallenge a x.bytes)
  credentials : DigestCredentials.fromHeader (generateDigestResponse D x.username x.password
      (issuedChallenge a x.bytes) x.method x.uri x.cnonce) =
    .ok (issuedCredentials D a x.bytes x.username x.password x.method x.uri x.cnonce)
  accepted : handshake D a x = some (.ok x.username)

end

/-- The user is let in once every field is recovered. -/
theorem handshake_accepted {D : Md5} {a : DigestAuthenticator} {x : Exchange}
    (huser : a.users.lookup x.username = some (computeHa1 D x.username a.realm x.password))
    (htime : x.later - x.created ≤ a.nonceTtl)
    (hchallenge : DigestChallenge.fromHeader (generateChallenge a x.created x.now x.bytes).1 =
      .ok (issuedChallenge a x.bytes))
    (hcreds : DigestCredentials.fromHeader (generateDigestResponse D x.username x.password
        (issuedChallenge a x.bytes) x.method x.uri x.cnonce) =
      .ok (issuedCredentials D a x.bytes x.username x.password x.method x.uri x.cnonce)) :
    handshake D a x = some (.ok x.username) := by
  have hrecord : (generateChallenge a x.created x.now x.bytes).2.nonces.lookup (generateNonce x.bytes) =
      some ⟨x.created, 0, 0, none⟩ := AList.lookup_insert _
  have hok : digestOk D (generateChallenge a x.created x.now x.bytes).2 x.method
      (issuedCredentials D a x.bytes x.username x.password x.method x.uri x.cnonce) = true := by
    refine digestOk_of_expected huser ?_
    rw [expected]
    exact if_pos (decide_eq_true rfl)
  have huse : useNonce ⟨x.created, 0, 0, none⟩
      (issuedCredentials D a x.bytes x.username x.password x.method x.uri x.cnonce) none =
      .ok ⟨x.created, 1, 1, none⟩ := by
    have hcount : (issuedCredentials D a x.bytes x.username x.password x.method x.uri x.cnonce).count =
        some 1 := by
      change parseHexU32 (trim "00000001".toList) = some 1
      decide
    have hqop : (issuedCredentials D a x.bytes x.username x.password x.method x.uri x.cnonce).qopAuth =
        true := decide_eq_true rfl
    rw [useNonce, if_pos hqop, hcount]
    rfl
  have hverify := verifyWith_accepted hcreds hrecord (decide_eq_true htime) hok huse
  simp only [handshake, hchallenge, verify]
  rw [hverify]
  rfl

/-- The client and the server of one authenticator agree for exactly those names
that are not empty and have no comma, and for the URIs without a comma. -/
theorem client_and_server_agree_iff_no_comma (D : Md5) (a : DigestAuthenticator) (x : Exchange)
    (hrealm : '"' ∉ a.realm) (husername : '"' ∉ x.username) (huri : '"' ∉ x.uri)
    (huser : a.users.lookup x.username = some (computeHa1 D x.username a.realm x.password))
    (htime : x.later - x.created ≤ a.nonceTtl) :
    Agrees D a x ↔
      (a.realm ≠ [] ∧ ',' ∉ a.realm) ∧ (x.username ≠ [] ∧ ',' ∉ x.username) ∧ ',' ∉ x.uri := by
  constructor
  · intro h
    obtain ⟨hrealmne, hrealmcomma⟩ := DigestChallenge.read h.challenge
    obtain ⟨hne, hcomma, huricomma⟩ := DigestCredentials.read h.credentials
    exact ⟨⟨hrealmne, hrealmcomma⟩, ⟨hne, hcomma⟩, huricomma⟩
  · rintro ⟨⟨hrealmne, hrealmcomma⟩, ⟨hne, hcomma⟩, huricomma⟩
    have hchallenge : DigestChallenge.fromHeader (generateChallenge a x.created x.now x.bytes).1 =
        .ok (issuedChallenge a x.bytes) := fromHeader_generateChallenge hrealmne hrealm hrealmcomma
    have hcreds : DigestCredentials.fromHeader (generateDigestResponse D x.username x.password
          (issuedChallenge a x.bytes) x.method x.uri x.cnonce) =
        .ok (issuedCredentials D a x.bytes x.username x.password x.method x.uri x.cnonce) :=
      fromHeader_generateDigestResponse ⟨hcomma, husername⟩ hne ⟨hrealmcomma, hrealm⟩ hrealmne
        ⟨huricomma, huri⟩
    exact ⟨hchallenge, hcreds, handshake_accepted huser htime hchallenge hcreds⟩

def knowing (realm username password : List Char) : DigestAuthenticator :=
  .new anyHash realm ((∅ : Table (List Char) (List Char)).insert username password)

def attempt (username uri : List Char) : Exchange :=
  ⟨0, 0, 5, Vector.replicate 16 1, username, ['p'], "INVITE".toList, uri, 7⟩

/-- Spaces and equals signs do no harm. -/
theorem client_and_server_agree_spaces :
    Agrees anyHash (knowing " the = realm".toList "a b".toList ['p'])
      (attempt "a b".toList "sip:b@c;x=1".toList) :=
  (client_and_server_agree_iff_no_comma anyHash _ _ (by decide) (by decide) (by decide) (by decide)
    (by decide)).mpr (by decide)

/-- A user with a comma in the name is unknown. -/
theorem client_and_server_disagree_comma :
    '"' ∉ "a,b".toList ∧ handshake anyHash (knowing ['r'] "a,b".toList ['p'])
      (attempt "a,b".toList "sip:b@c".toList) ≠ some (.ok "a,b".toList) := by
  decide

end NixiSbc.DigestRoundTrip
