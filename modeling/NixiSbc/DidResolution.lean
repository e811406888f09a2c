import NixiSbc.Hydration

namespace NixiSbc.DidResolution

open TextFields
open Hydration (DidMapping)

section FirstMatch

variable {α β : Type} {p : α → Bool} {f : α → β} {l l' : List α}

theorem find?_map_eq (h : ∀ a ∈ l, ∀ b ∈ l, p a = true → p b = true → f a = f b) {a : α} (ha : a ∈ l)
    (hp : p a = true) : (l.find? p).map f = some (f a) := by
  obtain ⟨b, hb⟩ : ∃ b, l.find? p = some b := Option.isSome_iff_exists.mp (List.find?_isSome.mpr ⟨a, ha, hp⟩)
  rw [hb, Option.map_some, h b (List.mem_of_find?_eq_some hb) a ha (List.find?_some hb) hp]

/-- What is read off the first match does not depend on the order exactly when
all matches agree on it. -/
theorem find?_perm_iff : (∀ l' : List α, l'.Perm l → (l'.find? p).map f = (l.find? p).map f) ↔
    ∀ a ∈ l, ∀ b ∈ l, p a = true → p b = true → f a = f b := by
  constructor
  · intro h
    have hfirst {a : α} (ha : a ∈ l) (hp : p a = true) : (l.find? p).map f = some (f a) := by
      obtain ⟨front, back, rfl⟩ := List.append_of_mem ha
      rw [← h (a :: (front ++ back)) List.perm_middle.symm, List.find?_cons_of_pos hp, Option.map_some]
    intro a ha b hb hpa hpb
    exact Option.some.inj ((hfirst ha hpa).symm.trans (hfirst hb hpb))
  · intro h l' hperm
    cases hfind : l.find? p with
    | none =>
        rw [List.find?_eq_none.mpr fun a ha => List.find?_eq_none.mp hfind a (hperm.mem_iff.mp ha)]
    | some a =>
        have hagree : ∀ a ∈ l', ∀ b ∈ l', p a = true → p b = true → f a = f b :=
          fun a ha b hb => h a (hperm.mem_iff.mp ha) b (hperm.mem_iff.mp hb)
        exact find?_map_eq hagree (hperm.mem_iff.mpr (List.mem_of_find?_eq_some hfind)) (List.find?_some hfind)

end FirstMatch

def trimZeros (number : List Char) : List Char := number.dropWhile (· = '0')

def french (number : List Char) : List Char := "+33".toList ++ trimZeros number

/-- As it is, without the zeros in front of it, or with the country code in their place. -/
def matchesNumber (calleeUser number : List Char) : Bool :=
  calleeUser = number ∨ calleeUser = trimZeros number ∨ calleeUser = french number ∨
    french calleeUser = french number

/-- The user part of an address, which is all of it without a scheme. -/
def calleeUser (aor : List Char) : List Char :=
  match stripPrefix "sip:".toList aor with
  | some rest => rest.takeWhile (· ≠ '@')
  | none => aor

def didMatch (dids : List DidMapping) (user : List Char) : Option DidMapping :=
  dids.find? fun did => matchesNumber user did.number

def mappedAor (realm user : List Char) : List Char := "sip:".toList ++ user ++ '@' :: realm

/-- The address that is looked up in the registrar, with whether a mapping gave it. -/
def mapCallee (dids : List DidMapping) (realm : List Char) : Option (List Char) → Option (List Char) × Bool
  | none => (none, false)
  | some aor =>
      match didMatch dids (calleeUser aor) with
      | some did => (some (mappedAor realm did.user), true)
      | none => (some aor, false)

/-- The numbers that a called one is taken for: those with the same digits after
their zeros, and those whose national form it is. -/
def Reaches (called number : List Char) : Prop := trimZeros called = trimZeros number ∨ called = french number

instance (called number : List Char) : Decidable (Reaches called number) := inferInstanceAs (Decidable (_ ∨ _))

section

variable {dids : List DidMapping} {realm aor called number : List Char}

theorem trimZeros_idem (number : List Char) : trimZeros (trimZeros number) = trimZeros number := by
  rw [trimZeros, trimZeros, List.dropWhile_idempotent]

theorem matchesNumber_iff : matchesNumber called number = true ↔ Reaches called number := by
  rw [matchesNumber, decide_eq_true_iff, Reaches]
  constructor
  · rintro (rfl | rfl | h | h)
    · exact .inl rfl
    · exact .inl (trimZeros_idem number)
    · exact .inr h
    · exact .inl (List.append_cancel_left h)
  · rintro (h | h)
    · exact .inr (.inr (.inr (congrArg ("+33".toList ++ ·) h)))
    · exact .inr (.inr (.inl h))

theorem mappedAor_inj {user user' : List Char} (h : mappedAor realm user = mappedAor realm user') : user = user' := by
  rw [mappedAor, mappedAor, List.append_assoc, List.append_assoc] at h
  exact List.append_cancel_right (List.append_cancel_left h)

/-- The mapping shows in the user alone. -/
theorem mapCallee_eq : mapCallee dids realm (some aor) =
    (((didMatch dids (calleeUser aor)).map (·.user)).elim (some aor) fun user => some (mappedAor realm user),
      (didMatch dids (calleeUser aor)).isSome) := by
  rw [mapCallee]
  cases didMatch dids (calleeUser aor) <;> rfl

theorem mapCallee_inj {dids dids' : List DidMapping} :
    mapCallee dids' realm (some aor) = mapCallee dids realm (some aor) ↔
      (didMatch dids' (calleeUser aor)).map (·.user) = (didMatch dids (calleeUser aor)).map (·.user) := by
  rw [mapCallee_eq, mapCallee_eq]
  cases didMatch dids' (calleeUser aor) with
  | none => cases didMatch dids (calleeUser aor) <;> simp
  | some did' =>
      cases didMatch dids (calleeUser aor) with
      | none => simp
      | some did =>
          constructor
          · intro h
            exact congrArg some (mappedAor_inj (Option.some.inj (congrArg Prod.fst h)))
          · intro h
            rw [h]
            rfl

/-- The mapping of exactly the called number is the one that counts. -/
def ExactFirst (dids : List DidMapping) (realm aor : List Char) : Prop :=
  ∀ did ∈ dids, did.number = calleeUser aor → mapCallee dids realm (some aor) = (some (mappedAor realm did.user), true)

def OrderFree (dids : List DidMapping) (realm aor : List Char) : Prop :=
  ∀ dids', dids'.Perm dids → mapCallee dids' realm (some aor) = mapCallee dids realm (some aor)

/-- Who is called depends on the called number alone exactly when the mappings
that it is taken for go to one user. -/
theorem did_resolution_iff (dids : List DidMapping) (realm aor : List Char) :
    ExactFirst dids realm aor ∧ OrderFree dids realm aor ↔
      ∀ a ∈ dids, ∀ b ∈ dids, Reaches (calleeUser aor) a.number → Reaches (calleeUser aor) b.number →
        a.user = b.user := by
  have hperm : OrderFree dids realm aor ↔ ∀ a ∈ dids, ∀ b ∈ dids, Reaches (calleeUser aor) a.number →
      Reaches (calleeUser aor) b.number → a.user = b.user := by
    simp only [OrderFree, mapCallee_inj, didMatch, find?_perm_iff, matchesNumber_iff]
  rw [hperm, and_iff_right_iff_imp]
  intro hagree did hdid hnumber
  have hagree' : ∀ a ∈ dids, ∀ b ∈ dids, matchesNumber (calleeUser aor) a.number = true →
      matchesNumber (calleeUser aor) b.number = true → a.user = b.user := by
    simpa only [matchesNumber_iff] using hagree
  have hself : matchesNumber (calleeUser aor) did.number = true :=
    matchesNumber_iff.mpr (.inl (congrArg trimZeros hnumber.symm))
  have hchosen : (didMatch dids (calleeUser aor)).map (·.user) = some did.user := find?_map_eq hagree' hdid hself
  rw [mapCallee_eq, hchosen, ← Option.isSome_map, hchosen]
  rfl

/-- A number that is another one without its zero. -/
theorem zero_takes_exact :
    ((⟨"0123".toList, "alice".toList, none⟩ : DidMapping).number ≠ "123".toList) ∧
      ¬ExactFirst [⟨"0123".toList, "alice".toList, none⟩, ⟨"123".toList, "bob".toList, none⟩] "h".toList
        "sip:123@h".toList ∧
      ¬OrderFree [⟨"0123".toList, "alice".toList, none⟩, ⟨"123".toList, "bob".toList, none⟩] "h".toList
        "sip:123@h".toList := by
  refine ⟨by decide, fun h => ?_, fun h => ?_⟩
  · exact absurd (h ⟨"123".toList, "bob".toList, none⟩ (by decide) (by decide)) (by decide)
  · exact absurd (h [⟨"123".toList, "bob".toList, none⟩, ⟨"0123".toList, "alice".toList, none⟩] (List.Perm.swap _ _ _))
      (by decide)

end

end NixiSbc.DidResolution
