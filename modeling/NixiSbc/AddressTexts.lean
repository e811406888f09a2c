import NixiSbc.NetAddr
import NixiSbc.TextWords

namespace NixiSbc.AddressTexts

open Stun TextFields TextWords NetAddr

section Digits

theorem hexDigit_digitChar : ∀ d < 16, (hexDigit? d.digitChar).getD 0 = d := by decide

theorem hexadecimal_toDigits (n : Nat) : hexadecimal (Nat.toDigits 16 n) = n := by
  induction n using Nat.strong_induction_on with
  | _ n ih =>
      rw [Nat.toDigits_eq_if (by decide)]
      split
      next hlt =>
        rw [hexadecimal, List.foldl_cons, List.foldl_nil, hexDigit_digitChar n hlt]
        omega
      next hle =>
        have hrest := ih (n / 16) (Nat.div_lt_self (by omega) (by decide))
        rw [hexadecimal] at hrest
        rw [hexadecimal, List.foldl_append, hrest, List.foldl_cons, List.foldl_nil,
          hexDigit_digitChar _ (Nat.mod_lt n (by decide))]
        omega

theorem toDigits_inj : Function.Injective (Nat.toDigits 16) :=
  Function.LeftInverse.injective hexadecimal_toDigits

theorem showNat_inj : Function.Injective showNat := Function.LeftInverse.injective decimal_showNat

/-- The digits are no punctuation. -/
theorem not_mem_toDigits {base : Nat} (hbase : 1 < base) {c : Char} (hc : ∀ d : Nat, c ≠ d.digitChar) (n : Nat) :
    c ∉ Nat.toDigits base n := by
  intro h
  obtain ⟨d, hd⟩ := mem_toDigits hbase h
  exact hc d hd

theorem colon_ne_digitChar : ∀ d : Nat, ':' ≠ d.digitChar
  | 0 | 1 | 2 | 3 | 4 | 5 | 6 | 7 | 8 | 9 | 10 | 11 | 12 | 13 | 14 | 15 => by decide
  | _ + 16 => by simp [Nat.digitChar]

theorem dot_ne_digitChar : ∀ d : Nat, '.' ≠ d.digitChar
  | 0 | 1 | 2 | 3 | 4 | 5 | 6 | 7 | 8 | 9 | 10 | 11 | 12 | 13 | 14 | 15 => by decide
  | _ + 16 => by simp [Nat.digitChar]

end Digits

section Octets

variable {octets octets' : List UInt8}

theorem splitOn_showV4 (h : octets ≠ []) :
    (showV4 octets).splitOn '.' = octets.map fun b => showNat b.toNat := by
  refine List.splitOn_intercalate '.' ?_ (by simpa using h)
  intro part hpart
  obtain ⟨b, -, rfl⟩ := List.mem_map.mp hpart
  exact not_mem_toDigits (by decide) dot_ne_digitChar _

theorem showV4_inj (h : octets ≠ []) (h' : octets' ≠ []) (heq : showV4 octets = showV4 octets') :
    octets = octets' := by
  have hmap := congrArg (List.splitOn '.') heq
  rw [splitOn_showV4 h, splitOn_showV4 h'] at hmap
  refine List.map_injective_iff.mpr ?_ hmap
  intro b b' hb
  exact UInt8.toNat_inj.mp (showNat_inj hb)

theorem colon_not_mem_showV4 : ':' ∉ showV4 octets := by
  intro h
  rcases mem_intercalate h with hsep | ⟨part, hpart, hc⟩
  · exact absurd hsep (by decide)
  · obtain ⟨b, -, rfl⟩ := List.mem_map.mp hpart
    exact not_mem_toDigits (by decide) colon_ne_digitChar _ hc

theorem dot_mem_showV4 {a b : UInt8} {rest : List UInt8} : '.' ∈ showV4 (a :: b :: rest) := by
  simp [showV4, List.intercalate_cons_cons]

theorem segments_inj : ∀ {octets octets' : List UInt8}, octets.length = octets'.length → octets.length % 2 = 0 →
    segments octets = segments octets' → octets = octets'
  | [], [], _, _, _ => rfl
  | [_], _, _, heven, _ => absurd heven (by simp)
  | a :: b :: rest, [a'], h, _, _ => by simp at h
  | a :: b :: rest, a' :: b' :: rest', h, heven, heq => by
      simp only [segments, List.cons.injEq] at heq
      have hb := b.toNat_lt
      have hb' := b'.toNat_lt
      have ha : a = a' := UInt8.toNat_inj.mp (by omega)
      have hbb : b = b' := UInt8.toNat_inj.mp (by omega)
      simp only [List.length_cons] at h heven
      have hrest : rest = rest' := segments_inj (by omega) (by omega) heq.2
      rw [ha, hbb, hrest]

theorem segments_length : ∀ octets : List UInt8, (segments octets).length = octets.length / 2
  | [] => rfl
  | [_] => by simp [segments]
  | _ :: _ :: rest => by
      simp only [segments, List.length_cons, segments_length rest]
      omega

theorem segments_drop : ∀ (n : Nat) (octets : List UInt8), segments (octets.drop (2 * n)) = (segments octets).drop n
  | 0, _ => rfl
  | n + 1, [] => by simp [segments]
  | n + 1, [_] => by simp [segments, Nat.mul_succ]
  | n + 1, _ :: _ :: rest => by
      rw [segments, List.drop_succ_cons, ← segments_drop n rest, Nat.mul_succ]
      rfl

end Octets

section Runs

variable {segs : List Nat}

/-- From `run.1` on there are `run.2` zeros. -/
def Zeros (segs : List Nat) (run : Nat × Nat) : Prop := ∀ k < run.2, segs[run.1 + k]? = some 0

/-- Both runs of the scan, the best one and the one that it is in, are zeros. -/
theorem longestZeros_zeros {rest : List Nat} {i start len : Nat} {best : Nat × Nat}
    (hrest : ∀ k, rest[k]? = segs[i + k]?) (hrun : Zeros segs (start, len)) (hend : len ≠ 0 → start + len = i)
    (hbest : Zeros segs best) : Zeros segs (longestZeros i start len best rest) := by
  induction rest generalizing i start len best with
  | nil => exact hbest
  | cons s rest ih =>
      have hnext : ∀ k, rest[k]? = segs[i + 1 + k]? := by
        intro k
        rw [Nat.add_right_comm, Nat.add_assoc, ← hrest, List.getElem?_cons_succ]
      have hhead : segs[i]? = some s := (hrest 0).symm
      cases s with
      | zero =>
          have hlonger : Zeros segs (if len = 0 then i else start, len + 1) := by
            intro k hk
            by_cases hlen : len = 0
            · have hk0 : k = 0 := by simpa [hlen] using hk
              simpa [hlen, hk0] using hhead
            · rw [if_neg hlen]
              by_cases hlast : k < len
              · exact hrun k hlast
              · have hkl : start + k = i := by
                  have hstart := hend hlen
                  simp only at hk
                  omega
                rw [hkl]
                exact hhead
          rw [longestZeros]
          refine ih hnext hlonger (fun _ => ?_) ?_
          · by_cases hlen : len = 0
            · simp [hlen]
            · have hstart := hend hlen
              rw [if_neg hlen]
              omega
          · split
            · exact hlonger
            · exact hbest
      | succ n =>
          rw [longestZeros]
          · exact ih hnext (fun k hk => absurd hk (Nat.not_lt_zero k)) (fun h => absurd rfl h) hbest
          · exact Nat.succ_ne_zero n

theorem gap_eq (segs : List Nat) {start len : Nat} (h : Zeros segs (start, len)) :
    (segs.drop start).take len = List.replicate len 0 := by
  apply List.ext_getElem?
  intro k
  by_cases hk : k < len
  · rw [List.getElem?_take_of_lt hk, List.getElem?_drop, h k hk, List.getElem?_replicate, if_pos hk]
  · rw [List.getElem?_take, if_neg hk, List.getElem?_replicate, if_neg hk]

end Runs

section Compressed

variable {segs segs' : List Nat}

/-- The notation without the case of IPv4-mapped addresses. -/
def compressed (segs : List Nat) : List Char :=
  match longestZeros 0 0 0 (0, 0) segs with
  | (start, len) =>
      if len > 1 then showSegments (segs.take start) ++ "::".toList ++ showSegments (segs.drop (start + len))
      else showSegments segs

theorem showV6_eq (octets : List UInt8) :
    showV6 octets =
      if (segments octets).take 6 = [0, 0, 0, 0, 0, 0xFFFF] then "::ffff:".toList ++ showV4 (octets.drop 12)
      else compressed (segments octets) := rfl

def hexadecimals (segs : List Nat) : List (List Char) := segs.map (Nat.toDigits 16)

theorem hexadecimals_ne_nil {part : List Char} (h : part ∈ hexadecimals segs) : part ≠ [] := by
  obtain ⟨n, -, rfl⟩ := List.mem_map.mp h
  exact Nat.toDigits_ne_nil

theorem splitOn_showSegments (h : segs ≠ []) : (showSegments segs).splitOn ':' = hexadecimals segs := by
  refine List.splitOn_intercalate ':' ?_ (by simpa using h)
  intro part hpart
  obtain ⟨n, -, rfl⟩ := List.mem_map.mp hpart
  exact not_mem_toDigits (by decide) colon_ne_digitChar _

/-- No segments make one empty piece. -/
theorem splitOn_showSegments_cases (segs : List Nat) :
    (segs = [] ∧ (showSegments segs).splitOn ':' = [[]]) ∨ (showSegments segs).splitOn ':' = hexadecimals segs := by
  by_cases h : segs = []
  · exact .inl ⟨h, by rw [h]; rfl⟩
  · exact .inr (splitOn_showSegments h)

theorem splitOn_gap (front back : List Nat) :
    (showSegments front ++ "::".toList ++ showSegments back).splitOn ':' =
      (showSegments front).splitOn ':' ++ [] :: (showSegments back).splitOn ':' := by
  have htext : showSegments front ++ "::".toList ++ showSegments back =
      showSegments front ++ ':' :: ([] ++ ':' :: showSegments back) := by
    simp
  rw [htext, List.splitOn_append_cons_self, List.splitOn_append_cons_self, List.splitOn_nil]
  rfl

theorem takeWhile_pieces {more : List (List Char)} (segs : List Nat) :
    ((showSegments segs).splitOn ':' ++ [] :: more).takeWhile (· ≠ []) = hexadecimals segs := by
  have hall : ∀ part ∈ hexadecimals segs, decide (part ≠ []) = true := fun part hpart =>
    decide_eq_true (hexadecimals_ne_nil hpart)
  rcases splitOn_showSegments_cases segs with ⟨rfl, hpieces⟩ | hpieces
  · rw [hpieces]
    rfl
  · rw [hpieces, List.takeWhile_append_of_pos hall]
    simp

theorem takeWhile_pieces_reverse {more : List (List Char)} (segs : List Nat) :
    ((more ++ [] :: (showSegments segs).splitOn ':').reverse).takeWhile (· ≠ []) = (hexadecimals segs).reverse := by
  have hall : ∀ part ∈ (hexadecimals segs).reverse, decide (part ≠ []) = true := fun part hpart =>
    decide_eq_true (hexadecimals_ne_nil (List.mem_reverse.mp hpart))
  rw [List.reverse_append, List.reverse_cons, List.append_assoc]
  rcases splitOn_showSegments_cases segs with ⟨rfl, hpieces⟩ | hpieces
  · rw [hpieces]
    simp [hexadecimals]
  · rw [hpieces, List.takeWhile_append_of_pos hall]
    simp

theorem hexadecimals_inj (h : hexadecimals segs = hexadecimals segs') : segs = segs' :=
  List.map_injective_iff.mpr toDigits_inj h

theorem gap_inj {front back front' back' : List Nat}
    (h : showSegments front ++ "::".toList ++ showSegments back =
      showSegments front' ++ "::".toList ++ showSegments back') : front = front' ∧ back = back' := by
  have hpieces := congrArg (List.splitOn ':') h
  rw [splitOn_gap, splitOn_gap] at hpieces
  have hfront := congrArg (List.takeWhile (· ≠ [])) hpieces
  have hback := congrArg (fun pieces => pieces.reverse.takeWhile (· ≠ [])) hpieces
  simp only [takeWhile_pieces, takeWhile_pieces_reverse] at hfront hback
  exact ⟨hexadecimals_inj hfront, hexadecimals_inj (List.reverse_injective hback)⟩

theorem gap_ne {front back : List Nat} (h : segs ≠ []) :
    showSegments front ++ "::".toList ++ showSegments back ≠ showSegments segs := by
  intro heq
  have hpieces := congrArg (List.splitOn ':') heq
  rw [splitOn_gap, splitOn_showSegments h] at hpieces
  have hempty : ([] : List Char) ∈ hexadecimals segs := by
    rw [← hpieces]
    simp
  exact hexadecimals_ne_nil hempty rfl

theorem zeros_longest (segs : List Nat) : Zeros segs (longestZeros 0 0 0 (0, 0) segs) := by
  apply longestZeros_zeros
  · intro k
    rw [Nat.zero_add]
  · intro k hk
    exact absurd hk (Nat.not_lt_zero k)
  · intro h
    exact absurd rfl h
  · intro k hk
    exact absurd hk (Nat.not_lt_zero k)

theorem split_at_gap {start len : Nat} (h : Zeros segs (start, len)) :
    segs = segs.take start ++ (List.replicate len 0 ++ segs.drop (start + len)) := by
  rw [← gap_eq segs h, ← List.drop_drop, List.take_append_drop, List.take_append_drop]

theorem compressed_inj (hlen : segs.length = segs'.length) (hne : segs ≠ []) (hne' : segs' ≠ [])
    (h : compressed segs = compressed segs') : segs = segs' := by
  have hzeros := zeros_longest segs
  have hzeros' := zeros_longest segs'
  simp only [compressed] at h
  generalize longestZeros 0 0 0 (0, 0) segs = run at h hzeros
  generalize longestZeros 0 0 0 (0, 0) segs' = run' at h hzeros'
  obtain ⟨start, len⟩ := run
  obtain ⟨start', len'⟩ := run'
  dsimp only at h
  split at h <;> split at h
  · obtain ⟨hfront, hback⟩ := gap_inj h
    have hsplit := split_at_gap hzeros
    have hsplit' := split_at_gap hzeros'
    rw [hfront, hback] at hsplit
    have hlens : len = len' := by
      have hl := congrArg List.length hsplit
      have hl' := congrArg List.length hsplit'
      simp only [List.length_append, List.length_replicate] at hl hl'
      omega
    rw [hsplit, hlens, ← hsplit']
  · exact absurd h (gap_ne hne')
  · exact absurd h.symm (gap_ne hne)
  · have hpieces := congrArg (List.splitOn ':') h
    rw [splitOn_showSegments hne, splitOn_showSegments hne'] at hpieces
    exact hexadecimals_inj hpieces

theorem dot_not_mem_showSegments : '.' ∉ showSegments segs := by
  intro h
  rcases mem_intercalate h with hsep | ⟨part, hpart, hc⟩
  · exact absurd hsep (by decide)
  · obtain ⟨n, -, rfl⟩ := List.mem_map.mp hpart
    exact not_mem_toDigits (by decide) dot_ne_digitChar _ hc

theorem dot_not_mem_compressed : '.' ∉ compressed segs := by
  intro h
  simp only [compressed] at h
  split at h
  · simp only [List.mem_append] at h
    rcases h with (h | h) | h
    · exact dot_not_mem_showSegments h
    · exact absurd h (by decide)
    · exact dot_not_mem_showSegments h
  · exact dot_not_mem_showSegments h

theorem colon_mem_compressed (h : 1 < segs.length) : ':' ∈ compressed segs := by
  simp only [compressed]
  split
  · simp
  · obtain ⟨a, b, rest, rfl⟩ : ∃ a b rest, segs = a :: b :: rest := by
      match segs, h with
      | a :: b :: rest, _ => exact ⟨a, b, rest, rfl⟩
    simp [showSegments, List.intercalate_cons_cons]

end Compressed

section Addresses

variable {octets octets' : List UInt8}

theorem colon_mem_showV6 (h : octets.length = 16) : ':' ∈ showV6 octets := by
  rw [showV6_eq]
  split
  · simp
  · apply colon_mem_compressed
    rw [segments_length, h]
    decide

theorem dot_mem_mapped (h : octets.length = 16) : '.' ∈ "::ffff:".toList ++ showV4 (octets.drop 12) := by
  have hdrop : (octets.drop 12).length = 4 := by
    rw [List.length_drop, h]
  obtain ⟨a, b, rest, heq⟩ : ∃ a b rest, octets.drop 12 = a :: b :: rest := by
    match octets.drop 12, hdrop with
    | a :: b :: rest, _ => exact ⟨a, b, rest, rfl⟩
  rw [heq]
  exact List.mem_append_right _ dot_mem_showV4

theorem segments_inj_of_length (h : octets.length = 16) (h' : octets'.length = 16)
    (heq : segments octets = segments octets') : octets = octets' :=
  segments_inj (h.trans h'.symm) (by rw [h]) heq

theorem showV6_inj (h : octets.length = 16) (h' : octets'.length = 16) (heq : showV6 octets = showV6 octets') :
    octets = octets' := by
  have hsegs : (segments octets).length = 8 := by rw [segments_length, h]
  have hsegs' : (segments octets').length = 8 := by rw [segments_length, h']
  rw [showV6_eq, showV6_eq] at heq
  split at heq <;> split at heq
  next hmapped hmapped' =>
    have hdrop : octets.drop 12 ≠ [] := List.ne_nil_of_length_pos (by rw [List.length_drop, h]; decide)
    have hdrop' : octets'.drop 12 ≠ [] := List.ne_nil_of_length_pos (by rw [List.length_drop, h']; decide)
    have htail := showV4_inj hdrop hdrop' (List.append_cancel_left heq)
    apply segments_inj_of_length h h'
    rw [← List.take_append_drop 6 (segments octets), ← List.take_append_drop 6 (segments octets'), hmapped, hmapped',
      ← segments_drop, ← segments_drop, htail]
  next => exact absurd (heq ▸ dot_mem_mapped h) dot_not_mem_compressed
  next => exact absurd (heq.symm ▸ dot_mem_mapped h') dot_not_mem_compressed
  next =>
    apply segments_inj_of_length h h'
    exact compressed_inj (hsegs.trans hsegs'.symm) (List.ne_nil_of_length_pos (by rw [hsegs]; decide))
      (List.ne_nil_of_length_pos (by rw [hsegs']; decide)) heq

/-- An address is read off its text. -/
theorem showIp_inj {a b : IpAddr} (h : showIp a = showIp b) : a = b := by
  cases a with
  | v4 octets =>
      cases b with
      | v4 octets' =>
          have hne : octets.toList ≠ [] := List.ne_nil_of_length_pos (by rw [Vector.length_toList]; decide)
          have hne' : octets'.toList ≠ [] := List.ne_nil_of_length_pos (by rw [Vector.length_toList]; decide)
          exact congrArg IpAddr.v4 (Vector.toList_inj.mp (showV4_inj hne hne' h))
      | v6 octets' =>
          have hcolon : ':' ∈ showV6 octets'.toList := colon_mem_showV6 Vector.length_toList
          exact absurd (show ':' ∈ showV4 octets.toList from (show showV4 _ = _ from h) ▸ hcolon) colon_not_mem_showV4
  | v6 octets =>
      cases b with
      | v4 octets' =>
          have hcolon : ':' ∈ showV6 octets.toList := colon_mem_showV6 Vector.length_toList
          exact absurd (show ':' ∈ showV4 octets'.toList from (show _ = showV4 _ from h) ▸ hcolon) colon_not_mem_showV4
      | v6 octets' =>
          exact congrArg IpAddr.v6 (Vector.toList_inj.mp (showV6_inj Vector.length_toList Vector.length_toList h))

end Addresses

end NixiSbc.AddressTexts
