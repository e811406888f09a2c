import NixiSbc.PortAllocator
import NixiSbc.Custody

namespace NixiSbc.PortBooks

open Diagnostics PortAllocator Custody

def ports (pair : PortPair) : Finset UInt16 := {pair.rtp, pair.rtcp}

def waiting (pool : Pool) : List PortPair := pool.quarantine.map Prod.fst

/-- A pair of the range that is allocated and not in quarantine. -/
structure InUse (cfg : Settings) (pool : Pool) (pair : PortPair) : Prop where
  valid : Valid cfg pair
  allocated : isAllocated pool pair = true
  out : pair ∉ waiting pool

/-- The marks are those of the pairs that someone holds and of the pairs in
quarantine, and no port is in two of them. -/
structure Books (cfg : Settings) (pool : Pool) (used : List PortPair) : Prop where
  covered : Covered ports (used ++ waiting pool) pool.allocated
  valid : ∀ pair ∈ used ++ waiting pool, Valid cfg pair

variable {cfg : Settings} {pool pool' : Pool} {used used' : List PortPair} {p q : PortPair}

theorem mem_ports {port : UInt16} : port ∈ ports p ↔ port = p.rtp ∨ port = p.rtcp := by
  rw [ports, Finset.mem_insert, Finset.mem_singleton]

theorem disjoint_ports : Disjoint (ports p) (ports q) ↔ ¬SharesPort p q := by
  rw [Finset.disjoint_left, SharesPort]
  constructor
  · rintro h (hs | hs | hs | hs)
    · exact h (mem_ports.mpr (.inl rfl)) (mem_ports.mpr (.inl hs))
    · exact h (mem_ports.mpr (.inl rfl)) (mem_ports.mpr (.inr hs))
    · exact h (mem_ports.mpr (.inr rfl)) (mem_ports.mpr (.inl hs))
    · exact h (mem_ports.mpr (.inr rfl)) (mem_ports.mpr (.inr hs))
  · intro h port hp hq
    rw [mem_ports] at hp hq
    apply h
    rcases hp with rfl | rfl
    · exact hq.elim .inl fun hq => .inr (.inl hq)
    · exact hq.elim (fun hq => .inr (.inr (.inl hq))) fun hq => .inr (.inr (.inr hq))

theorem unmark_allocated (pool : Pool) (p : PortPair) :
    (pool.allocated.erase p.rtp).erase p.rtcp = pool.allocated \ ports p := by
  ext port
  rw [Finset.mem_erase, Finset.mem_erase, Finset.mem_sdiff, mem_ports, not_or]
  tauto

theorem books_initial (cfg : Settings) : Books cfg (withRangeAndHold cfg) [] :=
  ⟨covered_nil ports, fun _ h => absurd h List.not_mem_nil⟩

theorem Books.perm (h : Books cfg pool used) (hp : used'.Perm used) : Books cfg pool used' :=
  ⟨h.covered.perm (hp.append_right _), fun q hq => h.valid q ((hp.append_right _).mem_iff.mp hq)⟩

theorem Books.nodup (h : Books cfg pool used) : (used ++ waiting pool).Nodup :=
  h.covered.nodup fun p _ => ⟨p.rtp, mem_ports.mpr (.inl rfl)⟩

theorem Books.apart (h : Books cfg pool used) : used.Pairwise fun p q => ¬SharesPort p q := by
  have hall := (List.pairwise_append.mp h.covered.apart).1
  exact hall.imp disjoint_ports.mp

theorem Books.inUse_iff (h : Books cfg pool used) : InUse cfg pool p ↔ p ∈ used := by
  constructor
  · rintro ⟨hvalid, halloc, hout⟩
    rw [isAllocated, decide_eq_true_iff] at halloc
    obtain ⟨q, hq, hport⟩ := (h.covered.mem_iff p.rtp).mp halloc.1
    have hshare : SharesPort p q := (mem_ports.mp hport).elim .inl fun hs => .inr (.inl hs)
    obtain rfl := hvalid.eq_of_sharesPort (h.valid q hq) hshare
    exact (List.mem_append.mp hq).resolve_right hout
  · intro hp
    have hall : p ∈ used ++ waiting pool := List.mem_append_left _ hp
    refine ⟨h.valid p hall, ?_, fun hw => ?_⟩
    · rw [isAllocated, decide_eq_true_iff]
      exact ⟨(h.covered.mem_iff _).mpr ⟨p, hall, mem_ports.mpr (.inl rfl)⟩,
        (h.covered.mem_iff _).mpr ⟨p, hall, mem_ports.mpr (.inr rfl)⟩⟩
    · exact (List.nodup_append'.mp h.nodup).2.2 hp hw

theorem covered_expire (hold now : Nat) (queue : List (PortPair × Nat)) {allocated : Finset UInt16}
    (h : Covered ports (used ++ queue.map Prod.fst) allocated) :
    Covered ports (used ++ (expire hold now queue allocated).1.map Prod.fst)
      (expire hold now queue allocated).2 := by
  induction queue generalizing allocated with
  | nil => exact h
  | cons e queue ih =>
      obtain ⟨pair, freedAt⟩ := e
      rw [expire]
      split
      next hearly => exact h
      next hdue =>
        have hfront : Covered ports (pair :: (used ++ queue.map Prod.fst)) allocated :=
          h.perm List.perm_middle.symm
        have hdrop := hfront.drop
        rw [← unmark_allocated ⟨allocated, queue, 0, 0⟩] at hdrop
        exact ih hdrop

theorem expire_suffix (hold now : Nat) (queue : List (PortPair × Nat)) (allocated : Finset UInt16) :
    (expire hold now queue allocated).1 <:+ queue := by
  induction queue generalizing allocated with
  | nil => exact List.suffix_rfl
  | cons e queue ih =>
      obtain ⟨pair, freedAt⟩ := e
      rw [expire]
      split
      next hearly => exact List.suffix_rfl
      next hdue => exact (ih _).trans (List.suffix_cons _ _)

theorem Books.sweep (h : Books cfg pool used) (now : Nat) :
    Books cfg (sweepQuarantine cfg pool now) used := by
  refine ⟨covered_expire cfg.hold now pool.quarantine h.covered, fun p hp => h.valid p ?_⟩
  rcases List.mem_append.mp hp with hp | hp
  · exact List.mem_append_left _ hp
  · have hsub := ((expire_suffix cfg.hold now pool.quarantine pool.allocated).map Prod.fst).subset
    exact List.mem_append_right _ (hsub hp)

theorem Books.takeFree (h : Books cfg pool used) (ht : takeFree cfg pool = (some p, pool')) :
    Books cfg pool' (p :: used) := by
  obtain ⟨hvalid, hrtp, hrtcp, halloc, hqueue, -⟩ := takeFree_some ht
  have hw : waiting pool' = waiting pool := congrArg (List.map Prod.fst) hqueue
  have hfree : Disjoint (ports p) pool.allocated := by
    rw [Finset.disjoint_left]
    intro port hport
    rcases mem_ports.mp hport with rfl | rfl
    · exact hrtp
    · exact hrtcp
  have hmarks : pool'.allocated = pool.allocated ∪ ports p := by
    rw [halloc]
    ext port
    rw [Finset.mem_insert, Finset.mem_insert, Finset.mem_union, mem_ports]
    tauto
  constructor
  · rw [hw, hmarks]
    exact h.covered.take hfree
  · intro q hq
    rw [hw] at hq
    rcases List.mem_cons.mp hq with rfl | hq
    · exact hvalid
    · exact h.valid q hq

theorem Books.popOldest (h : Books cfg pool used) (hpop : popOldest pool = (some p, pool')) :
    Books cfg pool' (p :: used) := by
  rw [PortAllocator.popOldest] at hpop
  split at hpop
  next => cases hpop
  next pair freedAt rest hqueue =>
    cases hpop
    have hperm : (p :: used ++ rest.map Prod.fst).Perm (used ++ waiting pool) := by
      rw [waiting, hqueue]
      exact List.perm_middle.symm
    exact ⟨h.covered.perm hperm, fun q hq => h.valid q (hperm.mem_iff.mp hq)⟩

/-- A pair that is handed out was held by nobody; a refusal hands out nothing. -/
theorem Books.allocate (h : Books cfg pool used) {now : Nat} {result : Except Error PortPair}
    (ha : allocate cfg pool now = (result, pool')) :
    match result with
    | .ok pair => Books cfg pool' (pair :: used)
    | .error _ => Books cfg pool' used := by
  have hsweep := h.sweep now
  rw [PortAllocator.allocate] at ha
  split at ha
  next pair pool₁ hfree =>
    cases ha
    exact hsweep.takeFree hfree
  next pool₁ hfree =>
    obtain rfl := takeFree_none hfree
    split at ha
    next pair pool₂ hpop =>
      cases ha
      have hbooks := hsweep.popOldest hpop
      exact ⟨hbooks.covered, hbooks.valid⟩
    next pool₂ hpop =>
      cases ha
      obtain rfl := popOldest_none hpop
      exact hsweep

theorem Books.release (h : Books cfg pool (p :: used)) (now : Nat) :
    Books cfg (release cfg pool p now) used := by
  rw [PortAllocator.release]
  split
  next hzero =>
    refine ⟨?_, fun q hq => h.valid q (List.mem_cons_of_mem _ hq)⟩
    change Covered ports (used ++ waiting pool) ((pool.allocated.erase p.rtp).erase p.rtcp)
    rw [unmark_allocated]
    exact h.covered.drop
  next hhold =>
    have hnew : ¬pool.quarantine.any (fun e => e.1 = p) = true := by
      intro hany
      obtain ⟨e, he, hep⟩ := List.any_eq_true.mp hany
      have hw : p ∈ waiting pool := by
        rw [← decide_eq_true_iff.mp hep]
        exact List.mem_map_of_mem he
      exact (List.nodup_cons.mp h.nodup).1 (List.mem_append_right _ hw)
    rw [enqueue, if_neg hnew]
    have hperm : (used ++ (pool.quarantine ++ [(p, now)]).map Prod.fst).Perm
        (p :: used ++ waiting pool) := by
      rw [List.map_append, ← List.append_assoc]
      exact List.perm_append_singleton _ _
    exact ⟨h.covered.perm hperm, fun q hq => h.valid q (hperm.mem_iff.mp hq)⟩

end NixiSbc.PortBooks
