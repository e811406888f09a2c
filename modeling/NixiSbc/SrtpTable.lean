import NixiSbc.SrtpContext

namespace NixiSbc.SrtpTable

open ByteWords SrtpKeys SrtpStream SrtpContext

/-- Every stream in the table has carried exactly the indices that `S` gives
for it; an SSRC outside the table has carried none. -/
def TableCarries (streams : StreamTable) (S : UInt32 → Set Nat) : Prop :=
  ∀ ssrc, match streams.lookup ssrc with
    | some state => Carried state (S ssrc)
    | none => S ssrc = ∅

theorem empty_carries : TableCarries ∅ fun _ => ∅ := fun _ => rfl

theorem TableCarries.of_lookup {streams : StreamTable} {S : UInt32 → Set Nat}
    (h : TableCarries streams S) {ssrc : UInt32} {state : StreamState}
    (hl : streams.lookup ssrc = some state) : Carried state (S ssrc) := by
  have hs := h ssrc
  rw [hl] at hs
  exact hs

theorem TableCarries.remembers {streams : StreamTable} {S : UInt32 → Set Nat}
    (h : TableCarries streams S) (ssrc : UInt32) :
    Remembers ((streams.lookup ssrc).getD {}) (S ssrc) := by
  have hs := h ssrc
  cases hl : streams.lookup ssrc with
  | none =>
      rw [hl] at hs
      exact .inl ⟨rfl, hs⟩
  | some state =>
      rw [hl] at hs
      exact .inr hs

theorem TableCarries.insert {streams : StreamTable} {S : UInt32 → Set Nat}
    (h : TableCarries streams S) (ssrc : UInt32) {state : StreamState} {T : Set Nat}
    (hc : Carried state T) :
    TableCarries (streams.insert ssrc state) (Function.update S ssrc T) := by
  intro other
  by_cases ho : other = ssrc
  · subst ho
    rw [AList.lookup_insert, Function.update_self]
    exact hc
  · rw [AList.lookup_insert_ne ho, Function.update_of_ne ho]
    exact h other

theorem TableCarries.evictColdest {streams : StreamTable} {S : UInt32 → Set Nat}
    (h : TableCarries streams S) : evictColdest streams = none := by
  have hf : (streams.entries.filter fun e => !e.2.started) = [] := by
    rw [List.filter_eq_nil_iff]
    intro e he
    have hl : streams.lookup e.1 = some e.2 := AList.mem_lookup_iff.mpr he
    simp [(h.of_lookup hl).started]
  rw [SrtpContext.evictColdest, hf]
  rfl

/-- With every stream live, a lookup either refuses a new SSRC and leaves the
table alone, or returns the stamped entry without evicting anything. -/
theorem TableCarries.streamMut {streams : StreamTable} {S : UInt32 → Set Nat}
    (h : TableCarries streams S) (clock : UInt64) (ssrc : UInt32) :
    streamMut streams clock ssrc = (none, clock + 1) ∨
    ∃ state, state = { (streams.lookup ssrc).getD {} with lastUsed := clock + 1 } ∧
      streamMut streams clock ssrc = (some (state, streams.insert ssrc state), clock + 1) := by
  by_cases hfull : streams.lookup ssrc = none ∧ streams.entries.length ≥ maxStreams
  · left
    rw [SrtpContext.streamMut, if_pos hfull, h.evictColdest]
    rfl
  · exact .inr (streamMut_room hfull clock)

end NixiSbc.SrtpTable
