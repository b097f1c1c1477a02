import Mathlib
import H11r.Connection.Payload

/-!
# The count of held bytes

`hold_body_data` adds to a machine word, and the word is the only place where
the number of held bytes is kept. Where the sum fits the word the count is
exact: it is what has been accepted and not handed over, and never more than
the payload the decoder may still take (`HeldFits`). Where it does not fit, the
wrapped sum is smaller than the count before, so it passes the comparison with
the payload that is left and replaces the count.
-/

namespace H11r.Connection

variable {hp : Httparse} {c c' : Connection} {count : Nat}

/-- The bytes held are payload the decoder may still take. -/
def HeldFits (c : Connection) : Prop :=
  c.held ≠ 0 → c.peerState = .sendBody ∧ c.cycle.reader.Room c.held

/-- `hold_body_data` gets as far as the sum. -/
def AddsCount (c : Connection) (count : Nat) : Prop :=
  count ≠ 0 ∧ c.eof = false ∧ c.input.asSlice = [] ∧ c.payloadRemaining ≠ none

/-- The sums that a call makes of held bytes fit a machine word. -/
def InWord (c : Connection) (op : Op) : Prop :=
  match op with
  | .holdBodyData count => c.AddsCount count → c.held + count ≤ usizeMax
  | .sendResponse _ | .sendResponseWithBody _ _ | .sendResponseWithBodyFraming _ _ =>
    ∀ remaining, c.cycle.reader = .fixed remaining → c.held + c.input.asSlice.length ≤ usizeMax
  | _ => True

/-- What `hold_body_data` accepts is payload, and it is counted. -/
def HoldsExactly (c : Connection) (count : Nat) : Prop :=
  (holdBodyData count c).1 = true →
    c.peerState = .sendBody ∧ c.cycle.reader.Room (c.held + count) ∧
      (holdBodyData count c).2.held = c.held + count

/-- The bytes a call has accepted from the caller, and those it has handed over. -/
def acceptedCount : Op × Outcome → Nat
  | (.holdBodyData count, .held true) => count
  | _ => 0

def handedCount : Op × Outcome → Nat
  | (.nextEventInPlace count, .flags _ _) => count
  | _ => 0

def acceptedTotal (history : List (Op × Outcome)) : Nat := (history.map acceptedCount).sum

def handedTotal (history : List (Op × Outcome)) : Nat := (history.map handedCount).sum

/-! ## One call -/

theorem usizeAdd_exact {a b : Nat} : usizeAdd a b = a + b ↔ a + b ≤ usizeMax := by
  have hsize : 0 < UInt64.size := by decide
  have hmax : usizeMax = UInt64.size - 1 := rfl
  have hlt : usizeAdd a b < UInt64.size := Nat.mod_lt _ hsize
  constructor
  · intro h
    omega
  · intro h
    exact Nat.mod_eq_of_lt (by omega)

theorem canHold_adds (h : c.canHold count = true) : c.AddsCount count := by
  unfold canHold at h
  simp only [Bool.and_eq_true, bne_iff_ne, ne_eq, Bool.not_eq_true', List.isEmpty_iff] at h
  obtain ⟨⟨⟨hcount, heof⟩, hinput⟩, hremaining⟩ := h
  refine ⟨hcount, heof, hinput, fun hnone => ?_⟩
  rw [hnone] at hremaining
  cases hremaining

/-- Payload that is there is payload that is left, as far as a word can say. -/
theorem payloadRemaining_ge {remaining n : Nat} (h : c.payloadRemaining = some remaining)
    (hroom : c.cycle.reader.Room n) (hword : n ≤ usizeMax) : n ≤ remaining := by
  unfold payloadRemaining at h
  split at h
  · cases h
  · cases hreader : c.cycle.reader with
    | head =>
      rw [hreader] at hroom
      exact hroom.elim
    | fixed left =>
      rw [hreader] at h hroom
      dsimp only at h
      split at h
      · cases h
        exact hroom
      · cases h
    | closeDelimited =>
      rw [hreader] at h
      cases h
      exact hword
    | chunked chunk =>
      rw [hreader] at h hroom
      cases chunk with
      | size | dataEnd | trailers => exact hroom.elim
      | data left first =>
        cases h
        exact hroom

theorem holdBodyData_exact (hword : c.InWord (.holdBodyData count)) : c.HoldsExactly count := by
  intro htrue
  unfold holdBodyData at htrue ⊢
  by_cases hcan : c.canHold count = true
  · have hsum : c.held + count ≤ usizeMax := hword (canHold_adds hcan)
    have hmax : usizeMax = UInt64.size - 1 := rfl
    have hsize : 0 < UInt64.size := by decide
    obtain ⟨_, _, _, hpeer, hroom⟩ := canHold_room hcan (by omega)
    rw [if_pos hcan]
    exact ⟨hpeer, hroom, usizeAdd_exact.mpr hsum⟩
  · rw [if_neg hcan] at htrue
    cases htrue

/-- A sum that does not fit is accepted and counted wrong. -/
theorem holdBodyData_wraps (hc : c.HeldFits) (hcount : count ≤ usizeMax) (hadds : c.AddsCount count)
    (hsum : usizeMax < c.held + count) : ¬c.HoldsExactly count := by
  obtain ⟨hne, heof, hinput, hpayload⟩ := hadds
  have hmax : usizeMax = UInt64.size - 1 := rfl
  have hsize : 0 < UInt64.size := by decide
  have hheld : c.held ≠ 0 := by omega
  obtain ⟨remaining, hremaining⟩ := Option.ne_none_iff_exists'.mp hpayload
  have hword : usizeAdd c.held count ≤ usizeMax := by
    have hlt : usizeAdd c.held count < UInt64.size := Nat.mod_lt _ hsize
    omega
  have hless : usizeAdd c.held count ≤ c.held := by
    by_cases hfits : c.held ≤ usizeMax
    · have hmod : usizeAdd c.held count = c.held + count - UInt64.size := by
        unfold usizeAdd
        rw [Nat.mod_eq_sub_mod (by omega), Nat.mod_eq_of_lt (by omega)]
      omega
    · omega
  have hwrapped := payloadRemaining_ge hremaining ((hc hheld).2.mono hless) hword
  have hcan : c.canHold count = true := by
    unfold canHold
    rw [hremaining, heof, hinput]
    simp only [Option.any_some, decide_eq_true hwrapped]
    simpa using hne
  intro hexact
  unfold HoldsExactly holdBodyData at hexact
  rw [if_pos hcan] at hexact
  have hheld' := usizeAdd_exact.mp (hexact rfl).2.2
  omega

/-! ## Every call -/

/-- The rule for runs: held bytes are handed over before a poll, and every sum
fits. -/
def countsInWord (c : Connection) (op : Op) : Prop := c.handsOverFirst op ∧ c.InWord op

theorem HeldFits.of_inside (hheld : c'.held = c.held) (hreader : c'.cycle.reader = c.cycle.reader)
    (hpeer : c.peerState = .sendBody → c'.peerState = .sendBody) (hc : c.HeldFits) : c'.HeldFits := by
  intro hne
  rw [hheld] at hne ⊢
  rw [hreader]
  exact ⟨hpeer (hc hne).1, (hc hne).2⟩

theorem nextEventInPlace_heldFits (hc : c.HeldFits) : (nextEventInPlace count c).2.HeldFits := by
  rcases h : nextEventInPlace count c with ⟨r, c'⟩
  rcases nextEventInPlace_cases h with ⟨state, hzero, hle, hstate, _, rfl⟩ | ⟨_, _, _, rfl⟩ |
    ⟨_, hzero, hle, hstate, _, _⟩
  · intro hleft
    change c.held - count ≠ 0 at hleft
    obtain ⟨hpeer, hroom⟩ := hc (by omega)
    have hsplit : c.cycle.reader.Room (count + (c.held - count)) := by
      rw [Nat.add_sub_cancel' hle]
      exact hroom
    obtain ⟨rfl, _⟩ := ConnectionState.bodyLaws.data _ _ _ hstate
    refine ⟨?_, ?_⟩
    · show c.state.state (c.advancePayload count).2.role.peer = .sendBody
      rw [advancePayload_role]
      exact hpeer
    · show (c.advancePayload count).2.cycle.reader.Room (c.held - count)
      rw [advancePayload_room (hroom.mono hle) hzero]
      exact hsplit.after hleft
  · exact hc
  · have hpeer : c.peerState = .sendBody := (hc (by omega)).1
    rw [processEvent_data_inside hpeer] at hstate
    cases hstate

theorem receiveData_heldFits (data : Bytes) (hc : c.HeldFits) : (receiveData data c).2.HeldFits := by
  unfold receiveData
  rw [Lib.Call.get_bind, Lib.Call.failIf_bind]
  split
  · exact hc
  · split
    · refine HeldFits.of_inside ?_ ?_ recordEof_inside hc
      · exact disableKeepAliveIf_held _ _
      · show c.recordEof.cycle.reader = _
        unfold recordEof
        rw [disableKeepAliveIf_cycle]
    · exact hc

theorem step_quiet_heldFits {op : Op} (hop : op.quiet = true) (hc : c.HeldFits) :
    (step hp op c).2.HeldFits := by
  intro hne
  rw [(step_quiet hop c).2] at hne ⊢
  obtain ⟨hpeer, hroom⟩ := hc hne
  obtain ⟨hstays, hreader⟩ := step_quiet_inside hp hop hpeer
  rw [hreader]
  exact ⟨hstays, hroom⟩

theorem step_heldFits {op : Op} (hc : c.HeldFits) (hop : c.countsInWord op) :
    (step hp op c).2.HeldFits := by
  cases op with
  | receiveData data =>
    show (outcome _ (receiveData data c)).2.HeldFits
    rw [outcome_snd]
    exact receiveData_heldFits data hc
  | nextEventInPlace count =>
    show (outcome _ (nextEventInPlace count c)).2.HeldFits
    rw [outcome_snd]
    exact nextEventInPlace_heldFits hc
  | holdBodyData count =>
    show (holdBodyData count c).2.HeldFits
    cases haccepted : (holdBodyData count c).1 with
    | true =>
      obtain ⟨hpeer, hroom, hheld⟩ := holdBodyData_exact hop.2 haccepted
      have hsame : (holdBodyData count c).2.peerState = c.peerState ∧
          (holdBodyData count c).2.cycle.reader = c.cycle.reader := by
        unfold holdBodyData
        split <;> exact ⟨rfl, rfl⟩
      intro _
      rw [hsame.1, hsame.2, hheld]
      exact ⟨hpeer, hroom⟩
    | false =>
      have hsame : (holdBodyData count c).2 = c := by
        unfold holdBodyData at haccepted ⊢
        split at haccepted
        · cases haccepted
        next hcannot => rw [if_neg hcannot]
      rw [hsame]
      exact hc
  | nextEvent =>
    intro hne
    change (pollOutcome (nextEvent hp c)).2.held ≠ 0 at hne
    rw [pollOutcome_snd, (nextEvent_frame hp c).held] at hne
    exact absurd hop.1 hne
  | _ => exact step_quiet_heldFits rfl hc

/-- What a call does to the count. -/
theorem step_count {op : Op} (hop : c.InWord op) :
    (step hp op c).2.held + handedCount (op, (step hp op c).1) =
      c.held + acceptedCount (op, (step hp op c).1) := by
  have hquiet : ∀ {op : Op}, op.quiet = true → (step hp op c).2.held = c.held :=
    fun hop => (step_quiet hop c).2
  cases op with
  | receiveData data =>
    have hheld : (receiveData data c).2.held = c.held := by
      unfold receiveData
      rw [Lib.Call.get_bind, Lib.Call.failIf_bind]
      split
      · rfl
      · split
        · exact disableKeepAliveIf_held _ _
        · rfl
    show (outcome _ (receiveData data c)).2.held + 0 = c.held + 0
    rw [outcome_snd, hheld]
  | nextEventInPlace count =>
    show (outcome _ (nextEventInPlace count c)).2.held +
        handedCount (.nextEventInPlace count, (outcome _ (nextEventInPlace count c)).1) = c.held + 0
    rw [outcome_snd]
    rcases h : nextEventInPlace count c with ⟨r, c'⟩
    rcases nextEventInPlace_cases h with ⟨state, _, hle, _, rfl, rfl⟩ | ⟨_, _, rfl, rfl⟩ |
      ⟨_, _, _, _, rfl, rfl⟩
    · show c.held - count + count = c.held
      omega
    · rfl
    · exact advancePayload_held _ _
  | holdBodyData count =>
    show (holdBodyData count c).2.held + 0 =
      c.held + acceptedCount (.holdBodyData count, .held (holdBodyData count c).1)
    cases haccepted : (holdBodyData count c).1 with
    | true => exact (holdBodyData_exact hop haccepted).2.2
    | false =>
      unfold holdBodyData at haccepted ⊢
      split at haccepted
      · cases haccepted
      next hcannot =>
        rw [if_neg hcannot]
        rfl
  | nextEvent =>
    show (pollOutcome (nextEvent hp c)).2.held + 0 = c.held + 0
    rw [pollOutcome_snd, (nextEvent_frame hp c).held]
  | _ => exact congrArg (· + 0) (hquiet rfl)

/-! ## Whole runs -/

theorem run_heldFits {role : Role} {limits : Limits} {history : List (Op × Outcome)}
    (h : Run hp countsInWord role limits history c) : c.HeldFits :=
  Lib.Run.invariant (P := HeldFits) (fun hne => absurd rfl hne) (fun _ _ hs hop => step_heldFits hs hop) h

theorem run_count {role : Role} {limits : Limits} {history : List (Op × Outcome)}
    (h : Run hp countsInWord role limits history c) :
    c.held + handedTotal history = acceptedTotal history := by
  refine Lib.Run.invariant_history (P := fun history c =>
    c.held + handedTotal history = acceptedTotal history) rfl ?_ h
  intro history c op hc hop
  have hone : ∀ (count : Op × Outcome → Nat) (entry : Op × Outcome),
      ((history ++ [entry]).map count).sum = (history.map count).sum + count entry := by
    intro count entry
    rw [List.map_append, List.sum_append, List.map_singleton, List.sum_singleton]
  have hcount : (step hp op c).2.held + handedCount (op, (step hp op c).1) =
      c.held + acceptedCount (op, (step hp op c).1) := step_count hop.2
  unfold handedTotal acceptedTotal at hc ⊢
  rw [hone, hone]
  omega

/-- As long as every sum fits a machine word, the count of held bytes is what has
been accepted and not handed over, and payload the decoder may still take. From
there a sum that fits is exactly what makes the next call exact. -/
theorem held_count_is_exact_in_a_word {role : Role} {limits : Limits}
    {history : List (Op × Outcome)} (h : Run hp countsInWord role limits history c) :
    c.held + handedTotal history = acceptedTotal history ∧
    (c.held ≠ 0 → c.peerState = .sendBody ∧ c.cycle.reader.Room c.held) ∧
    (∀ count, count ≤ usizeMax →
      (c.HoldsExactly count ↔ c.InWord (.holdBodyData count)) ∧
      ((c.AddsCount count → usizeAdd c.held count = c.held + count) ↔
        c.InWord (.holdBodyData count))) ∧
    (∀ response, (∀ remaining, c.cycle.reader = .fixed remaining →
        usizeAdd c.held c.input.asSlice.length = c.held + c.input.asSlice.length) ↔
      c.InWord (.sendResponse response)) := by
  refine ⟨run_count h, run_heldFits h, fun count hcount => ⟨⟨fun hexact hadds => ?_, holdBodyData_exact⟩,
    forall_congr' fun _ => usizeAdd_exact⟩, fun response => forall₂_congr fun _ _ => usizeAdd_exact⟩
  by_contra hsum
  exact holdBodyData_wraps (run_heldFits h) hcount hadds (by omega) hexact

/-- A request with ten bytes of content. -/
def tenBytesHead : Bytes :=
  ascii "POST / HTTP/1.1\r\nHost: a\r\nContent-Length: 10\r\n\r\n"

/-- One byte is held, and no more than nine after it are exact. -/
theorem one_byte_held_of_ten :
    ∃ history c, Run Reference.httparse countsInWord .server .default history c ∧ c.held = 1 ∧
      c.held + handedTotal history = acceptedTotal history ∧ c.HoldsExactly 9 := by
  have hpermitted : Lib.Permitted (step Reference.httparse) countsInWord (new .server .default)
      [.receiveData tenBytesHead, .nextEvent, .holdBodyData 1] := by
    refine ⟨⟨trivial, trivial⟩, ⟨?_, trivial⟩, ⟨trivial, fun _ => ?_⟩, trivial⟩
    · show Connection.held _ = 0
      decide +kernel
    · decide +kernel
  have hrun : Run Reference.httparse countsInWord .server .default _ _ := Lib.Run.trace _ _ hpermitted
  have hone : Connection.held (Lib.trace (step Reference.httparse) (new .server .default)
      [.receiveData tenBytesHead, .nextEvent, .holdBodyData 1]).2 = 1 := by
    decide +kernel
  obtain ⟨htotal, _, hexact, _⟩ := held_count_is_exact_in_a_word hrun
  refine ⟨_, _, hrun, hone, htotal, ((hexact 9 (by decide)).1).mpr fun _ => ?_⟩
  rw [hone]
  decide

/-- With one byte held, the largest count there is wraps to nothing held, and is
accepted. -/
theorem largest_count_wraps :
    ¬∀ (hp : Httparse) (role : Role) (limits : Limits) (history : List (Op × Outcome)) (c : Connection)
      (count : Nat), Run hp handsOverFirst role limits history c → count ≤ usizeMax →
      (holdBodyData count c).1 = true → (holdBodyData count c).2.held = c.held + count := by
  intro h
  have hpermitted : Lib.Permitted (step Reference.httparse) handsOverFirst (new .server .default)
      [.receiveData tenBytesHead, .nextEvent, .holdBodyData 1] := by
    refine ⟨trivial, ?_, trivial, trivial⟩
    show Connection.held _ = 0
    decide +kernel
  have hrun : Run Reference.httparse handsOverFirst .server .default _ _ := Lib.Run.trace _ _ hpermitted
  have hheld := h _ _ _ _ _ usizeMax hrun (Nat.le_refl _) (by decide +kernel)
  exact absurd hheld (by decide +kernel)

end H11r.Connection
