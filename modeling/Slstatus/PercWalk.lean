import Slstatus.WifiPerc

/-! When the walk of `wifi_perc` over the messages of a datagram ends, and when it ends
the call. The walk steps from header to header by `nlmsg_len`, which netlink rounds
up to a multiple of four, and it knows only one of the two messages that end an
answer. -/

namespace Slstatus

open Netlink

/-- The walk gets past the messages from this list on: their attributes can be
searched, and none before the first NLMSG_DONE has length zero. -/
def Passes (mem : Bytes) (r : Nat) : List Header → Bytes → Prop
  | [], _ => True
  | h :: hs, strength =>
    ∃ strength', readStrength mem r h.pos h.len strength = .ok strength' ∧
      (h.type = nlmsgDoneType ∨ h.len ≠ 0 ∧ Passes mem r hs strength')

section Walk

variable {mem : Bytes} {r : Nat}

theorem walkBody_header {p : Nat} (strength : Bytes) (hr : r ≤ mem.length) (h : 16 ≤ r - p) :
    ∃ hd : Header, headerAt (mem.take r) p = some hd ∧ hd.pos = p ∧
      walkBody mem r ⟨p, strength⟩ =
        match readStrength mem r p hd.len strength with
        | .error f => .inr (.error f)
        | .ok strength' =>
          if hd.type = nlmsgDoneType then .inr (.ok (.returned (percResult strength')))
          else .inl ⟨messageEnd p r hd.len, strength'⟩ := by
  have hlen : (mem.take r).length = r := by
    rw [List.length_take]
    omega
  have hgo : p ≠ r ∧ 16 ≤ r - p := ⟨by omega, h⟩
  obtain ⟨l0, l1, l2, l3, mid, hcut, hmid⟩ := drop_take_header (p := p) hr (by omega)
  obtain ⟨t0, t1, t2, t3, rest, hcut', -⟩ := drop_take_header (p := p + 4) hr (by omega)
  rw [← List.drop_drop, hcut] at hcut'
  simp only [List.drop_succ_cons, List.drop_zero] at hcut'
  have hmem := drop_eq_append (by omega : p ≤ r) hr
  rw [hcut, hcut'] at hmem
  rw [hcut'] at hcut
  refine ⟨_, headerAt_of_drop hcut (by omega), rfl, ?_⟩
  cases hread : readStrength mem r p (word32 l0 l1 l2 l3) strength with
  | error f => simp only [walkBody, if_pos hgo, hmem, List.cons_append, hread]
  | ok strength' => simp only [walkBody, if_pos hgo, hmem, List.cons_append, hread]

theorem headers_messageEnd {bs : Bytes} (hr : bs.length = r) (n p len : Nat) :
    headers id bs n (messageEnd p r len) = headers id bs n (p + len) := by
  by_cases hlong : r - p < len
  · rw [messageEnd, if_pos hlong, headers_short id n (by omega), headers_short id n (by omega)]
  · rw [messageEnd, if_neg hlong]

theorem run_walkBody_iff (hr : r ≤ mem.length) {n m p : Nat} (strength : Bytes) (hn : r - p < n)
    (hm : r - p < m) :
    ((∃ w, WhileLoop.run (walkBody mem r) n ⟨p, strength⟩ = some (.ok w)) ↔
      Passes mem r (headers id (mem.take r) m p) strength) ∧
    (Passes mem r (headers id (mem.take r) m p) strength →
      ((∃ perc, WhileLoop.run (walkBody mem r) n ⟨p, strength⟩ = some (.ok (.returned perc))) ↔
        ∃ h ∈ headers id (mem.take r) m p, h.type = nlmsgDoneType)) := by
  have hlen : (mem.take r).length = r := by
    rw [List.length_take]
    omega
  -- each pass leaves fewer bytes or leaves the loop
  induction n generalizing m p strength with
  | zero => omega
  | succ n ih =>
    cases m with
    | zero => omega
    | succ m =>
      by_cases hgo : 16 ≤ r - p
      · obtain ⟨hd, hat, rfl, hbody⟩ := walkBody_header strength hr hgo
        rw [headers_cons id m hat]
        cases hread : readStrength mem r hd.pos hd.len strength with
        | error f =>
          simp only [hread] at hbody
          rw [WhileLoop.run_exit hbody]
          simp [Passes, hread]
        | ok strength' =>
          simp only [hread] at hbody
          by_cases hdone : hd.type = nlmsgDoneType
          · rw [if_pos hdone] at hbody
            rw [WhileLoop.run_exit hbody]
            simp [Passes, hread, hdone]
          · rw [if_neg hdone] at hbody
            by_cases hzero : hd.len = 0
            · have hsame : readStrength mem r hd.pos hd.len strength = .ok strength := by
                rw [hzero, readStrength_zero]
              obtain rfl := Except.ok.inj (hread.symm.trans hsame)
              have hstay : messageEnd hd.pos r hd.len = hd.pos := by simp [messageEnd, hzero]
              rw [hstay] at hbody
              rw [WhileLoop.run_stuck hbody]
              simp [Passes, hdone, hzero]
            · have hnext : hd.pos < messageEnd hd.pos r hd.len := by
                unfold messageEnd
                split <;> omega
              have hrest := ih (m := m) strength'
                (by omega : r - messageEnd hd.pos r hd.len < n) (by omega)
              rw [headers_messageEnd hlen] at hrest
              rw [WhileLoop.run_next hbody]
              simpa [Passes, hread, hdone, hzero] using hrest
      · rw [WhileLoop.run_exit (walkBody_passed (c := ⟨p, strength⟩) hgo),
          headers_short id (m + 1) (by omega)]
        simp [Passes]

theorem walk_iff (hr : r ≤ mem.length) (strength : Bytes) :
    ((∃ fuel w, WhileLoop.run (walkBody mem r) fuel ⟨0, strength⟩ = some (.ok w)) ↔
      Passes mem r (messages id (mem.take r)) strength) ∧
    (Passes mem r (messages id (mem.take r)) strength →
      ((∃ perc, walk mem r strength = .ok (.returned perc)) ↔
        ∃ h ∈ messages id (mem.take r), h.type = nlmsgDoneType)) := by
  have hlen : (mem.take r).length = r := by
    rw [List.length_take]
    omega
  obtain ⟨hends, hreturns⟩ := run_walkBody_iff hr strength (by omega : r - 0 < r + 1)
    (by omega : r - 0 < (mem.take r).length + 1)
  constructor
  · rw [messages, ← hends]
    constructor
    · intro h
      obtain ⟨fuel, w, hrun⟩ := h
      have hrun' := WhileLoop.run_measure (fun c : Cursor => r - c.p)
        (fun _ _ hbody => walkBody_progress hbody) hrun
      exact ⟨w, hrun'⟩
    · intro h
      exact ⟨r + 1, h⟩
  · intro hpasses
    rw [messages, ← hreturns hpasses]
    obtain ⟨w, hrun⟩ := hends.mpr hpasses
    constructor
    · intro h
      obtain ⟨perc, hwalk⟩ := h
      rw [walk_of_run hrun] at hwalk
      obtain rfl := Except.ok.inj hwalk
      exact ⟨perc, hrun⟩
    · intro h
      obtain ⟨perc, hrun'⟩ := h
      exact ⟨perc, walk_of_run hrun'⟩

theorem received_walk_iff (resp : Buffer 4097) (dg strength : Bytes) :
    ((∃ fuel w, WhileLoop.run (walkBody (resp.write dg).1 (min dg.length 4097)) fuel
        ⟨0, strength⟩ = some (.ok w)) ↔
      Passes (resp.write dg).1 (min dg.length 4097) (messages id (dg.take 4097)) strength) ∧
    (Passes (resp.write dg).1 (min dg.length 4097) (messages id (dg.take 4097)) strength →
      ((∃ perc, walk (resp.write dg).1 (min dg.length 4097) strength = .ok (.returned perc)) ↔
        ∃ h ∈ messages id (dg.take 4097), h.type = nlmsgDoneType)) := by
  have hsize := (resp.write dg).2
  have hr : min dg.length 4097 ≤ (resp.write dg).1.length := by omega
  have hwalk := walk_iff hr strength
  rw [Buffer.write_take] at hwalk
  exact hwalk

end Walk

/-- The walk comes to an end, and each of its passes moves the cursor forward. -/
def WalkEnds (mem : Bytes) (r : Nat) (strength : Bytes) : Prop :=
  (∃ fuel w, WhileLoop.run (walkBody mem r) fuel ⟨0, strength⟩ = some (.ok w)) ∧
  ∀ n, ∀ c ∈ WhileLoop.trace (walkBody mem r) n ⟨0, strength⟩, ∀ c',
    walkBody mem r c = .inl c' → c.p < c'.p

/-- NLMSG_DONE and NLMSG_ERROR, with which the kernel ends an answer. -/
def EndsAnswer (h : Header) : Prop := h.type = nlmsgDoneType ∨ h.type = nlmsgErrorType

def Answered (s : PercState) : Prop :=
  ∀ dg recvs, s.recvs = some dg :: recvs → 16 ≤ dg.length →
    WalkEnds (s.resp.write dg).1 (min dg.length 4097) s.strength ∧
    ((∃ h ∈ messages align dg, EndsAnswer h) →
      ∃ perc t, percBody s = .inr (.ok (.returned perc), t))

/-- What the walk meets: messages it gets past, and an NLMSG_DONE among them where the
datagram ends the answer. -/
def DoneMet (s : PercState) : Prop :=
  ∀ dg recvs, s.recvs = some dg :: recvs → 16 ≤ dg.length →
    Passes (s.resp.write dg).1 (min dg.length 4097) (messages id (dg.take 4097)) s.strength ∧
    ((∃ h ∈ messages align dg, EndsAnswer h) →
      ∃ h ∈ messages id (dg.take 4097), h.type = nlmsgDoneType)

theorem walkEnds_iff {mem : Bytes} {r : Nat} (hr : r ≤ mem.length) (strength : Bytes) :
    WalkEnds mem r strength ↔ Passes mem r (messages id (mem.take r)) strength := by
  rw [← (walk_iff hr strength).1]
  constructor
  · intro h
    exact h.1
  · intro h
    refine ⟨h, ?_⟩
    obtain ⟨fuel, w, hrun⟩ := h
    intro n c hc c' hbody
    have hne := WhileLoop.trace_not_stuck hrun hc
    rcases walkBody_progress hbody with rfl | hlt
    · exact absurd hbody hne
    · omega

theorem percBody_returns_iff {s : PercState} {dg : Bytes} {recvs : List (Option Bytes)}
    (hrecvs : s.recvs = some dg :: recvs) (hlong : 16 ≤ dg.length) :
    (∃ perc t, percBody s = .inr (.ok (.returned perc), t)) ↔
      ∃ perc, walk (s.resp.write dg).1 (min dg.length 4097) s.strength = .ok (.returned perc) := by
  have hr : ¬ min dg.length 4097 < 16 := by omega
  cases hwalk : walk (s.resp.write dg).1 (min dg.length 4097) s.strength with
  | error f => simp [percBody, hrecvs, hr, hwalk]
  | ok w =>
    cases w with
    | passed strength => simp [percBody, hrecvs, hr, hwalk]
    | returned perc => simp [percBody, hrecvs, hr, hwalk]

theorem answered_iff (s : PercState) : Answered s ↔ DoneMet s := by
  unfold Answered DoneMet
  apply forall_congr'
  intro dg
  apply forall_congr'
  intro recvs
  apply imp_congr_right
  intro hrecvs
  apply imp_congr_right
  intro hlong
  have hsize := (s.resp.write dg).2
  have hr : min dg.length 4097 ≤ (s.resp.write dg).1.length := by omega
  have hends := walkEnds_iff hr s.strength
  have hreturns := (received_walk_iff s.resp dg s.strength).2
  rw [Buffer.write_take] at hends
  rw [hends, percBody_returns_iff hrecvs hlong]
  apply and_congr_right
  intro hpasses
  rw [hreturns hpasses]

/-- In a run of the receive loop every walk ends, and the one over the datagram that
ends the answer ends the call, exactly when every walk meets what it can get past
and an NLMSG_DONE where the answer ends. -/
theorem percLoop_answered_iff (recvs : List (Option Bytes)) (resp : Buffer 4097) :
    (∀ n, ∀ s ∈ WhileLoop.trace percBody n ⟨recvs, resp, []⟩, Answered s) ↔
      ∀ n, ∀ s ∈ WhileLoop.trace percBody n ⟨recvs, resp, []⟩, DoneMet s := by
  constructor
  · intro h n s hs
    exact (answered_iff s).mp (h n s hs)
  · intro h n s hs
    exact (answered_iff s).mpr (h n s hs)

def errorDatagram : Bytes :=
  nlmsghdr 36 2 0 1 700 ++ [237, 255, 255, 255] ++ nlmsghdr 28 24 769 1 0

def zeroLengthDatagram : Bytes := nlmsghdr 0 40 0 1 700

/-- After an NLMSG_ERROR the loop waits for the next datagram, and a message of length
zero keeps the walk where it is. -/
theorem percLoop_not_answered :
    (¬ ∀ n, ∀ s ∈ WhileLoop.trace percBody n ⟨[some errorDatagram], Buffer.zeros 4097, []⟩,
      Answered s) ∧
    ¬ ∀ n, ∀ s ∈ WhileLoop.trace percBody n ⟨[some zeroLengthDatagram], Buffer.zeros 4097, []⟩,
      Answered s := by
  constructor
  · intro h
    have hmet := (answered_iff _).mp (h 1 _ List.mem_cons_self) _ _ rfl (by decide)
    exact absurd (hmet.2 ⟨⟨0, 36, 2⟩, by decide, .inr rfl⟩) (by decide)
  · intro h
    have hmet := (answered_iff _).mp (h 1 _ List.mem_cons_self) _ _ rfl (by decide)
    obtain ⟨strength, hread, hdone | hlen⟩ := hmet.1
    · exact absurd hdone (by decide)
    · exact absurd rfl hlen.1

end Slstatus
