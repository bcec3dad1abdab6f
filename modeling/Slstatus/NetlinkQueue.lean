import Slstatus.Lib.Transition
import Slstatus.DumpLaw
import Slstatus.PercWalk

/-! The three functions of wifi.c on their one socket. The kernel queues the answer to
each request behind what is still unread, `recv` takes the oldest datagram, and none
of the functions compares a sequence number. -/

namespace Slstatus

open Netlink

/-- A datagram with the sequence number of the request that it answers. -/
abbrev Queue := List (UInt32 × Bytes)

/-- A request, and the sequence numbers of the datagrams that the call which sent it
received. -/
structure Exchange where
  seq : UInt32
  received : List UInt32
  deriving DecidableEq

/-- `stopped` once a call does not return. -/
structure NetWorld where
  nl : NlState := {}
  queue : Queue := []
  log : List Exchange := []
  stopped : Bool := false

structure FamilyCall where
  socket : Int
  send : Int
  recvFails : Bool
  answer : Bytes

structure EssidCall where
  family : FamilyCall
  ifindex : Int
  send : Int
  recvFails : Bool
  answer : Bytes

/-- The answer to the dump is a series of datagrams, and each call of `recv` can fail. -/
structure PercCall where
  family : FamilyCall
  ifindex : Int
  send : Int
  recvFails : Nat → Bool
  answer : List Bytes

inductive WifiCall
  | family (c : FamilyCall)
  | essid (c : EssidCall)
  | perc (c : PercCall)

/-- One call of `recv`. -/
def recvFrom (fails : Bool) : Queue → Option (UInt32 × Bytes) × Queue
  | [] => (none, [])
  | dg :: queue => if fails then (none, dg :: queue) else (some dg, queue)

/-- What the calls of `recv` return, from the `i`-th on: datagrams up to the first
failure. -/
def recvResults (fails : Nat → Bool) : Nat → Queue → List (Option Bytes)
  | i, [] => if fails i then [none] else []
  | i, dg :: queue => if fails i then [none] else some dg.2 :: recvResults fails (i + 1) queue

def datagrams (recvs : List (Option Bytes)) : List Bytes := recvs.filterMap id

/-- The request for the family goes out. -/
def FamilyCall.Asks (c : FamilyCall) (s : NlState) : Prop :=
  s.id = 0 ∧ (0 ≤ s.nlsock ∨ 0 ≤ c.socket) ∧ c.send = 32

instance (c : FamilyCall) (s : NlState) : Decidable (c.Asks s) := inferInstanceAs (Decidable (_ ∧ _))

def EssidCall.Asks (c : EssidCall) (fam : Nat) : Prop := fam ≠ 0 ∧ 0 ≤ c.ifindex ∧ c.send = 28

instance (c : EssidCall) (fam : Nat) : Decidable (c.Asks fam) := inferInstanceAs (Decidable (_ ∧ _))

def PercCall.Asks (c : PercCall) : Prop := 0 ≤ c.ifindex ∧ c.send = 28

instance (c : PercCall) : Decidable c.Asks := inferInstanceAs (Decidable (_ ∧ _))

namespace NetWorld

/-- The request just sent is answered by `received`, and `queue` is left. -/
def exchange (w : NetWorld) (received queue : Queue) (nl : NlState) : NetWorld :=
  { w with nl := nl, queue := queue, log := w.log ++ [⟨w.nl.seq, received.map Prod.fst⟩] }

def familyCall (w : NetWorld) (c : FamilyCall) : Except Fault Nat × NetWorld :=
  if c.Asks w.nl then
    let got := recvFrom c.recvFails (w.queue ++ [(w.nl.seq, c.answer)])
    let out := family ⟨c.socket, c.send, got.1.map Prod.snd⟩ w.nl
    (out.1, w.exchange got.1.toList got.2 out.2)
  else
    let out := family ⟨c.socket, c.send, none⟩ w.nl
    (out.1, { w with nl := out.2 })

def essidCall (w : NetWorld) (c : EssidCall) : NetWorld :=
  match w.familyCall c.family with
  | (.error _, w) => { w with stopped := true }
  | (.ok fam, w) =>
    if c.Asks fam then
      let got := recvFrom c.recvFails (w.queue ++ [(w.nl.seq, c.answer)])
      let out := essidRequest fam c.ifindex c.send (got.1.map Prod.snd) w.nl
      { w.exchange got.1.toList got.2 out.2 with
        stopped := match out.1 with | .ok _ => false | .error _ => true }
    else { w with nl := (essidRequest fam c.ifindex c.send none w.nl).2 }

def percCall (w : NetWorld) (c : PercCall) : NetWorld :=
  match w.familyCall c.family with
  | (.error _, w) => { w with stopped := true }
  | (.ok _, w) =>
    if c.Asks then
      let queue := w.queue ++ c.answer.map (fun dg => (w.nl.seq, dg))
      let recvs := recvResults c.recvFails 0 queue
      let out := percRequest c.ifindex c.send recvs w.nl
      let taken := (datagrams recvs).length - (datagrams out.2.1).length
      { w.exchange (queue.take taken) (queue.drop taken) out.2.2 with
        stopped := match out.1 with | .ok (.returned _) => false | _ => true }
    else { w with nl := (percRequest c.ifindex c.send [] w.nl).2.2 }

def call (w : NetWorld) : WifiCall → NetWorld
  | .family c =>
    let out := w.familyCall c
    { out.2 with stopped := match out.1 with | .ok _ => false | .error _ => true }
  | .essid c => w.essidCall c
  | .perc c => w.percCall c

def step (w : NetWorld) (c : WifiCall) : Option NetWorld := if w.stopped then none else some (w.call c)

/-- Every datagram received carries the sequence number of the request of its call. -/
def Matched (w : NetWorld) : Prop := ∀ x ∈ w.log, ∀ seq ∈ x.received, seq = x.seq

end NetWorld

def FamilyCall.Orderly (c : FamilyCall) (w : NetWorld) : Prop := c.Asks w.nl → c.recvFails = false

/-- No `recv` fails that an answer waits for, and nothing in a datagram before the last
ends the call: it has a header, and no NLMSG_DONE where the walk looks. -/
def Orderly (w : NetWorld) : WifiCall → Prop
  | .family c => c.Orderly w
  | .essid c => c.family.Orderly w ∧
    ∀ fam w', w.familyCall c.family = (.ok fam, w') → c.Asks fam → c.recvFails = false
  | .perc c => c.family.Orderly w ∧
    ((w.familyCall c.family).1.isOk → c.Asks →
      (∀ i < c.answer.length, c.recvFails i = false) ∧
      ∀ dg ∈ c.answer.dropLast, 16 ≤ dg.length ∧
        ∀ h ∈ messages id (dg.take 4097), h.type ≠ nlmsgDoneType)

section Receive

/-- A pass that received a datagram leaves the later results of `recv` alone, and it
returns only over one that is too short or has an NLMSG_DONE. -/
theorem percBody_received (dg : Bytes) (recvs : List (Option Bytes)) (resp : Buffer 4097)
    (strength : Bytes) :
    (∃ t, percBody ⟨some dg :: recvs, resp, strength⟩ = .inl t ∧ t.recvs = recvs) ∨
    ∃ out t, percBody ⟨some dg :: recvs, resp, strength⟩ = .inr (out, t) ∧ t.recvs = recvs ∧
      ∀ perc, out = .ok (.returned perc) →
        dg.length < 16 ∨ ∃ h ∈ messages id (dg.take 4097), h.type = nlmsgDoneType := by
  by_cases hshort : min dg.length 4097 < 16
  · right
    refine ⟨.ok (.returned none), ⟨recvs, resp.write dg, strength⟩, ?_, rfl, ?_⟩
    · simp only [percBody, if_pos hshort]
    · intro _ _
      exact .inl (by omega)
  · obtain ⟨hends, hreturns⟩ := received_walk_iff resp dg strength
    cases hwalk : walk (resp.write dg).1 (min dg.length 4097) strength with
    | error f =>
      right
      refine ⟨.error f, ⟨recvs, resp.write dg, strength⟩, ?_, rfl, ?_⟩
      · simp only [percBody, if_neg hshort, hwalk]
      · intro _ h
        cases h
    | ok out =>
      cases out with
      | passed strength' =>
        left
        exact ⟨⟨recvs, resp.write dg, strength'⟩, by simp only [percBody, if_neg hshort, hwalk],
          rfl⟩
      | returned perc =>
        right
        refine ⟨.ok (.returned perc), ⟨recvs, resp.write dg, strength⟩, ?_, rfl, ?_⟩
        · simp only [percBody, if_neg hshort, hwalk]
        · intro _ _
          have hpasses := hends.mp ⟨_, _, run_of_walk hwalk⟩
          exact .inr ((hreturns hpasses).mp ⟨perc, hwalk⟩)

theorem datagrams_of_none {rs : List (Option Bytes)} (h : ∀ r ∈ rs, r = none) :
    datagrams rs = [] := by
  rw [datagrams, List.filterMap_eq_nil_iff]
  intro r hr
  rw [h r hr]
  rfl

theorem datagrams_append (dgs : List Bytes) {tail : List (Option Bytes)}
    (htail : ∀ r ∈ tail, r = none) : datagrams (dgs.map some ++ tail) = dgs := by
  have hnone := datagrams_of_none htail
  rw [datagrams] at hnone ⊢
  rw [List.filterMap_append, hnone, List.append_nil, List.filterMap_map]
  exact List.filterMap_some

theorem no_done_of_next {dg : Bytes} {recvs : List (Option Bytes)} {resp : Buffer 4097}
    {strength : Bytes} {t : PercState}
    (h : percBody ⟨some dg :: recvs, resp, strength⟩ = .inl t) :
    16 ≤ dg.length ∧ ∀ h ∈ messages id (dg.take 4097), h.type ≠ nlmsgDoneType := by
  have hlong : ¬ min dg.length 4097 < 16 := by
    intro hshort
    simp [percBody, hshort] at h
  obtain ⟨hends, hreturns⟩ := received_walk_iff resp dg strength
  refine ⟨by omega, fun hd hhd htype => ?_⟩
  cases hwalk : walk (resp.write dg).1 (min dg.length 4097) strength with
  | error f => simp [percBody, hlong, hwalk] at h
  | ok out =>
    have hpasses := hends.mp ⟨_, _, run_of_walk hwalk⟩
    obtain ⟨perc, hperc⟩ := (hreturns hpasses).mpr ⟨hd, hhd, htype⟩
    simp [percBody, hlong, hperc] at h

theorem plain_no_done {d : StationDump} {resp : Buffer 4097} (hfits : d.Fits)
    (hplain : d.Plain resp) : ∀ dg ∈ d.encode.dropLast, 16 ≤ dg.length ∧
      ∀ h ∈ messages id (dg.take 4097), h.type ≠ nlmsgDoneType := by
  intro bytes hbytes
  rw [StationDump.encode, List.dropLast_concat] at hbytes
  obtain ⟨dg, hdg, rfl⟩ := List.mem_map.mp hbytes
  have hfit : dg.encode.length ≤ 4097 := hfits _ (List.mem_append_left _ hbytes)
  obtain ⟨ms, m, hms⟩ : ∃ ms m, dg.messages = ms ++ [m] :=
    ⟨_, _, (List.dropLast_append_getLast (hplain.nonempty dg hdg)).symm⟩
  have henc : dg.encode = concat dg.padLast (ms.map StationMessage.encode ++ [m.encode]) := by
    rw [StationDatagram.encode, hms, List.map_append]
    rfl
  have halign := hplain.aligned dg hdg
  rw [hms, List.dropLast_concat] at halign
  have hstep : percBody ⟨[some dg.encode], resp, []⟩ = .inl _ :=
    (datagram_step henc hfit [] []).2 halign
  exact no_done_of_next hstep

theorem percLoop_drains {dgs : List Bytes} {tail : List (Option Bytes)} {resp : Buffer 4097}
    {strength : Bytes} {t : PercState} {perc : Option Bytes} {n : Nat}
    (hdgs : ∀ dg ∈ dgs.dropLast, 16 ≤ dg.length ∧
      ∀ h ∈ messages id (dg.take 4097), h.type ≠ nlmsgDoneType)
    (htail : ∀ r ∈ tail, r = none)
    (hrun : WhileLoop.run percBody n ⟨dgs.map some ++ tail, resp, strength⟩ =
      some (.ok (.returned perc), t)) : datagrams t.recvs = [] := by
  induction n generalizing dgs resp strength with
  | zero => cases hrun
  | succ n ih =>
    cases dgs with
    | nil =>
      cases tail with
      | nil =>
        have hbody : percBody ⟨[].map some ++ [], resp, strength⟩ =
            .inr (.ok .waiting, ⟨[], resp, strength⟩) := rfl
        rw [WhileLoop.run_exit hbody] at hrun
        cases hrun
      | cons r tail =>
        obtain rfl := htail r List.mem_cons_self
        have hbody : percBody ⟨[].map some ++ none :: tail, resp, strength⟩ =
            .inr (.ok (.returned none), ⟨tail, resp, strength⟩) := rfl
        rw [WhileLoop.run_exit hbody] at hrun
        obtain rfl := (Prod.mk.inj (Option.some.inj hrun)).2
        exact datagrams_of_none fun r hr => htail r (List.mem_cons_of_mem _ hr)
    | cons dg dgs =>
      rcases percBody_received dg (dgs.map some ++ tail) resp strength with
        ⟨u, hbody, hu⟩ | ⟨out, u, hbody, hu, hout⟩
      · have hrest : ∀ dg ∈ dgs.dropLast, 16 ≤ dg.length ∧
            ∀ h ∈ messages id (dg.take 4097), h.type ≠ nlmsgDoneType := by
          intro dg' hdg'
          cases dgs with
          | nil => cases hdg'
          | cons dg'' dgs => exact hdgs dg' (List.mem_cons_of_mem dg hdg')
        obtain ⟨recvs, resp', strength'⟩ := u
        obtain rfl := hu
        exact ih hrest ((WhileLoop.run_next hbody n).symm.trans hrun)
      · have hstop := (WhileLoop.run_exit hbody n).symm.trans hrun
        obtain ⟨rfl, rfl⟩ := Prod.mk.inj (Option.some.inj hstop)
        cases dgs with
        | nil =>
          rw [hu]
          exact datagrams_of_none htail
        | cons dg' dgs =>
          obtain ⟨hlong, hdone⟩ := hdgs dg List.mem_cons_self
          rcases hout perc rfl with hshort | ⟨h, hh, htype⟩
          · omega
          · exact absurd htype (hdone h hh)

end Receive

theorem recvResults_eq {fails : Nat → Bool} (k : Nat) (queue : Queue)
    (h : ∀ i < queue.length, fails (k + i) = false) :
    ∃ tail, (∀ r ∈ tail, r = none) ∧
      recvResults fails k queue = queue.map (fun dg => some dg.2) ++ tail := by
  induction queue generalizing k with
  | nil =>
    by_cases hk : fails k = true
    · exact ⟨[none], by simp, by simp [recvResults, hk]⟩
    · exact ⟨[], by simp, by simp [recvResults, hk]⟩
  | cons dg queue ih =>
    have hk : fails k = false := h 0 (Nat.succ_pos _)
    have hshift : ∀ i < queue.length, fails (k + 1 + i) = false := by
      intro i hi
      have hi' := h (i + 1) (Nat.succ_lt_succ hi)
      rwa [show k + (i + 1) = k + 1 + i by omega] at hi'
    obtain ⟨tail, htail, hrest⟩ := ih (k + 1) hshift
    exact ⟨tail, htail, by simp [recvResults, hk, hrest]⟩

namespace NetWorld

/-- Between two calls nothing is left in the socket. -/
structure Quiet (w : NetWorld) : Prop where
  matched : w.Matched
  empty : w.stopped = true ∨ w.queue = []

theorem matched_exchange {w : NetWorld} {received queue : Queue} {nl : NlState}
    (hw : w.Matched) (h : ∀ dg ∈ received, dg.1 = w.nl.seq) :
    (w.exchange received queue nl).Matched := by
  intro x hx seq hseq
  rcases List.mem_append.mp hx with hx | hx
  · exact hw x hx seq hseq
  · obtain rfl := List.mem_singleton.mp hx
    obtain ⟨dg, hdg, rfl⟩ := List.mem_map.mp hseq
    exact h dg hdg

theorem recvFrom_single (seq : UInt32) (answer : Bytes) :
    recvFrom false ([] ++ [(seq, answer)]) = (some (seq, answer), []) := rfl

theorem familyCall_quiet {w : NetWorld} {c : FamilyCall} (hw : w.Matched) (hq : w.queue = [])
    (hc : c.Orderly w) : (w.familyCall c).2.Matched ∧ (w.familyCall c).2.queue = [] := by
  by_cases hasks : c.Asks w.nl
  · simp only [familyCall, if_pos hasks, hc hasks, hq, recvFrom_single]
    exact ⟨matched_exchange hw (by simp), rfl⟩
  · simp only [familyCall, if_neg hasks]
    exact ⟨hw, hq⟩

theorem essidCall_quiet {w : NetWorld} {c : EssidCall} (hw : w.Matched) (hq : w.queue = [])
    (hc : Orderly w (.essid c)) : (w.essidCall c).Quiet := by
  obtain ⟨hfam, hrecv⟩ := hc
  obtain ⟨hw', hq'⟩ := familyCall_quiet hw hq hfam
  cases hcall : w.familyCall c.family with
  | mk out w' =>
  rw [hcall] at hw' hq'
  simp only at hw' hq'
  cases out with
  | error f =>
    simp only [essidCall, hcall]
    exact ⟨hw', .inl rfl⟩
  | ok fam =>
    by_cases hasks : c.Asks fam
    · simp only [essidCall, hcall, if_pos hasks, hrecv fam w' hcall hasks, hq', recvFrom_single]
      have hmatched : (w'.exchange (some (w'.nl.seq, c.answer)).toList [] w'.nl).Matched :=
        matched_exchange hw' (by simp)
      exact ⟨hmatched, .inr rfl⟩
    · simp only [essidCall, hcall, if_neg hasks]
      exact ⟨hw', .inr hq'⟩

theorem percCall_quiet {w : NetWorld} {c : PercCall} (hw : w.Matched) (hq : w.queue = [])
    (hc : Orderly w (.perc c)) : (w.percCall c).Quiet := by
  obtain ⟨hfam, hrecv⟩ := hc
  obtain ⟨hw', hq'⟩ := familyCall_quiet hw hq hfam
  cases hcall : w.familyCall c.family with
  | mk out w' =>
  rw [hcall] at hw' hq' hrecv
  simp only at hw' hq' hrecv
  cases out with
  | error f =>
    simp only [percCall, hcall]
    exact ⟨hw', .inl rfl⟩
  | ok fam =>
    by_cases hasks : c.Asks
    · obtain ⟨hfails, hdgs⟩ := hrecv rfl hasks
      let queue : Queue := c.answer.map (fun dg => (w'.nl.seq, dg))
      have hlen : queue.length = c.answer.length := List.length_map _
      have hfails' : ∀ i < queue.length, c.recvFails (0 + i) = false := by
        intro i hi
        rw [Nat.zero_add]
        exact hfails i (hlen ▸ hi)
      obtain ⟨tail, htail, hrecvs⟩ := recvResults_eq 0 queue hfails'
      have hmap : queue.map (fun dg => some dg.2) = c.answer.map some := by
        simp [queue, Function.comp_def]
      rw [hmap] at hrecvs
      have hmatched : ∀ n, (w'.exchange (queue.take n) [] w'.nl).Matched := by
        intro n
        refine matched_exchange hw' fun dg hdg => ?_
        obtain ⟨bytes, -, rfl⟩ := List.mem_map.mp (List.mem_of_mem_take hdg)
        rfl
      simp only [percCall, hcall, if_pos hasks, hq', List.nil_append, percRequest_sent hasks]
      refine ⟨hmatched _, ?_⟩
      cases hloop : percLoop ⟨recvResults c.recvFails 0 queue, w'.nl.resp, []⟩ with
      | mk out t =>
      cases out with
      | error f => exact .inl rfl
      | ok e =>
        cases e with
        | waiting => exact .inl rfl
        | returned perc =>
          right
          have hrun := run_of_percLoop hloop
          rw [hrecvs] at hrun
          have hnone := percLoop_drains hdgs htail hrun
          have htaken : (datagrams (recvResults c.recvFails 0 queue)).length = queue.length := by
            rw [hrecvs, datagrams_append c.answer htail, hlen]
          have hdrop : queue.drop ((datagrams (recvResults c.recvFails 0 queue)).length -
              (datagrams t.recvs).length) = [] := by
            rw [htaken, hnone]
            exact List.drop_of_length_le (Nat.le_refl _)
          exact hdrop
    · simp only [percCall, hcall, if_neg hasks]
      exact ⟨hw', .inr hq'⟩

theorem call_quiet {w : NetWorld} {c : WifiCall} (hw : w.Matched) (hq : w.queue = [])
    (hc : Orderly w c) : (w.call c).Quiet := by
  cases c with
  | family c =>
    obtain ⟨hmatched, hempty⟩ := familyCall_quiet hw hq hc
    exact ⟨hmatched, .inr hempty⟩
  | essid c => exact essidCall_quiet hw hq hc
  | perc c => exact percCall_quiet hw hq hc

theorem step_quiet {w w' : NetWorld} {c : WifiCall} (hw : w.Quiet) (hc : Orderly w c)
    (h : step w c = some w') : w'.Quiet := by
  by_cases hstop : w.stopped = true
  · rw [step, if_pos hstop] at h
    cases h
  · rw [step, if_neg hstop] at h
    obtain rfl := Option.some.inj h
    rcases hw.empty with hstop' | hempty
    · exact absurd hstop' hstop
    · exact call_quiet hw.matched hempty hc

end NetWorld

/-- The calls of the model are those of the program, with what `recv` finds. -/
theorem NetWorld.familyCall_eq (w : NetWorld) (c : FamilyCall) :
    ∃ recv, ((w.familyCall c).1, (w.familyCall c).2.nl) = family ⟨c.socket, c.send, recv⟩ w.nl := by
  by_cases hasks : c.Asks w.nl
  · refine ⟨(recvFrom c.recvFails (w.queue ++ [(w.nl.seq, c.answer)])).1.map Prod.snd, ?_⟩
    simp only [familyCall, if_pos hasks, exchange]
  · exact ⟨none, by simp only [familyCall, if_neg hasks]⟩

theorem NetWorld.essidCall_eq (w : NetWorld) (c : EssidCall) :
    ∃ io : EssidIo, io.ifindex = c.ifindex ∧ io.send = c.send ∧
      (w.essidCall c).nl = (wifiEssid io w.nl).2 := by
  obtain ⟨recv, hfam⟩ := w.familyCall_eq c.family
  cases hcall : w.familyCall c.family with
  | mk out w' =>
  rw [hcall] at hfam
  cases out with
  | error f =>
    exact ⟨⟨⟨c.family.socket, c.family.send, recv⟩, c.ifindex, c.send, none⟩, rfl, rfl, by
      simp only [essidCall, hcall, wifiEssid, ← hfam]⟩
  | ok fam =>
    by_cases hasks : c.Asks fam
    · let got := recvFrom c.recvFails (w'.queue ++ [(w'.nl.seq, c.answer)])
      exact ⟨⟨⟨c.family.socket, c.family.send, recv⟩, c.ifindex, c.send, got.1.map Prod.snd⟩, rfl,
        rfl, by simp only [essidCall, hcall, wifiEssid, ← hfam, if_pos hasks, exchange, got]⟩
    · exact ⟨⟨⟨c.family.socket, c.family.send, recv⟩, c.ifindex, c.send, none⟩, rfl, rfl, by
        simp only [essidCall, hcall, wifiEssid, ← hfam, if_neg hasks]⟩

theorem NetWorld.percCall_eq (w : NetWorld) (c : PercCall) :
    ∃ io : PercIo, io.ifindex = c.ifindex ∧ io.send = c.send ∧
      (w.percCall c).nl = (wifiPerc io w.nl).2.2 := by
  obtain ⟨recv, hfam⟩ := w.familyCall_eq c.family
  cases hcall : w.familyCall c.family with
  | mk out w' =>
  rw [hcall] at hfam
  cases out with
  | error f =>
    exact ⟨⟨⟨c.family.socket, c.family.send, recv⟩, c.ifindex, c.send, []⟩, rfl, rfl, by
      simp only [percCall, hcall, wifiPerc, ← hfam]⟩
  | ok fam =>
    by_cases hasks : c.Asks
    · let queue := w'.queue ++ c.answer.map (fun dg => (w'.nl.seq, dg))
      exact ⟨⟨⟨c.family.socket, c.family.send, recv⟩, c.ifindex, c.send,
        recvResults c.recvFails 0 queue⟩, rfl, rfl, by
        simp only [percCall, hcall, wifiPerc, ← hfam, if_pos hasks, exchange, queue]⟩
    · exact ⟨⟨⟨c.family.socket, c.family.send, recv⟩, c.ifindex, c.send, []⟩, rfl, rfl, by
        simp only [percCall, hcall, wifiPerc, ← hfam, if_neg hasks]⟩

theorem orderly_of_plain {w : NetWorld} {c : PercCall} {d : StationDump} {resp : Buffer 4097}
    (hfam : c.family.Orderly w) (hfails : ∀ i, c.recvFails i = false) (hd : c.answer = d.encode)
    (hfits : d.Fits) (hplain : d.Plain resp) : Orderly w (.perc c) := by
  refine ⟨hfam, fun _ _ => ⟨fun i _ => hfails i, ?_⟩⟩
  rw [hd]
  exact plain_no_done hfits hplain

def lookup (recvFails : Bool) : FamilyCall :=
  ⟨3, 32, recvFails, (Reply.newFamily familyReply).encode 0⟩

end Slstatus
