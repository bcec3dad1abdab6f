import Slstatus.StationWalk

/-! Which station dumps `wifi_perc` decodes. The result and the messages visited are
those of the dump exactly when no length needs rounding, no search leaves the
attribute it is meant for, and nothing is found behind the last message. -/

namespace Slstatus

open Netlink

structure StationDatagram where
  messages : List StationMessage
  padLast : Bool

def StationDatagram.encode (dg : StationDatagram) : Bytes :=
  concat dg.padLast (dg.messages.map StationMessage.encode)

/-- The datagrams of an answer, the messages of the last one, and the NLMSG_DONE that
ends it. -/
structure StationDump where
  datagrams : List StationDatagram
  last : List StationMessage
  done : DoneMessage
  padLast : Bool

namespace StationDump

def lastDatagram (d : StationDump) : Bytes :=
  concat d.padLast (d.last.map StationMessage.encode ++ [d.done.encode])

def encode (d : StationDump) : List Bytes :=
  d.datagrams.map StationDatagram.encode ++ [d.lastDatagram]

def messages (d : StationDump) : List StationMessage :=
  d.datagrams.flatMap StationDatagram.messages ++ d.last

/-- The percentage of the first message that has a signal. -/
def perc (d : StationDump) : Option Bytes :=
  (d.messages.findSome? StationMessage.signal).map percText

def donePos (d : StationDump) : Nat := (concat true (d.last.map StationMessage.encode)).length

/-- Every message once, datagram by datagram, with the percentage known before it. -/
def visitsFrom (d : StationDump) : Bytes → List StationDatagram → List (List Cursor)
  | strength, [] =>
    [visits StationMessage.signal 0 strength d.last ++
      [⟨d.donePos, d.last.foldl (update StationMessage.signal) strength⟩]]
  | strength, dg :: dgs =>
    visits StationMessage.signal 0 strength dg.messages ::
      d.visitsFrom (dg.messages.foldl (update StationMessage.signal) strength) dgs

/-- The receive buffer once the whole answer has been received. -/
def buffer (d : StationDump) (resp : Buffer 4097) : Buffer 4097 :=
  d.encode.foldl (fun b dg => b.write dg) resp

def Fits (d : StationDump) : Prop := ∀ dg ∈ d.encode, dg.length ≤ 4097

instance (d : StationDump) : Decidable d.Fits := inferInstanceAs (Decidable (∀ dg ∈ d.encode, _))

/-- No datagram before the last is empty, every message that another one follows has a
length divisible by four, no message before the first signal, nor the one that has
it, makes the searches take another attribute, and none is found in NLMSG_DONE. -/
structure Plain (d : StationDump) (resp : Buffer 4097) : Prop where
  nonempty : ∀ dg ∈ d.datagrams, dg.messages ≠ []
  aligned : ∀ dg ∈ d.datagrams, ∀ m ∈ dg.messages.dropLast, align m.len = m.len
  alignedLast : ∀ m ∈ d.last, align m.len = m.len
  nested : ∀ before m after, d.messages = before ++ m :: after →
    (∀ m' ∈ before, m'.signal = none) → m.taken = m.signal
  quiet : d.perc = none → 4 < d.done.payload.length →
    takeSignal (d.buffer resp).1 (d.donePos + 20) (d.donePos + d.done.len) = .ok []

end StationDump

def visited (s : PercState) : List Cursor :=
  match s.recvs with
  | some dg :: _ => headersRead (s.resp.write dg).1 (min dg.length 4097) (min dg.length 4097 + 1)
      ⟨0, s.strength⟩
  | _ => []

/-- The call visits each message of the dump once, takes no attribute for a nested one
that is not, returns the percentage of the dump, and leaves what follows the answer. -/
def Decoded (d : StationDump) (resp : Buffer 4097) (rest : List (Option Bytes)) : Prop :=
  (WhileLoop.trace percBody d.encode.length ⟨d.encode.map some ++ rest, resp, []⟩).map visited =
    d.visitsFrom [] d.datagrams ∧
  ∃ t, WhileLoop.run percBody d.encode.length ⟨d.encode.map some ++ rest, resp, []⟩ =
      some (.ok (.returned d.perc), t) ∧
    t.recvs = rest

theorem agree_append (strength : Bytes) (ms ms' : List StationMessage) :
    Agree strength (ms ++ ms') ↔
      Agree strength ms ∧ Agree (ms.foldl (update StationMessage.signal) strength) ms' := by
  induction ms generalizing strength with
  | nil => simp [Agree]
  | cons m ms ih => simp only [List.cons_append, Agree, ih, List.foldl_cons, and_assoc]

theorem foldl_taken {strength : Bytes} {ms : List StationMessage} (h : Agree strength ms) :
    ms.foldl (update StationMessage.taken) strength =
      ms.foldl (update StationMessage.signal) strength := by
  induction ms generalizing strength with
  | nil => rfl
  | cons m ms ih =>
    rw [List.foldl_cons, List.foldl_cons, (update_eq_iff strength).mpr h.1]
    exact ih h.2

theorem agree_snoc {strength : Bytes} {ms : List StationMessage} (m : StationMessage)
    (h : Agree strength ms) :
    Agree strength (ms ++ [m]) ↔ (ms ++ [m]).foldl (update StationMessage.taken) strength =
      (ms ++ [m]).foldl (update StationMessage.signal) strength := by
  rw [agree_append, List.foldl_append, List.foldl_append, foldl_taken h]
  simp only [h, true_and, Agree, and_true, List.foldl_cons, List.foldl_nil, update_eq_iff]

section Received

variable {resp : Buffer 4097} {recvs : List (Option Bytes)} {dg : Bytes}

variable (resp) in
theorem received_pieces {xs : List Bytes} {padLast : Bool} (hdg : dg = concat padLast xs)
    (hfit : dg.length ≤ 4097) :
    (resp.write dg).1.drop 0 = concat padLast xs ++ resp.1.drop dg.length ∧
      dg.length = 0 + (concat padLast xs).length := by
  constructor
  · rw [List.drop_zero, Buffer.write_val hfit, ← hdg]
  · rw [← hdg, Nat.zero_add]

theorem visited_received (hfit : dg.length ≤ 4097) (strength : Bytes) :
    visited ⟨some dg :: recvs, resp, strength⟩ =
      headersRead (resp.write dg).1 dg.length (dg.length + 1) ⟨0, strength⟩ := by
  simp only [visited, Nat.min_eq_left hfit]

theorem percBody_walk (hfit : dg.length ≤ 4097) (hlong : 16 ≤ dg.length) (strength : Bytes) :
    percBody ⟨some dg :: recvs, resp, strength⟩ =
      match walk (resp.write dg).1 dg.length strength with
      | .error f => .inr (.error f, ⟨recvs, resp.write dg, strength⟩)
      | .ok (.returned perc) => .inr (.ok (.returned perc), ⟨recvs, resp.write dg, strength⟩)
      | .ok (.passed strength') => .inl ⟨recvs, resp.write dg, strength'⟩ := by
  have hr : ¬ dg.length < 16 := Nat.not_lt.mpr hlong
  cases hwalk : walk (resp.write dg).1 dg.length strength with
  | error f => simp only [percBody, Nat.min_eq_left hfit, if_neg hr, hwalk]
  | ok w =>
    cases w with
    | returned perc => simp only [percBody, Nat.min_eq_left hfit, if_neg hr, hwalk]
    | passed strength' => simp only [percBody, Nat.min_eq_left hfit, if_neg hr, hwalk]

end Received

section Datagram

variable {resp : Buffer 4097} {recvs : List (Option Bytes)}

theorem datagram_step {ms : List StationMessage} {m : StationMessage} {padLast : Bool} {dg : Bytes}
    (hdg : dg = concat padLast (ms.map StationMessage.encode ++ [m.encode]))
    (hfit : dg.length ≤ 4097) (strength strength' : Bytes) :
    (visited ⟨some dg :: recvs, resp, strength⟩ =
        visits StationMessage.signal 0 strength' (ms ++ [m]) ↔
      (∀ m ∈ ms, align m.len = m.len) ∧ strength = strength' ∧ Agree strength ms) ∧
    ((∀ m ∈ ms, align m.len = m.len) →
      percBody ⟨some dg :: recvs, resp, strength⟩ = .inl ⟨recvs, resp.write dg,
        (ms ++ [m]).foldl (update StationMessage.taken) strength⟩) := by
  obtain ⟨hmem, hr⟩ : _ ∧ dg.length = _ := received_pieces resp hdg hfit
  have hcount := concat_length_le ms padLast m.encode
  have hlen : 20 ≤ m.encode.length := by
    rw [m.encode_length]
    exact Nat.le_add_left 20 _
  have hx : 16 ≤ m.encode.length := by omega
  obtain ⟨hmem', hr'⟩ := drop_last_piece hmem hr
  -- behind the last message the walk finds no further header
  have hstep : ∀ t, walkBody (resp.write dg).1 dg.length
      ⟨0 + (concat true (ms.map StationMessage.encode)).length, t⟩ =
      .inl ⟨0 + (concat true (ms.map StationMessage.encode)).length + m.len,
        update StationMessage.taken t m⟩ := fun t => walkBody_station t hmem' hr'
  have hend := last_message_end hr'
  have hover : ∀ t, walkBody (resp.write dg).1 dg.length
      ⟨0 + (concat true (ms.map StationMessage.encode)).length + m.len, t⟩ =
      .inr (.ok (.passed t)) := fun t => walkBody_passed hend
  have hlast : ∀ t n, headersRead (resp.write dg).1 dg.length (n + 2)
      ⟨0 + (concat true (ms.map StationMessage.encode)).length, t⟩ =
        [⟨0 + (concat true (ms.map StationMessage.encode)).length, t⟩] := by
    intro t n
    obtain ⟨tail, htail⟩ := concat_head padLast m.encode []
    rw [htail, List.length_append] at hr'
    have hgo : 16 ≤ dg.length - (0 + (concat true (ms.map StationMessage.encode)).length) := by
      omega
    rw [headersRead_next hgo (hstep t), headersRead_short hend]
  constructor
  · rw [visited_received hfit, visits_append]
    exact datagram_visits_iff strength strength' hmem hr hx hlast (by omega)
  · intro halign
    have hrun := (walk_messages strength hmem hr hx halign).2 2
    rw [WhileLoop.run_next (hstep _), WhileLoop.run_exit (hover _)] at hrun
    rw [percBody_walk hfit (by omega), walk_of_run hrun, List.foldl_append]
    rfl

theorem done_step {ms : List StationMessage} {done : DoneMessage} {padLast : Bool} {dg : Bytes}
    (hdg : dg = concat padLast (ms.map StationMessage.encode ++ [done.encode]))
    (hfit : dg.length ≤ 4097) (strength strength' : Bytes) :
    (visited ⟨some dg :: recvs, resp, strength⟩ =
        visits StationMessage.signal 0 strength' ms ++
          [⟨(concat true (ms.map StationMessage.encode)).length,
            ms.foldl (update StationMessage.signal) strength'⟩] ↔
      (∀ m ∈ ms, align m.len = m.len) ∧ strength = strength' ∧ Agree strength ms) ∧
    ((∀ m ∈ ms, align m.len = m.len) →
      percBody ⟨some dg :: recvs, resp, strength⟩ =
        .inr ((readStrength (resp.write dg).1 dg.length
          (concat true (ms.map StationMessage.encode)).length done.len
          (ms.foldl (update StationMessage.taken) strength)).map
            (fun t => .returned (percResult t)), ⟨recvs, resp.write dg, strength⟩)) := by
  obtain ⟨hmem, hr⟩ : _ ∧ dg.length = _ := received_pieces resp hdg hfit
  have hcount := concat_length_le ms padLast done.encode
  have hx : 16 ≤ done.encode.length := by
    rw [done.encode_length]
    exact Nat.le_add_left 16 _
  obtain ⟨hmem', hr'⟩ := drop_last_piece hmem hr
  obtain ⟨tail, htail⟩ := concat_head padLast done.encode []
  rw [htail] at hmem' hr'
  rw [List.length_append] at hr'
  rw [Nat.zero_add] at hmem' hr'
  have hgo : 16 ≤ dg.length - (concat true (ms.map StationMessage.encode)).length := by omega
  have hhead : (resp.write dg).1.drop (concat true (ms.map StationMessage.encode)).length =
      le32 done.len ++ (le16 nlmsgDoneType ++ (done.fields ++ done.payload ++
        (tail ++ resp.1.drop dg.length))) := by
    rw [hmem']
    simp only [DoneMessage.encode, List.append_assoc]
  have hbody : ∀ t, walkBody (resp.write dg).1 dg.length
      ⟨(concat true (ms.map StationMessage.encode)).length, t⟩ =
      .inr ((readStrength (resp.write dg).1 dg.length
        (concat true (ms.map StationMessage.encode)).length done.len t).map
          (fun t => .returned (percResult t))) := by
    intro t
    rw [walkBody_message t hhead done.length_lt (by decide) hgo]
    cases readStrength (resp.write dg).1 dg.length
        (concat true (ms.map StationMessage.encode)).length done.len t with
    | error f => rfl
    | ok t' => rfl
  have hlast : ∀ t n, headersRead (resp.write dg).1 dg.length (n + 2)
      ⟨0 + (concat true (ms.map StationMessage.encode)).length, t⟩ =
        [⟨0 + (concat true (ms.map StationMessage.encode)).length, t⟩] := by
    intro t n
    rw [Nat.zero_add]
    simp [headersRead, WhileLoop.trace_exit (hbody t), hgo]
  constructor
  · have hiff := datagram_visits_iff (n := dg.length + 1) strength strength' hmem hr hx hlast
      (by omega)
    rw [Nat.zero_add] at hiff
    rw [visited_received hfit]
    exact hiff
  · intro halign
    have hrun := (walk_messages strength hmem hr hx halign).2 1
    rw [Nat.zero_add, WhileLoop.run_exit (hbody _)] at hrun
    rw [percBody_walk hfit (by omega), walk_of_run hrun]
    cases readStrength (resp.write dg).1 dg.length
        (concat true (ms.map StationMessage.encode)).length done.len
        (ms.foldl (update StationMessage.taken) strength) with
    | error f => rfl
    | ok t => rfl

end Datagram

theorem percResult_inj {s t : Bytes} : percResult s = percResult t ↔ s = t := by
  by_cases hs : s = []
  · by_cases ht : t = []
    · simp [hs, ht]
    · simp [percResult, hs, ht, eq_comm]
  · by_cases ht : t = []
    · simp [percResult, hs, ht]
    · simp [percResult, hs, ht]

theorem percResult_eq_none {s : Bytes} : percResult s = none ↔ s = [] := by
  simp [percResult]

theorem done_result {mem : Bytes} {r p : Nat} (done : DoneMessage) (hr : done.len ≤ r - p)
    (strength : Bytes) :
    (readStrength mem r p done.len strength).map (fun t => PercEnd.returned (percResult t)) =
        .ok (.returned (percResult strength)) ↔
      (strength = [] → 4 < done.payload.length →
        takeSignal mem (p + 20) (p + done.len) = .ok []) := by
  have hend : messageEnd p r done.len = p + done.len := by rw [messageEnd, if_neg (by omega)]
  have hlen : 20 < done.len ↔ 4 < done.payload.length := by
    unfold DoneMessage.len
    omega
  simp only [readStrength, hend, hlen]
  by_cases hs : strength = []
  · by_cases hlong : 4 < done.payload.length
    · rw [if_pos ⟨hs, hlong⟩]
      cases takeSignal mem (p + 20) (p + done.len) with
      | error f => simp [Except.map, hs, hlong]
      | ok t => simp [Except.map, percResult_inj, hs, hlong]
    · rw [if_neg (fun hand => hlong hand.2)]
      simp [Except.map, hlong]
  · rw [if_neg (fun hand => hs hand.1)]
    simp [Except.map, hs]

namespace StationDump

variable (d : StationDump)

/-- What is left of the dump when the datagrams `dgs` and the last one are to come. -/
def bytesFrom (dgs : List StationDatagram) : List Bytes :=
  dgs.map StationDatagram.encode ++ [d.lastDatagram]

def messagesFrom (dgs : List StationDatagram) : List StationMessage :=
  dgs.flatMap StationDatagram.messages ++ d.last

/-- The conditions of `Plain`, from a point where `strength` is known. -/
def PlainFrom (resp : Buffer 4097) (strength : Bytes) (dgs : List StationDatagram) : Prop :=
  (∀ dg ∈ dgs, dg.messages ≠ [] ∧ ∀ m ∈ dg.messages.dropLast, align m.len = m.len) ∧
  (∀ m ∈ d.last, align m.len = m.len) ∧ Agree strength (d.messagesFrom dgs) ∧
  ((d.messagesFrom dgs).foldl (update StationMessage.signal) strength = [] →
    4 < d.done.payload.length →
    takeSignal ((d.bytesFrom dgs).foldl (fun b dg => b.write dg) resp).1 (d.donePos + 20)
      (d.donePos + d.done.len) = .ok [])

theorem messagesFrom_cons (dg : StationDatagram) (dgs : List StationDatagram) :
    d.messagesFrom (dg :: dgs) = dg.messages ++ d.messagesFrom dgs := by
  simp [messagesFrom]

theorem visitsFrom_length (strength : Bytes) (dgs : List StationDatagram) :
    (d.visitsFrom strength dgs).length = dgs.length + 1 := by
  induction dgs generalizing strength with
  | nil => rfl
  | cons dg dgs ih => rw [visitsFrom, List.length_cons, ih, List.length_cons]

theorem plainFrom_cons {resp : Buffer 4097} {strength : Bytes} {dg : StationDatagram}
    (dgs : List StationDatagram) {ms : List StationMessage} {m : StationMessage}
    (hms : dg.messages = ms ++ [m]) :
    d.PlainFrom resp strength (dg :: dgs) ↔
      ((∀ m ∈ ms, align m.len = m.len) ∧ Agree strength ms) ∧
      dg.messages.foldl (update StationMessage.taken) strength =
        dg.messages.foldl (update StationMessage.signal) strength ∧
      d.PlainFrom (resp.write dg.encode)
        (dg.messages.foldl (update StationMessage.signal) strength) dgs := by
  have hne : dg.messages ≠ [] := by simp [hms]
  have hlast : dg.messages.dropLast = ms := by rw [hms, List.dropLast_concat]
  simp only [PlainFrom, messagesFrom_cons, bytesFrom, List.map_cons, List.cons_append,
    List.foldl_cons, List.foldl_append, agree_append, List.forall_mem_cons, hlast]
  constructor
  · intro h
    obtain ⟨⟨⟨-, halign⟩, hdgs⟩, hlastAlign, ⟨hagree, hrest⟩, hquiet⟩ := h
    have hms' : Agree strength ms := by
      rw [hms, agree_append] at hagree
      exact hagree.1
    exact ⟨⟨halign, hms'⟩, foldl_taken hagree, hdgs, hlastAlign, hrest, hquiet⟩
  · intro h
    obtain ⟨⟨halign, hms'⟩, hsame, hdgs, hlastAlign, hrest, hquiet⟩ := h
    have hagree : Agree strength dg.messages := by
      rw [hms] at hsame ⊢
      exact (agree_snoc m hms').mpr hsame
    exact ⟨⟨⟨hne, halign⟩, hdgs⟩, hlastAlign, ⟨hagree, hrest⟩, hquiet⟩

theorem done_fits : d.done.len ≤ d.lastDatagram.length - d.donePos := by
  obtain ⟨tail, htail⟩ := concat_head d.padLast d.done.encode []
  rw [lastDatagram, concat_append d.padLast _ (List.cons_ne_nil _ []), htail, List.length_append,
    List.length_append, d.done.encode_length, donePos]
  omega

/-- The call decodes the rest of the dump, where its text so far is `strength` and that
of the dump is `strength'`. -/
def DecodedFrom (resp : Buffer 4097) (rest : List (Option Bytes)) (dgs : List StationDatagram)
    (strength strength' : Bytes) : Prop :=
  (WhileLoop.trace percBody (dgs.length + 1)
      ⟨(d.bytesFrom dgs).map some ++ rest, resp, strength⟩).map visited =
    d.visitsFrom strength' dgs ∧
  ∃ t, WhileLoop.run percBody (dgs.length + 1)
      ⟨(d.bytesFrom dgs).map some ++ rest, resp, strength⟩ =
        some (.ok (.returned (percResult
          ((d.messagesFrom dgs).foldl (update StationMessage.signal) strength'))), t) ∧
    t.recvs = rest

theorem decodedFrom_nil (resp : Buffer 4097) (rest : List (Option Bytes))
    (strength strength' : Bytes) (hfit : d.lastDatagram.length ≤ 4097) :
    d.DecodedFrom resp rest [] strength strength' ↔
      strength = strength' ∧ d.PlainFrom resp strength [] := by
  have hdg : d.lastDatagram =
      concat d.padLast (d.last.map StationMessage.encode ++ [d.done.encode]) := rfl
  obtain ⟨hvisits, hbody⟩ : _ ∧ (_ → percBody ⟨_ :: rest, resp, strength⟩ = _) :=
    done_step hdg hfit strength strength'
  have hdone : ∀ t, _ ↔ (t = [] → 4 < d.done.payload.length →
      takeSignal (resp.write d.lastDatagram).1 (d.donePos + 20) (d.donePos + d.done.len) =
        .ok []) := fun t => done_result d.done d.done_fits t
  have hstate : (⟨(d.bytesFrom []).map some ++ rest, resp, strength⟩ : PercState) =
      ⟨some d.lastDatagram :: rest, resp, strength⟩ := rfl
  have hmessages : d.messagesFrom [] = d.last := rfl
  rw [DecodedFrom, hstate, List.length_nil, Nat.zero_add, WhileLoop.trace_one, hmessages]
  constructor
  · intro h
    obtain ⟨htrace, t, hrun, -⟩ := h
    obtain ⟨halign, hs, hagree⟩ := hvisits.mp (List.cons.inj htrace).1
    subst hs
    rw [WhileLoop.run_exit (hbody halign), foldl_taken hagree] at hrun
    have hresult := (hdone _).mp (congrArg Prod.fst (Option.some.inj hrun))
    exact ⟨rfl, by simp, halign, hagree, hresult⟩
  · intro h
    obtain ⟨hs, -, halign, hagree, hquiet⟩ := h
    subst hs
    rw [hmessages] at hagree hquiet
    have hresult := (hdone _).mpr hquiet
    refine ⟨congrArg (fun c => [c]) (hvisits.mpr ⟨halign, rfl, hagree⟩),
      ⟨rest, resp.write d.lastDatagram, strength⟩, ?_, rfl⟩
    rw [WhileLoop.run_exit (hbody halign), foldl_taken hagree]
    exact congrArg (fun out => some (out, _)) hresult

/-- An empty datagram ends the call before the rest of the dump. -/
theorem not_decodedFrom_empty {resp : Buffer 4097} {rest : List (Option Bytes)}
    {dg : StationDatagram} {dgs : List StationDatagram} {strength strength' : Bytes}
    (hempty : dg.messages = []) : ¬ d.DecodedFrom resp rest (dg :: dgs) strength strength' := by
  intro h
  have hnil : dg.encode = [] := by rw [StationDatagram.encode, hempty, List.map_nil, concat]
  have hbody : percBody ⟨(d.bytesFrom (dg :: dgs)).map some ++ rest, resp, strength⟩ =
      .inr (.ok (.returned none),
        ⟨(d.bytesFrom dgs).map some ++ rest, resp.write dg.encode, strength⟩) := by
    rw [bytesFrom, List.map_cons, hnil]
    rfl
  have hlen := congrArg List.length h.1
  rw [WhileLoop.trace_exit hbody, visitsFrom_length] at hlen
  simp at hlen

theorem decodedFrom_cons {resp : Buffer 4097} {rest : List (Option Bytes)} {dg : StationDatagram}
    {dgs : List StationDatagram} {strength strength' : Bytes} {ms : List StationMessage}
    {m : StationMessage} (hms : dg.messages = ms ++ [m]) (hfit : dg.encode.length ≤ 4097) :
    d.DecodedFrom resp rest (dg :: dgs) strength strength' ↔
      ((∀ m ∈ ms, align m.len = m.len) ∧ strength = strength' ∧ Agree strength ms) ∧
      d.DecodedFrom (resp.write dg.encode) rest dgs
        (dg.messages.foldl (update StationMessage.taken) strength)
        (dg.messages.foldl (update StationMessage.signal) strength') := by
  have hdg : dg.encode = concat dg.padLast (ms.map StationMessage.encode ++ [m.encode]) := by
    rw [StationDatagram.encode, hms, List.map_append]
    rfl
  have hstate : (⟨(d.bytesFrom (dg :: dgs)).map some ++ rest, resp, strength⟩ : PercState) =
      ⟨some dg.encode :: ((d.bytesFrom dgs).map some ++ rest), resp, strength⟩ := rfl
  obtain ⟨hvisits, hbody⟩ : _ ∧ (_ → percBody
      ⟨_ :: ((d.bytesFrom dgs).map some ++ rest), resp, strength⟩ = _) :=
    datagram_step hdg hfit strength strength'
  rw [← hms] at hvisits hbody
  rw [DecodedFrom, DecodedFrom, hstate, messagesFrom_cons, List.foldl_append, List.length_cons,
    visitsFrom]
  constructor
  · intro h
    obtain ⟨htrace, t, hrun, ht⟩ := h
    have hhead : visited _ = _ := (List.cons.inj htrace).1
    have hvisit := hvisits.mp hhead
    rw [WhileLoop.trace_next (hbody hvisit.1), List.map_cons] at htrace
    rw [WhileLoop.run_next (hbody hvisit.1)] at hrun
    exact ⟨hvisit, (List.cons.inj htrace).2, t, hrun, ht⟩
  · intro h
    obtain ⟨hvisit, htrace, t, hrun, ht⟩ := h
    rw [WhileLoop.trace_next (hbody hvisit.1), List.map_cons, WhileLoop.run_next (hbody hvisit.1),
      htrace, hvisits.mpr hvisit]
    exact ⟨rfl, t, hrun, ht⟩

theorem decodedFrom_iff (resp : Buffer 4097) (rest : List (Option Bytes))
    (dgs : List StationDatagram) (strength strength' : Bytes)
    (hfits : ∀ dg ∈ d.bytesFrom dgs, dg.length ≤ 4097) :
    d.DecodedFrom resp rest dgs strength strength' ↔
      strength = strength' ∧ d.PlainFrom resp strength dgs := by
  induction dgs generalizing resp strength strength' with
  | nil => exact d.decodedFrom_nil resp rest strength strength' (hfits _ (by simp [bytesFrom]))
  | cons dg dgs ih =>
    have hfit : dg.encode.length ≤ 4097 := hfits _ (by simp [bytesFrom])
    have hfits' : ∀ dg ∈ d.bytesFrom dgs, dg.length ≤ 4097 := fun b hb =>
      hfits b (by simp only [bytesFrom, List.map_cons, List.cons_append]; exact .tail _ hb)
    by_cases hne : dg.messages = []
    · constructor
      · intro h
        exact absurd h (d.not_decodedFrom_empty hne)
      · intro h
        exact absurd hne (h.2.1 dg List.mem_cons_self).1
    · obtain ⟨ms, m, hms⟩ : ∃ ms m, dg.messages = ms ++ [m] :=
        ⟨_, _, (List.dropLast_append_getLast hne).symm⟩
      rw [d.decodedFrom_cons hms hfit, ih _ _ _ hfits', plainFrom_cons d dgs hms]
      constructor
      · intro h
        obtain ⟨⟨halign, hs, hagree⟩, hsame, hplain⟩ := h
        subst hs
        rw [hsame] at hplain
        exact ⟨rfl, ⟨halign, hagree⟩, hsame, hplain⟩
      · intro h
        obtain ⟨hs, ⟨halign, hagree⟩, hsame, hplain⟩ := h
        subst hs
        rw [← hsame] at hplain
        exact ⟨⟨halign, rfl, hagree⟩, hsame, hplain⟩

end StationDump

theorem foldl_signal (ms : List StationMessage) (strength : Bytes) :
    ms.foldl (update StationMessage.signal) strength =
      if strength = [] then signalText (ms.findSome? StationMessage.signal) else strength := by
  induction ms generalizing strength with
  | nil =>
    by_cases hs : strength = []
    · simp [hs, signalText]
    · simp [hs]
  | cons m ms ih =>
    rw [List.foldl_cons, ih, List.findSome?_cons]
    by_cases hs : strength = []
    · cases hsig : m.signal with
      | none => simp [update, hs, hsig, signalText]
      | some c =>
        have hne : percText c ≠ [] := List.ne_nil_of_length_pos (percText_length c).1
        simp [update, hs, hsig, signalText, hne]
    · simp [update, hs]

theorem percResult_signalText (signal : Option UInt8) :
    percResult (signalText signal) = signal.map percText := by
  cases signal with
  | none => rfl
  | some c =>
    have hne : percText c ≠ [] := List.ne_nil_of_length_pos (percText_length c).1
    exact if_neg hne

theorem agree_of_ne {strength : Bytes} (hs : strength ≠ []) (ms : List StationMessage) :
    Agree strength ms := by
  induction ms with
  | nil => trivial
  | cons m ms ih =>
    refine ⟨fun h => absurd h hs, ?_⟩
    rw [update, if_neg hs]
    exact ih

theorem agree_nil_iff (ms : List StationMessage) :
    Agree [] ms ↔ ∀ before m after, ms = before ++ m :: after →
      (∀ m' ∈ before, m'.signal = none) → m.taken = m.signal := by
  induction ms with
  | nil => simp [Agree]
  | cons m ms ih =>
    constructor
    · intro h before m' after hsplit hbefore
      cases before with
      | nil =>
        obtain rfl : m = m' := (List.cons.inj hsplit).1
        exact h.1 rfl
      | cons b before =>
        obtain ⟨rfl, hms⟩ := List.cons.inj hsplit
        have hnone := hbefore m List.mem_cons_self
        have hrest := h.2
        rw [update, if_pos rfl, hnone] at hrest
        exact ih.mp hrest before m' after hms fun x hx => hbefore x (List.mem_cons_of_mem m hx)
    · intro h
      refine ⟨fun _ => h [] m ms rfl (by simp), ?_⟩
      rw [update, if_pos rfl]
      cases hsig : m.signal with
      | none =>
        refine ih.mpr fun before m' after hms hbefore => ?_
        refine h (m :: before) m' after (by rw [hms]; rfl) fun x hx => ?_
        rcases List.mem_cons.mp hx with rfl | hx
        · exact hsig
        · exact hbefore x hx
      | some c => exact agree_of_ne (List.ne_nil_of_length_pos (percText_length c).1) ms

namespace StationDump

variable {d : StationDump} {resp : Buffer 4097} {rest : List (Option Bytes)}

theorem perc_eq (d : StationDump) :
    percResult (d.messages.foldl (update StationMessage.signal) []) = d.perc := by
  rw [foldl_signal, if_pos rfl, percResult_signalText, perc]

theorem plainFrom_iff : d.PlainFrom resp [] d.datagrams ↔ d.Plain resp := by
  have hquiet : (d.messagesFrom d.datagrams).foldl (update StationMessage.signal) [] = [] ↔
      d.perc = none := by
    rw [← perc_eq, percResult_eq_none]
    rfl
  rw [PlainFrom, agree_nil_iff, hquiet]
  constructor
  · intro h
    obtain ⟨hdgs, hlast, hnested, hquiet⟩ := h
    exact ⟨fun dg hdg => (hdgs dg hdg).1, fun dg hdg => (hdgs dg hdg).2, hlast, hnested, hquiet⟩
  · intro h
    exact ⟨fun dg hdg => ⟨h.nonempty dg hdg, h.aligned dg hdg⟩, h.alignedLast, h.nested, h.quiet⟩

theorem decoded_iff_plainFrom (hfits : d.Fits) :
    Decoded d resp rest ↔ d.PlainFrom resp [] d.datagrams := by
  have hiff := d.decodedFrom_iff resp rest d.datagrams [] [] hfits
  have hlen : d.encode.length = d.datagrams.length + 1 := by simp [encode]
  rw [Decoded, hlen, ← perc_eq]
  exact hiff.trans (and_iff_right rfl)

theorem decoded_iff_plain (hfits : d.Fits) : Decoded d resp rest ↔ d.Plain resp :=
  (decoded_iff_plainFrom hfits).trans plainFrom_iff

end StationDump

/-- The loop decodes a dump whose datagrams fit the receive buffer exactly when the dump
is plain, and then a call whose request went out returns the percentage. -/
theorem percLoop_decodes_iff (d : StationDump) (resp : Buffer 4097) (rest : List (Option Bytes))
    (hfits : d.Fits) :
    (Decoded d resp rest ↔ d.Plain resp) ∧
    ∀ io s fam t, family io.family s = (.ok fam, t) → 0 ≤ io.ifindex → io.send = 28 →
      t.resp = resp → io.recvs = d.encode.map some ++ rest → d.Plain resp →
      ∃ t', wifiPerc io s = (.ok (.returned d.perc), rest, t') := by
  have hiff : Decoded d resp rest ↔ d.Plain resp := StationDump.decoded_iff_plain hfits
  refine ⟨hiff, ?_⟩
  intro io s fam t hfam hidx hsend hresp hrecvs hplain
  obtain ⟨-, u, hrun, hu⟩ := hiff.mpr hplain
  refine ⟨{ t with seq := t.seq + 1, resp := u.resp }, ?_⟩
  simp only [wifiPerc, hfam, percRequest_sent ⟨hidx, hsend⟩, hrecvs, hresp,
    percLoop_of_run hrun, hu]

def signalAttr : Attr := ⟨nl80211StaInfoSignalAvg, [196], by decide, by decide⟩

def oneStation (st : Station) (padLast : Bool)
    (hlen : (encodeTo padLast (messageAttrs [] (some st))).length + 20 < 2 ^ 32) :
    StationDump where
  datagrams := []
  last := [⟨24, List.replicate 10 0, [19, 1, 0, 0], [], some st, padLast, by decide, by decide,
    by decide, by decide, by simp, hlen⟩]
  done := ⟨List.replicate 10 0, [0, 0, 0, 0], by decide, by decide⟩
  padLast := true

def paddedDump : StationDump := oneStation ⟨[signalAttr], true, [], by decide⟩ true (by decide)

def unpaddedDump : StationDump := oneStation ⟨[signalAttr], false, [], by decide⟩ false (by decide)

/-- The station has no signal, and an attribute of the same number stands behind it. -/
def leakingDump : StationDump := oneStation ⟨[], true, [signalAttr], by decide⟩ true (by decide)

example : paddedDump.perc = some (lit "80") := by decide

theorem percLoop_decodes_paddedDump :
    (Decoded paddedDump (Buffer.zeros 4097) [] ↔ paddedDump.Plain (Buffer.zeros 4097)) ∧
    ∀ io s fam t, family io.family s = (.ok fam, t) → 0 ≤ io.ifindex → io.send = 28 →
      t.resp = Buffer.zeros 4097 → io.recvs = paddedDump.encode.map some ++ [] →
      paddedDump.Plain (Buffer.zeros 4097) →
      ∃ t', wifiPerc io s = (.ok (.returned paddedDump.perc), [], t') :=
  percLoop_decodes_iff paddedDump (Buffer.zeros 4097) [] (by decide)

theorem percLoop_misreads_dumps :
    ¬ Decoded unpaddedDump (Buffer.zeros 4097) [] ∧
    ¬ Decoded leakingDump (Buffer.zeros 4097) [] := by
  constructor
  · intro h
    have hplain := (StationDump.decoded_iff_plain (by decide)).mp h
    exact absurd (hplain.alignedLast _ List.mem_cons_self) (by decide)
  · intro h
    have hplain := (StationDump.decoded_iff_plain (by decide)).mp h
    exact absurd (hplain.nested [] _ [] rfl (by simp)) (by decide)

end Slstatus
