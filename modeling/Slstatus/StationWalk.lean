import Slstatus.StationDump

/-! `wifi_perc` over a whole station dump: which messages it visits, with which
`strength`, and what it returns. -/

namespace Slstatus

open Netlink

/-- `strength` after a message, where `sig` says which signal the message has. -/
def update (sig : StationMessage → Option UInt8) (strength : Bytes) (m : StationMessage) : Bytes :=
  if strength = [] then signalText (sig m) else strength

/-- The cursors at the messages of a datagram, from offset `p` on. -/
def visits (sig : StationMessage → Option UInt8) : Nat → Bytes → List StationMessage → List Cursor
  | _, _, [] => []
  | p, strength, m :: ms =>
    ⟨p, strength⟩ :: visits sig (p + align m.len) (update sig strength m) ms

section Message

variable {m : StationMessage}

theorem taken_of_empty (h : (encodeTo m.padLast m.attrs).length = 0) : m.taken = none := by
  have hattrs : m.attrs = [] := by
    cases hattrs : m.attrs with
    | nil => rfl
    | cons a as =>
      obtain ⟨rest, hrest⟩ := concat_head m.padLast a.unpadded (as.map Attr.unpadded)
      rw [hattrs, encodeTo, List.map_cons, hrest, List.length_append, a.unpadded_length] at h
      unfold Attr.len at h
      omega
  cases hst : m.station with
  | none => rw [StationMessage.taken, hst, Option.bind_none]
  | some st =>
    rw [StationMessage.attrs, hst, messageAttrs] at hattrs
    simp at hattrs

theorem taken_eq_signal {c c' : UInt8} (h : m.taken = some c) (h' : m.signal = some c') :
    c = c' := by
  cases hst : m.station with
  | none =>
    rw [StationMessage.taken, hst] at h
    cases h
  | some st =>
    rw [StationMessage.taken, hst, Option.bind_some, Station.taken, List.find?_append] at h
    rw [StationMessage.signal, hst, Option.bind_some, Station.signal] at h'
    obtain ⟨a', hfind', hhead'⟩ := Option.bind_eq_some_iff.mp h'
    cases hfind : st.nested.find? (fun a => a.type = nl80211StaInfoSignalAvg) with
    | none =>
      have hmem := List.mem_of_find?_eq_some hfind'
      have htype : a'.type = nl80211StaInfoSignalAvg := by
        have := List.find?_some hfind'
        simp only [decide_eq_true_eq] at this
        exact this.1
      exact absurd htype (by simpa using List.find?_eq_none.mp hfind a' hmem)
    | some a =>
      rw [hfind, Option.some_or, Option.bind_some] at h
      by_cases hone : a.payload.length = 1
      · rw [if_pos hone] at h
        obtain ⟨ha, before, after, hsplit, hbefore⟩ := List.find?_eq_some_iff_append.mp hfind
        have hsame : st.nested.find?
            (fun a => a.type = nl80211StaInfoSignalAvg ∧ a.payload.length = 1) = some a := by
          rw [List.find?_eq_some_iff_append]
          refine ⟨by simpa [hone] using ha, before, after, hsplit, fun b hb => ?_⟩
          have := hbefore b hb
          simp only [Bool.not_eq_true', decide_eq_false_iff_not] at this ⊢
          exact fun hand => this hand.1
        rw [hsame] at hfind'
        obtain rfl := Option.some.inj hfind'
        exact Option.some.inj (h.symm.trans hhead')
      · rw [if_neg hone] at h
        cases h

theorem update_eq_iff (strength : Bytes) :
    update StationMessage.taken strength m = update StationMessage.signal strength m ↔
      (strength = [] → m.taken = m.signal) := by
  have hne : ∀ c, percText c ≠ [] := fun c =>
    List.ne_nil_of_length_pos (percText_length c).1
  by_cases hs : strength = []
  · simp only [update, hs, true_imp_iff]
    cases ht : m.taken with
    | none =>
      cases hsig : m.signal with
      | none => simp
      | some c => simp [signalText, (hne c).symm]
    | some c =>
      cases hsig : m.signal with
      | none => simp [signalText, hne c]
      | some c' => simp [taken_eq_signal ht hsig]
  · simp [update, hs]

variable {mem post : Bytes} {pieces : List Bytes} {padLast : Bool} {p r : Nat}

theorem walkBody_station (strength : Bytes)
    (hmem : mem.drop p = concat padLast (m.encode :: pieces) ++ post)
    (hr : r = p + (concat padLast (m.encode :: pieces)).length) :
    walkBody mem r ⟨p, strength⟩ = .inl ⟨p + m.len, update StationMessage.taken strength m⟩ := by
  obtain ⟨rest, hrest⟩ := concat_head padLast m.encode pieces
  rw [hrest] at hmem hr
  rw [List.length_append, m.encode_length] at hr
  have hlen : m.len < 2 ^ 32 := m.length_lt
  have hbody : m.len = (encodeTo m.padLast m.attrs).length + 20 := rfl
  have hhead : mem.drop p = le32 m.len ++ (le16 m.type ++ (m.fields ++ m.genl ++
      encodeTo m.padLast m.attrs ++ (rest ++ post))) := by
    rw [hmem]
    simp only [StationMessage.encode, List.append_assoc]
  have hattrs : mem.drop (p + 20) = encodeTo m.padLast m.attrs ++ (rest ++ post) := by
    have hprefix : (le32 m.len ++ le16 m.type ++ m.fields ++ m.genl).length = 20 := by
      simp [le32, le16, m.fields_length, m.genl_length]
    rw [← List.drop_drop, hmem, StationMessage.encode, List.append_assoc, List.append_assoc]
    exact List.drop_left' hprefix
  have hend : messageEnd p r m.len = p + m.len := by
    rw [messageEnd, if_neg (by omega)]
  have hread : readStrength mem r p m.len strength =
      .ok (update StationMessage.taken strength m) := by
    rw [readStrength, update, hend]
    by_cases hs : strength = []
    · rw [if_pos hs]
      by_cases hlong : 20 < m.len
      · have hto : p + m.len = p + 20 + (encodeTo m.padLast m.attrs).length := by omega
        rw [if_pos ⟨hs, hlong⟩, hto, takeSignal_message m hattrs]
      · have hnone := taken_of_empty (m := m) (by omega)
        rw [if_neg (fun hand => hlong hand.2), hnone, hs]
        rfl
    · rw [if_neg (fun hand => hs hand.1), if_neg hs]
  rw [walkBody_message strength hhead hlen m.type_lt (by omega)]
  simp only [hread, if_neg m.type_ne, hend]

theorem last_message_end (hr : r = p + (concat padLast [m.encode]).length) :
    ¬ 16 ≤ r - (p + m.len) := by
  have hle : (concat padLast [m.encode]).length ≤ align m.len := by
    cases padLast with
    | false =>
      have := le_align m.len
      rw [← m.encode_length] at this ⊢
      exact this
    | true =>
      rw [← m.encode_length]
      exact Nat.le_of_eq (padded_length m.encode)
  unfold align at hle
  omega

theorem next_message (hne : pieces ≠ [])
    (hr : r = p + (concat padLast (m.encode :: pieces)).length) :
    r = p + align m.len + (concat padLast pieces).length := by
  rw [concat_cons padLast m.encode hne, List.length_append, padded_length, m.encode_length] at hr
  omega

theorem drop_next_message (hne : pieces ≠ [])
    (hmem : mem.drop p = concat padLast (m.encode :: pieces) ++ post) :
    mem.drop (p + align m.len) = concat padLast pieces ++ post := by
  have hlen : (padded m.encode).length = align m.len := by rw [padded_length, m.encode_length]
  rw [← List.drop_drop, hmem, concat_cons padLast m.encode hne, List.append_assoc]
  exact List.drop_left' hlen

end Message

/-- No message of the list makes the searches take another signal than its own. -/
def Agree : Bytes → List StationMessage → Prop
  | _, [] => True
  | strength, m :: ms =>
    (strength = [] → m.taken = m.signal) ∧ Agree (update StationMessage.signal strength m) ms

theorem visits_append (sig : StationMessage → Option UInt8) (p : Nat) (strength : Bytes)
    (ms : List StationMessage) (m : StationMessage) :
    visits sig p strength (ms ++ [m]) = visits sig p strength ms ++
      [⟨p + (concat true (ms.map StationMessage.encode)).length,
        ms.foldl (update sig) strength⟩] := by
  induction ms generalizing p strength with
  | nil => rfl
  | cons m' ms ih =>
    rw [List.cons_append, visits, visits, ih, List.map_cons, concat_true_cons,
      List.length_append, padded_length, m'.encode_length, ← Nat.add_assoc]
    rfl

theorem visits_eq_iff (p q : Nat) (strength strength' : Bytes) (ms : List StationMessage) :
    visits StationMessage.taken p strength ms ++
        [⟨q, ms.foldl (update StationMessage.taken) strength⟩] =
      visits StationMessage.signal p strength' ms ++
        [⟨q, ms.foldl (update StationMessage.signal) strength'⟩] ↔
      strength = strength' ∧ Agree strength ms := by
  induction ms generalizing p strength strength' with
  | nil => simp [visits, Agree]
  | cons m ms ih =>
    simp only [visits, List.cons_append, List.cons.injEq, List.foldl_cons, Cursor.mk.injEq,
      true_and, Agree]
    apply and_congr_right
    intro hs
    subst hs
    rw [ih, update_eq_iff]
    apply and_congr_right
    intro hm
    rw [(update_eq_iff strength).mpr hm]

section Datagram

variable {mem post x : Bytes} {ms : List StationMessage} {padLast : Bool} {p r : Nat}

/-- The cursors at which the walk reads a header, in its first `n` passes. -/
def headersRead (mem : Bytes) (r n : Nat) (c : Cursor) : List Cursor :=
  (WhileLoop.trace (walkBody mem r) n c).filter (fun c => 16 ≤ r - c.p)

theorem headersRead_next {c c' : Cursor} (hc : 16 ≤ r - c.p)
    (hbody : walkBody mem r c = .inl c') (n : Nat) :
    headersRead mem r (n + 1) c = c :: headersRead mem r n c' := by
  simp [headersRead, WhileLoop.trace_next hbody, hc]

theorem headersRead_head (mem : Bytes) {r : Nat} {c : Cursor} (hc : 16 ≤ r - c.p) (n : Nat) :
    ∃ cs, headersRead mem r (n + 1) c = c :: cs := by
  cases hbody : walkBody mem r c with
  | inl c' => exact ⟨_, headersRead_next hc hbody n⟩
  | inr out => exact ⟨[], by simp [headersRead, WhileLoop.trace_exit hbody, hc]⟩

theorem headersRead_short {c : Cursor} (hc : ¬ 16 ≤ r - c.p) (n : Nat) :
    headersRead mem r n c = [] := by
  cases n with
  | zero => rfl
  | succ n => simp [headersRead, WhileLoop.trace_exit (walkBody_passed hc), hc]

theorem concat_length_le (ms : List StationMessage) (padLast : Bool) (x : Bytes) :
    ms.length + x.length ≤ (concat padLast (ms.map StationMessage.encode ++ [x])).length := by
  induction ms with
  | nil =>
    have := le_align x.length
    cases padLast with
    | false => simp [concat]
    | true => simpa [concat, padded_length] using this
  | cons m ms ih =>
    have hle := le_align m.len
    have hpos : 20 ≤ m.len := Nat.le_add_left 20 _
    rw [List.map_cons, List.cons_append, concat_cons padLast _ (by simp), List.length_append,
      padded_length, m.encode_length, List.length_cons]
    omega

theorem drop_last_piece {xs : List Bytes}
    (hmem : mem.drop p = concat padLast (xs ++ [x]) ++ post)
    (hr : r = p + (concat padLast (xs ++ [x])).length) :
    mem.drop (p + (concat true xs).length) = concat padLast [x] ++ post ∧
      r = p + (concat true xs).length + (concat padLast [x]).length := by
  rw [concat_append padLast xs (List.cons_ne_nil x [])] at hmem hr
  rw [List.length_append, ← Nat.add_assoc] at hr
  refine ⟨?_, hr⟩
  rw [← List.drop_drop, hmem, List.append_assoc]
  exact List.drop_left

/-- The walk reads the messages of the datagram one after the other, as long as the
length of each is where the next one begins. -/
theorem walk_messages (strength : Bytes)
    (hmem : mem.drop p = concat padLast (ms.map StationMessage.encode ++ [x]) ++ post)
    (hr : r = p + (concat padLast (ms.map StationMessage.encode ++ [x])).length)
    (hx : 16 ≤ x.length) (halign : ∀ m ∈ ms, align m.len = m.len) :
    (∀ n, headersRead mem r (ms.length + n) ⟨p, strength⟩ =
      visits StationMessage.taken p strength ms ++
        headersRead mem r n ⟨p + (concat true (ms.map StationMessage.encode)).length,
          ms.foldl (update StationMessage.taken) strength⟩) ∧
    (∀ n, WhileLoop.run (walkBody mem r) (ms.length + n) ⟨p, strength⟩ =
      WhileLoop.run (walkBody mem r) n ⟨p + (concat true (ms.map StationMessage.encode)).length,
          ms.foldl (update StationMessage.taken) strength⟩) := by
  induction ms generalizing p strength with
  | nil =>
    constructor
    · intro n
      simp [visits, concat]
    · intro n
      simp [concat]
  | cons m ms ih =>
    have hne : ms.map StationMessage.encode ++ [x] ≠ [] := by simp
    have hm : align m.len = m.len := halign m List.mem_cons_self
    have hbody := walkBody_station strength hmem hr
    have hlong := concat_length_le ms padLast x
    have hr' := next_message hne hr
    have hmem' := drop_next_message hne hmem
    obtain ⟨hread, hrun⟩ := ih (update StationMessage.taken strength m) hmem' hr'
      (fun m' hm' => halign m' (List.mem_cons_of_mem m hm'))
    have hlen : p + (concat true ((m :: ms).map StationMessage.encode)).length =
        p + align m.len + (concat true (ms.map StationMessage.encode)).length := by
      rw [List.map_cons, concat_true_cons, List.length_append, padded_length, m.encode_length,
        Nat.add_assoc]
    rw [hlen]
    rw [← hm] at hbody
    constructor
    · intro n
      have hp : 16 ≤ r - p := by omega
      rw [List.length_cons, Nat.add_right_comm, headersRead_next hp hbody, hread n]
      rfl
    · intro n
      rw [List.length_cons, Nat.add_right_comm, WhileLoop.run_next hbody, hrun n]
      rfl

/-- A walk that visits the messages at their rounded distances has lengths that need
no rounding. -/
theorem aligned_of_visits (sig : StationMessage → Option UInt8) {n q : Nat}
    {strength strength' strength'' : Bytes}
    (hmem : mem.drop p = concat padLast (ms.map StationMessage.encode ++ [x]) ++ post)
    (hr : r = p + (concat padLast (ms.map StationMessage.encode ++ [x])).length)
    (hx : 16 ≤ x.length) (hn : ms.length < n)
    (hq : q = p + (concat true (ms.map StationMessage.encode)).length)
    (h : headersRead mem r n ⟨p, strength⟩ = visits sig p strength' ms ++ [⟨q, strength''⟩]) :
    ∀ m ∈ ms, align m.len = m.len := by
  induction ms generalizing p strength strength' n with
  | nil => simp
  | cons m ms ih =>
    obtain ⟨n, rfl⟩ : ∃ k, n = k + 1 := ⟨n - 1, by omega⟩
    rw [List.length_cons] at hn
    have hne : ms.map StationMessage.encode ++ [x] ≠ [] := by simp
    have hbody := walkBody_station strength hmem hr
    have hlong := concat_length_le ms padLast x
    have hle := le_align m.len
    have hr' := next_message hne hr
    have hmem' := drop_next_message hne hmem
    have hp : 16 ≤ r - p := by omega
    rw [headersRead_next hp hbody, visits, List.cons_append, List.cons.injEq] at h
    rw [List.map_cons, concat_true_cons, List.length_append, padded_length, m.encode_length] at hq
    -- the next cursor is at the length of the message, and the next message at its rounding
    obtain ⟨k, rfl⟩ : ∃ k, n = k + 1 := ⟨n - 1, by omega⟩
    have hgo : 16 ≤ r - (p + m.len) := by omega
    obtain ⟨cs, hcs⟩ := headersRead_head mem
      (c := ⟨p + m.len, update StationMessage.taken strength m⟩) hgo k
    have hnext : p + m.len = p + align m.len := by
      have hh := h.2
      rw [hcs] at hh
      cases ms with
      | nil =>
        have hcur := (List.cons.inj hh).1
        have hpos : p + m.len = q := congrArg Cursor.p hcur
        rw [hpos, hq]
        simp [concat]
      | cons m' ms =>
        have hcur := (List.cons.inj hh).1
        exact congrArg Cursor.p hcur
    have hm : align m.len = m.len := by omega
    rw [hnext] at h
    have hrest := ih hmem' hr' (by omega) (by omega) h.2
    intro m' hm'
    rcases List.mem_cons.mp hm' with rfl | hm'
    · exact hm
    · exact hrest m' hm'

theorem datagram_visits_iff {n : Nat} (strength strength' : Bytes)
    (hmem : mem.drop p = concat padLast (ms.map StationMessage.encode ++ [x]) ++ post)
    (hr : r = p + (concat padLast (ms.map StationMessage.encode ++ [x])).length)
    (hx : 16 ≤ x.length)
    (hlast : ∀ strength n, headersRead mem r (n + 2)
      ⟨p + (concat true (ms.map StationMessage.encode)).length, strength⟩ =
        [⟨p + (concat true (ms.map StationMessage.encode)).length, strength⟩])
    (hn : ms.length + 2 ≤ n) :
    headersRead mem r n ⟨p, strength⟩ = visits StationMessage.signal p strength' ms ++
        [⟨p + (concat true (ms.map StationMessage.encode)).length,
          ms.foldl (update StationMessage.signal) strength'⟩] ↔
      (∀ m ∈ ms, align m.len = m.len) ∧ strength = strength' ∧ Agree strength ms := by
  have hread : (∀ m ∈ ms, align m.len = m.len) → headersRead mem r n ⟨p, strength⟩ =
      visits StationMessage.taken p strength ms ++
        [⟨p + (concat true (ms.map StationMessage.encode)).length,
          ms.foldl (update StationMessage.taken) strength⟩] := by
    intro halign
    obtain ⟨k, rfl⟩ : ∃ k, n = ms.length + (k + 2) := ⟨n - ms.length - 2, by omega⟩
    rw [(walk_messages strength hmem hr hx halign).1 (k + 2), hlast]
  constructor
  · intro h
    have halign := aligned_of_visits StationMessage.signal hmem hr hx (by omega) rfl h
    rw [hread halign] at h
    exact ⟨halign, (visits_eq_iff _ _ _ _ ms).mp h⟩
  · intro h
    rw [hread h.1]
    exact (visits_eq_iff _ _ _ _ ms).mpr h.2

end Datagram

end Slstatus
