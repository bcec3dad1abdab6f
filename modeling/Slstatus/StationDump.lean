import Slstatus.WifiPerc

/-! The answer of the kernel to a station dump, and how `wifi_perc` reads it. The
searches run on to the end of a message, and the cursor steps by the length of a
message where netlink rounds it up. -/

namespace Slstatus

open Netlink

/-- NL80211_ATTR_STA_INFO with the attributes nested in it, and those behind it. -/
structure Station where
  nested : List Attr
  padNested : Bool
  after : List Attr
  fits : (encodeTo padNested nested).length + 4 < 65536

namespace Station

def attr (st : Station) : Attr :=
  ⟨nl80211AttrStaInfo, encodeTo st.padNested st.nested, by decide, st.fits⟩

/-- The one-byte NL80211_STA_INFO_SIGNAL_AVG that is nested in the attribute. -/
def signal (st : Station) : Option UInt8 :=
  (st.nested.find? (fun a => a.type = nl80211StaInfoSignalAvg ∧ a.payload.length = 1)).bind
    (fun a => a.payload.head?)

/-- What the search takes: the first attribute of the type up to the end of the
message, if it has one byte. -/
def taken (st : Station) : Option UInt8 :=
  ((st.nested ++ st.after).find? (fun a => a.type = nl80211StaInfoSignalAvg)).bind
    (fun a => if a.payload.length = 1 then a.payload.head? else none)

end Station

def messageAttrs (before : List Attr) : Option Station → List Attr
  | none => before
  | some st => before ++ st.attr :: st.after

/-- A message of the dump: the rest of `struct nlmsghdr`, `struct genlmsghdr`, and
attributes of which the first NL80211_ATTR_STA_INFO is that of the station. -/
structure StationMessage where
  type : Nat
  fields : Bytes
  genl : Bytes
  before : List Attr
  station : Option Station
  padLast : Bool
  type_lt : type < 65536
  type_ne : type ≠ nlmsgDoneType
  fields_length : fields.length = 10
  genl_length : genl.length = 4
  before_type : ∀ a ∈ before, a.type ≠ nl80211AttrStaInfo
  length_lt : (encodeTo padLast (messageAttrs before station)).length + 20 < 2 ^ 32

namespace StationMessage

def attrs (m : StationMessage) : List Attr := messageAttrs m.before m.station

def len (m : StationMessage) : Nat := (encodeTo m.padLast m.attrs).length + 20

def encode (m : StationMessage) : Bytes :=
  le32 m.len ++ le16 m.type ++ m.fields ++ m.genl ++ encodeTo m.padLast m.attrs

def signal (m : StationMessage) : Option UInt8 := m.station.bind Station.signal

def taken (m : StationMessage) : Option UInt8 := m.station.bind Station.taken

theorem encode_length (m : StationMessage) : m.encode.length = m.len := by
  simp only [encode, le32, le16, List.length_append, List.length_cons, List.length_nil,
    m.fields_length, m.genl_length]
  unfold len
  omega

end StationMessage

/-- NLMSG_DONE; what follows its header is left open. -/
structure DoneMessage where
  fields : Bytes
  payload : Bytes
  fields_length : fields.length = 10
  length_lt : payload.length + 16 < 2 ^ 32

namespace DoneMessage

def len (m : DoneMessage) : Nat := m.payload.length + 16

def encode (m : DoneMessage) : Bytes := le32 m.len ++ le16 nlmsgDoneType ++ m.fields ++ m.payload

theorem encode_length (m : DoneMessage) : m.encode.length = m.len := by
  simp only [encode, le32, le16, List.length_append, List.length_cons, List.length_nil,
    m.fields_length]
  unfold len
  omega

end DoneMessage

/-- The attributes of a station and those behind it are one stream for a search that
begins in its payload. -/
theorem Station.attr_drop (st : Station) (padLast : Bool) :
    ∃ padLast', (encodeTo padLast (st.attr :: st.after)).drop 4 =
      encodeTo padLast' (st.nested ++ st.after) := by
  have hhead : ∀ rest : Bytes, (st.attr.unpadded ++ rest).drop 4 =
      encodeTo st.padNested st.nested ++ rest := fun rest => by
    simp [Attr.unpadded, le16, attr]
  have hpad : padded st.attr.unpadded = st.attr.unpadded ++
      List.replicate (align (encodeTo st.padNested st.nested).length -
        (encodeTo st.padNested st.nested).length) 0 := by
    rw [padded, st.attr.unpadded_length]
    congr 2
    unfold Attr.len align
    simp only [attr]
    omega
  have hnested : (padded st.attr.unpadded).drop 4 = encodeAll st.nested := by
    rw [hpad, hhead, ← encodeTo_true]
    exact padded_concat st.padNested _
  by_cases hafter : st.after = []
  · rw [hafter, List.append_nil]
    cases padLast with
    | true =>
      refine ⟨true, ?_⟩
      rw [encodeTo_true st.nested]
      exact hnested
    | false =>
      have hbare := hhead []
      rw [List.append_nil, List.append_nil] at hbare
      exact ⟨st.padNested, hbare⟩
  · refine ⟨padLast, ?_⟩
    have hlen : 4 ≤ (padded st.attr.unpadded).length := by
      rw [hpad, List.length_append, st.attr.unpadded_length]
      exact Nat.le_trans (Nat.le_add_left 4 _) (Nat.le_add_right _ _)
    rw [encodeTo_cons padLast _ hafter, st.attr.encode_eq, List.drop_append_of_le_length hlen,
      hnested, encodeTo_append padLast _ hafter]

theorem search_encodeTo (attr : Nat) {p : Nat} {mem post : Bytes} (padLast : Bool)
    (as : List Attr) (hmem : mem.drop p = encodeTo padLast as ++ post) :
    search attr mem p (p + (encodeTo padLast as).length) =
      .ok ((locate attr as).map (fun r => (p + r.1, r.2))) :=
  search_of_findattr (findattr_encodeTo attr padLast as hmem)

def percText (c : UInt8) : Bytes := decimalInt (rssiToPerc (signedChar c))

theorem rssiToPerc_range (rssi : Int) : 0 ≤ rssiToPerc rssi ∧ rssiToPerc rssi ≤ 100 := by
  unfold rssiToPerc
  split
  · omega
  · split
    · omega
    · omega

theorem percText_length (c : UInt8) : 0 < (percText c).length ∧ (percText c).length ≤ 3 := by
  obtain ⟨hmin, hmax⟩ := rssiToPerc_range (signedChar c)
  obtain ⟨n, hn⟩ := Int.eq_ofNat_of_zero_le hmin
  have hlt : n < 101 := by omega
  have hall : ∀ n : Fin 101, 0 < (decimalInt n.1).length ∧ (decimalInt n.1).length ≤ 3 := by decide
  rw [percText, hn]
  exact hall ⟨n, hlt⟩

theorem strengthText_eq (c : UInt8) : strengthText c = percText c :=
  List.take_of_length_le (percText_length c).2

def signalText (signal : Option UInt8) : Bytes := (signal.map percText).getD []

theorem takeSignal_none {mem : Bytes} {p e : Nat}
    (h : search nl80211AttrStaInfo mem p e = .ok none) : takeSignal mem p e = .ok [] := by
  simp only [takeSignal, h]

theorem takeSignal_some {mem : Bytes} {p e q len : Nat} (as : List Attr) (padLast : Bool)
    (post : Bytes) (h : search nl80211AttrStaInfo mem p e = .ok (some (q, len)))
    (hmem : mem.drop q = encodeTo padLast as ++ post) (he : e = q + (encodeTo padLast as).length) :
    takeSignal mem p e = .ok (signalText
      ((as.find? (fun a => a.type = nl80211StaInfoSignalAvg)).bind
        (fun a => if a.payload.length = 1 then a.payload.head? else none))) := by
  have hsearch := search_encodeTo nl80211StaInfoSignalAvg padLast as hmem
  rw [← he] at hsearch
  cases hfind : as.find? (fun a => a.type = nl80211StaInfoSignalAvg) with
  | none =>
    have hnone : locate nl80211StaInfoSignalAvg as = none := by
      rw [locate_eq_none]
      intro a ha
      simpa using List.find?_eq_none.mp hfind a ha
    rw [hnone, Option.map_none] at hsearch
    simp only [takeSignal, h, hsearch]
    rfl
  | some a =>
    obtain ⟨off, hloc, rest, hslice⟩ := locate_slice_to padLast hfind post
    rw [hloc, Option.map_some] at hsearch
    by_cases hone : a.payload.length = 1
    · obtain ⟨c, hc⟩ := List.length_eq_one_iff.mp hone
      have hread : mem[q + off]? = some c := by
        rw [← List.head?_drop, ← List.drop_drop, hmem, hslice, hc]
        rfl
      simp only [takeSignal, h, hsearch, hread, Option.bind_some, hc, strengthText_eq]
      rfl
    · simp only [takeSignal, h, hsearch, if_neg hone, Option.bind_some]
      rfl

theorem takeSignal_message (m : StationMessage) {mem post : Bytes} {p : Nat}
    (hmem : mem.drop p = encodeTo m.padLast m.attrs ++ post) :
    takeSignal mem p (p + (encodeTo m.padLast m.attrs).length) = .ok (signalText m.taken) := by
  have hfirst := search_encodeTo nl80211AttrStaInfo m.padLast m.attrs hmem
  cases hst : m.station with
  | none =>
    have hattrs : m.attrs = m.before := by rw [StationMessage.attrs, hst, messageAttrs]
    have hnone : locate nl80211AttrStaInfo m.attrs = none := by
      rw [hattrs, locate_eq_none]
      exact m.before_type
    rw [hnone, Option.map_none] at hfirst
    rw [takeSignal_none hfirst, StationMessage.taken, hst]
    rfl
  | some st =>
    have hattrs : m.attrs = m.before ++ st.attr :: st.after := by
      rw [StationMessage.attrs, hst, messageAttrs]
    have hloc : locate nl80211AttrStaInfo m.attrs =
        some ((encodeAll m.before).length + 4, st.attr.payload.length) := by
      have htype : st.attr.type = nl80211AttrStaInfo := rfl
      rw [hattrs, locate_append m.before_type, locate, if_pos htype, Option.map_some]
    obtain ⟨padLast, hstream⟩ := st.attr_drop m.padLast
    have hbytes : encodeTo m.padLast m.attrs =
        encodeAll m.before ++ encodeTo m.padLast (st.attr :: st.after) := by
      rw [hattrs, encodeTo_append m.padLast m.before (List.cons_ne_nil st.attr st.after)]
    have hhead : 4 ≤ (encodeTo m.padLast (st.attr :: st.after)).length := by
      obtain ⟨rest, hrest⟩ := concat_head m.padLast st.attr.unpadded (st.after.map Attr.unpadded)
      rw [encodeTo, List.map_cons, hrest, List.length_append, st.attr.unpadded_length]
      exact Nat.le_trans (Nat.le_add_left 4 _) (Nat.le_add_right _ _)
    have hinner : mem.drop (p + ((encodeAll m.before).length + 4)) =
        encodeTo padLast (st.nested ++ st.after) ++ post := by
      rw [← List.drop_drop, hmem, hbytes, ← List.drop_drop, List.append_assoc, List.drop_left,
        List.drop_append_of_le_length hhead, hstream]
    have hend : p + (encodeTo m.padLast m.attrs).length =
        p + ((encodeAll m.before).length + 4) +
          (encodeTo padLast (st.nested ++ st.after)).length := by
      rw [← hstream, List.length_drop, hbytes, List.length_append]
      omega
    rw [hloc, Option.map_some] at hfirst
    rw [takeSignal_some _ padLast post hfirst hinner hend, StationMessage.taken, hst]
    rfl

end Slstatus
