import Slstatus.Findattr
import Slstatus.Lib.Buffer

/-! `nl80211fam` of wifi.c: the lookup of the nl80211 family number. The decoder
starts at a fixed offset and never reads the type of the reply, so it is compared
with the two replies the kernel sends. -/

namespace Slstatus

open Netlink

structure NlState where
  id : Nat := 0
  nlsock : Int := -1
  seq : UInt32 := 1
  resp : Buffer 4097 := Buffer.zeros 4097

/-- What the system calls of one lookup return; a failing `recv` is `none`. -/
structure NlIo where
  socket : Int
  send : Int
  recv : Option Bytes

def nlmsghdr (len type flags : Nat) (seq : UInt32) (pid : Nat) : Bytes :=
  le32 len ++ le16 type ++ le16 flags ++ le32 seq.toNat ++ le32 pid

def ctrlAttrFamilyId : Nat := 1

def familyName : Attr := ⟨2, lit "nl80211" ++ [0], by decide, by decide⟩

def ctrl (seq : UInt32) : Bytes :=
  nlmsghdr 32 16 1 seq 0 ++ [3, 1, 0, 0] ++ familyName.encode

def copyId (s : NlState) : Except Fault (Option (Nat × Nat)) → Except Fault Nat × NlState
  | .error f => (.error f, s)
  | .ok (some (p, 2)) =>
    match s.resp.1.drop p with
    | b0 :: b1 :: _ => (.ok (word16 b0 b1), { s with id := word16 b0 b1 })
    | _ => (.error .outOfBounds, s)
  | .ok _ => (.ok s.id, s)

/-- The returned value and the static variables after the call; `none` when
`findattr` is still running after `fuel` passes. -/
def nl80211fam (fuel : Nat) (io : NlIo) (s : NlState) : Option (Except Fault Nat × NlState) :=
  if s.id ≠ 0 then some (.ok s.id, s)
  else
    let s := { s with seq := s.seq + 1 }
    let s := if s.nlsock < 0 then { s with nlsock := io.socket } else s
    if s.nlsock < 0 then some (.ok 0, s)
    else if io.send ≠ 32 then some (.ok 0, s)
    else
      match io.recv with
      | none => some (.ok 0, s)
      | some dg =>
        let r := min dg.length 4097
        let s := { s with resp := s.resp.write dg }
        if r ≤ 32 then some (.ok 0, s)
        else (findattr fuel ctrlAttrFamilyId s.resp.1 32 r).map (copyId s)

/-- CTRL_CMD_NEWFAMILY: headers, the family's name, then any attributes with a
CTRL_ATTR_FAMILY_ID among them that has the two bytes of the family number. -/
structure NewFamily where
  hdr : Bytes
  genl : Bytes
  attrs : List Attr
  idAttr : Attr
  b0 : UInt8
  b1 : UInt8
  hdr_length : hdr.length = 16
  genl_length : genl.length = 4
  id_mem : idAttr ∈ attrs
  id_type : idAttr.type = ctrlAttrFamilyId
  id_payload : idAttr.payload = [b0, b1]

def idOfPayload : Bytes → Nat
  | [b0, b1] => word16 b0 b1
  | _ => 0

/-- What the first CTRL_ATTR_FAMILY_ID says, 0 where it does not have two bytes. -/
def NewFamily.firstId (m : NewFamily) : Nat :=
  ((m.attrs.find? (fun a => a.type = ctrlAttrFamilyId)).map (fun a => idOfPayload a.payload)).getD 0

theorem NewFamily.exists_first (m : NewFamily) :
    ∃ a, m.attrs.find? (fun a => a.type = ctrlAttrFamilyId) = some a ∧
      m.firstId = idOfPayload a.payload := by
  have hsome : (m.attrs.find? (fun a => a.type = ctrlAttrFamilyId)).isSome := by
    rw [List.find?_isSome]
    exact ⟨m.idAttr, m.id_mem, by simp [m.id_type]⟩
  obtain ⟨a, ha⟩ := Option.isSome_iff_exists.mp hsome
  exact ⟨a, ha, by simp [NewFamily.firstId, ha]⟩

/-- NLMSG_ERROR: a header and an error code; the request is echoed after them. -/
structure NlmsgError where
  hdr : Bytes
  code : Bytes
  hdr_length : hdr.length = 16
  code_length : code.length = 4

inductive Reply
  | newFamily (m : NewFamily)
  | error (m : NlmsgError)

namespace Reply

def encode (seq : UInt32) : Reply → Bytes
  | newFamily m => m.hdr ++ m.genl ++ familyName.encode ++ encodeAll m.attrs
  | error m => m.hdr ++ m.code ++ ctrl seq

def familyId : Reply → Nat
  | newFamily m => word16 m.b0 m.b1
  | error _ => 0

/-- A NEWFAMILY message whose first CTRL_ATTR_FAMILY_ID is that of the family. -/
def IdFirst : Reply → Prop
  | newFamily m => m.firstId = word16 m.b0 m.b1
  | error _ => False

end Reply

/-- The kernel sends one CTRL_ATTR_FAMILY_ID. -/
theorem idFirst_of_single {m : NewFamily}
    (h : ∀ a ∈ m.attrs, a.type = ctrlAttrFamilyId → a = m.idAttr) :
    (Reply.newFamily m).IdFirst := by
  obtain ⟨a, hfind, hfirst⟩ := m.exists_first
  have htype : a.type = ctrlAttrFamilyId := by simpa using List.find?_some hfind
  have ha : a = m.idAttr := h a (List.mem_of_find?_eq_some hfind) htype
  rw [ha, m.id_payload] at hfirst
  exact hfirst

def Decodes (io : NlIo) (s : NlState) (reply : Reply) : Prop :=
  ∃ fuel s', nl80211fam fuel io s = some (.ok reply.familyId, s') ∧ s'.id = reply.familyId

section Lookup

variable {io : NlIo} {s : NlState} {dg : Bytes}

theorem nl80211fam_search (hid : s.id = 0) (hsock : 0 ≤ s.nlsock ∨ 0 ≤ io.socket)
    (hsend : io.send = 32) (hrecv : io.recv = some dg) (hfit : dg.length ≤ 4097)
    (hlong : 32 < dg.length) :
    ∃ s₁ : NlState, s₁.id = 0 ∧ s₁.resp = s.resp.write dg ∧ ∀ fuel, nl80211fam fuel io s =
      (findattr fuel ctrlAttrFamilyId s₁.resp.1 32 dg.length).map (copyId s₁) := by
  refine ⟨{ s with
    seq := s.seq + 1
    nlsock := if s.nlsock < 0 then io.socket else s.nlsock
    resp := s.resp.write dg }, hid, rfl, fun fuel => ?_⟩
  have hmin : min dg.length 4097 = dg.length := Nat.min_eq_left hfit
  have hr : ¬ dg.length ≤ 32 := by omega
  by_cases hn : s.nlsock < 0
  · have hs : ¬ io.socket < 0 := by omega
    simp [nl80211fam, hid, hn, hs, hsend, hrecv, hmin, hr]
  · simp [nl80211fam, hid, hn, hsend, hrecv, hmin, hr]

theorem copyId_of_ne_two {len : Nat} (hlen : len ≠ 2) (p : Nat) :
    copyId s (.ok (some (p, len))) = (.ok s.id, s) := by
  unfold copyId
  split
  · rename_i h
    cases h
  · rename_i h
    cases h
    exact absurd rfl hlen
  · rfl

theorem copyId_of_drop {p : Nat} {b0 b1 : UInt8} {rest : Bytes}
    (hread : s.resp.1.drop p = b0 :: b1 :: rest) :
    copyId s (.ok (some (p, 2))) = (.ok (word16 b0 b1), { s with id := word16 b0 b1 }) := by
  simp only [copyId, hread]

theorem idOfPayload_of_ne_two {b : Bytes} (h : b.length ≠ 2) : idOfPayload b = 0 := by
  cases b with
  | nil => rfl
  | cons b0 b =>
    cases b with
    | nil => rfl
    | cons b1 b =>
      cases b with
      | nil => exact absurd rfl h
      | cons b2 b => rfl

theorem nl80211fam_newFamily (m : NewFamily) (hid : s.id = 0)
    (hsock : 0 ≤ s.nlsock ∨ 0 ≤ io.socket) (hsend : io.send = 32)
    (hfit : ((Reply.newFamily m).encode s.seq).length ≤ 4097)
    (hrecv : io.recv = some ((Reply.newFamily m).encode s.seq)) :
    ∃ s', s'.id = m.firstId ∧ (∃ fuel, nl80211fam fuel io s = some (.ok m.firstId, s')) ∧
      ∀ fuel r, nl80211fam fuel io s = some r → r = (.ok m.firstId, s') := by
  let head := m.hdr ++ m.genl ++ familyName.encode
  have hhead : head.length = 32 := by
    simp only [head, List.length_append, m.hdr_length, m.genl_length, Attr.encode_length]
    rfl
  have henc : (Reply.newFamily m).encode s.seq = head ++ encodeAll m.attrs := rfl
  rw [henc] at hfit hrecv
  obtain ⟨a, hfind, hfirst⟩ := m.exists_first
  obtain ⟨off, hloc, rest, hslice⟩ :=
    locate_slice hfind (s.resp.1.drop (head ++ encodeAll m.attrs).length)
  have hlong : 32 < (head ++ encodeAll m.attrs).length := by
    obtain ⟨b, bs, hattrs⟩ := List.exists_cons_of_ne_nil (List.ne_nil_of_mem m.id_mem)
    have hpos := le_align b.len
    simp only [List.length_append, hhead, hattrs, encodeAll, List.flatMap_cons, b.encode_length]
    unfold Attr.len at *
    omega
  obtain ⟨s₁, hid₁, hresp, hcall⟩ := nl80211fam_search hid hsock hsend hrecv hfit hlong
  have hmem : s₁.resp.1.drop 32 =
      encodeAll m.attrs ++ s.resp.1.drop (head ++ encodeAll m.attrs).length := by
    rw [hresp, Buffer.write_drop hfit (by omega), List.drop_left' hhead]
  have hsearch := findattr_encoded ctrlAttrFamilyId m.attrs hmem
  have hend : 32 + (encodeAll m.attrs).length = (head ++ encodeAll m.attrs).length := by
    rw [List.length_append, hhead]
  have hread : s₁.resp.1.drop (32 + off) = a.payload ++ rest := by
    rw [← List.drop_drop, hmem, hslice]
  rw [hend, hloc] at hsearch
  have hrun : nl80211fam (m.attrs.length + 1) io s =
      some (copyId s₁ (.ok (some (32 + off, a.payload.length)))) := by
    rw [hcall, hsearch]
    rfl
  have hunique : ∀ fuel r, nl80211fam fuel io s = some r →
      r = copyId s₁ (.ok (some (32 + off, a.payload.length))) := by
    intro fuel r hr
    rw [hcall] at hr
    obtain ⟨out, hout, rfl⟩ := Option.map_eq_some_iff.mp hr
    rw [WhileLoop.run_unique hout hsearch]
    rfl
  rw [hfirst]
  by_cases hlen : a.payload.length = 2
  · obtain ⟨b0, b1, hpayload⟩ := List.length_eq_two.mp hlen
    rw [hpayload] at hread
    rw [hlen, copyId_of_drop hread] at hrun hunique
    rw [hpayload]
    exact ⟨{ s₁ with id := word16 b0 b1 }, rfl, ⟨m.attrs.length + 1, hrun⟩, hunique⟩
  · rw [copyId_of_ne_two hlen, hid₁] at hrun hunique
    rw [idOfPayload_of_ne_two hlen]
    exact ⟨s₁, hid₁, ⟨m.attrs.length + 1, hrun⟩, hunique⟩

/-- In an NLMSG_ERROR the search starts at the `nlmsg_pid` of the echoed request,
which is zero and reads as an attribute of length zero. -/
theorem nl80211fam_error_diverges (m : NlmsgError) (hid : s.id = 0)
    (hsock : 0 ≤ s.nlsock ∨ 0 ≤ io.socket) (hsend : io.send = 32)
    (hrecv : io.recv = some ((Reply.error m).encode s.seq)) (fuel : Nat) :
    nl80211fam fuel io s = none := by
  let head := m.hdr ++ m.code ++ (le32 32 ++ le16 16 ++ le16 1 ++ le32 s.seq.toNat)
  have hhead : head.length = 32 := by
    simp only [head, List.length_append, m.hdr_length, m.code_length]
    rfl
  let tail : Bytes := [3, 1, 0, 0] ++ familyName.encode
  have henc : (Reply.error m).encode s.seq = head ++ 0 :: 0 :: 0 :: 0 :: tail := by
    simp [Reply.encode, ctrl, nlmsghdr, head, tail, le32, le16]
  have hlen : (head ++ 0 :: 0 :: 0 :: 0 :: tail).length = 52 := by
    rw [List.length_append, hhead]
    rfl
  rw [henc] at hrecv
  obtain ⟨s₁, -, hresp, hcall⟩ := nl80211fam_search hid hsock hsend hrecv (by omega) (by omega)
  have hmem : s₁.resp.1.drop 32 =
      0 :: 0 :: 0 :: 0 :: (tail ++ s.resp.1.drop (head ++ 0 :: 0 :: 0 :: 0 :: tail).length) := by
    rw [hresp, Buffer.write_drop (by omega) (by omega), List.drop_left' hhead]
    rfl
  have hloop := findattr_zero_length ctrlAttrFamilyId (e := 52) (by omega) hmem
    (by decide) fuel
  rw [hcall, hlen, hloop]
  rfl

end Lookup

/-- With no number cached, the lookup decodes a reply of the kernel exactly when the
reply is a NEWFAMILY message whose first CTRL_ATTR_FAMILY_ID is that of the family. -/
theorem nl80211fam_decodes_iff {io : NlIo} {s : NlState} (reply : Reply) (hid : s.id = 0)
    (hsock : 0 ≤ s.nlsock ∨ 0 ≤ io.socket) (hsend : io.send = 32)
    (hfit : (reply.encode s.seq).length ≤ 4097)
    (hrecv : io.recv = some (reply.encode s.seq)) :
    Decodes io s reply ↔ reply.IdFirst := by
  cases reply with
  | newFamily m =>
    obtain ⟨s', hcached, ⟨fuel, hrun⟩, hunique⟩ :=
      nl80211fam_newFamily m hid hsock hsend hfit hrecv
    constructor
    · intro h
      obtain ⟨fuel', s'', hrun', -⟩ := h
      have hsame := hunique fuel' _ hrun'
      exact (Except.ok.inj (congrArg Prod.fst hsame)).symm
    · intro h
      have hfirst : m.firstId = word16 m.b0 m.b1 := h
      rw [hfirst] at hrun hcached
      exact ⟨fuel, s', hrun, hcached⟩
  | error m =>
    constructor
    · intro h
      obtain ⟨fuel, s', hrun, -⟩ := h
      rw [nl80211fam_error_diverges m hid hsock hsend hrecv fuel] at hrun
      cases hrun
    · intro h
      cases h

def familyReply : NewFamily where
  hdr := nlmsghdr 48 16 0 1 700
  genl := [1, 2, 0, 0]
  attrs := [⟨1, [28, 0], by decide, by decide⟩, ⟨3, [1, 0, 0, 0], by decide, by decide⟩]
  idAttr := ⟨1, [28, 0], by decide, by decide⟩
  b0 := 28
  b1 := 0
  hdr_length := by decide
  genl_length := by decide
  id_mem := List.mem_cons_self
  id_type := rfl
  id_payload := rfl

theorem nl80211fam_decodes_familyReply :
    Decodes ⟨3, 32, some ((Reply.newFamily familyReply).encode 1)⟩ {} (.newFamily familyReply) ↔
      (Reply.newFamily familyReply).IdFirst :=
  nl80211fam_decodes_iff (.newFamily familyReply) rfl (.inr (by decide)) rfl (by decide) rfl

def noFamilyReply : NlmsgError where
  hdr := nlmsghdr 52 2 0 1 700
  code := [254, 255, 255, 255]
  hdr_length := by decide
  code_length := by decide

theorem nl80211fam_hangs_without_nl80211 :
    ¬ Decodes ⟨3, 32, some ((Reply.error noFamilyReply).encode 1)⟩ {} (.error noFamilyReply) := by
  intro hex
  obtain ⟨fuel, s', hrun, -⟩ := hex
  rw [nl80211fam_error_diverges noFamilyReply rfl (.inr (by decide)) rfl rfl fuel] at hrun
  cases hrun

end Slstatus
