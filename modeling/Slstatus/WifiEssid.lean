import Slstatus.FindattrSafety

/-! `wifi_essid` of wifi.c. The terminator of the name is stored in the receive
buffer, at the place that the length of the attribute gives. -/

namespace Slstatus

open Netlink

def nl80211AttrSsid : Nat := 52

/-- `nl80211fam` with all the passes its search can use. -/
def family (io : NlIo) (s : NlState) : Except Fault Nat × NlState :=
  (nl80211fam 4098 io s).getD (.error .endlessLoop, s)

theorem family_of_nl80211fam {io : NlIo} {s : NlState} {fuel : Nat}
    {r : Except Fault Nat × NlState} (h : nl80211fam fuel io s = some r) : family io s = r := by
  have hrun : nl80211fam 4098 io s = some r := by
    by_cases hid : s.id ≠ 0
    · simpa only [nl80211fam, if_pos hid] using h
    · simp only [nl80211fam, if_neg hid] at h ⊢
      generalize (if s.nlsock < 0 then _ else _ : NlState) = t at h ⊢
      by_cases hsock : t.nlsock < 0
      · simpa only [if_pos hsock] using h
      · by_cases hsend : io.send ≠ 32
        · simpa only [if_neg hsock, if_pos hsend] using h
        · simp only [if_neg hsock, if_neg hsend] at h ⊢
          cases hrecv : io.recv with
          | none => simpa only [hrecv] using h
          | some dg =>
            simp only [hrecv] at h ⊢
            by_cases hshort : min dg.length 4097 ≤ 32
            · simpa only [if_pos hshort] using h
            · simp only [if_neg hshort] at h ⊢
              obtain ⟨out, hout, hcopy⟩ := Option.map_eq_some_iff.mp h
              rw [findattr_adequate hout (by omega), Option.map_some, hcopy]
  rw [family, hrun, Option.getD_some]

/-- What the calls of `wifi_essid` return, with those of the family lookup. -/
structure EssidIo where
  family : NlIo
  ifindex : Int
  send : Int
  recv : Option Bytes

/-- `p[len] = 0; return p` for what the search found. -/
def terminateName (s : NlState) :
    Except Fault (Option (Nat × Nat)) → Except Fault (Option Nat) × NlState
  | .error f => (.error f, s)
  | .ok none => (.ok none, s)
  | .ok (some (p, len)) =>
    match s.resp.store (p + len) 0 with
    | some resp => (.ok (some p), { s with resp := resp })
    | none => (.error .outOfBounds, s)

/-- What follows the lookups: `recv` is asked only once the request has gone out. -/
def essidRequest (fam : Nat) (ifindex send : Int) (recv : Option Bytes) (s : NlState) :
    Except Fault (Option Nat) × NlState :=
  if fam = 0 then (.ok none, s)
  else if ifindex < 0 then (.ok none, s)
  else
    let s := { s with seq := s.seq + 1 }
    if send ≠ 28 then (.ok none, s)
    else
      match recv with
      | none => (.ok none, s)
      | some dg =>
        let r := min dg.length 4096
        let s := { s with resp := s.resp.write (dg.take 4096) }
        if r ≤ 20 then (.ok none, s)
        else terminateName s (search nl80211AttrSsid s.resp.1 20 r)

/-- The returned pointer, as an offset into `resp`, and the state after the call. -/
def wifiEssid (io : EssidIo) (s : NlState) : Except Fault (Option Nat) × NlState :=
  match family io.family s with
  | (.error f, s) => (.error f, s)
  | (.ok fam, s) => essidRequest fam io.ifindex io.send io.recv s

theorem terminateName_inside {s : NlState} {found : Option (Nat × Nat)} {e : Nat} (he : e < 4097)
    (h : ∀ q len, found = some (q, len) → q + len ≤ e) :
    ∃ ptr t, terminateName s (.ok found) = (.ok ptr, t) := by
  cases found with
  | none => exact ⟨none, s, rfl⟩
  | some slice =>
    obtain ⟨p, len⟩ := slice
    have hlt : p + len < 4097 := Nat.lt_of_le_of_lt (h p len rfl) he
    exact ⟨some p, _, by rw [terminateName, Buffer.store_of_lt hlt]⟩

theorem essidRequest_inside {fam : Nat} {ifindex send : Int} {dg : Bytes} (s : NlState)
    (hwalk : Walkable nl80211AttrSsid ((dg.take 4096).drop 20)) :
    ∃ ptr t, essidRequest fam ifindex send (some dg) s = (.ok ptr, t) := by
  by_cases hzero : fam = 0
  · exact ⟨none, s, by simp only [essidRequest, if_pos hzero]⟩
  · by_cases hidx : ifindex < 0
    · exact ⟨none, s, by simp only [essidRequest, if_neg hzero, if_pos hidx]⟩
    · by_cases hsend : send ≠ 28
      · exact ⟨none, { s with seq := s.seq + 1 }, by
          simp only [essidRequest, if_neg hzero, if_neg hidx, if_pos hsend]⟩
      · let t : NlState := { s with
          seq := s.seq + 1
          resp := s.resp.write (dg.take 4096) }
        have hcall : essidRequest fam ifindex send (some dg) s =
            if min dg.length 4096 ≤ 20 then (.ok none, t)
            else terminateName t (search nl80211AttrSsid t.resp.1 20 (min dg.length 4096)) := by
          simp only [essidRequest, if_neg hzero, if_neg hidx, if_neg hsend]
          rfl
        rw [hcall]
        by_cases hshort : min dg.length 4096 ≤ 20
        · exact ⟨none, t, if_pos hshort⟩
        · have hlen : (dg.take 4096).length = min dg.length 4096 := by
            rw [List.length_take, Nat.min_comm]
          have hbytes : (t.resp.1.take (min dg.length 4096)).drop 20 = (dg.take 4096).drop 20 := by
            rw [Buffer.write_val (by omega), List.take_left' hlen]
          rw [← hbytes] at hwalk
          have hsize := t.resp.2
          obtain ⟨⟨fuel, found, hrun, hslice⟩, -⟩ := hwalk.findattrSafe (by omega)
          rw [if_neg hshort, search_of_findattr hrun]
          exact terminateName_inside (by omega) (fun q len hq => (hslice q len hq).2)

theorem wifiEssid_inside {io : EssidIo} {s t : NlState} {fam : Nat} {dg : Bytes}
    (hfam : family io.family s = (.ok fam, t)) (hrecv : io.recv = some dg)
    (hwalk : Walkable nl80211AttrSsid ((dg.take 4096).drop 20)) :
    ∃ ptr t', wifiEssid io s = (.ok ptr, t') := by
  simp only [wifiEssid, hfam, hrecv]
  exact essidRequest_inside t hwalk

/-- A search stays inside a range of the buffer exactly where the range holds a stream
it can walk through; a reply of that kind has its name terminated inside `resp`. -/
theorem findattr_safe_iff (attr : Nat) {mem : Bytes} {p e : Nat} (he : e ≤ mem.length)
    (hsize : mem.length < 2 ^ 64) :
    (FindattrSafe attr mem p e ↔ Walkable attr ((mem.take e).drop p)) ∧
    ∀ io s t fam dg, family io.family s = (.ok fam, t) → io.recv = some dg →
      Walkable nl80211AttrSsid ((dg.take 4096).drop 20) →
      ∃ ptr t', wifiEssid io s = (.ok ptr, t') :=
  ⟨⟨walkable_of_findattrSafe he hsize, Walkable.findattrSafe he⟩,
    fun _ _ _ _ _ hfam hrecv hwalk => wifiEssid_inside hfam hrecv hwalk⟩

theorem findattr_safe_name :
    (FindattrSafe 52 [6, 0, 52, 0, 97, 98] 0 6 ↔ Walkable 52 [6, 0, 52, 0, 97, 98]) ∧
    ∀ io s t fam dg, family io.family s = (.ok fam, t) → io.recv = some dg →
      Walkable nl80211AttrSsid ((dg.take 4096).drop 20) →
      ∃ ptr t', wifiEssid io s = (.ok ptr, t') :=
  findattr_safe_iff 52 (by decide) (by decide)

/-- An attribute of length zero, one that is shorter than its header, one that ends
outside, and a tail that is too short for a header. -/
theorem findattr_unsafe :
    ¬ FindattrSafe 52 [0, 0, 1, 0] 0 4 ∧ ¬ FindattrSafe 52 [3, 0, 52, 0] 0 4 ∧
    ¬ FindattrSafe 52 [9, 0, 52, 0, 97, 98] 0 6 ∧ ¬ FindattrSafe 52 [4, 0, 1, 0, 4, 0] 0 6 := by
  refine ⟨fun h => ?_, fun h => ?_, fun h => ?_, fun h => ?_⟩
  · cases walkable_of_findattrSafe (by decide) (by decide) h with
    | hit htype => exact absurd htype (by decide)
    | next _ hlen => exact absurd rfl hlen
  · cases walkable_of_findattrSafe (by decide) (by decide) h with
    | hit _ hlen => exact absurd hlen (by decide)
    | next htype => exact absurd rfl htype
  · cases walkable_of_findattrSafe (by decide) (by decide) h with
    | hit _ _ hfit => exact absurd hfit (by decide)
    | next htype => exact absurd rfl htype
  · cases walkable_of_findattrSafe (by decide) (by decide) h with
    | hit htype => exact absurd htype (by decide)
    | next _ _ hrest => cases hrest

end Slstatus
