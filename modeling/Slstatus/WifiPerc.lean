import Slstatus.FmtHuman
import Slstatus.WifiEssid

/-! `wifi_perc` of wifi.c: the loop over the datagrams of a station dump, the walk over
the messages of a datagram, and the two searches for the signal of a station. -/

namespace Slstatus

open Netlink

def nl80211AttrStaInfo : Nat := 21

def nl80211StaInfoSignalAvg : Nat := 13

def nlmsgErrorType : Nat := 2

def nlmsgDoneType : Nat := 3

def rssiToPerc (rssi : Int) : Int :=
  if -50 ≤ rssi then 100 else if rssi ≤ -100 then 0 else 2 * (rssi + 100)

/-- `char` is signed. -/
def signedChar (c : UInt8) : Int := if c.toNat < 128 then c.toNat else c.toNat - 256

/-- `snprintf(strength, sizeof(strength), "%d", RSSI_TO_PERC(*p))` -/
def strengthText (c : UInt8) : Bytes := (decimalInt (rssiToPerc (signedChar c))).take 3

/-- The two searches from `p` on: what `strength` holds after them if it was empty. -/
def takeSignal (mem : Bytes) (p e : Nat) : Except Fault Bytes :=
  match search nl80211AttrStaInfo mem p e with
  | .error f => .error f
  | .ok none => .ok []
  | .ok (some (p, _)) =>
    match search nl80211StaInfoSignalAvg mem p e with
    | .error f => .error f
    | .ok none => .ok []
    | .ok (some (p, len)) =>
      if len = 1 then
        match mem[p]? with
        | some c => .ok (strengthText c)
        | none => .error .outOfBounds
      else .ok []

/-- The variables of the walk: the cursor, and `strength`, which is empty until a
signal is found. -/
structure Cursor where
  p : Nat
  strength : Bytes

/-- How the walk over a datagram ends: it is through, or the function returns. -/
inductive Walked
  | passed (strength : Bytes)
  | returned (perc : Option Bytes)

def messageEnd (p r len : Nat) : Nat := if r - p < len then r else p + len

def readStrength (mem : Bytes) (r p len : Nat) (strength : Bytes) : Except Fault Bytes :=
  if strength = [] ∧ 20 < len then takeSignal mem (p + 20) (messageEnd p r len) else .ok strength

def percResult (strength : Bytes) : Option Bytes := if strength = [] then none else some strength

/-- One pass of the walk over the first `r` bytes. -/
def walkBody (mem : Bytes) (r : Nat) (c : Cursor) : Cursor ⊕ Except Fault Walked :=
  if c.p ≠ r ∧ 16 ≤ r - c.p then
    match mem.drop c.p with
    | l0 :: l1 :: l2 :: l3 :: t0 :: t1 :: _ =>
      match readStrength mem r c.p (word32 l0 l1 l2 l3) c.strength with
      | .error f => .inr (.error f)
      | .ok strength =>
        if word16 t0 t1 = nlmsgDoneType then .inr (.ok (.returned (percResult strength)))
        else .inl ⟨messageEnd c.p r (word32 l0 l1 l2 l3), strength⟩
    | _ => .inr (.error .outOfBounds)
  else .inr (.ok (.passed c.strength))

/-- The walk with all the passes it can use. -/
def walk (mem : Bytes) (r : Nat) (strength : Bytes) : Except Fault Walked :=
  (WhileLoop.run (walkBody mem r) (r + 1) ⟨0, strength⟩).getD (.error .endlessLoop)

inductive PercEnd
  | returned (perc : Option Bytes)
  | waiting

/-- The results of the calls of `recv` that are still to come, a failing one being
`none`, and the buffer they write. -/
structure PercState where
  recvs : List (Option Bytes)
  resp : Buffer 4097
  strength : Bytes

/-- One pass of `while (1)`; where no datagram is left, `recv` waits. -/
def percBody (s : PercState) : PercState ⊕ (Except Fault PercEnd × PercState) :=
  match s.recvs with
  | [] => .inr (.ok .waiting, s)
  | none :: recvs => .inr (.ok (.returned none), { s with recvs := recvs })
  | some dg :: recvs =>
    let s := { s with recvs := recvs, resp := s.resp.write dg }
    let r := min dg.length 4097
    if r < 16 then .inr (.ok (.returned none), s)
    else
      match walk s.resp.1 r s.strength with
      | .error f => .inr (.error f, s)
      | .ok (.returned perc) => .inr (.ok (.returned perc), s)
      | .ok (.passed strength) => .inl { s with strength := strength }

def percLoop (s : PercState) : Except Fault PercEnd × PercState :=
  (WhileLoop.run percBody (s.recvs.length + 1) s).getD (.error .endlessLoop, s)

/-- What the calls of `wifi_perc` return, with those of the family lookup. -/
structure PercIo where
  family : NlIo
  ifindex : Int
  send : Int
  recvs : List (Option Bytes)

/-- What follows the lookups: how the call ends, the results of `recv` it did not use,
and the state after it. The family number is not looked at. -/
def percRequest (ifindex send : Int) (recvs : List (Option Bytes)) (s : NlState) :
    Except Fault PercEnd × List (Option Bytes) × NlState :=
  if ifindex < 0 then (.ok (.returned none), recvs, s)
  else
    let s := { s with seq := s.seq + 1 }
    if send ≠ 28 then (.ok (.returned none), recvs, s)
    else
      let t := percLoop ⟨recvs, s.resp, []⟩
      (t.1, t.2.recvs, { s with resp := t.2.resp })

def wifiPerc (io : PercIo) (s : NlState) :
    Except Fault PercEnd × List (Option Bytes) × NlState :=
  match family io.family s with
  | (.error f, s) => (.error f, io.recvs, s)
  | (.ok _, s) => percRequest io.ifindex io.send io.recvs s

theorem percRequest_sent {ifindex send : Int} (h : 0 ≤ ifindex ∧ send = 28)
    (recvs : List (Option Bytes)) (s : NlState) :
    percRequest ifindex send recvs s =
      ((percLoop ⟨recvs, s.resp, []⟩).1, (percLoop ⟨recvs, s.resp, []⟩).2.recvs,
        { s with seq := s.seq + 1, resp := (percLoop ⟨recvs, s.resp, []⟩).2.resp }) := by
  have hidx : ¬ ifindex < 0 := by omega
  have hsend : ¬ send ≠ 28 := not_not.mpr h.2
  simp only [percRequest, if_neg hidx, if_neg hsend]

theorem readStrength_zero (mem : Bytes) (r p : Nat) (strength : Bytes) :
    readStrength mem r p 0 strength = .ok strength := by
  simp [readStrength]

theorem walkBody_passed {mem : Bytes} {r : Nat} {c : Cursor} (h : ¬ 16 ≤ r - c.p) :
    walkBody mem r c = .inr (.ok (.passed c.strength)) := by
  have hgo : ¬ (c.p ≠ r ∧ 16 ≤ r - c.p) := fun hand => h hand.2
  rw [walkBody, if_neg hgo]

theorem walkBody_message {mem rest : Bytes} {r p len type : Nat} (strength : Bytes)
    (hmem : mem.drop p = le32 len ++ (le16 type ++ rest)) (hlen : len < 2 ^ 32)
    (htype : type < 65536) (hgo : 16 ≤ r - p) :
    walkBody mem r ⟨p, strength⟩ =
      match readStrength mem r p len strength with
      | .error f => .inr (.error f)
      | .ok strength' =>
        if type = nlmsgDoneType then .inr (.ok (.returned (percResult strength')))
        else .inl ⟨messageEnd p r len, strength'⟩ := by
  have hcond : p ≠ r ∧ 16 ≤ r - p := ⟨by omega, hgo⟩
  simp only [walkBody, if_pos hcond, hmem, le32, le16, List.cons_append, List.nil_append,
    word32_ofNat hlen, word16_ofNat htype]

theorem walkBody_progress {mem : Bytes} {r : Nat} {c c' : Cursor}
    (h : walkBody mem r c = .inl c') : c' = c ∨ r - c'.p < r - c.p := by
  by_cases hgo : c.p ≠ r ∧ 16 ≤ r - c.p
  · rw [walkBody, if_pos hgo] at h
    split at h
    · rename_i l0 l1 l2 l3 t0 t1 rest hmem
      cases hread : readStrength mem r c.p (word32 l0 l1 l2 l3) c.strength with
      | error f => simp [hread] at h
      | ok strength =>
        by_cases hdone : word16 t0 t1 = nlmsgDoneType
        · simp [hread, hdone] at h
        · simp only [hread, if_neg hdone] at h
          obtain rfl := Sum.inl.inj h
          by_cases hzero : word32 l0 l1 l2 l3 = 0
          · left
            rw [hzero, readStrength_zero] at hread
            obtain rfl := Except.ok.inj hread
            simp [messageEnd, hzero]
          · right
            simp only [messageEnd]
            split <;> omega
    · cases h
  · rw [walkBody, if_neg hgo] at h
    cases h

theorem walk_of_run {mem strength : Bytes} {r fuel : Nat} {out : Except Fault Walked}
    (h : WhileLoop.run (walkBody mem r) fuel ⟨0, strength⟩ = some out) :
    walk mem r strength = out := by
  have hrun := WhileLoop.run_measure (fun c : Cursor => r - c.p)
    (fun _ _ hbody => walkBody_progress hbody) h
  have hle : r - 0 + 1 ≤ r + 1 := by omega
  rw [walk, WhileLoop.run_mono hrun hle, Option.getD_some]

theorem run_of_walk {mem strength : Bytes} {r : Nat} {w : Walked} (h : walk mem r strength = .ok w) :
    WhileLoop.run (walkBody mem r) (r + 1) ⟨0, strength⟩ = some (.ok w) := by
  cases hrun : WhileLoop.run (walkBody mem r) (r + 1) ⟨0, strength⟩ with
  | none =>
    rw [walk, hrun] at h
    cases h
  | some out => rw [← h, walk, hrun, Option.getD_some]

theorem percBody_progress {s t : PercState} (h : percBody s = .inl t) :
    t.recvs.length < s.recvs.length := by
  unfold percBody at h
  split at h
  · cases h
  · cases h
  · rename_i dg recvs hrecvs
    simp only at h
    split at h
    · cases h
    · split at h
      · cases h
      · cases h
      · obtain rfl := Sum.inl.inj h
        rw [hrecvs]
        exact Nat.lt_succ_self _

theorem percLoop_of_run {s : PercState} {fuel : Nat} {out : Except Fault PercEnd × PercState}
    (h : WhileLoop.run percBody fuel s = some out) : percLoop s = out := by
  rw [percLoop, WhileLoop.run_measure (fun t => t.recvs.length)
    (fun _ _ hbody => .inr (percBody_progress hbody)) h, Option.getD_some]

theorem run_of_percLoop {s t : PercState} {e : PercEnd} (h : percLoop s = (.ok e, t)) :
    WhileLoop.run percBody (s.recvs.length + 1) s = some (.ok e, t) := by
  cases hrun : WhileLoop.run percBody (s.recvs.length + 1) s with
  | none =>
    rw [percLoop, hrun] at h
    cases h
  | some out => rw [← h, percLoop, hrun, Option.getD_some]

end Slstatus
