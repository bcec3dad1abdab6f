import Mathlib.Algebra.Group.Nat.Defs
import Slstatus.Basic
import Slstatus.Lib.Buffer

/-! `ifindex` of wifi.c over many calls, by wifi_essid and wifi_perc and for any interfaces. It
keeps its socket and the name that it asked for last. -/

namespace Slstatus

/-- The static variables: the socket, if there is one, and `ifr.ifr_name`. -/
structure IfStatics where
  ifsock : Option Nat := none
  ifrName : Buffer 16 := Buffer.zeros 16

/-- One call, with what `socket` would return and what SIOCGIFINDEX says of each name. -/
structure IfCall where
  interface : Bytes
  string : 0 ∉ interface
  /-- `snprintf` counts the bytes with an `int`. -/
  counted : interface.length < 2 ^ 31
  socket : Option Nat
  ioctl : Bytes → Option Int32

def IfStatics.connect (x : IfCall) (s : IfStatics) : IfStatics :=
  match s.ifsock with
  | some _ => s
  | none => { s with ifsock := x.socket }

/-- `ioctl(ifsock, SIOCGIFINDEX, &ifr)` with the name that `ifr` holds. -/
def askIndex (x : IfCall) (s : IfStatics) : Except Fault (Int × IfStatics) :=
  match CString.content s.ifrName.1 with
  | none => .error .outOfBounds
  | some name =>
    match x.ioctl name with
    | none => .ok (-1, s)
    | some index => .ok (index.toInt, s)

def ifindex (x : IfCall) (s : IfStatics) : Except Fault (Int × IfStatics) :=
  let s := s.connect x
  match s.ifsock with
  | none => .ok (-1, s)
  | some _ =>
    match CString.differs x.interface s.ifrName.1 with
    | none => .error .outOfBounds
    | some false => askIndex x s
    | some true =>
      let s := { s with ifrName := s.ifrName.write (x.interface.take 15 ++ [0]) }
      if 16 ≤ x.interface.length then .ok (-1, s) else askIndex x s

def ifRun (s : IfStatics) : List IfCall → Except Fault (List Int × IfStatics)
  | [] => .ok ([], s)
  | x :: xs =>
    match ifindex x s with
    | .error f => .error f
    | .ok (index, s) => (ifRun s xs).map (fun r => (index :: r.1, r.2))

/-- The index of the interface that the call names, where no name is kept. -/
def lookupIndex (x : IfCall) : Int :=
  if 16 ≤ x.interface.length then -1
  else
    match x.ioctl x.interface with
    | none => -1
    | some index => index.toInt

/-- All that a call leaves to the next one is the socket. -/
def lookups (ifsock : Option Nat) : List IfCall → List Int × Option Nat
  | [] => ([], ifsock)
  | x :: xs =>
    let ifsock := ifsock.or x.socket
    let rest := lookups ifsock xs
    ((if ifsock = none then -1 else lookupIndex x) :: rest.1, rest.2)

/-- The array holds a string, cut to what fits. -/
def IfStatics.Named (s : IfStatics) : Prop := ∃ name, CString.content s.ifrName.1 = some name

theorem connect_ifsock (x : IfCall) (s : IfStatics) :
    (s.connect x).ifsock = s.ifsock.or x.socket := by
  cases h : s.ifsock <;> simp [IfStatics.connect, h]

theorem connect_ifrName (x : IfCall) (s : IfStatics) : (s.connect x).ifrName = s.ifrName := by
  cases h : s.ifsock <;> simp [IfStatics.connect, h]

theorem content_length_lt {n : Nat} {b : Buffer n} {s : List UInt8}
    (h : CString.content b.1 = some s) : s.length < n := by
  obtain ⟨-, rest, hrest⟩ := CString.content_eq_some.mp h
  have hlen := b.2
  rw [hrest, List.length_append, List.length_cons] at hlen
  omega

theorem content_write_take {n : Nat} {b : Buffer n} {s : List UInt8} (hs : 0 ∉ s) {k : Nat}
    (hk : k < n) : CString.content (b.write (s.take k ++ [0])).1 = some (s.take k) := by
  have hfit : (s.take k ++ [0]).length ≤ n := by
    simp only [List.length_append, List.length_take, List.length_singleton]
    omega
  rw [Buffer.write_val hfit, List.append_assoc]
  exact CString.content_eq_some.mpr ⟨fun h => hs (List.mem_of_mem_take h), _, rfl⟩

theorem askIndex_eq {x : IfCall} {s : IfStatics}
    (h : CString.content s.ifrName.1 = some x.interface) :
    askIndex x s = .ok (lookupIndex x, s) := by
  have hshort : ¬ 16 ≤ x.interface.length := Nat.not_le.mpr (content_length_lt h)
  simp only [askIndex, h, lookupIndex, if_neg hshort]
  cases x.ioctl x.interface <;> rfl

/-- Whatever name is kept, a call answers for its own interface and keeps a name again. A name
that does not fit is kept cut, and a later call that names the cut one asks for it rightly. -/
theorem ifindex_step {s : IfStatics} (x : IfCall) (h : s.Named) :
    ∃ s', s'.Named ∧ s'.ifsock = s.ifsock.or x.socket ∧
      ifindex x s =
        .ok (if s.ifsock.or x.socket = none then -1 else lookupIndex x, s') := by
  obtain ⟨kept, hkept⟩ := h
  rw [← connect_ifrName x] at hkept
  cases hsock : (s.connect x).ifsock with
  | none =>
    have hor := (connect_ifsock x s).symm.trans hsock
    exact ⟨s.connect x, ⟨kept, hkept⟩, connect_ifsock x s, by simp [ifindex, hsock, hor]⟩
  | some fd =>
    have hor := (connect_ifsock x s).symm.trans hsock
    have hdiffers := CString.differs_eq x.string hkept
    by_cases hsame : x.interface = kept
    · subst hsame
      refine ⟨s.connect x, ⟨_, hkept⟩, connect_ifsock x s, ?_⟩
      simp [ifindex, hsock, hor, hdiffers, askIndex_eq hkept]
    · have hnamed := content_write_take (b := (s.connect x).ifrName) x.string (k := 15)
        (by omega)
      refine ⟨{ s.connect x with
        ifrName := (s.connect x).ifrName.write (x.interface.take 15 ++ [0]) },
        ⟨_, hnamed⟩, connect_ifsock x s, ?_⟩
      simp only [ifindex, hsock, hdiffers, hsame, hor, ne_eq, not_false_eq_true, decide_true,
        reduceCtorEq, if_false]
      by_cases hlong : 16 ≤ x.interface.length
      · rw [if_pos hlong, lookupIndex, if_pos hlong]
      · rw [if_neg hlong]
        rw [List.take_of_length_le (by omega)] at hnamed ⊢
        exact askIndex_eq hnamed

theorem ifRun_eq {s : IfStatics} (xs : List IfCall) (h : s.Named) :
    ∃ s', s'.Named ∧ s'.ifsock = (lookups s.ifsock xs).2 ∧
      ifRun s xs = .ok ((lookups s.ifsock xs).1, s') := by
  induction xs generalizing s with
  | nil => exact ⟨s, h, rfl, rfl⟩
  | cons x xs ih =>
    obtain ⟨s₁, hnamed, hsock, hstep⟩ := ifindex_step x h
    obtain ⟨s₂, hnamed₂, hsock₂, hrun⟩ := ih hnamed
    refine ⟨s₂, hnamed₂, ?_, ?_⟩
    · rw [hsock₂, hsock, lookups]
    · rw [ifRun, hstep]
      simp only [hrun, hsock, Except.map, lookups]

/-- However the calls for several interfaces follow one another, every one returns the index of
its own interface, as if no name were kept. -/
theorem ifindex_stateless (xs : List IfCall) :
    ∃ s, ifRun {} xs = .ok ((lookups none xs).1, s) ∧ s.ifsock = (lookups none xs).2 := by
  obtain ⟨s, -, hsock, hrun⟩ := ifRun_eq (s := {}) xs ⟨[], by decide⟩
  exact ⟨s, hrun, hsock⟩

end Slstatus
