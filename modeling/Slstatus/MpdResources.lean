import Mathlib.Tactic.Abel
import Slstatus.Lib.Alloc
import Slstatus.Mpdonair

/-! What `mpdonair` acquires and releases over many calls. The connection is kept in a static
variable, a status and a song belong to one call, and the texts of `scroll_text` are freed as
soon as they are appended. -/

namespace Slstatus

open Alloc

inductive Acquired
  | connection | status | song | text
  deriving DecidableEq

/-- The result of a call or a run, with the static pointer `conn`. -/
abbrev MpdOutcome (α : Type) := Except Fault (α × MpdStatics) × Option Nat

def connect (x : Player) : Option Nat → Prog Acquired (Option Nat)
  | some conn => return some conn
  | none => if x.connects then some <$> malloc .connection else return none

def mpdout (conn : Nat) : Prog Acquired (Option Nat) := do
  let _ ← load conn
  free (some conn)
  return none

def mpdreturn (conn status song : Nat) : Prog Acquired Unit := do
  free (some status)
  free (some song)
  let _ ← load conn

def scrollTexts : List ScrollCall → Prog Acquired Unit
  | [] => return
  | _ :: calls => do
    let text ← malloc .text
    let _ ← load text
    free (some text)
    scrollTexts calls

variable (g : GraphemeBreak) (c : Config)

/-- From the tags of the song to `mpdreturn`; a fault ends the program where it is. -/
def showSongMem (fmt buf : Bytes) (scroll : Int) (song : Song) (s : MpdStatics)
    (conn statusPtr songPtr : Nat) : Prog Acquired (MpdOutcome Shown) :=
  match showSong g c fmt buf scroll song s with
  | .error f => return (.error f, some conn)
  | .ok (shown, s) => do
    scrollTexts shown.scrolls
    mpdreturn conn statusPtr songPtr
    return (.ok (shown, s), some conn)

def showStateMem (fmt : Bytes) (state : MpdState) (song : Song) (s : MpdStatics)
    (conn statusPtr songPtr : Nat) : Prog Acquired (MpdOutcome Shown) :=
  match state with
  | .play => showSongMem g c fmt playSymbol 1 song s conn statusPtr songPtr
  | .pause => showSongMem g c fmt pauseSymbol 0 song s conn statusPtr songPtr
  | .stop => do
    mpdreturn conn statusPtr songPtr
    return (.ok (⟨stopSymbol, []⟩, s), some conn)
  | .unknown => do
    let conn ← mpdout conn
    return (.ok (⟨[], []⟩, { s with conn := false }), conn)

def askMem (fmt : Bytes) (x : Player) (s : MpdStatics) (conn : Nat) :
    Prog Acquired (MpdOutcome Shown) := do
  let _ ← load conn
  match x.status with
  | none => do
    let conn ← mpdout conn
    return (.ok (⟨[], []⟩, { s with conn := false }), conn)
  | some state => do
    let statusPtr ← malloc .status
    let _ ← load conn
    match x.song with
    | none => do
      let conn ← mpdout conn
      return (.ok (⟨[], []⟩, { s with conn := false }), conn)
    | some song => do
      let songPtr ← malloc .song
      showStateMem g c fmt state song s conn statusPtr songPtr

def mpdonairMem (fmt : Bytes) (x : Player) (s : MpdStatics) (conn : Option Nat) :
    Prog Acquired (MpdOutcome Shown) := do
  let conn ← connect x conn
  match conn with
  | none => return (.ok (⟨[], []⟩, s), none)
  | some conn => askMem g c fmt x { s with conn := true } conn

def mpdRun (s : MpdStatics) : List (Bytes × Player) → Except Fault (List Shown × MpdStatics)
  | [] => .ok ([], s)
  | (fmt, x) :: xs =>
    match mpdonair g c fmt x s with
    | .error f => .error f
    | .ok (shown, s) => (mpdRun s xs).map (fun r => (shown :: r.1, r.2))

def mpdRunMem (s : MpdStatics) (conn : Option Nat) :
    List (Bytes × Player) → Prog Acquired (MpdOutcome (List Shown))
  | [] => return (.ok ([], s), conn)
  | (fmt, x) :: xs => do
    let (r, conn) ← mpdonairMem g c fmt x s conn
    match r with
    | .error f => return (.error f, conn)
    | .ok (shown, s) => do
      let (r, conn) ← mpdRunMem s conn xs
      return (r.map (fun r => (shown :: r.1, r.2)), conn)

/-- What one call acquires and never releases. -/
def Player.leaks (x : Player) (s : MpdStatics) : Multiset Acquired :=
  if s.conn = false ∧ x.connects = false then 0
  else
    match x.status, x.song with
    | some _, none => {.status}
    | some .unknown, some _ => {.status, .song}
    | _, _ => 0

def mpdLeaks (s : MpdStatics) : List (Bytes × Player) → Multiset Acquired
  | [] => 0
  | (fmt, x) :: xs =>
    match mpdonair g c fmt x s with
    | .error _ => 0
    | .ok (_, s') => x.leaks s + mpdLeaks s' xs

def heldConnection : Option Nat → Multiset (Block Acquired)
  | none => 0
  | some p => {(p, .connection)}

/-- Between two calls: the static pointer owns the connection, and `lost` is out of reach. -/
structure MpdOwns (s : MpdStatics) (conn : Option Nat) (leaks : Multiset Acquired)
    (own : Multiset (Block Acquired)) : Prop where
  agrees : s.conn = conn.isSome
  lost : ∃ lost, own = heldConnection conn + lost ∧ lost.map Prod.snd = leaks

/-- The outcome is that of the run or call without memory, and if it ended without a fault the
blocks are accounted for. -/
structure OutcomeOwns {α : Type} (r : Except Fault (α × MpdStatics)) (leaks : Multiset Acquired)
    (out : MpdOutcome α) (own : Multiset (Block Acquired)) : Prop where
  result : out.1 = r
  owns : ∀ a s, r = .ok (a, s) → MpdOwns s out.2 leaks own

section Call

variable {g c} {fmt buf : Bytes} {scroll : Int} {song : Song} {s : MpdStatics}
  {conn statusPtr songPtr : Nat} {rest : Multiset (Block Acquired)}

theorem mpdout_triple :
    Triple {(conn, Acquired.connection)} (mpdout conn) (fun p own => p = none ∧ own = 0) := by
  rw [← add_zero ({(conn, Acquired.connection)} : Multiset _)]
  apply Triple.load_bind
  apply Triple.free_bind
  exact .pure ⟨rfl, rfl⟩

theorem mpdreturn_triple :
    Triple ({(conn, Acquired.connection)} + {(statusPtr, .status)} + {(songPtr, .song)})
      (mpdreturn conn statusPtr songPtr) (fun _ own => own = {(conn, .connection)}) := by
  refine Triple.free_step (x := Acquired.status)
    (r := {(conn, .connection)} + {(songPtr, .song)}) (by abel) ?_
  refine Triple.free_step (x := Acquired.song) (r := {(conn, .connection)}) (by abel) ?_
  exact .load_mem (x := Acquired.connection) (by simp) (.pure rfl)

theorem scrollTexts_triple (calls : List ScrollCall) :
    Triple 0 (scrollTexts calls) (fun _ own => own = 0) := by
  induction calls with
  | nil => exact .pure rfl
  | cons call calls ih =>
    apply Triple.malloc_bind
    intro text
    apply Triple.load_bind
    apply Triple.free_bind
    exact ih

theorem owns_kept (hs : s.conn = true) :
    MpdOwns s (some conn) 0 {(conn, Acquired.connection)} :=
  ⟨hs, 0, (add_zero _).symm, rfl⟩

theorem showSongMem_triple (hs : s.conn = true) :
    Triple ({(conn, Acquired.connection)} + {(statusPtr, .status)} + {(songPtr, .song)})
      (showSongMem g c fmt buf scroll song s conn statusPtr songPtr)
      (OutcomeOwns (showSong g c fmt buf scroll song s) 0) := by
  cases hshow : showSong g c fmt buf scroll song s with
  | error f =>
    simp only [showSongMem, hshow]
    exact .pure ⟨rfl, by simp⟩
  | ok r =>
    obtain ⟨shown, s'⟩ := r
    simp only [showSongMem, hshow]
    refine (scrollTexts_triple shown.scrolls).fresh ?_
    rintro _ _ rfl
    rw [zero_add]
    refine mpdreturn_triple.bind ?_
    rintro _ _ rfl
    refine .pure ⟨rfl, ?_⟩
    intro _ _ heq
    cases heq
    exact owns_kept ((showSong_conn hshow).trans hs)

/-- What is left when a call gives the connection up: the blocks `lost` are leaked. -/
theorem giveUp_triple {lost : Multiset (Block Acquired)} {leaks : Multiset Acquired}
    (hlost : lost.map Prod.snd = leaks) :
    Triple ({(conn, Acquired.connection)} + lost)
      (do let conn ← mpdout conn; return (.ok (⟨[], []⟩, { s with conn := false }), conn))
      (OutcomeOwns (.ok ((⟨[], []⟩ : Shown), { s with conn := false })) leaks) := by
  refine mpdout_triple.step rfl ?_
  rintro _ _ ⟨rfl, rfl⟩
  refine .pure ⟨rfl, ?_⟩
  intro _ _ heq
  cases heq
  exact ⟨rfl, lost, rfl, hlost⟩

variable (fmt) in
theorem askMem_triple (x : Player) (hs : s.conn = true) :
    Triple {(conn, Acquired.connection)} (askMem g c fmt x s conn)
      (OutcomeOwns (mpdonair g c fmt x s) (x.leaks s)) := by
  have hup : ¬ (s.conn = false ∧ x.connects = false) := by simp [hs]
  have hset : { s with conn := true } = s := by rw [← hs]
  rw [← add_zero ({(conn, Acquired.connection)} : Multiset _)]
  apply Triple.load_bind
  cases hstatus : x.status with
  | none =>
    simp only [mpdonair, Player.leaks, if_neg hup, hstatus]
    exact giveUp_triple rfl
  | some state =>
    refine (malloc_triple _).fresh ?_
    rintro statusPtr _ rfl
    rw [add_zero, add_comm]
    apply Triple.load_bind
    cases hsong : x.song with
    | none =>
      simp only [mpdonair, Player.leaks, if_neg hup, hstatus, hsong]
      exact giveUp_triple rfl
    | some song =>
      refine (malloc_triple _).fresh ?_
      rintro songPtr _ rfl
      rw [add_comm {(songPtr, Acquired.song)}]
      cases state with
      | play =>
        simp only [mpdonair, Player.leaks, if_neg hup, hstatus, hsong, hset]
        exact showSongMem_triple hs
      | pause =>
        simp only [mpdonair, Player.leaks, if_neg hup, hstatus, hsong, hset]
        exact showSongMem_triple hs
      | stop =>
        simp only [mpdonair, Player.leaks, if_neg hup, hstatus, hsong, hset]
        refine mpdreturn_triple.bind ?_
        rintro _ _ rfl
        refine .pure ⟨rfl, ?_⟩
        intro _ _ heq
        cases heq
        exact owns_kept hs
      | unknown =>
        simp only [mpdonair, Player.leaks, if_neg hup, hstatus, hsong, add_assoc]
        exact giveUp_triple rfl

theorem connect_triple (x : Player) {ptr : Option Nat} (hs : s.conn = ptr.isSome) :
    Triple (heldConnection ptr) (connect x ptr)
      (fun p own => own = heldConnection p ∧ (p = none ↔ s.conn = false ∧ x.connects = false)) := by
  cases ptr with
  | some conn => exact .pure ⟨rfl, by simp [hs]⟩
  | none =>
    by_cases hconnects : x.connects
    · simp only [connect, if_pos hconnects]
      refine (malloc_triple _).map ?_
      rintro conn _ rfl
      exact ⟨rfl, by simp [hconnects]⟩
    · simp only [connect, if_neg hconnects]
      exact .pure ⟨rfl, by simp [hs, hconnects]⟩

theorem mpdonair_connected {x : Player} (fmt : Bytes) (h : ¬ (s.conn = false ∧ x.connects = false)) :
    mpdonair g c fmt x { s with conn := true } = mpdonair g c fmt x s ∧
      x.leaks { s with conn := true } = x.leaks s := by
  have hup : ¬ (true = false ∧ x.connects = false) := by simp
  simp only [mpdonair, Player.leaks, if_neg h, if_neg hup, and_self]

/-- The pointer is NULL or owns the connection, as the static variable says. -/
theorem mpdonairMem_triple (fmt : Bytes) (x : Player) {ptr : Option Nat} (hs : s.conn = ptr.isSome) :
    Triple (heldConnection ptr) (mpdonairMem g c fmt x s ptr)
      (OutcomeOwns (mpdonair g c fmt x s) (x.leaks s)) := by
  refine (connect_triple x hs).bind ?_
  rintro ptr' _ ⟨rfl, hptr⟩
  cases ptr' with
  | none =>
    have hdown := hptr.mp rfl
    simp only [mpdonair, Player.leaks, if_pos hdown]
    refine .pure ⟨rfl, ?_⟩
    intro _ _ heq
    cases heq
    exact ⟨hdown.1, 0, rfl, rfl⟩
  | some conn =>
    obtain ⟨hresult, hleaks⟩ := mpdonair_connected (g := g) (c := c) fmt (mt hptr.mpr (by simp))
    rw [← hresult, ← hleaks]
    exact askMem_triple fmt x rfl

end Call

section Run

variable {g c}

/-- The induction is over the calls; what earlier ones have leaked is not looked at again. -/
theorem mpdRunMem_triple (xs : List (Bytes × Player)) {s : MpdStatics} {p : Option Nat}
    (hs : s.conn = p.isSome) :
    Triple (heldConnection p) (mpdRunMem g c s p xs)
      (OutcomeOwns (mpdRun g c s xs) (mpdLeaks g c s xs)) := by
  induction xs generalizing s p with
  | nil =>
    refine .pure ⟨rfl, ?_⟩
    intro _ _ heq
    cases heq
    exact ⟨hs, 0, (add_zero _).symm, rfl⟩
  | cons call xs ih =>
    obtain ⟨fmt, x⟩ := call
    refine (mpdonairMem_triple fmt x hs).bind ?_
    rintro ⟨r, ptr'⟩ own ⟨hresult, howns⟩
    obtain rfl : r = mpdonair g c fmt x s := hresult
    cases hcall : mpdonair g c fmt x s with
    | error f =>
      simp only [mpdRun, mpdLeaks, hcall]
      exact .pure ⟨rfl, by simp⟩
    | ok r =>
      obtain ⟨shown, s'⟩ := r
      obtain ⟨hs', lost, rfl, hlost⟩ := howns _ _ hcall
      simp only [mpdRun, mpdLeaks, hcall]
      refine (ih hs').step rfl ?_
      rintro ⟨r, ptr''⟩ own' ⟨hresult', howns'⟩
      obtain rfl : r = mpdRun g c s' xs := hresult'
      refine .pure ⟨rfl, ?_⟩
      intro a s'' heq
      cases hrun : mpdRun g c s' xs with
      | error f => simp [hrun, Except.map] at heq
      | ok out =>
      simp only [hrun, Except.map, Except.ok.injEq, Prod.mk.injEq] at heq
      obtain ⟨hs'', lost', rfl, hlost'⟩ := howns' out.1 s'' (by rw [hrun, ← heq.2])
      refine ⟨hs'', lost + lost', by abel, ?_⟩
      rw [Multiset.map_add, hlost, hlost']

end Run

end Slstatus
