import Slstatus.TitleFormat

/-! How the three indices of `mpdonair` move over a run of calls: which text is shown
from its start when the song changes, and which index moves while it stays. -/

namespace Slstatus

def MpdStatics.index (s : MpdStatics) : Option Part → Int
  | none => s.scrollIdx
  | some .artist => s.artistIdx
  | some .title => s.titleIdx

def ScrollCall.offset (g : GraphemeBreak) (call : ScrollCall) : Int :=
  scrollStart g call.inputText call.idx call.numChars call.onTextFits %
    (scrollCycle g call.inputText call.numChars call.loopText call.onTextFits).length

def Player.Gets (x : Player) (s : MpdStatics) (state : MpdState) (song : Song) : Prop :=
  (s.conn = true ∨ x.connects = true) ∧ x.status = some state ∧ x.song = some song

/-- What is asked of one call after a call with the song `prev`: a changed song is
shown from its start, and a song that stays moves one index if it plays and none if it
pauses. -/
structure CallLaw (g : GraphemeBreak) (fmt : Bytes) (prev : Song) (x : Player) (s : MpdStatics)
    (r : Shown) (t : MpdStatics) : Prop where
  restarts : x.song.getD {} ≠ prev → ∀ call ∈ r.scrolls, call.offset g = 0
  plays : ∀ song, x.Gets s .play song → song = prev →
    ∀ i, t.index i = s.index i + if i = firstScrolled song fmt then 1 else 0
  pauses : ∀ song, x.Gets s .pause song → song = prev → ∀ i, t.index i = s.index i

def RunLaw (g : GraphemeBreak) (c : Config) (fmt : Bytes) : Song → MpdStatics → List Player → Prop
  | _, _, [] => True
  | prev, s, x :: xs => ∃ r t, mpdonair g c fmt x s = .ok (r, t) ∧
    CallLaw g fmt prev x s r t ∧ RunLaw g c fmt (x.song.getD {}) t xs

/-- The comparisons with the stored copies stay inside these. -/
def Readable (song : Song) (s : MpdStatics) : Prop :=
  (∀ tag ∈ song.title, CString.differs tag s.prevTitle.1 ≠ none) ∧
  (∀ tag ∈ song.artist, CString.differs tag s.prevArtist.1 ≠ none)

def Resets (song : Song) (s : MpdStatics) : Prop :=
  (∃ tag ∈ song.title, CString.differs tag s.prevTitle.1 = some true) ∨
  (∃ tag ∈ song.artist, CString.differs tag s.prevArtist.1 = some true)

instance (song : Song) (s : MpdStatics) : Decidable (Resets song s) :=
  inferInstanceAs (Decidable (_ ∨ _))

def Separates (c : Config) : Prop :=
  match c.mpdLoopText with
  | none => 0 < c.mpdTitleLength.toInt
  | some loop => if c.mpdOnTextFits = .forceScroll then loop ≠ [] else 0 < c.mpdTitleLength.toInt

def HasText (c : Config) (fmt : Bytes) (song : Song) : Prop :=
  0 ≤ c.mpdTitleLength.toInt ∧ ((∃ l ∈ fmt, Adds song l) ∨ Separates c)

structure ShowOk (c : Config) (fmt : Bytes) (prev : Song) (state : MpdState) (song : Song)
    (s : MpdStatics) : Prop where
  readable : Readable song s
  text : HasText c fmt song
  resets : song ≠ prev → s.scrollIdx = 0 ∨ Resets song s
  parts : song ≠ prev → ∀ q, some q ∈ fmt.map (scrolledBy song) → s.index (some q) = 0
  once : song ≠ prev → state = .play → ∀ q, firstScrolled song fmt = some q → fmt.count q.letter ≤ 1
  keeps : song = prev → s.scrollIdx = 0 ∨ ¬ Resets song s

def CallOk (c : Config) (fmt : Bytes) (prev : Song) (x : Player) (s : MpdStatics) : Prop :=
  ∀ state song, state = .play ∨ state = .pause → x.Gets s state song →
    ShowOk c fmt prev state song s

/-- Every call of a run is made in a state where it meets the law. -/
def RunOk (g : GraphemeBreak) (c : Config) (fmt : Bytes) : Song → MpdStatics → List Player → Prop
  | _, _, [] => True
  | prev, s, x :: xs => CallOk c fmt prev x s ∧
    ∀ r t, mpdonair g c fmt x s = .ok (r, t) → RunOk g c fmt (x.song.getD {}) t xs

section Call

variable {g : GraphemeBreak} {c : Config} {fmt : Bytes} {song : Song} {s : MpdStatics}

def copyOf (tag : Option Bytes) (prev : Buffer 255) : Buffer 255 :=
  match tag with
  | none => prev
  | some tag => Buffer.ncopy 255 tag

theorem compareTag_ok {tag : Option Bytes} {prev : Buffer 255} (idx : Int)
    (h : ∀ t ∈ tag, CString.differs t prev.1 ≠ none) :
    compareTag tag prev idx = .ok (copyOf tag prev,
      if ∃ t ∈ tag, CString.differs t prev.1 = some true then 0 else idx) := by
  cases tag with
  | none => simp [compareTag, copyOf]
  | some t =>
    cases hd : CString.differs t prev.1 with
    | none => exact absurd hd (h t rfl)
    | some changed => simp [compareTag, copyOf, hd]

variable (song s) in
theorem resetIdx_eq :
    (if ∃ t ∈ song.artist, CString.differs t s.prevArtist.1 = some true then 0
      else if ∃ t ∈ song.title, CString.differs t s.prevTitle.1 = some true then 0
      else s.scrollIdx) = if Resets song s then 0 else s.scrollIdx := by
  by_cases ha : ∃ t ∈ song.artist, CString.differs t s.prevArtist.1 = some true
  · rw [if_pos ha, if_pos (show Resets song s from .inr ha)]
  · rw [if_neg ha]
    by_cases ht : ∃ t ∈ song.title, CString.differs t s.prevTitle.1 = some true
    · rw [if_pos ht, if_pos (show Resets song s from .inl ht)]
    · rw [if_neg ht, if_neg (show ¬ Resets song s from fun h => h.elim ht ha)]

theorem separator_ne_nil (hnum : 0 ≤ c.mpdTitleLength.toInt) (hsep : Separates c) :
    separator g [] c.mpdTitleLength.toInt c.mpdLoopText c.mpdOnTextFits ≠ [] := by
  have hspaces : 0 < c.mpdTitleLength.toInt →
      List.replicate c.mpdTitleLength.toInt.toNat (32 : UInt8) ≠ [] := by
    intro hpos h
    have := congrArg List.length h
    simp only [List.length_replicate, List.length_nil] at this
    omega
  unfold Separates at hsep
  cases hloop : c.mpdLoopText with
  | none =>
    rw [hloop] at hsep
    exact hspaces hsep
  | some loop =>
    rw [hloop] at hsep
    by_cases hforce : c.mpdOnTextFits = .forceScroll
    · rw [separator, if_neg (fun h => h.2 hforce)]
      simpa only [hforce, if_true] using hsep
    · rw [separator, if_pos ⟨hnum, hforce⟩]
      exact hspaces (by simpa only [hforce, if_false] using hsep)

theorem lastScroll_ok {text : Bytes} (idx : Int) (hnum : 0 ≤ c.mpdTitleLength.toInt)
    (htext : text ≠ [] ∨ Separates c) :
    ∃ scrolled, scrollText g text idx c.mpdTitleLength.toInt c.mpdLoopText c.mpdOnTextFits =
      .ok scrolled := by
  refine ⟨_, scrollText_eq_window idx hnum ?_⟩
  intro hnil
  rw [scrollCycle, List.append_eq_nil_iff, seg_eq_nil, seg_eq_nil] at hnil
  obtain ⟨rfl, hsep⟩ := hnil
  rcases htext with htext | htext
  · exact htext rfl
  · exact separator_ne_nil hnum htext hsep

theorem offset_of_idx_zero {call : ScrollCall} (h : call.idx = 0) : call.offset g = 0 := by
  simp only [ScrollCall.offset, scrollStart, h, ite_self, Int.zero_emod]

variable (g) in
/-- What a call that shows a song does: it moves one index, after a reset of
`scroll_idx` if a present tag is new, shows the text at these indices and stores the
tags. -/
theorem showSong_ok (buf : Bytes) (scroll : Int) (hread : Readable song s)
    (htext : HasText c fmt song) :
    ∃ r t, showSong g c fmt buf scroll song s = .ok (r, t) ∧
      (∀ i, t.index i = (if i = none ∧ Resets song s then 0 else s.index i) +
        if i = firstScrolled song fmt then scroll else 0) ∧
      ((s.scrollIdx = 0 ∨ Resets song s) →
        StartsOver song fmt ⟨[], scroll, s.artistIdx, s.titleIdx, []⟩ →
        ∀ call ∈ r.scrolls, call.idx = 0) ∧
      t.prevTitle = copyOf song.title s.prevTitle ∧
      t.prevArtist = copyOf song.artist s.prevArtist := by
  have htitle := compareTag_ok s.scrollIdx hread.1
  have hartist := compareTag_ok (if ∃ t ∈ song.title,
    CString.differs t s.prevTitle.1 = some true then 0 else s.scrollIdx) hread.2
  rw [resetIdx_eq] at hartist
  obtain ⟨st, hformat, hst⟩ := formatTitle_ok g song fmt
    (show (⟨[], scroll, s.artistIdx, s.titleIdx, []⟩ : TitleState).titlebuffer.length ≤ 255 by simp)
  obtain ⟨hnum, hadds⟩ := htext
  have hbuffer : st.titlebuffer ≠ [] ∨ Separates c := by
    rcases hadds with ⟨l, hl, hl'⟩ | hsep
    · exact .inl (fun h => (hst.empty.mp h).2 l hl hl')
    · exact .inr hsep
  obtain ⟨scrolled, hlast⟩ := lastScroll_ok (g := g) (if Resets song s then 0 else s.scrollIdx)
    hnum hbuffer
  refine ⟨_, _, by simp only [showSong, htitle, hartist, hformat, ScrollCall.run, hlast]; rfl,
    ?_, ?_, rfl, rfl⟩
  · intro i
    cases i with
    | none =>
      simp only [MpdStatics.index, hst.scroll, true_and]
      cases firstScrolled song fmt <;> simp
    | some q =>
      have hq := hst.idx q
      cases q <;> simpa [MpdStatics.index, TitleState.idx, eq_comm] using hq
  · intro hzero hover call hcall
    rcases List.mem_append.mp hcall with hpart | hlast
    · exact formatTitle_startsOver (Nat.zero_le _) hover (by simp) hformat call hpart
    · obtain rfl := List.mem_singleton.mp hlast
      by_cases hr : Resets song s
      · exact if_pos hr
      · simpa only [if_neg hr] using hzero.resolve_right hr

theorem Player.Gets.connected {x : Player} {state : MpdState} (hx : x.Gets s state song) :
    ¬ (s.conn = false ∧ x.connects = false) := by
  intro h
  rcases hx.1 with hconn | hconn
  · simp [hconn] at h
  · simp [hconn] at h

variable (g c fmt) in
theorem mpdonair_shows_nothing {x : Player}
    (h : ∀ state song, state = .play ∨ state = .pause → ¬ x.Gets s state song) :
    ∃ r t, mpdonair g c fmt x s = .ok (r, t) ∧ r.scrolls = [] ∧
      (r.text = [] ∨ r.text = stopSymbol) := by
  by_cases hconn : s.conn = false ∧ x.connects = false
  · exact ⟨_, _, by simp only [mpdonair, if_pos hconn]; rfl, rfl, .inl rfl⟩
  · have hconn' : s.conn = true ∨ x.connects = true := by
      rcases Bool.eq_false_or_eq_true s.conn with h₁ | h₁
      · exact .inl h₁
      · exact .inr (by simpa [h₁] using hconn)
    cases hstatus : x.status with
    | none => exact ⟨_, _, by simp only [mpdonair, if_neg hconn, hstatus]; rfl, rfl, .inl rfl⟩
    | some state =>
      cases hsong : x.song with
      | none =>
        exact ⟨_, _, by simp only [mpdonair, if_neg hconn, hsong, hstatus]; rfl, rfl, .inl rfl⟩
      | some song =>
        cases state with
        | play => exact absurd ⟨hconn', hstatus, hsong⟩ (h .play song (.inl rfl))
        | pause => exact absurd ⟨hconn', hstatus, hsong⟩ (h .pause song (.inr rfl))
        | stop =>
          exact ⟨_, _, by simp only [mpdonair, if_neg hconn, hsong, hstatus]; rfl, rfl, .inr rfl⟩
        | unknown =>
          exact ⟨_, _, by simp only [mpdonair, if_neg hconn, hsong, hstatus]; rfl, rfl, .inl rfl⟩

theorem gets_unique {x : Player} {state state' : MpdState} {song song' : Song}
    (h : x.Gets s state song) (h' : x.Gets s state' song') : state = state' ∧ song = song' :=
  ⟨Option.some.inj (h.2.1.symm.trans h'.2.1), Option.some.inj (h.2.2.symm.trans h'.2.2)⟩

variable (g c fmt) in
theorem mpdonair_play {x : Player} (hx : x.Gets s .play song) :
    mpdonair g c fmt x s = showSong g c fmt playSymbol 1 song { s with conn := true } := by
  have hconn := hx.connected
  obtain ⟨-, hstatus, hsong⟩ := hx
  simp only [mpdonair, if_neg hconn, hstatus, hsong]

variable (g c fmt) in
theorem mpdonair_pause {x : Player} (hx : x.Gets s .pause song) :
    mpdonair g c fmt x s = showSong g c fmt pauseSymbol 0 song { s with conn := true } := by
  have hconn := hx.connected
  obtain ⟨-, hstatus, hsong⟩ := hx
  simp only [mpdonair, if_neg hconn, hstatus, hsong]

variable (g c fmt) in
theorem mpdonair_shows {x : Player} {state : MpdState} (hstate : state = .play ∨ state = .pause)
    (hx : x.Gets s state song) :
    ∃ scroll : Int, ((state = .play ∧ scroll = 1) ∨ (state = .pause ∧ scroll = 0)) ∧
      ∃ buf, mpdonair g c fmt x s = showSong g c fmt buf scroll song { s with conn := true } := by
  rcases hstate with rfl | rfl
  · exact ⟨1, .inl ⟨rfl, rfl⟩, playSymbol, mpdonair_play g c fmt hx⟩
  · exact ⟨0, .inr ⟨rfl, rfl⟩, pauseSymbol, mpdonair_pause g c fmt hx⟩

theorem ShowOk.index_kept {prev : Song} {state : MpdState} (hok : ShowOk c fmt prev state song s)
    (hsame : song = prev) (i : Option Part) :
    (if i = none ∧ Resets song s then 0 else s.index i) = s.index i := by
  by_cases h : i = none ∧ Resets song s
  · obtain ⟨rfl, hreset⟩ := h
    have hzero : s.scrollIdx = 0 := (hok.keeps hsame).resolve_right (not_not.mpr hreset)
    rw [if_pos ⟨rfl, hreset⟩]
    exact hzero.symm
  · rw [if_neg h]

theorem ShowOk.startsOver {prev : Song} {state : MpdState} {scroll : Int}
    (hok : ShowOk c fmt prev state song s) (hne : song ≠ prev)
    (hscroll : (state = .play ∧ scroll = 1) ∨ (state = .pause ∧ scroll = 0)) :
    StartsOver song fmt ⟨[], scroll, s.artistIdx, s.titleIdx, []⟩ := by
  constructor
  · intro q hq
    have hzero := hok.parts hne q hq
    cases q with
    | artist => exact hzero
    | title => exact hzero
  · rcases hscroll with ⟨hplay, -⟩ | ⟨-, hzero⟩
    · exact .inr (hok.once hne hplay)
    · exact .inl hzero

theorem mpdonair_lawful {prev : Song} {x : Player} (h : CallOk c fmt prev x s) :
    ∃ r t, mpdonair g c fmt x s = .ok (r, t) ∧ CallLaw g fmt prev x s r t := by
  by_cases hgets : ∃ state song, (state = .play ∨ state = .pause) ∧ x.Gets s state song
  · obtain ⟨state, song, hstate, hx⟩ := hgets
    have hok := h state song hstate hx
    obtain ⟨scroll, hscroll, buf, hcall⟩ := mpdonair_shows g c fmt hstate hx
    obtain ⟨r, t, hrun, hindex, hshown, -⟩ := showSong_ok g buf scroll
      (s := { s with conn := true }) hok.readable hok.text
    refine ⟨r, t, hcall.trans hrun, ?_, ?_, ?_⟩
    · intro hne call hmem
      rw [hx.2.2, Option.getD_some] at hne
      have hidx : call.idx = 0 := hshown (hok.resets hne) (hok.startsOver hne hscroll) call hmem
      exact offset_of_idx_zero hidx
    · intro song' hx' hsame i
      obtain ⟨rfl, rfl⟩ := gets_unique hx hx'
      obtain rfl : scroll = 1 := by simpa using hscroll
      have hkept := hok.index_kept hsame i
      rw [hindex i]
      exact congrArg (· + _) hkept
    · intro song' hx' hsame i
      obtain ⟨rfl, rfl⟩ := gets_unique hx hx'
      obtain rfl : scroll = 0 := by simpa using hscroll
      have hkept := hok.index_kept hsame i
      rw [hindex i, ite_self, Int.add_zero]
      exact hkept
  · have hno : ∀ state song, state = .play ∨ state = .pause → ¬ x.Gets s state song := by
      intro state song hstate hx
      exact hgets ⟨state, song, hstate, hx⟩
    obtain ⟨r, t, hrun, hnil, -⟩ := mpdonair_shows_nothing g c fmt hno
    refine ⟨r, t, hrun, ?_, ?_, ?_⟩
    · intro _ call hcall
      rw [hnil] at hcall
      cases hcall
    · intro song hx
      exact absurd hx (hno .play song (.inl rfl))
    · intro song hx
      exact absurd hx (hno .pause song (.inr rfl))

end Call

section Plain

variable {g : GraphemeBreak} {c : Config} {fmt : Bytes}

structure Plain (c : Config) (fmt : Bytes) (x : Player) (title artist : Bytes) : Prop where
  connects : x.connects = true
  status : x.status = some .play ∨ x.status = some .pause
  song : x.song = some ⟨some title, some artist⟩
  titleFits : 0 ∉ title ∧ title.length < 255
  artistFits : 0 ∉ artist ∧ artist.length < 255
  text : HasText c fmt ⟨some title, some artist⟩

structure Copied (prev : Song) (s : MpdStatics) : Prop where
  title : CString.content s.prevTitle.1 = some (prev.title.getD [])
  artist : CString.content s.prevArtist.1 = some (prev.artist.getD [])
  first : prev = {} ∧ s.scrollIdx = 0 ∨ ∃ title artist, prev = ⟨some title, some artist⟩

theorem copied_start : Copied {} {} := ⟨by decide +kernel, by decide +kernel, .inl ⟨rfl, rfl⟩⟩

theorem scrolledBy_eq_none {song : Song} (hA : 65 ∉ fmt) (hT : 84 ∉ fmt) {l : UInt8} (hl : l ∈ fmt) :
    scrolledBy song l = none := by
  have hlA : l ≠ 65 := fun h => hA (h ▸ hl)
  have hlT : l ≠ 84 := fun h => hT (h ▸ hl)
  simp only [scrolledBy, hlA, hlT, false_and, if_false]

theorem showOk_of_plain {prev : Song} {s : MpdStatics} {x : Player} {title artist : Bytes}
    (hA : 65 ∉ fmt) (hT : 84 ∉ fmt) (hx : Plain c fmt x title artist) (hs : Copied prev s)
    (state : MpdState) : ShowOk c fmt prev state ⟨some title, some artist⟩ s := by
  have htitle := CString.differs_eq hx.titleFits.1 hs.title
  have hartist := CString.differs_eq hx.artistFits.1 hs.artist
  have hresets : Resets ⟨some title, some artist⟩ s ↔
      title ≠ prev.title.getD [] ∨ artist ≠ prev.artist.getD [] := by
    simp [Resets, htitle, hartist]
  have hnone : ∀ q, some q ∉ fmt.map (scrolledBy ⟨some title, some artist⟩) := by
    intro q hq
    obtain ⟨l, hl, hby⟩ := List.mem_map.mp hq
    rw [scrolledBy_eq_none hA hT hl] at hby
    cases hby
  refine ⟨by simp [Readable, htitle, hartist], hx.text, ?_, ?_, ?_, ?_⟩
  · intro hne
    rcases hs.first with ⟨-, hzero⟩ | ⟨title', artist', rfl⟩
    · exact .inl hzero
    · refine .inr (hresets.mpr ?_)
      by_contra hboth
      simp only [Option.getD_some, not_or, not_not] at hboth
      exact hne (by rw [hboth.1, hboth.2])
  · intro _ q hq
    exact absurd hq (hnone q)
  · intro _ _ q hq
    obtain ⟨l, hl, hby⟩ := List.exists_of_findSome?_eq_some hq
    exact absurd (List.mem_map.mpr ⟨l, hl, hby⟩) (hnone q)
  · intro hsame
    subst hsame
    exact .inr (fun h => by simp [hresets] at h)

/-- With a format that has no 'A' and no 'T', every run of ordinary calls is made in
good states. -/
theorem runOk_of_plain (hA : 65 ∉ fmt) (hT : 84 ∉ fmt) (xs : List Player)
    (h : ∀ x ∈ xs, ∃ title artist, Plain c fmt x title artist) {prev : Song} {s : MpdStatics}
    (hs : Copied prev s) : RunOk g c fmt prev s xs := by
  induction xs generalizing prev s with
  | nil => trivial
  | cons x xs ih =>
    obtain ⟨title, artist, hx⟩ := h x List.mem_cons_self
    have hshow := showOk_of_plain hA hT hx hs
    refine ⟨fun state song _ hgets => ?_, fun r t hrun => ?_⟩
    · obtain rfl := Option.some.inj (hx.song.symm.trans hgets.2.2)
      exact hshow state
    · refine ih (fun x' hx' => h x' (List.mem_cons_of_mem _ hx')) ?_
      obtain ⟨state, hstate, hstatus⟩ : ∃ state, (state = .play ∨ state = .pause) ∧
          x.status = some state := by
        rcases hx.status with hstatus | hstatus
        · exact ⟨_, .inl rfl, hstatus⟩
        · exact ⟨_, .inr rfl, hstatus⟩
      obtain ⟨scroll, -, buf, hcall⟩ := mpdonair_shows g c fmt (s := s) hstate
        ⟨.inr hx.connects, hstatus, hx.song⟩
      obtain ⟨r', t', hrun', -, -, htitle, hartist⟩ := showSong_ok g buf
        scroll (s := { s with conn := true }) (hshow state).readable hx.text
      rw [hcall, hrun'] at hrun
      obtain ⟨rfl, rfl⟩ := Prod.mk.inj (Except.ok.inj hrun)
      rw [hx.song, Option.getD_some]
      refine ⟨?_, ?_, .inr ⟨title, artist, rfl⟩⟩
      · rw [htitle]
        exact CString.content_ncopy hx.titleFits.1 hx.titleFits.2
      · rw [hartist]
        exact CString.content_ncopy hx.artistFits.1 hx.artistFits.2

end Plain

end Slstatus
