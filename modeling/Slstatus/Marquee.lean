import Slstatus.Lib.CallLog
import Slstatus.TitleBuffer

/-! What a run of calls of `mpdonair` shows of a song that stays: a text that goes round. -/

namespace Slstatus

/-- The stored copies hold the tags that the song has. -/
def Knows (song : Song) (s : MpdStatics) : Prop := Readable song s ∧ ¬ Resets song s

/-- The tags have room in the copies. -/
structure Song.Short (song : Song) : Prop where
  title : ∀ tag ∈ song.title, 0 ∉ tag ∧ tag.length < 255
  artist : ∀ tag ∈ song.artist, 0 ∉ tag ∧ tag.length < 255

def Song.tag (song : Song) : Part → Bytes
  | .artist => song.artist.getD []
  | .title => song.title.getD []

def MpdState.symbol : MpdState → Bytes
  | .play => playSymbol
  | _ => pauseSymbol

def MpdState.scroll : MpdState → Int
  | .play => 1
  | _ => 0

/-- The indices after so many calls while the song plays. -/
def MpdStatics.indexAfter (fmt : Bytes) (song : Song) (s : MpdStatics) (plays : Nat)
    (i : Option Part) : Int :=
  s.index i + if i = firstScrolled song fmt then (plays : Int) else 0

def plays (xs : List Player) : Nat := xs.countP (fun x => x.status = some .play)

variable (g : GraphemeBreak)

def ScrollCall.cycle (call : ScrollCall) : List Bytes :=
  scrollCycle g call.inputText call.numChars call.loopText call.onTextFits

/-- The last call of `scroll_text` while the parts are shown at `idx`. -/
def frame (c : Config) (fmt : Bytes) (scroll : Int) (song : Song) (idx : Option Part → Int) :
    ScrollCall :=
  ⟨(composed g song fmt (fun q => idx (some q)) scroll).take 255, idx none,
    c.mpdTitleLength.toInt, c.mpdLoopText, c.mpdOnTextFits⟩

def frameText (c : Config) (fmt : Bytes) (state : MpdState) (song : Song) (idx : Option Part → Int) :
    Bytes :=
  state.symbol ++ ((frame g c fmt state.scroll song idx).windowText g).take 1018

/-- The text is longer than its window, or has to scroll all the same. -/
def ScrollCall.Moves (call : ScrollCall) : Prop :=
  0 < call.numChars ∧
    ¬ ((g.seg call.inputText).length ≤ call.numChars ∧ call.onTextFits = .noScroll)

/-- The call of `scroll_text` whose index moves. -/
def moving (c : Config) (fmt : Bytes) (song : Song) (idx : Option Part → Int) : ScrollCall :=
  match firstScrolled song fmt with
  | none => frame g c fmt 0 song idx
  | some q => tagCall g (song.tag q) (idx (some q))

section Composed

variable {g} {song : Song} {fmt : Bytes} {idx idx' : Part → Int}

theorem windowText_tagCall (tag : Bytes) (k : Int) :
    (tagCall g tag k).windowText g =
      (Window.window ((tagCall g tag 0).cycle g) k (utf8strlen g (some tag))).flatten := by
  have hmoves : ¬ ((g.seg tag).length ≤ (utf8strlen g (some tag) : Int) ∧
      OnTextFits.forceScroll = .noScroll) := fun h => nomatch h.2
  rw [ScrollCall.windowText]
  simp only [tagCall, scrollStart_of_scrolls hmoves, Int.toNat_natCast]
  rfl

theorem piece_congr {l : UInt8} (h : ∀ q, scrolledBy song l = some q →
      (tagCall g (song.tag q) (idx q)).windowText g =
        (tagCall g (song.tag q) (idx' q)).windowText g) :
    piece g song idx l = piece g song idx' l := by
  by_cases hA : l = 65
  · subst hA
    cases hartist : song.artist with
    | none => simp [piece, hartist]
    | some tag =>
      have hpart := h .artist (by simp [scrolledBy, hartist])
      simpa [piece, hartist, Song.tag] using hpart
  · by_cases hT : l = 84
    · subst hT
      cases htitle : song.title with
      | none => simp [piece, htitle]
      | some tag =>
        have hpart := h .title (by simp [scrolledBy, htitle])
        simpa [piece, htitle, Song.tag] using hpart
    · simp only [piece, if_neg hA, if_neg hT]

/-- Only the windows of the parts that the format scrolls matter. -/
theorem composed_congr (scroll : Int)
    (h : ∀ l ∈ fmt, ∀ q, scrolledBy song l = some q → ∀ k,
      (tagCall g (song.tag q) (idx q + k)).windowText g =
        (tagCall g (song.tag q) (idx' q + k)).windowText g) :
    composed g song fmt idx scroll = composed g song fmt idx' scroll := by
  induction fmt generalizing idx idx' scroll with
  | nil => rfl
  | cons l fmt ih =>
    have hpiece : piece g song idx l = piece g song idx' l := by
      refine piece_congr (fun q hq => ?_)
      have hwindow := h l List.mem_cons_self q hq 0
      rwa [Int.add_zero, Int.add_zero] at hwindow
    rw [composed, composed, hpiece]
    refine congrArg (piece g song idx' l ++ ·) (ih _ ?_)
    intro l' hl' q hq k
    simp only [Int.add_assoc]
    exact h l' (List.mem_cons_of_mem l hl') q hq _

theorem composed_still (h : ∀ l ∈ fmt, scrolledBy song l = none) (scroll scroll' : Int) :
    composed g song fmt idx scroll = composed g song fmt idx' scroll' := by
  induction fmt generalizing idx idx' scroll scroll' with
  | nil => rfl
  | cons l fmt ih =>
    have hnone := h l List.mem_cons_self
    have hpiece : piece g song idx l = piece g song idx' l :=
      piece_congr (fun q hq => nomatch hnone.symm.trans hq)
    rw [composed, composed, hpiece]
    exact congrArg _ (ih (fun l' hl' => h l' (List.mem_cons_of_mem l hl')) _ _)

end Composed

section Call

variable {g} {c : Config} {fmt : Bytes} {song : Song} {s t : MpdStatics} {x : Player}
  {state : MpdState}

theorem frame_eq_lastCall (h : Knows song s) (scroll : Int) :
    lastCall g c fmt scroll song s = frame g c fmt scroll song s.index := by
  rw [lastCall, if_neg h.2]
  rfl

/-- A tag does not differ from its own copy. -/
theorem differs_copyOf {tag : Option Bytes} (hfits : ∀ t ∈ tag, 0 ∉ t ∧ t.length < 255)
    (prev : Buffer 255) : ∀ t ∈ tag, CString.differs t (copyOf tag prev).1 = some false := by
  intro t ht
  obtain ⟨hzero, hlen⟩ := hfits t ht
  rw [Option.mem_def.mp ht, copyOf, CString.differs_eq hzero (CString.content_ncopy hzero hlen)]
  simp

theorem knows_of_copies (hshort : song.Short) {prevTitle prevArtist : Buffer 255}
    (htitle : t.prevTitle = copyOf song.title prevTitle)
    (hartist : t.prevArtist = copyOf song.artist prevArtist) : Knows song t := by
  have htitles := differs_copyOf hshort.title prevTitle
  have hartists := differs_copyOf hshort.artist prevArtist
  rw [← htitle] at htitles
  rw [← hartist] at hartists
  refine ⟨⟨?_, ?_⟩, ?_⟩
  · intro tag htag
    simp [htitles tag htag]
  · intro tag htag
    simp [hartists tag htag]
  · intro hresets
    rcases hresets with ⟨tag, htag, hdiffers⟩ | ⟨tag, htag, hdiffers⟩
    · simp [htitles tag htag] at hdiffers
    · simp [hartists tag htag] at hdiffers

theorem mpdonair_eq_showSong (hstate : state = .play ∨ state = .pause) (hx : x.Gets s state song) :
    mpdonair g c fmt x s =
      showSong g c fmt state.symbol state.scroll song { s with conn := true } := by
  rcases hstate with rfl | rfl
  · exact mpdonair_play g c fmt hx
  · exact mpdonair_pause g c fmt hx

theorem symbol_length (hstate : state = .play ∨ state = .pause) : state.symbol.length = 5 := by
  rcases hstate with rfl | rfl
  · rfl
  · rfl

/-- After a call that shows the song the copies are those of its tags. -/
theorem knows_after {r : Shown} (hshort : song.Short) (htext : HasText c fmt song)
    (hstate : state = .play ∨ state = .pause) (hx : x.Gets s state song)
    (h : mpdonair g c fmt x s = .ok (r, t)) : Knows song t ∧ t.conn = true := by
  rw [mpdonair_eq_showSong hstate hx] at h
  obtain ⟨r', t', hrun, -, -, htitle, hartist⟩ := showSong_ok g state.symbol state.scroll
    (showSong_readable h) htext
  obtain ⟨rfl, rfl⟩ := Prod.mk.inj (Except.ok.inj (hrun.symm.trans h))
  exact ⟨knows_of_copies hshort htitle hartist, showSong_conn h⟩

theorem mpdonair_knows (hshort : song.Short) (htext : HasText c fmt song) (hknows : Knows song s)
    (hstate : state = .play ∨ state = .pause) (hx : x.Gets s state song) :
    ∃ r t, mpdonair g c fmt x s = .ok (r, t) ∧ r.text = frameText g c fmt state song s.index ∧
      (∀ i, t.index i = s.index i + if i = firstScrolled song fmt then state.scroll else 0) ∧
      Knows song t ∧ t.conn = true := by
  obtain ⟨r, t, hrun, hindex, -⟩ := showSong_ok g state.symbol state.scroll
    (s := { s with conn := true }) hknows.1 htext
  have hcall : mpdonair g c fmt x s = .ok (r, t) := (mpdonair_eq_showSong hstate hx).trans hrun
  obtain ⟨htext', -⟩ := showSong_cut hrun
  refine ⟨r, t, hcall, ?_, ?_, knows_after hshort htext hstate hx hcall⟩
  · rw [htext', symbol_length hstate]
    exact congrArg (fun call => state.symbol ++ (call.windowText g).take 1018)
      (frame_eq_lastCall hknows state.scroll)
  · intro i
    rw [hindex i, if_neg (fun hboth => hknows.2 hboth.2)]
    rfl

end Call

section Run

variable {g} {c : Config} {fmt : Bytes} {song : Song} {s : MpdStatics}

theorem plays_cons {state : MpdState} {x : Player} (xs : List Player)
    (hstatus : x.status = some state) (hstate : state = .play ∨ state = .pause) :
    (plays (x :: xs) : Int) = state.scroll + plays xs := by
  rw [plays, plays, List.countP_cons, hstatus]
  rcases hstate with rfl | rfl
  · simp [MpdState.scroll, Int.add_comm]
  · simp [MpdState.scroll]

theorem indexAfter_cons {t : MpdStatics} {state : MpdState} {x : Player} (xs : List Player)
    (hstatus : x.status = some state) (hstate : state = .play ∨ state = .pause)
    (hindex : ∀ i, t.index i = s.index i + if i = firstScrolled song fmt then state.scroll else 0) :
    t.indexAfter fmt song (plays xs) = s.indexAfter fmt song (plays (x :: xs)) := by
  funext i
  rw [MpdStatics.indexAfter, MpdStatics.indexAfter, hindex i, plays_cons xs hstatus hstate]
  split_ifs
  · exact Int.add_assoc _ _ _
  · exact Int.add_zero _

/-- Each call shows the frame that the playing calls before it lead to. -/
theorem replay_frames (hshort : song.Short) (htext : HasText c fmt song) (xs : List Player)
    (hknows : Knows song s) (hconn : s.conn = true)
    (hxs : ∀ x ∈ xs, x.song = some song ∧ (x.status = some .play ∨ x.status = some .pause))
    {j : Nat} {x : Player} (hj : xs[j]? = some x) {state : MpdState} (hstatus : x.status = some state) :
    ((CallLog.replay (mpdonair g c fmt) xs s)[j]?).map Shown.text =
      some (frameText g c fmt state song (s.indexAfter fmt song (plays (xs.take j)))) := by
  induction xs generalizing s j with
  | nil => cases hj
  | cons y ys ih =>
    obtain ⟨hsong, hplays⟩ := hxs y List.mem_cons_self
    obtain ⟨state', hstate', hstatus'⟩ : ∃ state, (state = .play ∨ state = .pause) ∧
        y.status = some state := by
      rcases hplays with hplay | hpause
      · exact ⟨_, .inl rfl, hplay⟩
      · exact ⟨_, .inr rfl, hpause⟩
    obtain ⟨r, t, hcall, hr, hindex, hknows', hconn'⟩ := mpdonair_knows (g := g) hshort htext hknows
      hstate' ⟨.inl hconn, hstatus', hsong⟩
    rw [CallLog.replay_cons hcall]
    cases j with
    | zero =>
      obtain rfl : y = x := Option.some.inj hj
      obtain rfl := Option.some.inj (hstatus'.symm.trans hstatus)
      have hnow : s.indexAfter fmt song (plays (([] : List Player))) = s.index := by
        funext i
        rw [MpdStatics.indexAfter]
        simp [plays]
      rw [List.getElem?_cons_zero, Option.map_some, hr, List.take_zero, hnow]
    | succ j =>
      rw [List.getElem?_cons_succ, List.take_succ_cons,
        ← indexAfter_cons _ hstatus' hstate' hindex]
      exact ih hknows' hconn' (fun z hz => hxs z (List.mem_cons_of_mem y hz)) hj

end Run

section Round

variable {g} {c : Config} {fmt : Bytes} {song : Song} {s : MpdStatics}

theorem scrolledBy_of_firstScrolled (h : firstScrolled song fmt = none) :
    ∀ l ∈ fmt, scrolledBy song l = none := fun l hl => List.findSome?_eq_none_iff.mp h l hl

theorem indexAfter_still {i : Option Part} (h : i ≠ firstScrolled song fmt) (p : Nat) :
    s.indexAfter fmt song p i = s.index i := by
  rw [MpdStatics.indexAfter, if_neg h, Int.add_zero]

theorem indexAfter_first (p : Nat) :
    s.indexAfter fmt song p (firstScrolled song fmt) = s.index (firstScrolled song fmt) + p := by
  rw [MpdStatics.indexAfter, if_pos rfl]

theorem indexAfter_none (h : firstScrolled song fmt = none) (p : Nat) :
    s.indexAfter fmt song p none = s.index none + p := by
  rw [← h]
  exact indexAfter_first p

theorem frame_still (h : firstScrolled song fmt = none) (scroll scroll' : Int) (p p' : Nat) :
    frame g c fmt scroll song (s.indexAfter fmt song p) =
      { frame g c fmt scroll' song (s.indexAfter fmt song p') with idx := s.index none + p } := by
  rw [frame, frame, indexAfter_none h, composed_still (scrolledBy_of_firstScrolled h) scroll scroll']

/-- The playing calls move one call of `scroll_text`, and nothing of it but the index. -/
theorem moving_after (p : Nat) :
    moving g c fmt song (s.indexAfter fmt song p) =
      { moving g c fmt song s.index with idx := (moving g c fmt song s.index).idx + p } := by
  cases hfirst : firstScrolled song fmt with
  | none =>
    have hstart : s.indexAfter fmt song 0 = s.index := by
      funext i
      simp [MpdStatics.indexAfter]
    have hframe := frame_still (g := g) (c := c) (s := s) hfirst 0 0 p 0
    rw [hstart] at hframe
    simp only [moving, hfirst]
    exact hframe
  | some q =>
    have hidx : s.indexAfter fmt song p (some q) = s.index (some q) + p := by
      rw [← hfirst]
      exact indexAfter_first p
    simp only [moving, hfirst, hidx]
    rfl

theorem moving_cycle (p : Nat) :
    (moving g c fmt song (s.indexAfter fmt song p)).cycle g =
      (moving g c fmt song s.index).cycle g := by
  rw [moving_after]
  rfl

theorem cycle_ne_nil {call : ScrollCall} {text : Bytes} (hnum : 0 ≤ call.numChars)
    (h : call.run g = .ok text) : call.cycle g ≠ [] := by
  intro hnil
  have hcycle : scrollCycle g call.inputText call.numChars call.loopText call.onTextFits = [] := hnil
  rw [ScrollCall.run, scrollText_eq_copyFrom hnum, if_pos hcycle] at h
  cases h

theorem moving_cycle_ne_nil (htext : HasText c fmt song) :
    (moving g c fmt song s.index).cycle g ≠ [] := by
  obtain ⟨hnum, hadds⟩ := htext
  cases hfirst : firstScrolled song fmt with
  | none =>
    have hbuffer : (frame g c fmt 0 song s.index).inputText ≠ [] ∨ Separates c := by
      rcases hadds with ⟨l, hl, hl'⟩ | hsep
      · refine .inl (fun hnil => ?_)
        rcases List.take_eq_nil_iff.mp hnil with hzero | hnil
        · cases hzero
        · exact composed_eq_nil.mp hnil l hl hl'
      · exact .inr hsep
    obtain ⟨scrolled, hrun⟩ := lastScroll_ok (g := g) (s.index none) hnum hbuffer
    have hframe : (frame g c fmt 0 song s.index).run g = .ok scrolled := hrun
    simp only [moving, hfirst]
    exact cycle_ne_nil hnum hframe
  | some q =>
    obtain ⟨scrolled, hrun, -⟩ := tagCall_run (g := g) (song.tag q) (s.index (some q))
    simp only [moving, hfirst]
    exact cycle_ne_nil (Int.natCast_nonneg _) hrun

theorem windowText_round (call : ScrollCall) :
    ({ call with idx := call.idx + (call.cycle g).length } : ScrollCall).windowText g =
      call.windowText g := by
  simp only [ScrollCall.windowText, scrollStart]
  split_ifs
  · rfl
  · exact congrArg List.flatten (Window.window_add_length _ _)

/-- Where the format scrolls no part, the whole text goes round. -/
theorem frame_round_whole (hfirst : firstScrolled song fmt = none) (scroll : Int) (p : Nat) :
    (frame g c fmt scroll song (s.indexAfter fmt song
        (p + ((moving g c fmt song s.index).cycle g).length))).windowText g =
      (frame g c fmt scroll song (s.indexAfter fmt song p)).windowText g := by
  have hcycle : (moving g c fmt song s.index).cycle g =
      (frame g c fmt scroll song (s.indexAfter fmt song p)).cycle g := by
    rw [← moving_cycle p]
    simp only [moving, hfirst]
    rw [frame_still hfirst 0 scroll p p]
    rfl
  have hshift : s.index none + ((p + ((frame g c fmt scroll song
        (s.indexAfter fmt song p)).cycle g).length : Nat) : Int) =
      s.indexAfter fmt song p none + ((frame g c fmt scroll song
        (s.indexAfter fmt song p)).cycle g).length := by
    rw [indexAfter_none hfirst, Int.natCast_add, Int.add_assoc]
  rw [hcycle, frame_still hfirst scroll scroll _ p, hshift]
  exact windowText_round (frame g c fmt scroll song (s.indexAfter fmt song p))

/-- Where it scrolls one, that part goes round in the text. -/
theorem frame_round_part {q : Part} (hfirst : firstScrolled song fmt = some q) (scroll : Int)
    (p : Nat) :
    frame g c fmt scroll song (s.indexAfter fmt song
        (p + ((moving g c fmt song s.index).cycle g).length)) =
      frame g c fmt scroll song (s.indexAfter fmt song p) := by
  have hkeeps : ∀ i, i ≠ some q → ∀ n, s.indexAfter fmt song n i = s.index i :=
    fun i hi n => indexAfter_still (by rw [hfirst]; exact hi) n
  have hmoves : ∀ n : Nat, s.indexAfter fmt song n (some q) = s.index (some q) + n := by
    rw [← hfirst]
    exact indexAfter_first
  have hcycle : (moving g c fmt song s.index).cycle g = (tagCall g (song.tag q) 0).cycle g := by
    simp only [moving, hfirst]
    rfl
  rw [frame, frame, hkeeps none nofun, hkeeps none nofun, hcycle]
  refine congrArg (fun text => ScrollCall.mk text _ _ _ _)
    (congrArg (List.take 255) (composed_congr _ ?_))
  intro l _ q' _ k
  by_cases hq : q' = q
  · subst hq
    have hround : s.index (some q') + ((p : Int) + ((tagCall g (song.tag q') 0).cycle g).length) + k =
        s.index (some q') + p + k + ((tagCall g (song.tag q') 0).cycle g).length := by omega
    rw [windowText_tagCall, windowText_tagCall, hmoves, hmoves, Int.natCast_add, hround,
      Window.window_add_length]
  · rw [hkeeps _ (fun h => hq (Option.some.inj h)), hkeeps _ (fun h => hq (Option.some.inj h))]

theorem frameText_round (state : MpdState) (p : Nat) :
    frameText g c fmt state song
        (s.indexAfter fmt song (p + ((moving g c fmt song s.index).cycle g).length)) =
      frameText g c fmt state song (s.indexAfter fmt song p) := by
  cases hfirst : firstScrolled song fmt with
  | none => rw [frameText, frameText, frame_round_whole hfirst]
  | some q => rw [frameText, frameText, frame_round_part hfirst]

/-- Once in a round every cluster comes to the front. -/
theorem exists_front {call : ScrollCall} (hmoves : call.Moves g) {cluster : Bytes}
    (hcluster : cluster ∈ call.cycle g) :
    ∃ p < (call.cycle g).length, ∃ rest,
      ({ call with idx := call.idx + p } : ScrollCall).windowText g = cluster ++ rest := by
  obtain ⟨hnum, hscrolls⟩ := hmoves
  obtain ⟨p, hp, hentry⟩ := Window.exists_entry_eq hcluster call.idx
  obtain ⟨n, hn⟩ : ∃ n, call.numChars.toNat = n + 1 := ⟨call.numChars.toNat - 1, by omega⟩
  refine ⟨p, hp, (Window.window (call.cycle g) (call.idx + p + 1) n).flatten, ?_⟩
  simp only [ScrollCall.windowText, scrollStart_of_scrolls hscrolls, hn]
  rw [Window.window_succ, show Window.entry (scrollCycle g call.inputText call.numChars
    call.loopText call.onTextFits) (call.idx + p) = some cluster from hentry]
  rfl

end Round

def turningConfig : Config where
  mpdTitleLength := 3
  mpdLoopText := some (lit "-")
  mpdOnTextFits := .forceScroll

end Slstatus
