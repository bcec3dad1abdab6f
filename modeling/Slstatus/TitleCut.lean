import Slstatus.SongLaw

/-! The text that `mpdonair` would return if its two buffers had no end, and where the
256 bytes of `titlebuffer` and the 1024 bytes of `buf` cut it. -/

namespace Slstatus

variable (g : GraphemeBreak)

def ScrollCall.windowText (call : ScrollCall) : Bytes :=
  (Window.window (scrollCycle g call.inputText call.numChars call.loopText call.onTextFits)
    (scrollStart g call.inputText call.idx call.numChars call.onTextFits) call.numChars.toNat).flatten

/-- What one letter of the format stands for while the parts are shown at `idx`. -/
def piece (song : Song) (idx : Part → Int) (c : UInt8) : Bytes :=
  if c = 97 then song.artist.getD []
  else if c = 65 then
    (song.artist.map (fun tag => (tagCall g tag (idx .artist)).windowText g)).getD []
  else if c = 116 then song.title.getD []
  else if c = 84 then (song.title.map (fun tag => (tagCall g tag (idx .title)).windowText g)).getD []
  else [c]

def composed (song : Song) : Bytes → (Part → Int) → Int → Bytes
  | [], _, _ => []
  | c :: fmt, idx, scroll =>
    piece g song idx c ++ composed song fmt
      (fun q => idx q + if scrolledBy song c = some q then scroll else 0)
      (if (scrolledBy song c).isSome then 0 else scroll)

def composedTitle (fmt : Bytes) (scroll : Int) (song : Song) (s : MpdStatics) : Bytes :=
  composed g song fmt (fun q => s.index (some q)) scroll

/-- The last call of `scroll_text`, which scrolls the composed title. -/
def lastCall (c : Config) (fmt : Bytes) (scroll : Int) (song : Song) (s : MpdStatics) : ScrollCall :=
  ⟨(composedTitle g fmt scroll song s).take 255, if Resets song s then 0 else s.scrollIdx,
    c.mpdTitleLength.toInt, c.mpdLoopText, c.mpdOnTextFits⟩

section Cut

variable {g} {c : Config} {fmt : Bytes} {song : Song} {s : MpdStatics} {st st' : TitleState}

theorem ScrollCall.run_eq_windowText {call : ScrollCall} {text : Bytes}
    (h : call.run g = .ok text) : text = call.windowText g := by
  have hnum : 0 ≤ call.numChars := by
    by_contra hneg
    rw [ScrollCall.run, scrollText, if_pos (by omega)] at h
    cases h
  by_cases hcycle : scrollCycle g call.inputText call.numChars call.loopText call.onTextFits = []
  · rw [ScrollCall.run, scrollText_eq_copyFrom hnum, if_pos hcycle] at h
    cases h
  · rw [ScrollCall.run, scrollText_eq_window call.idx hnum hcycle] at h
    exact (Except.ok.inj h).symm

theorem scrollTag_eq {tag : Bytes} {idx : Int} {r : TitleState × Int}
    (h : scrollTag g tag idx st = .ok r) :
    r.1.titlebuffer = strlcat st.titlebuffer ((tagCall g tag idx).windowText g) 256 ∧
      r.1.scrolls = st.scrolls ++ [tagCall g tag idx] := by
  cases hrun : (tagCall g tag idx).run g with
  | error f =>
    rw [scrollTag, hrun] at h
    cases h
  | ok scrolled =>
    rw [scrollTag, hrun] at h
    obtain rfl := Except.ok.inj h
    rw [ScrollCall.run_eq_windowText hrun]
    exact ⟨rfl, rfl⟩

variable (g song) in
/-- What one letter of the format appends, and which texts it scrolls. -/
structure Appends (c : UInt8) (st st' : TitleState) : Prop where
  titlebuffer : st'.titlebuffer = strlcat st.titlebuffer (piece g song st.idx c) 256
  scrolls : ∀ call ∈ st'.scrolls, call ∈ st.scrolls ∨
    song.title = some call.inputText ∨ song.artist = some call.inputText

theorem strlcat_nil (dst : Bytes) (siz : Nat) : strlcat dst [] siz = dst := by
  rw [strlcat, List.take_nil, List.append_nil]

theorem appends_plain {l : UInt8} {t : Option Bytes}
    (h : (match t with
      | none => Except.ok st
      | some tag => Except.ok { st with titlebuffer := strlcat st.titlebuffer tag 256 }) =
        (.ok st' : Except Fault TitleState))
    (hpiece : piece g song st.idx l = t.getD []) : Appends g song l st st' := by
  cases t with
  | none =>
    obtain rfl : st = st' := Except.ok.inj h
    exact ⟨by rw [hpiece, Option.getD_none, strlcat_nil], fun call hcall => .inl hcall⟩
  | some tag =>
    obtain rfl := Except.ok.inj h
    exact ⟨by rw [hpiece, Option.getD_some], fun call hcall => .inl hcall⟩

theorem appends_scrolled {l : UInt8} {tag : Option Bytes} (p : Part)
    (store : TitleState × Int → TitleState)
    (h : (match tag with
      | none => Except.ok st
      | some tag => (scrollTag g tag (st.idx p) st).map store) = .ok st')
    (hstore : ∀ r, (store r).titlebuffer = r.1.titlebuffer ∧ (store r).scrolls = r.1.scrolls)
    (htag : ∀ t ∈ tag, song.title = some t ∨ song.artist = some t)
    (hpiece : piece g song st.idx l =
      (tag.map (fun t => (tagCall g t (st.idx p)).windowText g)).getD []) :
    Appends g song l st st' := by
  cases tag with
  | none =>
    obtain rfl : st = st' := Except.ok.inj h
    exact ⟨by rw [hpiece, Option.map_none, Option.getD_none, strlcat_nil],
      fun call hcall => .inl hcall⟩
  | some tag =>
    cases hr : scrollTag g tag (st.idx p) st with
    | error f => simp [hr, Except.map] at h
    | ok r =>
      obtain rfl : store r = st' := by simpa [hr, Except.map] using h
      obtain ⟨hbuffer, hcalls⟩ := scrollTag_eq hr
      refine ⟨by rw [(hstore r).1, hbuffer, hpiece, Option.map_some, Option.getD_some],
        fun call hcall => ?_⟩
      rw [(hstore r).2, hcalls] at hcall
      rcases List.mem_append.mp hcall with hold | hnew
      · exact .inl hold
      · obtain rfl := List.mem_singleton.mp hnew
        exact .inr (htag tag rfl)

theorem formatChar_appends {l : UInt8} (h : formatChar g song.artist song.title l st = .ok st') :
    Appends g song l st st' := by
  by_cases ha : l = 97
  · subst ha
    exact appends_plain h rfl
  by_cases hA : l = 65
  · subst hA
    exact appends_scrolled .artist _ h (fun r => ⟨rfl, rfl⟩) (fun t ht => .inr ht) rfl
  by_cases ht : l = 116
  · subst ht
    exact appends_plain h rfl
  by_cases hT : l = 84
  · subst hT
    exact appends_scrolled .title _ h (fun r => ⟨rfl, rfl⟩) (fun t ht => .inl ht) rfl
  · simp only [formatChar, if_neg ha, if_neg hA, if_neg ht, if_neg hT] at h
    refine appends_plain (t := some [l]) h ?_
    simp only [piece, if_neg ha, if_neg hA, if_neg ht, if_neg hT, Option.getD_some]

theorem strlcat_take (full src : Bytes) :
    strlcat (full.take 255) src 256 = (full ++ src).take 255 := by
  have hroom : 256 - 1 - (full.take 255).length = 255 - full.length := by
    rw [List.length_take]
    omega
  rw [strlcat, hroom, List.take_append]

/-- The loop fills `titlebuffer` with the first bytes of the composition. -/
theorem formatTitle_cut {full : Bytes} (hlen : st.titlebuffer.length ≤ 255)
    (hfull : st.titlebuffer = full.take 255)
    (h : formatTitle g song.artist song.title fmt st = .ok st') :
    st'.titlebuffer = (full ++ composed g song fmt st.idx st.scroll).take 255 ∧
      ∀ call ∈ st'.scrolls, call ∈ st.scrolls ∨
        song.title = some call.inputText ∨ song.artist = some call.inputText := by
  induction fmt generalizing st full with
  | nil =>
    obtain rfl : st = st' := Except.ok.inj h
    rw [composed, List.append_nil]
    exact ⟨hfull, fun call hcall => .inl hcall⟩
  | cons l fmt ih =>
    obtain ⟨st₁, hchar, hmoves⟩ := formatChar_ok g song l hlen
    obtain ⟨hbuffer, hcalls⟩ := formatChar_appends hchar
    simp only [formatTitle, hchar] at h
    rw [hfull, strlcat_take] at hbuffer
    obtain ⟨hrest, hcalls'⟩ := ih hmoves.length hbuffer h
    constructor
    · rw [hrest, hmoves.scroll, funext hmoves.idx, composed, List.append_assoc]
    · intro call hcall
      rcases hcalls' call hcall with hold | hnew
      · exact hcalls call hold
      · exact .inr hnew

theorem compareTag_readable {tag : Option Bytes} {prev : Buffer 255} {idx : Int}
    {r : Buffer 255 × Int} (h : compareTag tag prev idx = .ok r) :
    ∀ t ∈ tag, CString.differs t prev.1 ≠ none := by
  intro t ht hnone
  obtain rfl := Option.mem_def.mp ht
  simp [compareTag, hnone] at h

theorem showSong_readable {buf : Bytes} {scroll : Int} {r : Shown × MpdStatics}
    (h : showSong g c fmt buf scroll song s = .ok r) : Readable song s := by
  cases htitle : compareTag song.title s.prevTitle s.scrollIdx with
  | error f => simp [showSong, htitle] at h
  | ok r₁ =>
    cases hartist : compareTag song.artist s.prevArtist r₁.2 with
    | error f => simp [showSong, htitle, hartist] at h
    | ok r₂ => exact ⟨compareTag_readable htitle, compareTag_readable hartist⟩

theorem showSong_cut {buf : Bytes} {scroll : Int} {r : Shown} {t : MpdStatics}
    (h : showSong g c fmt buf scroll song s = .ok (r, t)) :
    r.text = buf ++ ((lastCall g c fmt scroll song s).windowText g).take (1024 - buf.length - 1) ∧
      ∃ calls, r.scrolls = calls ++ [lastCall g c fmt scroll song s] ∧
        ∀ call ∈ calls, song.title = some call.inputText ∨ song.artist = some call.inputText := by
  have hread := showSong_readable h
  have htitle := compareTag_ok s.scrollIdx hread.1
  have hartist := compareTag_ok (if ∃ t ∈ song.title,
    CString.differs t s.prevTitle.1 = some true then 0 else s.scrollIdx) hread.2
  rw [resetIdx_eq] at hartist
  cases hformat : formatTitle g song.artist song.title fmt
      ⟨[], scroll, s.artistIdx, s.titleIdx, []⟩ with
  | error f => simp only [showSong, htitle, hartist, hformat, reduceCtorEq] at h
  | ok st =>
    obtain ⟨hbuffer, hcalls⟩ := formatTitle_cut (Nat.zero_le _) List.take_nil.symm hformat
    have hidx : TitleState.idx ⟨[], scroll, s.artistIdx, s.titleIdx, []⟩ =
        fun q => s.index (some q) := by
      funext q
      cases q <;> rfl
    rw [hidx, List.nil_append] at hbuffer
    have hcall : (⟨st.titlebuffer, if Resets song s then 0 else s.scrollIdx, c.mpdTitleLength.toInt,
        c.mpdLoopText, c.mpdOnTextFits⟩ : ScrollCall) = lastCall g c fmt scroll song s := by
      rw [hbuffer]
      rfl
    simp only [showSong, htitle, hartist, hformat, hcall] at h
    cases hrun : (lastCall g c fmt scroll song s).run g with
    | error f => simp only [hrun, reduceCtorEq] at h
    | ok scrolledText =>
      obtain rfl := ScrollCall.run_eq_windowText hrun
      simp only [hrun, Except.ok.injEq, Prod.mk.injEq] at h
      obtain ⟨rfl, -⟩ := h
      exact ⟨rfl, st.scrolls, rfl, fun call hmem => by simpa using hcalls call hmem⟩

end Cut

end Slstatus
