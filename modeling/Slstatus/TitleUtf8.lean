import Slstatus.Lib.Utf8
import Slstatus.TitleCut

/-! When the text of `mpdonair` is valid UTF-8: the clusters of a valid text are valid,
so only the ends of `titlebuffer` and of `buf` can cut a character. -/

namespace Slstatus

/-- `grapheme_next_character_break_utf8` finds no break inside a character. -/
structure Utf8Break extends GraphemeBreak where
  boundary : ∀ s, Utf8.Valid s → Utf8.Boundary s (next s)

/-- The returned text and every text that was scrolled for it, `titlebuffer` among
them, are valid UTF-8. -/
structure Shown.Utf8 (r : Shown) : Prop where
  text : Utf8.Valid r.text
  scrolled : ∀ call ∈ r.scrolls, Utf8.Valid call.inputText

def Song.Utf8 (song : Song) : Prop :=
  ∀ tag, song.title = some tag ∨ song.artist = some tag → Utf8.Valid tag

theorem boundary_takeWhile (b : UInt8) (rest : Bytes) :
    Utf8.Boundary (b :: rest)
      ((rest.takeWhile (fun d => decide ¬ d.IsUTF8FirstByte)).length + 1) := by
  induction rest generalizing b with
  | nil => simp [Utf8.Boundary]
  | cons d rest ih =>
    by_cases hd : d.IsUTF8FirstByte
    · simp [Utf8.Boundary, hd]
    · rw [List.takeWhile_cons_of_pos (by simp [hd]), List.length_cons]
      exact ih d

/-- Every character is a cluster of its own. -/
def characterBreak : Utf8Break where
  next
    | [] => 0
    | _ :: rest => (rest.takeWhile (fun d => decide ¬ d.IsUTF8FirstByte)).length + 1
  next_nil := rfl
  next_pos s hs := by
    cases s with
    | nil => exact absurd rfl hs
    | cons b rest => exact Nat.succ_pos _
  next_le s := by
    cases s with
    | nil => exact Nat.le_refl _
    | cons b rest => exact Nat.succ_le_succ (List.takeWhile_prefix _).length_le
  next_spaces n := by cases n <;> rfl
  boundary s _ := by
    cases s with
    | nil => simp [Utf8.Boundary]
    | cons b rest => exact boundary_takeWhile b rest

section Definitions

variable (g : GraphemeBreak) (c : Config)

/-- Byte 255 of the composed title and byte 1018 of the window on it, the first ones
that do not fit, start characters. -/
structure CutsWell (fmt : Bytes) (scroll : Int) (song : Song) (s : MpdStatics) : Prop where
  titlebuffer : Utf8.Boundary (composedTitle g fmt scroll song s) 255
  buf : Utf8.Boundary ((lastCall g c fmt scroll song s).windowText g) 1018

structure CallCutsWell (fmt : Bytes) (x : Player) (s : MpdStatics) : Prop where
  play : ∀ song, x.Gets s .play song → CutsWell g c fmt 1 song s
  pause : ∀ song, x.Gets s .pause song → CutsWell g c fmt 0 song s

def Utf8Run : MpdStatics → List (Bytes × Player) → Prop
  | _, [] => True
  | s, (fmt, x) :: xs => ∀ r t, mpdonair g c fmt x s = .ok (r, t) → r.Utf8 ∧ Utf8Run t xs

def CutsWellRun : MpdStatics → List (Bytes × Player) → Prop
  | _, [] => True
  | s, (fmt, x) :: xs => ∀ r t, mpdonair g c fmt x s = .ok (r, t) →
    CallCutsWell g c fmt x s ∧ CutsWellRun t xs

end Definitions

section Windows

variable {g : Utf8Break}

theorem valid_spaces (n : Nat) : Utf8.Valid (List.replicate n 32) := by
  induction n with
  | zero => exact Utf8.valid_nil
  | succ n ih =>
    rw [List.replicate_succ, ← List.singleton_append]
    apply Utf8.Valid.append _ ih
    exact Utf8.valid_iff_chars.mpr ⟨[' '], rfl⟩

theorem valid_of_mem_seg {s cluster : Bytes} (hs : Utf8.Valid s) (h : cluster ∈ g.seg s) :
    Utf8.Valid cluster := by
  induction hn : s.length using Nat.strongRecOn generalizing s with
  | _ n ih =>
    by_cases hnil : s = []
    · rw [hnil, seg_nil] at h
      cases h
    · have hfirst := (Utf8.valid_take_iff hs _).mpr (g.boundary s hs)
      rw [seg_of_ne_nil hnil] at h
      rcases List.mem_cons.mp h with rfl | hrest
      · exact hfirst
      · apply ih _ (hn ▸ length_drop_next_lt hnil) _ hrest rfl
        rw [← Utf8.valid_append_iff hfirst, List.take_append_drop]
        exact hs

theorem valid_separator {text : Bytes} {numChars : Int} {loopText : Option Bytes}
    {onTextFits : OnTextFits} (hloop : ∀ loop ∈ loopText, Utf8.Valid loop) :
    Utf8.Valid (separator g.toGraphemeBreak text numChars loopText onTextFits) := by
  cases loopText with
  | none => exact valid_spaces _
  | some loop =>
    rw [separator]
    split_ifs
    · exact valid_spaces _
    · exact hloop loop rfl

theorem valid_windowText {call : ScrollCall} (hinput : Utf8.Valid call.inputText)
    (hloop : ∀ loop ∈ call.loopText, Utf8.Valid loop) :
    Utf8.Valid (call.windowText g.toGraphemeBreak) := by
  apply Utf8.valid_flatten
  intro cluster hcluster
  rcases List.mem_append.mp (Window.mem_of_mem_window hcluster) with htext | hsep
  · exact valid_of_mem_seg hinput htext
  · exact valid_of_mem_seg (valid_separator hloop) hsep

end Windows

section Compose

variable {g : Utf8Break} {song : Song} {fmt : Bytes}

theorem valid_tagCall {tag : Bytes} (htag : Utf8.Valid tag) (idx : Int) :
    Utf8.Valid ((tagCall g.toGraphemeBreak tag idx).windowText g.toGraphemeBreak) := by
  apply valid_windowText htag
  intro loop hloop
  obtain rfl : lit " " = loop := Option.some.inj hloop
  exact valid_spaces 1

theorem valid_piece (hsong : song.Utf8) (idx : Part → Int) {l : UInt8} (hl : Utf8.Valid [l]) :
    Utf8.Valid (piece g.toGraphemeBreak song idx l) := by
  rw [piece]
  split_ifs
  · cases hartist : song.artist with
    | none => exact Utf8.valid_nil
    | some artist => exact hsong artist (.inr hartist)
  · cases hartist : song.artist with
    | none => exact Utf8.valid_nil
    | some artist => exact valid_tagCall (hsong artist (.inr hartist)) _
  · cases htitle : song.title with
    | none => exact Utf8.valid_nil
    | some title => exact hsong title (.inl htitle)
  · cases htitle : song.title with
    | none => exact Utf8.valid_nil
    | some title => exact valid_tagCall (hsong title (.inl htitle)) _
  · exact hl

/-- The bytes of a character outside ASCII are no letters of the format. -/
theorem composed_append_high {bytes : Bytes} (h : ∀ b ∈ bytes, 0x80 ≤ b) (idx : Part → Int)
    (scroll : Int) : composed g.toGraphemeBreak song (bytes ++ fmt) idx scroll =
      bytes ++ composed g.toGraphemeBreak song fmt idx scroll := by
  induction bytes with
  | nil => rfl
  | cons b bytes ih =>
    obtain ⟨hb, hbytes⟩ := List.forall_mem_cons.mp h
    have hne : ∀ l : UInt8, l < 0x80 → b ≠ l := by
      intro l hl he
      subst he
      exact absurd hl (UInt8.not_lt.mpr hb)
    have hby : scrolledBy song b = none := by
      simp [scrolledBy, hne 65 (by decide), hne 84 (by decide)]
    have hpiece : piece g.toGraphemeBreak song idx b = [b] := by
      simp [piece, hne 97 (by decide), hne 65 (by decide), hne 116 (by decide), hne 84 (by decide)]
    rw [List.cons_append, composed, hpiece, hby]
    simpa using ih hbytes

theorem valid_composed (hfmt : Utf8.Valid fmt) (hsong : song.Utf8) (idx : Part → Int)
    (scroll : Int) : Utf8.Valid (composed g.toGraphemeBreak song fmt idx scroll) := by
  obtain ⟨cs, rfl⟩ := Utf8.valid_iff_chars.mp hfmt
  clear hfmt
  induction cs generalizing idx scroll with
  | nil => exact Utf8.valid_nil
  | cons c cs ih =>
    rw [List.flatMap_cons]
    rcases Utf8.encodeChar_cases c with ⟨l, hl⟩ | hhigh
    · rw [hl, List.singleton_append, composed]
      apply Utf8.Valid.append _ (ih _ _)
      apply valid_piece hsong
      exact Utf8.valid_iff_chars.mpr ⟨[c], by simp [hl]⟩
    · rw [composed_append_high hhigh]
      apply Utf8.Valid.append _ (ih _ _)
      exact Utf8.valid_iff_chars.mpr ⟨[c], by simp⟩

end Compose

section Runs

variable {g : Utf8Break} {c : Config} {fmt : Bytes} {song : Song} {x : Player} {s t : MpdStatics}
  {r : Shown}

theorem showSong_utf8_iff {buf : Bytes} {scroll : Int}
    (hloop : ∀ loop ∈ c.mpdLoopText, Utf8.Valid loop) (hfmt : Utf8.Valid fmt) (hsong : song.Utf8)
    (hbuf : Utf8.Valid buf) (hlen : buf.length = 5)
    (h : showSong g.toGraphemeBreak c fmt buf scroll song s = .ok (r, t)) :
    r.Utf8 ↔ CutsWell g.toGraphemeBreak c fmt scroll song s := by
  obtain ⟨htext, calls, hcalls, htags⟩ := showSong_cut h
  have htitle : Utf8.Valid (composedTitle g.toGraphemeBreak fmt scroll song s) :=
    valid_composed hfmt hsong _ scroll
  have hwindow : Utf8.Boundary (composedTitle g.toGraphemeBreak fmt scroll song s) 255 →
      Utf8.Valid ((lastCall g.toGraphemeBreak c fmt scroll song s).windowText g.toGraphemeBreak) := by
    intro hcut
    apply valid_windowText _ hloop
    exact (Utf8.valid_take_iff htitle 255).mpr hcut
  rw [hlen] at htext
  constructor
  · intro hvalid
    have hcut := (Utf8.valid_take_iff htitle 255).mp
      (hvalid.scrolled (lastCall g.toGraphemeBreak c fmt scroll song s) (by simp [hcalls]))
    have hend := hvalid.text
    rw [htext, Utf8.valid_append_iff hbuf] at hend
    exact ⟨hcut, (Utf8.valid_take_iff (hwindow hcut) 1018).mp hend⟩
  · intro hcuts
    constructor
    · rw [htext, Utf8.valid_append_iff hbuf]
      exact (Utf8.valid_take_iff (hwindow hcuts.titlebuffer) 1018).mpr hcuts.buf
    · intro call hcall
      rw [hcalls] at hcall
      rcases List.mem_append.mp hcall with htag | hlast
      · exact hsong _ (htags call htag)
      · obtain rfl := List.mem_singleton.mp hlast
        exact (Utf8.valid_take_iff htitle 255).mpr hcuts.titlebuffer

theorem cutsWell_conn {scroll : Int} :
    CutsWell g.toGraphemeBreak c fmt scroll song { s with conn := true } ↔
      CutsWell g.toGraphemeBreak c fmt scroll song s := by
  constructor
  · intro h
    exact ⟨h.titlebuffer, h.buf⟩
  · intro h
    exact ⟨h.titlebuffer, h.buf⟩

theorem valid_playSymbol : Utf8.Valid playSymbol :=
  Utf8.valid_iff_chars.mpr ⟨[' ', Char.ofNat 0xF04B, ' '], by decide⟩

theorem valid_pauseSymbol : Utf8.Valid pauseSymbol :=
  Utf8.valid_iff_chars.mpr ⟨[' ', Char.ofNat 0xF04C, ' '], by decide⟩

theorem valid_stopSymbol : Utf8.Valid stopSymbol :=
  Utf8.valid_iff_chars.mpr ⟨[' ', Char.ofNat 0xF04D, ' '], by decide⟩

theorem callCutsWell_play (hx : x.Gets s .play song) :
    CallCutsWell g.toGraphemeBreak c fmt x s ↔ CutsWell g.toGraphemeBreak c fmt 1 song s := by
  constructor
  · intro h
    exact h.play song hx
  · intro h
    refine ⟨fun song' hx' => ?_, fun song' hx' => ?_⟩
    · obtain ⟨-, rfl⟩ := gets_unique hx hx'
      exact h
    · cases (gets_unique hx hx').1

theorem callCutsWell_pause (hx : x.Gets s .pause song) :
    CallCutsWell g.toGraphemeBreak c fmt x s ↔ CutsWell g.toGraphemeBreak c fmt 0 song s := by
  constructor
  · intro h
    exact h.pause song hx
  · intro h
    refine ⟨fun song' hx' => ?_, fun song' hx' => ?_⟩
    · cases (gets_unique hx hx').1
    · obtain ⟨-, rfl⟩ := gets_unique hx hx'
      exact h

theorem mpdonair_utf8_iff (hloop : ∀ loop ∈ c.mpdLoopText, Utf8.Valid loop)
    (hfmt : Utf8.Valid fmt) (hsong : ∀ song ∈ x.song, song.Utf8)
    (h : mpdonair g.toGraphemeBreak c fmt x s = .ok (r, t)) :
    r.Utf8 ↔ CallCutsWell g.toGraphemeBreak c fmt x s := by
  by_cases hplay : ∃ song, x.Gets s .play song
  · obtain ⟨song, hx⟩ := hplay
    rw [mpdonair_play _ _ _ hx] at h
    rw [callCutsWell_play hx, ← cutsWell_conn]
    exact showSong_utf8_iff hloop hfmt (hsong song hx.2.2) valid_playSymbol rfl h
  by_cases hpause : ∃ song, x.Gets s .pause song
  · obtain ⟨song, hx⟩ := hpause
    rw [mpdonair_pause _ _ _ hx] at h
    rw [callCutsWell_pause hx, ← cutsWell_conn]
    exact showSong_utf8_iff hloop hfmt (hsong song hx.2.2) valid_pauseSymbol rfl h
  · have hno : ∀ state song, state = .play ∨ state = .pause → ¬ x.Gets s state song := by
      intro state song hstate hx
      rcases hstate with rfl | rfl
      · exact hplay ⟨song, hx⟩
      · exact hpause ⟨song, hx⟩
    obtain ⟨r', t', hrun, hscrolls, htext⟩ := mpdonair_shows_nothing g.toGraphemeBreak c fmt hno
    obtain ⟨rfl, rfl⟩ := Prod.mk.inj (Except.ok.inj (hrun.symm.trans h))
    constructor
    · intro _
      exact ⟨fun song hx => absurd ⟨song, hx⟩ hplay, fun song hx => absurd ⟨song, hx⟩ hpause⟩
    · intro _
      refine ⟨?_, by simp [hscrolls]⟩
      rcases htext with hnil | hstop
      · rw [hnil]
        exact Utf8.valid_nil
      · rw [hstop]
        exact valid_stopSymbol

/-- In a run over valid tags and formats every text is valid UTF-8 and no character is
split on its way exactly when both cuts of every call fall between characters. -/
theorem utf8Run_iff_cutsWellRun (g : Utf8Break) (c : Config)
    (hloop : ∀ loop ∈ c.mpdLoopText, Utf8.Valid loop) (s : MpdStatics) (xs : List (Bytes × Player))
    (hvalid : ∀ y ∈ xs, Utf8.Valid y.1 ∧ ∀ song ∈ y.2.song, song.Utf8) :
    Utf8Run g.toGraphemeBreak c s xs ↔ CutsWellRun g.toGraphemeBreak c s xs := by
  induction xs generalizing s with
  | nil => rfl
  | cons y xs ih =>
    obtain ⟨fmt, x⟩ := y
    obtain ⟨⟨hfmt, hsong⟩, hrest⟩ := List.forall_mem_cons.mp hvalid
    rw [Utf8Run, CutsWellRun]
    apply forall₃_congr
    intro r t hrun
    rw [mpdonair_utf8_iff hloop hfmt hsong hrun, ih t hrest]

end Runs

theorem utf8Run_iff_cutsWellRun_accents :
    Utf8Run characterBreak.toGraphemeBreak { mpdLoopText := some (lit " ~ ") } { titleIdx := 3 }
      [(lit "a - T", ⟨true, some .play, some ⟨some [0xC3, 0xA9, 0xC3, 0xA8], some [0xC3, 0xAA]⟩⟩)] := by
  have hloop : Utf8.Valid (lit " ~ ") := Utf8.valid_iff_chars.mpr ⟨[' ', '~', ' '], rfl⟩
  have hfmt : Utf8.Valid (lit "a - T") := Utf8.valid_iff_chars.mpr ⟨['a', ' ', '-', ' ', 'T'], rfl⟩
  have htitle : Utf8.Valid [0xC3, 0xA9, 0xC3, 0xA8] := Utf8.valid_iff_chars.mpr ⟨['é', 'è'], rfl⟩
  have hartist : Utf8.Valid [0xC3, 0xAA] := Utf8.valid_iff_chars.mpr ⟨['ê'], rfl⟩
  refine (utf8Run_iff_cutsWellRun characterBreak _ (by simpa using hloop) _ _ ?_).mpr ?_
  · intro y hy
    obtain rfl := List.mem_singleton.mp hy
    refine ⟨hfmt, fun song hsong tag htag => ?_⟩
    obtain rfl := Option.some.inj hsong
    simp only [Option.some.injEq] at htag
    rcases htag with rfl | rfl
    · exact htitle
    · exact hartist
  · intro r t _
    refine ⟨⟨fun song hx => ?_, fun song hx => ?_⟩, trivial⟩
    · obtain rfl := Option.some.inj hx.2.2
      exact ⟨by decide +kernel, by decide +kernel⟩
    · cases hx.2.1

theorem not_valid_of_long_title :
    ¬ ∀ (g : Utf8Break) (c : Config) (fmt : Bytes) (x : Player) (r : Shown) (t : MpdStatics),
      (∀ loop ∈ c.mpdLoopText, Utf8.Valid loop) → Utf8.Valid fmt → (∀ song ∈ x.song, song.Utf8) →
      mpdonair g.toGraphemeBreak c fmt x {} = .ok (r, t) → Utf8.Valid r.text := by
  intro h
  let title : Bytes := (List.replicate 128 [0xC3, 0xA9]).flatten
  have htitle : Utf8.Valid title := by
    apply Utf8.valid_flatten
    intro accent haccent
    obtain rfl := List.eq_of_mem_replicate haccent
    exact Utf8.valid_iff_chars.mpr ⟨['é'], rfl⟩
  have hshown : ((mpdonair characterBreak.toGraphemeBreak { mpdTitleLength := 128 } (lit "t")
      ⟨true, some .play, some ⟨some title, none⟩⟩ {}).toOption.map (fun r => r.1.text)) =
        some ((playSymbol ++ title).take 260) := by decide +kernel
  cases hrun : mpdonair characterBreak.toGraphemeBreak { mpdTitleLength := 128 } (lit "t")
      ⟨true, some .play, some ⟨some title, none⟩⟩ {} with
  | error f =>
    rw [hrun] at hshown
    cases hshown
  | ok rt =>
    obtain ⟨r, t⟩ := rt
    rw [hrun] at hshown
    have htext : r.text = (playSymbol ++ title).take 260 := Option.some.inj hshown
    have hvalid := h characterBreak { mpdTitleLength := 128 } (lit "t") _ r t (by simp)
      (Utf8.valid_iff_chars.mpr ⟨['t'], rfl⟩) (by simp [Song.Utf8, htitle]) hrun
    rw [htext, Utf8.valid_take_iff (valid_playSymbol.append htitle)] at hvalid
    exact absurd hvalid (by decide +kernel)

end Slstatus
