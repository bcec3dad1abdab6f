import Slstatus.Mpdonair

/-! The loop of `mpdonair` over its format: which letters scroll a part of the text,
which index they move, and when every part is shown from its start. -/

namespace Slstatus

inductive Part
  | artist | title
  deriving DecidableEq

def Part.letter : Part → UInt8
  | .artist => 65
  | .title => 84

def TitleState.idx (st : TitleState) : Part → Int
  | .artist => st.artistIdx
  | .title => st.titleIdx

def scrolledBy (song : Song) (c : UInt8) : Option Part :=
  if c = 65 ∧ song.artist.isSome then some .artist
  else if c = 84 ∧ song.title.isSome then some .title
  else none

def firstScrolled (song : Song) (fmt : Bytes) : Option Part := fmt.findSome? (scrolledBy song)

def Adds (song : Song) (c : UInt8) : Prop :=
  if c = 97 ∨ c = 65 then song.artist.getD [] ≠ []
  else if c = 116 ∨ c = 84 then song.title.getD [] ≠ []
  else True

section Format

variable {g : GraphemeBreak} {song : Song} {st st' : TitleState}

theorem strlcat_eq_nil {dst src : Bytes} (h : dst.length ≤ 255) :
    strlcat dst src 256 = [] ↔ dst = [] ∧ src = [] := by
  simp only [strlcat, List.append_eq_nil_iff, List.take_eq_nil_iff]
  constructor
  · intro hex
    obtain ⟨rfl, hsrc⟩ := hex
    simpa using hsrc
  · intro hex
    obtain ⟨rfl, rfl⟩ := hex
    simp

theorem strlcat_length {dst src : Bytes} (h : dst.length ≤ 255) :
    (strlcat dst src 256).length ≤ 255 := by
  simp only [strlcat, List.length_append, List.length_take]
  omega

theorem window_flatten_eq_nil {cycle : List Bytes} (hcycle : cycle ≠ [])
    (hne : ∀ c ∈ cycle, c ≠ []) (k : Int) (m : Nat) :
    (Window.window cycle k m).flatten = [] ↔ m = 0 := by
  constructor
  · intro h
    cases m with
    | zero => rfl
    | succ m =>
      obtain ⟨c, hc, hentry⟩ := Window.exists_entry hcycle k
      rw [Window.window_succ, hentry] at h
      simp at h
      exact absurd h.1 (hne c hc)
  · intro he
    subst he
    rfl

theorem tagCall_run (tag : Bytes) (idx : Int) :
    ∃ scrolled, (tagCall g tag idx).run g = .ok scrolled ∧ (scrolled = [] ↔ tag = []) := by
  have hsep : separator g tag (g.seg tag).length (some (lit " ")) .forceScroll = [32] := by
    rw [separator, if_neg (fun h => h.2 rfl)]
    rfl
  have hcycle : scrollCycle g tag (g.seg tag).length (some (lit " ")) .forceScroll ≠ [] := by
    rw [scrollCycle, hsep]
    simp [seg_eq_nil]
  have hrun : (tagCall g tag idx).run g = .ok (Window.window
      (scrollCycle g tag (g.seg tag).length (some (lit " ")) .forceScroll)
      (scrollStart g tag idx (g.seg tag).length .forceScroll)
      ((g.seg tag).length : Int).toNat).flatten := by
    rw [ScrollCall.run, tagCall, utf8strlen_eq]
    exact scrollText_eq_window idx (Int.natCast_nonneg _) hcycle
  refine ⟨_, hrun, ?_⟩
  rw [window_flatten_eq_nil hcycle, Int.toNat_natCast, List.length_eq_zero_iff, seg_eq_nil]
  intro c hc
  rcases List.mem_append.mp hc with hc | hc
  · exact ne_nil_of_mem_seg hc
  · exact ne_nil_of_mem_seg hc

variable (g song) in
/-- What one letter of the format does to the variables of the loop. -/
structure FormatsChar (c : UInt8) (st st' : TitleState) : Prop where
  length : st'.titlebuffer.length ≤ 255
  empty : st'.titlebuffer = [] ↔ st.titlebuffer = [] ∧ ¬ Adds song c
  idx : ∀ q, st'.idx q = st.idx q + if scrolledBy song c = some q then st.scroll else 0
  scroll : st'.scroll = if (scrolledBy song c).isSome then 0 else st.scroll
  scrolls : ∃ calls, st'.scrolls = st.scrolls ++ calls ∧
    ∀ call ∈ calls, ∃ q, scrolledBy song c = some q ∧ call = tagCall g call.inputText (st.idx q)

theorem formatsChar_strlcat {c : UInt8} (src : Bytes) (hlen : st.titlebuffer.length ≤ 255)
    (hby : scrolledBy song c = none) (hadds : Adds song c ↔ src ≠ []) :
    FormatsChar g song c st { st with titlebuffer := strlcat st.titlebuffer src 256 } where
  length := strlcat_length hlen
  empty := by rw [strlcat_eq_nil hlen, hadds, not_not]
  idx q := by
    rw [hby, if_neg (by simp), Int.add_zero]
    cases q <;> rfl
  scroll := by simp [hby]
  scrolls := ⟨[], by simp⟩

theorem formatsChar_skip {c : UInt8} (hlen : st.titlebuffer.length ≤ 255)
    (hby : scrolledBy song c = none) (hadds : ¬ Adds song c) : FormatsChar g song c st st where
  length := hlen
  empty := by simp [hadds]
  idx q := by simp [hby]
  scroll := by simp [hby]
  scrolls := ⟨[], by simp⟩

theorem formatsChar_scroll {c : UInt8} {tag : Bytes} (part : Part) (scrolled : Bytes)
    (hlen : st.titlebuffer.length ≤ 255) (hby : scrolledBy song c = some part)
    (hadds : Adds song c ↔ scrolled ≠ [])
    (hbuffer : st'.titlebuffer = strlcat st.titlebuffer scrolled 256) (hscroll : st'.scroll = 0)
    (hscrolls : st'.scrolls = st.scrolls ++ [tagCall g tag (st.idx part)])
    (hidx : ∀ q, st'.idx q = st.idx q + if part = q then st.scroll else 0) :
    FormatsChar g song c st st' where
  length := hbuffer ▸ strlcat_length hlen
  empty := by rw [hbuffer, strlcat_eq_nil hlen, hadds, not_not]
  idx q := by rw [hidx, hby]; simp only [Option.some.injEq]
  scroll := by rw [hscroll, hby]; rfl
  scrolls := ⟨_, hscrolls, fun call hcall => ⟨part, hby, by
    obtain rfl := List.mem_singleton.mp hcall
    rfl⟩⟩

theorem scrollTag_ok (tag : Bytes) (idx : Int) (st : TitleState) :
    ∃ scrolled, (scrolled = [] ↔ tag = []) ∧ scrollTag g tag idx st = .ok
      ({ st with
          titlebuffer := strlcat st.titlebuffer scrolled 256
          scroll := 0
          scrolls := st.scrolls ++ [tagCall g tag idx] }, idx + st.scroll) := by
  obtain ⟨scrolled, hrun, hnil⟩ := tagCall_run (g := g) tag idx
  exact ⟨scrolled, hnil, by simp only [scrollTag, hrun]⟩

variable (g song) in
theorem formatChar_ok (c : UInt8) (hlen : st.titlebuffer.length ≤ 255) :
    ∃ st', formatChar g song.artist song.title c st = .ok st' ∧ FormatsChar g song c st st' := by
  by_cases ha : c = 97
  · subst ha
    cases hartist : song.artist with
    | none => exact ⟨st, rfl, formatsChar_skip hlen rfl (by simp [Adds, hartist])⟩
    | some artist => exact ⟨_, rfl, formatsChar_strlcat _ hlen rfl (by simp [Adds, hartist])⟩
  by_cases hA : c = 65
  · subst hA
    cases hartist : song.artist with
    | none =>
      exact ⟨st, rfl, formatsChar_skip hlen (by simp [scrolledBy, hartist]) (by simp [Adds, hartist])⟩
    | some artist =>
      obtain ⟨scrolled, hnil, hrun⟩ := scrollTag_ok (g := g) artist st.artistIdx st
      refine ⟨_, by simp only [formatChar, hrun]; rfl, formatsChar_scroll .artist scrolled hlen
        (by simp [scrolledBy, hartist]) (by simp [Adds, hartist, hnil]) rfl rfl rfl (fun q => ?_)⟩
      cases q <;> simp [TitleState.idx]
  by_cases ht : c = 116
  · subst ht
    cases htitle : song.title with
    | none => exact ⟨st, rfl, formatsChar_skip hlen rfl (by simp [Adds, htitle])⟩
    | some title => exact ⟨_, rfl, formatsChar_strlcat _ hlen rfl (by simp [Adds, htitle])⟩
  by_cases hT : c = 84
  · subst hT
    cases htitle : song.title with
    | none =>
      exact ⟨st, rfl, formatsChar_skip hlen (by simp [scrolledBy, htitle]) (by simp [Adds, htitle])⟩
    | some title =>
      obtain ⟨scrolled, hnil, hrun⟩ := scrollTag_ok (g := g) title st.titleIdx st
      refine ⟨_, by simp only [formatChar, hrun]; rfl, formatsChar_scroll .title scrolled hlen
        (by simp [scrolledBy, htitle]) (by simp [Adds, htitle, hnil]) rfl rfl rfl (fun q => ?_)⟩
      cases q <;> simp [TitleState.idx]
  · exact ⟨_, by simp only [formatChar, if_neg ha, if_neg hA, if_neg ht, if_neg hT],
      formatsChar_strlcat [c] hlen (by simp [scrolledBy, hA, hT])
        (by simp [Adds, ha, hA, ht, hT])⟩

theorem firstScrolled_cons (c : UInt8) (fmt : Bytes) :
    firstScrolled song (c :: fmt) = (scrolledBy song c).or (firstScrolled song fmt) := by
  simp only [firstScrolled, List.findSome?_cons]
  cases scrolledBy song c with
  | none => rfl
  | some part => rfl

variable (song) in
structure Formats (fmt : Bytes) (st st' : TitleState) : Prop where
  empty : st'.titlebuffer = [] ↔ st.titlebuffer = [] ∧ ∀ c ∈ fmt, ¬ Adds song c
  idx : ∀ q, st'.idx q = st.idx q + if firstScrolled song fmt = some q then st.scroll else 0
  scroll : st'.scroll = if (firstScrolled song fmt).isSome then 0 else st.scroll

variable (g song) in
theorem formatTitle_ok (fmt : Bytes) (hlen : st.titlebuffer.length ≤ 255) :
    ∃ st', formatTitle g song.artist song.title fmt st = .ok st' ∧ Formats song fmt st st' := by
  induction fmt generalizing st with
  | nil => exact ⟨st, rfl, by simp, by simp [firstScrolled], by simp [firstScrolled]⟩
  | cons c fmt ih =>
    obtain ⟨st₁, hchar, hc⟩ := formatChar_ok g song c hlen
    obtain ⟨st', hrest, hr⟩ := ih hc.length
    refine ⟨st', by simp only [formatTitle, hchar, hrest], ?_, fun q => ?_, ?_⟩
    · rw [hr.empty, hc.empty, List.forall_mem_cons, and_assoc]
    · rw [hr.idx, hc.idx, hc.scroll, firstScrolled_cons]
      cases scrolledBy song c with
      | none =>
        simp only [reduceCtorEq, if_false, Int.add_zero, Option.isSome_none, Bool.false_eq_true,
          Option.none_or]
        rfl
      | some part => simp
    · rw [hr.scroll, hc.scroll, firstScrolled_cons]
      cases scrolledBy song c with
      | none =>
        simp only [Option.isSome_none, Bool.false_eq_true, if_false, Option.none_or]
        rfl
      | some part => simp

variable (song) in
/-- The parts that the format scrolls start from 0, and none of them is scrolled again
after it has moved. -/
def StartsOver (fmt : Bytes) (st : TitleState) : Prop :=
  (∀ part, some part ∈ fmt.map (scrolledBy song) → st.idx part = 0) ∧
  (st.scroll = 0 ∨ ∀ part, firstScrolled song fmt = some part → fmt.count part.letter ≤ 1)

theorem letter_of_scrolledBy {c : UInt8} {part : Part} (h : scrolledBy song c = some part) :
    c = part.letter := by
  unfold scrolledBy at h
  split_ifs at h with hA hT
  · obtain rfl := Option.some.inj h
    exact hA.1
  · obtain rfl := Option.some.inj h
    exact hT.1

theorem startsOver_next {c : UInt8} {fmt : Bytes} (h : StartsOver song (c :: fmt) st)
    (hc : FormatsChar g song c st st') : StartsOver song fmt st' := by
  obtain ⟨hzero, honce⟩ := h
  cases hby : scrolledBy song c with
  | none =>
    refine ⟨fun part hpart => ?_, ?_⟩
    · have := hc.idx part
      rw [hby, if_neg (by simp), Int.add_zero] at this
      rw [this]
      exact hzero part (by simp [hpart])
    · rw [hc.scroll, hby]
      rcases honce with hs | hcount
      · exact .inl (by simpa using hs)
      · refine .inr (fun part hpart => ?_)
        have hle := hcount part (by rwa [firstScrolled_cons, hby, Option.none_or])
        exact Nat.le_trans List.count_le_count_cons hle
  | some moved =>
    refine ⟨fun part hpart => ?_, .inl (by rw [hc.scroll, hby]; rfl)⟩
    have hidx := hc.idx part
    rw [hzero part (List.mem_cons_of_mem _ hpart), hby, Int.zero_add] at hidx
    rw [hidx]
    by_cases hsame : moved = part
    · subst hsame
      rcases honce with hs | hcount
      · simp [hs]
      · have hle := hcount moved (by rw [firstScrolled_cons, hby, Option.some_or])
        obtain ⟨d, hd, hdby⟩ := List.mem_map.mp hpart
        rw [letter_of_scrolledBy hdby] at hd
        have hpos := List.count_pos_iff.mpr hd
        rw [letter_of_scrolledBy hby, List.count_cons_self] at hle
        omega
    · rw [if_neg (by simpa using hsame)]

theorem formatTitle_startsOver {fmt : Bytes} (hlen : st.titlebuffer.length ≤ 255)
    (h : StartsOver song fmt st) (hst : ∀ call ∈ st.scrolls, call.idx = 0)
    (hrun : formatTitle g song.artist song.title fmt st = .ok st') :
    ∀ call ∈ st'.scrolls, call.idx = 0 := by
  induction fmt generalizing st with
  | nil =>
    obtain rfl : st = st' := Except.ok.inj hrun
    exact hst
  | cons c fmt ih =>
    obtain ⟨st₁, hchar, hc⟩ := formatChar_ok g song c hlen
    simp only [formatTitle, hchar] at hrun
    refine ih hc.length (startsOver_next h hc) ?_ hrun
    obtain ⟨calls, hcalls, hby⟩ := hc.scrolls
    intro call hcall
    rw [hcalls] at hcall
    rcases List.mem_append.mp hcall with hold | hnew
    · exact hst call hold
    · obtain ⟨part, hpart, heq⟩ := hby call hnew
      rw [heq]
      exact h.1 part (by simp [hpart])

end Format

end Slstatus
