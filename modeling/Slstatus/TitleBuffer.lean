import Slstatus.Strlcat
import Slstatus.TitleCut

/-! The loop of `mpdonair` over its format on the array `titlebuffer` itself. It goes on
while `i < (int)strlen(fmt)`, so that a format of 2 GiB or more is not read to its end. -/

namespace Slstatus

variable (g : GraphemeBreak)

structure TitleArray where
  titlebuffer : Buffer 256
  scroll : Int
  artistIdx : Int
  titleIdx : Int
  scrolls : List ScrollCall

def appendTitle (src : Bytes) (st : TitleArray) : Except Fault TitleArray :=
  match strlcatArray st.titlebuffer src 256 with
  | .error f => .error f
  | .ok (titlebuffer, _) => .ok { st with titlebuffer := titlebuffer }

def scrollTagArray (tag : Bytes) (idx : Int) (st : TitleArray) :
    Except Fault (TitleArray × Int) :=
  match (tagCall g tag idx).run g with
  | .error f => .error f
  | .ok scrolled =>
    match appendTitle scrolled st with
    | .error f => .error f
    | .ok st' => .ok
      ({ st' with scroll := 0, scrolls := st.scrolls ++ [tagCall g tag idx] }, idx + st.scroll)

def formatCharArray (artist title : Option Bytes) (c : UInt8) (st : TitleArray) :
    Except Fault TitleArray :=
  if c = 97 then
    match artist with
    | none => .ok st
    | some artist => appendTitle artist st
  else if c = 65 then
    match artist with
    | none => .ok st
    | some artist =>
      (scrollTagArray g artist st.artistIdx st).map (fun r => { r.1 with artistIdx := r.2 })
  else if c = 116 then
    match title with
    | none => .ok st
    | some title => appendTitle title st
  else if c = 84 then
    match title with
    | none => .ok st
    | some title =>
      (scrollTagArray g title st.titleIdx st).map (fun r => { r.1 with titleIdx := r.2 })
  else appendTitle [c] st

def formatTitleArray (artist title : Option Bytes) : Bytes → TitleArray → Except Fault TitleArray
  | [], st => .ok st
  | c :: fmt, st =>
    match formatCharArray g artist title c st with
    | .error f => .error f
    | .ok st => formatTitleArray artist title fmt st

/-- The bytes that `for (i = 0; i < (int)strlen(fmt); i++)` reads. -/
def visitedBytes (fmt : Bytes) : Bytes := fmt.take (Int32.ofNat fmt.length).toInt.toNat

def titleLoop (fmt : Bytes) (scroll : Int) (song : Song) (s : MpdStatics) :
    Except Fault TitleArray :=
  formatTitleArray g song.artist song.title (visitedBytes fmt)
    ⟨Buffer.zeros 256, scroll, s.artistIdx, s.titleIdx, []⟩

def showSongArray (c : Config) (fmt buf : Bytes) (scroll : Int) (song : Song) (s : MpdStatics) :
    Except Fault (Shown × MpdStatics) :=
  match compareTag song.title s.prevTitle s.scrollIdx with
  | .error f => .error f
  | .ok (prevTitle, scrollIdx) =>
  match compareTag song.artist s.prevArtist scrollIdx with
  | .error f => .error f
  | .ok (prevArtist, scrollIdx) =>
  match titleLoop g fmt scroll song s with
  | .error f => .error f
  | .ok st =>
  match CString.content st.titlebuffer.1 with
  | none => .error .outOfBounds
  | some titlebuffer =>
    let call : ScrollCall :=
      ⟨titlebuffer, scrollIdx, c.mpdTitleLength.toInt, c.mpdLoopText, c.mpdOnTextFits⟩
    match call.run g with
    | .error f => .error f
    | .ok scrolledText => .ok
      (⟨strncat buf scrolledText (1024 - buf.length - 1), st.scrolls ++ [call]⟩,
        { conn := s.conn
          scrollIdx := scrollIdx + st.scroll
          artistIdx := st.artistIdx
          titleIdx := st.titleIdx
          prevArtist := prevArtist
          prevTitle := prevTitle })

/-- The state of the loop where the array is read as the string it holds. -/
def TitleArray.read (st : TitleArray) (text : Bytes) : TitleState :=
  ⟨text, st.scroll, st.artistIdx, st.titleIdx, st.scrolls⟩

structure TitleArray.Holds (st : TitleArray) (ts : TitleState) : Prop where
  text : CString.content st.titlebuffer.1 = some ts.titlebuffer
  read : st.read ts.titlebuffer = ts

/-- The tags are C strings. -/
structure Song.CStrings (song : Song) : Prop where
  artist : ∀ tag ∈ song.artist, 0 ∉ tag
  title : ∀ tag ∈ song.title, 0 ∉ tag

section Refines

variable {g} {song : Song} {st st' : TitleArray} {ts : TitleState}

theorem appendTitle_refines {src : Bytes} (h : st.Holds ts) (hsrc : 0 ∉ src) :
    ∃ st', appendTitle src st = .ok st' ∧
      st'.Holds { ts with titlebuffer := strlcat ts.titlebuffer src 256 } := by
  obtain ⟨htext, hread⟩ := h
  obtain ⟨array', hrun, hcontent⟩ := strlcatArray_content htext hsrc
  refine ⟨{ st with titlebuffer := array' }, by simp only [appendTitle, hrun], hcontent, ?_⟩
  rw [← hread]
  rfl

theorem mem_windowText {tag : Bytes} {idx : Int} {b : UInt8}
    (h : b ∈ (tagCall g tag idx).windowText g) : b ∈ tag ∨ b = 32 := by
  obtain ⟨cluster, hcluster, hb⟩ := List.mem_flatten.mp h
  rcases List.mem_append.mp (Window.mem_of_mem_window hcluster) with htag | hsep
  · rw [← seg_flatten (g := g) tag]
    exact .inl (List.mem_flatten.mpr ⟨cluster, htag, hb⟩)
  · have hmem : b ∈ separator g tag (tagCall g tag idx).numChars (some (lit " ")) .forceScroll := by
      rw [← seg_flatten (g := g) (separator g tag _ _ _)]
      exact List.mem_flatten.mpr ⟨cluster, hsep, hb⟩
    rw [separator, if_neg (fun hh => hh.2 rfl)] at hmem
    exact .inr (List.mem_singleton.mp hmem)

theorem scrollTagArray_refines {tag : Bytes} (h : st.Holds ts) (htag : 0 ∉ tag) (idx : Int) :
    ∃ r r', scrollTagArray g tag idx st = .ok r ∧ scrollTag g tag idx ts = .ok r' ∧
      r.1.Holds r'.1 ∧ r.2 = r'.2 := by
  obtain ⟨scrolled, hrun, -⟩ := tagCall_run (g := g) tag idx
  have hscrolled : 0 ∉ scrolled := by
    rw [ScrollCall.run_eq_windowText hrun]
    intro hmem
    rcases mem_windowText hmem with htagmem | hspace
    · exact htag htagmem
    · exact absurd hspace (by decide)
  obtain ⟨st', happend, htext, hread⟩ := appendTitle_refines h hscrolled
  have hscroll : st.scroll = ts.scroll := congrArg TitleState.scroll h.read
  have hscrolls : st.scrolls = ts.scrolls := congrArg TitleState.scrolls h.read
  refine ⟨_, _, by simp only [scrollTagArray, hrun, happend]; rfl,
    by simp only [scrollTag, hrun]; rfl, ⟨htext, ?_⟩, ?_⟩
  · have hartist : st'.artistIdx = ts.artistIdx := congrArg TitleState.artistIdx hread
    have htitle : st'.titleIdx = ts.titleIdx := congrArg TitleState.titleIdx hread
    simp only [TitleArray.read, hscrolls, hartist, htitle]
  · rw [hscroll]

theorem refines_plain {t : Option Bytes} (h : st.Holds ts) (ht : ∀ tag ∈ t, 0 ∉ tag) :
    ∃ st' ts', (match t with
        | none => Except.ok st
        | some tag => appendTitle tag st) = .ok st' ∧
      (match t with
        | none => Except.ok ts
        | some tag => Except.ok { ts with titlebuffer := strlcat ts.titlebuffer tag 256 }) =
          (.ok ts' : Except Fault TitleState) ∧ st'.Holds ts' := by
  cases t with
  | none => exact ⟨st, ts, rfl, rfl, h⟩
  | some tag =>
    obtain ⟨st', hrun, hholds⟩ := appendTitle_refines h (ht tag rfl)
    exact ⟨st', _, hrun, rfl, hholds⟩

theorem refines_scrolled {t : Option Bytes} (idx : Int)
    (store : TitleArray × Int → TitleArray) (store' : TitleState × Int → TitleState)
    (hstore : ∀ r r', r.1.Holds r'.1 → r.2 = r'.2 → (store r).Holds (store' r'))
    (h : st.Holds ts) (ht : ∀ tag ∈ t, 0 ∉ tag) :
    ∃ st' ts', (match t with
        | none => Except.ok st
        | some tag => (scrollTagArray g tag idx st).map store) = .ok st' ∧
      (match t with
        | none => Except.ok ts
        | some tag => (scrollTag g tag idx ts).map store') = .ok ts' ∧ st'.Holds ts' := by
  cases t with
  | none => exact ⟨st, ts, rfl, rfl, h⟩
  | some tag =>
    obtain ⟨r, r', hrun, hrun', hholds, hidx⟩ := scrollTagArray_refines (g := g) h (ht tag rfl) idx
    exact ⟨store r, store' r', congrArg (Except.map store) hrun, congrArg (Except.map store') hrun',
      hstore r r' hholds hidx⟩

theorem formatCharArray_refines (hsong : song.CStrings) {c : UInt8} (hc : c ≠ 0)
    (h : st.Holds ts) :
    ∃ st' ts', formatCharArray g song.artist song.title c st = .ok st' ∧
      formatChar g song.artist song.title c ts = .ok ts' ∧ st'.Holds ts' := by
  by_cases ha : c = 97
  · subst ha
    exact refines_plain h hsong.artist
  by_cases hA : c = 65
  · subst hA
    have hidx : st.artistIdx = ts.artistIdx := congrArg TitleState.artistIdx h.read
    have hscrolled := refines_scrolled (g := g) ts.artistIdx (fun r => { r.1 with artistIdx := r.2 })
      (fun r => { r.1 with artistIdx := r.2 }) (by
        intro r r' hholds hmoved
        refine ⟨hholds.text, ?_⟩
        rw [← hholds.read, hmoved]
        rfl) h hsong.artist
    simp only [formatCharArray, formatChar, hidx]
    exact hscrolled
  by_cases ht : c = 116
  · subst ht
    exact refines_plain h hsong.title
  by_cases hT : c = 84
  · subst hT
    have hidx : st.titleIdx = ts.titleIdx := congrArg TitleState.titleIdx h.read
    have hscrolled := refines_scrolled (g := g) ts.titleIdx (fun r => { r.1 with titleIdx := r.2 })
      (fun r => { r.1 with titleIdx := r.2 }) (by
        intro r r' hholds hmoved
        refine ⟨hholds.text, ?_⟩
        rw [← hholds.read, hmoved]
        rfl) h hsong.title
    simp only [formatCharArray, formatChar, hidx]
    exact hscrolled
  · simp only [formatCharArray, formatChar, if_neg ha, if_neg hA, if_neg ht, if_neg hT]
    apply refines_plain (t := some [c]) h
    intro tag htag
    obtain rfl := Option.some.inj htag
    exact fun hmem => hc (List.mem_singleton.mp hmem).symm

/-- The loop on the array does what the loop on the string does. -/
theorem formatTitleArray_refines (hsong : song.CStrings) {fmt : Bytes} (hfmt : 0 ∉ fmt)
    (h : st.Holds ts) :
    ∃ st' ts', formatTitleArray g song.artist song.title fmt st = .ok st' ∧
      formatTitle g song.artist song.title fmt ts = .ok ts' ∧ st'.Holds ts' := by
  induction fmt generalizing st ts with
  | nil => exact ⟨st, ts, rfl, rfl, h⟩
  | cons c fmt ih =>
    have hc : c ≠ 0 := by
      rintro rfl
      exact hfmt List.mem_cons_self
    obtain ⟨st₁, ts₁, hchar, hchar', hholds⟩ := formatCharArray_refines (g := g) hsong hc h
    obtain ⟨st', ts', hrest, hrest', hholds'⟩ :=
      ih (fun hmem => hfmt (List.mem_cons_of_mem c hmem)) hholds
    refine ⟨st', ts', ?_, ?_, hholds'⟩
    · rw [formatTitleArray, hchar]
      exact hrest
    · rw [formatTitle, hchar']
      exact hrest'

/-- A letter leaves the array as it is or appends one text to it. -/
def Appended (st st' : TitleArray) : Prop :=
  st'.titlebuffer = st.titlebuffer ∨
    ∃ src st₁, appendTitle src st = .ok st₁ ∧ st'.titlebuffer = st₁.titlebuffer

theorem appended_plain {t : Option Bytes}
    (h : (match t with
      | none => Except.ok st
      | some tag => appendTitle tag st) = .ok st') : Appended st st' := by
  cases t with
  | none => exact .inl (congrArg TitleArray.titlebuffer (Except.ok.inj h).symm)
  | some tag => exact .inr ⟨tag, st', h, rfl⟩

theorem appended_scrolled {tag : Option Bytes} {idx : Int}
    (store : TitleArray × Int → TitleArray)
    (h : (match tag with
      | none => Except.ok st
      | some tag => (scrollTagArray g tag idx st).map store) = .ok st')
    (hstore : ∀ r, (store r).titlebuffer = r.1.titlebuffer) : Appended st st' := by
  cases tag with
  | none => exact .inl (congrArg TitleArray.titlebuffer (Except.ok.inj h).symm)
  | some tag =>
    cases hrun : (tagCall g tag idx).run g with
    | error f => simp [scrollTagArray, hrun, Except.map] at h
    | ok scrolled =>
      cases happend : appendTitle scrolled st with
      | error f => simp [scrollTagArray, hrun, happend, Except.map] at h
      | ok st₁ =>
        simp only [scrollTagArray, hrun, happend, Except.map] at h
        obtain rfl := Except.ok.inj h
        exact .inr ⟨scrolled, st₁, happend, hstore _⟩

theorem formatCharArray_appended {artist title : Option Bytes} {c : UInt8}
    (h : formatCharArray g artist title c st = .ok st') : Appended st st' := by
  by_cases ha : c = 97
  · subst ha
    exact appended_plain h
  by_cases hA : c = 65
  · subst hA
    exact appended_scrolled _ h (fun r => rfl)
  by_cases ht : c = 116
  · subst ht
    exact appended_plain h
  by_cases hT : c = 84
  · subst hT
    exact appended_scrolled _ h (fun r => rfl)
  · simp only [formatCharArray, if_neg ha, if_neg hA, if_neg ht, if_neg hT] at h
    exact appended_plain (t := some [c]) h

def TitleArray.Full (st : TitleArray) : Prop :=
  ∃ text, CString.content st.titlebuffer.1 = some text ∧ text.length = 255

theorem appendTitle_full (hfull : st.Full) (src : Bytes) : appendTitle src st = .ok st := by
  obtain ⟨text, htext, hlen⟩ := hfull
  simp only [appendTitle, strlcatArray_full htext (by rw [hlen]) src]

theorem formatTitleArray_full {fmt : Bytes} (hfull : st.Full)
    (h : formatTitleArray g song.artist song.title fmt st = .ok st') :
    st'.titlebuffer = st.titlebuffer := by
  induction fmt generalizing st with
  | nil => exact congrArg TitleArray.titlebuffer (Except.ok.inj h).symm
  | cons c fmt ih =>
    cases hchar : formatCharArray g song.artist song.title c st with
    | error f =>
      rw [formatTitleArray, hchar] at h
      cases h
    | ok st₁ =>
      rw [formatTitleArray, hchar] at h
      have hsame : st₁.titlebuffer = st.titlebuffer := by
        rcases formatCharArray_appended hchar with hsame | ⟨src, st₂, happend, hbuffer⟩
        · exact hsame
        · obtain rfl := Except.ok.inj ((appendTitle_full hfull src).symm.trans happend)
          exact hbuffer
      have hfull₁ : st₁.Full := by
        rw [TitleArray.Full, hsame]
        exact hfull
      exact (ih hfull₁ h).trans hsame

end Refines

section Composed

variable {g} {song : Song}

theorem windowText_eq_nil {tag : Bytes} {idx : Int} :
    (tagCall g tag idx).windowText g = [] ↔ tag = [] := by
  obtain ⟨scrolled, hrun, hnil⟩ := tagCall_run (g := g) tag idx
  rw [← ScrollCall.run_eq_windowText hrun]
  exact hnil

theorem piece_eq_nil {idx : Part → Int} {c : UInt8} : piece g song idx c = [] ↔ ¬ Adds song c := by
  by_cases ha : c = 97
  · subst ha
    simp [piece, Adds]
  by_cases hA : c = 65
  · subst hA
    cases hartist : song.artist <;> simp [piece, Adds, hartist, windowText_eq_nil]
  by_cases ht : c = 116
  · subst ht
    simp [piece, Adds]
  by_cases hT : c = 84
  · subst hT
    cases htitle : song.title <;> simp [piece, Adds, htitle, windowText_eq_nil]
  · simp [piece, Adds, ha, hA, ht, hT]

theorem composed_eq_nil {fmt : Bytes} {idx : Part → Int} {scroll : Int} :
    composed g song fmt idx scroll = [] ↔ ∀ c ∈ fmt, ¬ Adds song c := by
  induction fmt generalizing idx scroll with
  | nil => simp [composed]
  | cons c fmt ih => rw [composed, List.append_eq_nil_iff, piece_eq_nil, ih, List.forall_mem_cons]

variable (g song) in
theorem composed_append (fmt fmt' : Bytes) (idx : Part → Int) (scroll : Int) :
    ∃ idx' scroll', composed g song (fmt ++ fmt') idx scroll =
      composed g song fmt idx scroll ++ composed g song fmt' idx' scroll' := by
  induction fmt generalizing idx scroll with
  | nil => exact ⟨idx, scroll, rfl⟩
  | cons c fmt ih =>
    obtain ⟨idx', scroll', hrest⟩ := ih
      (fun q => idx q + if scrolledBy song c = some q then scroll else 0)
      (if (scrolledBy song c).isSome then 0 else scroll)
    refine ⟨idx', scroll', ?_⟩
    rw [List.cons_append, composed, hrest, composed, List.append_assoc]

theorem take_append_eq_iff {α : Type} (n : Nat) (x y : List α) :
    x.take n = (x ++ y).take n ↔ n ≤ x.length ∨ y = [] := by
  rw [List.take_append, List.self_eq_append_right, List.take_eq_nil_iff, Nat.sub_eq_zero_iff_le]

end Composed

/-- What `titlebuffer` holds when the loop is done, that it no longer changes once it is
full, and that it is the text of the last call of `scroll_text`. -/
structure TitleBufferLaw (fmt : Bytes) (scroll : Int) (song : Song) (s : MpdStatics) : Prop where
  filled : ∃ st, titleLoop g fmt scroll song s = .ok st ∧
    CString.content st.titlebuffer.1 = some ((composedTitle g fmt scroll song s).take 255)
  full : ∀ pre post st, visitedBytes fmt = pre ++ post →
    formatTitleArray g song.artist song.title pre
      ⟨Buffer.zeros 256, scroll, s.artistIdx, s.titleIdx, []⟩ = .ok st → st.Full →
    (∀ src, strlcatArray st.titlebuffer src 256 = .ok (st.titlebuffer, 255 + src.length)) ∧
      ∀ st', formatTitleArray g song.artist song.title post st = .ok st' →
        st'.titlebuffer = st.titlebuffer
  passed : ∀ c buf r t, showSongArray g c fmt buf scroll song s = .ok (r, t) →
    ∃ calls call, r.scrolls = calls ++ [call] ∧
      call.inputText = (composedTitle g fmt scroll song s).take 255

section Law

variable {g} {fmt : Bytes} {song : Song} {s : MpdStatics} {scroll : Int}

theorem holds_start (scroll : Int) (s : MpdStatics) : TitleArray.Holds ⟨Buffer.zeros 256, scroll, s.artistIdx, s.titleIdx, []⟩
    ⟨[], scroll, s.artistIdx, s.titleIdx, []⟩ := by
  have hempty : CString.content (Buffer.zeros 256).1 = some [] := by decide
  exact ⟨hempty, rfl⟩

variable (g s scroll) in
theorem titleLoop_content (hfmt : 0 ∉ fmt) (hsong : song.CStrings) :
    ∃ st, titleLoop g fmt scroll song s = .ok st ∧ CString.content st.titlebuffer.1 =
      some ((composedTitle g (visitedBytes fmt) scroll song s).take 255) := by
  obtain ⟨st, ts, hrun, hrun', hholds⟩ := formatTitleArray_refines (g := g) hsong
    (fun hmem => hfmt (List.mem_of_mem_take hmem)) (holds_start scroll s)
  obtain ⟨hbuffer, -⟩ := formatTitle_cut (Nat.zero_le _) List.take_nil.symm hrun'
  have hidx : TitleState.idx ⟨[], scroll, s.artistIdx, s.titleIdx, []⟩ =
      fun q => s.index (some q) := by
    funext q
    cases q <;> rfl
  rw [List.nil_append, hidx] at hbuffer
  exact ⟨st, hrun, hholds.text.trans (congrArg some hbuffer)⟩

/-- The part of the format that is not read matters unless the array is full by then or
nothing in it adds to the title. -/
theorem composedTitle_visited_iff :
    (composedTitle g (visitedBytes fmt) scroll song s).take 255 =
        (composedTitle g fmt scroll song s).take 255 ↔
      255 ≤ (composedTitle g (visitedBytes fmt) scroll song s).length ∨
        ∀ c ∈ fmt.drop (visitedBytes fmt).length, ¬ Adds song c := by
  obtain ⟨idx', scroll', happend⟩ := composed_append g song (visitedBytes fmt)
    (fmt.drop (visitedBytes fmt).length) (fun q => s.index (some q)) scroll
  have hread : visitedBytes fmt ++ fmt.drop (visitedBytes fmt).length = fmt :=
    List.prefix_iff_eq_append.mp (List.take_prefix _ fmt)
  rw [hread] at happend
  rw [composedTitle, composedTitle, happend, take_append_eq_iff, composed_eq_nil]

theorem showSongArray_passed {c : Config} {buf : Bytes} {r : Shown} {t : MpdStatics}
    (h : showSongArray g c fmt buf scroll song s = .ok (r, t)) :
    ∃ st calls call, titleLoop g fmt scroll song s = .ok st ∧ r.scrolls = calls ++ [call] ∧
      CString.content st.titlebuffer.1 = some call.inputText := by
  cases htitle : compareTag song.title s.prevTitle s.scrollIdx with
  | error f => simp [showSongArray, htitle] at h
  | ok r₁ =>
  cases hartist : compareTag song.artist s.prevArtist r₁.2 with
  | error f => simp [showSongArray, htitle, hartist] at h
  | ok r₂ =>
  cases hloop : titleLoop g fmt scroll song s with
  | error f => simp [showSongArray, htitle, hartist, hloop] at h
  | ok st =>
  cases htext : CString.content st.titlebuffer.1 with
  | none => simp [showSongArray, htitle, hartist, hloop, htext] at h
  | some text =>
  cases hrun : (ScrollCall.mk text r₂.2 c.mpdTitleLength.toInt c.mpdLoopText c.mpdOnTextFits).run g with
  | error f => simp [showSongArray, htitle, hartist, hloop, htext, hrun] at h
  | ok scrolledText =>
    simp only [showSongArray, htitle, hartist, hloop, htext, hrun, Except.ok.injEq,
      Prod.mk.injEq] at h
    obtain ⟨rfl, -⟩ := h
    exact ⟨st, _, _, rfl, rfl, htext⟩

/-- Formats below 2 GiB are read to their end, and there the call on the array is the call
on the string. -/
theorem visitedBytes_eq (h : fmt.length < 2 ^ 31) : visitedBytes fmt = fmt := by
  have hlen : (Int32.ofNat fmt.length).toInt = fmt.length := Int32.toInt_ofNat_of_lt h
  rw [visitedBytes, hlen, Int.toNat_natCast, List.take_length]

theorem showSongArray_eq (hfmt : 0 ∉ fmt) (hsong : song.CStrings) (h : fmt.length < 2 ^ 31)
    (c : Config) (buf : Bytes) :
    showSongArray g c fmt buf scroll song s = showSong g c fmt buf scroll song s := by
  obtain ⟨st, ts, hrun, hrun', hholds⟩ := formatTitleArray_refines (g := g) hsong hfmt
    (holds_start scroll s)
  have hloop : titleLoop g fmt scroll song s = .ok st := by
    rw [titleLoop, visitedBytes_eq h]
    exact hrun
  have hscroll : st.scroll = ts.scroll := congrArg TitleState.scroll hholds.read
  have hartistIdx : st.artistIdx = ts.artistIdx := congrArg TitleState.artistIdx hholds.read
  have htitleIdx : st.titleIdx = ts.titleIdx := congrArg TitleState.titleIdx hholds.read
  have hscrolls : st.scrolls = ts.scrolls := congrArg TitleState.scrolls hholds.read
  cases htitle : compareTag song.title s.prevTitle s.scrollIdx with
  | error f => simp only [showSongArray, showSong, htitle]
  | ok r₁ =>
  cases hartist : compareTag song.artist s.prevArtist r₁.2 with
  | error f => simp only [showSongArray, showSong, htitle, hartist]
  | ok r₂ =>
  cases hlast : (ScrollCall.mk ts.titlebuffer r₂.2 c.mpdTitleLength.toInt c.mpdLoopText
      c.mpdOnTextFits).run g with
  | error f =>
    simp only [showSongArray, showSong, htitle, hartist, hloop, hrun', hholds.text, hlast]
  | ok scrolledText =>
    simp only [showSongArray, showSong, htitle, hartist, hloop, hrun', hholds.text, hlast, hscroll,
      hartistIdx, htitleIdx, hscrolls]

end Law

/-- The law holds exactly where the part of the format that `(int)strlen(fmt)` cuts off would
change nothing, so for every format below 2 GiB. -/
theorem titleBuffer_iff (fmt : Bytes) (scroll : Int) (song : Song) (s : MpdStatics)
    (hfmt : 0 ∉ fmt) (hsong : song.CStrings) :
    TitleBufferLaw g fmt scroll song s ↔
      255 ≤ (composedTitle g (visitedBytes fmt) scroll song s).length ∨
        ∀ c ∈ fmt.drop (visitedBytes fmt).length, ¬ Adds song c := by
  obtain ⟨st, hloop, hcontent⟩ := titleLoop_content g s scroll hfmt hsong
  rw [← composedTitle_visited_iff]
  constructor
  · rintro ⟨⟨st', hloop', hcontent'⟩, -, -⟩
    obtain rfl := Except.ok.inj (hloop.symm.trans hloop')
    exact Option.some.inj (hcontent.symm.trans hcontent')
  · intro hsame
    rw [hsame] at hcontent
    refine ⟨⟨st, hloop, hcontent⟩, ?_, ?_⟩
    · rintro pre post st₁ - - hfull
      refine ⟨fun src => ?_, fun st' hrest => formatTitleArray_full hfull hrest⟩
      obtain ⟨text, htext, hlen⟩ := hfull
      rw [strlcatArray_full htext (by rw [hlen]) src, hlen]
    · intro c buf r t hrun
      obtain ⟨st', calls, call, hloop', hscrolls, htext⟩ := showSongArray_passed hrun
      obtain rfl := Except.ok.inj (hloop.symm.trans hloop')
      exact ⟨calls, call, hscrolls, (Option.some.inj (hcontent.symm.trans htext)).symm⟩

theorem titleBuffer_short :
    TitleBufferLaw acuteBreak (lit "a - T") 1 ⟨some (lit "Song"), some (lit "Band")⟩ {} := by
  have hsong : Song.CStrings ⟨some (lit "Song"), some (lit "Band")⟩ := by
    refine ⟨?_, ?_⟩
    · intro tag htag
      obtain rfl := Option.some.inj htag
      decide
    · intro tag htag
      obtain rfl := Option.some.inj htag
      decide
  have hend : (lit "a - T").drop (visitedBytes (lit "a - T")).length = [] := by decide
  apply (titleBuffer_iff acuteBreak (lit "a - T") 1 _ {} (by decide) hsong).mpr
  rw [hend]
  exact .inr (fun c hc => absurd hc List.not_mem_nil)

/-- A format of `2 ^ 31` dashes: its length as an `int` is negative, and the title stays
empty. -/
theorem titleBuffer_unread :
    ¬ TitleBufferLaw acuteBreak (List.replicate 2147483648 45) 1 {} {} := by
  rintro ⟨⟨st, hloop, hcontent⟩, -, -⟩
  have hfmt : (0 : UInt8) ∉ List.replicate 2147483648 (45 : UInt8) := by
    intro hmem
    exact absurd (List.eq_of_mem_replicate hmem) (by decide)
  have hsong : Song.CStrings {} := by
    refine ⟨?_, ?_⟩
    · intro tag htag
      cases htag
    · intro tag htag
      cases htag
  have hread : visitedBytes (List.replicate 2147483648 45) = [] := by
    have hint : (Int32.ofNat 2147483648).toInt.toNat = 0 := by decide
    rw [visitedBytes, List.length_replicate, hint, List.take_zero]
  obtain ⟨st', hloop', hcontent'⟩ :=
    titleLoop_content acuteBreak {} 1 hfmt hsong
  obtain rfl := Except.ok.inj (hloop.symm.trans hloop')
  have hsame := Option.some.inj (hcontent'.symm.trans hcontent)
  rcases composedTitle_visited_iff.mp hsame with hlong | hnothing
  · rw [hread] at hlong
    exact absurd hlong (by decide)
  · rw [hread, List.length_nil, List.drop_zero] at hnothing
    exact hnothing 45 (List.mem_replicate.mpr ⟨by decide, rfl⟩) trivial

end Slstatus
