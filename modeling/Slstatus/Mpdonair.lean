import Slstatus.Lib.Buffer
import Slstatus.ScrollText

/-! `mpdonair` of mpd.c with its static variables. The MPD server is what one call
finds there: a connection, a status and a song. -/

namespace Slstatus

structure Song where
  title : Option Bytes := none
  artist : Option Bytes := none
  deriving DecidableEq

inductive MpdState
  | unknown | stop | play | pause
  deriving DecidableEq

structure Player where
  connects : Bool := true
  status : Option MpdState
  song : Option Song
  deriving DecidableEq

/-- The static variables of `mpdonair`; `conn` says that the pointer is not NULL. -/
structure MpdStatics where
  conn : Bool := false
  scrollIdx : Int := 0
  artistIdx : Int := 0
  titleIdx : Int := 0
  prevArtist : Buffer 255 := Buffer.zeros 255
  prevTitle : Buffer 255 := Buffer.zeros 255

structure ScrollCall where
  inputText : Bytes
  idx : Int
  numChars : Int
  loopText : Option Bytes
  onTextFits : OnTextFits

/-- The returned text, and the calls of `scroll_text` that went into it. -/
structure Shown where
  text : Bytes
  scrolls : List ScrollCall

structure TitleState where
  titlebuffer : Bytes
  scroll : Int
  artistIdx : Int
  titleIdx : Int
  scrolls : List ScrollCall

def strlcat (dst src : Bytes) (siz : Nat) : Bytes := dst ++ src.take (siz - 1 - dst.length)

def strncat (dst src : Bytes) (n : Nat) : Bytes := dst ++ src.take n

variable (g : GraphemeBreak)

def ScrollCall.run (call : ScrollCall) : Except Fault Bytes :=
  scrollText g call.inputText call.idx call.numChars call.loopText call.onTextFits

def tagCall (tag : Bytes) (idx : Int) : ScrollCall :=
  ⟨tag, idx, utf8strlen g (some tag), some (lit " "), .forceScroll⟩

def scrollTag (tag : Bytes) (idx : Int) (st : TitleState) : Except Fault (TitleState × Int) :=
  match (tagCall g tag idx).run g with
  | .error f => .error f
  | .ok scrolled => .ok
    ({ st with
        titlebuffer := strlcat st.titlebuffer scrolled 256
        scroll := 0
        scrolls := st.scrolls ++ [tagCall g tag idx] }, idx + st.scroll)

def formatChar (artist title : Option Bytes) (c : UInt8) (st : TitleState) :
    Except Fault TitleState :=
  if c = 97 then
    match artist with
    | none => .ok st
    | some artist => .ok { st with titlebuffer := strlcat st.titlebuffer artist 256 }
  else if c = 65 then
    match artist with
    | none => .ok st
    | some artist => (scrollTag g artist st.artistIdx st).map (fun r => { r.1 with artistIdx := r.2 })
  else if c = 116 then
    match title with
    | none => .ok st
    | some title => .ok { st with titlebuffer := strlcat st.titlebuffer title 256 }
  else if c = 84 then
    match title with
    | none => .ok st
    | some title => (scrollTag g title st.titleIdx st).map (fun r => { r.1 with titleIdx := r.2 })
  else .ok { st with titlebuffer := strlcat st.titlebuffer [c] 256 }

def formatTitle (artist title : Option Bytes) : Bytes → TitleState → Except Fault TitleState
  | [], st => .ok st
  | c :: fmt, st =>
    match formatChar g artist title c st with
    | .error f => .error f
    | .ok st => formatTitle artist title fmt st

def compareTag (tag : Option Bytes) (prev : Buffer 255) (scrollIdx : Int) :
    Except Fault (Buffer 255 × Int) :=
  match tag with
  | none => .ok (prev, scrollIdx)
  | some tag =>
    match CString.differs tag prev.1 with
    | none => .error .outOfBounds
    | some changed => .ok (Buffer.ncopy 255 tag, if changed then 0 else scrollIdx)

def showSong (c : Config) (fmt buf : Bytes) (scroll : Int) (song : Song) (s : MpdStatics) :
    Except Fault (Shown × MpdStatics) :=
  match compareTag song.title s.prevTitle s.scrollIdx with
  | .error f => .error f
  | .ok (prevTitle, scrollIdx) =>
  match compareTag song.artist s.prevArtist scrollIdx with
  | .error f => .error f
  | .ok (prevArtist, scrollIdx) =>
  match formatTitle g song.artist song.title fmt ⟨[], scroll, s.artistIdx, s.titleIdx, []⟩ with
  | .error f => .error f
  | .ok st =>
    let call : ScrollCall :=
      ⟨st.titlebuffer, scrollIdx, c.mpdTitleLength.toInt, c.mpdLoopText, c.mpdOnTextFits⟩
    match call.run g with
    | .error f => .error f
    | .ok scrolledText => .ok
      (⟨strncat buf scrolledText (1024 - buf.length - 1), st.scrolls ++ [call]⟩,
        { conn := s.conn
          scrollIdx := scrollIdx + st.scroll
          artistIdx := st.artistIdx
          titleIdx := st.titleIdx
          prevArtist := prevArtist
          prevTitle := prevTitle })

variable {g} in
theorem showSong_conn {c : Config} {fmt buf : Bytes} {scroll : Int} {song : Song}
    {s t : MpdStatics} {r : Shown} (h : showSong g c fmt buf scroll song s = .ok (r, t)) :
    t.conn = s.conn := by
  unfold showSong at h
  split at h
  · cases h
  · split at h
    · cases h
    · split at h
      · cases h
      · dsimp only at h
        split at h
        · cases h
        · cases h
          rfl

def playSymbol : Bytes := [0x20, 0xEF, 0x81, 0x8B, 0x20]

def pauseSymbol : Bytes := [0x20, 0xEF, 0x81, 0x8C, 0x20]

def stopSymbol : Bytes := [0x20, 0xEF, 0x81, 0x8D, 0x20]

def mpdonair (c : Config) (fmt : Bytes) (x : Player) (s : MpdStatics) :
    Except Fault (Shown × MpdStatics) :=
  if s.conn = false ∧ x.connects = false then .ok (⟨[], []⟩, s)
  else
    let s := { s with conn := true }
    match x.status, x.song with
    | some .play, some song => showSong g c fmt playSymbol 1 song s
    | some .pause, some song => showSong g c fmt pauseSymbol 0 song s
    | some .stop, some _ => .ok (⟨stopSymbol, []⟩, s)
    | _, _ => .ok (⟨[], []⟩, { s with conn := false })

end Slstatus
