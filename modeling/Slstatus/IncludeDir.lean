import Slstatus.ConfPath
import Slstatus.Lib.Tokens

/-! The directory in which libconfig looks for included files, as a place in the file system: the
one that the configuration file stands in. -/

namespace Slstatus

/-- The names that a path leads through. An empty one and `.` lead nowhere else. -/
def pathNames (path : Bytes) : List Bytes :=
  (Tokens.tokens (· = 47) path).filter (· ≠ lit ".")

def absolute (path : Bytes) : Bool := path.head? = some 47

/-- What stands behind the last slash. -/
def lastPiece (path : Bytes) : Bytes :=
  match CString.beforeLast 47 path with
  | none => path
  | some dir => path.drop (dir.length + 1)

section Dirname

variable {path dir piece : Bytes}

theorem pathNames_append (dir piece : Bytes) :
    pathNames (dir ++ 47 :: piece) = pathNames dir ++ pathNames piece := by
  rw [pathNames, Tokens.tokens_append_sep (by decide), List.filter_append]
  rfl

/-- A piece without slashes is one name, or none. -/
theorem pathNames_piece (h : 47 ∉ piece) :
    pathNames piece = if piece = [] ∨ piece = lit "." then [] else [piece] := by
  rcases eq_or_ne piece [] with rfl | hne
  · rfl
  · have hword : ∀ c ∈ piece, decide (c = (47 : UInt8)) = false := by
      intro c hc
      exact decide_eq_false (fun heq => h (heq ▸ hc))
    rw [pathNames, Tokens.tokens_word hword hne]
    by_cases hdot : piece = lit "."
    · simp [hdot]
    · simp [hne, hdot]

theorem lastPiece_append (h : 47 ∉ piece) : lastPiece (dir ++ 47 :: piece) = piece := by
  have hbefore : CString.beforeLast 47 (dir ++ 47 :: piece) = some dir :=
    CString.beforeLast_eq_some.mpr ⟨piece, rfl, h⟩
  simp only [lastPiece, hbefore]
  rw [← List.drop_drop, List.drop_left]
  rfl

theorem lastPiece_plain (h : 47 ∉ path) : lastPiece path = path := by
  simp only [lastPiece, CString.beforeLast_eq_none.mpr h]

/-- A path without slash, or one that is parted at its last slash. -/
theorem path_cases (path : Bytes) :
    47 ∉ path ∨ ∃ dir piece, path = dir ++ 47 :: piece ∧ 47 ∉ piece := by
  cases h : CString.beforeLast 47 path with
  | none => exact .inl (CString.beforeLast_eq_none.mp h)
  | some dir => exact .inr ⟨dir, CString.beforeLast_eq_some.mp h⟩

theorem pathDirname_plain (h : 47 ∉ path) : pathDirname (some path) = lit "." := by
  rcases eq_or_ne path [] with rfl | hne
  · rfl
  · simp [pathDirname, hne, CString.beforeLast_eq_none.mpr h]

theorem pathDirname_append (h : 47 ∉ piece) :
    pathDirname (some (dir ++ 47 :: piece)) = if dir = [] then lit "/" else dir := by
  have hbefore : CString.beforeLast 47 (dir ++ 47 :: piece) = some dir :=
    CString.beforeLast_eq_some.mpr ⟨piece, rfl, h⟩
  have hne : dir ++ 47 :: piece ≠ [] := by simp
  simp only [pathDirname, Option.getD_some, if_neg hne, hbefore]
  cases dir with
  | nil => rfl
  | cons c dir => rfl

/-- The directory and the last piece lead where the path leads. -/
theorem pathNames_dirname (path : Bytes) :
    pathNames path = pathNames (pathDirname (some path)) ++ pathNames (lastPiece path) ∧
      absolute (pathDirname (some path)) = absolute path := by
  rcases path_cases path with h | ⟨dir, piece, rfl, h⟩
  · have hdot : pathNames (lit ".") = [] := by decide +kernel
    rw [pathDirname_plain h, lastPiece_plain h, hdot]
    refine ⟨rfl, ?_⟩
    cases path with
    | nil => decide +kernel
    | cons c path =>
      have hc : c ≠ 47 := fun heq => h (heq ▸ List.mem_cons_self)
      simp [absolute, hc]
      decide +kernel
  · rw [pathDirname_append h, lastPiece_append h, pathNames_append]
    rcases eq_or_ne dir [] with rfl | hne
    · have hroot : pathNames (lit "/") = [] := by decide +kernel
      rw [if_pos rfl, hroot]
      exact ⟨rfl, by rw [List.nil_append, absolute, absolute, List.head?_cons]; decide +kernel⟩
    · rw [if_neg hne]
      exact ⟨rfl, by rw [absolute, absolute, List.head?_append_of_ne_nil _ hne]⟩

theorem lastPiece_names (path : Bytes) : 47 ∉ lastPiece path := by
  rcases path_cases path with h | ⟨dir, piece, rfl, h⟩
  · rwa [lastPiece_plain h]
  · rwa [lastPiece_append h]

theorem getConfigPath_append {env : Environment} {path : Bytes}
    (h : getConfigPath env (some cfgFilename) = some path) : lastPiece path = cfgFilename := by
  have hname : 47 ∉ cfgFilename := by decide +kernel
  have hslash : lit "/" ++ cfgFilename = 47 :: cfgFilename := by decide +kernel
  have hrelative : startswith (lit "/") cfgFilename = false := by decide +kernel
  simp only [getConfigPath, hrelative, Bool.false_eq_true, if_false] at h
  split_ifs at h
  · obtain rfl := Option.some.inj h
    rw [List.append_assoc _ (lit "/") cfgFilename, hslash]
    exact lastPiece_append hname
  · obtain rfl := Option.some.inj h
    rw [List.append_assoc _ (lit "/") cfgFilename, hslash]
    exact lastPiece_append hname

end Dirname

/-- The directory of a path is where its last name stands, exactly if it ends in a name: behind a
slash or a dot at the end nothing is taken away but that. It is absolute if the path is. So the
configuration file stands in the directory in which libconfig looks for what it includes. -/
theorem pathDirname_iff :
    (∀ path, (pathNames (pathDirname (some path)) = (pathNames path).dropLast ↔
      pathNames path = [] ∨ lastPiece path ≠ [] ∧ lastPiece path ≠ lit ".") ∧
      absolute (pathDirname (some path)) = absolute path) ∧
    ∀ env path, getConfigPath env (some cfgFilename) = some path →
      pathNames path = pathNames (pathDirname (some path)) ++ [cfgFilename] := by
  refine ⟨fun path => ?_, fun env path h => ?_⟩
  · obtain ⟨hnames, habsolute⟩ := pathNames_dirname path
    refine ⟨?_, habsolute⟩
    rw [pathNames_piece (lastPiece_names path)] at hnames
    rw [hnames]
    split_ifs with hpiece
    · rw [List.append_nil, ← not_or]
      constructor
      · intro hsame
        have hlen := congrArg List.length hsame
        rw [List.length_dropLast] at hlen
        exact .inl (List.length_eq_zero_iff.mp (by omega))
      · rintro (hnil | hname)
        · rw [hnil]
          rfl
        · exact absurd hpiece hname
    · rw [List.dropLast_concat]
      exact iff_of_true rfl (.inr (not_or.mp hpiece))
  · rw [(pathNames_dirname path).1, getConfigPath_append h]
    refine congrArg (pathNames (pathDirname (some path)) ++ ·) ?_
    decide +kernel

end Slstatus
