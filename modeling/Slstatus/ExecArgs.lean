import Mathlib.Data.List.Forall2
import Slstatus.Basic
import Slstatus.Lib.CInt
import Slstatus.Lib.Tokens

/-! `run_exec` up to the call of `posix_spawnp`: the command is split at spaces into an
array of ten pointers. -/

namespace Slstatus

/-- A cell of `argv`. -/
inductive ArgvCell
  | unset
  | null
  | string (s : Bytes)

def blank (c : UInt8) : Bool := c = 32

/-- The copy of a token. The size that `malloc` and `snprintf` get is an int. -/
def execArg (homeDir : Option Bytes) (token : Bytes) : Except Fault Bytes :=
  if (lit "~/").isPrefixOf token then
    match homeDir with
    | none => .error .nullPointer
    | some home =>
      let argl := CInt.Ty.int.wrap (home.length + token.length : Nat)
      -- no allocation has the size that a negative number becomes
      if argl < 0 then .error .nullPointer
      else if argl = 0 then .error .outOfBounds
      else .ok ((home ++ token.drop 1).take (argl.toNat - 1))
  else .ok token

def setArg (argv : List ArgvCell) (i : Nat) (a : ArgvCell) : Except Fault (List ArgvCell) :=
  if i < argv.length then .ok (argv.set i a) else .error .outOfBounds

def argLoop (homeDir : Option Bytes) (exec : Bytes) (argc : Nat) (argv : List ArgvCell) :
    Except Fault (List ArgvCell) :=
  match _h : Tokens.strtok blank exec with
  | none => setArg argv argc .null
  | some (token, rest) =>
    if argc < 9 then
      match execArg homeDir token with
      | .error f => .error f
      | .ok s =>
        match setArg argv argc (.string s) with
        | .error f => .error f
        | .ok argv => argLoop homeDir rest (argc + 1) argv
    else setArg argv argc .null
termination_by exec.length
decreasing_by exact (Tokens.strtok_eq_some _h).2.2.2

def execArgv (homeDir : Option Bytes) (cmd : Bytes) : Except Fault (List ArgvCell) :=
  argLoop homeDir cmd 0 (List.replicate 10 .unset)

def expandHome (home token : Bytes) : Bytes :=
  if (lit "~/").isPrefixOf token then home ++ 47 :: token.drop 2 else token

/-- The first nine tokens, each whole and with the home directory in place, and a NULL
inside the array. -/
def ArgvLaw (home cmd : Bytes) (result : Except Fault (List ArgvCell)) : Prop :=
  ∃ rest, result =
      .ok (((Tokens.tokens blank cmd).take 9).map (fun t => .string (expandHome home t)) ++
        .null :: rest) ∧
    ((Tokens.tokens blank cmd).take 9).length + 1 + rest.length = 10

section Loop

variable {homeDir : Option Bytes} {exec : Bytes} {argc : Nat} {argv out : List ArgvCell}

theorem setArg_eq {a : ArgvCell} (h : argc < argv.length) :
    setArg argv argc a = .ok (argv.take argc ++ a :: argv.drop (argc + 1)) := by
  rw [setArg, if_pos h, List.set_eq_take_append_cons_drop, if_pos h]

/-- The array when the loop has ended: what was in it, the copies, and the NULL. -/
def argvAfter (argv : List ArgvCell) (argc : Nat) (args : List Bytes) : List ArgvCell :=
  argv.take argc ++ args.map .string ++ .null :: argv.drop (argc + args.length + 1)

theorem setArg_null (h : argc < argv.length) : setArg argv argc .null = .ok (argvAfter argv argc []) := by
  rw [setArg_eq h, argvAfter, List.map_nil, List.append_nil, List.length_nil, Nat.add_zero]

theorem argvAfter_step (h : argc < argv.length) (s : Bytes) (args : List Bytes) :
    argvAfter (argv.take argc ++ .string s :: argv.drop (argc + 1)) (argc + 1) args =
      argvAfter argv argc (s :: args) := by
  have hhead : (argv.take argc).length = argc := by
    rw [List.length_take]
    omega
  have htake : (argv.take argc ++ .string s :: argv.drop (argc + 1)).take (argc + 1) =
      argv.take argc ++ [.string s] := by
    rw [List.take_append, hhead, List.take_of_length_le (by omega), Nat.add_sub_cancel_left]
    rfl
  have hdrop : (argv.take argc ++ .string s :: argv.drop (argc + 1)).drop
      (argc + 1 + args.length + 1) = argv.drop (argc + (args.length + 1) + 1) := by
    rw [List.drop_append, hhead, List.drop_eq_nil_of_le (by omega), List.nil_append,
      show argc + 1 + args.length + 1 - argc = args.length + 1 + 1 by omega, List.drop_succ_cons,
      List.drop_drop]
    congr 1
    omega
  simp only [argvAfter, htake, hdrop, List.append_assoc, List.map_cons, List.length_cons,
    List.cons_append, List.nil_append]

theorem argLoop_eq_ok_iff (hlen : argv.length = 10) (hargc : argc ≤ 9) :
    argLoop homeDir exec argc argv = .ok out ↔
      ∃ args, List.Forall₂ (fun t s => execArg homeDir t = .ok s)
          ((Tokens.tokens blank exec).take (9 - argc)) args ∧ out = argvAfter argv argc args := by
  fun_induction argLoop homeDir exec argc argv with
  | case1 exec argc argv hnext =>
    rw [Tokens.strtok_eq_none hnext, setArg_null (by omega)]
    simp [eq_comm]
  | case2 exec argc argv token rest hnext hlt f harg =>
    obtain ⟨-, -, htokens, -⟩ := Tokens.strtok_eq_some hnext
    have hleft : 9 - argc = 9 - (argc + 1) + 1 := by omega
    rw [htokens, hleft, List.take_succ_cons]
    simp [List.forall₂_cons_left_iff, harg]
  | case3 exec argc argv token rest hnext hlt s harg f hset =>
    rw [setArg_eq (by omega)] at hset
    cases hset
  | case4 exec argc argv token rest hnext hlt s harg argv' hset ih =>
    obtain ⟨-, -, htokens, -⟩ := Tokens.strtok_eq_some hnext
    have hleft : 9 - argc = 9 - (argc + 1) + 1 := by omega
    rw [setArg_eq (by omega)] at hset
    obtain rfl := Except.ok.inj hset
    have hlen' : (argv.take argc ++ .string s :: argv.drop (argc + 1)).length = 10 := by
      rw [List.length_append, List.length_take, List.length_cons, List.length_drop]
      omega
    rw [htokens, hleft, List.take_succ_cons]
    refine (ih hlen' (by omega)).trans ⟨?_, ?_⟩
    · intro hex
      obtain ⟨args, hall, rfl⟩ := hex
      exact ⟨s :: args, .cons harg hall, argvAfter_step (by omega) s args⟩
    · intro hex
      obtain ⟨args, hcons, rfl⟩ := hex
      obtain ⟨s', args, hs', hall, rfl⟩ := List.forall₂_cons_left_iff.mp hcons
      obtain rfl := Except.ok.inj (harg.symm.trans hs')
      exact ⟨args, hall, (argvAfter_step (by omega) s args).symm⟩
  | case5 exec argc argv token rest hnext hge =>
    have hfull : 9 - argc = 0 := by omega
    rw [hfull, List.take_zero, setArg_null (by omega)]
    simp [eq_comm]

end Loop

section Expand

variable {home cmd token : Bytes}

theorem execArg_home (home u : Bytes) : execArg (some home) (126 :: 47 :: u) =
    let argl := CInt.Ty.int.wrap (home.length + u.length + 2 : Nat)
    if argl < 0 then .error .nullPointer
    else if argl = 0 then .error .outOfBounds
    else .ok ((home ++ 47 :: u).take (argl.toNat - 1)) := by
  have htilde : (lit "~/").isPrefixOf (126 :: 47 :: u) = true :=
    List.isPrefixOf_iff_prefix.mpr ⟨u, rfl⟩
  rw [execArg, if_pos htilde]
  rfl

theorem execArg_eq_iff : execArg (some home) token = .ok (expandHome home token) ↔
    (lit "~/" <+: token → home.length + token.length < 2 ^ 31) := by
  by_cases htilde : (lit "~/").isPrefixOf token = true
  · have hstart := List.isPrefixOf_iff_prefix.mp htilde
    rw [forall_prop_of_true hstart]
    obtain ⟨u, rfl⟩ : ∃ u, token = 126 :: 47 :: u := by
      obtain ⟨u, hu⟩ := hstart
      exact ⟨u, hu.symm⟩
    have hexpand : expandHome home (126 :: 47 :: u) = home ++ 47 :: u := by
      rw [expandHome, if_pos htilde]
      rfl
    have hfull : (home ++ 47 :: u).length = home.length + u.length + 1 := by
      rw [List.length_append, List.length_cons]
      omega
    have hlen : (126 :: 47 :: u : Bytes).length = u.length + 2 := rfl
    have hint := CInt.Ty.int.wrap_holds (home.length + u.length + 2 : Nat)
    rw [execArg_home, hexpand, hlen]
    constructor
    · intro h
      dsimp only at h
      split_ifs at h with hneg hzero
      -- a size that wrapped around is smaller than the text
      have htake := congrArg List.length (Except.ok.inj h)
      rw [List.length_take, hfull] at htake
      have hlt := hint.2
      simp only [CInt.Ty.hi] at hlt
      omega
    · intro h
      have hholds : CInt.Ty.int.Holds (home.length + u.length + 2 : Nat) :=
        CInt.Ty.holds_nat.mpr (by simp only [CInt.Ty.hi]; omega)
      rw [CInt.Ty.wrap_of_holds hholds]
      dsimp only
      rw [if_neg (by omega), if_neg (by omega), List.take_of_length_le (by omega)]
  · have hno : ¬ lit "~/" <+: token := fun h => htilde (List.isPrefixOf_iff_prefix.mpr h)
    simp [execArg, expandHome, htilde, hno]

theorem argvAfter_start (args : List Bytes) : argvAfter (List.replicate 10 .unset) 0 args =
    args.map .string ++ .null :: List.replicate (9 - args.length) .unset := by
  simp only [argvAfter, List.take_zero, List.nil_append, List.drop_replicate]
  congr 3
  omega

theorem argvLaw_iff : ArgvLaw home cmd (execArgv (some home) cmd) ↔
    ∀ token ∈ (Tokens.tokens blank cmd).take 9,
      execArg (some home) token = .ok (expandHome home token) := by
  have hrun : ∀ out, execArgv (some home) cmd = .ok out ↔
      ∃ args, List.Forall₂ (fun t s => execArg (some home) t = .ok s)
        ((Tokens.tokens blank cmd).take 9) args ∧
        out = args.map .string ++ .null :: List.replicate (9 - args.length) .unset := by
    intro out
    simp only [← argvAfter_start]
    exact argLoop_eq_ok_iff List.length_replicate (by omega)
  constructor
  · intro hlaw
    obtain ⟨rest, hargv, -⟩ := hlaw
    obtain ⟨args, hall, hout⟩ := (hrun _).mp hargv
    obtain ⟨hargs, -⟩ := List.append_inj hout (by simpa using hall.length_eq)
    have hinj : Function.Injective (List.map ArgvCell.string) :=
      List.map_injective_iff.mpr (fun a b h => ArgvCell.string.inj h)
    have hmap : ((Tokens.tokens blank cmd).take 9).map (expandHome home) = args :=
      hinj (by rw [List.map_map]; exact hargs)
    subst hmap
    rw [List.forall₂_map_right_iff, List.forall₂_same] at hall
    exact hall
  · intro hall
    have hargs : List.Forall₂ (fun t s => execArg (some home) t = .ok s)
        ((Tokens.tokens blank cmd).take 9)
        (((Tokens.tokens blank cmd).take 9).map (expandHome home)) := by
      rw [List.forall₂_map_right_iff, List.forall₂_same]
      exact hall
    refine ⟨_, (hrun _).mpr ⟨_, hargs, by rw [List.map_map]; rfl⟩, ?_⟩
    simp only [List.length_replicate, List.length_map, List.length_take]
    omega

end Expand

/-- The vector holds the tokens as they are meant exactly when no size of a copy leaves the
range of int. -/
theorem exec_args_iff (home cmd : Bytes) :
    ArgvLaw home cmd (execArgv (some home) cmd) ↔
      ∀ token ∈ (Tokens.tokens blank cmd).take 9,
        lit "~/" <+: token → home.length + token.length < 2 ^ 31 := by
  rw [argvLaw_iff]
  exact forall₂_congr (fun token _ => execArg_eq_iff)

/-- A path of more than 2 GiB below the home directory. -/
theorem exec_args_overflow :
    ¬ ArgvLaw (lit "/root") (126 :: 47 :: List.replicate (2 ^ 31) 97)
      (execArgv (some (lit "/root")) (126 :: 47 :: List.replicate (2 ^ 31) 97)) := by
  intro hlaw
  have hword : ∀ c ∈ (126 :: 47 :: List.replicate (2 ^ 31) 97 : Bytes), blank c = false := by
    intro c hc
    rw [List.mem_cons, List.mem_cons, List.mem_replicate] at hc
    rcases hc with rfl | rfl | ⟨-, rfl⟩ <;> rfl
  rw [argvLaw_iff, Tokens.tokens_word hword (List.cons_ne_nil _ _)] at hlaw
  have hlt := execArg_eq_iff.mp (hlaw _ List.mem_cons_self) ⟨List.replicate (2 ^ 31) 97, rfl⟩
  rw [List.length_cons, List.length_cons, List.length_replicate] at hlt
  omega

end Slstatus
