import Mathlib.Algebra.Group.Int.Defs
import Mathlib.Algebra.Group.Nat.Defs
import Mathlib.Tactic.SplitIfs

/-! Integer arithmetic of C where `int` has 32 bits and `long` 64. A value carries its
type. An operation is done in the common type of its operands; there an unsigned result
wraps around, and a signed one that does not fit is undefined. -/

namespace CInt

inductive Ty
  | int | uint | long | ulong
  deriving DecidableEq

inductive Undefined
  | overflow | divByZero
  deriving DecidableEq

namespace Ty

def lo : Ty → Int
  | int => -2 ^ 31
  | long => -2 ^ 63
  | _ => 0

/-- The first number above the type. -/
def hi : Ty → Int
  | int => 2 ^ 31
  | uint => 2 ^ 32
  | long => 2 ^ 63
  | ulong => 2 ^ 64

def size : Ty → Int
  | int | uint => 2 ^ 32
  | _ => 2 ^ 64

def signed : Ty → Bool
  | int | long => true
  | _ => false

def Holds (t : Ty) (z : Int) : Prop := t.lo ≤ z ∧ z < t.hi

instance (t : Ty) (z : Int) : Decidable (t.Holds z) := inferInstanceAs (Decidable (_ ∧ _))

/-- The number of the type that is `z` modulo the size of the type. -/
def wrap (t : Ty) (z : Int) : Int := t.lo + (z - t.lo) % t.size

def common : Ty → Ty → Ty
  | ulong, _ | _, ulong => ulong
  | long, _ | _, long => long
  | uint, _ | _, uint => uint
  | int, int => int

theorem wrap_holds (t : Ty) (z : Int) : t.Holds (t.wrap z) := by
  cases t <;> simp only [Holds, wrap, lo, hi, size] <;> omega

theorem wrap_of_holds {t : Ty} {z : Int} (h : t.Holds z) : t.wrap z = z := by
  cases t <;> simp only [Holds, wrap, lo, hi, size] at h ⊢ <;> omega

theorem holds_common_left {t u : Ty} {z : Int} (h : t.Holds z) (h0 : 0 ≤ z) :
    (common t u).Holds z := by
  cases t <;> cases u <;> simp only [Holds, common, lo, hi] at h ⊢ <;> omega

theorem common_comm (t u : Ty) : common t u = common u t := by
  cases t <;> cases u <;> rfl

theorem holds_common_right {t u : Ty} {z : Int} (h : u.Holds z) (h0 : 0 ≤ z) :
    (common t u).Holds z := common_comm u t ▸ holds_common_left h h0

theorem holds_of_le {t : Ty} {x z : Int} (h : t.Holds z) (hx : 0 ≤ x) (hle : x ≤ z) : t.Holds x := by
  cases t <;> simp only [Holds, lo, hi] at h ⊢ <;> omega

end Ty

structure Val where
  ty : Ty
  z : Int
  holds : ty.Holds z

def int (z : Int) : Val := ⟨.int, Ty.int.wrap z, Ty.int.wrap_holds z⟩

def convert (t : Ty) (v : Val) : Val := ⟨t, t.wrap v.z, t.wrap_holds v.z⟩

def result (t : Ty) (z : Int) : Except Undefined Val :=
  if h : t.Holds z then .ok ⟨t, z, h⟩
  else if t.signed then .error .overflow
  else .ok ⟨t, t.wrap z, t.wrap_holds z⟩

def arith (op : Int → Int → Int) (a b : Val) : Except Undefined Val :=
  let t := Ty.common a.ty b.ty
  result t (op (t.wrap a.z) (t.wrap b.z))

def add := arith (· + ·)

def sub := arith (· - ·)

def mul := arith (· * ·)

def div (a b : Val) : Except Undefined Val :=
  let t := Ty.common a.ty b.ty
  if t.wrap b.z = 0 then .error .divByZero else result t ((t.wrap a.z).tdiv (t.wrap b.z))

/-- `a << n`, which for a signed type is undefined on a negative number. -/
def shl (a : Val) (n : Nat) : Except Undefined Val :=
  if a.ty.signed ∧ a.z < 0 then .error .overflow else result a.ty (a.z * 2 ^ n)

/-- `a >> n`, which rounds down. -/
def shr (a : Val) (n : Nat) : Except Undefined Val := result a.ty (a.z / 2 ^ n)

section Exact

variable {op : Int → Int → Int} {a b : Val}

theorem int_eq {z : Int} (h : Ty.int.Holds z) : int z = ⟨.int, z, h⟩ := by
  simp only [int, Ty.wrap_of_holds h]

theorem result_of_holds {t : Ty} {z : Int} (h : t.Holds z) : result t z = .ok ⟨t, z, h⟩ := dif_pos h

theorem arith_eq (ha : (Ty.common a.ty b.ty).Holds a.z) (hb : (Ty.common a.ty b.ty).Holds b.z) :
    arith op a b = result (Ty.common a.ty b.ty) (op a.z b.z) := by
  simp only [arith, Ty.wrap_of_holds ha, Ty.wrap_of_holds hb]

theorem div_eq (ha : (Ty.common a.ty b.ty).Holds a.z) (hb : (Ty.common a.ty b.ty).Holds b.z) :
    div a b = if b.z = 0 then .error .divByZero
      else result (Ty.common a.ty b.ty) (a.z.tdiv b.z) := by
  simp only [div, Ty.wrap_of_holds ha, Ty.wrap_of_holds hb]

theorem div_zero {u : Ty} (h : u.Holds 0) : div a ⟨u, 0, h⟩ = .error .divByZero := by
  have hzero : (Ty.common a.ty u).Holds 0 := Ty.holds_common_right h (Int.le_refl 0)
  simp only [div, Ty.wrap_of_holds hzero, if_true]

/-- An unsigned result that does not fit loses multiples of the size of the type. -/
theorem result_of_unsigned {t : Ty} {z : Nat} (hsigned : t.signed = false) (hz : ¬ t.Holds z) :
    ∃ size : Nat, t.hi = size ∧ 0 < size ∧ size ≤ z ∧ ∃ h, result t z = .ok ⟨t, (z % size : Nat), h⟩ := by
  obtain ⟨size, hpos, hlo, hhi, hsize⟩ :
      ∃ size : Nat, 0 < size ∧ t.lo = 0 ∧ t.hi = size ∧ t.size = size := by
    cases t with
    | int => cases hsigned
    | long => cases hsigned
    | uint => exact ⟨2 ^ 32, by decide, rfl, rfl, rfl⟩
    | ulong => exact ⟨2 ^ 64, by decide, rfl, rfl, rfl⟩
  have hwrap : t.wrap z = (z % size : Nat) := by
    rw [Ty.wrap, hlo, hsize, Int.sub_zero, Int.zero_add, Int.natCast_emod]
  refine ⟨size, hhi, hpos, ?_, hwrap ▸ t.wrap_holds z, ?_⟩
  · rw [Ty.Holds, hlo, hhi] at hz
    omega
  · rw [result, dif_neg hz, if_neg (by simp [hsigned])]
    simp only [hwrap]

theorem shl_eq {n : Nat} (h0 : 0 ≤ a.z) : shl a n = result a.ty (a.z * 2 ^ n) := by
  rw [shl, if_neg]
  omega

theorem convert_eq {t : Ty} (h : t.Holds a.z) : convert t a = ⟨t, a.z, h⟩ := by
  simp only [convert, Ty.wrap_of_holds h]

theorem ok_bind {v : Val} {f : Val → Except Undefined Val} : (Except.ok v >>= f) = f v := rfl

/-- The expression is defined, and has this type and value. -/
def Gives (e : Except Undefined Val) (t : Ty) (z : Int) : Prop := ∃ h, e = .ok ⟨t, z, h⟩

variable {e : Except Undefined Val} {f : Val → Except Undefined Val} {t u : Ty} {x y z : Int}
  {hx : t.Holds x} {hy : u.Holds y}

theorem Gives.bind (he : Gives e t x) (hf : ∀ h, Gives (f ⟨t, x, h⟩) u z) : Gives (e >>= f) u z := by
  obtain ⟨h, rfl⟩ := he
  exact hf h

theorem gives_arith (hx' : (Ty.common t u).Holds x) (hy' : (Ty.common t u).Holds y)
    (h : (Ty.common t u).Holds (op x y)) :
    Gives (arith op ⟨t, x, hx⟩ ⟨u, y, hy⟩) (Ty.common t u) (op x y) :=
  ⟨h, (arith_eq (a := ⟨t, x, hx⟩) (b := ⟨u, y, hy⟩) hx' hy').trans (result_of_holds h)⟩

theorem gives_div (hx' : (Ty.common t u).Holds x) (hy' : (Ty.common t u).Holds y) (h0 : 0 ≤ x)
    (hpos : 0 < y) : Gives (div ⟨t, x, hx⟩ ⟨u, y, hy⟩) (Ty.common t u) (x / y) := by
  have hquot : x.tdiv y = x / y := Int.tdiv_eq_ediv_of_nonneg h0
  have h : (Ty.common t u).Holds (x / y) :=
    Ty.holds_of_le hx' (Int.ediv_nonneg h0 (Int.le_of_lt hpos)) (Int.ediv_le_self y h0)
  have hne : ¬ y = 0 := by omega
  refine ⟨h, ?_⟩
  rw [div_eq (a := ⟨t, x, hx⟩) (b := ⟨u, y, hy⟩) hx' hy', if_neg hne, hquot, result_of_holds h]

end Exact

/-! Natural numbers, which every type keeps that can hold them. -/
section Naturals

variable {t u : Ty} {m n : Nat}

theorem Ty.holds_nat : t.Holds n ↔ (n : Int) < t.hi := by
  cases t <;> simp only [Holds, lo, hi] <;> omega

theorem add_nat (hm : t.Holds m) (hn : t.Holds n) (h : t.Holds (m + n : Nat)) :
    add ⟨t, m, hm⟩ ⟨t, n, hn⟩ = .ok ⟨t, (m + n : Nat), h⟩ := by
  have hself : Ty.common t t = t := by cases t <;> rfl
  have hadd : add ⟨t, m, hm⟩ ⟨t, n, hn⟩ = result (Ty.common t t) (m + n : Nat) :=
    arith_eq (a := ⟨t, m, hm⟩) (b := ⟨t, n, hn⟩) (hself.symm ▸ hm) (hself.symm ▸ hn)
  rw [hadd, hself, result_of_holds h]

theorem sub_nat (hm : t.Holds m) (hn : t.Holds n) (hle : n ≤ m) :
    ∃ h, sub ⟨t, m, hm⟩ ⟨t, n, hn⟩ = .ok ⟨t, (m - n : Nat), h⟩ := by
  have hself : Ty.common t t = t := by cases t <;> rfl
  have hsub : sub ⟨t, m, hm⟩ ⟨t, n, hn⟩ = result (Ty.common t t) (m - n) :=
    arith_eq (a := ⟨t, m, hm⟩) (b := ⟨t, n, hn⟩) (hself.symm ▸ hm) (hself.symm ▸ hn)
  have h : t.Holds (m - n : Nat) := Ty.holds_of_le hm (by omega) (by omega)
  rw [hsub, hself, ← Int.ofNat_sub hle, result_of_holds h]
  exact ⟨h, rfl⟩

theorem mul_nat (hm : t.Holds m) (hn : u.Holds n) :
    mul ⟨t, m, hm⟩ ⟨u, n, hn⟩ = result (Ty.common t u) (m * n : Nat) :=
  arith_eq (a := ⟨t, m, hm⟩) (b := ⟨u, n, hn⟩) (Ty.holds_common_left hm (Int.natCast_nonneg m))
    (Ty.holds_common_right hn (Int.natCast_nonneg n))

theorem shr_nat (hm : t.Holds m) {k : Nat} :
    ∃ h, shr ⟨t, m, hm⟩ k = .ok ⟨t, (m / 2 ^ k : Nat), h⟩ := by
  have h : t.Holds (m / 2 ^ k : Nat) :=
    Ty.holds_of_le hm (Int.natCast_nonneg _) (by exact_mod_cast Nat.div_le_self m (2 ^ k))
  refine ⟨h, ?_⟩
  rw [← result_of_holds h]
  simp only [shr, Int.natCast_ediv, Int.natCast_pow]
  rfl

end Naturals

/-! Numbers that are known modulo the size of their type. -/
section Wrapped

/-- What a variable of the type holds of a number. -/
def of (t : Ty) (z : Int) : Val := ⟨t, t.wrap z, t.wrap_holds z⟩

variable {t u : Ty} {op : Int → Int → Int} {x y z : Int}

theorem of_congr (h : t.wrap x = t.wrap y) : of t x = of t y := by
  simp only [of, h]

theorem of_eq (h : t.Holds z) : of t z = ⟨t, z, h⟩ := by
  simp only [of, Ty.wrap_of_holds h]

theorem result_eq_of (h : t.signed = true → t.Holds z) : result t z = .ok (of t z) := by
  by_cases hz : t.Holds z
  · rw [result_of_holds hz, of_eq hz]
  · cases hs : t.signed with
    | true => exact absurd (h hs) hz
    | false => simp [result, hz, hs, of]

/-- Wrapping around commutes with the operation, and a signed result has to fit. -/
theorem arith_of (hop : ∀ n a b : Int, op (a % n) (b % n) % n = op a b % n)
    (hcommon : Ty.common u t = t) (hx : t.wrap (u.wrap x) = t.wrap x)
    (h : t.signed = true → t.Holds x ∧ t.Holds y ∧ t.Holds (op x y)) :
    arith op (of u x) (of t y) = .ok (of t (op x y)) := by
  have hrun : arith op (of u x) (of t y) = result t (op (t.wrap x) (t.wrap y)) := by
    simp only [arith, of, hcommon, hx, Ty.wrap_of_holds (t.wrap_holds y)]
  cases hs : t.signed with
  | true =>
    obtain ⟨hx', hy', hz⟩ := h hs
    rw [hrun, Ty.wrap_of_holds hx', Ty.wrap_of_holds hy', result_eq_of (fun _ => hz)]
  | false =>
    have hlo : ∀ z, t.wrap z = z % t.size := by
      intro z
      cases t <;> simp_all [Ty.wrap, Ty.lo, Ty.signed]
    rw [hrun, result_eq_of (by simp [hs])]
    refine congrArg Except.ok (of_congr ?_)
    rw [hlo, hlo, hlo, hlo, hop]

theorem common_self (t : Ty) : Ty.common t t = t := by cases t <;> rfl

theorem add_of (h : t.signed = true → t.Holds x ∧ t.Holds y ∧ t.Holds (x + y)) :
    add (of t x) (of t y) = .ok (of t (x + y)) :=
  arith_of (fun n a b => (Int.add_emod a b n).symm) (common_self t)
    (Ty.wrap_of_holds (t.wrap_holds x)) h

theorem sub_of (h : t.signed = true → t.Holds x ∧ t.Holds y ∧ t.Holds (x - y)) :
    sub (of t x) (of t y) = .ok (of t (x - y)) :=
  arith_of (fun n a b => (Int.sub_emod a b n).symm) (common_self t)
    (Ty.wrap_of_holds (t.wrap_holds x)) h

end Wrapped
example : mul (int 3000000) (int 1024) = .error .overflow := by rfl

end CInt
