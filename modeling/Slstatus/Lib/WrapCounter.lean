import Mathlib.Data.List.Basic

/-! A clock that counts modulo `M` and a task that is due whenever its period divides
the clock. The task keeps its period over the wrap only if the period divides `M`. -/

namespace WrapCounter

/-- Two occurrences before `n` that follow one another are `k` apart. -/
def Spaced (k n : Nat) (p : Nat → Prop) : Prop :=
  ∀ t t', t < t' → t' < n → p t → p t' → (∀ u, t < u → u < t' → ¬ p u) → t' = t + k

variable {k n M : Nat} {p q : Nat → Prop}

theorem Spaced.congr (h : Spaced k n p) (hpq : ∀ t < n, q t ↔ p t) : Spaced k n q := by
  intro t t' hlt hn ht ht' hbetween
  refine h t t' hlt hn ((hpq t (Nat.lt_trans hlt hn)).mp ht) ((hpq t' hn).mp ht') ?_
  intro u hu hu' hpu
  exact hbetween u hu hu' ((hpq u (Nat.lt_trans hu' hn)).mpr hpu)

theorem spaced_dvd (hk : 0 < k) : Spaced k n (k ∣ ·) := by
  intro t t' hlt _ ht ht' hbetween
  have hstep : k ≤ t' - t := Nat.le_of_dvd (Nat.sub_pos_of_lt hlt) (Nat.dvd_sub ht' ht)
  by_contra hne
  have hnext : k ∣ t + k := Nat.dvd_add ht (Nat.dvd_refl k)
  exact hbetween (t + k) (by omega) (by omega) hnext

theorem dvd_mod_iff (h : n ≤ M ∨ k ∣ M) {t : Nat} (ht : t < n) : k ∣ t % M ↔ k ∣ t := by
  rcases h with hle | hdvd
  · rw [Nat.mod_eq_of_lt (Nat.lt_of_lt_of_le ht hle)]
  · exact Nat.dvd_mod_iff hdvd

theorem dvd_of_due_at_wrap (hn : M < n) (h : ∀ t < n, k ∣ t % M ↔ k ∣ t) : k ∣ M := by
  have hzero : k ∣ M % M := by
    rw [Nat.mod_self]
    exact Nat.dvd_zero k
  exact (h M hn).mp hzero

/-- The last time the task is due before the wrap and the wrap itself follow one another. -/
theorem dvd_of_spaced (hk : 0 < k) (hM : 0 < M) (hn : M < n)
    (h : Spaced k n (fun t => k ∣ t % M)) : k ∣ M := by
  have hdecomp := Nat.div_add_mod' (M - 1) k
  have hrem : (M - 1) % k < k := Nat.mod_lt _ hk
  have hlast : (M - 1) / k * k < M := by omega
  have hdue : k ∣ (M - 1) / k * k % M := by
    rw [Nat.mod_eq_of_lt hlast]
    exact Nat.dvd_mul_left k _
  have hwrap : k ∣ M % M := by
    rw [Nat.mod_self]
    exact Nat.dvd_zero k
  have hgap : M = (M - 1) / k * k + k := by
    refine h _ M hlast hn hdue hwrap ?_
    intro u hu hu' hdvd
    rw [Nat.mod_eq_of_lt hu'] at hdvd
    have hle := Nat.le_of_dvd (Nat.sub_pos_of_lt hu) (Nat.dvd_sub hdvd (Nat.dvd_mul_left k _))
    omega
  rw [hgap]
  exact Nat.dvd_add (Nat.dvd_mul_left k _) (Nat.dvd_refl k)

theorem dvd_mod_iff_iff : (∀ t < n, k ∣ t % M ↔ k ∣ t) ↔ n ≤ M ∨ k ∣ M := by
  constructor
  · intro h
    by_cases hn : n ≤ M
    · exact .inl hn
    · exact .inr (dvd_of_due_at_wrap (Nat.lt_of_not_le hn) h)
  · intro h t ht
    exact dvd_mod_iff h ht

theorem spaced_iff (hk : 0 < k) (hM : 0 < M) :
    Spaced k n (fun t => k ∣ t % M) ↔ n ≤ M ∨ k ∣ M := by
  constructor
  · intro h
    by_cases hn : n ≤ M
    · exact .inl hn
    · exact .inr (dvd_of_spaced hk hM (Nat.lt_of_not_le hn) h)
  · intro h
    exact (spaced_dvd hk).congr (fun t ht => dvd_mod_iff h ht)

/-- The last time up to `n` at which the task was due. -/
def latest (k M n : Nat) : Nat := n - n % M % k

theorem latest_le (k M n : Nat) : latest k M n ≤ n := Nat.sub_le n _

theorem lt_latest_add (hk : 0 < k) : n < latest k M n + k := by
  have hrem : n % M % k < k := Nat.mod_lt _ hk
  rw [latest]
  omega

/-- The clock has not wrapped in the last `n % M` steps. -/
theorem sub_mod_of_le {d : Nat} (hM : 0 < M) (hd : d ≤ n % M) : (n - d) % M = n % M - d := by
  have hdecomp := Nat.div_add_mod n M
  have hsplit : n - d = n % M - d + M * (n / M) := by omega
  rw [hsplit, Nat.add_mul_mod_self_left]
  exact Nat.mod_eq_of_lt (Nat.lt_of_le_of_lt (Nat.sub_le _ d) (Nat.mod_lt n hM))

theorem due_latest (hM : 0 < M) : k ∣ latest k M n % M := by
  rw [latest, sub_mod_of_le hM (Nat.mod_le _ _)]
  exact Nat.dvd_sub_mod _

theorem not_due_after_latest (hk : 0 < k) (hM : 0 < M) {u : Nat} (hu : latest k M n < u)
    (hn : u ≤ n) : ¬ k ∣ u % M := by
  intro hdvd
  have hrem : n % M % k < k := Nat.mod_lt _ hk
  have hle : n % M % k ≤ n % M := Nat.mod_le _ _
  have hlatest : latest k M n = n - n % M % k := rfl
  obtain ⟨d, rfl⟩ : ∃ d, u = n - d := ⟨n - u, by omega⟩
  have hd : d < n % M % k := by omega
  rw [sub_mod_of_le hM (by omega)] at hdvd
  have hgap := Nat.le_of_dvd (by omega) (Nat.dvd_sub hdvd (Nat.dvd_sub_mod (n := k) (n % M)))
  omega

end WrapCounter
