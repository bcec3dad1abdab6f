import Mathlib.Algebra.Order.Group.Multiset
import Slstatus.Lib.KeyedList

/-! Programs that allocate and free blocks of memory, and rules for what they own. A triple
says which blocks a program is given and which it leaves; all other blocks are its frame,
and it neither uses nor changes them. Freeing a block twice and using a freed block are
errors. -/

namespace Alloc

variable {α β γ : Type}

abbrev Block (α : Type) := Nat × α

/-- The blocks in use. An address that has been freed is not given out again. -/
structure Heap (α : Type) where
  blocks : List (Block α)
  fresh : Nat
  unique : KeyedList.Unique Prod.fst blocks
  below : ∀ b ∈ blocks, b.1 < fresh

def Heap.empty : Heap α := ⟨[], 0, List.nodup_nil, by simp⟩

inductive Misuse
  | badFree
  | badAccess
  deriving DecidableEq

abbrev Prog (α β : Type) := StateT (Heap α) (Except Misuse) β

theorem Heap.fresh_not_mem (h : Heap α) : h.fresh ∉ h.blocks.map Prod.fst := by
  intro hmem
  obtain ⟨b, hb, heq⟩ := List.mem_map.mp hmem
  exact absurd (h.below b hb) (heq ▸ Nat.lt_irrefl _)

def Heap.add (h : Heap α) (x : α) : Heap α where
  blocks := (h.fresh, x) :: h.blocks
  fresh := h.fresh + 1
  unique := h.unique.cons h.fresh_not_mem
  below := by
    intro b hb
    rcases List.mem_cons.mp hb with rfl | hb
    · exact Nat.lt_succ_self _
    · exact Nat.lt_succ_of_lt (h.below b hb)

def Heap.remove (h : Heap α) (p : Nat) : Heap α where
  blocks := KeyedList.erase Prod.fst p h.blocks
  fresh := h.fresh
  unique := h.unique.erase p
  below b hb := h.below b (List.mem_of_mem_eraseP hb)

def Heap.replace (h : Heap α) (p : Nat) (x : α) (hp : p ∈ h.blocks.map Prod.fst) : Heap α where
  blocks := (p, x) :: KeyedList.erase Prod.fst p h.blocks
  fresh := h.fresh
  unique := h.unique.replace (p, x)
  below := by
    intro c hc
    rcases List.mem_cons.mp hc with rfl | hc
    · obtain ⟨b, hb, rfl⟩ := List.mem_map.mp hp
      exact h.below b hb
    · exact h.below c (List.mem_of_mem_eraseP hc)

def malloc (x : α) : Prog α Nat := fun h => .ok (h.fresh, h.add x)

/-- `free`, which does nothing for NULL. -/
def free : Option Nat → Prog α Unit
  | none => pure ()
  | some p => fun h =>
    if p ∈ h.blocks.map Prod.fst then .ok ((), h.remove p) else .error .badFree

def load (p : Nat) : Prog α α := fun h =>
  match KeyedList.lookup Prod.fst h.blocks p with
  | some b => .ok (b.2, h)
  | none => .error .badAccess

def store (p : Nat) (x : α) : Prog α Unit := fun h =>
  if hp : p ∈ h.blocks.map Prod.fst then .ok ((), h.replace p x hp) else .error .badAccess

/-- The blocks in use, as resources: `+` is the separating conjunction. -/
def Heap.contents (h : Heap α) : Multiset (Block α) := (h.blocks : Multiset (Block α))

/-- Given the blocks `pre`, among whatever others, the program ends without misuse, and
leaves a result and blocks as `post` says in place of `pre`. -/
def Triple (pre : Multiset (Block α)) (prog : Prog α β) (post : β → Multiset (Block α) → Prop) :
    Prop :=
  ∀ frame h, h.contents = pre + frame →
    ∃ x h' own, prog.run h = .ok (x, h') ∧ post x own ∧ h'.contents = own + frame

/-- What a pointer owns: a block, or nothing if it is NULL. -/
def owned (x : α) : Option Nat → Multiset (Block α)
  | none => 0
  | some p => {(p, x)}

section Rules

variable {pre r : Multiset (Block α)} {prog : Prog α β} {x y : α} {p : Nat}
  {post post' : β → Multiset (Block α) → Prop}

theorem Triple.pure {b : β} (h : post b pre) : Triple pre (Pure.pure b) post :=
  fun _ heap hpre => ⟨b, heap, pre, rfl, h, hpre⟩

theorem Triple.mono (h : Triple pre prog post) (hpost : ∀ b own, post b own → post' b own) :
    Triple pre prog post' := by
  intro frame heap hpre
  obtain ⟨b, heap', own, hrun, hown, hcontents⟩ := h frame heap hpre
  exact ⟨b, heap', own, hrun, hpost b own hown, hcontents⟩

/-- The program leaves the blocks that it is not given as they are. -/
theorem Triple.frame (h : Triple pre prog post) (r : Multiset (Block α)) :
    Triple (pre + r) prog (fun b own => ∃ own', post b own' ∧ own = own' + r) := by
  intro frame heap hpre
  rw [add_assoc] at hpre
  obtain ⟨b, heap', own, hrun, hown, hcontents⟩ := h (r + frame) heap hpre
  exact ⟨b, heap', own + r, hrun, ⟨own, hown, rfl⟩, by rw [add_assoc, hcontents]⟩

theorem Triple.bind {next : β → Prog α γ} {last : γ → Multiset (Block α) → Prop}
    (h : Triple pre prog post) (hnext : ∀ b own, post b own → Triple own (next b) last) :
    Triple pre (prog >>= next) last := by
  intro frame heap hpre
  obtain ⟨b, heap', own, hrun, hown, hcontents⟩ := h frame heap hpre
  obtain ⟨c, heap'', own', hrun', hlast, hcontents'⟩ := hnext b own hown frame heap' hcontents
  refine ⟨c, heap'', own', ?_, hlast, hcontents'⟩
  rw [StateT.run_bind, hrun]
  exact hrun'

/-- The first program uses `pre` of the blocks, and `r` is left for the next one. -/
theorem Triple.step {all : Multiset (Block α)} {next : β → Prog α γ}
    {last : γ → Multiset (Block α) → Prop} (h : Triple pre prog post)
    (hall : all = pre + r)
    (hnext : ∀ b own, post b own → Triple (own + r) (next b) last) :
    Triple all (prog >>= next) last := by
  rw [hall]
  refine (h.frame r).bind ?_
  rintro b own ⟨own', hown', rfl⟩
  exact hnext b own' hown'

/-- The first program uses none of the blocks. -/
theorem Triple.fresh {next : β → Prog α γ} {last : γ → Multiset (Block α) → Prop}
    (h : Triple 0 prog post) (hnext : ∀ b own, post b own → Triple (own + r) (next b) last) :
    Triple r (prog >>= next) last :=
  h.step (zero_add r).symm hnext

theorem Triple.map {f : β → γ} {last : γ → Multiset (Block α) → Prop} (h : Triple pre prog post)
    (hf : ∀ b own, post b own → last (f b) own) : Triple pre (f <$> prog) last := by
  rw [map_eq_pure_bind]
  exact h.bind (fun b own hown => .pure (hf b own hown))

theorem malloc_triple (x : α) : Triple 0 (malloc x) (fun p own => own = {(p, x)}) :=
  fun frame h hpre => ⟨h.fresh, h.add x, {(h.fresh, x)}, rfl, rfl, by
    rw [zero_add] at hpre
    rw [← hpre]
    rfl⟩

theorem free_null : Triple (α := α) 0 (free none) (fun _ own => own = 0) := Triple.pure rfl

theorem blocks_perm {h : Heap α} {frame : Multiset (Block α)} {b : Block α}
    (hpre : h.contents = {b} + frame) : ∃ l, h.blocks.Perm (b :: l) ∧ (l : Multiset _) = frame := by
  induction frame using Quotient.inductionOn with
  | h l => exact ⟨l, Multiset.coe_eq_coe.mp hpre, rfl⟩

theorem free_triple : Triple {(p, x)} (free (some p)) (fun _ own => own = 0) := by
  intro frame h hpre
  obtain ⟨l, hperm, rfl⟩ := blocks_perm hpre
  have hmem : p ∈ h.blocks.map Prod.fst :=
    List.mem_map_of_mem (hperm.mem_iff.mpr List.mem_cons_self)
  refine ⟨(), h.remove p, 0, if_pos hmem, rfl, ?_⟩
  rw [zero_add]
  exact Multiset.coe_eq_coe.mpr (KeyedList.erase_perm (a := (p, x)) h.unique hperm)

theorem load_triple : Triple {(p, x)} (load p) (fun y own => y = x ∧ own = {(p, x)}) := by
  intro frame h hpre
  obtain ⟨l, hperm, rfl⟩ := blocks_perm hpre
  have hlookup := (KeyedList.mem_iff_lookup h.unique).mp (hperm.mem_iff.mpr List.mem_cons_self)
  refine ⟨x, h, {(p, x)}, ?_, ⟨rfl, rfl⟩, hpre⟩
  show (match KeyedList.lookup Prod.fst h.blocks p with | some b => _ | none => _) = _
  rw [hlookup]

theorem store_triple : Triple {(p, x)} (store p y) (fun _ own => own = {(p, y)}) := by
  intro frame h hpre
  obtain ⟨l, hperm, rfl⟩ := blocks_perm hpre
  have hmem : p ∈ h.blocks.map Prod.fst :=
    List.mem_map_of_mem (hperm.mem_iff.mpr List.mem_cons_self)
  refine ⟨(), h.replace p y hmem, {(p, y)}, dif_pos hmem, rfl, ?_⟩
  exact Multiset.coe_eq_coe.mpr ((KeyedList.erase_perm (a := (p, x)) h.unique hperm).cons (p, y))

variable {next : Nat → Prog α γ} {after : Unit → Prog α γ} {loaded : α → Prog α γ}
  {last : γ → Multiset (Block α) → Prop}

theorem Triple.malloc_bind (h : ∀ p, Triple ({(p, x)} + r) (next p) last) :
    Triple r (malloc x >>= next) last := by
  refine (malloc_triple x).fresh ?_
  rintro p _ rfl
  exact h p

theorem Triple.free_bind (h : Triple r (after ()) last) :
    Triple ({(p, x)} + r) (free (some p) >>= after) last := by
  refine free_triple.step rfl ?_
  rintro _ _ rfl
  rw [zero_add]
  exact h

theorem Triple.free_step (hpre : pre = {(p, x)} + r) (h : Triple r (after ()) last) :
    Triple pre (free (some p) >>= after) last := hpre ▸ h.free_bind

theorem Triple.free_owned {ptr : Option Nat} (h : Triple r (after ()) last) :
    Triple (owned x ptr + r) (free ptr >>= after) last := by
  cases ptr with
  | none =>
    rw [owned, zero_add]
    exact h
  | some p => exact h.free_bind

theorem Triple.load_bind (h : Triple ({(p, x)} + r) (loaded x) last) :
    Triple ({(p, x)} + r) (load p >>= loaded) last := by
  refine load_triple.step rfl ?_
  rintro _ _ ⟨rfl, rfl⟩
  exact h

theorem Triple.load_mem (hmem : (p, x) ∈ pre) (h : Triple pre (loaded x) last) :
    Triple pre (load p >>= loaded) last := by
  obtain ⟨r, rfl⟩ := Multiset.exists_cons_of_mem hmem
  rw [← Multiset.singleton_add] at h ⊢
  exact h.load_bind

end Rules

/-- Given the blocks `pre`, among whatever others, the program ends in a misuse. -/
def Misuses (pre : Multiset (Block α)) (prog : Prog α β) (m : Misuse) : Prop :=
  ∀ frame h, h.contents = pre + frame → prog.run h = .error m

section Misuses

variable {pre r : Multiset (Block α)} {prog : Prog α β} {x : α} {p : Nat} {m : Misuse}
  {post : β → Multiset (Block α) → Prop}

theorem Misuses.frame (h : Misuses pre prog m) (r : Multiset (Block α)) :
    Misuses (pre + r) prog m := by
  intro frame heap hpre
  rw [add_assoc] at hpre
  exact h (r + frame) heap hpre

theorem Misuses.bind {next : β → Prog α γ} (h : Misuses pre prog m) :
    Misuses pre (prog >>= next) m := by
  intro frame heap hpre
  rw [StateT.run_bind, h frame heap hpre]
  rfl

theorem Triple.misuses {next : β → Prog α γ} (h : Triple pre prog post)
    (hnext : ∀ b own, post b own → Misuses own (next b) m) : Misuses pre (prog >>= next) m := by
  intro frame heap hpre
  obtain ⟨b, heap', own, hrun, hown, hcontents⟩ := h frame heap hpre
  rw [StateT.run_bind, hrun]
  exact hnext b own hown frame heap' hcontents

theorem Misuses.malloc_bind {next : Nat → Prog α γ}
    (h : ∀ p, Misuses ({(p, x)} + r) (next p) m) : Misuses r (malloc x >>= next) m := by
  have hframe := (malloc_triple x).frame r
  rw [zero_add] at hframe
  apply hframe.misuses
  rintro p _ ⟨_, rfl, rfl⟩
  exact h p

theorem Misuses.load_bind {next : α → Prog α γ} (h : Misuses ({(p, x)} + r) (next x) m) :
    Misuses ({(p, x)} + r) (load p >>= next) m := by
  apply (load_triple.frame r).misuses
  rintro _ _ ⟨_, ⟨rfl, rfl⟩, rfl⟩
  exact h

theorem use_after_free {next : α → Prog α γ} :
    Misuses ({(p, x)} + r) (free (some p) >>= fun _ => load p >>= next) .badAccess := by
  intro frame h hpre
  rw [add_assoc] at hpre
  obtain ⟨l, hperm, -⟩ := blocks_perm hpre
  have hmem : p ∈ h.blocks.map Prod.fst :=
    List.mem_map_of_mem (hperm.mem_iff.mpr List.mem_cons_self)
  have hfree : (free (some p)).run h = .ok ((), h.remove p) := if_pos hmem
  have hload : (load p).run (h.remove p) = .error .badAccess := by
    show (match KeyedList.lookup Prod.fst (h.remove p).blocks p with | some b => _ | none => _) = _
    rw [show (h.remove p).blocks = KeyedList.erase Prod.fst p h.blocks from rfl,
      KeyedList.lookup_erase_self h.unique]
  rw [StateT.run_bind, hfree]
  show (load p >>= next).run (h.remove p) = _
  rw [StateT.run_bind, hload]
  rfl

end Misuses

end Alloc
