import Mathlib.Data.List.Basic

/-!
# Loops over cells, and two passes made in one

A loop advances a pointer by a block until it reaches the end; a block is some steps over
cells. Of two passes over the same cells, one that reads each and one that overwrites each,
a loop may do both at every cell.

* `sweep_blocks`: a loop is its body at each block in turn.
* `foldl_blocks`: when a block is so many cells, its steps are the steps at each cell in turn.
* `fuse_eq`: reading and overwriting cell by cell is reading all and then overwriting all.
-/
namespace Rxs.Core.Fusion

variable {σ τ μ α : Type*}

/-- `while (ptr < stop) { body; ptr += block; }` -/
def sweep (block : Nat) (body : Nat → σ → σ) (stop : Int) (ptr : Nat) (s : σ) : Nat × σ :=
  if 0 < block ∧ (ptr : Int) < stop then sweep block body stop (ptr + block) (body ptr s)
  else (ptr, s)
termination_by (stop - ptr).toNat

theorem sweep_done (block : Nat) (body : Nat → σ → σ) {stop : Int} {ptr : Nat} (s : σ)
    (h : stop ≤ ptr) : sweep block body stop ptr s = (ptr, s) := by
  rw [sweep, if_neg]
  omega

/-- The induction is on the blocks that are left. -/
theorem sweep_blocks {block : Nat} (hblock : 0 < block) (body : Nat → σ → σ) (a k : Nat)
    (s : σ) : sweep block body (block * (a + k) : Nat) (block * a) s =
      (block * (a + k), (List.range' a k).foldl (fun s i => body (block * i) s) s) := by
  induction k generalizing a s with
  | zero =>
    rw [Nat.add_zero, sweep_done block body s (Int.le_refl _)]
    simp
  | succ k ih =>
    have hlt : block * a < block * (a + (k + 1)) := Nat.mul_lt_mul_of_pos_left (by omega) hblock
    have hnext : block * a + block = block * (a + 1) := by rw [Nat.mul_add, Nat.mul_one]
    have hend : a + (k + 1) = a + 1 + k := by omega
    rw [sweep, if_pos ⟨hblock, by omega⟩, hnext, hend, ih (a + 1)]
    simp [List.range'_succ]

/-- Blocks of `u` steps are the steps. -/
theorem foldl_blocks {u : Nat} {step : σ → Nat → σ} {body : σ → Nat → σ}
    (hbody : ∀ s i, body s i = (List.range' (u * i) u).foldl step s) (a k : Nat) (s : σ) :
    (List.range' a k).foldl body s = (List.range' (u * a) (u * k)).foldl step s := by
  induction k generalizing a s with
  | zero => simp
  | succ k ih =>
    have hlen : u * (k + 1) = u + u * k := by rw [Nat.mul_add]; omega
    have hnext : u * (a + 1) = u * a + u := by rw [Nat.mul_add]; omega
    rw [List.range'_succ, List.foldl_cons, ih, hbody, hlen, ← List.range'_append_1,
      List.foldl_append, hnext]

/-- A loop run to an earlier end and then to the end is the loop, when the ends are both at
blocks; the earlier end may lie before the start. -/
theorem sweep_twice {block : Nat} (hblock : 0 < block) (body : Nat → σ → σ) (k d : Nat) (s : σ) :
    sweep block body (block * k : Nat)
        (sweep block body ((block * k : Nat) - (block * d : Nat) : Int) 0 s).1
        (sweep block body ((block * k : Nat) - (block * d : Nat) : Int) 0 s).2 =
      (block * k, (List.range k).foldl (fun s i => body (block * i) s) s) := by
  have hall : sweep block body (block * k : Nat) 0 s =
      (block * k, (List.range k).foldl (fun s i => body (block * i) s) s) := by
    have h := sweep_blocks hblock body 0 k s
    simpa [List.range_eq_range'] using h
  by_cases hd : k ≤ d
  · have hle : block * k ≤ block * d := Nat.mul_le_mul_left _ hd
    have hnone : ((block * k : Nat) - (block * d : Nat) : Int) ≤ (0 : Nat) := by omega
    simp only [sweep_done block body s hnone]
    exact hall
  · obtain ⟨e, rfl⟩ : ∃ e, k = e + d := ⟨k - d, by omega⟩
    have hstop : ((block * (e + d) : Nat) - (block * d : Nat) : Int) = (block * e : Nat) := by
      rw [Nat.mul_add]; omega
    have hfirst := sweep_blocks hblock body 0 e s
    have hrest := sweep_blocks hblock body e d ((List.range' 0 e).foldl
      (fun s i => body (block * i) s) s)
    rw [Nat.zero_add, Nat.mul_zero] at hfirst
    simp only [hstop, hfirst, hrest]
    rw [List.range_eq_range', ← List.range'_append_1, List.foldl_append, Nat.zero_add]

/-- Memory that is read and overwritten cell by cell. -/
structure Cells (μ α : Type*) where
  load : μ → Nat → α
  store : μ → Nat → α → μ
  load_store_ne : ∀ m a {i j}, i ≠ j → load (store m j a) i = load m i

variable (C : Cells μ α) (absorb : σ → α → σ) (next : τ → τ) (out : τ → α)

/-- The pass that reads. -/
def read (m : μ) (s : σ) (i : Nat) : σ := absorb s (C.load m i)

/-- The pass that overwrites. -/
def write (p : τ × μ) (i : Nat) : τ × μ := (next p.1, C.store p.2 i (out (next p.1)))

/-- Both at a cell. -/
def fuse (p : σ × τ × μ) (i : Nat) : σ × τ × μ :=
  (read C absorb p.2.2 p.1 i, write C next out p.2 i)

theorem load_write (n : Nat) (p : τ × μ) {i : Nat} (h : n ≤ i) :
    C.load ((List.range n).foldl (write C next out) p).2 i = C.load p.2 i := by
  induction n with
  | zero => simp
  | succ n ih =>
    rw [List.range_succ, List.foldl_append]
    have hne : i ≠ n := by omega
    simp only [List.foldl_cons, List.foldl_nil, write]
    rw [C.load_store_ne _ _ hne]
    exact ih (by omega)

/-- **One pass for two.** What a cell holds when it is read is what it held at the start,
since only cells before it have been overwritten. -/
theorem fuse_eq (n : Nat) (s : σ) (t : τ) (m : μ) :
    (List.range n).foldl (fuse C absorb next out) (s, t, m) =
      ((List.range n).foldl (read C absorb m) s,
        (List.range n).foldl (write C next out) (t, m)) := by
  induction n with
  | zero => simp
  | succ n ih =>
    rw [List.range_succ, List.foldl_append, ih, List.foldl_append, List.foldl_append]
    simp only [List.foldl_cons, List.foldl_nil, fuse, Prod.mk.injEq, and_true]
    simp only [read]
    rw [load_write C next out n (t, m) (Nat.le_refl n)]

end Rxs.Core.Fusion
