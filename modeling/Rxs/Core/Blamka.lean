import Mathlib.Logic.Equiv.Defs
import Rxs.Core.Blake2b

/-!
# The permutation of Argon2

BLAKE2b's round with no message and with products in its sums, on sixteen words; and an array
whose words lie in lines, each of which a loop changes in its turn.

* `ROUND_eq`: eight mixings of an array are two of rows.
* `ROUND_place`: those of the words that have some places.
* **`foldl_lines`**: a loop whose steps change some lines each.
-/
namespace Rxs.Core.Blamka

open Blake2b

/-- The low half. -/
def low32 (x : W) : W := x &&& 0xffffffff

def F (x y : W) : W := x + y + 2 * low32 x * low32 y

/-! ## Rows -/

def half (r₁ r₂ : Nat) (s : Rows) : Rows :=
  let a := fun i => F (s.a i) (s.b i)
  let d := fun i => (s.d i ^^^ a i).rotateRight r₁
  let c := fun i => F (s.c i) (d i)
  let b := fun i => (s.b i ^^^ c i).rotateRight r₂
  ⟨a, b, c, d⟩

def mix (s : Rows) : Rows := half 16 63 (half 32 24 s)

def permute (s : Rows) : Rows := (mix (mix s).diagonalize).undiagonalize

/-- Sixteen words, a row behind the other. -/
def array (s : Rows) : Fin 16 → W :=
  ![s.a 0, s.a 1, s.a 2, s.a 3, s.b 0, s.b 1, s.b 2, s.b 3, s.c 0, s.c 1, s.c 2, s.c 3,
    s.d 0, s.d 1, s.d 2, s.d 3]

def rows (v : Fin 16 → W) : Rows :=
  ⟨![v 0, v 1, v 2, v 3], ![v 4, v 5, v 6, v 7], ![v 8, v 9, v 10, v 11],
    ![v 12, v 13, v 14, v 15]⟩

theorem array_rows (v : Fin 16 → W) : array (rows v) = v := by
  funext i
  cases i using sixteen_cases <;> rfl

theorem rows_array (s : Rows) : rows (array s) = s := by
  have hrow (r : Row) : ![r 0, r 1, r 2, r 3] = r := by
    funext i
    cases i using four_cases <;> rfl
  obtain ⟨a, b, c, d⟩ := s
  exact congr (congr (congrArg₂ Rows.mk (hrow a) (hrow b)) (hrow c)) (hrow d)

def P (v : Fin 16 → W) : Fin 16 → W := array (permute (rows v))

/-! ## Arrays -/

section

variable {ι : Type} [DecidableEq ι]

def G (a b c d : ι) (v : ι → W) : ι → W :=
  let v := Function.update v a (F (v a) (v b))
  let v := Function.update v d ((v d ^^^ v a).rotateRight 32)
  let v := Function.update v c (F (v c) (v d))
  let v := Function.update v b ((v b ^^^ v c).rotateRight 24)
  let v := Function.update v a (F (v a) (v b))
  let v := Function.update v d ((v d ^^^ v a).rotateRight 16)
  let v := Function.update v c (F (v c) (v d))
  Function.update v b ((v b ^^^ v c).rotateRight 63)

/-- The words that have the places `q`. -/
def ROUND (q : Fin 16 → ι) (v : ι → W) : ι → W :=
  let v := G (q 0) (q 4) (q 8) (q 12) v
  let v := G (q 1) (q 5) (q 9) (q 13) v
  let v := G (q 2) (q 6) (q 10) (q 14) v
  let v := G (q 3) (q 7) (q 11) (q 15) v
  let v := G (q 0) (q 5) (q 10) (q 15) v
  let v := G (q 1) (q 6) (q 11) (q 12) v
  let v := G (q 2) (q 7) (q 8) (q 13) v
  G (q 3) (q 4) (q 9) (q 14) v

end

theorem ROUND_array (s : Rows) : ROUND id (array s) = array (permute s) := by
  have hcolumns : G 3 7 11 15 (G 2 6 10 14 (G 1 5 9 13 (G 0 4 8 12 (array s)))) =
      array (mix s) := by
    funext j
    refine sixteen_cases j ?_ ?_ ?_ ?_ ?_ ?_ ?_ ?_ ?_ ?_ ?_ ?_ ?_ ?_ ?_ ?_ <;> rfl
  have hdiagonals (s : Rows) : G 3 4 9 14 (G 2 7 8 13 (G 1 6 11 12 (G 0 5 10 15 (array s)))) =
      array (mix s.diagonalize).undiagonalize := by
    funext j
    refine sixteen_cases j ?_ ?_ ?_ ?_ ?_ ?_ ?_ ?_ ?_ ?_ ?_ ?_ ?_ ?_ ?_ ?_ <;> rfl
  simp only [ROUND, id, hcolumns, hdiagonals]
  rfl

/-- **The mixings of an array** are the rows'. -/
theorem ROUND_eq (v : Fin 16 → W) : ROUND id v = P v := by
  rw [← array_rows v, ROUND_array, P, array_rows]

section

variable {ι : Type} [DecidableEq ι] {q : Fin 16 → ι}

theorem G_comp (hq : Function.Injective q) (a b c d : Fin 16) (v : ι → W) :
    G (q a) (q b) (q c) (q d) v ∘ q = G a b c d (v ∘ q) := by
  have hval (v : ι → W) (i : Fin 16) : v (q i) = (v ∘ q) i := rfl
  simp only [G, hval, Function.update_comp_eq_of_injective _ hq]

theorem ROUND_comp (hq : Function.Injective q) (v : ι → W) : ROUND q v ∘ q = P (v ∘ q) := by
  rw [← ROUND_eq]
  simp only [ROUND, G_comp hq, id]

theorem G_frame {a b c d k : ι} (ha : k ≠ a) (hb : k ≠ b) (hc : k ≠ c) (hd : k ≠ d) (v : ι → W) :
    G a b c d v k = v k := by
  simp only [G, Function.update_of_ne ha, Function.update_of_ne hb, Function.update_of_ne hc,
    Function.update_of_ne hd]

theorem ROUND_frame {k : ι} (hk : ∀ n, k ≠ q n) (v : ι → W) : ROUND q v k = v k := by
  simp only [ROUND, G_frame (hk _) (hk _) (hk _) (hk _)]

end

/-! ## Lines -/

section

variable {ι κ ν α σ I : Type} (e : κ × ν ≃ ι)

/-- Each line goes through `g`. -/
def through (g : (ν → α) → ν → α) (v : ι → α) : ι → α := fun i =>
  g (fun n => v (e ((e.symm i).1, n))) (e.symm i).2

theorem through_apply (g : (ν → α) → ν → α) (v : ι → α) (k : κ) (n : ν) :
    through e g v (e (k, n)) = g (fun n => v (e (k, n))) n := by
  simp [through]

/-- What a loop's steps do to a state that stands for an array: each has its own lines. -/
structure Lines (get : σ → ι → α) (g : (ν → α) → ν → α) (touched : κ → I) (step : I → σ → σ) :
    Prop where
  line (k : κ) (s : σ) (n : ν) :
    get (step (touched k) s) (e (k, n)) = g (fun n => get s (e (k, n))) n
  frame {k : κ} {i : I} (h : touched k ≠ i) (s : σ) (n : ν) :
    get (step i s) (e (k, n)) = get s (e (k, n))

variable {e} {get : σ → ι → α} {g : (ν → α) → ν → α} {touched : κ → I} {step : I → σ → σ}

theorem foldl_line [DecidableEq I] (h : Lines e get g touched step) {is : List I} (his : is.Nodup)
    (s : σ) (k : κ) (n : ν) : get (is.foldl (fun s i => step i s) s) (e (k, n)) =
      if touched k ∈ is then g (fun n => get s (e (k, n))) n else get s (e (k, n)) := by
  induction is generalizing s with
  | nil => simp
  | cons i is ih =>
    obtain ⟨hi, his⟩ := List.nodup_cons.mp his
    rw [List.foldl_cons, ih his]
    by_cases hki : touched k = i
    · subst hki
      rw [if_neg hi, if_pos List.mem_cons_self]
      exact h.line k s n
    · have hmem : touched k ∈ i :: is ↔ touched k ∈ is := by simp [hki]
      simp only [hmem, h.frame hki]

/-- **All lines**, one step after the other. -/
theorem foldl_lines [DecidableEq I] (h : Lines e get g touched step) {is : List I}
    (his : is.Nodup) (hall : ∀ i, i ∈ is) (s : σ) :
    get (is.foldl (fun s i => step i s) s) = through e g (get s) := by
  funext i
  obtain ⟨⟨k, n⟩, rfl⟩ := e.surjective i
  rw [foldl_line h his, if_pos (hall (touched k)), through_apply]

end

/-- The rounds of an array, one for each line. -/
theorem lines_ROUND {ι κ : Type} [DecidableEq ι] (e : κ × Fin 16 ≃ ι) :
    Lines e id P id fun k v => ROUND (fun n => e (k, n)) v where
  line k v n := by
    have hq : Function.Injective fun n => e (k, n) := fun a b h => by
      simpa using e.injective h
    exact congrFun (ROUND_comp hq v) n
  frame h v n := ROUND_frame (fun m heq => h (congrArg Prod.fst (e.injective heq))) v

end Rxs.Core.Blamka
