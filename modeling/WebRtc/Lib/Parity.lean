import Mathlib.Algebra.BigOperators.Ring.Nat

/-! The parity of a family of words over a list: their XOR. One word that is missing from a
list is what is left when the parity of the list is XORed with the parity of the others. -/

namespace WebRtc.Parity
open List

variable {α κ : Type} {w : Nat}

def parity (f : α → BitVec w) : List α → BitVec w
  | [] => 0#w
  | a :: l => f a ^^^ parity f l

@[simp] theorem parity_nil (f : α → BitVec w) : parity f [] = 0#w := rfl

@[simp] theorem parity_cons (f : α → BitVec w) (a : α) (l : List α) :
    parity f (a :: l) = f a ^^^ parity f l := rfl

theorem parity_congr {f g : α → BitVec w} {l : List α} (h : ∀ a ∈ l, f a = g a) :
    parity f l = parity g l := by
  induction l with
  | nil => rfl
  | cons a l ih =>
    rw [parity_cons, parity_cons, h a (by simp), ih fun b hb => h b (by simp [hb])]

theorem parity_zero {f : α → BitVec w} {l : List α} (h : ∀ a ∈ l, f a = 0#w) : parity f l = 0#w := by
  induction l with
  | nil => rfl
  | cons a l ih =>
    rw [parity_cons, h a (by simp), ih fun b hb => h b (by simp [hb]), BitVec.xor_zero]

theorem parity_append (f : α → BitVec w) (l l' : List α) :
    parity f (l ++ l') = parity f l ^^^ parity f l' := by
  induction l with
  | nil => rw [nil_append, parity_nil, BitVec.zero_xor]
  | cons a l ih => rw [cons_append, parity_cons, parity_cons, ih, BitVec.xor_assoc]

theorem parity_xor (f g : α → BitVec w) (l : List α) :
    parity f l ^^^ parity g l = parity (fun a => f a ^^^ g a) l := by
  induction l with
  | nil => exact BitVec.xor_zero
  | cons a l ih =>
    rw [parity_cons, parity_cons, parity_cons, ← ih]
    ac_rfl

/-- The parity of a list in which one element alone counts. -/
theorem parity_single (key : α → κ) [DecidableEq κ] (f : α → BitVec w) {l : List α} {x : α}
    (hl : (l.map key).Nodup) (hx : x ∈ l) :
    parity (fun a => if key a = key x then f a else 0#w) l = f x := by
  induction l with
  | nil => simp at hx
  | cons a l ih =>
    rw [map_cons, nodup_cons] at hl
    rcases mem_cons.1 hx with rfl | hx
    · have hrest : parity (fun a => if key a = key x then f a else 0#w) l = 0#w :=
        parity_zero fun b hb =>
          if_neg fun he : key b = key x => hl.1 (he ▸ mem_map_of_mem hb)
      rw [parity_cons, if_pos rfl, hrest, BitVec.xor_zero]
    · have hne : key a ≠ key x := fun he => hl.1 (he ▸ mem_map_of_mem hx)
      rw [parity_cons, if_neg hne, ih hl.2 hx, BitVec.zero_xor]

/-- **Erasure rule.** The parity of a list and the parity of its elements but one give the
missing word. -/
theorem parity_erased (key : α → κ) [DecidableEq κ] (f : α → BitVec w) {l : List α} {x : α}
    (hl : (l.map key).Nodup) (hx : x ∈ l) :
    parity f l ^^^ parity (fun a => if key a = key x then 0#w else f a) l = f x := by
  rw [parity_xor, ← parity_single key f hl hx]
  refine parity_congr fun a _ => ?_
  split
  · exact BitVec.xor_zero
  · exact BitVec.xor_self

end WebRtc.Parity
