/-
# First occurrences

`Firsts xs ys`: `ys` has each entry of `xs` once, in the order in which they
first occur in `xs`. A loop that keeps an entry when it has not kept it before
builds this list (`Firsts.keep`, `Firsts.skip`).
-/
import Mathlib

namespace Kit

variable {α : Type*} [DecidableEq α]

structure Firsts (xs ys : List α) : Prop where
  mem : ∀ y, y ∈ ys ↔ y ∈ xs
  nodup : ys.Nodup
  order : ys.Pairwise fun a b => xs.idxOf a < xs.idxOf b

namespace Firsts

variable {xs ys : List α} {x : α}

theorem nil : Firsts ([] : List α) [] := ⟨fun _ => Iff.rfl, List.nodup_nil, List.Pairwise.nil⟩

theorem eq_nil_iff (h : Firsts xs ys) : ys = [] ↔ xs = [] := by
  rw [List.eq_nil_iff_forall_not_mem, List.eq_nil_iff_forall_not_mem]
  exact forall_congr' fun y => not_congr (h.mem y)

theorem order_append (h : Firsts xs ys) (zs : List α) :
    ys.Pairwise fun a b => (xs ++ zs).idxOf a < (xs ++ zs).idxOf b := by
  refine h.order.imp_of_mem fun {a b} ha hb hab => ?_
  rw [List.idxOf_append_of_mem ((h.mem a).mp ha), List.idxOf_append_of_mem ((h.mem b).mp hb)]
  exact hab

/-- The next entry is one that has occurred. -/
theorem skip (h : Firsts xs ys) (hx : x ∈ ys) : Firsts (xs ++ [x]) ys where
  mem y := by
    rw [h.mem, List.mem_append, List.mem_singleton]
    constructor
    · exact Or.inl
    · rintro (hy | rfl)
      · exact hy
      · exact (h.mem y).mp hx
  nodup := h.nodup
  order := h.order_append [x]

/-- The next entry is new. -/
theorem keep (h : Firsts xs ys) (hx : x ∉ ys) : Firsts (xs ++ [x]) (ys ++ [x]) where
  mem y := by rw [List.mem_append, List.mem_append, h.mem]
  nodup := by
    rw [List.nodup_append]
    refine ⟨h.nodup, List.nodup_singleton x, fun y hy z hz => ?_⟩
    rw [List.mem_singleton.mp hz]
    intro hyx
    exact hx (hyx ▸ hy)
  order := by
    have hxs : x ∉ xs := fun hmem => hx ((h.mem x).mpr hmem)
    rw [List.pairwise_append]
    refine ⟨h.order_append [x], List.pairwise_singleton _ _, fun a ha b hb => ?_⟩
    have ha' : a ∈ xs := (h.mem a).mp ha
    rw [List.mem_singleton.mp hb, List.idxOf_append_of_mem ha', List.idxOf_append_of_notMem hxs]
    have hlt := List.idxOf_lt_length_of_mem ha'
    omega

end Firsts

end Kit
