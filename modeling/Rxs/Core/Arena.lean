import Rxs.Core.LTS
import Rxs.Core.Region

/-!
# Arenas

An arena owns blocks of memory and gives out regions of them. It may get blocks that are
apart from those it has, give out a region of a block that is apart from all that is out, and
take regions back, in any order.

* `Arena.sound`: what is out is apart, and each region is in one block.
-/
namespace Rxs.Core

structure Arena where
  blocks : List Region := []
  live : List Region := []

namespace Arena

inductive Step : Arena → Arena → Prop where
  | give (a : Arena) {new : List Region} {r b : Region}
      (hnew : Region.Separate (a.blocks ++ new)) (hb : b ∈ a.blocks ++ new) (hr : r.Inside b)
      (hlive : ∀ s ∈ a.live, s.Apart r) :
      Step a { blocks := a.blocks ++ new, live := a.live ++ [r] }
  | back (a : Arena) {live : List Region} (h : live.Sublist a.live) :
      Step a { a with live := live }

def lts : LTS Arena Unit where
  init a := a = {}
  step a _ a' := Step a a'

structure Sound (a : Arena) : Prop where
  blocks : Region.Separate a.blocks
  live : Region.Separate a.live
  inside : ∀ r ∈ a.live, ∃ b ∈ a.blocks, r.Inside b

theorem Step.sound {a a' : Arena} (h : Step a a') (ha : a.Sound) : a'.Sound := by
  cases h with
  | give hnew hb hr hlive =>
    refine ⟨hnew, ha.live.snoc hlive, ?_⟩
    intro s hs
    rcases List.mem_append.mp hs with hs | hs
    · obtain ⟨c, hc, hin⟩ := ha.inside s hs
      exact ⟨c, List.mem_append_left _ hc, hin⟩
    · rw [List.mem_singleton.mp hs]
      exact ⟨_, hb, hr⟩
  | back h => exact ⟨ha.blocks, ha.live.sublist h, fun r hr => ha.inside r (h.subset hr)⟩

theorem sound {a : Arena} (h : lts.Reachable a) : a.Sound := by
  have I : lts.Inductive Sound :=
    { init := by
        rintro s rfl
        exact ⟨.nil, .nil, fun r hr => by cases hr⟩
      step := fun _ _ _ ha hs => hs.sound ha }
  exact I.reachable h

end Arena

end Rxs.Core
