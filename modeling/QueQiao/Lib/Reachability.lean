import Mathlib.Data.Fintype.Card
import Mathlib.Data.Set.Finite.Basic
import Mathlib.Logic.Relation

namespace QueQiao.Lib.Reachability

open Relation

variable {α : Type*} {r : α → α → Prop} {a : α}

/-- Some path of the relation from `a` comes to a point that it can come to again. -/
def ReachesCycle (r : α → α → Prop) (a : α) : Prop := ∃ b, ReflTransGen r a b ∧ TransGen r b b

theorem ReachesCycle.next (h : ReachesCycle r a) : ∃ b, r a b ∧ ReachesCycle r b := by
  obtain ⟨c, hac, hcc⟩ := h
  rcases hac.cases_head with rfl | ⟨b, hab, hbc⟩
  · obtain ⟨b, hab, hba⟩ := TransGen.head'_iff.mp hcc
    exact ⟨b, hab, a, hba, hcc⟩
  · exact ⟨b, hab, c, hbc, hcc⟩

theorem ReachesCycle.exists_path (h : ReachesCycle r a) :
    ∃ f : ℕ → α, f 0 = a ∧ ∀ k, r (f k) (f (k + 1)) := by
  choose next hnext using fun p : {a // ReachesCycle r a} ↦ p.2.next
  let go (p : {a // ReachesCycle r a}) : {a // ReachesCycle r a} := ⟨next p, (hnext p).2⟩
  refine ⟨fun k ↦ (go^[k] ⟨a, h⟩).1, rfl, fun k ↦ ?_⟩
  dsimp only
  rw [Function.iterate_succ_apply']
  exact (hnext _).1

/-- When the relation leads into a finite set only, and from `a` to no cycle, following it
from `a` ends. -/
theorem acc_of_not_reachesCycle {S : Set α} (hS : S.Finite) (hr : ∀ a b, r a b → b ∈ S)
    (h : ¬ReachesCycle r a) : Acc (fun y x ↦ r x y) a := by
  have hfin : Finite {b // ReflTransGen r a b} := by
    refine (hS.insert a).subset fun b hab ↦ ?_
    rcases hab.cases_tail with rfl | ⟨c, _, hcb⟩
    · exact Set.mem_insert _ _
    · exact Set.mem_insert_of_mem _ (hr c b hcb)
  let below (y x : {b // ReflTransGen r a b}) : Prop := TransGen r x.1 y.1
  have htrans : IsTrans _ below := ⟨fun x y z hxy hyz ↦ hyz.trans hxy⟩
  have hirrefl : Std.Irrefl below := ⟨fun x hx ↦ h ⟨x.1, x.2, hx⟩⟩
  have hwf : WellFounded below := Finite.wellFounded_of_trans_of_irrefl below
  have hall : ∀ x : {b // ReflTransGen r a b}, Acc (fun y x ↦ r x y) x.1 := by
    intro x
    induction x using hwf.induction with
    | _ x ih => exact ⟨_, fun y hy ↦ ih ⟨y, x.2.tail hy⟩ (TransGen.single hy)⟩
  exact hall ⟨a, ReflTransGen.refl⟩

end QueQiao.Lib.Reachability
