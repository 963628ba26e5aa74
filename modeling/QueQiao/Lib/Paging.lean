import Mathlib.Data.List.Sort

namespace QueQiao.Lib.Paging

variable {α β γ : Type*} [LinearOrder β]

/-- The keys descend strictly: no two elements have the same one. -/
def Descending (key : α → β) (l : List α) : Prop := l.Pairwise fun a b ↦ key b < key a

def sortDesc (key : α → β) (l : List α) : List α := l.mergeSort fun a b ↦ decide (key b ≤ key a)

variable {key : α → β} {l s : List α}

theorem mem_sortDesc {x : α} : x ∈ sortDesc key l ↔ x ∈ l := List.mem_mergeSort

theorem sortDesc_perm (key : α → β) (l : List α) : (sortDesc key l).Perm l := List.mergeSort_perm l _

theorem sortDesc_descending (h : (l.map key).Nodup) : Descending key (sortDesc key l) := by
  have hsorted : (sortDesc key l).Pairwise fun a b ↦ decide (key b ≤ key a) = true := by
    apply List.pairwise_mergeSort
    · intro a b c hab hbc
      rw [decide_eq_true_eq] at hab hbc ⊢
      exact hbc.trans hab
    · intro a b
      simp only [Bool.or_eq_true, decide_eq_true_eq]
      exact le_total (key b) (key a)
  have hnodup : ((sortDesc key l).map key).Nodup := ((sortDesc_perm key l).map key).nodup_iff.mpr h
  refine hsorted.imp₂ ?_ (List.pairwise_map.mp hnodup)
  intro a b hle hne
  exact lt_of_le_of_ne (of_decide_eq_true hle) (Ne.symm hne)

theorem Descending.nodup (h : Descending key l) : l.Nodup := by
  refine h.imp ?_
  intro a b hlt heq
  rw [heq] at hlt
  exact lt_irrefl _ hlt

theorem Descending.sublist_of_subset (hl : Descending key l) (hs : Descending key s)
    (h : ∀ x ∈ l, x ∈ s) : l.Sublist s := by
  have hanti : Std.Antisymm fun a b ↦ key b < key a :=
    ⟨fun a b hab hba ↦ absurd hab (lt_asymm hba)⟩
  exact List.sublist_of_subperm_of_pairwise (List.subperm_of_subset hl.nodup h) hl hs

theorem Descending.eq_of_mem_iff (hl : Descending key l) (hs : Descending key s)
    (h : ∀ x, x ∈ l ↔ x ∈ s) : l = s := by
  have hsub := hl.sublist_of_subset hs fun x hx ↦ (h x).mp hx
  have hsub' := hs.sublist_of_subset hl fun x hx ↦ (h x).mpr hx
  exact hsub.antisymm hsub'

theorem mem_take_of_sublist {x : α} {n : ℕ} (h : l.Sublist s) (hs : s.Nodup) (hl : x ∈ l)
    (hx : x ∈ s.take n) : x ∈ l.take n := by
  induction h generalizing n with
  | slnil => cases hl
  | @cons l s y h ih =>
    cases n with
    | zero => cases hx
    | succ n =>
      have hne : x ≠ y := fun heq ↦ (List.nodup_cons.mp hs).1 (heq ▸ h.subset hl)
      have hrest := ih (List.nodup_cons.mp hs).2 hl ((List.mem_cons.mp hx).resolve_left hne)
      exact List.take_subset_take_left l (Nat.le_succ n) hrest
  | @cons_cons l s y h ih =>
    cases n with
    | zero => cases hx
    | succ n =>
      rcases List.mem_cons.mp hl with rfl | hl
      · exact List.mem_cons_self
      · have hne : x ≠ y := fun heq ↦ (List.nodup_cons.mp hs).1 (heq ▸ h.subset hl)
        exact List.mem_cons_of_mem y
          (ih (List.nodup_cons.mp hs).2 hl ((List.mem_cons.mp hx).resolve_left hne))

theorem take_eq_of_sublist {n : ℕ} (h : l.Sublist s) (hs : s.Nodup)
    (hmem : ∀ x ∈ s.take n, x ∈ l) : l.take n = s.take n := by
  induction h generalizing n with
  | slnil => rfl
  | @cons l s y h ih =>
    cases n with
    | zero => rfl
    | succ n =>
      have hy : y ∈ s := h.subset (hmem y List.mem_cons_self)
      exact absurd hy (List.nodup_cons.mp hs).1
  | @cons_cons l s y h ih =>
    cases n with
    | zero => rfl
    | succ n =>
      rw [List.take_succ_cons, List.take_succ_cons]
      congr 1
      apply ih (List.nodup_cons.mp hs).2
      intro x hx
      have hne : x ≠ y := fun heq ↦ (List.nodup_cons.mp hs).1 (heq ▸ List.mem_of_mem_take hx)
      exact (List.mem_cons.mp (hmem x (List.mem_cons_of_mem y hx))).resolve_left hne

theorem flatMap_take_sublist (n : ℕ) (parts : List (List α)) :
    (parts.flatMap (List.take n)).Sublist parts.flatten := by
  induction parts with
  | nil => exact List.Sublist.refl []
  | cons part parts ih =>
    rw [List.flatMap_cons, List.flatten_cons]
    exact (List.take_sublist n part).append ih

theorem take_merge {parts : List (List α)} (n : ℕ) (hs : Descending key s)
    (hparts : ∀ part ∈ parts, Descending key part) (hperm : s.Perm parts.flatten) :
    (sortDesc key (parts.flatMap (List.take n))).take n = s.take n := by
  have hkeys : (s.map key).Nodup := List.pairwise_map.mpr (hs.imp ne_of_gt)
  have hmerged : Descending key (sortDesc key (parts.flatMap (List.take n))) := by
    apply sortDesc_descending
    exact ((hperm.map key).nodup_iff.mp hkeys).sublist ((flatMap_take_sublist n parts).map key)
  have hsub : (sortDesc key (parts.flatMap (List.take n))).Sublist s := by
    apply hmerged.sublist_of_subset hs
    intro x hx
    exact hperm.mem_iff.mpr ((flatMap_take_sublist n parts).subset (mem_sortDesc.mp hx))
  apply take_eq_of_sublist hsub hs.nodup
  intro x hx
  obtain ⟨part, hpart, hxpart⟩ := List.mem_flatten.mp (hperm.mem_iff.mp (List.mem_of_mem_take hx))
  have hpartsub : part.Sublist s := by
    apply (hparts part hpart).sublist_of_subset hs
    intro y hy
    exact hperm.mem_iff.mpr (List.mem_flatten.mpr ⟨part, hpart, hy⟩)
  exact mem_sortDesc.mpr
    (List.mem_flatMap.mpr ⟨part, hpart, mem_take_of_sublist hpartsub hs.nodup hxpart hx⟩)

theorem filter_eq_nil_of_descending {p : α → Bool} {x : α} (h : Descending key (x :: l))
    (hp : ∀ a b, p a = true → key a < key b → p b = true) (hx : ¬p x = true) :
    l.filter p = [] := by
  apply List.filter_eq_nil_iff.mpr
  intro y hy hpy
  exact hx (hp y x hpy (List.rel_of_pairwise_cons h hy))

theorem Descending.filter_append_filter {p : α → Bool} (h : Descending key l)
    (hp : ∀ a b, p a = true → key a < key b → p b = true) :
    l.filter p ++ l.filter (fun x ↦ !p x) = l := by
  induction l with
  | nil => rfl
  | cons x l ih =>
    by_cases hx : p x = true
    · rw [List.filter_cons_of_pos hx, List.filter_cons_of_neg (by simp [hx]), List.cons_append,
        ih (List.Pairwise.of_cons h)]
    · have hnone := filter_eq_nil_of_descending h hp hx
      have hall : (x :: l).filter (fun y ↦ !p y) = x :: l := by
        apply List.filter_eq_self.mpr
        intro y hy
        rcases List.mem_cons.mp hy with rfl | hy
        · simp [hx]
        · simpa using List.filter_eq_nil_iff.mp hnone y hy
      rw [List.filter_cons_of_neg hx, hnone, hall, List.nil_append]

theorem Descending.mem_take_iff (h : Descending key l) {x : α} (hx : x ∈ l) (n : ℕ) :
    x ∈ l.take n ↔ l.countP (fun y ↦ decide (key x < key y)) < n := by
  induction l generalizing n with
  | nil => cases hx
  | cons a l ih =>
    cases n with
    | zero => simp
    | succ n =>
      rw [List.take_succ_cons, List.countP_cons]
      rcases List.mem_cons.mp hx with rfl | hx
      · have hnone : l.countP (fun y ↦ decide (key x < key y)) = 0 := by
          apply List.countP_eq_zero.mpr
          intro y hy hlt
          exact lt_asymm (of_decide_eq_true hlt) (List.rel_of_pairwise_cons h hy)
        simp [hnone]
      · have hlt := List.rel_of_pairwise_cons h hx
        have hne : x ≠ a := by
          intro heq
          rw [heq] at hlt
          exact lt_irrefl _ hlt
        rw [List.mem_cons, or_iff_right hne, ih (List.Pairwise.of_cons h) hx n, if_pos (decide_eq_true hlt)]
        omega

/-- A page of at most `limit` elements, with the cursor of the last one if there are more. -/
def cut (limit : ℕ) (encode : α → γ) (l : List α) : List α × Option γ :=
  (l.take limit, if limit < l.length then (l.take limit).getLast?.map encode else none)

/-- The elements of all pages, from a cursor on; `none` if there is no last page in time. -/
def follow (page : Option γ → List α × Option γ) : ℕ → Option γ → Option (List α)
  | 0, _ => none
  | fuel + 1, cursor =>
    match (page cursor).2 with
    | none => some (page cursor).1
    | some next => (follow page fuel (some next)).map ((page cursor).1 ++ ·)

theorem follow_unique {page : Option γ → List α × Option γ} {cursor : Option γ} {m n : ℕ}
    {a b : List α} (ha : follow page m cursor = some a) (hb : follow page n cursor = some b) :
    a = b := by
  induction m generalizing n cursor a b with
  | zero => cases ha
  | succ m ih =>
    cases n with
    | zero => cases hb
    | succ n =>
      rw [follow] at ha hb
      cases hnext : (page cursor).2 with
      | none =>
        rw [hnext] at ha hb
        exact Option.some.inj (ha.symm.trans hb)
      | some next =>
        rw [hnext] at ha hb
        obtain ⟨x, hx, rfl⟩ := Option.map_eq_some_iff.mp ha
        obtain ⟨y, hy, rfl⟩ := Option.map_eq_some_iff.mp hb
        rw [ih hx hy]

theorem filter_after {before after : List α} {x : α}
    (h : Descending key (before ++ x :: after)) :
    (before ++ x :: after).filter (fun y ↦ decide (key y < key x)) = after := by
  obtain ⟨-, htail, hbefore⟩ := List.pairwise_append.mp h
  rw [List.filter_append, List.filter_cons_of_neg (by simp)]
  have hnone : before.filter (fun y ↦ decide (key y < key x)) = [] := by
    apply List.filter_eq_nil_iff.mpr
    intro y hy
    rw [decide_eq_true_eq]
    exact lt_asymm (hbefore y hy x List.mem_cons_self)
  rw [hnone, List.nil_append]
  apply List.filter_eq_self.mpr
  intro y hy
  exact decide_eq_true (List.rel_of_pairwise_cons htail hy)

theorem follow_eq {page : Option γ → List α × Option γ} {limit : ℕ} {encode : α → γ}
    (hlimit : 0 < limit) (hs : Descending key s)
    (hnext : ∀ x ∈ s, page (some (encode x)) =
      cut limit encode (s.filter fun y ↦ decide (key y < key x)))
    {before rest : List α} (hsplit : s = before ++ rest) {cursor : Option γ}
    (hcursor : page cursor = cut limit encode rest) {fuel : ℕ} (hfuel : rest.length < fuel) :
    follow page fuel cursor = some rest := by
  induction fuel generalizing before rest cursor with
  | zero => omega
  | succ fuel ih =>
    rw [follow, hcursor, cut]
    by_cases hmore : limit < rest.length
    · have hne : rest.take limit ≠ [] := by
        apply List.ne_nil_of_length_pos
        rw [List.length_take]
        omega
      obtain ⟨init, last, hlast⟩ := (List.eq_nil_or_concat (rest.take limit)).resolve_left hne
      rw [List.concat_eq_append] at hlast
      have hrest : rest = (init ++ [last]) ++ rest.drop limit := by
        rw [← hlast, List.take_append_drop]
      have hwhole : s = (before ++ init) ++ last :: rest.drop limit := by
        rw [hsplit, List.append_assoc]
        exact congrArg (before ++ ·) (hrest.trans (List.append_assoc init [last] _))
      have hpage : page (some (encode last)) = cut limit encode (rest.drop limit) := by
        rw [hnext last (hwhole ▸ List.mem_append_right _ List.mem_cons_self)]
        have hafter := filter_after (hwhole ▸ hs)
        rw [hwhole, hafter]
      have hstep := ih (hwhole.trans (List.append_cons _ _ _)) hpage (by
        rw [List.length_drop]
        omega)
      rw [if_pos hmore, hlast, List.getLast?_concat]
      dsimp only [Option.map_some]
      rw [hstep, Option.map_some, ← hrest]
    · rw [if_neg hmore, List.take_of_length_le (Nat.le_of_not_lt hmore)]

/-- The first `cap` elements of the pages, and whether a page is left; `none` if there is no last
page in time. -/
def gather (page : Option γ → List α × Option γ) (cap : ℕ) :
    ℕ → Option γ → List α → Option (List α × Bool)
  | 0, _, _ => none
  | fuel + 1, cursor, rows =>
    match page cursor with
    | ([], _) => some (rows, false)
    | (items, next) =>
      if cap ≤ (rows ++ items).length then some ((rows ++ items).take cap, next.isSome)
      else
        match next with
        | none => some (rows ++ items, false)
        | some next => gather page cap fuel (some next) (rows ++ items)

theorem gather_nil {page : Option γ → List α × Option γ} {cap fuel : ℕ} {cursor next : Option γ}
    {rows : List α} (h : page cursor = ([], next)) :
    gather page cap (fuel + 1) cursor rows = some (rows, false) := by
  rw [gather, h]

theorem gather_of_ne_nil {page : Option γ → List α × Option γ} {cap fuel : ℕ} {cursor next : Option γ}
    {rows items : List α} (h : page cursor = (items, next)) (hne : items ≠ []) :
    gather page cap (fuel + 1) cursor rows =
      if cap ≤ (rows ++ items).length then some ((rows ++ items).take cap, next.isSome)
      else next.elim (some (rows ++ items, false)) fun next ↦
        gather page cap fuel (some next) (rows ++ items) := by
  obtain ⟨x, xs, rfl⟩ := List.exists_cons_of_ne_nil hne
  rw [gather, h]
  cases next <;> rfl

/-- Pages of which a whole number fills the cap are gathered up to it, and the loop knows whether
there are more elements. -/
theorem gather_eq {page : Option γ → List α × Option γ} {limit cap : ℕ} {encode : α → γ}
    (hlimit : 0 < limit) (hs : Descending key s)
    (hnext : ∀ x ∈ s, page (some (encode x)) =
      cut limit encode (s.filter fun y ↦ decide (key y < key x)))
    {before rest : List α} (hsplit : s = before ++ rest) {cursor : Option γ}
    (hcursor : page cursor = cut limit encode rest) {n fuel : ℕ}
    (hroom : before.length + (n + 1) * limit = cap) (hfuel : n < fuel) :
    gather page cap fuel cursor before = some (s.take cap, decide (cap < s.length)) := by
  induction fuel generalizing n before rest cursor with
  | zero => exact absurd hfuel (Nat.not_lt_zero n)
  | succ fuel ih =>
    have hlen : s.length = before.length + rest.length := by rw [hsplit, List.length_append]
    have hmul : (n + 1) * limit = n * limit + limit := Nat.succ_mul n limit
    have htotal : (before ++ rest.take limit).length = before.length + min limit rest.length := by
      rw [List.length_append, List.length_take]
    by_cases hnil : rest = []
    · have hpage : page cursor = ([], none) := by
        rw [hcursor, cut, hnil, List.take_nil, List.length_nil, if_neg (Nat.not_lt_zero limit)]
      have hshort : s.length ≤ cap := by
        rw [hlen, hnil, List.length_nil]
        omega
      rw [gather_nil hpage, List.take_of_length_le hshort, decide_eq_false (by omega), hsplit, hnil,
        List.append_nil]
    · have hpos : 0 < rest.length := List.length_pos_iff.mpr hnil
      have hne : rest.take limit ≠ [] := by
        refine List.ne_nil_of_length_pos ?_
        rw [List.length_take]
        omega
      rw [gather_of_ne_nil hcursor hne]
      split
      · rename_i hfull
        -- the last page that was wanted
        rw [htotal] at hfull
        have hn : n * limit = 0 := by omega
        have hcap : cap = before.length + limit := by omega
        have htake : s.take cap = before ++ rest.take limit := by
          rw [hsplit, hcap, List.take_length_add_append]
        obtain ⟨last, hlast⟩ := Option.isSome_iff_exists.mp (List.getLast?_isSome.mpr hne)
        rw [htake, List.take_of_length_le (by rw [htotal]; omega), hlast]
        by_cases hmore : limit < rest.length
        · rw [if_pos hmore, decide_eq_true (by omega)]
          rfl
        · rw [if_neg hmore, decide_eq_false (by omega)]
          rfl
      · rename_i hroomy
        rw [htotal] at hroomy
        by_cases hmore : limit < rest.length
        · obtain ⟨init, last, hlast⟩ := (List.eq_nil_or_concat (rest.take limit)).resolve_left hne
          rw [List.concat_eq_append] at hlast
          have hrest : rest = (init ++ [last]) ++ rest.drop limit := by
            rw [← hlast, List.take_append_drop]
          have hwhole : s = (before ++ init) ++ last :: rest.drop limit := by
            rw [hsplit, List.append_assoc]
            exact congrArg (before ++ ·) (hrest.trans (List.append_assoc init [last] _))
          have hpage : page (some (encode last)) = cut limit encode (rest.drop limit) := by
            rw [hnext last (hwhole ▸ List.mem_append_right _ List.mem_cons_self)]
            have hafter := filter_after (hwhole ▸ hs)
            rw [hwhole, hafter]
          obtain ⟨m, rfl⟩ : ∃ m, n = m + 1 := by
            refine Nat.exists_eq_add_one_of_ne_zero fun hzero ↦ ?_
            subst hzero
            omega
          have hlength : (before ++ rest.take limit).length + (m + 1) * limit = cap := by
            rw [htotal, Nat.min_eq_left hmore.le]
            omega
          rw [if_pos hmore, hlast, List.getLast?_concat]
          refine ih (hwhole.trans ?_) hpage (hlast ▸ hlength) (by omega)
          rw [List.append_cons, List.append_assoc before]
        · rw [if_neg hmore, List.take_of_length_le (Nat.le_of_not_lt hmore), ← hsplit]
          have hshort : s.length < cap := by omega
          rw [List.take_of_length_le hshort.le, decide_eq_false (by omega)]
          rfl

end QueQiao.Lib.Paging
