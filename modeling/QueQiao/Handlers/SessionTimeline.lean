import QueQiao.Db.ActiveListing

namespace QueQiao.SessionTimeline

open RecordsQuery Lib.Paging ErrorLogApi

section Timeline

variable {α : Type}

def timelineMaxItems : ℕ := 2500

/-- `others` stands for the filters on the type, the model, the client and the backend. -/
structure TimelineParams (α : Type) where
  sessionId : Option Text := none
  fromMs : Option ℤ := none
  toMs : Option ℤ := none
  others : Record α → Bool := fun _ ↦ true

structure Timeline (α : Type) where
  sessionId : Text
  items : List (Record α)
  total : ℤ
  totalExact : Bool

def TimelineParams.list (params : TimelineParams α) : ListParams α where
  fromMs := params.fromMs
  toMs := params.toMs
  others := params.others
  limit := some (min timelineMaxItems 500 : ℕ)

def itemKey (item : Record α) : ℤ ×ₗ ℤ := toLex (item.timeMs.getD 0, item.id)

def sortAscending (items : List (Record α)) : List (Record α) :=
  items.mergeSort fun a b ↦ decide (itemKey a ≤ itemKey b)

/-- The mode with a session id, which is that of the column `sessionId`. -/
def sessionMode (sessionId : α → Option Text) (store : Shard α) (params : TimelineParams α) :
    Option (Timeline α) :=
  ((params.sessionId.map trim).filter (· ≠ [])).map fun id ↦
    let page := queryRecordsActive store params.list
    let exact := page.items.filter fun item ↦ sessionId item.data = some id
    { sessionId := id
      items := sortAscending exact
      total := page.total
      totalExact := page.totalExact }

variable (sessionId : α → Option Text) (store : Shard α) (params : TimelineParams α) (id : Text)

def sessionRecords : List (Record α) :=
  (countedRows store params.list).filter fun row ↦ sessionId row.data = some id

/-- All records of the session are returned, each once, or as many as one timeline returns. -/
structure Complete (timeline : Timeline α) : Prop where
  nodup : timeline.items.Nodup
  items : ∀ item ∈ timeline.items, item ∈ sessionRecords sessionId store params timeline.sessionId
  length : timeline.items.length =
    min timelineMaxItems (sessionRecords sessionId store params timeline.sessionId).length

def newer (row : Record α) : ℕ :=
  (countedRows store params.list).countP fun other ↦ decide (row.order < other.order)

variable {sessionId store params id}

theorem Complete.perm {timeline : Timeline α} (h : Complete sessionId store params timeline)
    (hfew : (sessionRecords sessionId store params timeline.sessionId).length ≤ timelineMaxItems) :
    timeline.items.Perm (sessionRecords sessionId store params timeline.sessionId) := by
  refine (List.subperm_of_subset h.nodup h.items).perm_of_length_le ?_
  rw [h.length, Nat.min_eq_right hfew]

theorem page_items : (queryRecordsActive store params.list).items =
    (newestFirst store params.list).take 500 := congrArg Prod.fst (firstPage_eq store params.list)

theorem items_perm {timeline : Timeline α} (h : sessionMode sessionId store params = some timeline) :
    timeline.items.Perm (((newestFirst store params.list).take 500).filter
      fun row ↦ sessionId row.data = some timeline.sessionId) := by
  obtain ⟨id, -, rfl⟩ := Option.map_eq_some_iff.mp h
  rw [← page_items]
  exact List.mergeSort_perm _ _

theorem sessionRecords_perm : (sessionRecords sessionId store params id).Perm
    ((newestFirst store params.list).filter fun row ↦ sessionId row.data = some id) :=
  (sortDesc_perm Record.order (countedRows store params.list)).symm.filter _

theorem newer_eq (row : Record α) : newer store params row =
    (newestFirst store params.list).countP fun other ↦ decide (row.order < other.order) :=
  ((sortDesc_perm Record.order (countedRows store params.list)).countP_eq _).symm

theorem window_iff : (((newestFirst store params.list).take 500).filter
      fun row ↦ sessionId row.data = some id).length =
        ((newestFirst store params.list).filter fun row ↦ sessionId row.data = some id).length ↔
      ∀ row ∈ sessionRecords sessionId store params id, newer store params row < 500 := by
  have hdesc := newestFirst_descending store params.list
  have hsub : (((newestFirst store params.list).take 500).filter
      fun row ↦ sessionId row.data = some id).Sublist
        ((newestFirst store params.list).filter fun row ↦ sessionId row.data = some id) :=
    (List.take_sublist _ _).filter _
  constructor
  · intro hlength row hrow
    have hmem := sessionRecords_perm.mem_iff.mp hrow
    have hwindow := hmem
    rw [← hsub.eq_of_length hlength] at hwindow
    rw [newer_eq, ← hdesc.mem_take_iff (List.mem_filter.mp hmem).1]
    exact (List.mem_filter.mp hwindow).1
  · intro h
    apply hsub.length_le.antisymm
    apply (hdesc.nodup.filter _).subperm _ |>.length_le
    intro row hrow
    have hnewer := h row (sessionRecords_perm.mem_iff.mpr hrow)
    obtain ⟨hmem, hsession⟩ := List.mem_filter.mp hrow
    rw [newer_eq, ← hdesc.mem_take_iff hmem] at hnewer
    exact List.mem_filter.mpr ⟨hnewer, hsession⟩

/-- A timeline has all records of its session just when fewer than 500 records, of any session,
are newer than its oldest one. -/
theorem complete_iff_window {timeline : Timeline α}
    (h : sessionMode sessionId store params = some timeline) :
    Complete sessionId store params timeline ↔
      ∀ row ∈ sessionRecords sessionId store params timeline.sessionId,
        newer store params row < 500 := by
  have hperm := items_perm h
  have hrecords := @sessionRecords_perm _ sessionId store params timeline.sessionId
  have hshort : timeline.items.length ≤ 500 := by
    rw [hperm.length_eq]
    exact (List.length_filter_le _ _).trans (List.length_take_le _ _)
  rw [← window_iff, ← hperm.length_eq, ← hrecords.length_eq]
  constructor
  · intro hcomplete
    have hlength := hcomplete.length
    rw [timelineMaxItems] at hlength
    omega
  · intro hlength
    have hnodup := (newestFirst_descending store params.list).nodup.sublist (List.take_sublist 500 _)
    refine ⟨hperm.nodup_iff.mpr (hnodup.filter _), fun item hitem ↦ ?_, ?_⟩
    · obtain ⟨hmem, hsession⟩ := List.mem_filter.mp (hperm.mem_iff.mp hitem)
      exact hrecords.mem_iff.mpr (List.mem_filter.mpr ⟨List.mem_of_mem_take hmem, hsession⟩)
    · rw [timelineMaxItems]
      omega

end Timeline

section Crowded

def crowdedRow (i : ℕ) : Record Text := ⟨i, some i, if i = 0 then ['A'] else ['B']⟩

def crowded (n : ℕ) (h : (n : ℤ) ≤ 0x7fffffffffffffff) : Shard Text where
  id := activeShard
  rows := (List.range n).map crowdedRow
  nodup := by
    rw [List.map_map]
    exact List.nodup_range.map fun i j hij ↦ Int.ofNat.inj hij
  ids := by
    intro row hrow
    obtain ⟨i, hi, rfl⟩ := List.mem_map.mp hrow
    rw [List.mem_range] at hi
    change I64 (i : ℤ)
    rw [I64]
    omega
  times := by
    intro row hrow t ht
    obtain ⟨i, hi, rfl⟩ := List.mem_map.mp hrow
    rw [List.mem_range] at hi
    obtain rfl := Option.some.inj ht
    rw [I64]
    omega

def ofSession (id : Text) : TimelineParams Text := { sessionId := some id }

theorem crowded_counted (n : ℕ) (h : (n : ℤ) ≤ 0x7fffffffffffffff) (id : Text) :
    countedRows (crowded n h) (ofSession id).list = (List.range n).map crowdedRow :=
  List.filter_eq_self.mpr fun _ _ ↦ rfl

theorem complete_iff_window_three :
    ∃ timeline, sessionMode some (crowded 3 (by decide)) (ofSession ['A']) = some timeline ∧
      (Complete some (crowded 3 (by decide)) (ofSession ['A']) timeline ↔
        ∀ row ∈ sessionRecords some (crowded 3 (by decide)) (ofSession ['A']) timeline.sessionId,
          newer (crowded 3 (by decide)) (ofSession ['A']) row < 500) :=
  ⟨_, rfl, complete_iff_window rfl⟩

theorem crowded_session_empty :
    ∃ timeline, sessionMode some (crowded 501 (by decide)) (ofSession ['A']) = some timeline ∧
      timeline.items = [] ∧ ¬Complete some (crowded 501 (by decide)) (ofSession ['A']) timeline := by
  have hstore : ((501 : ℕ) : ℤ) ≤ 0x7fffffffffffffff := by decide
  have hcounted := crowded_counted 501 hstore ['A']
  have hnewer : newer (crowded 501 hstore) (ofSession ['A']) (crowdedRow 0) = 500 := by
    rw [newer, hcounted]
    decide +kernel
  have hsession : ∀ row ∈ sessionRecords some (crowded 501 hstore) (ofSession ['A']) ['A'],
      row = crowdedRow 0 := by
    intro row hrow
    obtain ⟨hmem, hdata⟩ := List.mem_filter.mp hrow
    rw [hcounted] at hmem
    obtain ⟨i, -, rfl⟩ := List.mem_map.mp hmem
    by_cases hi : i = 0
    · rw [hi]
    · rw [crowdedRow, if_neg hi] at hdata
      change decide (some ['B'] = some ['A']) = true at hdata
      exact absurd hdata (by decide)
  have hoccurs : crowdedRow 0 ∈ sessionRecords some (crowded 501 hstore) (ofSession ['A']) ['A'] := by
    refine List.mem_filter.mpr ⟨?_, by decide⟩
    rw [hcounted]
    exact List.mem_map_of_mem (List.mem_range.mpr (by decide))
  refine ⟨_, rfl, ?_⟩
  have hitems := @items_perm _ some (crowded 501 hstore) (ofSession ['A']) _ rfl
  have hempty : ((newestFirst (crowded 501 hstore) (ofSession ['A']).list).take 500).filter
      (fun row ↦ some row.data = some ['A']) = [] := by
    apply List.filter_eq_nil_iff.mpr
    intro row hrow hdata
    have hmem := List.mem_of_mem_take hrow
    have hrecord := sessionRecords_perm.mem_iff.mpr (List.mem_filter.mpr ⟨hmem, hdata⟩)
    rw [(newestFirst_descending _ _).mem_take_iff hmem, ← newer_eq, hsession row hrecord, hnewer]
      at hrow
    exact lt_irrefl _ hrow
  have hnil := (hempty ▸ hitems).eq_nil
  refine ⟨hnil, fun h ↦ ?_⟩
  have hlength := h.length
  rw [hnil] at hlength
  have hpos := List.length_pos_of_mem hoccurs
  change 0 = min timelineMaxItems
    (sessionRecords some (crowded 501 hstore) (ofSession ['A']) ['A']).length at hlength
  rw [timelineMaxItems] at hlength
  omega

end Crowded

end QueQiao.SessionTimeline
