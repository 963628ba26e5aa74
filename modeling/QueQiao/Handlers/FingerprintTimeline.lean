import QueQiao.Db.SessionFingerprint
import QueQiao.Handlers.LogScan
import QueQiao.Handlers.SessionTimeline
import QueQiao.Lib.Buckets

namespace QueQiao.SessionTimeline

open ErrorLogApi Lib.Buckets Lib.Paging RecordsQuery
open ErrorLogScan (stripPrefix)
open SessionFingerprint (FingerprintCache conversationFingerprint fingerprintCached)

def fingerprintScanCap : ℕ := 2000

section Model

-- the column with the session id, the request body of a record with the JSON parser, the digest and
-- the text of a JSON value
variable {α : Type} (sessionId : α → Option Text) (body : α → Option Json)
  (digest : String → String) (render : Json → String)

structure FingerprintGroups (α : Type) where
  groups : List (String × List (Record α))
  unassigned : ℕ
  truncated : Bool
  scanned : ℕ

/-- The loop over the records of the scan; `cache` is that of the process. -/
structure Grouping (α : Type) where
  cache : FingerprintCache
  groups : List (String × List (Record α)) := []
  unassigned : ℕ := 0

def groupRow (s : Grouping α) (row : Record α) : Grouping α :=
  if (sessionId row.data).isSome then s
  else
    match body row.data with
    | none => { s with unassigned := s.unassigned + 1 }
    | some request =>
      let found := fingerprintCached digest render s.cache row.id request
      match found.1 with
      | some fingerprint => { s with cache := found.2, groups := put fingerprint row s.groups }
      | none => { s with cache := found.2, unassigned := s.unassigned + 1 }

def TimelineParams.scan (params : TimelineParams α) : ListParams α where
  fromMs := params.fromMs
  toMs := params.toMs
  others := params.others
  limit := some (min fingerprintScanCap 500 : ℕ)

/-- `fuel` bounds the pages; five are enough. -/
def groupByFingerprint (fuel : ℕ) (store : Shard α) (params : TimelineParams α)
    (cache : FingerprintCache) : Option (FingerprintGroups α × FingerprintCache) :=
  (gather (activePages store params.scan) fingerprintScanCap fuel none []).map fun scan ↦
    let s := scan.1.foldl (groupRow sessionId body digest render) ⟨cache, [], 0⟩
    ({ groups := s.groups.map fun g ↦ (g.1, sortAscending g.2)
       unassigned := s.unassigned
       truncated := scan.2
       scanned := scan.1.length }, s.cache)

def normalizeFingerprint (raw : Text) : Text :=
  (stripPrefix "prefix:".toList (trim raw)).getD (trim raw)

/-- What is said of a group; the times, the model, the type and the client are those of its first
and its last record. -/
structure SessionSummary (α : Type) where
  fingerprint : String
  key : String
  count : ℕ
  first : Option (Record α)
  last : Option (Record α)

def summary (group : String × List (Record α)) : SessionSummary α where
  fingerprint := group.1
  key := "prefix:" ++ group.1
  count := group.2.length
  first := group.2.head?
  last := group.2.getLast?

structure FingerprintTimeline (α : Type) where
  fingerprint : Option Text
  items : List (Record α)
  sessions : List (SessionSummary α)
  scanned : ℕ
  unassigned : ℕ
  truncated : Bool

/-- The mode without a session id. The order in which the map of the groups is read is any. -/
def fingerprintMode (iter : List (String × List (Record α)) → List (String × List (Record α)))
    (fuel : ℕ) (store : Shard α) (params : TimelineParams α) (fingerprint : Option Text)
    (cache : FingerprintCache) : Option (FingerprintTimeline α × FingerprintCache) :=
  (groupByFingerprint sessionId body digest render fuel store params cache).map fun grouped ↦
    let wanted := (fingerprint.map normalizeFingerprint).filter (· ≠ [])
    ({ fingerprint := wanted
       items := (wanted.bind fun key ↦
         (grouped.1.groups.find? fun g ↦ g.1.toList = key).map Prod.snd).getD []
       sessions := ((iter grouped.1.groups).map summary).mergeSort fun a b ↦
         decide (b.count ≤ a.count)
       scanned := grouped.1.scanned
       unassigned := grouped.1.unassigned
       truncated := grouped.1.truncated }, grouped.2)

end Model

section Scan

variable {α : Type} {store : Shard α} {params : TimelineParams α}

theorem pageLimit_scan (params : TimelineParams α) : pageLimit params.scan = 500 := rfl

theorem firstPage_timed {list : ListParams α}
    (hmore : pageLimit list < (newestFirst store list).length)
    (htimed : pageLimit list ≤ (timedFirst store list).length) :
    ∃ last : Record α, activePages store list none =
        ((timedFirst store list).take (pageLimit list), some (encodeRow last)) ∧
      activePages store list (some (encodeRow last)) =
        cut (pageLimit list) encodeRow ((timedFirst store list).drop (pageLimit list)) := by
  have htake : (newestFirst store list).take (pageLimit list) =
      (timedFirst store list).take (pageLimit list) := by
    rw [← timedFirst_append store list, List.take_append_of_le_length htimed]
  have hne : (timedFirst store list).take (pageLimit list) ≠ [] := by
    have hpos := pageLimit_pos list
    refine List.ne_nil_of_length_pos ?_
    rw [List.length_take]
    omega
  obtain ⟨init, last, hlast⟩ := (List.eq_nil_or_concat _).resolve_left hne
  rw [List.concat_eq_append] at hlast
  have hsplit : timedFirst store list =
      init ++ last :: (timedFirst store list).drop (pageLimit list) := by
    rw [← List.singleton_append, ← List.append_assoc, ← hlast, List.take_append_drop]
  have hmem : last ∈ timedFirst store list := by
    rw [hsplit]
    exact List.mem_append_right _ List.mem_cons_self
  have hdesc : Descending Record.order (timedFirst store list) :=
    (newestFirst_descending store list).sublist List.filter_sublist
  refine ⟨last, ?_, ?_⟩
  · rw [firstPage_eq, cutActive, if_pos hmore, htake, hlast, List.getLast?_concat, Option.bind_some,
      activeCursor_eq (List.mem_filter.mp hmem).2]
  · have hafter := filter_after (hsplit ▸ hdesc)
    rw [← hsplit] at hafter
    rw [nextPage_eq hmem, hafter]

theorem firstPage_only {list : ListParams α} (h : (newestFirst store list).length ≤ pageLimit list ∨
      (timedFirst store list).length < pageLimit list) :
    activePages store list none = ((newestFirst store list).take (pageLimit list), none) := by
  rw [firstPage_eq, cutActive]
  split
  · rename_i hmore
    have huntimed := h.resolve_left (Nat.not_le.mpr hmore)
    refine Prod.ext rfl ?_
    have hfollow := follow_of_untimed hmore huntimed 0
    rw [follow, firstPage_eq, cutActive, if_pos hmore] at hfollow
    dsimp only at hfollow ⊢
    revert hfollow
    cases ((newestFirst store list).take (pageLimit list)).getLast?.bind activeCursor with
    | none => exact fun _ ↦ rfl
    | some cursor => exact fun hfollow ↦ by cases hfollow
  · rfl

theorem gather_only {fuel : ℕ} (hpage : activePages store params.scan none =
      ((newestFirst store params.scan).take 500, none))
    (hlisted : listedRows store params.scan = (newestFirst store params.scan).take 500) :
    gather (activePages store params.scan) fingerprintScanCap (fuel + 1) none [] =
      some ((listedRows store params.scan).take fingerprintScanCap,
        decide (fingerprintScanCap < (listedRows store params.scan).length)) := by
  have hshort : (listedRows store params.scan).length < fingerprintScanCap := by
    rw [hlisted, List.length_take, fingerprintScanCap]
    omega
  rw [List.take_of_length_le hshort.le, decide_eq_false (Nat.lt_asymm hshort)]
  rw [← hlisted] at hpage
  by_cases hnil : listedRows store params.scan = []
  · rw [hnil] at hpage ⊢
    exact gather_nil hpage
  · rw [gather_of_ne_nil hpage hnil, List.nil_append, if_neg (Nat.not_le.mpr hshort)]
    rfl

theorem gather_scan {fuel : ℕ} (hfuel : 5 ≤ fuel) :
    gather (activePages store params.scan) fingerprintScanCap fuel none [] =
      some ((listedRows store params.scan).take fingerprintScanCap,
        decide (fingerprintScanCap < (listedRows store params.scan).length)) := by
  obtain ⟨fuel, rfl⟩ := Nat.exists_eq_add_one_of_ne_zero (by omega : fuel ≠ 0)
  have hlimit := pageLimit_scan params
  by_cases hfew : (newestFirst store params.scan).length ≤ 500
  · refine gather_only (firstPage_only (.inl hfew)) ?_
    rw [listedRows, if_pos (hlimit ▸ hfew), List.take_of_length_le hfew]
  · have hmore : 500 < (newestFirst store params.scan).length := Nat.lt_of_not_le hfew
    by_cases htimed : 500 ≤ (timedFirst store params.scan).length
    · obtain ⟨last, hfirst, hnext⟩ := firstPage_timed (hlimit.symm ▸ hmore) (hlimit.symm ▸ htimed)
      rw [hlimit] at hfirst hnext
      have hlisted : listedRows store params.scan = timedFirst store params.scan := by
        rw [listedRows, if_neg (hlimit ▸ hfew), if_pos (hlimit ▸ htimed)]
      have hlength : ((timedFirst store params.scan).take 500).length = 500 := by
        rw [List.length_take, Nat.min_eq_left htimed]
      have hne : (timedFirst store params.scan).take 500 ≠ [] :=
        List.ne_nil_of_length_pos (by rw [hlength]; decide)
      have hdesc : Descending Record.order (timedFirst store params.scan) :=
        (newestFirst_descending store params.scan).sublist List.filter_sublist
      rw [gather_of_ne_nil hfirst hne, List.nil_append, hlength, if_neg (by decide),
        Option.elim_some,
        hlisted]
      refine gather_eq (n := 2) (by decide : 0 < 500) hdesc (fun row hrow ↦ nextPage_eq hrow)
        (List.take_append_drop 500 _).symm hnext ?_ (by omega)
      rw [hlength, fingerprintScanCap]
    · have huntimed := Nat.lt_of_not_le htimed
      refine gather_only (firstPage_only (.inr huntimed)) ?_
      rw [listedRows, if_neg (hlimit ▸ hfew), if_neg (hlimit ▸ htimed), hlimit]

end Scan

section Groups

variable {α : Type} {sessionId : α → Option Text} {body : α → Option Json}
  {digest : String → String} {render : Json → String} {rows done : List (Record α)} {row : Record α}
  {cache : FingerprintCache}

/-- The fingerprint under which a record belongs: none for one that has a session id. -/
def ownFingerprint (sessionId : α → Option Text) (body : α → Option Json) (digest : String → String)
    (render : Json → String) (row : Record α) : Option String :=
  if (sessionId row.data).isSome then none
  else (body row.data).bind (conversationFingerprint digest render)

/-- What is cached for the id of a record was made from a body with the same fingerprint. -/
def Faithful (body : α → Option Json) (digest : String → String) (render : Json → String)
    (rows : List (Record α)) (cache : FingerprintCache) : Prop :=
  ∀ row ∈ rows, ∀ request, body row.data = some request → ∀ cached,
    cache.entries.lookup row.id = some cached →
    conversationFingerprint digest render request = some cached.fingerprint

theorem fingerprintCached_faithful (hnodup : (rows.map Record.id).Nodup)
    (h : Faithful body digest render rows cache) (hrow : row ∈ rows) {request : Json}
    (hbody : body row.data = some request) :
    (fingerprintCached digest render cache row.id request).1 =
        conversationFingerprint digest render request ∧
      Faithful body digest render rows
        (fingerprintCached digest render cache row.id request).2 := by
  rw [fingerprintCached]
  cases hlookup : cache.entries.lookup row.id with
  | some hit => exact ⟨(h row hrow request hbody hit hlookup).symm, h⟩
  | none =>
    cases hcomputed : conversationFingerprint digest render request with
    | none => exact ⟨rfl, h⟩
    | some computed =>
      refine ⟨rfl, fun other hother request' hbody' cached hcached ↦ ?_⟩
      simp only [List.lookup_cons] at hcached
      split at hcached
      · rename_i hid
        cases hcached
        obtain rfl : other = row :=
          List.inj_on_of_nodup_map hnodup hother hrow (eq_of_beq hid)
        rw [← hcomputed, Option.some.inj (hbody.symm.trans hbody')]
      · split at hcached
        · cases hcached
        · exact h other hother request' hbody' cached hcached

theorem groupRow_cases (s : Grouping α) (row : Record α) :
    ((sessionId row.data).isSome ∧ groupRow sessionId body digest render s row = s) ∨
      (sessionId row.data).isSome = false ∧
        ((∃ cache, groupRow sessionId body digest render s row =
            ⟨cache, s.groups, s.unassigned + 1⟩) ∨
          ∃ cache f, groupRow sessionId body digest render s row =
            ⟨cache, put f row s.groups, s.unassigned⟩) := by
  rw [groupRow]
  split
  · rename_i hsession
    exact .inl ⟨hsession, rfl⟩
  · rename_i hsession
    refine .inr ⟨Bool.eq_false_iff.mpr hsession, ?_⟩
    split
    · exact .inl ⟨_, rfl⟩
    · dsimp only
      split
      · exact .inr ⟨_, _, rfl⟩
      · exact .inl ⟨_, rfl⟩

theorem groups_partition (rows : List (Record α)) (s : Grouping α) (hwf : Wf s.groups) :
    Wf (rows.foldl (groupRow sessionId body digest render) s).groups ∧
      size (rows.foldl (groupRow sessionId body digest render) s).groups +
          (rows.foldl (groupRow sessionId body digest render) s).unassigned +
          rows.countP (fun row ↦ (sessionId row.data).isSome) =
        size s.groups + s.unassigned + rows.length := by
  induction rows generalizing s with
  | nil => exact ⟨hwf, rfl⟩
  | cons row rows ih =>
    rw [List.foldl_cons, List.countP_cons, List.length_cons]
    rcases @groupRow_cases _ sessionId body digest render s row with
      ⟨hsession, hsame⟩ | ⟨hsession, ⟨cache, hnew⟩ | ⟨cache, f, hnew⟩⟩
    · rw [hsame, if_pos hsession]
      obtain ⟨hrest, hcount⟩ := ih s hwf
      exact ⟨hrest, by omega⟩
    · rw [hnew, hsession, if_neg Bool.false_ne_true]
      obtain ⟨hrest, hcount⟩ := ih ⟨cache, s.groups, s.unassigned + 1⟩ hwf
      exact ⟨hrest, by dsimp only at hcount ⊢; omega⟩
    · rw [hnew, hsession, if_neg Bool.false_ne_true]
      obtain ⟨hrest, hcount⟩ := ih ⟨cache, put f row s.groups, s.unassigned⟩ (hwf.put f row)
      have hput : size (put f row s.groups) = size s.groups + 1 := size_put
      exact ⟨hrest, by dsimp only at hcount ⊢; omega⟩

theorem groupRow_own (hnodup : (rows.map Record.id).Nodup) {s : Grouping α}
    (h : Faithful body digest render rows s.cache) (hrow : row ∈ rows) :
    Faithful body digest render rows (groupRow sessionId body digest render s row).cache ∧
      (groupRow sessionId body digest render s row).groups =
        (ownFingerprint sessionId body digest render row).elim s.groups (put · row s.groups) := by
  rw [groupRow, ownFingerprint]
  split
  · exact ⟨h, rfl⟩
  · cases hbody : body row.data with
    | none => exact ⟨h, rfl⟩
    | some request =>
      obtain ⟨hfound, hkept⟩ := fingerprintCached_faithful hnodup h hrow hbody
      dsimp only
      rw [hfound, Option.bind_some]
      cases conversationFingerprint digest render request with
      | none => exact ⟨hkept, rfl⟩
      | some fingerprint => exact ⟨hkept, rfl⟩

theorem groups_exact (hnodup : (rows.map Record.id).Nodup)
    (h : Faithful body digest render rows cache)
    (hdone : ∀ row ∈ done, row ∈ rows) :
    let s := done.foldl (groupRow sessionId body digest render) ⟨cache, [], 0⟩
    Faithful body digest render rows s.cache ∧ ∀ f, bucket s.groups f =
      done.filter fun row ↦ ownFingerprint sessionId body digest render row = some f := by
  induction done using List.reverseRecOn with
  | nil => exact ⟨h, fun _ ↦ rfl⟩
  | append_singleton done row ih =>
    obtain ⟨hcache, hbucket⟩ := ih fun r hr ↦ hdone r (List.mem_append_left _ hr)
    have hrow := hdone row (List.mem_append_right _ (List.mem_singleton_self row))
    simp only [List.foldl_append, List.foldl_cons, List.foldl_nil]
    generalize done.foldl (groupRow sessionId body digest render) ⟨cache, [], 0⟩ = s
      at hcache hbucket ⊢
    obtain ⟨hkept, hgroups⟩ := @groupRow_own _ sessionId body digest render _ _ hnodup s hcache hrow
    refine ⟨hkept, fun f ↦ ?_⟩
    rw [hgroups, List.filter_append, ← hbucket]
    cases hown : ownFingerprint sessionId body digest render row with
    | none =>
      rw [List.filter_cons_of_neg (by simp [hown]), List.filter_nil, List.append_nil]
      rfl
    | some fingerprint =>
      rw [Option.elim_some, bucket_put]
      by_cases hf : fingerprint = f
      · rw [if_pos hf, hf, List.filter_cons_of_pos (by simp [hown, hf]), List.filter_nil]
      · rw [if_neg hf, List.filter_cons_of_neg (by simp [hown, hf]), List.filter_nil,
          List.append_nil]

end Groups

section Timeline

variable {α : Type} {sessionId : α → Option Text} {body : α → Option Json}
  {digest : String → String} {render : Json → String} {store : Shard α} {params : TimelineParams α}
  {cache : FingerprintCache}

def scannedRows (store : Shard α) (params : TimelineParams α) : List (Record α) :=
  (listedRows store params.scan).take fingerprintScanCap

theorem scannedRows_nodup (store : Shard α) (params : TimelineParams α) :
    ((scannedRows store params).map Record.id).Nodup := by
  have hcounted : ((countedRows store params.scan).map Record.id).Nodup :=
    store.nodup.sublist (List.filter_sublist.map _)
  have hnewest : ((newestFirst store params.scan).map Record.id).Nodup :=
    ((sortDesc_perm Record.order (countedRows store params.scan)).map _).nodup_iff.mpr hcounted
  exact hnewest.sublist
    (((List.take_sublist _ _).trans (listedRows_sublist store params.scan)).map _)

def conversation (sessionId : α → Option Text) (body : α → Option Json) (digest : String → String)
    (render : Json → String) (store : Shard α) (params : TimelineParams α) (f : String) :
    List (Record α) :=
  sortAscending ((scannedRows store params).filter fun row ↦
    ownFingerprint sessionId body digest render row = some f)

theorem sortAscending_perm (items : List (Record α)) : (sortAscending items).Perm items :=
  List.mergeSort_perm _ _

theorem normalize_key {f : Text} (hne : f ≠ []) (hblank : ∀ c ∈ f, isWhiteSpace c = false) :
    normalizeFingerprint ("prefix:".toList ++ f) = f := by
  obtain ⟨init, last, hlast⟩ := (List.eq_nil_or_concat f).resolve_left hne
  rw [List.concat_eq_append] at hlast
  have hend : isWhiteSpace last = false :=
    hblank last (hlast ▸ List.mem_append_right _ (List.mem_singleton_self last))
  have htrim : trim ("prefix:".toList ++ f) = "prefix:".toList ++ f := by
    have hstart : trimStart ("prefix:".toList ++ f) = "prefix:".toList ++ f :=
      List.dropWhile_cons_of_neg (by decide)
    rw [trim, hstart, hlast, ← List.append_assoc, trimEnd_concat hend]
  rw [normalizeFingerprint, htrim, stripPrefix, if_pos (List.prefix_append _ _), List.drop_left,
    Option.getD_some]

structure Told (sessionId : α → Option Text) (body : α → Option Json) (digest : String → String)
    (render : Json → String) (store : Shard α) (params : TimelineParams α)
    (timeline : FingerprintTimeline α) : Prop where
  items : ∀ f : String, timeline.fingerprint = some f.toList →
    timeline.items = conversation sessionId body digest render store params f
  sessions : ∀ e, e ∈ timeline.sessions ↔
    ∃ f, conversation sessionId body digest render store params f ≠ [] ∧
      e = summary (f, conversation sessionId body digest render store params f)

theorem find_toList (groups : List (String × List (Record α))) (f : String) :
    groups.find? (fun g ↦ g.1.toList = f.toList) = groups.find? (·.1 = f) := by
  refine congrArg (List.find? · groups) (funext fun g ↦ ?_)
  exact decide_eq_decide.mpr String.toList_inj

theorem bucket_map {groups : List (String × List (Record α))} (f : String) :
    (((groups.map fun g ↦ (g.1, sortAscending g.2)).find? fun g ↦ g.1.toList = f.toList).map
      Prod.snd).getD [] = sortAscending (bucket groups f) := by
  rw [find_toList, List.find?_map, Option.map_map, bucket]
  change ((groups.find? (·.1 = f)).map fun g ↦ sortAscending g.2).getD [] = _
  cases groups.find? (·.1 = f) with
  | none =>
    change [] = sortAscending []
    rw [sortAscending, List.mergeSort_nil]
  | some g => rfl

variable {iter : List (String × List (Record α)) → List (String × List (Record α))}
  {groups : List (String × List (Record α))}

def summaries (iter : List (String × List (Record α)) → List (String × List (Record α)))
    (groups : List (String × List (Record α))) : List (SessionSummary α) :=
  ((iter (groups.map fun g ↦ (g.1, sortAscending g.2))).map summary).mergeSort
    fun a b ↦ decide (b.count ≤ a.count)

theorem summaries_perm (hiter : ∀ groups, (iter groups).Perm groups) :
    (summaries iter groups).Perm (groups.map fun g ↦ summary (g.1, sortAscending g.2)) := by
  refine (List.mergeSort_perm _ _).trans (((hiter _).map summary).trans ?_)
  rw [List.map_map]
  exact .refl _

theorem summaries_sorted : (summaries iter groups).Pairwise fun a b ↦ b.count ≤ a.count := by
  refine (List.pairwise_mergeSort (fun a b c hab hbc ↦ ?_) (fun a b ↦ ?_) _).imp fun h ↦
    of_decide_eq_true h
  · exact decide_eq_true ((of_decide_eq_true hbc).trans (of_decide_eq_true hab))
  · rw [Bool.or_eq_true, decide_eq_true_eq, decide_eq_true_eq]
    exact Nat.le_total _ _

theorem summaries_count (hiter : ∀ groups, (iter groups).Perm groups) :
    ((summaries iter groups).map SessionSummary.count).sum = size groups := by
  rw [((summaries_perm hiter).map SessionSummary.count).sum_eq, List.map_map, size]
  refine congrArg List.sum (List.map_congr_left fun g _ ↦ ?_)
  exact (sortAscending_perm g.2).length_eq

theorem summaries_nodup (hiter : ∀ groups, (iter groups).Perm groups) (hwf : Wf groups) :
    ((summaries iter groups).map SessionSummary.fingerprint).Nodup := by
  rw [((summaries_perm hiter).map SessionSummary.fingerprint).nodup_iff, List.map_map]
  exact hwf.nodup

theorem mem_summaries (hiter : ∀ groups, (iter groups).Perm groups) (hwf : Wf groups)
    (hbucket : ∀ f, bucket groups f = (scannedRows store params).filter fun row ↦
      ownFingerprint sessionId body digest render row = some f) (e : SessionSummary α) :
    e ∈ summaries iter groups ↔
      ∃ f, conversation sessionId body digest render store params f ≠ [] ∧
        e = summary (f, conversation sessionId body digest render store params f) := by
  have hconversation (f : String) : conversation sessionId body digest render store params f =
      sortAscending (bucket groups f) := by rw [hbucket, conversation]
  have hnil (items : List (Record α)) : sortAscending items ≠ [] ↔ items ≠ [] :=
    not_congr ⟨fun h ↦ (h ▸ sortAscending_perm items).nil_eq.symm, fun h ↦ by
      rw [h, sortAscending, List.mergeSort_nil]⟩
  rw [(summaries_perm hiter).mem_iff, List.mem_map]
  constructor
  · rintro ⟨⟨f, items⟩, hmem, rfl⟩
    obtain ⟨rfl, hne⟩ := hwf.mem_iff.mp hmem
    exact ⟨f, by rw [hconversation, hnil]; exact hne, by rw [hconversation]⟩
  · rintro ⟨f, hne, rfl⟩
    rw [hconversation, hnil] at hne
    exact ⟨(f, bucket groups f), hwf.mem_iff.mpr ⟨rfl, hne⟩, by rw [hconversation]⟩

def grouping (sessionId : α → Option Text) (body : α → Option Json) (digest : String → String)
    (render : Json → String) (store : Shard α) (params : TimelineParams α)
    (cache : FingerprintCache) :
    Grouping α :=
  (scannedRows store params).foldl (groupRow sessionId body digest render) ⟨cache, [], 0⟩

def itemsOf (groups : List (String × List (Record α))) (wanted : Option Text) : List (Record α) :=
  (wanted.bind fun key ↦ ((groups.map fun g ↦ (g.1, sortAscending g.2)).find? fun g ↦
    g.1.toList = key).map Prod.snd).getD []

theorem fingerprintMode_eq {fuel : ℕ} (hfuel : 5 ≤ fuel) (fingerprint : Option Text) :
    fingerprintMode sessionId body digest render iter fuel store params fingerprint cache =
      some ({
        fingerprint := (fingerprint.map normalizeFingerprint).filter (· ≠ [])
        items := itemsOf (grouping sessionId body digest render store params cache).groups
          ((fingerprint.map normalizeFingerprint).filter (· ≠ []))
        sessions := summaries iter (grouping sessionId body digest render store params cache).groups
        scanned := (scannedRows store params).length
        unassigned := (grouping sessionId body digest render store params cache).unassigned
        truncated := decide (fingerprintScanCap < (listedRows store params.scan).length) },
        (grouping sessionId body digest render store params cache).cache) := by
  rw [fingerprintMode, groupByFingerprint, gather_scan hfuel]
  rfl

theorem itemsOf_eq (hcache : Faithful body digest render (scannedRows store params) cache)
    (f : String) :
    itemsOf (grouping sessionId body digest render store params cache).groups (some f.toList) =
      conversation sessionId body digest render store params f := by
  obtain ⟨-, hbucket⟩ := @groups_exact _ sessionId _ _ _ _ (scannedRows store params) _
    (scannedRows_nodup store params) hcache fun _ h ↦ h
  rw [itemsOf, Option.bind_some, bucket_map, grouping, hbucket, conversation]

theorem exists_digest {request : Json} {f : String}
    (h : conversationFingerprint digest render request = some f) : ∃ text, f = digest text := by
  simp only [conversationFingerprint, Option.bind_eq_bind, Option.bind_eq_some_iff] at h
  obtain ⟨messages, -, first, -, hf⟩ := h
  exact ⟨_, (Option.some.inj hf).symm⟩

theorem exists_digest_of_conversation {f : String}
    (h : conversation sessionId body digest render store params f ≠ []) :
      ∃ text, f = digest text := by
  obtain ⟨row, hrow⟩ := List.exists_mem_of_ne_nil _ h
  have hmem := (sortAscending_perm _).mem_iff.mp hrow
  have hown := of_decide_eq_true (List.mem_filter.mp hmem).2
  rw [ownFingerprint] at hown
  split at hown
  · cases hown
  · obtain ⟨request, -, hf⟩ := Option.bind_eq_some_iff.mp hown
    exact exists_digest hf

/-- Of the newest 2000 records that can be listed, the timeline gives each to its session id, to one
group, or to those that belong nowhere, and it tells whether there are more. While the cache holds
nothing of another body for their ids, the groups are the conversations of the records' own
fingerprints, and so are the items of the one asked for. Asking with a key that was listed gives
the conversation that it was listed for. -/
theorem fingerprint_timeline (hiter : ∀ groups, (iter groups).Perm groups) {fuel : ℕ}
    (hfuel : 5 ≤ fuel)
    (hdigest : ∀ text, (digest text).toList ≠ [] ∧
      ∀ c ∈ (digest text).toList, isWhiteSpace c = false)
    (fingerprint : Option Text) :
    ∃ timeline cache', fingerprintMode sessionId body digest render iter fuel store params
      fingerprint
        cache = some (timeline, cache') ∧
      timeline.scanned = (scannedRows store params).length ∧
      timeline.truncated = decide (fingerprintScanCap < (listedRows store params.scan).length) ∧
      (timeline.sessions.map SessionSummary.count).sum + timeline.unassigned +
        (scannedRows store params).countP (fun row ↦ (sessionId row.data).isSome) =
          timeline.scanned ∧
      (timeline.sessions.Pairwise fun a b ↦ b.count ≤ a.count) ∧
      (timeline.sessions.map SessionSummary.fingerprint).Nodup ∧
      (Faithful body digest render (scannedRows store params) cache →
        Faithful body digest render (scannedRows store params) cache' ∧
        Told sessionId body digest render store params timeline ∧
        ∀ e ∈ timeline.sessions, ∃ again cache'',
          fingerprintMode sessionId body digest render iter fuel
            store params (some e.key.toList) cache' = some (again, cache'') ∧
          again.items = conversation sessionId body digest render store params e.fingerprint ∧
          again.items.length = e.count ∧ again.items.head? = e.first) := by
  obtain ⟨hwf, hcount⟩ :=
    @groups_partition _ sessionId body digest render (scannedRows store params) ⟨cache, [], 0⟩ .nil
  refine ⟨_, _, fingerprintMode_eq hfuel fingerprint, rfl, rfl, ?_, summaries_sorted,
    summaries_nodup hiter hwf, fun hcache ↦ ?_⟩
  · dsimp only
    rw [summaries_count hiter, grouping, hcount]
    exact Nat.zero_add _
  · obtain ⟨hkept, hbucket⟩ := @groups_exact _ sessionId _ _ _ _ (scannedRows store params) _
      (scannedRows_nodup store params) hcache fun _ h ↦ h
    have hsessions := mem_summaries hiter hwf hbucket
    refine ⟨hkept, ⟨fun f hf ↦ ?_, hsessions⟩, fun e he ↦ ?_⟩
    · dsimp only at hf ⊢
      rw [hf, itemsOf_eq hcache]
    · obtain ⟨f, hne, rfl⟩ := (hsessions e).mp he
      obtain ⟨text, rfl⟩ := exists_digest_of_conversation hne
      obtain ⟨hlong, hblank⟩ := hdigest text
      have hkey : normalizeFingerprint ("prefix:" ++ digest text).toList =
          (digest text).toList := by
        rw [String.toList_append]
        exact normalize_key hlong hblank
      have hwanted : ((some ("prefix:" ++ digest text).toList).map normalizeFingerprint).filter
          (· ≠ []) = some (digest text).toList := by
        rw [Option.map_some, hkey, Option.filter_eq_some_iff]
        exact ⟨rfl, decide_eq_true hlong⟩
      refine ⟨_, _, fingerprintMode_eq hfuel _, ?_⟩
      have hitems : itemsOf (grouping sessionId body digest render store params
          (grouping sessionId body digest render store params cache).cache).groups
          (some (digest text).toList) =
            conversation sessionId body digest render store params (digest text) :=
        itemsOf_eq hkept (digest text)
      dsimp only [summary]
      rw [hwanted, hitems]
      exact ⟨rfl, rfl, rfl⟩

def twoRecords : Shard (Option Text) where
  id := activeShard
  rows := [⟨1, some 10, none⟩, ⟨2, some 20, some ['S']⟩]
  nodup := by decide
  ids := by decide
  times := by decide

def alpha : Json :=
  .obj [("messages", .arr [.obj [("content", .str "alpha"), ("role", .str "user")]])]

theorem fingerprint_timeline_two :
    ∃ timeline cache', fingerprintMode id (fun _ ↦ some alpha) (fun _ ↦ "1bf972f3ccbd70f0")
      (fun _ ↦ "") id 5
        twoRecords {} none {} = some (timeline, cache') ∧
      timeline.scanned = (scannedRows twoRecords {}).length ∧
      Told id (fun _ ↦ some alpha) (fun _ ↦ "1bf972f3ccbd70f0") (fun _ ↦ "") twoRecords {}
        timeline := by
  obtain ⟨timeline, cache', hmode, hscanned, -, -, -, -, htold⟩ :=
    @fingerprint_timeline _ id (fun _ ↦ some alpha) (fun _ ↦ "1bf972f3ccbd70f0")
      (fun _ ↦ "") twoRecords {} {} id
      (fun _ ↦ .refl _) 5 (Nat.le_refl 5) (fun _ ↦ by simp [isWhiteSpace]) none
  exact ⟨timeline, cache', hmode, hscanned, (htold fun _ _ _ _ _ h ↦ by cases h).2.1⟩

end Timeline

end QueQiao.SessionTimeline
