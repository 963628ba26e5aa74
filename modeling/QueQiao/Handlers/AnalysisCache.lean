import QueQiao.Handlers.AnalysisApi
import QueQiao.Lib.FlatJson
import QueQiao.Lib.TimedCache
import QueQiao.Lib.Transition

namespace QueQiao.AnalysisApi

open Lib.FlatJson Lib.TimedCache Lib.Transition

structure QueryParams extends AnalysisParams where
  fromMs : Option ℤ := none
  toMs : Option ℤ := none
  source : Option String := none
  limit : Option ℤ := none
  deriving DecidableEq, Repr

inductive Endpoint
  | analysis
  | errors
  deriving DecidableEq, Repr

def Endpoint.kind : Endpoint → List Char
  | analysis => "analysis".toList
  | errors => "errors".toList

def optInt (n : Option ℤ) : Scalar := n.elim .null .int
def optStr (s : Option String) : Scalar := s.elim .null .str

theorem optInt_inj {n m : Option ℤ} (h : optInt n = optInt m) : n = m := by
  cases n <;> cases m <;> simp_all [optInt]

theorem optStr_inj {s t : Option String} (h : optStr s = optStr t) : s = t := by
  cases s <;> cases t <;> simp_all [optStr]

def fieldNames : List String :=
  ["from", "to", "type", "model", "status", "backend", "ip", "client", "apikey", "errors",
    "interval", "dimension", "orderBy", "page", "pageSize", "topLimit", "source", "limit"]

def QueryParams.values (p : QueryParams) : List Scalar :=
  [optInt p.fromMs, optInt p.toMs, optStr p.type, optStr p.model, optInt p.status,
    optStr p.backend, optStr p.ip, optStr p.client, optStr p.apikey, optStr p.errors,
    optStr p.interval, optStr p.dimension, optStr p.orderBy, optInt p.page, optInt p.pageSize,
    optInt p.topLimit, optStr p.source, optInt p.limit]

theorem QueryParams.values_inj {p q : QueryParams} (h : p.values = q.values) : p = q := by
  obtain ⟨⟨_, _, _, _, _, _, _, _, _, _, _, _, _, _⟩, _, _, _, _⟩ := p
  obtain ⟨⟨_, _, _, _, _, _, _, _, _, _, _, _, _, _⟩, _, _, _, _⟩ := q
  simp only [values, List.cons.injEq, and_true] at h
  obtain ⟨h₁, h₂, h₃, h₄, h₅, h₆, h₇, h₈, h₉, h₁₀, h₁₁, h₁₂, h₁₃, h₁₄, h₁₅, h₁₆, h₁₇, h₁₈⟩ := h
  obtain rfl := optInt_inj h₁
  obtain rfl := optInt_inj h₂
  obtain rfl := optStr_inj h₃
  obtain rfl := optStr_inj h₄
  obtain rfl := optInt_inj h₅
  obtain rfl := optStr_inj h₆
  obtain rfl := optStr_inj h₇
  obtain rfl := optStr_inj h₈
  obtain rfl := optStr_inj h₉
  obtain rfl := optStr_inj h₁₀
  obtain rfl := optStr_inj h₁₁
  obtain rfl := optStr_inj h₁₂
  obtain rfl := optStr_inj h₁₃
  obtain rfl := optInt_inj h₁₄
  obtain rfl := optInt_inj h₁₅
  obtain rfl := optInt_inj h₁₆
  obtain rfl := optStr_inj h₁₇
  obtain rfl := optInt_inj h₁₈
  rfl

structure Request where
  endpoint : Endpoint
  params : QueryParams
  deriving DecidableEq, Repr

def Request.cacheKey (r : Request) : List Char :=
  r.endpoint.kind ++ ':' :: objectText (fieldNames.zip r.params.values)

theorem cacheKey_inj {r r' : Request} (h : r.cacheKey = r'.cacheKey) : r = r' := by
  obtain ⟨endpoint, params⟩ := r
  obtain ⟨endpoint', params'⟩ := r'
  have htext : ∀ {e : Endpoint}, Request.cacheKey ⟨e, params⟩ = Request.cacheKey ⟨e, params'⟩ →
      params = params' := fun h ↦
    QueryParams.values_inj (objectText_inj rfl rfl (List.cons.inj (List.append_cancel_left h)).2)
  cases endpoint <;> cases endpoint'
  · rw [htext h]
  · exact absurd (List.cons.inj h).1 (by decide)
  · exact absurd (List.cons.inj h).1 (by decide)
  · rw [htext h]

def cacheTtl : ℕ := 30 * 60 * 1000
def cacheMaxEntries : ℕ := 256

variable {V : Type}

/-- `cache_get`: an entry that is too old is removed. -/
def cacheGet (now : ℕ) (cache : Cache (List Char) V) (key : List Char) :
    Option V × Cache (List Char) V :=
  if (cache.entry key).any fun e ↦ !e.live now then (none, cache.remove key)
  else (cache.get now key, cache)

def cachePut (now : ℕ) (cache : Cache (List Char) V) (key : List Char) (value : V) :
    Cache (List Char) V :=
  cache.put cacheMaxEntries false now key ⟨now, cacheTtl, value⟩

/-- A result that was built, and when it was put into the cache. -/
structure Built (V : Type) where
  request : Request
  value : V
  finished : ℕ

structure Answer (V : Type) where
  request : Request
  value : V
  time : ℕ

/-- The calls that found nothing in the cache, the ones that have been answered as `none`, with
what has been built and answered so far, the newest first. -/
structure Service (V : Type) where
  now : ℕ
  cache : Cache (List Char) V := .empty
  calls : List (Option Request) := []
  built : List (Built V) := []
  answers : List (Answer V) := []

inductive Event (V : Type)
  | tick (ms : ℕ)
  | call (r : Request)
  | finish (i : ℕ) (result : Option V)

def call (s : Service V) (r : Request) : Service V :=
  let found := cacheGet s.now s.cache r.cacheKey
  match found.1 with
  | some value => { s with cache := found.2, answers := ⟨r, value, s.now⟩ :: s.answers }
  | none => { s with cache := found.2, calls := s.calls ++ [some r] }

def finish (s : Service V) (i : ℕ) (r : Request) : Option V → Service V
  | none => { s with calls := s.calls.set i none }
  | some value =>
    { s with
      cache := cachePut s.now s.cache r.cacheKey value
      calls := s.calls.set i none
      built := ⟨r, value, s.now⟩ :: s.built
      answers := ⟨r, value, s.now⟩ :: s.answers }

def step (s : Service V) : Event V → Option (Service V)
  | .tick ms => some { s with now := s.now + ms }
  | .call r => some (call s r)
  | .finish i result =>
    match s.calls[i]? with
    | some (some r) => some (finish s i r result)
    | _ => none

def Built.write (b : Built V) : List Char × Entry V :=
  (b.request.cacheKey, ⟨b.finished, cacheTtl, b.value⟩)

/-- An answer is the last result for its request at its time, and not older than half an hour. -/
def Served (built : List (Built V)) (a : Answer V) : Prop :=
  ∃ b ∈ built, b.request = a.request ∧ b.value = a.value ∧ b.finished ≤ a.time ∧
    a.time - b.finished < cacheTtl ∧
    ∀ b' ∈ built, b'.request = a.request → b'.finished ≤ b.finished ∨ a.time ≤ b'.finished

structure Inv (s : Service V) : Prop where
  reflects : Reflects (s.built.map Built.write) s.cache
  size : s.cache.size ≤ cacheMaxEntries
  sorted : s.built.Pairwise fun b b' ↦ b'.finished ≤ b.finished
  past : ∀ b ∈ s.built, b.finished ≤ s.now
  served : ∀ a ∈ s.answers, Served s.built a ∧ a.time ≤ s.now

theorem inv_start (now : ℕ) : Inv (⟨now, .empty, [], [], []⟩ : Service V) where
  reflects := reflects_empty
  size := Nat.zero_le _
  sorted := .nil
  past _ h := nomatch h
  served _ h := nomatch h

variable {s : Service V} {r : Request} {value : V}

theorem built_of_last (hsorted : s.built.Pairwise fun b b' ↦ b'.finished ≤ b.finished)
    {e : Entry V} (h : last (s.built.map Built.write) r.cacheKey = some e) :
    ∃ b ∈ s.built, b.request = r ∧ e = ⟨b.finished, cacheTtl, b.value⟩ ∧
      ∀ b' ∈ s.built, b'.request = r → b'.finished ≤ b.finished := by
  generalize s.built = built at h hsorted
  induction built with
  | nil => cases h
  | cons b built ih =>
    obtain ⟨hle, hrest⟩ := List.pairwise_cons.mp hsorted
    rw [List.map_cons, Built.write, last_cons] at h
    split at h
    · rename_i hkey
      obtain rfl := Option.some.inj h
      refine ⟨b, List.mem_cons_self, cacheKey_inj hkey, rfl, fun b' hb' _ ↦ ?_⟩
      rcases List.mem_cons.mp hb' with rfl | hb'
      · exact le_rfl
      · exact hle b' hb'
    · rename_i hkey
      obtain ⟨b₀, hb₀, hr, he, hmax⟩ := ih h hrest
      refine ⟨b₀, List.mem_cons_of_mem _ hb₀, hr, he, fun b' hb' hr' ↦ ?_⟩
      rcases List.mem_cons.mp hb' with rfl | hb'
      · exact absurd (congrArg Request.cacheKey hr') hkey
      · exact hmax b' hb' hr'

theorem Served.mono {a : Answer V} {b : Built V} {built : List (Built V)} (h : Served built a)
    (hle : a.time ≤ b.finished) : Served (b :: built) a := by
  obtain ⟨b₀, hb₀, hr, hv, hpast, hfresh, hlast⟩ := h
  refine ⟨b₀, List.mem_cons_of_mem _ hb₀, hr, hv, hpast, hfresh, fun b' hb' hr' ↦ ?_⟩
  rcases List.mem_cons.mp hb' with rfl | hb'
  · exact .inr hle
  · exact hlast b' hb' hr'

theorem cacheGet_cache (now : ℕ) (cache : Cache (List Char) V) (key : List Char) :
    ∃ p, (cacheGet now cache key).2 = cache.filter p := by
  rw [cacheGet]
  split
  · exact ⟨_, rfl⟩
  · refine ⟨fun _ ↦ true, ?_⟩
    simp [Cache.filter]

theorem inv_call (h : Inv s) (r : Request) : Inv (call s r) := by
  obtain ⟨p, hp⟩ := cacheGet_cache s.now s.cache r.cacheKey
  have hreflects : Reflects (s.built.map Built.write) (cacheGet s.now s.cache r.cacheKey).2 := by
    rw [hp]
    exact h.reflects.filter p
  have hsize : (cacheGet s.now s.cache r.cacheKey).2.size ≤ cacheMaxEntries := by
    rw [hp]
    exact Nat.le_trans (List.length_filter_le ..) h.size
  rw [call]
  cases hfound : (cacheGet s.now s.cache r.cacheKey).1 with
  | none => exact ⟨hreflects, hsize, h.sorted, h.past, h.served⟩
  | some value =>
    refine ⟨hreflects, hsize, h.sorted, h.past, fun a ha ↦ ?_⟩
    rcases List.mem_cons.mp ha with rfl | ha
    · have hget : s.cache.get s.now r.cacheKey = some value := by
        rw [cacheGet] at hfound
        split at hfound
        · cases hfound
        · exact hfound
      obtain ⟨e, hlast, hlive, rfl⟩ := h.reflects.get_eq_some hget
      obtain ⟨b, hb, hr, rfl, hmax⟩ := built_of_last h.sorted hlast
      refine ⟨⟨b, hb, hr, rfl, h.past b hb, of_decide_eq_true hlive, ?_⟩, le_rfl⟩
      exact fun b' hb' hr' ↦ .inl (hmax b' hb' hr')
    · exact h.served a ha

theorem inv_finish (h : Inv s) (i : ℕ) (r : Request) (result : Option V) :
    Inv (finish s i r result) := by
  cases result with
  | none => exact ⟨h.reflects, h.size, h.sorted, h.past, h.served⟩
  | some value =>
    have hpast : ∀ b ∈ (⟨r, value, s.now⟩ : Built V) :: s.built, b.finished ≤ s.now := by
      intro b hb
      rcases List.mem_cons.mp hb with rfl | hb
      · exact le_rfl
      · exact h.past b hb
    refine ⟨h.reflects.put _ _ _ _ _, size_put_le h.size (by decide) _ _ _ _,
      List.pairwise_cons.mpr ⟨h.past, h.sorted⟩, hpast, fun a ha ↦ ?_⟩
    rcases List.mem_cons.mp ha with rfl | ha
    · refine ⟨⟨_, List.mem_cons_self, rfl, rfl, le_rfl, ?_, fun b' hb' _ ↦ .inl (hpast b' hb')⟩,
        le_rfl⟩
      rw [Nat.sub_self]
      decide
    · obtain ⟨hserved, hle⟩ := h.served a ha
      exact ⟨hserved.mono hle, hle⟩

theorem inv_step {s' : Service V} {e : Event V} (h : Inv s) (hs : step s e = some s') : Inv s' := by
  cases e with
  | tick ms =>
    obtain rfl := Option.some.inj hs
    refine ⟨h.reflects, h.size, h.sorted, fun b hb ↦ ?_, fun a ha ↦ ?_⟩
    · exact Nat.le_add_right_of_le (h.past b hb)
    · exact ⟨(h.served a ha).1, Nat.le_add_right_of_le (h.served a ha).2⟩
  | call r =>
    obtain rfl := Option.some.inj hs
    exact inv_call h r
  | finish i result =>
    simp only [step] at hs
    split at hs
    · obtain rfl := Option.some.inj hs
      exact inv_finish h i _ result
    · cases hs

/-- However calls of the two endpoints interleave, each is answered with a result that was built
for the same endpoint and parameters less than half an hour before, of these the last one, and
no more than 256 results are kept. -/
theorem analysis_served {now : ℕ} {tr : List (Service V × Event V)}
    (h : Path step ⟨now, .empty, [], [], []⟩ tr s) :
    s.cache.size ≤ cacheMaxEntries ∧ ∀ a ∈ s.answers, Served s.built a := by
  have hinv := h.invariant_all (inv_start now) fun _ _ _ hs hstep ↦ inv_step hs hstep
  exact ⟨hinv.size, fun a ha ↦ (hinv.served a ha).1⟩

def overview : Request := ⟨.analysis, {}⟩

/-- A call of the overview that finds nothing, its result, and a second call a minute later. -/
def overviewTwice : Service ℕ :=
  call { finish (call ⟨0, .empty, [], [], []⟩ overview) 0 overview (some 7) with now := 60000 }
    overview

theorem overviewTwice_path : Path step (⟨0, .empty, [], [], []⟩ : Service ℕ)
    [(⟨0, .empty, [], [], []⟩, .call overview),
      (call ⟨0, .empty, [], [], []⟩ overview, .finish 0 (some 7)),
      (finish (call ⟨0, .empty, [], [], []⟩ overview) 0 overview (some 7), .tick 60000)]
    { finish (call ⟨0, .empty, [], [], []⟩ overview) 0 overview (some 7) with now := 60000 } :=
  .snoc (.snoc (.snoc .nil rfl) rfl) rfl

theorem analysis_served_overview : overviewTwice.cache.size ≤ cacheMaxEntries ∧
    ∀ a ∈ overviewTwice.answers, Served overviewTwice.built a :=
  analysis_served (.snoc overviewTwice_path rfl : Path step _ (_ ++ [(_, .call overview)]) _)

def Service.recent (s : Service V) : List (Built V) :=
  s.built.filter fun b ↦ s.now - b.finished < cacheTtl

/-- The result for a request that was built last, while it is less than half an hour old. -/
def Service.current (s : Service V) (r : Request) : Option V :=
  ((s.built.find? (·.request = r)).filter fun b ↦ s.now - b.finished < cacheTtl).map Built.value

def Roomy (s : Service V) : Event V → Prop
  | .finish _ (some _) => s.recent.length < cacheMaxEntries
  | _ => True

theorem length_live (s : Service V) :
    ((s.built.map Built.write).filter fun row ↦ row.2.live s.now).length = s.recent.length := by
  rw [List.filter_map, List.length_map]
  rfl

theorem last_write (built : List (Built V)) (r : Request) :
    last (built.map Built.write) r.cacheKey =
      (built.find? (·.request = r)).map fun b ↦ b.write.2 := by
  induction built with
  | nil => rfl
  | cons b built ih =>
    rw [List.map_cons, Built.write, last_cons]
    split
    · rename_i hkey
      rw [List.find?_cons_of_pos (by simpa using cacheKey_inj hkey)]
      rfl
    · rename_i hkey
      rw [List.find?_cons_of_neg (by simpa using fun hr ↦ hkey (congrArg Request.cacheKey hr)), ih]

theorem holds_cacheGet {now : ℕ} {writes : List (List Char × Entry V)} {cache : Cache (List Char) V}
    (h : Holds now writes cache) (hr : Reflects writes cache) (key : List Char) :
    Holds now writes (cacheGet now cache key).2 := by
  rw [cacheGet]
  split
  · rename_i hold
    intro k e hlast hlive
    refine List.mem_filter.mpr ⟨h k e hlast hlive, decide_eq_true ?_⟩
    rintro rfl
    obtain ⟨e', hentry, hnot⟩ := (Option.any_eq_true _ _).mp hold
    have hlast' := hr k e' (entry_eq_some_iff.mp hentry)
    rw [hlast] at hlast'
    obtain rfl := Option.some.inj hlast'
    rw [hlive] at hnot
    cases hnot
  · exact h

theorem holds_step {s' : Service V} {e : Event V} (h : Inv s)
    (hh : Holds s.now (s.built.map Built.write) s.cache) (hok : Roomy s e)
    (hs : step s e = some s') : Holds s'.now (s'.built.map Built.write) s'.cache := by
  cases e with
  | tick ms =>
    obtain rfl := Option.some.inj hs
    exact hh.mono (Nat.le_add_right ..)
  | call r =>
    obtain rfl := Option.some.inj hs
    have hget := holds_cacheGet hh h.reflects r.cacheKey
    rw [call]
    cases (cacheGet s.now s.cache r.cacheKey).1 with
    | none => exact hget
    | some value => exact hget
  | finish i result =>
    simp only [step] at hs
    split at hs
    · obtain rfl := Option.some.inj hs
      cases result with
      | none => exact hh
      | some value =>
        have hroom : ((s.built.map Built.write).filter fun row ↦ row.2.live s.now).length <
            cacheMaxEntries := by
          rw [length_live]
          exact hok
        exact hh.put h.reflects hroom false _ _
    · cases hs

/-- As long as results come into a cache with fewer than 256 of the last half hour, a call finds
there what was built last for its endpoint and parameters in that time, and only then builds. -/
theorem analysis_hits {now : ℕ} {tr : List (Service V × Event V)}
    (h : Path step ⟨now, .empty, [], [], []⟩ tr s) (hroomy : ∀ p ∈ tr, Roomy p.1 p.2)
    (r : Request) : (cacheGet s.now s.cache r.cacheKey).1 = s.current r := by
  have hall : Inv s ∧ Holds s.now (s.built.map Built.write) s.cache :=
    h.invariant (P := fun s ↦ Inv s ∧ Holds s.now (s.built.map Built.write) s.cache) Roomy hroomy
      ⟨inv_start now, fun _ _ hlast ↦ nomatch hlast⟩
      fun _ _ _ hs hok hstep ↦ ⟨inv_step hs.1 hstep, holds_step hs.1 hs.2 hok hstep⟩
  have hget := hall.1.reflects.get_eq hall.2 r.cacheKey
  rw [last_write] at hget
  have hcurrent : s.cache.get s.now r.cacheKey = s.current r := by
    rw [hget, Service.current]
    cases s.built.find? (·.request = r) with
    | none => rfl
    | some b =>
      have hlive : b.write.2.live s.now = decide (s.now - b.finished < cacheTtl) := rfl
      rw [Option.map_some, Option.filter_some, Option.filter_some, hlive]
      split
      · rfl
      · rfl
  rw [cacheGet]
  split
  · rename_i hold
    obtain ⟨e, hentry, hnot⟩ := (Option.any_eq_true _ _).mp hold
    have hnone : s.cache.get s.now r.cacheKey = none := by
      have hdead : e.live s.now = false := by simpa using hnot
      rw [Cache.get, hentry, Option.filter_some_neg hdead]
      rfl
    exact hnone.symm.trans hcurrent
  · exact hcurrent

theorem analysis_hits_overview :
    let s : Service ℕ :=
      { finish (call ⟨0, .empty, [], [], []⟩ overview) 0 overview (some 7) with now := 60000 }
    (cacheGet s.now s.cache overview.cacheKey).1 = s.current overview := by
  refine analysis_hits overviewTwice_path (fun p hp ↦ ?_) overview
  simp only [List.mem_cons, List.not_mem_nil, or_false] at hp
  rcases hp with rfl | rfl | rfl
  · trivial
  · exact (by decide : (0 : ℕ) < cacheMaxEntries)
  · trivial

end QueQiao.AnalysisApi
